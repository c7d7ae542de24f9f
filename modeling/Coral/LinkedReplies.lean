import Coral.Agreement
import Coral.LinkedCalls
import Coral.Replies

/-!
# Every reply of a linked container

The state of a linked container is the sequence of its entries: `replies_of_sequence` says what every
call replies in any run of calls, the queries and the sorted traversal among them, and that nothing but
the sequence decides it. A sorted answer is that of the sequence sorted.
-/

namespace Coral

namespace LinkedRedBlackTreeContainer
open Prog Places ThreeWay

variable {P F O : Type} {R : RockTree P} {L : RockList P}

/-- The calls on a container that is in use, with arguments that are not `NULL`; `v` is what `out`
points to before. -/
inductive Use (P : Type) where
  | count (v : Nat)
  | add (entry : P)
  | insert (entry item : P)
  | remove (entry : P)
  | query (q : Query) (key : P) (v : Option P)
  | sortedFirst (v : Option P)
  | sortedLast (v : Option P)
  | sortedNext (entry : P) (v : Option P)
  | sortedPrev (entry : P) (v : Option P)
  | first (v : Option P)
  | last (v : Option P)
  | next (entry : P) (v : Option P)
  | prev (entry : P) (v : Option P)

def Use.call : Use P → Call P F
  | .count v => .count (some v)
  | .add entry => .add (some entry)
  | .insert entry item => .insert (some entry) (some item)
  | .remove entry => .remove (some entry)
  | .query q key v => .query q (some key) (some v)
  | .sortedFirst v => .sortedFirst (some v)
  | .sortedLast v => .sortedLast (some v)
  | .sortedNext entry v => .sortedNext (some entry) (some v)
  | .sortedPrev entry v => .sortedPrev (some entry) (some v)
  | .first v => .first (some v)
  | .last v => .last (some v)
  | .next entry v => .next (some entry) (some v)
  | .prev entry v => .prev (some entry) (some v)

namespace InsertionOrder
variable [DecidableEq P]

/-- What a call leaves of the sequence. -/
def after (cmp : P → P → Int) (l : List P) : Use P → List P
  | .add entry => (step cmp l (.add entry)).2
  | .insert entry item => (step cmp l (.insert entry item)).2
  | .remove entry => (step cmp l (.remove entry)).2
  | _ => l

/-- The candidates are those of `pool`; the calls that take an entry of the container get one. -/
def Allowed (pool : P → Prop) (l : List P) : Use P → Prop
  | .add entry => pool entry
  | .insert entry item => entry ∈ l ∧ pool item
  | .remove entry | .sortedNext entry _ | .sortedPrev entry _ | .next entry _ | .prev entry _ => entry ∈ l
  | _ => True

instance (pool : P → Prop) [DecidablePred pool] (l : List P) :
    (use : Use P) → Decidable (Allowed pool l use)
  | .add entry => inferInstanceAs (Decidable (pool entry))
  | .insert entry item => inferInstanceAs (Decidable (entry ∈ l ∧ pool item))
  | .remove entry | .sortedNext entry _ | .sortedPrev entry _ | .next entry _ | .prev entry _ =>
    inferInstanceAs (Decidable (entry ∈ l))
  | .count _ | .query _ _ _ | .sortedFirst _ | .sortedLast _ | .first _ | .last _ => isTrue trivial

/-- What a container replies whose entries were put in the order `l`. -/
def Replies (cmp : P → P → Int) (l : List P) : Use P → Reply P → Prop
  | .count _, r => r = .count (.ok, some l.length)
  | .add entry, r => r = .code (step cmp l (.add entry)).1
  | .insert entry item, r => r = .code (step cmp l (.insert entry item)).1
  | .remove entry, r => r = .code (step cmp l (.remove entry)).1
  | .query q key v, r => ∃ a, r = .entry a ∧ q.Reports cmp (sorted cmp l) key v a
  | .sortedFirst v, r => r = .entry (outcome .rockTreeTreeIsEmpty (some v) (sorted cmp l).head?)
  | .sortedLast v, r => r = .entry (outcome .rockTreeTreeIsEmpty (some v) (sorted cmp l).getLast?)
  | .sortedNext entry v, r =>
    r = .entry (outcome .rockTreeEndOfSequence (some v) (Query.higher.best cmp (sorted cmp l) entry))
  | .sortedPrev entry v, r =>
    r = .entry (outcome .rockTreeEndOfSequence (some v) (Query.lower.best cmp (sorted cmp l) entry))
  | .first v, r => r = .entry (outcome .rockTreeTreeIsEmpty (some v) l.head?)
  | .last v, r => r = .entry (outcome .rockTreeTreeIsEmpty (some v) l.getLast?)
  | .next entry v, r => r = .entry (outcome .rockTreeEndOfSequence (some v) (follower entry l))
  | .prev entry v, r => r = .entry (outcome .rockTreeEndOfSequence (some v) (follower entry l.reverse))

end InsertionOrder

/-! ### The tree alone -/

section unlinked
variable [DecidableEq O] {call : F → P → P → Int} {f : F} {pool : P → Prop} {object : O} {l : List P}
  {w : World O (LinkedRedBlackTreeContainer R L F) (Event P)}

/-- The containers without their lists. -/
def unlinked (w : World O (LinkedRedBlackTreeContainer R L F) (Event P)) :
    World O (RedBlackTreeContainer R F) (Event P) :=
  ⟨none, fun object => ⟨(w.mem object).tree, (w.mem object).compare⟩, []⟩

omit [DecidableEq O] in
theorem Holds.unlinked (h : Holds call f pool l (w.mem object)) :
    RedBlackTreeContainer.Holds call f object (R.nodes (w.mem object).tree) (unlinked w) :=
  ⟨h.compare, h.sorted⟩

omit [DecidableEq O] in
theorem Holds.sorted_eq (hc : TotalPreorder (call f)) (h : Holds call f pool l (w.mem object)) :
    ThreeWay.sorted (call f) l = R.nodes (w.mem object).tree :=
  ThreeWay.sorted_eq hc h.sorted.ascending h.same

/-- A function that writes nothing returns what that of the plain container returns. -/
theorem run_of_unlinked {α : Type} {p : M O R L F α} {p' : RedBlackTreeContainer.M O R F α} {a : α}
    {w' : World O (RedBlackTreeContainer R F) (Event P)}
    (hp : Agreement.Together call object false p p') (hwithin : p.Within object (· = w.mem object))
    (hrun : p'.run (RedBlackTreeContainer.answer call) (unlinked w) = some (a, w')) :
    ∃ v, p.run (answer call) w = some (a, v) ∧ v.mem = w.mem := by
  have hat : At Agreement.Same object false w (unlinked w) :=
    ⟨⟨rfl, rfl⟩, fun hb => absurd hb Bool.false_ne_true⟩
  rcases (hp w (unlinked w) hat).cases with ⟨-, hn⟩ | ⟨b, v, v', hv, hv', -⟩
  · rw [hrun] at hn
    cases hn
  · obtain ⟨rfl, -⟩ := Prod.mk.inj (Option.some.inj (hrun.symm.trans hv'))
    exact ⟨v, hv, hwithin.mem_eq plain_mem hv⟩

end unlinked

section
variable [DecidableEq O] [DecidableEq P] {call : F → P → P → Int} {f : F} {pool : P → Prop} {object : O}
  {l : List P} {w w₀ w₁ : World O (LinkedRedBlackTreeContainer R L F) (Event P)}
  (hR : R.Lawful) (hL : L.Lawful) (hc : TotalPreorder (call f))
include hR hc

/-- The queries see the sequence sorted. -/
theorem query_spec (h : Holds call f pool l (w.mem object)) (q : Query) (key : P) (v : Option P) :
    ∃ r w', (query (some object) (some key) (some v) q : M O R L F _).run (answer call) w = some (r, w') ∧
      w'.mem = w.mem ∧ q.Reports (call f) (ThreeWay.sorted (call f) l) key v r := by
  obtain ⟨r, hrun, hr⟩ := RedBlackTreeContainer.query_spec hR hc h.unlinked q key v
  rw [h.sorted_eq hc]
  have htogether : Agreement.Together call object false (query (some object) (some key) (some v) q : M O R L F _)
      (RedBlackTreeContainer.query (some object) (some key) (some v) q) := by
    rw [query_eq, RedBlackTreeContainer.query_eq]
    exact Agreement.same_alike.query (some key) (some v) q
  obtain ⟨w', hw', hmem⟩ := run_of_unlinked htogether (query_within q _) hrun
  exact ⟨r, w', hw', hmem, hr⟩

theorem sortedEnds_spec (h : Holds call f pool l (w.mem object)) (v : Option P) :
    (∃ w', (sortedFirst (some object) (some v) : M O R L F _).run (answer call) w =
        some (outcome .rockTreeTreeIsEmpty (some v) (ThreeWay.sorted (call f) l).head?, w') ∧ w'.mem = w.mem) ∧
      ∃ w', (sortedLast (some object) (some v) : M O R L F _).run (answer call) w =
        some (outcome .rockTreeTreeIsEmpty (some v) (ThreeWay.sorted (call f) l).getLast?, w') ∧
          w'.mem = w.mem := by
  rw [h.sorted_eq hc]
  exact ⟨run_of_unlinked (Agreement.same_alike.firstOrLast _ _) (.stays (Layout.firstOrLast_stays _))
      (RedBlackTreeContainer.first_spec hR h.unlinked v),
    run_of_unlinked (Agreement.same_alike.firstOrLast _ _) (.stays (Layout.firstOrLast_stays _))
      (RedBlackTreeContainer.last_spec hR h.unlinked v)⟩

theorem sortedNeighbours_spec (h : Holds call f pool l (w.mem object)) {entry : P} (he : entry ∈ l)
    (v : Option P) :
    (∃ w', (sortedNext object (some entry) (some v) : M O R L F _).run (answer call) w =
        some (outcome .rockTreeEndOfSequence (some v)
          (Query.higher.best (call f) (ThreeWay.sorted (call f) l) entry), w') ∧ w'.mem = w.mem) ∧
      ∃ w', (sortedPrev object (some entry) (some v) : M O R L F _).run (answer call) w =
        some (outcome .rockTreeEndOfSequence (some v)
          (Query.lower.best (call f) (ThreeWay.sorted (call f) l) entry), w') ∧ w'.mem = w.mem := by
  obtain ⟨hnext, hprev⟩ := RedBlackTreeContainer.neighbours hR hc h.unlinked (h.mem_iff.2 he) v
  rw [h.sorted_eq hc]
  exact ⟨run_of_unlinked (Agreement.same_alike.nextOrPrev _ _ _) (.stays (Layout.nextOrPrev_stays _ _)) hnext,
    run_of_unlinked (Agreement.same_alike.nextOrPrev _ _ _) (.stays (Layout.nextOrPrev_stays _ _)) hprev⟩

include hL

theorem use_spec (h : Holds call f pool l (w.mem object)) (use : Use P)
    (hok : InsertionOrder.Allowed pool l use) :
    ∃ r w', ((use.call : Call P F).exec object : M O R L F _).run (answer call) w = some (r, w') ∧
      InsertionOrder.Replies (call f) l use r ∧
      Holds call f pool (InsertionOrder.after (call f) l use) (w'.mem object) := by
  -- a call that writes nothing leaves what was there
  have hread : ∀ {α : Type} {p : M O R L F α} {g : α → Reply P} {a : α} {w' : _},
      p.run (answer call) w = some (a, w') → w'.mem = w.mem → InsertionOrder.after (call f) l use = l →
      InsertionOrder.Replies (call f) l use (g a) →
      ∃ r w', (p.bind fun a => .ret (g a)).run (answer call) w = some (r, w') ∧
        InsertionOrder.Replies (call f) l use r ∧
        Holds call f pool (InsertionOrder.after (call f) l use) (w'.mem object) := by
    intro α p g a w' hrun hmem hafter hreply
    exact ⟨_, w', run_seq _ hrun, hreply, by rw [hafter, hmem]; exact h⟩
  cases use with
  | count v => exact hread (count_spec h v) rfl rfl rfl
  | add entry =>
    obtain ⟨w', hrun, h'⟩ := step_refines hR hL hc h (.add entry) hok
    exact ⟨_, w', run_seq _ hrun, rfl, h'⟩
  | insert entry item =>
    obtain ⟨w', hrun, h'⟩ := step_refines hR hL hc h (.insert entry item) ⟨h.mem_iff.2 hok.1, hok.2⟩
    exact ⟨_, w', run_seq _ hrun, rfl, h'⟩
  | remove entry =>
    obtain ⟨w', hrun, h'⟩ := step_refines hR hL hc h (.remove entry) (h.mem_iff.2 hok)
    exact ⟨_, w', run_seq _ hrun, rfl, h'⟩
  | query q key v =>
    obtain ⟨r, w', hrun, hmem, hr⟩ := query_spec hR hc h q key v
    exact hread hrun hmem rfl ⟨r, rfl, hr⟩
  | sortedFirst v =>
    obtain ⟨w', hrun, hmem⟩ := (sortedEnds_spec hR hc h v).1
    exact hread hrun hmem rfl rfl
  | sortedLast v =>
    obtain ⟨w', hrun, hmem⟩ := (sortedEnds_spec hR hc h v).2
    exact hread hrun hmem rfl rfl
  | sortedNext entry v =>
    obtain ⟨w', hrun, hmem⟩ := (sortedNeighbours_spec hR hc h hok v).1
    exact hread hrun hmem rfl rfl
  | sortedPrev entry v =>
    obtain ⟨w', hrun, hmem⟩ := (sortedNeighbours_spec hR hc h hok v).2
    exact hread hrun hmem rfl rfl
  | first v => exact hread (first_spec h v) rfl rfl rfl
  | last v => exact hread (last_spec hL h v) rfl rfl rfl
  | next entry v =>
    obtain ⟨pre, post, rfl⟩ := List.append_of_mem hok
    refine hread (next_spec hL h rfl v) rfl rfl ?_
    rw [← follower_mid (h.keeps.nodup ())]
    rfl
  | prev entry v =>
    obtain ⟨pre, post, rfl⟩ := List.append_of_mem hok
    refine hread (prev_spec hL h rfl v) rfl rfl ?_
    rw [← follower_reverse (h.keeps.nodup ())]
    rfl

/-- In any run of calls that starts with `init`, every reply is the one the sequence of the entries
gives, and the container shows that sequence at the end. -/
theorem replies_of_sequence (halone : ∀ x, pool x → Links.Alone (L.links (w₀.mem object).nodes) x)
    (hinit : (init (some object) (some f)).run (answer call) w₀ = some (.ok, w₁)) (uses : List (Use P))
    (hok : Machine.Permitted (InsertionOrder.after (call f)) (InsertionOrder.Allowed pool) [] uses) :
    ∃ replies w, Machine.runAll (fun use : Use P => (use.call.exec object).run (answer call)) uses w₁ =
        some (replies, w) ∧ replies.length = uses.length ∧
      Machine.Admitted (fun l use _ => InsertionOrder.after (call f) l use) (InsertionOrder.Replies (call f))
        [] (uses.zip replies) ∧
      Agree call f object (uses.foldl (InsertionOrder.after (call f)) []) w ∧
      Shows call f object (uses.foldl (InsertionOrder.after (call f)) []) w := by
  obtain ⟨w', hw', h⟩ := init_spec hR call f object w₀ halone
  obtain rfl : w' = w₁ := by simpa [hw'] using hinit
  have hstep : ∀ w l use, Holds call f pool l (w.mem object) → InsertionOrder.Allowed pool l use →
      ∃ r w', ((use.call : Call P F).exec object : M O R L F _).run (answer call) w = some (r, w') ∧
        InsertionOrder.Replies (call f) l use r ∧
        Holds call f pool (InsertionOrder.after (call f) l use) (w'.mem object) :=
    fun w l use h hok => use_spec hR hL hc h use hok
  obtain ⟨replies, w, hrun, hlen, hadm, h⟩ := Machine.sim_admitted hstep uses h hok
  exact ⟨replies, w, hrun, hlen, hadm, h.agree hc, h.shows hL⟩

end

/-- Calls of every kind; 20 is taken out and put in again. -/
def mixed : List (Use Nat) :=
  [.add 20, .insert 20 10, .count 0, .query .floor 15 none, .insert 10 15, .sortedNext 10 none,
    .next 15 none, .remove 20, .add 20, .prev 20 none, .sortedPrev 20 none, .query .ceiling 11 none,
    .add 10, .last none]

theorem replies_of_sequence_example :
    ∃ (w₁ w : World Unit (LinkedRedBlackTreeContainer (Reference.tree : RockTree Nat) Reference.list Unit)
        (Event Nat)) (replies : List (Reply Nat)),
      (init (some ()) (some ())).run (answer Reference.compare) blank = some (.ok, w₁) ∧
      Machine.runAll (fun use : Use Nat => (use.call.exec ()).run (answer Reference.compare)) mixed w₁ =
        some (replies, w) ∧
      Machine.Admitted (fun l use _ => InsertionOrder.after (Reference.compare ()) l use)
        (InsertionOrder.Replies (Reference.compare ())) [] (mixed.zip replies) ∧
      Shows Reference.compare () () [15, 10, 20] w := by
  obtain ⟨replies, w, hrun, -, hadm, -, hshows⟩ := replies_of_sequence Reference.tree_lawful
    Reference.list_lawful Reference.compare_total (fun x (_ : x < 30) => ⟨rfl, rfl⟩)
    (rfl : (init (some ()) (some ())).run (answer Reference.compare) blank = some (.ok, _)) mixed (by decide)
  exact ⟨_, w, replies, rfl, hrun, hadm, hshows⟩

end LinkedRedBlackTreeContainer

end Coral
