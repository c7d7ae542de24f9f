import Coral.Calls
import Coral.Lib.Machine
import Coral.Nearest

/-!
# Every reply of a red-black-tree container

A container that stores `S` replies to every call as the list `S` says (`Replies`); only `ceiling` and
`higher` may report nothing where there is an entry to report (`MayMiss`). So what a client is told
depends on the stored entries and on nothing else: `history_independent` compares two containers that
were filled in different ways, by different trees.
-/

namespace Coral
open ThreeWay

/-- The entry a query is to report, of the ascending list `S`. -/
def Query.best {P : Type} (cmp : P → P → Int) (S : List P) (key : P) : Query → Option P
  | .get => S.find? fun e => cmp key e = 0
  | .ceiling => S.find? fun e => cmp key e ≤ 0
  | .floor => (S.filter fun e => 0 ≤ cmp key e).getLast?
  | .higher => S.find? fun e => cmp key e < 0
  | .lower => (S.filter fun e => 0 < cmp key e).getLast?

/-- The queries that do not step on to the successor of the node their search ended at. -/
def Query.MayMiss (q : Query) : Prop := q = .ceiling ∨ q = .higher

instance (q : Query) : Decidable q.MayMiss := inferInstanceAs (Decidable (_ ∨ _))

/-- What a query reports: the entry it is to report, or, if it may miss it, nothing. -/
def Query.Reports {P : Type} (cmp : P → P → Int) (S : List P) (key : P) (v : Option P) (q : Query)
    (r : Code × Out (Option P)) : Prop :=
  r = outcome .rockTreeNodeNotFound (some v) (q.best cmp S key) ∨
    q.MayMiss ∧ r = (.rockTreeNodeNotFound, some v)

namespace RedBlackTreeContainer
open Prog SearchTree

variable {P F O : Type} {R : RockTree P}

/-- The calls on a container that is in use, with arguments that are not `NULL`; `v` is what `out`
points to before. -/
inductive Use (P : Type) where
  | count (v : Nat)
  | add (entry : P)
  | remove (entry : P)
  | query (q : Query) (key : P) (v : Option P)
  | first (v : Option P)
  | last (v : Option P)
  | next (entry : P) (v : Option P)
  | prev (entry : P) (v : Option P)

def Use.call : Use P → Call P F
  | .count v => .count (some v)
  | .add entry => .add (some entry)
  | .remove entry => .remove (some entry)
  | .query q key v => .query q (some key) (some v)
  | .first v => .first (some v)
  | .last v => .last (some v)
  | .next entry v => .next (some entry) (some v)
  | .prev entry v => .prev (some entry) (some v)

namespace SortedSet
variable [DecidableEq P]

/-- What a call leaves of a sorted set. -/
def after (cmp : P → P → Int) (S : List P) : Use P → List P
  | .add entry => (step cmp S (.add entry)).2
  | .remove entry => (step cmp S (.remove entry)).2
  | _ => S

/-- Only a stored entry may be removed or stepped from. -/
def Allowed (S : List P) : Use P → Prop
  | .remove entry | .next entry _ | .prev entry _ => entry ∈ S
  | _ => True

instance (S : List P) : (use : Use P) → Decidable (Allowed S use)
  | .remove entry | .next entry _ | .prev entry _ => inferInstanceAs (Decidable (entry ∈ S))
  | .count _ | .add _ | .query _ _ _ | .first _ | .last _ => isTrue trivial

/-- What a sorted set replies. The neighbours of an entry are those nearest to it. -/
def Replies (cmp : P → P → Int) (S : List P) : Use P → Reply P → Prop
  | .count _, r => r = .count (.ok, some S.length)
  | .add entry, r => r = .code (step cmp S (.add entry)).1
  | .remove entry, r => r = .code (step cmp S (.remove entry)).1
  | .query q key v, r => ∃ a, r = .entry a ∧ q.Reports cmp S key v a
  | .first v, r => r = .entry (outcome .rockTreeTreeIsEmpty (some v) S.head?)
  | .last v, r => r = .entry (outcome .rockTreeTreeIsEmpty (some v) S.getLast?)
  | .next entry v, r =>
    r = .entry (outcome .rockTreeEndOfSequence (some v) (Query.higher.best cmp S entry))
  | .prev entry v, r =>
    r = .entry (outcome .rockTreeEndOfSequence (some v) (Query.lower.best cmp S entry))

end SortedSet

section best
variable {cmp : P → P → Int} {pre post : List P} {a key : P}

/-- What the queries are to report where the key falls between two entries. -/
theorem best_between (hpre : ∀ e ∈ pre, 0 < cmp key e) (hpost : ∀ e ∈ post, cmp key e < 0) :
    Query.get.best cmp (pre ++ post) key = none ∧
    Query.ceiling.best cmp (pre ++ post) key = post.head? ∧
    Query.floor.best cmp (pre ++ post) key = pre.getLast? ∧
    Query.higher.best cmp (pre ++ post) key = post.head? ∧
    Query.lower.best cmp (pre ++ post) key = pre.getLast? := by
  have hpre' : ∀ e ∈ pre, ¬ cmp key e ≤ 0 ∧ ¬ cmp key e < 0 ∧ 0 ≤ cmp key e := fun e he => by
    have := hpre e he
    omega
  have hpost' : ∀ e ∈ post, cmp key e ≤ 0 ∧ ¬ 0 ≤ cmp key e ∧ ¬ 0 < cmp key e := fun e he => by
    have := hpost e he
    omega
  refine ⟨?_, find?_cut (fun e he => (hpre' e he).1) fun e he => (hpost' e he).1, ?_,
    find?_cut (fun e he => (hpre' e he).2.1) hpost, ?_⟩
  · have hne : ∀ e ∈ pre ++ post, cmp key e ≠ 0 :=
      List.forall_mem_append.2 ⟨fun e he => by have := hpre e he; omega,
        fun e he => by have := hpost e he; omega⟩
    exact List.find?_eq_none.2 fun e he => by simpa using hne e he
  · exact congrArg List.getLast? (filter_cut (fun e he => (hpre' e he).2.2) fun e he => (hpost' e he).2.1)
  · exact congrArg List.getLast? (filter_cut hpre fun e he => (hpost' e he).2.2)

/-- What they are to report where an entry is equal to the key. -/
theorem best_hit (hc : TotalPreorder cmp) (hs : Ascending cmp (pre ++ a :: post)) (hk : cmp key a = 0) :
    Query.get.best cmp (pre ++ a :: post) key = some a ∧
    Query.ceiling.best cmp (pre ++ a :: post) key = some a ∧
    Query.floor.best cmp (pre ++ a :: post) key = some a ∧
    Query.higher.best cmp (pre ++ a :: post) key = post.head? ∧
    Query.lower.best cmp (pre ++ a :: post) key = pre.getLast? := by
  obtain ⟨hpre, hpost⟩ := hs.cut_hit hc hk
  have hnot : ∀ e ∈ pre, ¬ cmp key e ≤ 0 := fun e he => by
    have := hpre e he
    omega
  have hle : ∀ e ∈ a :: post, cmp key e ≤ 0 :=
    List.forall_mem_cons.2 ⟨by omega, fun e he => by have := hpost e he; omega⟩
  have hge : ∀ e ∈ pre ++ [a], 0 ≤ cmp key e ∧ ¬ cmp key e < 0 :=
    List.forall_mem_append.2 ⟨fun e he => by have := hpre e he; omega,
      List.forall_mem_singleton.2 (by omega)⟩
  refine ⟨hs.find?_eq hc (by simp) hk, find?_cut hnot hle, ?_, ?_, ?_⟩
  · rw [List.append_cons, Query.best,
      filter_cut (fun e he => (hge e he).1) fun e he => by have := hpost e he; omega,
      List.getLast?_concat]
  · rw [List.append_cons]
    exact find?_cut (fun e he => (hge e he).2) hpost
  · exact congrArg List.getLast? (filter_cut hpre fun e he => by have := hle e he; omega)

end best

section
variable [DecidableEq O] [DecidableEq P] {call : F → P → P → Int} {f : F} {object : O} {S : List P}
  {w : World O (RedBlackTreeContainer R F) (Event P)}
  (hR : R.Lawful) (hc : TotalPreorder (call f))
include hR hc

theorem query_hit (h : Holds call f object (R.nodes (w.mem object).tree) w) {key a : P} {pre post : List P}
    (ht : R.nodes (w.mem object).tree = pre ++ a :: post) (hk : call f key a = 0)
    (hfind : (layout.find object key).run (answer call) (w.enter object) = some ((.ok, some a), w.enter object))
    (q : Query) (v : Option P) :
    (query (some object) (some key) (some v) q : M O R F _).run (answer call) w =
      some (outcome .rockTreeNodeNotFound (some v) (q.best (call f) (pre ++ a :: post) key),
        w.enter object) := by
  have hs : Ascending (call f) (pre ++ a :: post) := ht ▸ h.sorted.ascending
  obtain ⟨hget, hceiling, hfloor, hhigher, hlower⟩ := best_hit hc hs hk
  cases q with
  | get =>
    rw [hget]
    exact run_seq _ hfind
  | ceiling =>
    rw [hceiling]
    exact run_seq _ hfind
  | floor =>
    rw [hfloor]
    exact run_seq _ hfind
  | higher =>
    rw [hhigher]
    exact (run_seq _ hfind).trans (run_next hR hc (ht ▸ h.enter) (some v))
  | lower =>
    rw [hlower]
    exact (run_seq _ hfind).trans (run_stepBack hR hc h ht (by omega) v)

omit [DecidableEq P] hR hc in
/-- `ceiling` and `higher` compare the key with the node their search ended at, and give up when the
key is above it. -/
theorem run_foundOrNot (h : Holds call f object S w) (key p : P) (v : Option P) :
    ((entityCompare key p).bind fun c => if 0 < c then .ret (.rockTreeNodeNotFound, some v)
        else found (some p) : M O R F _).run (answer call) (w.enter object) =
      some (outcome .rockTreeNodeNotFound (some v) (if 0 < call f key p then none else some p),
        w.enter object) := by
  refine (run_seq _ (run_entityCompare h.enter rfl key p)).trans ?_
  by_cases hp : 0 < call f key p
  · rw [if_pos hp, if_pos hp]
    rfl
  · rw [if_neg hp, if_neg hp]
    rfl

theorem query_miss (h : Holds call f object (R.nodes (w.mem object).tree) w) {key : P} {last : Option P}
    (hends : Ends (call f) key none (R.shape (w.mem object).tree) (.miss last))
    (hfind : (layout.find object key).run (answer call) (w.enter object) =
      some ((.rockTreeNodeNotFound, last), w.enter object)) (q : Query) (v : Option P) :
    ∃ r, (query (some object) (some key) (some v) q : M O R F _).run (answer call) w = some (r, w.enter object) ∧
      q.Reports (call f) (R.nodes (w.mem object).tree) key v r := by
  cases hends with
  | empty ht =>
    have hS : R.nodes (w.mem object).tree = [] := by simp [RockTree.nodes, ht]
    rw [hS]
    refine ⟨(.rockTreeNodeNotFound, some v), ?_, .inl (by cases q <;> rfl)⟩
    cases q <;> exact run_seq _ hfind
  | below pre post p ht hpre hp hpost =>
    -- the search ended at the successor of the key
    have hS : R.nodes (w.mem object).tree = pre ++ p :: post := ht
    obtain ⟨hget, hceiling, hfloor, hhigher, hlower⟩ :=
      best_between hpre (List.forall_mem_cons.2 ⟨hp, hpost⟩)
    have hfound := run_foundOrNot h key p v
    rw [if_neg (by omega)] at hfound
    rw [hS]
    refine ⟨_, ?_, .inl rfl⟩
    cases q with
    | get =>
      rw [hget]
      exact run_seq _ hfind
    | ceiling =>
      rw [hceiling]
      exact (run_seq _ hfind).trans hfound
    | floor =>
      rw [hfloor]
      exact (run_seq _ hfind).trans (run_stepBack hR hc h hS hp v)
    | higher =>
      rw [hhigher]
      exact (run_seq _ hfind).trans hfound
    | lower =>
      rw [hlower]
      exact (run_seq _ hfind).trans (run_stepBack hR hc h hS (by omega) v)
  | above pre post p ht hpre hp hpost =>
    -- the search ended at the predecessor of the key
    have hS : R.nodes (w.mem object).tree = (pre ++ [p]) ++ post := by simp [RockTree.nodes, ht]
    obtain ⟨hget, -, hfloor, -, hlower⟩ := best_between
      (List.forall_mem_append.2 ⟨hpre, List.forall_mem_singleton.2 hp⟩) hpost
    rw [List.getLast?_concat] at hfloor hlower
    have hmiss := run_foundOrNot h key p v
    rw [if_pos hp] at hmiss
    rw [hS]
    cases q with
    | get =>
      refine ⟨_, ?_, .inl rfl⟩
      rw [hget]
      exact run_seq _ hfind
    | ceiling => exact ⟨_, (run_seq _ hfind).trans hmiss, .inr ⟨.inl rfl, rfl⟩⟩
    | floor =>
      refine ⟨_, ?_, .inl rfl⟩
      rw [hfloor]
      exact (run_seq _ hfind).trans (run_stay h (by omega) v)
    | higher => exact ⟨_, (run_seq _ hfind).trans hmiss, .inr ⟨.inr rfl, rfl⟩⟩
    | lower =>
      refine ⟨_, ?_, .inl rfl⟩
      rw [hlower]
      exact (run_seq _ hfind).trans (run_stay h (by omega) v)

theorem query_spec (h : Holds call f object S w) (q : Query) (key : P) (v : Option P) :
    ∃ r, (query (some object) (some key) (some v) q : M O R F _).run (answer call) w = some (r, w.enter object) ∧
      q.Reports (call f) S key v r := by
  obtain rfl : R.nodes (w.mem object).tree = S := h.sorted.nodes
  obtain ⟨a | last, hfind, hends⟩ := run_find_ends hR hc h key
  · cases hends with
    | hit pre post a ht hk => exact ⟨_, query_hit hR hc h ht hk hfind q v, .inl (by rw [RockTree.nodes, ht])⟩
  · exact query_miss hR hc h hends hfind q v

theorem neighbours (h : Holds call f object S w) {entry : P} (he : entry ∈ S) (v : Option P) :
    (next object (some entry) (some v) : M O R F _).run (answer call) w =
        some (outcome .rockTreeEndOfSequence (some v) (Query.higher.best (call f) S entry), w) ∧
      (prev object (some entry) (some v) : M O R F _).run (answer call) w =
        some (outcome .rockTreeEndOfSequence (some v) (Query.lower.best (call f) S entry), w) := by
  obtain ⟨pre, post, rfl⟩ := List.append_of_mem he
  obtain ⟨-, -, -, hhigher, hlower⟩ := best_hit hc h.sorted.ascending (hc.refl entry)
  rw [hhigher, hlower]
  exact ⟨next_spec hR hc h rfl v, prev_spec hR hc h rfl v⟩

/-- A call replies as the sorted set does, and leaves what it leaves. -/
theorem use_spec (h : Holds call f object S w) (use : Use P) (hok : SortedSet.Allowed S use) :
    ∃ r w', ((use.call : Call P F).exec object : M O R F _).run (answer call) w = some (r, w') ∧
      SortedSet.Replies (call f) S use r ∧ Holds call f object (SortedSet.after (call f) S use) w' := by
  cases use with
  | count v => exact ⟨_, w, run_seq _ (count_spec h v), rfl, h⟩
  | add entry =>
    obtain ⟨w', hrun, h'⟩ := step_refines hR hc h (.add entry) trivial
    exact ⟨_, w', run_seq _ hrun, rfl, h'⟩
  | remove entry =>
    have hstored : entry ∈ R.nodes (w.mem object).tree := h.sorted.nodes.symm ▸ hok
    obtain ⟨w', hrun, h'⟩ := step_refines hR hc h (.remove entry) hstored
    exact ⟨_, w', run_seq _ hrun, rfl, h'⟩
  | query q key v =>
    obtain ⟨r, hrun, hr⟩ := query_spec hR hc h q key v
    exact ⟨_, _, run_seq _ hrun, ⟨r, rfl, hr⟩, h.enter⟩
  | first v => exact ⟨_, w, run_seq _ (first_spec hR h v), rfl, h⟩
  | last v => exact ⟨_, w, run_seq _ (last_spec hR h v), rfl, h⟩
  | next entry v => exact ⟨_, w, run_seq _ (neighbours hR hc h hok v).1, rfl, h⟩
  | prev entry v => exact ⟨_, w, run_seq _ (neighbours hR hc h hok v).2, rfl, h⟩

theorem uses_spec (h : Holds call f object S w) (uses : List (Use P))
    (hok : Machine.Permitted (SortedSet.after (call f)) SortedSet.Allowed S uses) :
    ∃ replies w', Machine.runAll (fun use : Use P => (use.call.exec object).run (answer call)) uses w =
        some (replies, w') ∧ replies.length = uses.length ∧
      Machine.Admitted (fun S use _ => SortedSet.after (call f) S use) (SortedSet.Replies (call f)) S
        (uses.zip replies) ∧ Holds call f object (uses.foldl (SortedSet.after (call f)) S) w' := by
  have hstep : ∀ w S use, Holds call f object S w → SortedSet.Allowed S use →
      ∃ r w', ((use.call : Call P F).exec object : M O R F _).run (answer call) w = some (r, w') ∧
        SortedSet.Replies (call f) S use r ∧ Holds call f object (SortedSet.after (call f) S use) w' :=
    fun w S use h hok => use_spec hR hc h use hok
  exact Machine.sim_admitted hstep uses h hok

end

/-! ### Containers with different histories -/

/-- Two replies are the same, or they are those of a query that may miss and one of them is that there
is no entry. -/
def Alike (use : Use P) (r r' : Reply P) : Prop :=
  r = r' ∨ ∃ q key v, use = .query q key v ∧ q.MayMiss ∧
    (r = .entry (.rockTreeNodeNotFound, some v) ∨ r' = .entry (.rockTreeNodeNotFound, some v))

theorem alike_of_replies [DecidableEq P] {cmp : P → P → Int} {S : List P} {use : Use P} {r r' : Reply P}
    (h : SortedSet.Replies cmp S use r) (h' : SortedSet.Replies cmp S use r') : Alike use r r' := by
  cases use with
  | query q key v =>
    obtain ⟨a, rfl, ha⟩ := h
    obtain ⟨b, rfl, hb⟩ := h'
    rcases ha with rfl | ⟨hq, rfl⟩
    · rcases hb with rfl | ⟨hq, rfl⟩
      · exact .inl rfl
      · exact .inr ⟨q, key, v, rfl, hq, .inr rfl⟩
    · exact .inr ⟨q, key, v, rfl, hq, .inl rfl⟩
  | _ => exact .inl (Eq.trans h (Eq.symm h'))

section
variable {O' : Type} [DecidableEq O] [DecidableEq O'] [DecidableEq P] {R' : RockTree P}
  {call : F → P → P → Int} {f : F} {object : O} {object' : O'}
  {w : World O (RedBlackTreeContainer R F) (Event P)} {w' : World O' (RedBlackTreeContainer R' F) (Event P)}

/-- Two containers that store the same entries, filled by any two runs on trees that may be balanced
differently, reply alike to any further run of calls and store the same entries after it. -/
theorem history_independent (hR : R.Lawful) (hR' : R'.Lawful) (hc : TotalPreorder (call f))
    (hw : Reachable call f object w) (hw' : Reachable call f object' w')
    (hsame : ∀ e, e ∈ R.nodes (w.mem object).tree ↔ e ∈ R'.nodes (w'.mem object').tree) (uses : List (Use P))
    (hok : Machine.Permitted (SortedSet.after (call f)) SortedSet.Allowed (R.nodes (w.mem object).tree) uses) :
    ∃ replies replies' v v',
      Machine.runAll (fun use : Use P => (use.call.exec object).run (answer call)) uses w = some (replies, v) ∧
      Machine.runAll (fun use : Use P => (use.call.exec object').run (answer call)) uses w' =
        some (replies', v') ∧
      replies.length = uses.length ∧ replies'.length = uses.length ∧
      (∀ r ∈ uses.zip (replies.zip replies'), Alike r.1 r.2.1 r.2.2) ∧
      R.nodes (v.mem object).tree = R'.nodes (v'.mem object').tree := by
  have h := hw.holds hR hc
  have h' := hw'.holds hR' hc
  have hS : R.nodes (w.mem object).tree = R'.nodes (w'.mem object').tree :=
    h.sorted.ascending.eq_of_same hc h'.sorted.ascending hsame
  obtain ⟨replies, v, hrun, hlen, hadm, hv⟩ := uses_spec hR hc h uses hok
  obtain ⟨replies', v', hrun', hlen', hadm', hv'⟩ := uses_spec hR' hc h' uses (hS ▸ hok)
  refine ⟨replies, replies', v, v', hrun, hrun', hlen, hlen', ?_, ?_⟩
  · rw [← hS] at hadm'
    refine Machine.alike_of_admitted ?_ hadm hadm'
    exact fun S use r r' => alike_of_replies
  · rw [hv.sorted.nodes, hv'.sorted.nodes, hS]

end

/-- Some calls on a container that stores 10 and 20. -/
def between : List (Use Nat) :=
  [.query .ceiling 15 none, .query .floor 15 none, .add 15, .next 10 none, .remove 10, .first none]

theorem history_independent_example :
    ∃ (w w' v v' : World Unit (RedBlackTreeContainer (Reference.tree : RockTree Nat) Unit) (Event Nat))
      (replies replies' : List (Reply Nat)),
      Reachable Reference.compare () () w ∧ Reachable Reference.compare () () w' ∧
      Machine.runAll (fun use : Use Nat => (use.call.exec ()).run (answer Reference.compare)) between w =
        some (replies, v) ∧
      Machine.runAll (fun use : Use Nat => (use.call.exec ()).run (answer Reference.compare)) between w' =
        some (replies', v') ∧
      (∀ r ∈ between.zip (replies.zip replies'), Alike r.1 r.2.1 r.2.2) ∧
      Reference.tree.nodes (v.mem ()).tree = Reference.tree.nodes (v'.mem ()).tree := by
  have hw : Reachable Reference.compare () () _ := ⟨blank, _, [.add 10, .add 20], _, rfl, by decide, rfl⟩
  have hw' : Reachable Reference.compare () () _ := ⟨blank, _, [.add 20, .add 10], _, rfl, by decide, rfl⟩
  obtain ⟨replies, replies', v, v', hrun, hrun', -, -, halike, hsame⟩ := history_independent
    Reference.tree_lawful Reference.tree_lawful Reference.compare_total hw hw' (fun _ => Iff.rfl) between
    (by decide)
  exact ⟨_, _, v, v', replies, replies', hw, hw', hrun, hrun', halike, hsame⟩

end RedBlackTreeContainer

end Coral
