import Coral.Traverse
import Coral.TreeState

/-!
# What the shared functions do

One lemma for each function of `Coral.Layout` says what it returns where the answers of the calls it
makes are known; then what it does on a sorted tree, and on a tree whose order is not known (`Indexed`),
because the compare functions may be anything.
-/

namespace Coral

/-- What a query may report that compared the key with the entry: `get` an equal entry, `ceiling` one
that is not below. The others may step to a neighbour the key was not compared with. -/
def Query.Fits : Query → Int → Prop
  | .get, c => c = 0
  | .ceiling, c => c ≤ 0
  | _, _ => True

namespace Layout
open Prog ThreeWay

variable {P F O S E : Type} {R : RockTree P} {C : Layout R F S} {call : F → P → P → Int} {f : F} {s : S}
  {object : O} {l : List P} {w : World O S E} {out : Out (Option P)}

theorem answer_eq (hf : C.compare s = some f) (a b : P) : C.answer call s a b = some (call f a b) := by
  simp [answer, hf]

section steps
variable [DecidableEq O] {tree : R.Tree} {e : P} {r : Option P}

theorem run_count {n : Nat} (hn : R.count (C.tree (w.mem object)) = .ok n) (v : Nat) :
    (C.count (some object) (some v)).run (C.answer call) w = some ((.ok, some n), w) := by
  unfold count
  rw [run_load]
  exact run_required hn _

theorem run_firstOrLast {end_ : R.Tree → Except Code P}
    (hr : end_ (C.tree (w.mem object)) = r.elim (.error .rockTreeTreeIsEmpty) .ok) (v : Option P) :
    (C.firstOrLast end_ (some object) (some v)).run (C.answer call) w =
      some (outcome .rockTreeTreeIsEmpty (some v) r, w) := by
  unfold firstOrLast
  rw [run_load, hr]
  cases r <;> rfl

section
variable {step : R.Tree → P → Except Code P}
  (hr : step (C.tree (w.mem object)) e = r.elim (.error .rockTreeEndOfSequence) .ok)
include hr

theorem run_nextOrPrev (v : Option P) : (C.nextOrPrev step object (some e) (some v)).run (C.answer call) w =
    some (outcome .rockTreeEndOfSequence (some v) r, w) := by
  unfold nextOrPrev
  rw [run_load, hr]
  cases r <;> rfl

theorem run_stepOrNotFound (out : Out (Option P)) :
    (C.stepOrNotFound step object e out).run (C.answer call) w =
      some (outcome .rockTreeNodeNotFound out r, w) := by
  unfold stepOrNotFound
  rw [run_load, hr]
  cases r <;> rfl

end

section
variable (hf : C.compare (w.mem object) = some f)
include hf

variable (call) in
theorem run_find (hw : w.current = some object) (k : P) : (C.find object k).run (C.answer call) w =
    some ((R.find (C.tree (w.mem object)) k).eval (call f), w) :=
  run_lift _ hw (answer_eq hf)

theorem run_entityCompare (hw : w.current = some object) (a b : P) :
    (entityCompare a b).run (C.answer call) w = some (call f a b, w) :=
  run_ask _ hw (answer_eq hf a b)

theorem run_insertNode (hw : w.current = some object) {p : Option P} {k : P}
    (hi : (R.insert (C.tree (w.mem object)) p k).eval (call f) = .ok tree) :
    (C.insertNode object p k).run (C.answer call) w =
      some ((), w.put object (C.setTree (w.mem object) tree)) := by
  unfold insertNode
  rw [run_load]
  exact (run_seq _ (run_lift _ hw (answer_eq hf))).trans (run_required hi _)

variable {entry : P} (rest : Prog O S P E Code)

theorem run_enlist_hit (hfind : (R.find (C.tree (w.mem object)) entry).eval (call f) = (.ok, some e)) :
    (C.enlist object entry rest).run (C.answer call) w = some (.rockTreeNodeAlreadyExists, w.enter object) := by
  have hrun := run_find (w := w.enter object) call hf rfl entry
  rw [World.mem_enter, hfind] at hrun
  exact run_seq _ hrun

theorem run_enlist_miss {p : Option P}
    (hfind : (R.find (C.tree (w.mem object)) entry).eval (call f) = (.rockTreeNodeNotFound, p))
    (hi : (R.insert (C.tree (w.mem object)) p entry).eval (call f) = .ok tree) :
    (C.enlist object entry rest).run (C.answer call) w =
      rest.run (C.answer call) ((w.enter object).put object (C.setTree (w.mem object) tree)) := by
  have hrun := run_find (w := w.enter object) call hf rfl entry
  rw [World.mem_enter, hfind] at hrun
  exact (run_seq _ hrun).trans (run_seq _ (run_insertNode (w := w.enter object) hf rfl hi))

end

end steps

/-! ### Sorted trees -/

section
variable [DecidableEq O] [DecidableEq P] (hR : R.Lawful) (hc : TotalPreorder (call f))
  (hf : C.compare (w.mem object) = some f) (h : R.Sorted (call f) (C.tree (w.mem object)) l) {entry : P}
  (rest : Prog O S P E Code)
include hR hc hf h

theorem reject {e : P} (he : e ∈ l) (hz : call f entry e = 0) :
    (C.enlist object entry rest).run (C.answer call) w = some (.rockTreeNodeAlreadyExists, w.enter object) := by
  rcases RockTree.find_cases hR hc h entry with ⟨e', _, _, hfind⟩ | ⟨hne, _⟩
  · exact run_enlist_hit hf rest hfind
  · exact absurd hz (hne e he)

theorem accept (hne : ∀ e ∈ l, call f entry e ≠ 0) :
    ∃ tree, (C.enlist object entry rest).run (C.answer call) w =
        rest.run (C.answer call) ((w.enter object).put object (C.setTree (w.mem object) tree)) ∧
      R.Sorted (call f) tree (place (call f) entry l) := by
  rcases RockTree.find_cases hR hc h entry with ⟨e, he, hz, _⟩ | ⟨_, p, tree, hfind, hi, hs⟩
  · exact absurd hz (hne e he)
  · exact ⟨tree, run_enlist_miss hf rest hfind hi, hs⟩

end

/-! ### Trees in any order -/

/-- `s` was initialised with `f`, and its tree holds the entries `l`. -/
structure Indexed (C : Layout R F S) (f : F) (l : List P) (s : S) : Prop where
  compare : C.compare s = some f
  tree : R.Keeps (C.tree s) (R.nodes (C.tree s))
  same : (R.nodes (C.tree s)).Perm l

theorem Indexed.mem_iff (h : C.Indexed f l s) {e : P} : e ∈ R.nodes (C.tree s) ↔ e ∈ l := h.same.mem_iff

namespace Indexed
variable [DecidableEq O] [DecidableEq P] {live : R.Tree → P → Prop} (hR : R.LawfulOn live)
  (h : C.Indexed f l (w.mem object)) (hlive : ∀ x ∈ R.nodes (C.tree (w.mem object)), live (C.tree (w.mem object)) x)
include hR h hlive

variable (call) in
/-- An entry is rejected only because of one it was answered to be equal to; else it goes into the
tree. -/
theorem enlist {entry : P} (hv : entry ∉ l) (hentry : live (C.tree (w.mem object)) entry)
    (rest : Prog O S P E Code) :
    (∃ e ∈ l, call f entry e = 0 ∧ (C.enlist object entry rest).run (C.answer call) w =
      some (.rockTreeNodeAlreadyExists, w.enter object)) ∨
    ∃ tree, (C.enlist object entry rest).run (C.answer call) w =
        rest.run (C.answer call) ((w.enter object).put object (C.setTree (w.mem object) tree)) ∧
      live tree = live (C.tree (w.mem object)) ∧ R.Keeps tree (R.nodes tree) ∧
      (R.nodes tree).Perm (entry :: l) := by
  rcases h.tree.find_lands hR hlive (call f) entry with ⟨e, he, hz, hfind⟩ | ⟨p, hfind, -, hins⟩
  · exact .inl ⟨e, h.mem_iff.1 he, hz, run_enlist_hit h.compare rest hfind⟩
  · obtain ⟨tree, pre, post, hi, hlive', hcut, htree⟩ := hins (fun he => hv (h.mem_iff.1 he)) hentry
    refine .inr ⟨tree, run_enlist_miss h.compare rest hfind hi, hlive', htree.nodes ▸ htree, ?_⟩
    rw [htree.nodes]
    exact List.perm_middle.trans ((hcut ▸ h.same).cons entry)

variable {q : Query} {key e : P} {v : Option P}

omit [DecidableEq P] hR hlive in
theorem compare_answers {ok : P → Prop} {k : Int → Prog O S P E (Code × Out (Option P))}
    (hk : Answers (C.answer call) .rockTreeNodeNotFound (some v) ok (w.enter object) (k (call f key e))) :
    Answers (C.answer call) .rockTreeNodeNotFound (some v) ok (w.enter object) ((entityCompare key e).bind k) :=
  .seq (run_entityCompare (w := w.enter object) h.compare rfl key e) hk

/-- A step along the tree leads to a stored entry or to none. -/
theorem next_answers (he : e ∈ l) (hq : ∀ c, q.Fits c) :
    Answers (C.answer call) .rockTreeNodeNotFound (some v) (fun x => x ∈ l ∧ q.Fits (call f key x))
      (w.enter object) (C.stepOrNotFound R.next object e (some v)) := by
  obtain ⟨pre, post, hmid⟩ := List.append_of_mem (h.mem_iff.2 he)
  refine ⟨_, run_stepOrNotFound (w := w.enter object) (h.tree.next hR hlive hmid) _,
    fun x hx => ⟨h.mem_iff.1 ?_, hq _⟩⟩
  simp [hmid, List.mem_of_mem_head? hx]

theorem prev_answers (he : e ∈ l) (hq : ∀ c, q.Fits c) :
    Answers (C.answer call) .rockTreeNodeNotFound (some v) (fun x => x ∈ l ∧ q.Fits (call f key x))
      (w.enter object) (C.stepOrNotFound R.prev object e (some v)) := by
  obtain ⟨pre, post, hmid⟩ := List.append_of_mem (h.mem_iff.2 he)
  refine ⟨_, run_stepOrNotFound (w := w.enter object) (h.tree.prev hR hlive hmid) _,
    fun x hx => ⟨h.mem_iff.1 ?_, hq _⟩⟩
  simp [hmid, List.mem_of_getLast? hx]

/-- Every query ends with a stored entry or with none. -/
theorem query (call : F → P → P → Int) (q : Query) (key : P) (v : Option P) : ∃ e,
    (C.query (some object) (some key) (some v) q).run (C.answer call) w =
      some (outcome .rockTreeNodeNotFound (some v) e, w.enter object) ∧
    ∀ x ∈ e, x ∈ l ∧ q.Fits (call f key x) := by
  have hfind := run_find (w := w.enter object) call h.compare rfl key
  rw [World.mem_enter] at hfind
  rcases h.tree.find_lands hR hlive (call f) key with ⟨e, he, hz, hf⟩ | ⟨p, hf, hp, -⟩
  · have he := h.mem_iff.1 he
    rw [hf] at hfind
    cases q with
    | get => exact Answers.seq hfind (.found ⟨he, hz⟩)
    | ceiling => exact Answers.seq hfind (.found ⟨he, hz.le⟩)
    | floor => exact Answers.seq hfind (.found ⟨he, trivial⟩)
    | higher => exact Answers.seq hfind (h.next_answers hR hlive he fun _ => trivial)
    | lower =>
      refine Answers.seq hfind (h.compare_answers ?_)
      exact .ite (fun _ => h.prev_answers hR hlive he fun _ => trivial) fun _ => .found ⟨he, trivial⟩
  · rw [hf] at hfind
    cases p with
    | none => cases q <;> exact Answers.seq hfind .nothing
    | some p =>
      have hp := h.mem_iff.1 (hp p rfl)
      cases q with
      | get => exact Answers.seq hfind .nothing
      | ceiling =>
        refine Answers.seq hfind (h.compare_answers ?_)
        exact .ite (fun _ => .nothing) fun hc => .found ⟨hp, Int.not_lt.1 hc⟩
      | floor =>
        refine Answers.seq hfind (h.compare_answers ?_)
        exact .ite (fun _ => h.prev_answers hR hlive hp fun _ => trivial) fun _ => .found ⟨hp, trivial⟩
      | higher =>
        refine Answers.seq hfind (h.compare_answers ?_)
        exact .ite (fun _ => .nothing) fun _ => .found ⟨hp, trivial⟩
      | lower =>
        refine Answers.seq hfind (h.compare_answers ?_)
        exact .ite (fun _ => h.prev_answers hR hlive hp fun _ => trivial) fun _ => .found ⟨hp, trivial⟩

theorem traversed : ∃ nodes, nodes.Perm l ∧
    (∀ (call : F → P → P → Int) n, (traverse (C.firstOrLast R.first (some object) (some none))
      (fun e => C.nextOrPrev R.next object (some e) (some none)) n).run (C.answer call) w =
        some (traversal .rockTreeTreeIsEmpty .rockTreeEndOfSequence nodes n, w)) ∧
    ∀ (call : F → P → P → Int) n, (traverse (C.firstOrLast R.last (some object) (some none))
      (fun e => C.nextOrPrev R.prev object (some e) (some none)) n).run (C.answer call) w =
        some (traversal .rockTreeTreeIsEmpty .rockTreeEndOfSequence nodes.reverse n, w) := by
  refine ⟨_, h.same, fun call => ?_, fun call => ?_⟩
  · exact run_traverse (by decide) (by decide) (run_firstOrLast (h.tree.first hR hlive) none)
      fun pre e post hl => run_nextOrPrev (h.tree.next hR hlive hl) none
  · exact run_traverse_reverse (by decide) (by decide) (run_firstOrLast (h.tree.last hR hlive) none)
      fun pre e post hl => run_nextOrPrev (h.tree.prev hR hlive hl) none

end Indexed

end Layout

end Coral
