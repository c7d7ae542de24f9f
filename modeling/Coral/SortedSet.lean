import Coral.ContainerSpec
import Coral.Lib.Runs
import Coral.Reference

/-!
# The red-black-tree container is a sorted set

The abstract container is a strictly increasing list (`SortedSet.step`). `Shows` says what the
observers report when the container stores `S`. `refines_sorted_set`: every run of `add` and `remove`
returns what the abstract container returns, and shows the abstract list at its end.
-/

namespace Coral

namespace RedBlackTreeContainer
open Prog SearchTree ThreeWay

/-- The calls that change a container. -/
inductive Op (P : Type) where
  | add (entry : P)
  | remove (entry : P)

variable {P F O : Type} {R : RockTree P}

def Op.exec (object : O) : Op P → M O R F Code
  | .add entry => RedBlackTreeContainer.add (some object) (some entry)
  | .remove entry => RedBlackTreeContainer.remove (some object) (some entry)

/-- Only a stored entry may be removed. -/
def Op.Allowed (object : O) (w : World O (RedBlackTreeContainer R F) (Event P)) : Op P → Prop
  | .add _ => True
  | .remove entry => entry ∈ R.nodes (w.mem object).tree

instance [DecidableEq P] {object : O} {w : World O (RedBlackTreeContainer R F) (Event P)} :
    (op : Op P) → Decidable (op.Allowed object w)
  | .add _ => isTrue trivial
  | .remove entry => inferInstanceAs (Decidable (entry ∈ R.nodes (w.mem object).tree))

namespace SortedSet
variable [DecidableEq P]

/-- What a call does to a sorted set. -/
def step (cmp : P → P → Int) (S : List P) : Op P → Code × List P
  | .add entry =>
      if ∃ e ∈ S, cmp entry e = 0 then (.rockTreeNodeAlreadyExists, S) else (.ok, place cmp entry S)
  | .remove entry => (.ok, S.erase entry)

/-- The results and the last state of a run that starts empty. -/
def run (cmp : P → P → Int) (ops : List (Op P)) : List Code × List P := absRun (step cmp) [] ops

end SortedSet

section
variable [DecidableEq O] {call : F → P → P → Int} {f : F} {object : O} {S : List P}
  {w w₀ w₁ : World O (RedBlackTreeContainer R F) (Event P)}

/-- What a client sees of a container that stores `S`. -/
structure Shows (call : F → P → P → Int) (f : F) (object : O) (S : List P)
    (w : World O (RedBlackTreeContainer R F) (Event P)) : Prop where
  ascending : Ascending (call f) S
  count : ∀ v, (count (some object) (some v) : M O R F _).run (answer call) w =
    some ((.ok, some S.length), w)
  get_equal : ∀ e ∈ S, ∀ key v, call f key e = 0 →
    (get (some object) (some key) (some v)).run (answer call) w =
      some ((.ok, some (some e)), w.enter object)
  get_none : ∀ key v, (∀ e ∈ S, call f key e ≠ 0) →
    (get (some object) (some key) (some v)).run (answer call) w =
      some ((.rockTreeNodeNotFound, some v), w.enter object)
  forward : ∀ n, (traverse (first (some object) (some none))
      (fun e => next object (some e) (some none)) n).run (answer call) w =
    some (traversal .rockTreeTreeIsEmpty .rockTreeEndOfSequence S n, w)
  backward : ∀ n, (traverse (last (some object) (some none))
      (fun e => prev object (some e) (some none)) n).run (answer call) w =
    some (traversal .rockTreeTreeIsEmpty .rockTreeEndOfSequence S.reverse n, w)
  /-- A rejected entry changes nothing (`enter` is the assignment to `this`). -/
  rejects : ∀ entry, (∃ e ∈ S, call f entry e = 0) →
    (add (some object) (some entry)).run (answer call) w =
      some (.rockTreeNodeAlreadyExists, w.enter object)

variable [DecidableEq P] (hR : R.Lawful) (hc : TotalPreorder (call f))
include hR hc

theorem Holds.shows (h : Holds call f object S w) : Shows call f object S w where
  ascending := h.sorted.ascending
  count v := count_spec h v
  get_equal e he key v hz := by
    rw [get_spec hR hc h, h.sorted.ascending.find?_eq hc he hz]
    rfl
  get_none key v hne := by
    have hnone : S.find? (fun e => call f key e = 0) = none := by simpa using hne
    rw [get_spec hR hc h, hnone]
    rfl
  forward := run_traverse (by decide) (by decide) (first_spec hR h none)
    fun pre e post hS => next_spec hR hc h hS none
  backward := run_traverse_reverse (by decide) (by decide) (last_spec hR h none)
    fun pre e post hS => prev_spec hR hc h hS none
  rejects entry := fun ⟨_, he, hz⟩ => add_hit hR hc h he hz

theorem step_refines (h : Holds call f object S w) (op : Op P) (hop : op.Allowed object w) :
    ∃ w', (op.exec object).run (answer call) w = some ((SortedSet.step (call f) S op).1, w') ∧
      Holds call f object (SortedSet.step (call f) S op).2 w' := by
  cases op with
  | add entry =>
    by_cases heq : ∃ e ∈ S, call f entry e = 0
    · rw [SortedSet.step, if_pos heq]
      obtain ⟨e, he, hz⟩ := heq
      exact ⟨_, add_hit hR hc h he hz, h.enter⟩
    · rw [SortedSet.step, if_neg heq]
      exact add_miss hR hc h fun e he hz => heq ⟨e, he, hz⟩
  | remove entry => exact remove_spec hR hc h (h.sorted.nodes ▸ hop)

theorem run_refines (hinit : (init (some object) (some f)).run (answer call) w₀ = some (.ok, w₁))
    {ops : List (Op P)} (hops : Valid (answer call) (Op.exec object) (Op.Allowed object) ops w₁) :
    ∃ w, runAll (answer call) (Op.exec object) ops w₁ = some ((SortedSet.run (call f) ops).1, w) ∧
      Holds call f object (SortedSet.run (call f) ops).2 w := by
  obtain ⟨w', hw', h⟩ := init_spec hR call f object w₀
  obtain rfl : w' = w₁ := by simpa [hw'] using hinit
  have hstep : ∀ w S op, Holds call f object S w → op.Allowed object w →
      ∃ w', (op.exec object).run (answer call) w = some ((SortedSet.step (call f) S op).1, w') ∧
        Holds call f object (SortedSet.step (call f) S op).2 w' :=
    fun w S op h hop => step_refines hR hc h op hop
  exact sim_runAll hstep ops h hops

theorem refines_sorted_set
    (hinit : (init (some object) (some f)).run (answer call) w₀ = some (.ok, w₁))
    (ops : List (Op P)) (hops : Valid (answer call) (Op.exec object) (Op.Allowed object) ops w₁) :
    ∃ w, runAll (answer call) (Op.exec object) ops w₁ = some ((SortedSet.run (call f) ops).1, w) ∧
      Shows call f object (SortedSet.run (call f) ops).2 w := by
  obtain ⟨w, hw, h⟩ := run_refines hR hc hinit hops
  exact ⟨w, hw, h.shows hR hc⟩

end

section example_

/-- Nothing is initialised yet. -/
def blank : World Unit (RedBlackTreeContainer (Reference.tree : RockTree Nat) Unit) (Event Nat) :=
  ⟨none, fun _ => zero, []⟩

theorem refines_sorted_set_example : ∃ w₁ w,
    (init (some ()) (some ())).run (answer Reference.compare) blank = some (.ok, w₁) ∧
    runAll (answer Reference.compare) (Op.exec ()) [.add 2, .add 1, .add 2, .remove 2, .add 3] w₁ =
      some ([.ok, .ok, .rockTreeNodeAlreadyExists, .ok, .ok], w) ∧
    Shows Reference.compare () () [1, 3] w := by
  obtain ⟨w, hw⟩ := refines_sorted_set Reference.tree_lawful Reference.compare_total
    (rfl : (init (some ()) (some ())).run (answer Reference.compare) blank = some (.ok, _))
    [.add 2, .add 1, .add 2, .remove 2, .add 3] (by decide)
  exact ⟨_, w, rfl, hw⟩

end example_

end RedBlackTreeContainer

end Coral
