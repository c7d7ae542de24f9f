import Coral.InsertionOrder

/-!
# What the linked container does with an entry it has already

`Rejects` says of a call that puts an entry in: it fails with `ENTRY_ALREADY_EXISTS` exactly when a
stored entry compares equal, and has then changed nothing. `rejected_unchanged`: so do `add` and
`insert` on every container a run leads to, whichever candidate they are called with.
-/

namespace Coral

namespace LinkedRedBlackTreeContainer
open Prog ThreeWay

variable {P F O : Type} [DecidableEq P] [DecidableEq O] {R : RockTree P} {L : RockList P}
  {call : F → P → P → Int} {f : F} {pool : P → Prop} {object : O} {l : List P} {x : P}
  {w : World O (LinkedRedBlackTreeContainer R L F) (Event P)}

/-- `p` fails with `ENTRY_ALREADY_EXISTS` exactly when `x` compares equal to a stored entry, and then
tree, head and list nodes are as before (`enter` is the assignment to `this`). -/
def Rejects (call : F → P → P → Int) (f : F) (object : O) (x : P)
    (w : World O (LinkedRedBlackTreeContainer R L F) (Event P)) (p : M O R L F Code) : Prop :=
  ∃ r w', p.run (answer call) w = some (r, w') ∧
    (r = .rockTreeNodeAlreadyExists ↔ ∃ s ∈ R.nodes (w.mem object).tree, call f x s = 0) ∧
    (r = .rockTreeNodeAlreadyExists → w' = w.enter object)

section
variable {p : M O R L F Code}

omit [DecidableEq P] in
theorem rejects_hit (h : Holds call f pool l (w.mem object)) {s : P} (hs : s ∈ l) (hz : call f x s = 0)
    (hrun : p.run (answer call) w = some (.rockTreeNodeAlreadyExists, w.enter object)) :
    Rejects call f object x w p :=
  ⟨_, _, hrun, ⟨fun _ => ⟨s, h.mem_iff.2 hs, hz⟩, fun _ => rfl⟩, fun _ => rfl⟩

omit [DecidableEq P] in
theorem rejects_miss (h : Holds call f pool l (w.mem object)) (hne : ∀ s ∈ l, call f x s ≠ 0)
    {w' : World O (LinkedRedBlackTreeContainer R L F) (Event P)}
    (hrun : p.run (answer call) w = some (.ok, w')) : Rejects call f object x w p := by
  refine ⟨.ok, w', hrun, ⟨fun hr => ?_, fun ⟨s, hs, hz⟩ => ?_⟩, fun hr => ?_⟩
  · cases hr
  · exact absurd hz (hne s (h.mem_iff.1 hs))
  · cases hr

end

section
variable (hR : R.Lawful) (hL : L.Lawful) (hc : TotalPreorder (call f))
include hR hL hc

theorem rejected_unchanged (hw : Reachable call f pool object w) (hx : pool x) :
    Rejects call f object x w (add (some object) (some x)) ∧
      ∀ e ∈ R.nodes (w.mem object).tree,
        Rejects call f object x w (insert (some object) (some e) (some x)) := by
  obtain ⟨ops, hw⟩ := hw
  have h := hw.holds hR hL hc
  by_cases heq : ∃ s ∈ (InsertionOrder.run (call f) ops).2, call f x s = 0
  · obtain ⟨s, hs, hz⟩ := heq
    exact ⟨rejects_hit h hs hz (add_hit hR hc h hs hz),
      fun e _ => rejects_hit h hs hz (insert_hit hR hc h hs hz)⟩
  · have hne : ∀ s ∈ (InsertionOrder.run (call f) ops).2, call f x s ≠ 0 := fun s hs hz =>
      heq ⟨s, hs, hz⟩
    refine ⟨?_, fun e he => ?_⟩
    · obtain ⟨w', hadd, -⟩ := add_miss hR hL hc h hx hne
      exact rejects_miss h hne hadd
    · obtain ⟨w', hins, -⟩ := insert_miss hR hL hc h (h.mem_iff.1 he) hx hne
      exact rejects_miss h hne hins

end

theorem rejected_unchanged_example :
    ∃ w : World Unit (LinkedRedBlackTreeContainer Reference.tree Reference.list Unit) (Event Nat),
      Reachable Reference.compare () (· < 3) () w ∧
      Reference.tree.nodes (w.mem ()).tree = [1, 2] ∧
      (add (some ()) (some 2)).run (answer Reference.compare) w =
        some (.rockTreeNodeAlreadyExists, w.enter ()) ∧
      (insert (some ()) (some 1) (some 2)).run (answer Reference.compare) w =
        some (.rockTreeNodeAlreadyExists, w.enter ()) ∧
      Rejects Reference.compare () () 2 w (add (some ()) (some 2)) ∧
      ∀ e ∈ Reference.tree.nodes (w.mem ()).tree,
        Rejects Reference.compare () () 2 w (insert (some ()) (some e) (some 2)) := by
  have hw : Reachable Reference.compare () (· < 3) () _ :=
    ⟨[.add 2, .insert 2 1], blank, _, _, fun _ _ => ⟨rfl, rfl⟩, rfl, by decide, rfl⟩
  exact ⟨_, hw, rfl, rfl, rfl, rejected_unchanged Reference.tree_lawful Reference.list_lawful Reference.compare_total hw
    (by decide)⟩

end LinkedRedBlackTreeContainer

end Coral
