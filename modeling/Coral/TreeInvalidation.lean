import Coral.Guarded
import Coral.Invalidation
import Coral.Nearest

/-!
# Invalidating the red-black-tree container

The container is put into a memory its entries are freed from (`RedBlackTreeContainer.guarded`), where
`invalidate` stops if it follows a link of a freed entry. `Stores` is the invariant of the container
there. `invalidate_destroys_ascending`: on every container a run leads to, `invalidate` ends, with one
round for each entry, and has destroyed the entries in ascending order (`Invalidated`).
-/

namespace Coral

namespace RedBlackTreeContainer
open Prog ThreeWay

variable {P F O : Type} [DecidableEq P] {R : RockTree P} {call : F → P → P → Int} {f : F} {object : O}
  {S : List P}

/-- `s` in a memory `freed` was given back of. -/
def guarded (s : RedBlackTreeContainer R F) (freed : List P) : RedBlackTreeContainer R.guarded F :=
  ⟨⟨s.tree, freed⟩, s.compare⟩

/-- Take the memory of `e` back. -/
def deallocate (e : P) (s : RedBlackTreeContainer R.guarded F) : RedBlackTreeContainer R.guarded F :=
  { s with tree := Guarded.free s.tree e }

/-- `object` was initialised with `f` and stores `S`, and all of `S` is allocated. -/
structure Stores (call : F → P → P → Int) (f : F) (object : O) (S : List P)
    (m : O → RedBlackTreeContainer R.guarded F) : Prop where
  compare : (m object).compare = some f
  tree : R.Intact (call f) (m object).tree S

/-- What invalidating a container that stores `S` has reported, from `v` to `v'`, and what it leaves. -/
structure Invalidated (call : F → P → P → Int) (f : F) (object : O) (onDestroy : Bool) (S : List P)
    (v v' : World O (RedBlackTreeContainer R.guarded F) (Event P))
    (log : List (Event P × (O → RedBlackTreeContainer R.guarded F))) : Prop where
  reported : v'.log = v.log ++ log
  destroyed : Destroyed (Stores call f object) onDestroy S log
  ascending : Ascending (call f) S
  /-- The entries after `e` are the greater ones. -/
  greater : ∀ pre e rest, S = pre ++ e :: rest → ∀ x, x ∈ rest ↔ x ∈ S ∧ call f e x < 0
  zero : v'.mem object = zero

section
variable [DecidableEq O] {w : World O (RedBlackTreeContainer R F) (Event P)}
  {v : World O (RedBlackTreeContainer R.guarded F) (Event P)} (hR : R.Lawful)
  (hc : TotalPreorder (call f)) {c : Client O (RedBlackTreeContainer R.guarded F) P}
include hR hc

theorem drains (hcall : ∀ e u, (c.onDestroy e u).mem object = u.mem object) :
    Drains (c.env deallocate) (answer call) .rockTreeEndOfSequence
      (fun e => next object (some e) (some none)) (fun e => remove (some object) (some e))
      (Stores call f object) where
  nodup l m h := h.tree.sorted.ascending.nodup hc
  next a l u h := Layout.run_nextOrPrev (RockTree.guarded_next hR hc h.tree) none
  remove a l u h := by
    obtain ⟨tree, ht, htree⟩ := RockTree.guarded_remove hR hc h.tree (List.mem_cons_self ..)
    rw [List.erase_cons_head] at htree
    refine ⟨_, run_remove ht, rfl, ?_⟩
    constructor <;> rw [World.mem_put, Function.update_self]
    · exact h.compare
    · exact htree
  destroy a l u h := by
    have hmem : ((c.env deallocate).react (.destroy a) u).mem object = u.mem object := hcall a u
    exact ⟨hmem ▸ h.compare, hmem ▸ h.tree⟩
  free a l u ha h := ⟨h.compare, h.tree.free ha⟩

/-- `freed` are entries that were freed before. -/
theorem invalidate_destroys_ascending (hw : Reachable call f object w) {freed : List P}
    (hfreed : ∀ e ∈ R.nodes (w.mem object).tree, e ∉ freed)
    (hv : v.mem object = (w.mem object).guarded freed)
    (hcall : ∀ e u, (c.onDestroy e u).mem object = u.mem object) (onDestroy : Bool) :
    ∃ v' log, (∀ fuel, (R.nodes (w.mem object).tree).length ≤ fuel →
        (invalidate fuel (some object) onDestroy).runIn (c.env deallocate) (answer call) v =
          some (.ok, v')) ∧
      Invalidated call f object onDestroy (R.nodes (w.mem object).tree) v v' log := by
  have h := hw.holds hR hc
  have hs : Ascending (call f) (R.nodes (w.mem object).tree) := h.sorted.ascending
  have hstores : Stores call f object (R.nodes (w.mem object).tree) v.mem := by
    constructor <;> rw [hv]
    · exact h.compare
    · exact ⟨h.sorted, hfreed⟩
  obtain ⟨v₁, log, hrun, hlog, hdest, hempty⟩ := (drains hR hc hcall).run_drainAll (by decide)
    (by decide) hstores (Layout.run_firstOrLast (RockTree.guarded_first hR hstores.tree) none) onDestroy
  obtain ⟨t, ht⟩ := RockTree.guarded_invalidate hR hempty.tree
  refine ⟨v₁.put object zero, log, fun fuel hfuel => ?_, hlog, hdest, hs, ?_, ?_⟩
  · refine (hrun _ fuel hfuel).trans ?_
    rw [runIn_load, ht]
    rfl
  · intro pre e rest hS x
    rw [hS] at hs ⊢
    exact hs.mem_above hc
  · rw [World.mem_put, Function.update_self]

end

theorem invalidate_destroys_ascending_example :
    ∃ w : World Unit (RedBlackTreeContainer (Reference.tree : RockTree Nat) Unit) (Event Nat),
    ∃ v v' log, Reachable Reference.compare () () w ∧ v.mem () = (w.mem ()).guarded [7] ∧
      (∀ fuel, 2 ≤ fuel → (invalidate fuel (some ()) true).runIn (Client.elsewhere.env deallocate)
        (answer Reference.compare) v = some (.ok, v')) ∧
      Invalidated Reference.compare () () true [1, 2] v v' log := by
  have hw : Reachable Reference.compare () () _ :=
    ⟨blank, _, [.add 2, .add 1], _, rfl, by decide, rfl⟩
  have hfreed : ∀ e ∈ [1, 2], e ∉ [7] := by decide
  obtain ⟨v', log, hrun, h⟩ := invalidate_destroys_ascending Reference.tree_lawful
    Reference.compare_total hw hfreed (v := ⟨none, fun _ => guarded _ [7], []⟩) (c := .elsewhere) rfl
    (fun _ _ => rfl) true
  exact ⟨_, _, v', log, hw, rfl, hrun, h⟩

end RedBlackTreeContainer

end Coral
