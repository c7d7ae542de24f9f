import Coral.Guarded
import Coral.InsertionOrder
import Coral.Invalidation

/-!
# Invalidating the linked container

As `Coral.TreeInvalidation`, with the entries on a ring that the head pointer moves along. `Stores` is
the invariant of the loop: the head, the ring and the tree hold the entries that are left.
`invalidate_destroys_in_order`: on every container a run leads to, `invalidate` ends and has destroyed
the entries in the order the run put them in (`Invalidated`).
-/

namespace Coral

namespace LinkedRedBlackTreeContainer
open Prog ThreeWay

variable {P F O : Type} [DecidableEq P] {R : RockTree P} {L : RockList P} {call : F → P → P → Int}
  {f : F} {object : O} {l : List P}

/-- `s` in a memory `freed` was given back of. -/
def guarded (s : LinkedRedBlackTreeContainer R L F) (freed : List P) :
    LinkedRedBlackTreeContainer R.guarded L.guarded F :=
  ⟨⟨s.tree, freed⟩, s.list, s.compare, ⟨s.nodes, freed⟩⟩

/-- Take the memory of `e` back, in which both its nodes are. -/
def deallocate (e : P) (s : LinkedRedBlackTreeContainer R.guarded L.guarded F) :
    LinkedRedBlackTreeContainer R.guarded L.guarded F :=
  { s with tree := Guarded.free s.tree e, nodes := Guarded.free s.nodes e }

/-- `object` was initialised with `f`, its ring goes through `l`, its tree holds the same entries, and
all of them are allocated. -/
structure Stores (call : F → P → P → Int) (f : F) (object : O) (l : List P)
    (m : O → LinkedRedBlackTreeContainer R.guarded L.guarded F) : Prop where
  compare : (m object).compare = some f
  tree : R.Intact (call f) (m object).tree (R.guarded.nodes (m object).tree)
  same : (R.guarded.nodes (m object).tree).Perm l
  head : (m object).list = l.head?
  ring : L.Intact (m object).nodes l

/-- What invalidating a container with the entries `l` has reported, from `v` to `v'`, and what it
leaves. -/
structure Invalidated (call : F → P → P → Int) (f : F) (object : O) (onDestroy : Bool) (l : List P)
    (v v' : World O (LinkedRedBlackTreeContainer R.guarded L.guarded F) (Event P))
    (log : List (Event P × (O → LinkedRedBlackTreeContainer R.guarded L.guarded F))) : Prop where
  reported : v'.log = v.log ++ log
  destroyed : Destroyed (Stores call f object) onDestroy l log
  zero : v'.mem object = zero (v'.mem object)

section
variable [DecidableEq O] {pool : P → Prop} {w : World O (LinkedRedBlackTreeContainer R L F) (Event P)}
  {v : World O (LinkedRedBlackTreeContainer R.guarded L.guarded F) (Event P)} (hR : R.Lawful)
  (hL : L.Lawful) (hc : TotalPreorder (call f))
  {c : Client O (LinkedRedBlackTreeContainer R.guarded L.guarded F) P}
include hR hL hc

theorem drains (hcall : ∀ e u, (c.onDestroy e u).mem object = u.mem object) :
    Drains (c.env deallocate) (answer call) .rockTreeEndOfSequence
      (fun e => next (some object) (some e) (some none)) (fun e => remove (some object) (some e))
      (Stores call f object) where
  nodup l m h := h.ring.nodup
  next a l u h := by
    obtain ⟨b, hb, hnext⟩ := RockList.guarded_next hL h.ring
    refine (run_next hb none).trans ?_
    simp only [h.head, List.head?_cons, Option.some.injEq, or_self, hnext]
  remove a l u h := by
    have ha : a ∈ R.guarded.nodes (u.mem object).tree := h.same.mem_iff.2 (List.mem_cons_self ..)
    obtain ⟨b, hb, hnext⟩ := RockList.guarded_next hL h.ring
    obtain ⟨nodes, hn, hring⟩ := RockList.guarded_remove hL h.ring
    obtain ⟨tree, ht, htree⟩ := RockTree.guarded_remove hR hc h.tree ha
    have hnodes : R.guarded.nodes tree = (R.guarded.nodes (u.mem object).tree).erase a :=
      htree.sorted.nodes
    refine ⟨_, run_remove (run_unhead_head h.head hb) hn ht, rfl, ?_⟩
    constructor <;> simp only [World.mem_put, Function.update_self, hnodes]
    · exact h.compare
    · exact htree
    · exact List.erase_cons_head a l ▸ h.same.erase a
    · exact hnext
    · exact hring
  destroy a l u h := by
    have hmem : ((c.env deallocate).react (.destroy a) u).mem object = u.mem object := hcall a u
    exact ⟨hmem ▸ h.compare, hmem ▸ h.tree, hmem ▸ h.same, hmem ▸ h.head, hmem ▸ h.ring⟩
  free a l u ha h :=
    ⟨h.compare, h.tree.free fun hmem => ha (h.same.mem_iff.1 hmem), h.same, h.head, h.ring.free ha⟩

/-- `freed` are entries that were freed before. -/
theorem invalidate_destroys_in_order {ops : List (Op P)} (hw : ReachableBy call f pool object ops w)
    {freed : List P} (hfreed : ∀ e ∈ R.nodes (w.mem object).tree, e ∉ freed)
    (hv : v.mem object = (w.mem object).guarded freed)
    (hcall : ∀ e u, (c.onDestroy e u).mem object = u.mem object) (onDestroy : Bool) :
    Shows call f object (InsertionOrder.run (call f) ops).2 w ∧
    ∃ v' log, (∀ fuel, (InsertionOrder.run (call f) ops).2.length ≤ fuel →
        (invalidate fuel (some object) onDestroy).runIn (c.env deallocate) (answer call) v =
          some (.ok, v')) ∧
      Invalidated call f object onDestroy (InsertionOrder.run (call f) ops).2 v v' log := by
  have h := hw.holds hR hL hc
  refine ⟨h.shows hL, ?_⟩
  have hstores : Stores call f object (InsertionOrder.run (call f) ops).2 v.mem := by
    constructor <;> rw [hv]
    · exact h.compare
    · exact ⟨h.sorted, hfreed⟩
    · exact h.same
    · exact h.head
    · exact ⟨h.keeps.ring (), h.keeps.nodup (), fun e he => hfreed e (h.mem_iff.2 he)⟩
  obtain ⟨v₁, log, hrun, hlog, hdest, hempty⟩ := (drains hR hL hc hcall).run_drainAll (by decide)
    (by decide) hstores (run_first hstores.head none) onDestroy
  obtain ⟨t, ht⟩ := RockTree.guarded_invalidate hR (hempty.same.eq_nil ▸ hempty.tree)
  refine ⟨v₁.put object (zero (v₁.mem object)), log, fun fuel hfuel => ?_, hlog, hdest, ?_⟩
  · refine (hrun _ fuel hfuel).trans ?_
    rw [runIn_load, ht]
    rfl
  · rw [World.mem_put, Function.update_self]
    rfl

end

theorem invalidate_destroys_in_order_example :
    ∃ w : World Unit (LinkedRedBlackTreeContainer Reference.tree Reference.list Unit) (Event Nat),
    ∃ v v' log, ReachableBy Reference.compare () (· < 3) () [.add 2, .insert 2 1, .add 0] w ∧
      v.mem () = (w.mem ()).guarded [7] ∧ Shows Reference.compare () () [1, 2, 0] w ∧
      (∀ fuel, 3 ≤ fuel → (invalidate fuel (some ()) true).runIn (Client.elsewhere.env deallocate)
        (answer Reference.compare) v = some (.ok, v')) ∧
      Invalidated Reference.compare () () true [1, 2, 0] v v' log := by
  have hw : ReachableBy Reference.compare () (· < 3) () [.add 2, .insert 2 1, .add 0] _ :=
    ⟨blank, _, _, fun _ _ => ⟨rfl, rfl⟩, rfl, by decide, rfl⟩
  have hfreed : ∀ e ∈ [0, 1, 2], e ∉ [7] := by decide
  obtain ⟨hshows, v', log, hrun, h⟩ := invalidate_destroys_in_order Reference.tree_lawful
    Reference.list_lawful Reference.compare_total hw hfreed (v := ⟨none, fun _ => guarded _ [7], []⟩)
    (c := .elsewhere) rfl (fun _ _ => rfl) true
  exact ⟨_, _, v', log, hw, rfl, hshows, hrun, h⟩

end LinkedRedBlackTreeContainer

end Coral
