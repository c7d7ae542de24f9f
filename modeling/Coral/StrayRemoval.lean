import Coral.ListInvalidation

/-!
# Removing an item that is in no list

`remove` does not check that the item is in the list. The rings and the head survive a stray item, but
the count goes down unless it is zero already. `Sound` says what a client may rely on: whatever it does
next, stray removals from empty lists included, the lists show their sequences and can be emptied.
After a stray removal it holds exactly when the list was empty (`remove_stray_iff`).
-/

namespace Coral

namespace LinkedList
open Prog

variable {P I : Type} [DecidableEq P] [DecidableEq I] {L : RockList P} {G : Seagrass} {objects : List I}
  {pool : Finset P} {seq : I → List P} {object : I} {x : P} {w w' : World Unit (Memory I L) (Event P)}

/-- Invalidating `object` ends, destroys the items `l` and leaves an empty list, whatever the callback
does elsewhere. -/
def Empties (G : Seagrass) (object : I) (l : List P) (w : World Unit (Memory I L) (Event P)) : Prop :=
  ∀ (freed : List P) (v : World Unit (Memory I L.guarded) (Event P))
    (c : Client Unit (Memory I L.guarded) P) (onDestroy : Bool), (∀ x ∈ l, x ∉ freed) →
    v.mem () = (w.mem ()).guarded freed →
    (∀ e u, Leaves object (u.mem ()) ((c.onDestroy e u).mem ())) →
    ∃ v' log, (∀ fuel, l.length ≤ fuel →
        (invalidate G fuel (some object) onDestroy).runIn (c.env deallocate) noCallback v =
          some (.ok, v')) ∧
      Invalidated object onDestroy l v v' log

/-- An allowed call, or the removal of an item that is in no list from an empty list. -/
def Harmless (objects : List I) (pool : Finset P) (seq : I → List P) (op : Op I P) : Prop :=
  Sequences.Allowed objects pool seq op ∨ ∃ object x, op = .remove object x ∧ object ∈ objects ∧
    x ∈ pool ∧ (∀ j, x ∉ seq j) ∧ seq object = []

/-- The lists are those of `seq` and stay right: after every further harmless run each list shows its
sequence, and invalidating it destroys the items of the sequence. -/
def Sound (G : Seagrass) (objects : List I) (pool : Finset P) (seq : I → List P)
    (w : World Unit (Memory I L) (Event P)) : Prop :=
  ∀ ops codes w', AbsValid Sequences.step (Harmless objects pool) seq ops →
    runAll noCallback (Op.exec G) ops w = some (codes, w') →
    Shows objects (absRun Sequences.step seq ops).2 w' ∧
      ∀ i ∈ objects, Empties G i ((absRun Sequences.step seq ops).2 i) w'

omit [DecidableEq I] in
theorem Shows.count_eq (h : Shows objects seq w) (ho : object ∈ objects) :
    ((w.mem ()).lists object).count = (seq object).length := by
  have hcount : some ((Code.ok, some ((w.mem ()).lists object).count), w) =
      some ((Code.ok, some (seq object).length), w) := h.count object ho 0
  injection hcount with hcount
  injection hcount with hcount
  injection hcount with _ hcount
  exact Option.some.inj hcount

section
variable (hL : L.Lawful) (hG : G.Lawful)
include hL hG

/-- What a stray removal leaves. -/
theorem Holds.remove_stray (h : Holds objects pool seq w) (ho : object ∈ objects) (hx : x ∈ pool)
    (hfree : ∀ j, x ∉ seq j) :
    ∃ w' nodes, (remove G (some object) (some x)).run noCallback w = some (.ok, w') ∧
      Wrote w w' object ⟨(seq object).length - 1, (seq object).head?⟩ nodes ∧
      L.Keeps (· ∈ pool) nodes seq := by
  have hne : (seq object).head? ≠ some x := fun e => hfree object (List.mem_of_mem_head? e)
  obtain ⟨nodes, hb, -, hk⟩ := RockList.remove_free hL.on h.keeps hx hfree trivial
  obtain ⟨w', hrun, hw'⟩ := run_remove hG ⟨w, run_unhead_other (h.wrote ho) hne, h.wrote ho⟩ hb
  exact ⟨w', nodes, hrun, hw', hk⟩

/-- Where the count is zero it stays zero, so nothing was written to the list. -/
theorem Holds.remove_stray_empty (h : Holds objects pool seq w) (ho : object ∈ objects) (hx : x ∈ pool)
    (hfree : ∀ j, x ∉ seq j) (hempty : seq object = []) :
    ∃ w', (remove G (some object) (some x)).run noCallback w = some (.ok, w') ∧
      Holds objects pool seq w' := by
  obtain ⟨w', nodes, hrun, hw', hk⟩ := h.remove_stray hL hG ho hx hfree
  refine ⟨w', hrun, hw'.nodes ▸ hk, h.pool, fun i hi => ?_⟩
  by_cases hio : i = object
  · rw [hio, hw'.written, hempty]
    rfl
  · rw [hw'.other i hio, h.object i hi]

theorem Holds.after_harmless (h : Holds objects pool seq w) {op : Op I P}
    (hop : Harmless objects pool seq op) {code : Code}
    (hrun : (op.exec G).run noCallback w = some (code, w')) :
    Holds objects pool (Sequences.step seq op).2 w' := by
  rcases hop with hop | ⟨object, x, rfl, ho, hx, hfree, hempty⟩
  · exact h.after_op hL hG op hop hrun
  · obtain ⟨w'', hrun', h'⟩ := h.remove_stray_empty hL hG ho hx hfree hempty
    obtain ⟨-, rfl⟩ := Prod.mk.inj (Option.some.inj (hrun.symm.trans hrun'))
    have hsame : Function.update seq object ((seq object).erase x) = seq := by
      rw [List.erase_of_not_mem (hfree object), Function.update_eq_self]
    show Holds objects pool (Function.update seq object ((seq object).erase x)) w'
    rwa [hsame]

theorem Holds.sound (h : Holds objects pool seq w) : Sound G objects pool seq w := by
  intro ops codes w' hops hrun
  have hstep : ∀ w seq op code w', Holds objects pool seq w → Harmless objects pool seq op →
      (op.exec G).run noCallback w = some (code, w') →
      Holds objects pool (Sequences.step seq op).2 w' :=
    fun w seq op code w' h hop hrun => h.after_harmless hL hG hop hrun
  have h' : Holds objects pool (absRun Sequences.step seq ops).2 w' := inv_runAll hstep ops h hops hrun
  refine ⟨h'.shows hL, ?_⟩
  intro i hi freed v c onDestroy hfreed hv hcall
  exact h'.invalidate_spec hL hG hi hfreed hv hcall onDestroy

/-- Removing an item that is in no list is harmless exactly when the list is empty. -/
theorem remove_stray_iff {ops : List (Op I P)} (hw : ReachableBy G objects pool ops w)
    (ho : object ∈ objects) (hx : x ∈ pool) (hfree : ∀ j, x ∉ (Sequences.run ops).2 j) :
    ∃ w', (remove G (some object) (some x)).run noCallback w = some (.ok, w') ∧
      (Sound G objects pool (Sequences.run ops).2 w' ↔ (Sequences.run ops).2 object = []) := by
  have h := hw.holds hL hG
  obtain ⟨w', nodes, hrun, hw', -⟩ := h.remove_stray hL hG ho hx hfree
  refine ⟨w', hrun, fun hs => ?_, fun hempty => ?_⟩
  · have hcount := (hs [] [] w' trivial rfl).1.count_eq ho
    rw [hw'.written] at hcount
    have hlength : ((Sequences.run ops).2 object).length - 1 = ((Sequences.run ops).2 object).length :=
      hcount
    exact List.eq_nil_of_length_eq_zero (by omega)
  · obtain ⟨w'', hrun', h'⟩ := h.remove_stray_empty hL hG ho hx hfree hempty
    obtain ⟨-, rfl⟩ := Prod.mk.inj (Option.some.inj (hrun.symm.trans hrun'))
    exact h'.sound hL hG

end

theorem remove_stray_iff_example :
    ∃ w w' : World Unit (Memory Bool (Reference.list : RockList Nat)) (Event Nat),
      ReachableBy Reference.seagrass [true, false] {1, 2} [.add true 1] w ∧
      (remove Reference.seagrass (some false) (some 2)).run noCallback w = some (.ok, w') ∧
      (Sound Reference.seagrass [true, false] {1, 2} (Sequences.run [.add true 1]).2 w' ↔
        (Sequences.run [Op.add true 1]).2 false = []) := by
  have hw : ReachableBy Reference.seagrass [true, false] {1, 2} [.add true 1] _ :=
    ⟨blank, _, _, _, fun _ _ => ⟨rfl, rfl⟩, rfl, by decide, rfl⟩
  obtain ⟨w', hrun, hiff⟩ := remove_stray_iff Reference.list_lawful Reference.seagrass_lawful hw
    (show false ∈ [true, false] by decide) (show 2 ∈ ({1, 2} : Finset Nat) by decide) (by decide)
  exact ⟨_, w', hw, hrun, hiff⟩

/-- The list of 1 counts nothing once 2 was removed from it: it shows no item, and invalidating it
destroys none. -/
theorem remove_stray_loses_item :
    ∃ w w' : World Unit (Memory Bool (Reference.list : RockList Nat)) (Event Nat),
      ReachableBy Reference.seagrass [true, false] {1, 2} [.add true 1] w ∧
      (∀ j, 2 ∉ (Sequences.run [Op.add true 1]).2 j) ∧
      (remove Reference.seagrass (some true) (some 2)).run noCallback w = some (.ok, w') ∧
      (count (some true) (some 7)).run noCallback w' = some ((.ok, some 0), w') ∧
      (first (some true) (some none)).run noCallback w' = some ((.seaUrchinIsEmpty, some none), w') ∧
      ((invalidate Reference.seagrass 1 (some true) true).run noCallback w').map
        (fun r => (r.1, r.2.log)) = some (.ok, []) ∧
      ¬ Sound Reference.seagrass [true, false] {1, 2} (Sequences.run [.add true 1]).2 w' := by
  have hw : ReachableBy Reference.seagrass [true, false] {1, 2} [.add true 1] _ :=
    ⟨blank, _, _, _, fun _ _ => ⟨rfl, rfl⟩, rfl, by decide, rfl⟩
  refine ⟨_, _, hw, by decide, rfl, rfl, rfl, rfl, fun hs => ?_⟩
  have hcount := (hs [] [] _ trivial rfl).1.count_eq (show true ∈ [true, false] by decide)
  exact absurd hcount (by decide)

end LinkedList

end Coral
