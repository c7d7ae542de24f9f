import Coral.Guarded
import Coral.Invalidation
import Coral.ListSequences

/-!
# Invalidating the linked list

As `Coral.LinkedInvalidation`, in a memory that other lists and their items are in too: the callback
may change all of these (`Leaves`). `invalidate_destroys_items`: in every memory a run leads to,
invalidating a list ends and has destroyed its items in their order (`Invalidated`).
-/

namespace Coral

namespace LinkedList
open Prog

variable {P I : Type} [DecidableEq P] {L : RockList P} {object : I} {l : List P}

/-- `m` when `freed` was given back. -/
def Memory.guarded (m : Memory I L) (freed : List P) : Memory I L.guarded := ⟨m.lists, ⟨m.nodes, freed⟩⟩

/-- Take the memory of `e` back. -/
def deallocate (e : P) (m : Memory I L.guarded) : Memory I L.guarded :=
  { m with nodes := Guarded.free m.nodes e }

/-- `object` leads to the ring `l` and counts it, and all of it is allocated. -/
structure Stores (object : I) (l : List P) (m : Unit → Memory I L.guarded) : Prop where
  handle : (m ()).lists object = ⟨l.length, l.head?⟩
  ring : L.Intact (m ()).nodes l

/-- From `m` to `m'` the list `object` and the ring its head leads to are left as they are. -/
structure Leaves (object : I) (m m' : Memory I L.guarded) : Prop where
  handle : m'.lists object = m.lists object
  ring : ∀ l, (m.lists object).list = l.head? → L.Intact m.nodes l → L.Intact m'.nodes l

/-- What invalidating a list of the items `l` has reported, from `v` to `v'`, and what it leaves. -/
structure Invalidated (object : I) (onDestroy : Bool) (l : List P)
    (v v' : World Unit (Memory I L.guarded) (Event P))
    (log : List (Event P × (Unit → Memory I L.guarded))) : Prop where
  reported : v'.log = v.log ++ log
  destroyed : Destroyed (Stores object) onDestroy l log
  zero : (v'.mem ()).lists object = zero

section
variable [DecidableEq I] {G : Seagrass}

/-! No step of a change is a call of the client's. -/

omit [DecidableEq P] [DecidableEq I] in
theorem required_quiet {α : Type} (e : Except Code α) : (required e : M I L α).Quiet := by
  cases e <;> trivial

omit [DecidableEq P] in
theorem setList_quiet (l : Option P) : (setList object l : M I L Unit).Quiet := fun _ => trivial

omit [DecidableEq P] [DecidableEq I] in
theorem listInsertBefore_quiet (a v : P) : (listInsertBefore a v : M I L Unit).Quiet := fun _ =>
  (required_quiet _).bind fun _ => trivial

omit [DecidableEq P] in
theorem increment_quiet : (increment G object : M I L Unit).Quiet := fun _ =>
  (required_quiet _).bind fun _ _ => trivial

theorem remove_quiet (object : I) (a : P) : (remove G (some object) (some a) : M I L Code).Quiet := by
  have hunhead : (unhead object a : M I L Unit).Quiet := fun m =>
    .ite ((required_quiet _).bind fun _ => setList_quiet _) trivial
  have hremove : (listRemove a : M I L Unit).Quiet := fun m => (required_quiet _).bind fun _ => trivial
  have hdecrement : (decrement G object : M I L Unit).Quiet := fun m =>
    .ite trivial ((required_quiet _).bind fun _ _ => trivial)
  exact hunhead.bind fun _ => hremove.bind fun _ => hdecrement.bind fun _ => trivial

omit [DecidableEq P] in
theorem append_quiet (v : P) : (append object v : M I L Unit).Quiet := fun m => by
  cases hlist : (m.lists object).list with
  | none => simpa only [hlist] using setList_quiet (some v)
  | some list => simpa only [hlist] using listInsertBefore_quiet list v

theorem Op.quiet (op : Op I P) : (op.exec G : M I L Code).Quiet := by
  cases op with
  | add object item => exact increment_quiet.bind fun _ => (append_quiet item).bind fun _ => trivial
  | insert object item value =>
    have hrehead : (rehead object item value : M I L Unit).Quiet := fun m =>
      .ite (setList_quiet _) trivial
    exact increment_quiet.bind fun _ => (listInsertBefore_quiet _ _).bind fun _ =>
      hrehead.bind fun _ => trivial
  | remove object item => exact remove_quiet object item

section
variable {c : Client Unit (Memory I L.guarded) P} (hL : L.Lawful) (hG : G.Lawful)
include hL hG

theorem drains (hcall : ∀ e u, Leaves object (u.mem ()) ((c.onDestroy e u).mem ())) :
    Drains (c.env deallocate) noCallback .seaUrchinEndOfSequence
      (fun e => next (some object) (some e) (some none)) (fun e => remove G (some object) (some e))
      (Stores object) where
  nodup l m h := h.ring.nodup
  next a l u h := by
    obtain ⟨b, hb, hnext⟩ := RockList.guarded_next hL h.ring
    refine (run_next hb none).trans ?_
    simp only [h.handle, List.head?_cons, Option.some.injEq, or_self, hnext]
  remove a l u h := by
    obtain ⟨b, hb, hnext⟩ := RockList.guarded_next hL h.ring
    obtain ⟨nodes, hn, hring⟩ := RockList.guarded_remove hL h.ring
    have hwrote : Wrote u u object ⟨l.length + 1, some a⟩ (u.mem ()).nodes :=
      ⟨rfl, h.handle, fun _ _ => rfl⟩
    obtain ⟨u', hrun, hu'⟩ := run_remove hG (run_unhead_head hwrote hb) hn
    exact ⟨u', hrun, (remove_quiet object a).log_eq hrun, hnext ▸ hu'.written, hu'.nodes ▸ hring⟩
  destroy a l u h := by
    have hleaves := hcall a u
    exact ⟨hleaves.handle.trans h.handle, hleaves.ring l (by rw [h.handle]) h.ring⟩
  free a l u ha h := ⟨h.handle, h.ring.free ha⟩

variable {objects : List I} {pool : Finset P} {seq : I → List P}
  {w : World Unit (Memory I L) (Event P)} {v : World Unit (Memory I L.guarded) (Event P)}

theorem Holds.invalidate_spec (h : Holds objects pool seq w) (ho : object ∈ objects) {freed : List P}
    (hfreed : ∀ x ∈ seq object, x ∉ freed) (hv : v.mem () = (w.mem ()).guarded freed)
    (hcall : ∀ e u, Leaves object (u.mem ()) ((c.onDestroy e u).mem ())) (onDestroy : Bool) :
    ∃ v' log, (∀ fuel, (seq object).length ≤ fuel →
        (invalidate G fuel (some object) onDestroy).runIn (c.env deallocate) noCallback v =
          some (.ok, v')) ∧
      Invalidated object onDestroy (seq object) v v' log := by
  have hstores : Stores object (seq object) v.mem := by
    constructor <;> rw [hv]
    · exact h.object object ho
    · exact ⟨h.keeps.ring object, h.keeps.nodup object, hfreed⟩
  obtain ⟨v₁, log, hrun, hlog, hdest, -⟩ := (drains hL hG hcall).run_drainAll (by decide) (by decide)
    hstores (run_first hstores.handle none) onDestroy
  refine ⟨v₁.put () ((v₁.mem ()).set object zero), log, fun fuel hfuel => ?_, hlog, hdest, ?_⟩
  · exact hrun _ fuel hfuel
  · exact Function.update_self ..

theorem invalidate_destroys_items {ops : List (Op I P)} (hw : ReachableBy G objects pool ops w)
    (ho : object ∈ objects) {freed : List P} (hfreed : ∀ x ∈ (Sequences.run ops).2 object, x ∉ freed)
    (hv : v.mem () = (w.mem ()).guarded freed)
    (hcall : ∀ e u, Leaves object (u.mem ()) ((c.onDestroy e u).mem ())) (onDestroy : Bool) :
    Shows objects (Sequences.run ops).2 w ∧
    ∃ v' log, (∀ fuel, ((Sequences.run ops).2 object).length ≤ fuel →
        (invalidate G fuel (some object) onDestroy).runIn (c.env deallocate) noCallback v =
          some (.ok, v')) ∧
      Invalidated object onDestroy ((Sequences.run ops).2 object) v v' log := by
  have h := hw.holds hL hG
  exact ⟨h.shows hL, h.invalidate_spec hL hG ho hfreed hv hcall onDestroy⟩

end

end

/-- A callback that changes the other list. -/
def meddler : Client Unit (Memory Bool (Reference.list : RockList Nat).guarded) Nat :=
  ⟨fun _ u => u.put () ((u.mem ()).set false zero), fun _ _ => rfl⟩

theorem invalidate_destroys_items_example : ∃ w v v' log,
    ReachableBy Reference.seagrass [true, false] {1, 2, 3}
      [.add true 1, .add false 3, .insert true 1 2] w ∧
    v.mem () = (w.mem ()).guarded [7] ∧
    Shows [true, false] (fun i => if i then [2, 1] else [3]) w ∧
    (∀ fuel, 2 ≤ fuel → (invalidate Reference.seagrass fuel (some true) true).runIn
      (meddler.env deallocate) noCallback v = some (.ok, v')) ∧
    Invalidated true true [2, 1] v v' log := by
  have hw : ReachableBy Reference.seagrass [true, false] {1, 2, 3}
      [.add true 1, .add false 3, .insert true 1 2] _ :=
    ⟨blank, _, _, _, fun _ _ => ⟨rfl, rfl⟩, rfl, by decide, rfl⟩
  have hseq : (Sequences.run [.add true 1, .add false 3, .insert true 1 2]).2 =
      fun i : Bool => if i then [2, 1] else [3] := by
    funext i
    cases i <;> decide
  have hfreed : ∀ x ∈ [2, 1], x ∉ [7] := by decide
  obtain ⟨hshows, v', log, hrun, h⟩ := invalidate_destroys_items Reference.list_lawful
    Reference.seagrass_lawful hw (show true ∈ [true, false] by decide) hfreed
    (v := ⟨none, fun _ => Memory.guarded _ [7], []⟩) (c := meddler) rfl
    (fun _ _ => ⟨rfl, fun _ _ h => h⟩) true
  exact ⟨_, _, v', log, hw, rfl, hseq ▸ hshows, hrun, h⟩

end LinkedList

end Coral
