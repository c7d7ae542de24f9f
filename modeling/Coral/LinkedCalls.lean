import Coral.Calls
import Coral.LinkedRedBlackTreeContainer

/-!
# The calls a client makes on a linked container

What `Coral.Calls` is for the plain container. `alloc` is among the calls: it initialises the list node
of the new entry.
-/

namespace Coral
open Prog

namespace LinkedRedBlackTreeContainer

variable {P F O : Type} {R : RockTree P} {L : RockList P}

inductive Call (P F : Type) where
  | alloc (G : Seagrass) (sizeMax sizeofEntry : Nat) (posixMemalign : Nat → Option P) (size : Nat)
      (out : Out (Option P))
  | init (compare : Option F)
  | count (out : Out Nat)
  | add (entry : Option P)
  | insert (entry item : Option P)
  | remove (entry : Option P)
  | query (q : Query) (key : Option P) (out : Out (Option P))
  | sortedFirst (out : Out (Option P))
  | sortedLast (out : Out (Option P))
  | sortedNext (entry : Option P) (out : Out (Option P))
  | sortedPrev (entry : Option P) (out : Out (Option P))
  | first (out : Out (Option P))
  | last (out : Out (Option P))
  | next (entry : Option P) (out : Out (Option P))
  | prev (entry : Option P) (out : Out (Option P))
  | invalidate (fuel : Nat) (onDestroy : Bool)

def query (object : Option O) (key : Option P) (out : Out (Option P)) :
    Query → M O R L F (Code × Out (Option P))
  | .get => get object key out
  | .ceiling => ceiling object key out
  | .floor => floor object key out
  | .higher => higher object key out
  | .lower => lower object key out

theorem query_eq (object : Option O) (key : Option P) (out : Out (Option P)) (q : Query) :
    (query object key out q : M O R L F _) = layout.query object key out q := by
  cases q <;> rfl

def Call.exec [DecidableEq P] (object : O) : Call P F → M O R L F (Reply P)
  | .alloc G sizeMax sizeofEntry posixMemalign size out =>
    return .entry (← LinkedRedBlackTreeContainer.alloc G sizeMax sizeofEntry posixMemalign object size out)
  | .init compare => return .code (← LinkedRedBlackTreeContainer.init (some object) compare)
  | .count out => return .count (← LinkedRedBlackTreeContainer.count (some object) out)
  | .add entry => return .code (← LinkedRedBlackTreeContainer.add (some object) entry)
  | .insert entry item => return .code (← LinkedRedBlackTreeContainer.insert (some object) entry item)
  | .remove entry => return .code (← LinkedRedBlackTreeContainer.remove (some object) entry)
  | .query q key out => return .entry (← LinkedRedBlackTreeContainer.query (some object) key out q)
  | .sortedFirst out => return .entry (← LinkedRedBlackTreeContainer.sortedFirst (some object) out)
  | .sortedLast out => return .entry (← LinkedRedBlackTreeContainer.sortedLast (some object) out)
  | .sortedNext entry out => return .entry (← LinkedRedBlackTreeContainer.sortedNext object entry out)
  | .sortedPrev entry out => return .entry (← LinkedRedBlackTreeContainer.sortedPrev object entry out)
  | .first out => return .entry (← LinkedRedBlackTreeContainer.first (some object) out)
  | .last out => return .entry (← LinkedRedBlackTreeContainer.last (some object) out)
  | .next entry out => return .entry (← LinkedRedBlackTreeContainer.next (some object) entry out)
  | .prev entry out => return .entry (← LinkedRedBlackTreeContainer.prev (some object) entry out)
  | .invalidate fuel onDestroy =>
    return .code (← LinkedRedBlackTreeContainer.invalidate fuel (some object) onDestroy)

/-- The calls that write nothing. -/
def Call.ReadsOnly : Call P F → Prop
  | .count _ | .query _ _ _ | .sortedFirst _ | .sortedLast _ | .sortedNext _ _ | .sortedPrev _ _ => True
  | .first _ | .last _ | .next _ _ | .prev _ _ => True
  | _ => False

/-- `inv` survives every write of this file but the one at the end of `init`. -/
structure Writable (inv : LinkedRedBlackTreeContainer R L F → Prop) : Prop where
  zero : ∀ s, inv s → inv s.zero
  tree : ∀ s tree, inv s → inv { s with tree }
  list : ∀ s list, inv s → inv { s with list }
  nodes : ∀ s nodes, inv s → inv { s with nodes }

section within
variable {object : O} {inv : LinkedRedBlackTreeContainer R L F → Prop} {b : Bool} {out : Out (Option P)}

theorem query_within (q : Query) (key : Option P) :
    (query (some object) key out q : M O R L F _).Within object inv :=
  query_eq (some object) key out q ▸ Layout.query_within q key

theorem listFirst_stays : (first (some object) out : M O R L F _).Stays object inv b := by
  cases out with
  | none => exact .ret _
  | some v =>
    refine .load ?_
    intro s _
    cases s.list with
    | none => exact .ret _
    | some list => exact found_stays _

theorem listLast_stays : (last (some object) out : M O R L F _).Stays object inv b := by
  cases out with
  | none => exact .ret _
  | some v =>
    refine .load ?_
    intro s _
    cases s.list with
    | none => exact .ret _
    | some list => exact .bind (required_stays _) fun _ => found_stays _

section
variable [DecidableEq P]

theorem next_stays (entry : Option P) : (next (some object) entry out : M O R L F _).Stays object inv b := by
  cases entry with
  | none => exact .ret _
  | some entry =>
    cases out with
    | none => exact .ret _
    | some v =>
      exact .load fun s _ => .bind (required_stays _) fun _ => .ite (.ret _) (found_stays _)

theorem prev_stays (entry : Option P) : (prev (some object) entry out : M O R L F _).Stays object inv b := by
  cases entry with
  | none => exact .ret _
  | some entry =>
    cases out with
    | none => exact .ret _
    | some v =>
      refine .load fun s _ => .ite (.ret _) (.bind (required_stays _) fun _ => ?_)
      exact .ite (.ret _) (found_stays _)

theorem Call.within_of_readsOnly {call : Call P F} (hr : call.ReadsOnly) :
    (call.exec object : M O R L F _).Within object inv := by
  cases call with
  | count out => exact .bind (.stays (Layout.count_stays out)) fun _ => .ret _
  | query q key out => exact .bind (query_within q key) fun _ => .ret _
  | sortedFirst out => exact .bind (.stays (Layout.firstOrLast_stays _)) fun _ => .ret _
  | sortedLast out => exact .bind (.stays (Layout.firstOrLast_stays _)) fun _ => .ret _
  | sortedNext entry out => exact .bind (.stays (Layout.nextOrPrev_stays _ entry)) fun _ => .ret _
  | sortedPrev entry out => exact .bind (.stays (Layout.nextOrPrev_stays _ entry)) fun _ => .ret _
  | first out => exact .bind (.stays listFirst_stays) fun _ => .ret _
  | last out => exact .bind (.stays listLast_stays) fun _ => .ret _
  | next entry out => exact .bind (.stays (next_stays entry)) fun _ => .ret _
  | prev entry out => exact .bind (.stays (prev_stays entry)) fun _ => .ret _
  | _ => exact hr.elim

end

section writes
variable (h : Writable inv)
include h

theorem removeNode_stays (node : P) : (removeNode object node : M O R L F _).Stays object inv b :=
  .load fun s hs => .bind (required_stays _) fun tree => .store (h.tree s tree hs) (.ret _)

theorem listInsertBefore_stays (a v : P) :
    (listInsertBefore object a v : M O R L F _).Stays object inv b :=
  .load fun s hs => .bind (required_stays _) fun nodes => .store (h.nodes s nodes hs) (.ret _)

theorem listRemove_stays (node : P) : (listRemove object node : M O R L F _).Stays object inv b :=
  .load fun s hs => .bind (required_stays _) fun nodes => .store (h.nodes s nodes hs) (.ret _)

theorem setList_stays (node : Option P) : (setList object node : M O R L F _).Stays object inv b :=
  .load fun s hs => .store (h.list s node hs) (.ret _)

theorem append_stays (node : P) : (append object node : M O R L F _).Stays object inv b := by
  refine .load ?_
  intro s hs
  cases s.list with
  | none => exact setList_stays h _
  | some list => exact listInsertBefore_stays h _ _

theorem init_stays {compare : Option F}
    (hc : ∀ f ∈ compare, ∀ s tree, inv s → inv { s.zero with tree, compare := some f }) :
    (init (some object) compare : M O R L F _).Stays object inv b := by
  cases compare with
  | none => exact .ret _
  | some f =>
    refine .load fun s hs => .store (h.zero s hs) (.bind (required_stays _) ?_)
    intro tree
    exact .store (hc f rfl s tree hs) (.ret _)

theorem alloc_stays (G : Seagrass) (sizeMax sizeofEntry : Nat) (posixMemalign : Nat → Option P)
    (size : Nat) : (alloc G sizeMax sizeofEntry posixMemalign object size out :
      M O R L F _).Stays object inv b := by
  refine request_stays G sizeMax sizeofEntry posixMemalign size fun e => ?_
  refine .bind (requiredTrue_stays _) fun _ => .load fun s hs => .bind (required_stays _) ?_
  intro nodes
  exact .store (h.nodes s nodes hs) (.ret _)

theorem add_within (entry : Option P) : (add (some object) entry : M O R L F _).Within object inv := by
  cases entry with
  | none => exact .stays (.ret _)
  | some entry =>
    exact Layout.enlist_within h.tree entry (.bind (append_stays h _) fun _ => .ret _)

variable [DecidableEq P]

theorem rehead_stays (a node : P) : (rehead object a node : M O R L F _).Stays object inv b :=
  .load fun _ _ => .ite (setList_stays h _) (.ret _)

theorem unhead_stays (node : P) : (unhead object node : M O R L F _).Stays object inv b :=
  .load fun _ _ => .ite (.bind (required_stays _) fun _ => setList_stays h _) (.ret _)

theorem insert_within (entry item : Option P) :
    (insert (some object) entry item : M O R L F _).Within object inv := by
  cases entry with
  | none => exact .stays (.ret _)
  | some entry =>
    cases item with
    | none => exact .stays (.ret _)
    | some item =>
      exact Layout.enlist_within h.tree item
        (.bind (listInsertBefore_stays h _ _) fun _ => .bind (rehead_stays h _ _) fun _ => .ret _)

theorem remove_stays (entry : Option P) :
    (remove (some object) entry : M O R L F _).Stays object inv b := by
  cases entry with
  | none => exact .ret _
  | some entry =>
    refine .bind (unhead_stays h _) fun _ => .bind (listRemove_stays h _) fun _ => ?_
    exact .bind (removeNode_stays h _) fun _ => .ret _

theorem invalidate_stays (fuel : Nat) (onDestroy : Bool) :
    (invalidate fuel (some object) onDestroy : M O R L F _).Stays object inv b := by
  exact drainAll_stays (fun _ => next_stays _) (fun _ => remove_stays h _) listFirst_stays
    (.load fun s hs => .bind (required_stays _) fun _ => .store (h.zero s hs) (.ret _)) fuel onDestroy

theorem Call.within {call : Call P F} (hc : ∀ f, call = .init (some f) →
      ∀ s tree, inv s → inv { s.zero with tree, compare := some f }) :
    (call.exec object : M O R L F _).Within object inv := by
  cases call with
  | alloc G sizeMax sizeofEntry posixMemalign size out =>
    exact .bind (.stays (alloc_stays h G sizeMax sizeofEntry posixMemalign size)) fun _ => .ret _
  | init compare =>
    refine .bind (.stays (init_stays h ?_)) fun _ => .ret _
    rintro f rfl
    exact hc f rfl
  | count out => exact within_of_readsOnly trivial
  | add entry => exact .bind (add_within h entry) fun _ => .ret _
  | insert entry item => exact .bind (insert_within h entry item) fun _ => .ret _
  | remove entry => exact .bind (.stays (remove_stays h entry)) fun _ => .ret _
  | query q key out => exact within_of_readsOnly trivial
  | sortedFirst out => exact within_of_readsOnly trivial
  | sortedLast out => exact within_of_readsOnly trivial
  | sortedNext entry out => exact within_of_readsOnly trivial
  | sortedPrev entry out => exact within_of_readsOnly trivial
  | first out => exact within_of_readsOnly trivial
  | last out => exact within_of_readsOnly trivial
  | next entry out => exact within_of_readsOnly trivial
  | prev entry out => exact within_of_readsOnly trivial
  | invalidate fuel onDestroy => exact .bind (.stays (invalidate_stays h fuel onDestroy)) fun _ => .ret _

end writes

theorem Call.within_any [DecidableEq P] (object : O) (call : Call P F) :
    (call.exec object : M O R L F _).Within object fun _ => True :=
  within ⟨fun _ _ => trivial, fun _ _ _ => trivial, fun _ _ _ => trivial, fun _ _ _ => trivial⟩
    fun _ _ _ _ _ => trivial

end within

end LinkedRedBlackTreeContainer

end Coral
