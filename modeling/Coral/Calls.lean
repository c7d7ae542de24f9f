import Coral.RedBlackTreeContainer

/-!
# The calls a client makes on a container

`Call` lists the functions of `src/red_black_tree_container.c` that work on a container, with their
arguments; `exec object` is such a call on `object`. `Call.within`: every one of them stays within its
container, and keeps what its writes keep (`Writable`). What the files have in common comes first, for
any container.
-/

namespace Coral
open Prog

/-- What a function of a container returns, with its out parameter. -/
inductive Reply (P : Type) where
  | code (code : Code)
  | count (result : Code × Out Nat)
  | entry (result : Code × Out (Option P))
deriving DecidableEq

section
variable {O S P E α : Type} {x : O} {inv : S → Prop} {b : Bool}

theorem required_stays (e : Except Code α) : (required e : Prog O S P E α).Stays x inv b := by
  cases e <;> trivial

theorem requiredTrue_stays (c : Bool) : (requiredTrue c : Prog O S P E Unit).Stays x inv b := by
  cases c <;> trivial

theorem entityCompare_stays (a c : P) : (entityCompare a c : Prog O S P E Int).Stays x inv true :=
  ⟨rfl, fun _ => trivial⟩

variable {out : Out (Option P)}

theorem found_stays (node : Option P) : (found node : Prog O S P E _).Stays x inv b := by
  cases node <;> trivial

theorem checked_within {body : O → P → Prog O S P E (Code × Out (Option P))} (key : Option P)
    (h : ∀ key, (body x key).Within x inv) : (checked (some x) key out body).Within x inv := by
  cases key with
  | none => exact .stays (.ret _)
  | some key =>
    cases out with
    | none => exact .stays (.ret _)
    | some v => exact h key

theorem request_stays {rest : P → Prog O S P E (Code × Out (Option P))} (G : Seagrass)
    (sizeMax sizeofStruct : Nat) (posixMemalign : Nat → Option P) (size : Nat)
    (h : ∀ e, (rest e).Stays x inv b) :
    (request G sizeMax sizeofStruct posixMemalign size out rest).Stays x inv b := by
  cases size with
  | zero => exact .ret _
  | succ size =>
    cases out with
    | none => exact .ret _
    | some v =>
      unfold request
      dsimp only
      rcases G.add (size + 1) sizeofStruct with error | alloc
      · exact .bind (requiredTrue_stays _) fun _ => .ret _
      · refine .ite (.ret _) ?_
        rcases posixMemalign alloc with _ | e
        · exact .ret _
        · exact h e

end

section
variable {O S P : Type} {x : O} {inv : S → Prop} {b : Bool}

theorem release_stays (entry : Option P) : (release entry : Prog O S P _ Code).Stays x inv b := by
  cases entry <;> trivial

variable {empty end_ : Code}
  {first : Prog O S P (Event P) (Code × Out (Option P))}
  {next : P → Prog O S P (Event P) (Code × Out (Option P))} {remove : P → Prog O S P (Event P) Code}
  {rest : Prog O S P (Event P) Code} (hnext : ∀ e, (next e).Stays x inv b)
  (hremove : ∀ e, (remove e).Stays x inv b)
include hnext hremove

theorem drain_stays (onDestroy : Bool) (fuel : Nat) (e : Option P) :
    (drain end_ next remove onDestroy fuel e).Stays x inv b := by
  induction fuel generalizing e with
  | zero => trivial
  | succ fuel ih =>
    cases e with
    | none => trivial
    | some e =>
      refine .bind (hnext e) ?_
      rintro ⟨error, out⟩
      refine .bind (requiredTrue_stays _) fun _ => .bind (hremove e) fun _ =>
        .bind (requiredTrue_stays _) fun _ => ?_
      refine .ite (.bind ?_ fun _ => ?_) ?_
      · exact trivial
      all_goals exact .bind (release_stays _) fun _ => .bind (requiredTrue_stays _) fun _ => .ite (ih _) (.ret _)

theorem drainAll_stays (hfirst : first.Stays x inv b) (hrest : rest.Stays x inv b) (fuel : Nat)
    (onDestroy : Bool) : (drainAll empty end_ first next remove rest fuel onDestroy).Stays x inv b := by
  refine .bind hfirst ?_
  rintro ⟨error, e⟩
  exact .ite (.bind (drain_stays hnext hremove _ _ _) fun _ => hrest)
    (.bind (requiredTrue_stays _) fun _ => hrest)

end

namespace Layout

variable {O S P E F : Type} {R : RockTree P} {C : Layout R F S} {object : O} {inv : S → Prop} {b : Bool}
  {out : Out (Option P)}

theorem find_stays (k : P) : (C.find object k : Prog O S P E _).Stays object inv true :=
  .load fun _ _ => .lift _

theorem stepOrNotFound_stays (step : R.Tree → P → Except Code P) (node : P) :
    (C.stepOrNotFound step object node out : Prog O S P E _).Stays object inv b := by
  refine .load ?_
  intro s _
  cases step (C.tree s) node with
  | ok node => exact found_stays _
  | error error => exact .bind (requiredTrue_stays _) fun _ => .ret _

theorem query_within (q : Query) (key : Option P) :
    (C.query (some object) key out q : Prog O S P E _).Within object inv := by
  cases q with
  | get =>
    refine checked_within key fun key => .enters (.bind (find_stays key) ?_)
    rintro ⟨error, node⟩
    exact .ite (found_stays _) (.bind (requiredTrue_stays _) fun _ => .ret _)
  | ceiling =>
    refine checked_within key fun key => .enters (.bind (find_stays key) ?_)
    rintro ⟨error, node⟩
    refine .ite (found_stays _) (.bind (requiredTrue_stays _) fun _ => ?_)
    cases node with
    | none => exact .ret _
    | some node =>
      exact .bind (entityCompare_stays _ _) fun c => .ite (.ret _) (found_stays _)
  | floor =>
    refine checked_within key fun key => .enters (.bind (find_stays key) ?_)
    rintro ⟨error, node⟩
    refine .ite (found_stays _) (.bind (requiredTrue_stays _) fun _ => ?_)
    cases node with
    | none => exact .ret _
    | some node =>
      exact .bind (entityCompare_stays _ _) fun c => .ite (stepOrNotFound_stays _ _) (found_stays _)
  | higher =>
    refine checked_within key fun key => .enters (.bind (find_stays key) ?_)
    rintro ⟨error, node⟩
    refine .ite ?_ (.bind (requiredTrue_stays _) fun _ => ?_)
    · cases node with
      | none => trivial
      | some node => exact stepOrNotFound_stays _ _
    · cases node with
      | none => exact .ret _
      | some node =>
        exact .bind (entityCompare_stays _ _) fun c => .ite (.ret _) (found_stays _)
  | lower =>
    refine checked_within key fun key => .enters (.bind (find_stays key) ?_)
    rintro ⟨error, node⟩
    refine .bind (requiredTrue_stays _) fun _ => ?_
    cases node with
    | none => exact .ite .abort (.ret _)
    | some node =>
      exact .bind (entityCompare_stays _ _) fun c => .ite (stepOrNotFound_stays _ _) (found_stays _)

theorem firstOrLast_stays (end_ : R.Tree → Except Code P) :
    (C.firstOrLast end_ (some object) out : Prog O S P E _).Stays object inv b := by
  cases out with
  | none => exact .ret _
  | some v =>
    refine .load ?_
    intro s _
    cases end_ (C.tree s) with
    | ok node => exact found_stays _
    | error error => exact .bind (requiredTrue_stays _) fun _ => .ret _

theorem nextOrPrev_stays (step : R.Tree → P → Except Code P) (entry : Option P) :
    (C.nextOrPrev step object entry out : Prog O S P E _).Stays object inv b := by
  cases entry with
  | none => exact .ret _
  | some entry =>
    cases out with
    | none => exact .ret _
    | some v =>
      refine .load ?_
      intro s _
      cases step (C.tree s) entry with
      | ok node => exact found_stays _
      | error error => exact .bind (requiredTrue_stays _) fun _ => .ret _

theorem count_stays (out : Out Nat) : (C.count (some object) out : Prog O S P E _).Stays object inv b := by
  cases out with
  | none => exact .ret _
  | some v => exact .load fun s _ => .bind (required_stays _) fun _ => .ret _

section
variable (h : ∀ s tree, inv s → inv (C.setTree s tree))
include h

theorem insertNode_stays (p : Option P) (k : P) :
    (C.insertNode object p k : Prog O S P E _).Stays object inv true := by
  refine .load fun s hs => .bind (.lift _) fun e => .bind (required_stays e) ?_
  intro tree
  exact .store (h s tree hs) (.ret _)

theorem enlist_within {rest : Prog O S P E Code} (entry : P) (hrest : rest.Stays object inv true) :
    (C.enlist object entry rest).Within object inv := by
  refine .enters (.bind (find_stays entry) ?_)
  rintro ⟨error, node⟩
  refine .ite (.ret _) (.bind (requiredTrue_stays _) fun _ => ?_)
  exact .bind (insertNode_stays h _ _) fun _ => hrest

end

end Layout

namespace RedBlackTreeContainer

variable {P F O : Type} {R : RockTree P}

inductive Call (P F : Type) where
  | init (compare : Option F)
  | count (out : Out Nat)
  | add (entry : Option P)
  | remove (entry : Option P)
  | query (q : Query) (key : Option P) (out : Out (Option P))
  | first (out : Out (Option P))
  | last (out : Out (Option P))
  | next (entry : Option P) (out : Out (Option P))
  | prev (entry : Option P) (out : Out (Option P))
  | invalidate (fuel : Nat) (onDestroy : Bool)

def query (object : Option O) (key : Option P) (out : Out (Option P)) :
    Query → M O R F (Code × Out (Option P))
  | .get => get object key out
  | .ceiling => ceiling object key out
  | .floor => floor object key out
  | .higher => higher object key out
  | .lower => lower object key out

theorem query_eq (object : Option O) (key : Option P) (out : Out (Option P)) (q : Query) :
    (query object key out q : M O R F _) = layout.query object key out q := by
  cases q <;> rfl

def Call.exec (object : O) : Call P F → M O R F (Reply P)
  | .init compare => return .code (← RedBlackTreeContainer.init (some object) compare)
  | .count out => return .count (← RedBlackTreeContainer.count (some object) out)
  | .add entry => return .code (← RedBlackTreeContainer.add (some object) entry)
  | .remove entry => return .code (← RedBlackTreeContainer.remove (some object) entry)
  | .query q key out => return .entry (← RedBlackTreeContainer.query (some object) key out q)
  | .first out => return .entry (← RedBlackTreeContainer.first (some object) out)
  | .last out => return .entry (← RedBlackTreeContainer.last (some object) out)
  | .next entry out => return .entry (← RedBlackTreeContainer.next object entry out)
  | .prev entry out => return .entry (← RedBlackTreeContainer.prev object entry out)
  | .invalidate fuel onDestroy =>
    return .code (← RedBlackTreeContainer.invalidate fuel (some object) onDestroy)

/-- The calls that write nothing. -/
def Call.ReadsOnly : Call P F → Prop
  | .count _ | .query _ _ _ | .first _ | .last _ | .next _ _ | .prev _ _ => True
  | _ => False

/-- `inv` survives every write of this file but the one at the end of `init`. -/
structure Writable (inv : RedBlackTreeContainer R F → Prop) : Prop where
  zero : inv zero
  tree : ∀ s tree, inv s → inv { s with tree }

section within
variable {object : O} {inv : RedBlackTreeContainer R F → Prop} {b : Bool} {out : Out (Option P)}

theorem query_within (q : Query) (key : Option P) :
    (query (some object) key out q : M O R F _).Within object inv :=
  query_eq (some object) key out q ▸ Layout.query_within q key

theorem add_within (h : ∀ s tree, inv s → inv { s with tree }) (entry : Option P) :
    (add (some object) entry : M O R F _).Within object inv := by
  cases entry with
  | none => exact .stays (.ret _)
  | some entry => exact Layout.enlist_within h entry (.ret _)

theorem remove_stays (h : ∀ s tree, inv s → inv { s with tree }) (entry : Option P) :
    (remove (some object) entry : M O R F _).Stays object inv b := by
  cases entry with
  | none => exact .ret _
  | some entry =>
    exact .load fun s hs => .bind (required_stays _) fun tree => .store (h s tree hs) (.ret _)

section writes
variable (h : Writable inv)
include h

theorem init_stays {compare : Option F} (hc : ∀ f ∈ compare, ∀ tree, inv ⟨tree, some f⟩) :
    (init (some object) compare : M O R F _).Stays object inv b := by
  cases compare with
  | none => exact .ret _
  | some f => exact .store h.zero (.bind (required_stays _) fun tree => .store (hc f rfl tree) (.ret _))

theorem invalidate_stays (fuel : Nat) (onDestroy : Bool) :
    (invalidate fuel (some object) onDestroy : M O R F _).Stays object inv b := by
  exact drainAll_stays (fun _ => Layout.nextOrPrev_stays _ _) (fun _ => remove_stays h.tree _)
    (Layout.firstOrLast_stays _)
    (.load fun s _ => .bind (required_stays _) fun _ => .store h.zero (.ret _)) fuel onDestroy

omit h in
theorem Call.within_of_readsOnly {call : Call P F} (hr : call.ReadsOnly) :
    (call.exec object : M O R F _).Within object inv := by
  cases call with
  | count out => exact .bind (.stays (Layout.count_stays out)) fun _ => .ret _
  | query q key out => exact .bind (query_within q key) fun _ => .ret _
  | first out => exact .bind (.stays (Layout.firstOrLast_stays _)) fun _ => .ret _
  | last out => exact .bind (.stays (Layout.firstOrLast_stays _)) fun _ => .ret _
  | next entry out => exact .bind (.stays (Layout.nextOrPrev_stays _ entry)) fun _ => .ret _
  | prev entry out => exact .bind (.stays (Layout.nextOrPrev_stays _ entry)) fun _ => .ret _
  | _ => exact hr.elim

theorem Call.within {call : Call P F} (hc : ∀ f, call = .init (some f) → ∀ tree, inv ⟨tree, some f⟩) :
    (call.exec object : M O R F _).Within object inv := by
  cases call with
  | init compare =>
    refine .bind (.stays (init_stays h ?_)) fun _ => .ret _
    rintro f rfl
    exact hc f rfl
  | count out => exact within_of_readsOnly trivial
  | add entry => exact .bind (add_within h.tree entry) fun _ => .ret _
  | remove entry => exact .bind (.stays (remove_stays h.tree entry)) fun _ => .ret _
  | query q key out => exact within_of_readsOnly trivial
  | first out => exact within_of_readsOnly trivial
  | last out => exact within_of_readsOnly trivial
  | next entry out => exact within_of_readsOnly trivial
  | prev entry out => exact within_of_readsOnly trivial
  | invalidate fuel onDestroy => exact .bind (.stays (invalidate_stays h fuel onDestroy)) fun _ => .ret _

end writes

theorem Call.within_any (object : O) (call : Call P F) :
    (call.exec object : M O R F _).Within object fun _ => True :=
  within ⟨trivial, fun _ _ _ => trivial⟩ fun _ _ _ => trivial

end within

end RedBlackTreeContainer

end Coral
