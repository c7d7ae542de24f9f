import Coral.Calls
import Coral.Lib.Returns
import Coral.Reference

/-!
# Calls that fail

What the functions of `src/red_black_tree_container.c` return and leave when nothing is known of `rock`,
of the allocator or of the compare functions: a call that does not return `0` returns one of the codes of
its function, has written nothing and leaves its out parameter as it was. So the failed calls of a run
can be left out of it (`failed_calls_vanish`). `PublicCall` lists the functions with all their arguments,
`NULL` where there should be a container among them. An `on_destroy` leaves the containers as they are;
`run` only reports its calls. What the files have in common comes first.
-/

namespace Coral
open Prog

/-- `0`, or one of `codes` and nothing was written. -/
def FailsClean (codes : List Code) (written : Bool) (code : Code) : Prop :=
  code = .ok ∨ written = false ∧ code ∈ codes

/-- `0`, or one of `codes`, nothing was written and `out` is as it was. -/
def KeepsOut {α : Type} (codes : List Code) (out : Out α) (written : Bool) (r : Code × Out α) : Prop :=
  r.1 = .ok ∨ written = false ∧ r.1 ∈ codes ∧ r.2 = out

/-- The code of a reply. -/
def Reply.status {P : Type} : Reply P → Code
  | .code c => c
  | .count r => r.1
  | .entry r => r.1

/-- The call returned `0`. -/
def Reply.succeeded {P : Type} (r : Reply P) : Bool := r.status = .ok

section
variable {O S P E α : Type} {post : Bool → α → Prop} {b : Bool} {codes : List Code} {code : Code}
  {out : Out α}

theorem failsClean (h : code ∈ codes) : FailsClean codes false code := .inr ⟨rfl, h⟩

theorem keepsOut (h : code ∈ codes) : KeepsOut codes out false (code, out) := .inr ⟨rfl, h, rfl⟩

/-- The call succeeded, or it fails with one of `codes` and has written nothing; `failed` is the reply
then. -/
def Fails (codes : List Code) (failed : Code → Reply P) (written : Bool) (r : Reply P) : Prop :=
  r.succeeded ∨ written = false ∧ ∃ code ∈ codes, r = failed code

theorem returns_code {p : Prog O S P E Code} (h : p.Returns (FailsClean codes) b) :
    (p.bind fun r => ret (Reply.code r : Reply P)).Returns (Fails codes .code) b :=
  .bind (h.mono fun _ code hr => hr.imp (fun e => decide_eq_true e) fun ⟨hb, hc⟩ => ⟨hb, code, hc, rfl⟩)

theorem returns_entry {p : Prog O S P E (Code × Out (Option P))} {out : Out (Option P)}
    (h : p.Returns (KeepsOut codes out) b) :
    (p.bind fun r => ret (Reply.entry r)).Returns (Fails codes fun code => .entry (code, out)) b :=
  .bind (h.mono fun _ r hr => hr.imp (fun e => decide_eq_true e) fun ⟨hb, hc, he⟩ =>
    ⟨hb, r.1, hc, by rw [← he]⟩)

theorem returns_count {p : Prog O S P E (Code × Out Nat)} {out : Out Nat}
    (h : p.Returns (KeepsOut codes out) b) :
    (p.bind fun r => ret (Reply.count r : Reply P)).Returns (Fails codes fun code => .count (code, out)) b :=
  .bind (h.mono fun _ r hr => hr.imp (fun e => decide_eq_true e) fun ⟨hb, hc, he⟩ =>
    ⟨hb, r.1, hc, by rw [← he]⟩)

theorem required_returns {e : Except Code α} (h : ∀ a, post b a) :
    (required e : Prog O S P E α).Returns post b := by
  cases e with
  | ok a => exact h a
  | error error => trivial

theorem requiredTrue_returns {post : Bool → Unit → Prop} (c : Bool) (h : post b ()) :
    (requiredTrue c : Prog O S P E Unit).Returns post b := by
  cases c with
  | true => exact h
  | false => trivial

theorem found_returns {out : Out (Option P)} (node : Option P) :
    (found node : Prog O S P E _).Returns (KeepsOut codes out) b := by
  cases node with
  | none => trivial
  | some node => exact .ret (.inl rfl)

/-- The codes of an `alloc`. -/
def allocCodes : List Code :=
  [.seaUrchinValueIsZero, .seaUrchinOutIsNull, .seaUrchinValueIsTooLarge, .seaUrchinMemoryAllocationFailed]

theorem request_returns {rest : P → Prog O S P E (Code × Out (Option P))} {out : Out (Option P)}
    (G : Seagrass) (sizeMax sizeofStruct : Nat) (posixMemalign : Nat → Option P) (size : Nat)
    (h : ∀ e, (rest e).Returns (KeepsOut allocCodes out) false) :
    (request G sizeMax sizeofStruct posixMemalign size out rest).Returns (KeepsOut allocCodes out) false := by
  rcases size with _ | size
  · exact .ret (keepsOut (by decide))
  rcases out with _ | v
  · exact .ret (keepsOut (by decide))
  unfold request
  cases G.add (size + 1) sizeofStruct with
  | error error => exact .bind (requiredTrue_returns _ (keepsOut (by decide)))
  | ok alloc =>
    refine .ite (fun _ => .ret (keepsOut (by decide))) fun _ => ?_
    cases posixMemalign alloc with
    | none => exact .ret (keepsOut (by decide))
    | some e => exact h e

/-- The codes of a query. -/
def queryCodes : List Code :=
  [.rockTreeObjectIsNull, .seaUrchinKeyIsNull, .seaUrchinOutIsNull, .rockTreeNodeNotFound]

theorem checked_returns {body : O → P → Prog O S P E (Code × Out (Option P))} {out : Out (Option P)}
    (object : Option O) (key : Option P)
    (h : ∀ object key, (body object key).Returns (KeepsOut queryCodes out) false) :
    (checked object key out body).Returns (KeepsOut queryCodes out) false := by
  rcases object with _ | object
  · exact .ret (keepsOut (by decide))
  rcases key with _ | key
  · exact .ret (keepsOut (by decide))
  rcases out with _ | v
  · exact .ret (keepsOut (by decide))
  exact h object key

theorem release_returns (entry : Option P) :
    (release entry : Prog O S P _ Code).Returns (FailsClean [.seaUrchinItemIsNull]) false := by
  cases entry with
  | none => exact .ret (failsClean (by decide))
  | some entry => exact .inl rfl

theorem drainAll_returns {post : Bool → Code → Prop} {empty end_ : Code}
    {first : Prog O S P (Event P) (Code × Out (Option P))}
    {next : P → Prog O S P (Event P) (Code × Out (Option P))} {remove : P → Prog O S P (Event P) Code}
    {rest : Prog O S P (Event P) Code} (hrest : ∀ b, rest.Returns post b) (fuel : Nat) (onDestroy : Bool) :
    (drainAll empty end_ first next remove rest fuel onDestroy).Returns post b := by
  refine .bind (.any ?_)
  rintro b ⟨error, e⟩
  exact .ite (fun _ => .bind (.any fun b _ => hrest b)) fun _ => .bind (.any fun b _ => hrest b)

/-- A function that does nothing without an object. -/
theorem within_of_null (p : Option O → Prog O S P E α) {inv : S → Prop} {r : α} (o : O)
    (hnull : p none = ret r) (h : ∀ x, (p (some x)).Within x inv) (object : Option O) :
    ∃ x, (p object).Within x inv := by
  cases object with
  | none => exact ⟨o, hnull ▸ .stays (.ret r)⟩
  | some x => exact ⟨x, h x⟩

end

namespace Layout

variable {P F O S E : Type} {R : RockTree P} {C : Layout R F S} {b : Bool} {out : Out (Option P)}

theorem find_returns {post : Bool → Code × Option P → Prop} (object : O) (k : P) (h : ∀ r, post b r) :
    (C.find object k : Prog O S P E _).Returns post b := .load fun _ => .lift h

theorem stepOrNotFound_returns {codes : List Code} (step : R.Tree → P → Except Code P) (object : O) (node : P)
    (h : .rockTreeNodeNotFound ∈ codes) :
    (C.stepOrNotFound step object node out : Prog O S P E _).Returns (KeepsOut codes out) false := by
  refine .load ?_
  intro s
  cases step (C.tree s) node with
  | ok node => exact found_returns _
  | error error => exact .bind (requiredTrue_returns _ (keepsOut h))

theorem query_returns (object : Option O) (key : Option P) (q : Query) :
    (C.query object key out q : Prog O S P E _).Returns (KeepsOut queryCodes out) false := by
  cases q with
  | get =>
    refine checked_returns object key fun object key => .select (.bind (find_returns object key ?_))
    rintro ⟨error, node⟩
    exact .ite (fun _ => found_returns _) fun _ => .bind (requiredTrue_returns _ (keepsOut (by decide)))
  | ceiling =>
    refine checked_returns object key fun object key => .select (.bind (find_returns object key ?_))
    rintro ⟨error, node⟩
    refine .ite (fun _ => found_returns _) fun _ => .bind (requiredTrue_returns _ ?_)
    cases node with
    | none => exact .ret (keepsOut (by decide))
    | some node =>
      exact .bind fun c => .ite (fun _ => .ret (keepsOut (by decide))) fun _ => found_returns _
  | floor =>
    refine checked_returns object key fun object key => .select (.bind (find_returns object key ?_))
    rintro ⟨error, node⟩
    refine .ite (fun _ => found_returns _) fun _ => .bind (requiredTrue_returns _ ?_)
    cases node with
    | none => exact .ret (keepsOut (by decide))
    | some node =>
      exact .bind fun c =>
        .ite (fun _ => stepOrNotFound_returns _ _ _ (by decide)) fun _ => found_returns _
  | higher =>
    refine checked_returns object key fun object key => .select (.bind (find_returns object key ?_))
    rintro ⟨error, node⟩
    refine .ite (fun _ => ?_) fun _ => .bind (requiredTrue_returns _ ?_)
    · cases node with
      | none => trivial
      | some node => exact stepOrNotFound_returns _ _ _ (by decide)
    · cases node with
      | none => exact .ret (keepsOut (by decide))
      | some node =>
        exact .bind fun c => .ite (fun _ => .ret (keepsOut (by decide))) fun _ => found_returns _
  | lower =>
    refine checked_returns object key fun object key => .select (.bind (find_returns object key ?_))
    rintro ⟨error, node⟩
    refine .bind (requiredTrue_returns _ ?_)
    cases node with
    | none => exact .ite (fun _ => .abort) fun _ => .ret (keepsOut (by decide))
    | some node =>
      exact .bind fun c =>
        .ite (fun _ => stepOrNotFound_returns _ _ _ (by decide)) fun _ => found_returns _

theorem firstOrLast_returns (end_ : R.Tree → Except Code P) (object : Option O) :
    (C.firstOrLast end_ object out : Prog O S P E _).Returns
      (KeepsOut [.rockTreeObjectIsNull, .seaUrchinOutIsNull, .rockTreeTreeIsEmpty] out) false := by
  rcases object with _ | object
  · exact .ret (keepsOut (by decide))
  rcases out with _ | v
  · exact .ret (keepsOut (by decide))
  refine .load ?_
  intro s
  cases end_ (C.tree s) with
  | ok node => exact found_returns _
  | error error => exact .bind (requiredTrue_returns _ (keepsOut (by decide)))

theorem nextOrPrev_returns (step : R.Tree → P → Except Code P) (object : O) (entry : Option P) :
    (C.nextOrPrev step object entry out : Prog O S P E _).Returns
      (KeepsOut [.seaUrchinItemIsNull, .seaUrchinOutIsNull, .rockTreeEndOfSequence] out) false := by
  rcases entry with _ | entry
  · exact .ret (keepsOut (by decide))
  rcases out with _ | v
  · exact .ret (keepsOut (by decide))
  refine .load ?_
  intro s
  cases step (C.tree s) entry with
  | ok node => exact found_returns _
  | error error => exact .bind (requiredTrue_returns _ (keepsOut (by decide)))

theorem count_returns (object : Option O) (out : Out Nat) : (C.count object out : Prog O S P E _).Returns
    (KeepsOut [.rockTreeObjectIsNull, .seaUrchinOutIsNull] out) false := by
  rcases object with _ | object
  · exact .ret (keepsOut (by decide))
  rcases out with _ | v
  · exact .ret (keepsOut (by decide))
  exact .load fun s => .bind (required_returns fun c => .inl rfl)

/-- What `rest` does after the entry was put in does not matter where it returns `0`. -/
theorem enlist_returns {codes : List Code} {rest : Prog O S P E Code} (object : O) (entry : P)
    (h : .rockTreeNodeAlreadyExists ∈ codes) (hrest : ∀ b, rest.Returns (FailsClean codes) b) :
    (C.enlist object entry rest).Returns (FailsClean codes) false := by
  refine .select (.bind (find_returns object entry ?_))
  rintro ⟨error, node⟩
  refine .ite (fun _ => .ret (failsClean h)) fun _ => .bind (requiredTrue_returns _ ?_)
  exact .bind (.any fun b _ => hrest b)

end Layout

namespace RedBlackTreeContainer

variable {P F O : Type} {R : RockTree P} {b : Bool} {out : Out (Option P)}

/-- The functions of the file. In `next` and `prev`, `object` is the container the entry is in. -/
inductive PublicCall (O P F : Type) where
  | alloc (G : Seagrass) (sizeMax sizeofEntry : Nat) (posixMemalign : Nat → Option P) (size : Nat)
      (out : Out (Option P))
  | free (entry : Option P)
  | init (object : Option O) (compare : Option F)
  | invalidate (fuel : Nat) (object : Option O) (onDestroy : Bool)
  | count (object : Option O) (out : Out Nat)
  | add (object : Option O) (entry : Option P)
  | remove (object : Option O) (entry : Option P)
  | query (q : Query) (object : Option O) (key : Option P) (out : Out (Option P))
  | first (object : Option O) (out : Out (Option P))
  | last (object : Option O) (out : Out (Option P))
  | next (object : O) (entry : Option P) (out : Out (Option P))
  | prev (object : O) (entry : Option P) (out : Out (Option P))

namespace PublicCall

def exec : PublicCall O P F → M O R F (Reply P)
  | alloc G sizeMax sizeofEntry posixMemalign size out =>
    return .entry (← RedBlackTreeContainer.alloc G sizeMax sizeofEntry posixMemalign size out)
  | free entry => return .code (← RedBlackTreeContainer.free entry)
  | init object compare => return .code (← RedBlackTreeContainer.init object compare)
  | invalidate fuel object onDestroy =>
    return .code (← RedBlackTreeContainer.invalidate fuel object onDestroy)
  | count object out => return .count (← RedBlackTreeContainer.count object out)
  | add object entry => return .code (← RedBlackTreeContainer.add object entry)
  | remove object entry => return .code (← RedBlackTreeContainer.remove object entry)
  | query q object key out => return .entry (← RedBlackTreeContainer.query object key out q)
  | first object out => return .entry (← RedBlackTreeContainer.first object out)
  | last object out => return .entry (← RedBlackTreeContainer.last object out)
  | next object entry out => return .entry (← RedBlackTreeContainer.next object entry out)
  | prev object entry out => return .entry (← RedBlackTreeContainer.prev object entry out)

/-- The codes the header names for a call. -/
def codes : PublicCall O P F → List Code
  | alloc _ _ _ _ _ _ => allocCodes
  | free _ => [.seaUrchinItemIsNull]
  | init _ _ => [.rockTreeObjectIsNull, .rockTreeCompareIsNull]
  | invalidate _ _ _ => [.rockTreeObjectIsNull]
  | count _ _ => [.rockTreeObjectIsNull, .seaUrchinOutIsNull]
  | add _ _ => [.rockTreeObjectIsNull, .seaUrchinItemIsNull, .rockTreeNodeAlreadyExists]
  | remove _ _ => [.rockTreeObjectIsNull, .seaUrchinItemIsNull]
  | query _ _ _ _ => queryCodes
  | first _ _ | last _ _ => [.rockTreeObjectIsNull, .seaUrchinOutIsNull, .rockTreeTreeIsEmpty]
  | next _ _ _ | prev _ _ _ => [.seaUrchinItemIsNull, .seaUrchinOutIsNull, .rockTreeEndOfSequence]

/-- The reply of a call that fails with `code`. -/
def failed : PublicCall O P F → Code → Reply P
  | count _ out, code => .count (code, out)
  | alloc _ _ _ _ _ out, code | query _ _ _ out, code | first _ out, code | last _ out, code
  | next _ _ out, code | prev _ _ out, code => .entry (code, out)
  | _, code => .code code

end PublicCall

/-! ### The functions -/

theorem alloc_returns (G : Seagrass) (sizeMax sizeofEntry : Nat) (posixMemalign : Nat → Option P)
    (size : Nat) : (alloc G sizeMax sizeofEntry posixMemalign size out : M O R F _).Returns
      (KeepsOut allocCodes out) false :=
  request_returns G sizeMax sizeofEntry posixMemalign size fun _ =>
    .bind (requiredTrue_returns _ (.inl rfl))

theorem init_returns (object : Option O) (compare : Option F) : (init object compare : M O R F _).Returns
    (FailsClean [.rockTreeObjectIsNull, .rockTreeCompareIsNull]) false := by
  rcases object with _ | object
  · exact .ret (failsClean (by decide))
  rcases compare with _ | f
  · exact .ret (failsClean (by decide))
  exact .store (.bind (required_returns fun tree => .store (.ret (.inl rfl))))

theorem add_returns (object : Option O) (entry : Option P) : (add object entry : M O R F _).Returns
    (FailsClean [.rockTreeObjectIsNull, .seaUrchinItemIsNull, .rockTreeNodeAlreadyExists]) false := by
  rcases object with _ | object
  · exact .ret (failsClean (by decide))
  rcases entry with _ | entry
  · exact .ret (failsClean (by decide))
  exact Layout.enlist_returns object entry (by decide) fun _ => .ret (.inl rfl)

theorem remove_returns (object : Option O) (entry : Option P) : (remove object entry : M O R F _).Returns
    (FailsClean [.rockTreeObjectIsNull, .seaUrchinItemIsNull]) false := by
  rcases object with _ | object
  · exact .ret (failsClean (by decide))
  rcases entry with _ | entry
  · exact .ret (failsClean (by decide))
  exact .load fun s => .bind (required_returns fun tree => .store (.ret (.inl rfl)))

theorem invalidate_returns (fuel : Nat) (object : Option O) (onDestroy : Bool) :
    (invalidate fuel object onDestroy : M O R F _).Returns (FailsClean [.rockTreeObjectIsNull]) false := by
  rcases object with _ | object
  · exact .ret (failsClean (by decide))
  exact drainAll_returns (fun _ => .load fun s => .bind (required_returns fun _ => .store (.ret (.inl rfl))))
    fuel onDestroy

/-! ### Runs -/

theorem PublicCall.returns (c : PublicCall O P F) :
    (c.exec : M O R F _).Returns (Fails c.codes c.failed) false := by
  cases c with
  | alloc G sizeMax sizeofEntry posixMemalign size out =>
    exact returns_entry (alloc_returns G sizeMax sizeofEntry posixMemalign size)
  | free entry => exact returns_code (release_returns entry)
  | init object compare => exact returns_code (init_returns object compare)
  | invalidate fuel object onDestroy => exact returns_code (invalidate_returns fuel object onDestroy)
  | count object out => exact returns_count (Layout.count_returns object out)
  | add object entry => exact returns_code (add_returns object entry)
  | remove object entry => exact returns_code (remove_returns object entry)
  | query q object key out =>
    exact returns_entry (query_eq object key out q ▸ Layout.query_returns object key q)
  | first object out => exact returns_entry (Layout.firstOrLast_returns R.first object)
  | last object out => exact returns_entry (Layout.firstOrLast_returns R.last object)
  | next object entry out => exact returns_entry (Layout.nextOrPrev_returns R.next object entry)
  | prev object entry out => exact returns_entry (Layout.nextOrPrev_returns R.prev object entry)

theorem PublicCall.within (c : PublicCall O P F) (o : O) :
    ∃ x, (c.exec : M O R F _).Within x fun _ => True := by
  cases c with
  | alloc G sizeMax sizeofEntry posixMemalign size out =>
    exact ⟨o, .bind (.stays (request_stays G sizeMax sizeofEntry posixMemalign size fun _ =>
      .bind (requiredTrue_stays _) fun _ => .ret _)) fun _ => .ret _⟩
  | free entry => exact ⟨o, .bind (.stays (release_stays entry)) fun _ => .ret _⟩
  | init object compare =>
    exact within_of_null (fun object => exec (.init object compare)) o rfl
      (fun x => (Call.init compare).within_any x) object
  | invalidate fuel object onDestroy =>
    exact within_of_null (fun object => exec (.invalidate fuel object onDestroy)) o rfl
      (fun x => (Call.invalidate fuel onDestroy).within_any x) object
  | count object out =>
    exact within_of_null (fun object => exec (.count object out)) o rfl
      (fun x => (Call.count out).within_any x) object
  | add object entry =>
    exact within_of_null (fun object => exec (.add object entry)) o rfl
      (fun x => (Call.add entry).within_any x) object
  | remove object entry =>
    exact within_of_null (fun object => exec (.remove object entry)) o rfl
      (fun x => (Call.remove entry).within_any x) object
  | query q object key out =>
    exact within_of_null (fun object => exec (.query q object key out)) o (by cases q <;> rfl)
      (fun x => (Call.query q key out).within_any x) object
  | first object out =>
    exact within_of_null (fun object => exec (.first object out)) o rfl
      (fun x => (Call.first out).within_any x) object
  | last object out =>
    exact within_of_null (fun object => exec (.last object out)) o rfl
      (fun x => (Call.last out).within_any x) object
  | next object entry out => exact ⟨object, (Call.next entry out).within_any object⟩
  | prev object entry out => exact ⟨object, (Call.prev entry out).within_any object⟩

/-- A call, and what the compare functions answer while it is made. -/
abbrev TimedCall (O P F : Type) := (F → P → P → Int) × PublicCall O P F

section
variable [DecidableEq O] {w w' : World O (RedBlackTreeContainer R F) (Event P)}

def PublicCall.run (op : TimedCall O P F) (w : World O (RedBlackTreeContainer R F) (Event P)) :
    Option (Reply P × World O (RedBlackTreeContainer R F) (Event P)) :=
  op.2.exec.run (answer op.1) w

/-- In any run, whatever `rock`, the allocator and the compare functions do, a call that does not return
`0` returns one of its codes and leaves its out parameter, and the run without these calls returns the
other replies and leads to the same containers. -/
theorem failed_calls_vanish {ops : List (TimedCall O P F)} {replies : List (Reply P)}
    (hrun : Machine.runAll PublicCall.run ops w = some (replies, w')) :
    (∀ r ∈ ops.zip replies, r.2.succeeded ∨ ∃ code ∈ r.1.2.codes, r.2 = r.1.2.failed code) ∧
      ∃ w'', Machine.runAll PublicCall.run (Machine.kept Reply.succeeded ops replies) w =
          some (replies.filter Reply.succeeded, w'') ∧ w''.SameState w' :=
  failures_vanish (fun op r => ∃ code ∈ op.2.codes, r = op.2.failed code)
    (fun op => op.2.returns) (fun op => op.2.within) hrun

end

/-- Two containers that are not in use. -/
def idle : World Bool (RedBlackTreeContainer (Reference.tree : RockTree Nat) Unit) (Event Nat) :=
  ⟨none, fun _ => zero, []⟩

theorem failed_calls_vanish_example : ∃ w' w'',
    Machine.runAll PublicCall.run
        [(Reference.compare, .init (some true) (some ())),
          (Reference.compare, .alloc Reference.seagrass (2 ^ 64 - 1) 16 (fun _ => none) 8 (some none)),
          (Reference.compare, .add (some true) (some 1)), (fun _ _ _ => 0, .add (some true) (some 2)),
          (Reference.compare, .count none (some 5)), (Reference.compare, .free none),
          (Reference.compare, .add (some true) (some 2)), (Reference.compare, .last (some true) (some none))]
        idle =
      some ([.code .ok, .entry (.seaUrchinMemoryAllocationFailed, some none), .code .ok,
        .code .rockTreeNodeAlreadyExists, .count (.rockTreeObjectIsNull, some 5),
        .code .seaUrchinItemIsNull, .code .ok, .entry (.ok, some (some 2))], w') ∧
    Machine.runAll PublicCall.run
        [(Reference.compare, .init (some true) (some ())), (Reference.compare, .add (some true) (some 1)),
          (Reference.compare, .add (some true) (some 2)), (Reference.compare, .last (some true) (some none))]
        idle =
      some ([.code .ok, .code .ok, .code .ok, .entry (.ok, some (some 2))], w'') ∧ w''.SameState w' := by
  have hrun : Machine.runAll PublicCall.run
      [(Reference.compare, .init (some true) (some ())),
        (Reference.compare, .alloc Reference.seagrass (2 ^ 64 - 1) 16 (fun _ => none) 8 (some none)),
        (Reference.compare, .add (some true) (some 1)), (fun _ _ _ => 0, .add (some true) (some 2)),
        (Reference.compare, .count none (some 5)), (Reference.compare, .free none),
        (Reference.compare, .add (some true) (some 2)), (Reference.compare, .last (some true) (some none))]
      idle = some (_, _) := rfl
  obtain ⟨-, w'', hkept, hsame⟩ := failed_calls_vanish hrun
  exact ⟨_, w'', hrun, hkept, hsame⟩

end RedBlackTreeContainer

end Coral
