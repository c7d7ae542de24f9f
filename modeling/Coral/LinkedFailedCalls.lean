import Coral.FailedCalls
import Coral.LinkedCalls

/-!
# Calls on a linked container that fail

What `Coral.FailedCalls` shows of the plain container, for `src/linked_red_black_tree_container.c`.
-/

namespace Coral
open Prog

namespace LinkedRedBlackTreeContainer

variable {P F O : Type} {R : RockTree P} {L : RockList P} {b : Bool} {out : Out (Option P)}

/-- The functions of the file. In `alloc`, `object` is the container the entry is for; in `sortedNext`
and `sortedPrev` the one it is in. -/
inductive PublicCall (O P F : Type) where
  | alloc (G : Seagrass) (sizeMax sizeofEntry : Nat) (posixMemalign : Nat → Option P) (object : O)
      (size : Nat) (out : Out (Option P))
  | free (entry : Option P)
  | init (object : Option O) (compare : Option F)
  | invalidate (fuel : Nat) (object : Option O) (onDestroy : Bool)
  | count (object : Option O) (out : Out Nat)
  | add (object : Option O) (entry : Option P)
  | insert (object : Option O) (entry item : Option P)
  | remove (object : Option O) (entry : Option P)
  | query (q : Query) (object : Option O) (key : Option P) (out : Out (Option P))
  | sortedFirst (object : Option O) (out : Out (Option P))
  | sortedLast (object : Option O) (out : Out (Option P))
  | sortedNext (object : O) (entry : Option P) (out : Out (Option P))
  | sortedPrev (object : O) (entry : Option P) (out : Out (Option P))
  | first (object : Option O) (out : Out (Option P))
  | last (object : Option O) (out : Out (Option P))
  | next (object : Option O) (entry : Option P) (out : Out (Option P))
  | prev (object : Option O) (entry : Option P) (out : Out (Option P))

namespace PublicCall

def exec [DecidableEq P] : PublicCall O P F → M O R L F (Reply P)
  | alloc G sizeMax sizeofEntry posixMemalign object size out =>
    return .entry (← LinkedRedBlackTreeContainer.alloc G sizeMax sizeofEntry posixMemalign object size out)
  | free entry => return .code (← LinkedRedBlackTreeContainer.free entry)
  | init object compare => return .code (← LinkedRedBlackTreeContainer.init object compare)
  | invalidate fuel object onDestroy =>
    return .code (← LinkedRedBlackTreeContainer.invalidate fuel object onDestroy)
  | count object out => return .count (← LinkedRedBlackTreeContainer.count object out)
  | add object entry => return .code (← LinkedRedBlackTreeContainer.add object entry)
  | insert object entry item => return .code (← LinkedRedBlackTreeContainer.insert object entry item)
  | remove object entry => return .code (← LinkedRedBlackTreeContainer.remove object entry)
  | query q object key out => return .entry (← LinkedRedBlackTreeContainer.query object key out q)
  | sortedFirst object out => return .entry (← LinkedRedBlackTreeContainer.sortedFirst object out)
  | sortedLast object out => return .entry (← LinkedRedBlackTreeContainer.sortedLast object out)
  | sortedNext object entry out => return .entry (← LinkedRedBlackTreeContainer.sortedNext object entry out)
  | sortedPrev object entry out => return .entry (← LinkedRedBlackTreeContainer.sortedPrev object entry out)
  | first object out => return .entry (← LinkedRedBlackTreeContainer.first object out)
  | last object out => return .entry (← LinkedRedBlackTreeContainer.last object out)
  | next object entry out => return .entry (← LinkedRedBlackTreeContainer.next object entry out)
  | prev object entry out => return .entry (← LinkedRedBlackTreeContainer.prev object entry out)

/-- The codes the header names for a call. -/
def codes : PublicCall O P F → List Code
  | alloc _ _ _ _ _ _ _ => allocCodes
  | free _ => [.seaUrchinItemIsNull]
  | init _ _ => [.rockTreeObjectIsNull, .rockTreeCompareIsNull]
  | invalidate _ _ _ => [.rockTreeObjectIsNull]
  | count _ _ => [.rockTreeObjectIsNull, .seaUrchinOutIsNull]
  | add _ _ => [.rockTreeObjectIsNull, .seaUrchinItemIsNull, .rockTreeNodeAlreadyExists]
  | insert _ _ _ => [.rockTreeObjectIsNull, .seaUrchinItemIsNull, .seaUrchinValueIsNull,
      .rockTreeNodeAlreadyExists]
  | remove _ _ => [.rockTreeObjectIsNull, .seaUrchinItemIsNull]
  | query _ _ _ _ => queryCodes
  | sortedFirst _ _ | sortedLast _ _ | first _ _ | last _ _ =>
    [.rockTreeObjectIsNull, .seaUrchinOutIsNull, .rockTreeTreeIsEmpty]
  | sortedNext _ _ _ | sortedPrev _ _ _ =>
    [.seaUrchinItemIsNull, .seaUrchinOutIsNull, .rockTreeEndOfSequence]
  | next _ _ _ | prev _ _ _ => [.rockTreeObjectIsNull, .seaUrchinItemIsNull, .seaUrchinOutIsNull,
      .rockTreeEndOfSequence]

/-- The reply of a call that fails with `code`. -/
def failed : PublicCall O P F → Code → Reply P
  | count _ out, code => .count (code, out)
  | alloc _ _ _ _ _ _ out, code | query _ _ _ out, code | sortedFirst _ out, code
  | sortedLast _ out, code | sortedNext _ _ out, code | sortedPrev _ _ out, code | first _ out, code
  | last _ out, code | next _ _ out, code | prev _ _ out, code => .entry (code, out)
  | _, code => .code code

end PublicCall

/-! ### The functions -/

theorem alloc_returns (G : Seagrass) (sizeMax sizeofEntry : Nat) (posixMemalign : Nat → Option P)
    (object : O) (size : Nat) :
    (alloc G sizeMax sizeofEntry posixMemalign object size out : M O R L F _).Returns
      (KeepsOut allocCodes out) false :=
  request_returns G sizeMax sizeofEntry posixMemalign size fun _ =>
    .bind (requiredTrue_returns _ (.load fun _ => .bind (required_returns fun _ => .store (.ret (.inl rfl)))))

theorem init_returns (object : Option O) (compare : Option F) :
    (init object compare : M O R L F _).Returns
      (FailsClean [.rockTreeObjectIsNull, .rockTreeCompareIsNull]) false := by
  rcases object with _ | object
  · exact .ret (failsClean (by decide))
  rcases compare with _ | f
  · exact .ret (failsClean (by decide))
  exact .load fun s => .store (.bind (required_returns fun tree => .store (.ret (.inl rfl))))

theorem add_returns (object : Option O) (entry : Option P) : (add object entry : M O R L F _).Returns
    (FailsClean [.rockTreeObjectIsNull, .seaUrchinItemIsNull, .rockTreeNodeAlreadyExists]) false := by
  rcases object with _ | object
  · exact .ret (failsClean (by decide))
  rcases entry with _ | entry
  · exact .ret (failsClean (by decide))
  exact Layout.enlist_returns object entry (by decide) fun _ => .bind (.any fun _ _ => .inl rfl)

theorem listFirst_returns (object : Option O) : (first object out : M O R L F _).Returns
    (KeepsOut [.rockTreeObjectIsNull, .seaUrchinOutIsNull, .rockTreeTreeIsEmpty] out) false := by
  rcases object with _ | object
  · exact .ret (keepsOut (by decide))
  rcases out with _ | v
  · exact .ret (keepsOut (by decide))
  refine .load ?_
  rintro ⟨tree, _ | list, compare, nodes⟩
  · exact .ret (keepsOut (by decide))
  · exact .ret (.inl rfl)

theorem listLast_returns (object : Option O) : (last object out : M O R L F _).Returns
    (KeepsOut [.rockTreeObjectIsNull, .seaUrchinOutIsNull, .rockTreeTreeIsEmpty] out) false := by
  rcases object with _ | object
  · exact .ret (keepsOut (by decide))
  rcases out with _ | v
  · exact .ret (keepsOut (by decide))
  refine .load ?_
  rintro ⟨tree, _ | list, compare, nodes⟩
  · exact .ret (keepsOut (by decide))
  · exact .bind (required_returns fun _ => .inl rfl)

section
variable [DecidableEq P]

theorem remove_returns (object : Option O) (entry : Option P) : (remove object entry : M O R L F _).Returns
    (FailsClean [.rockTreeObjectIsNull, .seaUrchinItemIsNull]) false := by
  rcases object with _ | object
  · exact .ret (failsClean (by decide))
  rcases entry with _ | entry
  · exact .ret (failsClean (by decide))
  exact .bind (.any fun _ _ => .bind (.any fun _ _ => .bind (.any fun _ _ => .inl rfl)))

theorem insert_returns (object : Option O) (entry item : Option P) :
    (insert object entry item : M O R L F _).Returns (FailsClean [.rockTreeObjectIsNull,
      .seaUrchinItemIsNull, .seaUrchinValueIsNull, .rockTreeNodeAlreadyExists]) false := by
  rcases object with _ | object
  · exact .ret (failsClean (by decide))
  rcases entry with _ | entry
  · exact .ret (failsClean (by decide))
  rcases item with _ | item
  · exact .ret (failsClean (by decide))
  exact Layout.enlist_returns object item (by decide) fun _ =>
    .bind (.any fun _ _ => .bind (.any fun _ _ => .inl rfl))

theorem next_returns (object : Option O) (entry : Option P) : (next object entry out : M O R L F _).Returns
    (KeepsOut [.rockTreeObjectIsNull, .seaUrchinItemIsNull, .seaUrchinOutIsNull,
      .rockTreeEndOfSequence] out) false := by
  rcases object with _ | object
  · exact .ret (keepsOut (by decide))
  rcases entry with _ | entry
  · exact .ret (keepsOut (by decide))
  rcases out with _ | v
  · exact .ret (keepsOut (by decide))
  exact .load fun s => .bind (required_returns fun node =>
    .ite (fun _ => .ret (keepsOut (by decide))) fun _ => found_returns _)

theorem prev_returns (object : Option O) (entry : Option P) : (prev object entry out : M O R L F _).Returns
    (KeepsOut [.rockTreeObjectIsNull, .seaUrchinItemIsNull, .seaUrchinOutIsNull,
      .rockTreeEndOfSequence] out) false := by
  rcases object with _ | object
  · exact .ret (keepsOut (by decide))
  rcases entry with _ | entry
  · exact .ret (keepsOut (by decide))
  rcases out with _ | v
  · exact .ret (keepsOut (by decide))
  exact .load fun s => .ite (fun _ => .ret (keepsOut (by decide))) fun _ =>
    .bind (required_returns fun node =>
      .ite (fun _ => .ret (keepsOut (by decide))) fun _ => found_returns _)

theorem invalidate_returns (fuel : Nat) (object : Option O) (onDestroy : Bool) :
    (invalidate fuel object onDestroy : M O R L F _).Returns (FailsClean [.rockTreeObjectIsNull]) false := by
  rcases object with _ | object
  · exact .ret (failsClean (by decide))
  exact drainAll_returns (fun _ => .load fun s => .bind (required_returns fun _ => .store (.ret (.inl rfl))))
    fuel onDestroy

/-! ### Runs -/

theorem PublicCall.returns (c : PublicCall O P F) :
    (c.exec : M O R L F _).Returns (Fails c.codes c.failed) false := by
  cases c with
  | alloc G sizeMax sizeofEntry posixMemalign object size out =>
    exact returns_entry (alloc_returns G sizeMax sizeofEntry posixMemalign object size)
  | free entry => exact returns_code (release_returns entry)
  | init object compare => exact returns_code (init_returns object compare)
  | invalidate fuel object onDestroy => exact returns_code (invalidate_returns fuel object onDestroy)
  | count object out => exact returns_count (Layout.count_returns object out)
  | add object entry => exact returns_code (add_returns object entry)
  | insert object entry item => exact returns_code (insert_returns object entry item)
  | remove object entry => exact returns_code (remove_returns object entry)
  | query q object key out =>
    exact returns_entry (query_eq object key out q ▸ Layout.query_returns object key q)
  | sortedFirst object out => exact returns_entry (Layout.firstOrLast_returns R.first object)
  | sortedLast object out => exact returns_entry (Layout.firstOrLast_returns R.last object)
  | sortedNext object entry out => exact returns_entry (Layout.nextOrPrev_returns R.next object entry)
  | sortedPrev object entry out => exact returns_entry (Layout.nextOrPrev_returns R.prev object entry)
  | first object out => exact returns_entry (listFirst_returns object)
  | last object out => exact returns_entry (listLast_returns object)
  | next object entry out => exact returns_entry (next_returns object entry)
  | prev object entry out => exact returns_entry (prev_returns object entry)

theorem PublicCall.within (c : PublicCall O P F) (o : O) :
    ∃ x, (c.exec : M O R L F _).Within x fun _ => True := by
  cases c with
  | alloc G sizeMax sizeofEntry posixMemalign object size out =>
    exact ⟨object, (Call.alloc G sizeMax sizeofEntry posixMemalign size out).within_any object⟩
  | free entry => exact ⟨o, .bind (.stays (release_stays entry)) fun _ => .ret _⟩
  | init object compare =>
    exact within_of_null (fun object => exec (.init object compare)) o rfl
      (fun x => (Call.init compare).within_any x) object
  | invalidate fuel object onDestroy =>
    exact within_of_null (fun object => exec (.invalidate fuel object onDestroy)) o rfl
      (fun x => (Call.invalidate fuel onDestroy).within_any x) object
  | count object out =>
    exact within_of_null (fun object => exec (.count object out)) o rfl
      (fun x => (Call.count out).within_any x) object
  | add object entry =>
    exact within_of_null (fun object => exec (.add object entry)) o rfl
      (fun x => (Call.add entry).within_any x) object
  | insert object entry item =>
    exact within_of_null (fun object => exec (.insert object entry item)) o rfl
      (fun x => (Call.insert entry item).within_any x) object
  | remove object entry =>
    exact within_of_null (fun object => exec (.remove object entry)) o rfl
      (fun x => (Call.remove entry).within_any x) object
  | query q object key out =>
    exact within_of_null (fun object => exec (.query q object key out)) o (by cases q <;> rfl)
      (fun x => (Call.query q key out).within_any x) object
  | sortedFirst object out =>
    exact within_of_null (fun object => exec (.sortedFirst object out)) o rfl
      (fun x => (Call.sortedFirst out).within_any x) object
  | sortedLast object out =>
    exact within_of_null (fun object => exec (.sortedLast object out)) o rfl
      (fun x => (Call.sortedLast out).within_any x) object
  | sortedNext object entry out => exact ⟨object, (Call.sortedNext entry out).within_any object⟩
  | sortedPrev object entry out => exact ⟨object, (Call.sortedPrev entry out).within_any object⟩
  | first object out =>
    exact within_of_null (fun object => exec (.first object out)) o rfl
      (fun x => (Call.first out).within_any x) object
  | last object out =>
    exact within_of_null (fun object => exec (.last object out)) o rfl
      (fun x => (Call.last out).within_any x) object
  | next object entry out =>
    exact within_of_null (fun object => exec (.next object entry out)) o rfl
      (fun x => (Call.next entry out).within_any x) object
  | prev object entry out =>
    exact within_of_null (fun object => exec (.prev object entry out)) o rfl
      (fun x => (Call.prev entry out).within_any x) object

/-- A call, and what the compare functions answer while it is made. -/
abbrev TimedCall (O P F : Type) := (F → P → P → Int) × PublicCall O P F

section
variable [DecidableEq O] {w w' : World O (LinkedRedBlackTreeContainer R L F) (Event P)}

def PublicCall.run (op : TimedCall O P F) (w : World O (LinkedRedBlackTreeContainer R L F) (Event P)) :
    Option (Reply P × World O (LinkedRedBlackTreeContainer R L F) (Event P)) :=
  op.2.exec.run (answer op.1) w

/-- As for the plain container; an entry that is rejected was not linked in either. -/
theorem linked_failed_calls_vanish {ops : List (TimedCall O P F)} {replies : List (Reply P)}
    (hrun : Machine.runAll PublicCall.run ops w = some (replies, w')) :
    (∀ r ∈ ops.zip replies, r.2.succeeded ∨ ∃ code ∈ r.1.2.codes, r.2 = r.1.2.failed code) ∧
      ∃ w'', Machine.runAll PublicCall.run (Machine.kept Reply.succeeded ops replies) w =
          some (replies.filter Reply.succeeded, w'') ∧ w''.SameState w' :=
  failures_vanish (fun op r => ∃ code ∈ op.2.codes, r = op.2.failed code)
    (fun op => op.2.returns) (fun op => op.2.within) hrun

end

/-- Two containers that are not in use. -/
def idle : World Bool (LinkedRedBlackTreeContainer (Reference.tree : RockTree Nat) Reference.list Unit)
    (Event Nat) :=
  ⟨none, fun _ => ⟨Reference.tree.zero, none, none, Reference.alone⟩, []⟩

theorem linked_failed_calls_vanish_example : ∃ w' w'',
    Machine.runAll PublicCall.run
        [(Reference.compare, .init (some true) (some ())), (Reference.compare, .add (some true) (some 1)),
          (fun _ _ _ => 0, .insert (some true) (some 1) (some 0)),
          (Reference.compare, .insert (some true) (some 1) (some 0)), (Reference.compare, .free none),
          (Reference.compare, .first (some false) (some none)), (Reference.compare, .prev none none (some none)),
          (Reference.compare, .first (some true) (some none))] idle =
      some ([.code .ok, .code .ok, .code .rockTreeNodeAlreadyExists, .code .ok, .code .seaUrchinItemIsNull,
        .entry (.rockTreeTreeIsEmpty, some none), .entry (.rockTreeObjectIsNull, some none),
        .entry (.ok, some (some 0))], w') ∧
    Machine.runAll PublicCall.run
        [(Reference.compare, .init (some true) (some ())), (Reference.compare, .add (some true) (some 1)),
          (Reference.compare, .insert (some true) (some 1) (some 0)),
          (Reference.compare, .first (some true) (some none))] idle =
      some ([.code .ok, .code .ok, .code .ok, .entry (.ok, some (some 0))], w'') ∧
    w''.SameState w' := by
  have hrun : Machine.runAll PublicCall.run
      [(Reference.compare, .init (some true) (some ())), (Reference.compare, .add (some true) (some 1)),
        (fun _ _ _ => 0, .insert (some true) (some 1) (some 0)),
        (Reference.compare, .insert (some true) (some 1) (some 0)), (Reference.compare, .free none),
        (Reference.compare, .first (some false) (some none)), (Reference.compare, .prev none none (some none)),
        (Reference.compare, .first (some true) (some none))] idle = some (_, _) := rfl
  obtain ⟨-, w'', hkept, hsame⟩ := linked_failed_calls_vanish hrun
  exact ⟨_, w'', hrun, hkept, hsame⟩

end

end LinkedRedBlackTreeContainer

end Coral
