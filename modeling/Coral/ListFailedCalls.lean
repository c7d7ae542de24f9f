import Coral.FailedCalls
import Coral.ListSequences

/-!
# Calls on a linked list that fail

What `Coral.FailedCalls` shows of the plain container, for `src/linked_list.c`: the calls, `alloc` and
`free` among them, with all their arguments. An `on_destroy` leaves the lists as they are; `run` only
reports its calls.
-/

namespace Coral
open Prog

namespace LinkedList

inductive Call (I P : Type) where
  | alloc (sizeMax sizeofItem : Nat) (posixMemalign : Nat → Option P) (size : Nat) (out : Out (Option P))
  | free (item : Option P)
  | init (object : Option I)
  | invalidate (fuel : Nat) (object : Option I) (onDestroy : Bool)
  | count (object : Option I) (out : Out Nat)
  | add (object : Option I) (item : Option P)
  | insert (object : Option I) (item value : Option P)
  | remove (object : Option I) (item : Option P)
  | first (object : Option I) (out : Out (Option P))
  | last (object : Option I) (out : Out (Option P))
  | next (object : Option I) (item : Option P) (out : Out (Option P))
  | prev (object : Option I) (item : Option P) (out : Out (Option P))

variable {P I : Type} {L : RockList P}

def Call.exec [DecidableEq P] [DecidableEq I] (G : Seagrass) : Call I P → M I L (Reply P)
  | .alloc sizeMax sizeofItem posixMemalign size out =>
    return .entry (← LinkedList.alloc G sizeMax sizeofItem posixMemalign size out)
  | .free item => return .code (← LinkedList.free item)
  | .init object => return .code (← LinkedList.init object)
  | .invalidate fuel object onDestroy =>
    return .code (← LinkedList.invalidate G fuel object onDestroy)
  | .count object out => return .count (← LinkedList.count object out)
  | .add object item => return .code (← LinkedList.add G object item)
  | .insert object item value => return .code (← LinkedList.insert G object item value)
  | .remove object item => return .code (← LinkedList.remove G object item)
  | .first object out => return .entry (← LinkedList.first object out)
  | .last object out => return .entry (← LinkedList.last object out)
  | .next object item out => return .entry (← LinkedList.next object item out)
  | .prev object item out => return .entry (← LinkedList.prev object item out)

/-- The codes of a call. The header does not list `END_OF_SEQUENCE` for `next` and `prev`. -/
def Call.codes : Call I P → List Code
  | .alloc _ _ _ _ _ => allocCodes
  | .free _ => [.seaUrchinItemIsNull]
  | .init _ | .invalidate _ _ _ => [.seaUrchinObjectIsNull]
  | .count _ _ => [.seaUrchinObjectIsNull, .seaUrchinOutIsNull]
  | .add _ _ | .remove _ _ => [.seaUrchinObjectIsNull, .seaUrchinItemIsNull]
  | .insert _ _ _ => [.seaUrchinObjectIsNull, .seaUrchinItemIsNull, .seaUrchinValueIsNull]
  | .first _ _ | .last _ _ => [.seaUrchinObjectIsNull, .seaUrchinOutIsNull, .seaUrchinIsEmpty]
  | .next _ _ _ | .prev _ _ _ => [.seaUrchinObjectIsNull, .seaUrchinItemIsNull, .seaUrchinOutIsNull,
      .seaUrchinEndOfSequence]

/-- The reply of a call that fails with `code`. -/
def Call.failed : Call I P → Code → Reply P
  | .alloc _ _ _ _ out, code | .first _ out, code | .last _ out, code | .next _ _ out, code
  | .prev _ _ out, code => .entry (code, out)
  | .count _ out, code => .count (code, out)
  | _, code => .code code

/-! ### The functions -/

section
variable {b : Bool} {out : Out (Option P)} {codes : List Code}

theorem alloc_returns (G : Seagrass) (sizeMax sizeofItem : Nat) (posixMemalign : Nat → Option P)
    (size : Nat) : (alloc G sizeMax sizeofItem posixMemalign size out : M I L _).Returns
      (KeepsOut allocCodes out) false :=
  request_returns G sizeMax sizeofItem posixMemalign size fun _ =>
    .load fun _ => .bind (required_returns fun _ => .store (.ret (.inl rfl)))

theorem count_returns (object : Option I) (out : Out Nat) : (count object out : M I L _).Returns
    (KeepsOut [.seaUrchinObjectIsNull, .seaUrchinOutIsNull] out) false := by
  rcases object with _ | object
  · exact .ret (keepsOut (by decide))
  rcases out with _ | v
  · exact .ret (keepsOut (by decide))
  exact .load fun m => .ret (.inl rfl)

theorem first_returns (object : Option I) : (first object out : M I L _).Returns
    (KeepsOut [.seaUrchinObjectIsNull, .seaUrchinOutIsNull, .seaUrchinIsEmpty] out) false := by
  rcases object with _ | object
  · exact .ret (keepsOut (by decide))
  rcases out with _ | v
  · exact .ret (keepsOut (by decide))
  exact .load fun m => .ite (fun _ => .ret (keepsOut (by decide))) fun _ => found_returns _

theorem last_returns (object : Option I) : (last object out : M I L _).Returns
    (KeepsOut [.seaUrchinObjectIsNull, .seaUrchinOutIsNull, .seaUrchinIsEmpty] out) false := by
  rcases object with _ | object
  · exact .ret (keepsOut (by decide))
  rcases out with _ | v
  · exact .ret (keepsOut (by decide))
  refine .load fun m => .ite (fun _ => .ret (keepsOut (by decide))) fun _ => ?_
  cases (m.lists object).list with
  | none => trivial
  | some list => exact .bind (required_returns fun node => found_returns _)

section
variable [DecidableEq I]

theorem init_returns (object : Option I) :
    (init object : M I L _).Returns (FailsClean [.seaUrchinObjectIsNull]) false := by
  rcases object with _ | object
  · exact .ret (failsClean (by decide))
  · exact .load fun m => .store (.ret (.inl rfl))

theorem add_returns (G : Seagrass) (object : Option I) (item : Option P) :
    (add G object item : M I L _).Returns
      (FailsClean [.seaUrchinObjectIsNull, .seaUrchinItemIsNull]) false := by
  rcases object with _ | object
  · exact .ret (failsClean (by decide))
  rcases item with _ | item
  · exact .ret (failsClean (by decide))
  exact .bind (.any fun _ _ => .bind (.any fun _ _ => .inl rfl))

variable [DecidableEq P]

theorem insert_returns (G : Seagrass) (object : Option I) (item value : Option P) :
    (insert G object item value : M I L _).Returns
      (FailsClean [.seaUrchinObjectIsNull, .seaUrchinItemIsNull, .seaUrchinValueIsNull]) false := by
  rcases object with _ | object
  · exact .ret (failsClean (by decide))
  rcases item with _ | item
  · exact .ret (failsClean (by decide))
  rcases value with _ | value
  · exact .ret (failsClean (by decide))
  exact .bind (.any fun _ _ => .bind (.any fun _ _ => .bind (.any fun _ _ => .inl rfl)))

theorem remove_returns (G : Seagrass) (object : Option I) (item : Option P) :
    (remove G object item : M I L _).Returns
      (FailsClean [.seaUrchinObjectIsNull, .seaUrchinItemIsNull]) false := by
  rcases object with _ | object
  · exact .ret (failsClean (by decide))
  rcases item with _ | item
  · exact .ret (failsClean (by decide))
  exact .bind (.any fun _ _ => .bind (.any fun _ _ => .bind (.any fun _ _ => .inl rfl)))

omit [DecidableEq I] in
theorem next_returns (object : Option I) (item : Option P) : (next object item out : M I L _).Returns
    (KeepsOut [.seaUrchinObjectIsNull, .seaUrchinItemIsNull, .seaUrchinOutIsNull,
      .seaUrchinEndOfSequence] out) false := by
  rcases object with _ | object
  · exact .ret (keepsOut (by decide))
  rcases item with _ | item
  · exact .ret (keepsOut (by decide))
  rcases out with _ | v
  · exact .ret (keepsOut (by decide))
  exact .load fun m => .bind (required_returns fun node =>
    .ite (fun _ => .ret (keepsOut (by decide))) fun _ => found_returns _)

omit [DecidableEq I] in
theorem prev_returns (object : Option I) (item : Option P) : (prev object item out : M I L _).Returns
    (KeepsOut [.seaUrchinObjectIsNull, .seaUrchinItemIsNull, .seaUrchinOutIsNull,
      .seaUrchinEndOfSequence] out) false := by
  rcases object with _ | object
  · exact .ret (keepsOut (by decide))
  rcases item with _ | item
  · exact .ret (keepsOut (by decide))
  rcases out with _ | v
  · exact .ret (keepsOut (by decide))
  exact .load fun m => .ite (fun _ => .ret (keepsOut (by decide))) fun _ =>
    .bind (required_returns fun node =>
      .ite (fun _ => .ret (keepsOut (by decide))) fun _ => found_returns _)

theorem invalidate_returns (G : Seagrass) (fuel : Nat) (object : Option I) (onDestroy : Bool) :
    (invalidate G fuel object onDestroy : M I L _).Returns
      (FailsClean [.seaUrchinObjectIsNull]) false := by
  rcases object with _ | object
  · exact .ret (failsClean (by decide))
  exact drainAll_returns (fun _ => .load fun m => .store (.ret (.inl rfl))) fuel onDestroy

theorem Call.returns (G : Seagrass) (c : Call I P) :
    (c.exec G : M I L _).Returns (Fails c.codes c.failed) false := by
  cases c with
  | alloc sizeMax sizeofItem posixMemalign size out =>
    exact returns_entry (alloc_returns G sizeMax sizeofItem posixMemalign size)
  | free item => exact returns_code (release_returns _)
  | init object => exact returns_code (init_returns _)
  | invalidate fuel object onDestroy => exact returns_code (invalidate_returns _ _ _ _)
  | count object out => exact returns_count (count_returns _ _)
  | add object item => exact returns_code (add_returns _ _ _)
  | insert object item value => exact returns_code (insert_returns _ _ _ _)
  | remove object item => exact returns_code (remove_returns _ _ _)
  | first object out => exact returns_entry (first_returns _)
  | last object out => exact returns_entry (last_returns _)
  | next object item out => exact returns_entry (next_returns _ _)
  | prev object item out => exact returns_entry (prev_returns _ _)

end

end

/-! ### No call asks for a comparison -/

/-- `p` reads and writes, and neither selects an object nor asks. -/
abbrev Silent {α : Type} (p : M I L α) : Prop := p.Stays () (fun _ => True) false

section
variable {out : Out (Option P)} {G : Seagrass}

theorem alloc_silent (sizeMax sizeofItem : Nat) (posixMemalign : Nat → Option P) (size : Nat) :
    Silent (alloc G sizeMax sizeofItem posixMemalign size out : M I L _) :=
  request_stays G sizeMax sizeofItem posixMemalign size fun _ =>
    .load fun _ _ => .bind (required_stays _) fun _ => .store trivial (.ret _)

theorem count_silent (object : Option I) (out : Out Nat) : Silent (count object out : M I L _) := by
  rcases object with _ | object <;> rcases out with _ | v
  all_goals try exact .ret _
  exact .load fun m _ => .ret _

theorem first_silent (object : Option I) : Silent (first object out : M I L _) := by
  rcases object with _ | object <;> rcases out with _ | v
  all_goals try exact .ret _
  exact .load fun m _ => .ite (.ret _) (found_stays _)

theorem last_silent (object : Option I) : Silent (last object out : M I L _) := by
  rcases object with _ | object <;> rcases out with _ | v
  all_goals try exact .ret _
  refine .load fun m _ => .ite (.ret _) ?_
  cases (m.lists object).list with
  | none => trivial
  | some list => exact .bind (required_stays _) fun _ => found_stays _

theorem listInsertBefore_silent (a v : P) : Silent (listInsertBefore a v : M I L _) :=
  .load fun _ _ => .bind (required_stays _) fun _ => .store trivial (.ret _)

section
variable [DecidableEq I]

theorem init_silent (object : Option I) : Silent (init object : M I L _) := by
  rcases object with _ | object
  · exact .ret _
  · exact .load fun _ _ => .store trivial (.ret _)

theorem setList_silent (object : I) (node : Option P) : Silent (setList object node : M I L _) :=
  .load fun _ _ => .store trivial (.ret _)

theorem setCount_silent (object : I) (c : Nat) : Silent (setCount object c : M I L _) :=
  .load fun _ _ => .store trivial (.ret _)

theorem increment_silent (object : I) : Silent (increment G object : M I L _) :=
  .load fun _ _ => .bind (required_stays _) fun _ => setCount_silent _ _

theorem add_silent (object : Option I) (item : Option P) : Silent (add G object item : M I L _) := by
  rcases object with _ | object <;> rcases item with _ | item
  all_goals try exact .ret _
  have happend : Silent (append object item : M I L _) := .load fun _ _ => by
    split
    · exact setList_silent _ _
    · exact listInsertBefore_silent _ _
  exact .bind (increment_silent _) fun _ => .bind happend fun _ => .ret _

variable [DecidableEq P]

theorem insert_silent (object : Option I) (item value : Option P) :
    Silent (insert G object item value : M I L _) := by
  rcases object with _ | object <;> rcases item with _ | item <;> rcases value with _ | value
  all_goals try exact .ret _
  have hrehead : Silent (rehead object item value : M I L _) := .load fun m _ =>
    .ite (setList_silent _ _) (.ret _)
  exact .bind (increment_silent _) fun _ => .bind (listInsertBefore_silent _ _) fun _ =>
    .bind hrehead fun _ => .ret _

theorem remove_silent (object : Option I) (item : Option P) : Silent (remove G object item : M I L _) := by
  rcases object with _ | object <;> rcases item with _ | item
  all_goals try exact .ret _
  have hunhead : Silent (unhead object item : M I L _) := .load fun m _ =>
    .ite (.bind (required_stays _) fun _ => setList_silent _ _) (.ret _)
  have hremove : Silent (listRemove item : M I L _) :=
    .load fun m _ => .bind (required_stays _) fun _ => .store trivial (.ret _)
  have hdecrement : Silent (decrement G object : M I L _) := .load fun m _ =>
    .ite (.ret _) (.bind (required_stays _) fun _ => setCount_silent _ _)
  exact .bind hunhead fun _ => .bind hremove fun _ => .bind hdecrement fun _ => .ret _

omit [DecidableEq I] in
theorem next_silent (object : Option I) (item : Option P) : Silent (next object item out : M I L _) := by
  rcases object with _ | object <;> rcases item with _ | item <;> rcases out with _ | v
  all_goals try exact .ret _
  exact .load fun m _ => .bind (required_stays _) fun _ => .ite (.ret _) (found_stays _)

omit [DecidableEq I] in
theorem prev_silent (object : Option I) (item : Option P) : Silent (prev object item out : M I L _) := by
  rcases object with _ | object <;> rcases item with _ | item <;> rcases out with _ | v
  all_goals try exact .ret _
  exact .load fun m _ => .ite (.ret _) (.bind (required_stays _) fun _ => .ite (.ret _) (found_stays _))

theorem invalidate_silent (fuel : Nat) (object : Option I) (onDestroy : Bool) :
    Silent (invalidate G fuel object onDestroy : M I L _) := by
  rcases object with _ | object
  · exact .ret _
  exact drainAll_stays (fun _ => next_silent _ _) (fun _ => remove_silent _ _) (first_silent _)
    (.load fun m _ => .store trivial (.ret _)) fuel onDestroy

theorem Call.silent (c : Call I P) : Silent (c.exec G : M I L _) := by
  cases c with
  | alloc sizeMax sizeofItem posixMemalign size out => exact .bind (alloc_silent _ _ _ _) fun _ => .ret _
  | free item => exact .bind (release_stays _) fun _ => .ret _
  | init object => exact .bind (init_silent _) fun _ => .ret _
  | invalidate fuel object onDestroy => exact .bind (invalidate_silent _ _ _) fun _ => .ret _
  | count object out => exact .bind (count_silent _ _) fun _ => .ret _
  | add object item => exact .bind (add_silent _ _) fun _ => .ret _
  | insert object item value => exact .bind (insert_silent _ _ _) fun _ => .ret _
  | remove object item => exact .bind (remove_silent _ _) fun _ => .ret _
  | first object out => exact .bind (first_silent _) fun _ => .ret _
  | last object out => exact .bind (last_silent _) fun _ => .ret _
  | next object item out => exact .bind (next_silent _ _) fun _ => .ret _
  | prev object item out => exact .bind (prev_silent _ _) fun _ => .ret _

/-! ### Runs -/

/-- In any run, whatever `rock` and the allocator do, a call that does not return `0` returns one of its
codes and leaves its out parameter, and the run without these calls returns the other replies and
leads to the same lists. -/
theorem list_failed_calls_vanish {w w' : World Unit (Memory I L) (Event P)} {calls : List (Call I P)}
    {replies : List (Reply P)}
    (hrun : Machine.runAll (fun c => (Call.exec G c).run noCallback) calls w = some (replies, w')) :
    (∀ r ∈ calls.zip replies, r.2.succeeded ∨ ∃ code ∈ r.1.codes, r.2 = r.1.failed code) ∧
      ∃ w'', Machine.runAll (fun c => (Call.exec G c).run noCallback)
          (Machine.kept Reply.succeeded calls replies) w =
          some (replies.filter Reply.succeeded, w'') ∧ w''.SameState w' :=
  failures_vanish (fun c r => ∃ code ∈ c.codes, r = c.failed code) (fun c => c.returns G)
    (fun c _ => ⟨(), .stays c.silent⟩) hrun

end

end

theorem list_failed_calls_vanish_example : ∃ w' w'',
    Machine.runAll (fun c => (Call.exec Reference.seagrass c).run noCallback)
        [.init (some true), .alloc (2 ^ 64 - 1) 16 (fun _ => none) 8 (some none),
          .alloc (2 ^ 64 - 1) 16 (fun _ => some 1) 8 (some none), .add (some true) (some 1),
          .add (some false) none, .next (some true) (some 1) (some none), .count (some true) (some 5)]
        blank =
      some ([.code .ok, .entry (.seaUrchinMemoryAllocationFailed, some none), .entry (.ok, some (some 1)),
        .code .ok, .code .seaUrchinItemIsNull, .entry (.seaUrchinEndOfSequence, some none),
        .count (.ok, some 1)], w') ∧
    Machine.runAll (fun c => (Call.exec Reference.seagrass c).run noCallback)
        [.init (some true), .alloc (2 ^ 64 - 1) 16 (fun _ => some 1) 8 (some none),
          .add (some true) (some 1), .count (some true) (some 5)] blank =
      some ([.code .ok, .entry (.ok, some (some 1)), .code .ok, .count (.ok, some 1)], w'') ∧
    w''.SameState w' := by
  have hrun : Machine.runAll (fun c => (Call.exec Reference.seagrass c).run noCallback)
      [.init (some true), .alloc (2 ^ 64 - 1) 16 (fun _ => none) 8 (some none),
        .alloc (2 ^ 64 - 1) 16 (fun _ => some 1) 8 (some none), .add (some true) (some 1),
        .add (some false) none, .next (some true) (some 1) (some none), .count (some true) (some 5)] blank =
      some (_, _) := rfl
  obtain ⟨-, w'', hkept, hsame⟩ := list_failed_calls_vanish hrun
  exact ⟨_, w'', hrun, hkept, hsame⟩

end LinkedList

end Coral
