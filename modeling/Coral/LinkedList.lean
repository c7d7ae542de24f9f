import Coral.Layout

/-!
# `src/linked_list.c`

Every function of the file as the sequence of its steps. All lists and all items are in one memory:
`lists` are the `struct coral_linked_list` objects and `nodes` the list nodes the items embed, so an
item can go from one list to another. No function of the file takes a callback; `this` and the
questions of `Prog` are not used.
-/

namespace Coral

namespace LinkedList

/-- `struct coral_linked_list`. -/
structure Object (P : Type) where
  count : Nat
  list : Option P

/-- The lists named by `I` and the list nodes of all items. -/
structure Memory (I : Type) {P : Type} (L : RockList P) where
  lists : I → Object P
  nodes : L.Heap

variable {P I : Type} {L : RockList P}

/-- A function of this file. -/
abbrev M (I : Type) {P : Type} (L : RockList P) := Prog Unit (Memory I L) P (Event P)

/-- `*object = (struct coral_linked_list) {0}`. -/
def zero : Object P := ⟨0, none⟩

/-- `rock_linked_list_insert_before(at, &node)`. -/
def listInsertBefore (at_ node : P) : M I L Unit :=
  .load () fun m => do
    let nodes ← required (L.insertBefore m.nodes at_ node)
    .store () { m with nodes } (.ret ())

/-- `rock_linked_list_remove(&node)`. -/
def listRemove (node : P) : M I L Unit :=
  .load () fun m => do
    let nodes ← required (L.remove m.nodes node)
    .store () { m with nodes } (.ret ())

section
variable [DecidableEq I]

def Memory.set (m : Memory I L) (object : I) (s : Object P) : Memory I L :=
  { m with lists := Function.update m.lists object s }

/-- `object->list = node`. -/
def setList (object : I) (node : Option P) : M I L Unit :=
  .load () fun m => .store () (m.set object { m.lists object with list := node }) (.ret ())

/-- `object->count = count`. -/
def setCount (object : I) (count : Nat) : M I L Unit :=
  .load () fun m => .store () (m.set object { m.lists object with count }) (.ret ())

/-- `seagrass_required_true(!seagrass_uintmax_t_add(1, object->count, &object->count))`. -/
def increment (G : Seagrass) (object : I) : M I L Unit :=
  .load () fun m => do
    let count ← required (G.add 1 (m.lists object).count)
    setCount object count

/-- `if (object->count) { .. seagrass_uintmax_t_subtract(object->count, 1, &object->count) .. }`. -/
def decrement (G : Seagrass) (object : I) : M I L Unit :=
  .load () fun m =>
    if (m.lists object).count = 0 then .ret ()
    else do
      let count ← required (G.subtract (m.lists object).count 1)
      setCount object count

/-- `if (!object->list) { object->list = node } else { .. insert_before(object->list, node) .. }`. -/
def append (object : I) (node : P) : M I L Unit :=
  .load () fun m =>
    match (m.lists object).list with
    | none => setList object (some node)
    | some list => listInsertBefore list node

variable [DecidableEq P]

/-- `if (object->list == at) { object->list = node }`. -/
def rehead (object : I) (at_ node : P) : M I L Unit :=
  .load () fun m => if (m.lists object).list = some at_ then setList object (some node) else .ret ()

/-- `if (node == object->list) { .. }`: the head moves on to the next node, if there is another. -/
def unhead (object : I) (node : P) : M I L Unit :=
  .load () fun m =>
    if (m.lists object).list = some node then do
      let next ← required (L.next m.nodes node)
      setList object (if node = next then none else some next)
    else .ret ()

end

/-- The node of a new item. -/
def nodeInit (item : P) : M I L (Code × Out (Option P)) :=
  .load () fun m => do
    let nodes ← required (L.nodeInit m.nodes item)
    .store () { m with nodes } (.ret (.ok, some (some item)))

def alloc (G : Seagrass) (sizeMax sizeofItem : Nat) (posixMemalign : Nat → Option P) (size : Nat)
    (out : Out (Option P)) : M I L (Code × Out (Option P)) :=
  request G sizeMax sizeofItem posixMemalign size out nodeInit

def free (item : Option P) : M I L Code := release item

def count (object : Option I) (out : Out Nat) : M I L (Code × Out Nat) :=
  match object, out with
  | none, _ => return (.seaUrchinObjectIsNull, out)
  | some _, none => return (.seaUrchinOutIsNull, out)
  | some object, some _ => .load () fun m => .ret (.ok, some (m.lists object).count)

def first (object : Option I) (out : Out (Option P)) : M I L (Code × Out (Option P)) :=
  match object, out with
  | none, _ => return (.seaUrchinObjectIsNull, out)
  | some _, none => return (.seaUrchinOutIsNull, out)
  | some object, some _ => .load () fun m =>
    if (m.lists object).count = 0 then return (.seaUrchinIsEmpty, out)
    else found (m.lists object).list

def last (object : Option I) (out : Out (Option P)) : M I L (Code × Out (Option P)) :=
  match object, out with
  | none, _ => return (.seaUrchinObjectIsNull, out)
  | some _, none => return (.seaUrchinOutIsNull, out)
  | some object, some _ => .load () fun m =>
    if (m.lists object).count = 0 then return (.seaUrchinIsEmpty, out)
    else
      match (m.lists object).list with
      | none => .abort
      | some list => do
        let node ← required (L.prev m.nodes list)
        found (some node)

section
variable [DecidableEq I]

def init (object : Option I) : M I L Code :=
  match object with
  | none => return .seaUrchinObjectIsNull
  | some object => .load () fun m => .store () (m.set object zero) (.ret .ok)

def add (G : Seagrass) (object : Option I) (item : Option P) : M I L Code :=
  match object, item with
  | none, _ => return .seaUrchinObjectIsNull
  | some _, none => return .seaUrchinItemIsNull
  | some object, some item => do
    increment G object
    append object item
    return .ok

variable [DecidableEq P]

def insert (G : Seagrass) (object : Option I) (item value : Option P) : M I L Code :=
  match object, item, value with
  | none, _, _ => return .seaUrchinObjectIsNull
  | some _, none, _ => return .seaUrchinItemIsNull
  | some _, some _, none => return .seaUrchinValueIsNull
  | some object, some item, some value => do
    increment G object
    listInsertBefore item value
    rehead object item value
    return .ok

def remove (G : Seagrass) (object : Option I) (item : Option P) : M I L Code :=
  match object, item with
  | none, _ => return .seaUrchinObjectIsNull
  | some _, none => return .seaUrchinItemIsNull
  | some object, some item => do
    unhead object item
    listRemove item
    decrement G object
    return .ok

def next (object : Option I) (item : Option P) (out : Out (Option P)) : M I L (Code × Out (Option P)) :=
  match object, item, out with
  | none, _, _ => return (.seaUrchinObjectIsNull, out)
  | some _, none, _ => return (.seaUrchinItemIsNull, out)
  | some _, some _, none => return (.seaUrchinOutIsNull, out)
  | some object, some item, some _ => .load () fun m => do
    let node ← required (L.next m.nodes item)
    if item = node ∨ (m.lists object).list = some node then return (.seaUrchinEndOfSequence, out)
    else found (some node)

def prev (object : Option I) (item : Option P) (out : Out (Option P)) : M I L (Code × Out (Option P)) :=
  match object, item, out with
  | none, _, _ => return (.seaUrchinObjectIsNull, out)
  | some _, none, _ => return (.seaUrchinItemIsNull, out)
  | some _, some _, none => return (.seaUrchinOutIsNull, out)
  | some object, some item, some _ => .load () fun m =>
    if (m.lists object).list = some item then return (.seaUrchinEndOfSequence, out)
    else do
      let node ← required (L.prev m.nodes item)
      if item = node then return (.seaUrchinEndOfSequence, out)
      else found (some node)

def invalidate (G : Seagrass) (fuel : Nat) (object : Option I) (onDestroy : Bool) : M I L Code :=
  match object with
  | none => return .seaUrchinObjectIsNull
  | some object =>
    drainAll .seaUrchinIsEmpty .seaUrchinEndOfSequence (first (some object) (some none))
      (fun item => next (some object) (some item) (some none))
      (fun item => remove G (some object) (some item))
      (.load () fun m => .store () (m.set object zero) (.ret .ok)) fuel onDestroy

end

end LinkedList

end Coral
