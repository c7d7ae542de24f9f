import Coral.Layout

/-!
# `src/linked_red_black_tree_container.c`

Every function of the file as the sequence of its steps, in the manner of
`Coral.RedBlackTreeContainer`; the bodies the two files share are in `Coral.Layout`. The file has a
`this` and an `entity_compare` of its own. The list nodes the entries of a container embed are part of
its memory (`nodes`); `object` is the container `entry` is stored in where the C function has no such
argument (`sorted_next`, `sorted_prev`) and the one the entry is for in `alloc`.
-/

namespace Coral

/-- `struct coral_linked_red_black_tree_container`, with the list nodes of its entries. -/
structure LinkedRedBlackTreeContainer {P : Type} (R : RockTree P) (L : RockList P) (F : Type) where
  tree : R.Tree
  list : Option P
  compare : Option F
  nodes : L.Heap

namespace LinkedRedBlackTreeContainer

variable {P F O : Type} {R : RockTree P} {L : RockList P}

/-- A function of this file. -/
abbrev M (O : Type) {P : Type} (R : RockTree P) (L : RockList P) (F : Type) :=
  Prog O (LinkedRedBlackTreeContainer R L F) P (Event P)

def layout : Layout R F (LinkedRedBlackTreeContainer R L F) where
  tree := tree
  setTree s tree := { s with tree }
  compare := compare

/-- The callback behind `entity_compare`: the compare function of `*this`. -/
def answer (call : F → P → P → Int) : LinkedRedBlackTreeContainer R L F → P → P → Option Int :=
  layout.answer call

/-- `*object = (struct coral_linked_red_black_tree_container) {0}`; entries are elsewhere. -/
def zero (s : LinkedRedBlackTreeContainer R L F) : LinkedRedBlackTreeContainer R L F :=
  { s with tree := R.zero, list := none, compare := none }

/-! ### Calls of `rock` -/

/-- `rock_red_black_tree_remove(&object->tree, &node)`. -/
def removeNode (object : O) (node : P) : M O R L F Unit :=
  .load object fun s => do
    let tree ← required (R.remove s.tree node)
    .store object { s with tree } (.ret ())

/-- `rock_linked_list_insert_before(at, &node)`. -/
def listInsertBefore (object : O) (at_ node : P) : M O R L F Unit :=
  .load object fun s => do
    let nodes ← required (L.insertBefore s.nodes at_ node)
    .store object { s with nodes } (.ret ())

/-- `rock_linked_list_remove(&node)`. -/
def listRemove (object : O) (node : P) : M O R L F Unit :=
  .load object fun s => do
    let nodes ← required (L.remove s.nodes node)
    .store object { s with nodes } (.ret ())

/-- `object->list = node`. -/
def setList (object : O) (node : Option P) : M O R L F Unit :=
  .load object fun s => .store object { s with list := node } (.ret ())

/-- `if (!object->list) { object->list = node } else { .. insert_before(object->list, node) .. }`. -/
def append (object : O) (node : P) : M O R L F Unit :=
  .load object fun s =>
    match s.list with
    | none => setList object (some node)
    | some list => listInsertBefore object list node

section
variable [DecidableEq P]

/-- `if (at == object->list) { object->list = node }`. -/
def rehead (object : O) (at_ node : P) : M O R L F Unit :=
  .load object fun s => if s.list = some at_ then setList object (some node) else .ret ()

/-- `if (node == object->list) { .. }`: the head moves on to the next node, if there is another. -/
def unhead (object : O) (node : P) : M O R L F Unit :=
  .load object fun s =>
    if s.list = some node then do
      let next ← required (L.next s.nodes node)
      setList object (if node = next then none else some next)
    else .ret ()

end

/-! ### The functions of the file -/

/-- The nodes of a new entry. -/
def nodesInit (object : O) (entry : P) : M O R L F (Code × Out (Option P)) := do
  requiredTrue (R.nodeInit entry = .ok)
  .load object fun s => do
    let nodes ← required (L.nodeInit s.nodes entry)
    .store object { s with nodes } (.ret (.ok, some (some entry)))

def alloc (G : Seagrass) (sizeMax sizeofEntry : Nat) (posixMemalign : Nat → Option P) (object : O)
    (size : Nat) (out : Out (Option P)) : M O R L F (Code × Out (Option P)) :=
  request G sizeMax sizeofEntry posixMemalign size out (nodesInit object)

def free (entry : Option P) : M O R L F Code := release entry

def init (object : Option O) (compare : Option F) : M O R L F Code :=
  match object, compare with
  | none, _ => return .rockTreeObjectIsNull
  | some _, none => return .rockTreeCompareIsNull
  | some object, some compare => .load object fun s =>
    .store object s.zero do
      let tree ← required (R.init R.zero)
      .store object { s.zero with tree, compare := some compare } (.ret .ok)

def count (object : Option O) (out : Out Nat) : M O R L F (Code × Out Nat) := layout.count object out

def add (object : Option O) (entry : Option P) : M O R L F Code :=
  match object, entry with
  | none, _ => return .rockTreeObjectIsNull
  | some _, none => return .seaUrchinItemIsNull
  | some object, some entry => layout.enlist object entry do
    append object entry
    return .ok

section
variable [DecidableEq P]

def remove (object : Option O) (entry : Option P) : M O R L F Code :=
  match object, entry with
  | none, _ => return .rockTreeObjectIsNull
  | some _, none => return .seaUrchinItemIsNull
  | some object, some entry => do
    unhead object entry
    listRemove object entry
    removeNode object entry
    return .ok

def insert (object : Option O) (entry item : Option P) : M O R L F Code :=
  match object, entry, item with
  | none, _, _ => return .rockTreeObjectIsNull
  | some _, none, _ => return .seaUrchinItemIsNull
  | some _, some _, none => return .seaUrchinValueIsNull
  | some object, some entry, some item => layout.enlist object item do
    listInsertBefore object entry item
    rehead object entry item
    return .ok

end

section queries
variable (object : Option O) (key : Option P) (out : Out (Option P))

def get : M O R L F (Code × Out (Option P)) := layout.get object key out

def ceiling : M O R L F (Code × Out (Option P)) := layout.ceiling object key out

def floor : M O R L F (Code × Out (Option P)) := layout.floor object key out

def higher : M O R L F (Code × Out (Option P)) := layout.higher object key out

def lower : M O R L F (Code × Out (Option P)) := layout.lower object key out

end queries

def sortedFirst (object : Option O) (out : Out (Option P)) : M O R L F (Code × Out (Option P)) :=
  layout.firstOrLast R.first object out

def sortedLast (object : Option O) (out : Out (Option P)) : M O R L F (Code × Out (Option P)) :=
  layout.firstOrLast R.last object out

def sortedNext (object : O) (entry : Option P) (out : Out (Option P)) :
    M O R L F (Code × Out (Option P)) :=
  layout.nextOrPrev R.next object entry out

def sortedPrev (object : O) (entry : Option P) (out : Out (Option P)) :
    M O R L F (Code × Out (Option P)) :=
  layout.nextOrPrev R.prev object entry out

def first (object : Option O) (out : Out (Option P)) : M O R L F (Code × Out (Option P)) :=
  match object, out with
  | none, _ => return (.rockTreeObjectIsNull, out)
  | some _, none => return (.seaUrchinOutIsNull, out)
  | some object, some _ => .load object fun s =>
    match s.list with
    | none => return (.rockTreeTreeIsEmpty, out)
    | some list => found (some list)

def last (object : Option O) (out : Out (Option P)) : M O R L F (Code × Out (Option P)) :=
  match object, out with
  | none, _ => return (.rockTreeObjectIsNull, out)
  | some _, none => return (.seaUrchinOutIsNull, out)
  | some object, some _ => .load object fun s =>
    match s.list with
    | none => return (.rockTreeTreeIsEmpty, out)
    | some list => do
      let node ← required (L.prev s.nodes list)
      found (some node)

section
variable [DecidableEq P]

def next (object : Option O) (entry : Option P) (out : Out (Option P)) :
    M O R L F (Code × Out (Option P)) :=
  match object, entry, out with
  | none, _, _ => return (.rockTreeObjectIsNull, out)
  | some _, none, _ => return (.seaUrchinItemIsNull, out)
  | some _, some _, none => return (.seaUrchinOutIsNull, out)
  | some object, some entry, some _ => .load object fun s => do
    let node ← required (L.next s.nodes entry)
    if entry = node ∨ s.list = some node then return (.rockTreeEndOfSequence, out)
    else found (some node)

def prev (object : Option O) (entry : Option P) (out : Out (Option P)) :
    M O R L F (Code × Out (Option P)) :=
  match object, entry, out with
  | none, _, _ => return (.rockTreeObjectIsNull, out)
  | some _, none, _ => return (.seaUrchinItemIsNull, out)
  | some _, some _, none => return (.seaUrchinOutIsNull, out)
  | some object, some entry, some _ => .load object fun s =>
    if s.list = some entry then return (.rockTreeEndOfSequence, out)
    else do
      let node ← required (L.prev s.nodes entry)
      if entry = node then return (.rockTreeEndOfSequence, out)
      else found (some node)

def invalidate (fuel : Nat) (object : Option O) (onDestroy : Bool) : M O R L F Code :=
  match object with
  | none => return .rockTreeObjectIsNull
  | some object =>
    drainAll .rockTreeTreeIsEmpty .rockTreeEndOfSequence (first (some object) (some none))
      (fun entry => next (some object) (some entry) (some none))
      (fun entry => remove (some object) (some entry))
      (.load object fun s => do
        let _ ← required (R.invalidate s.tree)
        .store object s.zero (.ret .ok))
      fuel onDestroy

end

end LinkedRedBlackTreeContainer

end Coral
