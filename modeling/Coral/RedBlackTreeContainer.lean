import Coral.Layout

/-!
# `src/red_black_tree_container.c`

Every function of the file as the sequence of its steps. `object` and `entry` are pointers (`none` is
`NULL`); `this` is the current object of `Prog`, `entity_compare` asks its callback. In `next` and
`prev`, `object` is the container `entry` is stored in: the C functions find the tree through the
links of the node. The bodies the file shares with `src/linked_red_black_tree_container.c` are in
`Coral.Layout`.
-/

namespace Coral

/-- `struct coral_red_black_tree_container`; `F` are the compare functions. -/
structure RedBlackTreeContainer {P : Type} (R : RockTree P) (F : Type) where
  tree : R.Tree
  compare : Option F

namespace RedBlackTreeContainer

variable {P F O : Type} {R : RockTree P}

/-- A function of this file. -/
abbrev M (O : Type) {P : Type} (R : RockTree P) (F : Type) :=
  Prog O (RedBlackTreeContainer R F) P (Event P)

def layout : Layout R F (RedBlackTreeContainer R F) where
  tree := tree
  setTree s tree := { s with tree }
  compare := compare

/-- The callback behind `entity_compare`: the compare function of `*this`. -/
def answer (call : F → P → P → Int) : RedBlackTreeContainer R F → P → P → Option Int :=
  layout.answer call

/-- `*object = (struct coral_red_black_tree_container) {0}`. -/
def zero : RedBlackTreeContainer R F := ⟨R.zero, none⟩

/-- The node of a new entry. -/
def nodeInit (entry : P) : M O R F (Code × Out (Option P)) := do
  requiredTrue (R.nodeInit entry = .ok)
  return (.ok, some (some entry))

def alloc (G : Seagrass) (sizeMax sizeofEntry : Nat) (posixMemalign : Nat → Option P) (size : Nat)
    (out : Out (Option P)) : M O R F (Code × Out (Option P)) :=
  request G sizeMax sizeofEntry posixMemalign size out nodeInit

def free (entry : Option P) : M O R F Code := release entry

def init (object : Option O) (compare : Option F) : M O R F Code :=
  match object, compare with
  | none, _ => return .rockTreeObjectIsNull
  | some _, none => return .rockTreeCompareIsNull
  | some object, some compare =>
    .store object zero do
      let tree ← required (R.init R.zero)
      .store object ⟨tree, some compare⟩ (.ret .ok)

def count (object : Option O) (out : Out Nat) : M O R F (Code × Out Nat) := layout.count object out

def add (object : Option O) (entry : Option P) : M O R F Code :=
  match object, entry with
  | none, _ => return .rockTreeObjectIsNull
  | some _, none => return .seaUrchinItemIsNull
  | some object, some entry => layout.enlist object entry (return .ok)

def remove (object : Option O) (entry : Option P) : M O R F Code :=
  match object, entry with
  | none, _ => return .rockTreeObjectIsNull
  | some _, none => return .seaUrchinItemIsNull
  | some object, some entry => .load object fun s => do
    let tree ← required (R.remove s.tree entry)
    .store object { s with tree } (.ret .ok)

section queries
variable (object : Option O) (key : Option P) (out : Out (Option P))

def get : M O R F (Code × Out (Option P)) := layout.get object key out

def ceiling : M O R F (Code × Out (Option P)) := layout.ceiling object key out

def floor : M O R F (Code × Out (Option P)) := layout.floor object key out

def higher : M O R F (Code × Out (Option P)) := layout.higher object key out

def lower : M O R F (Code × Out (Option P)) := layout.lower object key out

end queries

def first (object : Option O) (out : Out (Option P)) : M O R F (Code × Out (Option P)) :=
  layout.firstOrLast R.first object out

def last (object : Option O) (out : Out (Option P)) : M O R F (Code × Out (Option P)) :=
  layout.firstOrLast R.last object out

def next (object : O) (entry : Option P) (out : Out (Option P)) : M O R F (Code × Out (Option P)) :=
  layout.nextOrPrev R.next object entry out

def prev (object : O) (entry : Option P) (out : Out (Option P)) : M O R F (Code × Out (Option P)) :=
  layout.nextOrPrev R.prev object entry out

def invalidate (fuel : Nat) (object : Option O) (onDestroy : Bool) : M O R F Code :=
  match object with
  | none => return .rockTreeObjectIsNull
  | some object =>
    drainAll .rockTreeTreeIsEmpty .rockTreeEndOfSequence (first (some object) (some none))
      (fun entry => next object (some entry) (some none)) (fun entry => remove (some object) (some entry))
      (.load object fun s => do
        let _ ← required (R.invalidate s.tree)
        .store object zero (.ret .ok))
      fuel onDestroy

end RedBlackTreeContainer

end Coral
