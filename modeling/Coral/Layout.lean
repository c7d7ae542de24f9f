import Coral.Rock

/-!
# What the files have in common

The three files ask for memory, give it back and go through what they invalidate in the same way, and
the two containers look entries up in the same way, word for word, each with a `this` and an
`entity_compare` of its own. What is alike is here once. `request` is an `alloc` but for the nodes it
initialises at the end, `drainAll` an `invalidate` with the functions of its file; a `Layout` says where
the struct of a file has its tree and its compare function.
-/

namespace Coral

section
variable {O S P E : Type}

/-- Ask for memory; `rest` initialises what was handed out. -/
def request (G : Seagrass) (sizeMax sizeofStruct : Nat) (posixMemalign : Nat → Option P) (size : Nat)
    (out : Out (Option P)) (rest : P → Prog O S P E (Code × Out (Option P))) :
    Prog O S P E (Code × Out (Option P)) :=
  match size, out with
  | 0, _ => return (.seaUrchinValueIsZero, out)
  | _ + 1, none => return (.seaUrchinOutIsNull, out)
  | _ + 1, some _ =>
    match G.add size sizeofStruct with
    | .error error => do
      requiredTrue (error = .seagrassResultIsInconsistent)
      return (.seaUrchinValueIsTooLarge, out)
    | .ok alloc =>
      if sizeMax < alloc then return (.seaUrchinValueIsTooLarge, out)
      else
        match posixMemalign alloc with
        | none => return (.seaUrchinMemoryAllocationFailed, out)
        | some e => rest e

def entityCompare (a b : P) : Prog O S P E Int := .ask a b .ret

/-- `*out = &A->data; return 0`, `A` being the entry of `node`. -/
def found (node : Option P) : Prog O S P E (Code × Out (Option P)) :=
  match node with
  | none => .abort
  | some node => return (.ok, some (some node))

/-- The checks the five queries begin with. -/
def checked (object : Option O) (key : Option P) (out : Out (Option P))
    (body : O → P → Prog O S P E (Code × Out (Option P))) : Prog O S P E (Code × Out (Option P)) :=
  match object, key, out with
  | none, _, _ => return (.rockTreeObjectIsNull, out)
  | some _, none, _ => return (.seaUrchinKeyIsNull, out)
  | some _, some _, none => return (.seaUrchinOutIsNull, out)
  | some object, some key, some _ => body object key

end

section
variable {O S P : Type}

/-- A `free`. -/
def release (entry : Option P) : Prog O S P (Event P) Code :=
  match entry with
  | none => return .seaUrchinItemIsNull
  | some entry => .emit (.free entry) (.ret .ok)

/-- The loop of an `invalidate`; `end_` is the code of `next` on the last entry, `fuel` bounds the number
of its rounds, `onDestroy` tells whether a callback is given. -/
def drain (end_ : Code) (next : P → Prog O S P (Event P) (Code × Out (Option P)))
    (remove : P → Prog O S P (Event P) Code) (onDestroy : Bool) :
    Nat → Option P → Prog O S P (Event P) Unit
  | 0, _ => .abort
  | _ + 1, none => .abort
  | fuel + 1, some e => do
    let (error, out) ← next e
    requiredTrue (error = .ok || error = end_)
    requiredTrue ((← remove e) = .ok)
    if onDestroy then .emit (.destroy e) (.ret ())
    requiredTrue ((← release (some e)) = .ok)
    if error = .ok then drain end_ next remove onDestroy fuel (out.getD none) else return ()

/-- An `invalidate`; `empty` is the code of `first` on the empty container, `rest` what comes after
the loop. -/
def drainAll (empty end_ : Code) (first : Prog O S P (Event P) (Code × Out (Option P)))
    (next : P → Prog O S P (Event P) (Code × Out (Option P)))
    (remove : P → Prog O S P (Event P) Code) (rest : Prog O S P (Event P) Code) (fuel : Nat)
    (onDestroy : Bool) : Prog O S P (Event P) Code := do
  let (error, e) ← first
  if error = .ok then drain end_ next remove onDestroy fuel (e.getD none)
  else requiredTrue (error = empty)
  rest

end

/-- The functions that look a key up. -/
inductive Query where
  | get
  | ceiling
  | floor
  | higher
  | lower
deriving DecidableEq, Repr

/-- Where a container has its tree and its compare function. -/
structure Layout {P : Type} (R : RockTree P) (F S : Type) where
  tree : S → R.Tree
  setTree : S → R.Tree → S
  compare : S → Option F

namespace Layout

variable {O S P E F : Type} {R : RockTree P} (C : Layout R F S)

/-- The callback behind `entity_compare`: the compare function of `*this`. -/
def answer (call : F → P → P → Int) (this : S) (a b : P) : Option Int :=
  (C.compare this).map fun f => call f a b

/-- `rock_red_black_tree_find(&object->tree, NULL, &node, &out)`. -/
def find (object : O) (node : P) : Prog O S P E (Code × Option P) :=
  .load object fun s => .lift (R.find (C.tree s) node)

/-- `rock_red_black_tree_insert(&object->tree, at, &node)`. -/
def insertNode (object : O) (insertionPoint : Option P) (node : P) : Prog O S P E Unit :=
  .load object fun s => do
    let tree ← .lift (R.insert (C.tree s) insertionPoint node)
    let tree ← required tree
    .store object (C.setTree s tree) (.ret ())

/-- Look `entry` up; if there is no equal one, put it into the tree and go on with `rest`. -/
def enlist (object : O) (entry : P) (rest : Prog O S P E Code) : Prog O S P E Code :=
  .select object do
    let (error, insertionPoint) ← C.find object entry
    if error = .ok then return .rockTreeNodeAlreadyExists
    else do
      requiredTrue (error = .rockTreeNodeNotFound)
      C.insertNode object insertionPoint entry
      rest

def count (object : Option O) (out : Out Nat) : Prog O S P E (Code × Out Nat) :=
  match object, out with
  | none, _ => return (.rockTreeObjectIsNull, out)
  | some _, none => return (.seaUrchinOutIsNull, out)
  | some object, some _ => .load object fun s => do
    let count ← required (R.count (C.tree s))
    return (.ok, some count)

/-- `rock_red_black_tree_next(node, &node)` or `.._prev` (`step`), and `ENTRY_NOT_FOUND` where that
fails. -/
def stepOrNotFound (step : R.Tree → P → Except Code P) (object : O) (node : P) (out : Out (Option P)) :
    Prog O S P E (Code × Out (Option P)) :=
  .load object fun s =>
    match step (C.tree s) node with
    | .ok node => found (some node)
    | .error error => do
      requiredTrue (error = .rockTreeEndOfSequence)
      return (.rockTreeNodeNotFound, out)

def get (object : Option O) (key : Option P) (out : Out (Option P)) :
    Prog O S P E (Code × Out (Option P)) :=
  checked object key out fun object key => .select object do
    let (error, node) ← C.find object key
    if error = .ok then found node
    else do
      requiredTrue (error = .rockTreeNodeNotFound)
      return (.rockTreeNodeNotFound, out)

def ceiling (object : Option O) (key : Option P) (out : Out (Option P)) :
    Prog O S P E (Code × Out (Option P)) :=
  checked object key out fun object key => .select object do
    let (error, node) ← C.find object key
    if error = .ok then found node
    else do
      requiredTrue (error = .rockTreeNodeNotFound)
      match node with
      | none => return (.rockTreeNodeNotFound, out)
      | some node => do
        if 0 < (← entityCompare key node) then return (.rockTreeNodeNotFound, out)
        else found (some node)

def floor (object : Option O) (key : Option P) (out : Out (Option P)) :
    Prog O S P E (Code × Out (Option P)) :=
  checked object key out fun object key => .select object do
    let (error, node) ← C.find object key
    if error = .ok then found node
    else do
      requiredTrue (error = .rockTreeNodeNotFound)
      match node with
      | none => return (.rockTreeNodeNotFound, out)
      | some node => do
        if (← entityCompare key node) < 0 then C.stepOrNotFound R.prev object node out
        else found (some node)

def higher (object : Option O) (key : Option P) (out : Out (Option P)) :
    Prog O S P E (Code × Out (Option P)) :=
  checked object key out fun object key => .select object do
    let (error, node) ← C.find object key
    if error = .ok then
      match node with
      | none => .abort
      | some node => C.stepOrNotFound R.next object node out
    else do
      requiredTrue (error = .rockTreeNodeNotFound)
      match node with
      | none => return (.rockTreeNodeNotFound, out)
      | some node => do
        if 0 < (← entityCompare key node) then return (.rockTreeNodeNotFound, out)
        else found (some node)

def lower (object : Option O) (key : Option P) (out : Out (Option P)) :
    Prog O S P E (Code × Out (Option P)) :=
  checked object key out fun object key => .select object do
    let (error, node) ← C.find object key
    requiredTrue (error = .ok || error = .rockTreeNodeNotFound)
    match node with
    | none => if error = .ok then .abort else return (.rockTreeNodeNotFound, out)
    | some node => do
      if (← entityCompare key node) ≤ 0 then C.stepOrNotFound R.prev object node out
      else found (some node)

/-- The entry at one end of the tree: `end_` is the node there. -/
def firstOrLast (end_ : R.Tree → Except Code P) (object : Option O) (out : Out (Option P)) :
    Prog O S P E (Code × Out (Option P)) :=
  match object, out with
  | none, _ => return (.rockTreeObjectIsNull, out)
  | some _, none => return (.seaUrchinOutIsNull, out)
  | some object, some _ => .load object fun s =>
    match end_ (C.tree s) with
    | .ok node => found (some node)
    | .error error => do
      requiredTrue (error = .rockTreeTreeIsEmpty)
      return (.rockTreeTreeIsEmpty, out)

/-- The entry after or before another one: `step` is the neighbour on that side. -/
def nextOrPrev (step : R.Tree → P → Except Code P) (object : O) (entry : Option P)
    (out : Out (Option P)) : Prog O S P E (Code × Out (Option P)) :=
  match entry, out with
  | none, _ => return (.seaUrchinItemIsNull, out)
  | some _, none => return (.seaUrchinOutIsNull, out)
  | some entry, some _ => .load object fun s =>
    match step (C.tree s) entry with
    | .ok node => found (some node)
    | .error error => do
      requiredTrue (error = .rockTreeEndOfSequence)
      return (.rockTreeEndOfSequence, out)

def query (object : Option O) (key : Option P) (out : Out (Option P)) :
    Query → Prog O S P E (Code × Out (Option P))
  | .get => C.get object key out
  | .ceiling => C.ceiling object key out
  | .floor => C.floor object key out
  | .higher => C.higher object key out
  | .lower => C.lower object key out

end Layout

end Coral
