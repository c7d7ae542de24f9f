import Coral.Lib.Circle
import Coral.Lib.Prog
import Coral.Lib.SearchTree

/-!
# What coral is built on

The trees and rings of the containers are those of `aquarium-rock`, the checked arithmetic that of
`aquarium-seagrass`; neither is part of this repository. `RockTree`, `RockList` and `Seagrass` are the
operations coral calls, as parameters of everything below; the `Lawful` structures say what coral
relies on. `RockTree.shape` and `RockList.links` are no operations: they name what the links of the
nodes spell, for the laws to speak about.

A node, the entry it is embedded in and the data behind it have one name in `P` (`rock_container_of`
moves between the three addresses of one entry).
-/

namespace Coral

/-- A return code: `0` or one of the `SEA_URCHIN_ERROR_*`, `ROCK_RED_BLACK_TREE_ERROR_*` and
`SEAGRASS_UINTMAX_T_ERROR_*` constants the coral headers remap. -/
inductive Code where
  | ok
  | seaUrchinValueIsZero
  | seaUrchinValueIsTooLarge
  | seaUrchinOutIsNull
  | seaUrchinMemoryAllocationFailed
  | seaUrchinItemIsNull
  | seaUrchinObjectIsNull
  | seaUrchinKeyIsNull
  | seaUrchinValueIsNull
  | seaUrchinIsEmpty
  | seaUrchinEndOfSequence
  | rockTreeObjectIsNull
  | rockTreeCompareIsNull
  | rockTreeNodeAlreadyExists
  | rockTreeNodeNotFound
  | rockTreeTreeIsEmpty
  | rockTreeEndOfSequence
  | seagrassResultIsInconsistent
deriving DecidableEq, Repr

/-! ### Red-black trees -/

/-- `rock_red_black_tree`. A call that writes an out parameter on success only returns
`Except Code`; `find` writes its node in both cases. -/
structure RockTree (P : Type) where
  /-- `struct rock_red_black_tree`, with the nodes hanging in it -/
  Tree : Type
  /-- the all-zero struct -/
  zero : Tree
  nodeInit : P → Code
  init : Tree → Except Code Tree
  invalidate : Tree → Except Code Tree
  count : Tree → Except Code Nat
  find : Tree → P → Ask P (Code × Option P)
  insert : Tree → Option P → P → Ask P (Except Code Tree)
  remove : Tree → P → Except Code Tree
  first : Tree → Except Code P
  last : Tree → Except Code P
  next : Tree → P → Except Code P
  prev : Tree → P → Except Code P
  shape : Tree → BinaryTree P

namespace RockTree
open SearchTree

variable {P : Type}

/-- The nodes of a tree in order. -/
def nodes (R : RockTree P) (t : R.Tree) : List P := inorder (R.shape t)

/-- What `rock_red_black_tree_find` returns for a search that ended so. -/
def findResult : Found P → Code × Option P
  | .hit a => (.ok, some a)
  | .miss last => (.rockTreeNodeNotFound, last)

/-- What coral relies on. Nothing is said about how a tree is balanced. -/
structure Lawful [DecidableEq P] (R : RockTree P) : Prop where
  nodeInit_ok : ∀ a, R.nodeInit a = .ok
  init_zero : ∃ t, R.init R.zero = .ok t ∧ R.shape t = .nil ∧ R.count t = .ok 0
  invalidate_empty : ∀ t, R.shape t = .nil → ∃ t', R.invalidate t = .ok t'
  /-- The search descends from the root; on a miss it reports the last node visited. -/
  find_eq : ∀ t k, R.find t k = (descend k none (R.shape t)).map findResult
  insert_root : ∀ t n, R.shape t = .nil → ∃ t', R.insert t none n = .done (.ok t') ∧
    R.nodes t' = [n] ∧ R.count t' = (R.count t).map (· + 1)
  /-- The node hangs under the given one, on the side one comparison picks, and one is added to the
  count; balancing keeps the order of the nodes. -/
  insert_under : ∀ t p n, ∃ f : Int → Except Code R.Tree,
    R.insert t (some p) n = .ask n p (fun c => .done (f c)) ∧
    ∀ c s, c ≠ 0 → n ∉ R.nodes t → hang p n c (R.shape t) = some s →
      ∃ t', f c = .ok t' ∧ R.nodes t' = inorder s ∧ R.count t' = (R.count t).map (· + 1)
  remove_mem : ∀ t pre a post, (R.nodes t).Nodup → R.nodes t = pre ++ a :: post →
    ∃ t', R.remove t a = .ok t' ∧ R.nodes t' = pre ++ post ∧ R.count t' = (R.count t).map (· - 1)
  first_nil : ∀ t, R.nodes t = [] → R.first t = .error .rockTreeTreeIsEmpty
  first_cons : ∀ t a l, R.nodes t = a :: l → R.first t = .ok a
  last_nil : ∀ t, R.nodes t = [] → R.last t = .error .rockTreeTreeIsEmpty
  last_concat : ∀ t l a, R.nodes t = l ++ [a] → R.last t = .ok a
  next_mid : ∀ t pre a b post, (R.nodes t).Nodup → R.nodes t = pre ++ a :: b :: post →
    R.next t a = .ok b
  next_end : ∀ t l a, (R.nodes t).Nodup → R.nodes t = l ++ [a] →
    R.next t a = .error .rockTreeEndOfSequence
  prev_mid : ∀ t pre a b post, (R.nodes t).Nodup → R.nodes t = pre ++ a :: b :: post →
    R.prev t b = .ok a
  prev_start : ∀ t a l, (R.nodes t).Nodup → R.nodes t = a :: l →
    R.prev t a = .error .rockTreeEndOfSequence

end RockTree

/-! ### Circular lists -/

/-- `rock_linked_list` on the list nodes of a heap. -/
structure RockList (P : Type) where
  Heap : Type
  nodeInit : Heap → P → Except Code Heap
  next : Heap → P → Except Code P
  prev : Heap → P → Except Code P
  insertBefore : Heap → P → P → Except Code Heap
  remove : Heap → P → Except Code Heap
  links : Heap → Links P

namespace RockList
open Links

variable {P : Type}

/-- What coral relies on. -/
structure Lawful [DecidableEq P] (L : RockList P) : Prop where
  next_ok : ∀ h a, L.next h a = .ok ((L.links h).succ a)
  prev_ok : ∀ h a, L.prev h a = .ok ((L.links h).pred a)
  /-- `nodeInit` makes a ring of one node. -/
  nodeInit_ok : ∀ h a, ∃ h', L.nodeInit h a = .ok h' ∧ Alone (L.links h') a ∧
    ∀ x, x ≠ a → (L.links h').succ x = (L.links h).succ x ∧ (L.links h').pred x = (L.links h).pred x
  insertBefore_ok : ∀ h a v, ∃ h', L.insertBefore h a v = .ok h'
  /-- A node that is alone is spliced in front of another one. -/
  insertBefore_alone : ∀ h a v h', v ≠ a → Alone (L.links h) v →
    (L.links h).succ ((L.links h).pred a) = a → L.insertBefore h a v = .ok h' →
      Splice (L.links h) (L.links h') a v
  remove_ok : ∀ h v, ∃ h', L.remove h v = .ok h'
  /-- A node is spliced out of its ring and left alone. -/
  remove_ring : ∀ h v h', (L.links h).succ ((L.links h).pred v) = v →
    (L.links h).pred ((L.links h).succ v) = v → L.remove h v = .ok h' →
      Unlink (L.links h) (L.links h') v

end RockList

/-! ### Checked arithmetic -/

/-- `seagrass_uintmax_t_*`. -/
structure Seagrass where
  uintmaxMax : Nat
  add : Nat → Nat → Except Code Nat
  subtract : Nat → Nat → Except Code Nat

structure Seagrass.Lawful (G : Seagrass) : Prop where
  add_ok : ∀ a b, a + b ≤ G.uintmaxMax → G.add a b = .ok (a + b)
  add_error : ∀ a b, G.uintmaxMax < a + b → G.add a b = .error .seagrassResultIsInconsistent
  subtract_ok : ∀ a b, b ≤ a → G.subtract a b = .ok (a - b)

/-! ### Checks -/

/-- What a client is told while a container is invalidated. -/
inductive Event (P : Type) where
  | destroy (entry : P)
  | free (entry : P)
deriving DecidableEq, Repr

/-- A `T **out` parameter: `none` is `NULL`, else it holds what `out` points to. -/
abbrev Out (α : Type) := Option α

section checks
variable {O S P E α : Type}

/-- `seagrass_required_true(b)`. -/
def requiredTrue (b : Bool) : Prog O S P E Unit := if b then .ret () else .abort

/-- `seagrass_required_true(!call(.., &out))`. -/
def required : Except Code α → Prog O S P E α
  | .ok a => .ret a
  | .error _ => .abort

theorem run_required [DecidableEq O] {answer : S → P → P → Option Int} {w : World O S E} {β : Type}
    {e : Except Code α} {a : α} (h : e = .ok a) (f : α → Prog O S P E β) :
    ((required e).bind f).run answer w = (f a).run answer w := by
  rw [h]
  rfl

end checks

end Coral
