import Coral.Rock

/-!
# An instance of the parameters

A search tree that is never rebalanced, rings over a table of links and checked 64-bit arithmetic:
one concrete `RockTree`, `RockList` and `Seagrass`, and the proofs that they meet the laws. With at
most two nodes no balancing takes place in any red-black tree, and the shapes are those of `rock`.
-/

namespace Coral.Reference

open Places SearchTree ThreeWay

variable {P : Type} [DecidableEq P]

/-! ### Trees -/

/-- `l` followed by `r`. -/
def join : BinaryTree P → BinaryTree P → BinaryTree P
  | .nil, r => r
  | .node a l r', r => .node a l (join r' r)

/-- `t` without the node `p`. -/
def delete (p : P) : BinaryTree P → BinaryTree P
  | .nil => .nil
  | .node a l r =>
      if a = p then join l r
      else if p ∈ inorder l then .node a (delete p l) r
      else .node a l (delete p r)

def nextIn (l : List P) (a : P) : Option P := (l.dropWhile (· ≠ a)).tail.head?

def prevIn (l : List P) (a : P) : Option P := (l.takeWhile (· ≠ a)).getLast?

/-- A search tree with the number of its nodes. -/
def tree : RockTree P where
  Tree := BinaryTree P × Nat
  zero := (.nil, 0)
  nodeInit _ := .ok
  init _ := .ok (.nil, 0)
  invalidate _ := .ok (.nil, 0)
  count t := .ok t.2
  find t k := (descend k none t.1).map RockTree.findResult
  insert t at_ n :=
    match at_ with
    | none => .done (.ok (.node n .nil .nil, t.2 + 1))
    | some p => .ask n p fun c => .done ((hang p n c t.1).elim (.error .rockTreeNodeNotFound) fun s =>
        .ok (s, t.2 + 1))
  remove t a := .ok (delete a t.1, t.2 - 1)
  first t := (inorder t.1).head?.elim (.error .rockTreeTreeIsEmpty) .ok
  last t := (inorder t.1).getLast?.elim (.error .rockTreeTreeIsEmpty) .ok
  next t a := (nextIn (inorder t.1) a).elim (.error .rockTreeEndOfSequence) .ok
  prev t a := (prevIn (inorder t.1) a).elim (.error .rockTreeEndOfSequence) .ok
  shape := Prod.fst

section
variable {a b : P} {pre post l : List P} {t : BinaryTree P}

omit [DecidableEq P] in
theorem inorder_join (l r : BinaryTree P) : inorder (join l r) = inorder l ++ inorder r := by
  induction l with
  | nil => rfl
  | node a l r' _ ih => simp [join, ih]

theorem inorder_delete (hnd : (inorder t).Nodup) (ht : inorder t = pre ++ a :: post) :
    inorder (delete a t) = pre ++ post := by
  suffices h : inorder (delete a t) = (inorder t).erase a by rw [h, ht, erase_mid (ht ▸ hnd)]
  clear ht
  induction t with
  | nil => rfl
  | node b l r ihl ihr =>
    obtain ⟨hl, hr, hlr⟩ := List.nodup_append.1 hnd
    by_cases hb : b = a
    · subst hb
      have hbl : b ∉ inorder l := fun h => hlr b h b (by simp) rfl
      simp [delete, inorder_join, List.erase_append_right _ hbl]
    by_cases hal : a ∈ inorder l
    · simp [delete, hb, hal, ihl hl, List.erase_append_left _ hal]
    · simp [delete, hb, hal, ihr (List.nodup_cons.1 hr).2, List.erase_append_right _ hal]

theorem nextIn_append (hnd : (pre ++ a :: post).Nodup) : nextIn (pre ++ a :: post) a = post.head? := by
  have hpre : ∀ x ∈ pre, decide (x ≠ a) = true := fun x hx =>
    decide_eq_true fun h => not_mem_pre hnd (h ▸ hx)
  rw [nextIn, List.dropWhile_append_of_pos hpre, List.dropWhile_cons_of_neg (by simp), List.tail_cons]

theorem prevIn_append (hnd : (pre ++ a :: post).Nodup) :
    prevIn (pre ++ a :: post) a = pre.getLast? := by
  have hpre : ∀ x ∈ pre, decide (x ≠ a) = true := fun x hx =>
    decide_eq_true fun h => not_mem_pre hnd (h ▸ hx)
  rw [prevIn, List.takeWhile_append_of_pos hpre, List.takeWhile_cons_of_neg (by simp), List.append_nil]

end

theorem tree_lawful : (tree : RockTree P).Lawful where
  nodeInit_ok _ := rfl
  init_zero := ⟨_, rfl, rfl, rfl⟩
  invalidate_empty _ _ := ⟨_, rfl⟩
  find_eq _ _ := rfl
  insert_root t n _ := ⟨_, rfl, rfl, rfl⟩
  insert_under t p n := by
    refine ⟨_, rfl, fun c s _ _ hs => ⟨(s, t.2 + 1), ?_, rfl, rfl⟩⟩
    have hs' : hang p n c t.1 = some s := hs
    rw [hs']
    rfl
  remove_mem t pre a post hnd ht := ⟨_, rfl, inorder_delete hnd ht, rfl⟩
  first_nil t ht := by
    show ((inorder t.1).head?.elim _ _) = _
    rw [show inorder t.1 = [] from ht]
    rfl
  first_cons t a l ht := by
    show ((inorder t.1).head?.elim _ _) = _
    rw [show inorder t.1 = a :: l from ht]
    rfl
  last_nil t ht := by
    show ((inorder t.1).getLast?.elim _ _) = _
    rw [show inorder t.1 = [] from ht]
    rfl
  last_concat t l a ht := by
    show ((inorder t.1).getLast?.elim _ _) = _
    rw [show inorder t.1 = l ++ [a] from ht, List.getLast?_concat]
    rfl
  next_mid t pre a b post hnd ht := by
    show ((nextIn (inorder t.1) a).elim _ _) = _
    have ht' : inorder t.1 = pre ++ a :: b :: post := ht
    rw [ht', nextIn_append (ht ▸ hnd)]
    rfl
  next_end t l a hnd ht := by
    show ((nextIn (inorder t.1) a).elim _ _) = _
    have ht' : inorder t.1 = l ++ [a] := ht
    rw [ht', nextIn_append (ht ▸ hnd)]
    rfl
  prev_mid t pre a b post hnd ht := by
    have ht' : inorder t.1 = (pre ++ [a]) ++ b :: post := by
      rw [List.append_assoc]
      exact ht
    show ((prevIn (inorder t.1) b).elim _ _) = _
    rw [ht', prevIn_append (ht' ▸ hnd), List.getLast?_concat]
    rfl
  prev_start t a l hnd ht := by
    show ((prevIn (inorder t.1) a).elim _ _) = _
    have ht' : inorder t.1 = [] ++ a :: l := ht
    rw [ht', prevIn_append (ht' ▸ hnd)]
    rfl

/-! ### Rings -/

/-- Rings over a table of links. -/
def list : RockList P where
  Heap := Links P
  nodeInit h a := .ok ⟨Function.update h.succ a a, Function.update h.pred a a⟩
  next h a := .ok (h.succ a)
  prev h a := .ok (h.pred a)
  insertBefore h a v := .ok
    ⟨fun x => if x = v then a else if x = h.pred a then v else h.succ x,
      fun x => if x = v then h.pred a else if x = a then v else h.pred x⟩
  remove h v := .ok
    ⟨fun x => if x = v then v else if x = h.pred v then h.succ v else h.succ x,
      fun x => if x = v then v else if x = h.succ v then h.pred v else h.pred x⟩
  links := id

/-- Every node is a ring of its own. -/
def alone : Links P := ⟨id, id⟩

theorem list_lawful : (list : RockList P).Lawful where
  next_ok _ _ := rfl
  prev_ok _ _ := rfl
  nodeInit_ok h a := by
    refine ⟨_, rfl, ⟨Function.update_self .., Function.update_self ..⟩, ?_⟩
    intro x hx
    exact ⟨Function.update_of_ne hx .., Function.update_of_ne hx ..⟩
  insertBefore_ok _ _ _ := ⟨_, rfl⟩
  insertBefore_alone h a v h' _ _ _ he := by
    obtain rfl := Except.ok.inj he
    exact ⟨fun _ => rfl, fun _ => rfl⟩
  remove_ok _ _ := ⟨_, rfl⟩
  remove_ring h v h' _ _ he := by
    obtain rfl := Except.ok.inj he
    exact ⟨fun _ => rfl, fun _ => rfl⟩

/-! ### Arithmetic -/

/-- `uintmax_t` of 64 bits. -/
def seagrass : Seagrass where
  uintmaxMax := 2 ^ 64 - 1
  add a b := if a + b ≤ 2 ^ 64 - 1 then .ok (a + b) else .error .seagrassResultIsInconsistent
  subtract a b := if b ≤ a then .ok (a - b) else .error .seagrassResultIsInconsistent

theorem seagrass_lawful : seagrass.Lawful where
  add_ok _ _ h := if_pos h
  add_error _ _ h := if_neg (Nat.not_le.2 h)
  subtract_ok _ _ h := if_pos h

/-! ### Comparisons -/

/-- Numbers in their order. -/
def compare (_ : Unit) (a b : Nat) : Int := a - b

theorem compare_total : TotalPreorder (compare ()) where
  swap a b := by unfold compare; omega
  trans a b c := by unfold compare; omega

end Coral.Reference
