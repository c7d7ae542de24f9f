import Mathlib.Data.Tree.Basic
import Coral.Lib.Ask
import Coral.Lib.Places
import Coral.Lib.ThreeWay

/-!
# Where a search in a binary tree ends

`descend k` walks a binary tree from its root, asking how `k` compares with each node it visits, and
ends on an equal node or reports the last node visited. `descend_spec`: in a tree whose in-order
sequence is ascending, a missed search ends on an in-order neighbour of `k`, on a node with an empty
place on the side `k` belongs to. `descend_lands`: whatever the answers are, it ends on a node with an
empty place on the side of the last answer. `hang` puts a node in such a place; `hang_before` and
`hang_after` say where that puts it in the in-order sequence.
-/

namespace SearchTree
open Places ThreeWay

variable {P : Type}

def inorder : BinaryTree P → List P
  | .nil => []
  | .node a l r => inorder l ++ a :: inorder r

@[simp] theorem inorder_nil : inorder (.nil : BinaryTree P) = [] := rfl

@[simp] theorem inorder_node (a : P) (l r : BinaryTree P) :
    inorder (.node a l r) = inorder l ++ a :: inorder r := rfl

theorem inorder_eq_nil {t : BinaryTree P} : inorder t = [] ↔ t = .nil := by
  cases t <;> simp

/-- How a search ends. -/
inductive Found (P : Type) where
  | hit (a : P)
  | miss (last : Option P)

/-- Search for `k` below `last`. -/
def descend (k : P) : Option P → BinaryTree P → Ask P (Found P)
  | last, .nil => .done (.miss last)
  | _, .node a l r => .ask k a fun c =>
      if c < 0 then descend k (some a) l
      else if 0 < c then descend k (some a) r
      else .done (.hit a)

section place
variable [DecidableEq P]

/-- The subtree with root `p`; empty when `p` is not in the tree. -/
def subtree (p : P) : BinaryTree P → BinaryTree P
  | .nil => .nil
  | .node a l r => if a = p then .node a l r else if p ∈ inorder l then subtree p l else subtree p r

/-- Hang `n` under `p`, on the left when `c < 0` and else on the right, if that place is empty. -/
def hang (p n : P) (c : Int) : BinaryTree P → Option (BinaryTree P)
  | .nil => none
  | .node a l r =>
      if a = p then
        if c < 0 then
          if inorder l = [] then some (.node a (.node n .nil .nil) r) else none
        else
          if inorder r = [] then some (.node a l (.node n .nil .nil)) else none
      else if p ∈ inorder l then (hang p n c l).map fun l' => .node a l' r
      else (hang p n c r).map fun r' => .node a l r'

variable {a p n : P} {c : Int} {l r t : BinaryTree P} {pre post : List P}

theorem subtree_root : subtree a (.node a l r) = .node a l r := by simp [subtree]

theorem subtree_left (ha : a ≠ p) (hp : p ∈ inorder l) : subtree p (.node a l r) = subtree p l := by
  simp [subtree, ha, hp]

theorem subtree_right (ha : a ≠ p) (hp : p ∉ inorder l) : subtree p (.node a l r) = subtree p r := by
  simp [subtree, ha, hp]

theorem subtree_node (hp : p ∈ inorder t) : ∃ l r, subtree p t = .node p l r := by
  induction t with
  | nil => simp at hp
  | node a l r ihl ihr =>
    by_cases ha : a = p
    · subst ha
      exact ⟨l, r, subtree_root⟩
    by_cases hl : p ∈ inorder l
    · rw [subtree_left ha hl]
      exact ihl hl
    · rw [subtree_right ha hl]
      exact ihr (by simpa [hl, Ne.symm ha] using hp)

/-- Hanging a node under `p` changes the subtree of `p` and keeps what is around it. -/
theorem hang_subtree (n : P) (c : Int) (hp : p ∈ inorder t) : ∃ pre post,
    inorder t = pre ++ inorder (subtree p t) ++ post ∧
    ∀ s, hang p n c (subtree p t) = some s →
      ∃ t', hang p n c t = some t' ∧ inorder t' = pre ++ inorder s ++ post := by
  induction t with
  | nil => simp at hp
  | node a l r ihl ihr =>
    by_cases ha : a = p
    · subst ha
      rw [subtree_root]
      exact ⟨[], [], by simp, fun s hs => ⟨s, hs, by simp⟩⟩
    by_cases hl : p ∈ inorder l
    · rw [subtree_left ha hl]
      obtain ⟨pre, post, h₁, h₂⟩ := ihl hl
      refine ⟨pre, post ++ a :: inorder r, by simp [h₁], ?_⟩
      intro s hs
      obtain ⟨l', h₃, h₄⟩ := h₂ s hs
      exact ⟨.node a l' r, by simp [hang, ha, hl, h₃], by simp [h₄]⟩
    · rw [subtree_right ha hl]
      obtain ⟨pre, post, h₁, h₂⟩ := ihr (by simpa [hl, Ne.symm ha] using hp)
      refine ⟨inorder l ++ a :: pre, post, by simp [h₁], ?_⟩
      intro s hs
      obtain ⟨r', h₃, h₄⟩ := h₂ s hs
      exact ⟨.node a l r', by simp [hang, ha, hl, h₃], by simp [h₄]⟩

/-- Hanging `n` in the empty place left of `p` puts it right before `p`. -/
theorem hang_before (hnd : (inorder t).Nodup) (ht : inorder t = pre ++ p :: post)
    (he : (subtree p t).left = .nil) (hc : c < 0) :
    ∃ t', hang p n c t = some t' ∧ inorder t' = pre ++ n :: p :: post := by
  obtain ⟨l, r, hs⟩ := subtree_node (by simp [ht] : p ∈ inorder t)
  obtain ⟨pre', post', h₁, h₂⟩ := hang_subtree n c (by simp [ht] : p ∈ inorder t)
  rw [hs] at he h₁ h₂
  obtain rfl : l = .nil := he
  obtain ⟨t', h₃, h₄⟩ := h₂ (.node p (.node n .nil .nil) r) (by simp [hang, hc])
  have h₅ : inorder t = pre' ++ p :: (inorder r ++ post') := by simp [h₁]
  obtain ⟨rfl, rfl⟩ := mid_inj (h₅ ▸ hnd) (h₅ ▸ ht)
  exact ⟨t', h₃, by simp [h₄]⟩

theorem hang_after (hnd : (inorder t).Nodup) (ht : inorder t = pre ++ p :: post)
    (he : (subtree p t).right = .nil) (hc : 0 < c) :
    ∃ t', hang p n c t = some t' ∧ inorder t' = pre ++ p :: n :: post := by
  have hc' : ¬ c < 0 := by omega
  obtain ⟨l, r, hs⟩ := subtree_node (by simp [ht] : p ∈ inorder t)
  obtain ⟨pre', post', h₁, h₂⟩ := hang_subtree n c (by simp [ht] : p ∈ inorder t)
  rw [hs] at he h₁ h₂
  obtain rfl : r = .nil := he
  obtain ⟨t', h₃, h₄⟩ := h₂ (.node p l (.node n .nil .nil)) (by simp [hang, hc'])
  have h₅ : inorder t = (pre' ++ inorder l) ++ p :: post' := by simp [h₁]
  obtain ⟨rfl, rfl⟩ := mid_inj (h₅ ▸ hnd) (h₅ ▸ ht)
  exact ⟨t', h₃, by simp [h₄]⟩

end place

section search
variable [DecidableEq P] {cmp : P → P → Int} {k : P}

/-- How the search for `k` in a tree ends, and what this says about the tree. -/
inductive Ends (cmp : P → P → Int) (k : P) (last : Option P) (t : BinaryTree P) : Found P → Prop
  | hit (pre post : List P) (a : P) (ht : inorder t = pre ++ a :: post) (hk : cmp k a = 0) :
      Ends cmp k last t (.hit a)
  | empty (ht : t = .nil) : Ends cmp k last t (.miss last)
  /-- The last node visited is the successor of `k`. -/
  | below (pre post : List P) (p : P) (ht : inorder t = pre ++ p :: post) (hpre : ∀ a ∈ pre, 0 < cmp k a)
      (hp : cmp k p < 0) (hpost : ∀ a ∈ post, cmp k a < 0) (hfree : (subtree p t).left = .nil) :
      Ends cmp k last t (.miss (some p))
  /-- The last node visited is the predecessor of `k`; a successor is then above it in the tree. -/
  | above (pre post : List P) (p : P) (ht : inorder t = pre ++ p :: post) (hpre : ∀ a ∈ pre, 0 < cmp k a)
      (hp : 0 < cmp k p) (hpost : ∀ a ∈ post, cmp k a < 0) (hfree : (subtree p t).right = .nil)
      (hsucc : ∀ s ∈ post.head?, (subtree s t).left ≠ .nil) : Ends cmp k last t (.miss (some p))

namespace Ends
variable {a : P} {l r : BinaryTree P} {f : Found P} {last : Option P}

theorem node_left (hc : TotalPreorder cmp) (hs : Ascending cmp (inorder (.node a l r))) (hka : cmp k a < 0)
    (h : Ends cmp k (some a) l f) : Ends cmp k last (.node a l r) f := by
  have hr : ∀ b ∈ a :: inorder r, cmp k b < 0 := by
    intro b hb
    rcases List.mem_cons.1 hb with rfl | hb
    · exact hka
    · exact hc.lt_trans hka (hs.mid_lt hb)
  have hne : ∀ {b}, b ∈ inorder l → a ≠ b := fun hb he => by
    subst he
    have := hs.lt_mid hb
    have := hc.refl a
    omega
  cases h with
  | hit pre post b ht hk => exact .hit pre (post ++ a :: inorder r) b (by simp [ht]) hk
  | empty ht => subst ht; exact .below [] _ a rfl (by simp) hka (fun b hb => hr b (by simp [hb])) (by
      rw [subtree_root]; rfl)
  | below pre post p ht hpre hp hpost hfree =>
    have hpl : p ∈ inorder l := by simp [ht]
    exact .below pre (post ++ a :: inorder r) p (by simp [ht]) hpre hp
      (List.forall_mem_append.2 ⟨hpost, hr⟩) (by rwa [subtree_left (hne hpl) hpl])
  | above pre post p ht hpre hp hpost hfree hsucc =>
    have hpl : p ∈ inorder l := by simp [ht]
    refine .above pre (post ++ a :: inorder r) p (by simp [ht]) hpre hp
      (List.forall_mem_append.2 ⟨hpost, hr⟩) (by rwa [subtree_left (hne hpl) hpl]) ?_
    intro s hsm
    cases post with
    | nil =>
      -- the successor is the root, whose left subtree holds the predecessor
      obtain rfl : a = s := by simpa using hsm
      rw [subtree_root]
      rintro rfl
      simp at hpl
    | cons b post =>
      obtain rfl : b = s := by simpa using hsm
      have hbl : b ∈ inorder l := by simp [ht]
      rw [subtree_left (hne hbl) hbl]
      exact hsucc b (by simp)

theorem node_right (hc : TotalPreorder cmp) (hs : Ascending cmp (inorder (.node a l r)))
    (hka : 0 < cmp k a) (h : Ends cmp k (some a) r f) : Ends cmp k last (.node a l r) f := by
  have hl : ∀ b ∈ inorder l, 0 < cmp k b := by
    intro b hb
    have hak := (hc.swap a k).2 hka
    exact (hc.swap b k).1 (hc.lt_trans (hs.lt_mid hb) hak)
  have hupto : ∀ {pre : List P}, (∀ b ∈ pre, 0 < cmp k b) → ∀ b ∈ inorder l ++ a :: pre, 0 < cmp k b :=
    fun hpre => List.forall_mem_append.2 ⟨hl, List.forall_mem_cons.2 ⟨hka, hpre⟩⟩
  have hne : ∀ {b}, b ∈ inorder r → a ≠ b := fun hb he => by
    subst he
    have := hs.mid_lt hb
    have := hc.refl a
    omega
  have hnl : ∀ {b}, b ∈ inorder r → b ∉ inorder l := fun hb hb' => by
    have := (ascending_append.1 hs).2.2 _ hb' _ (List.mem_cons_of_mem _ hb)
    have := hc.refl
    simp_all
  cases h with
  | hit pre post b ht hk => exact .hit (inorder l ++ a :: pre) post b (by simp [ht]) hk
  | empty ht =>
    subst ht
    exact .above (inorder l) [] a rfl hl hka (by simp) (by rw [subtree_root]; rfl) (by simp)
  | below pre post p ht hpre hp hpost hfree =>
    have hpr : p ∈ inorder r := by simp [ht]
    exact .below (inorder l ++ a :: pre) post p (by simp [ht]) (hupto hpre) hp hpost
      (by rwa [subtree_right (hne hpr) (hnl hpr)])
  | above pre post p ht hpre hp hpost hfree hsucc =>
    have hpr : p ∈ inorder r := by simp [ht]
    refine .above (inorder l ++ a :: pre) post p (by simp [ht]) (hupto hpre) hp hpost
      (by rwa [subtree_right (hne hpr) (hnl hpr)]) ?_
    intro s hsm
    have hsr : s ∈ inorder r := by simp [ht, List.mem_of_mem_head? hsm]
    rw [subtree_right (hne hsr) (hnl hsr)]
    exact hsucc s hsm

end Ends

/-- Where a search from the root of a search tree ends. -/
theorem descend_spec (hc : TotalPreorder cmp) {t : BinaryTree P} (hs : Ascending cmp (inorder t))
    (last : Option P) : Ends cmp k last t ((descend k last t).eval cmp) := by
  induction t generalizing last with
  | nil => exact .empty rfl
  | node a l r ihl ihr =>
    have hsl : Ascending cmp (inorder l) := (ascending_append.1 hs).1
    have hsr : Ascending cmp (inorder r) := (ascending_cons.1 (ascending_append.1 hs).2.1).2
    simp only [descend, Ask.eval_ask]
    by_cases h₁ : cmp k a < 0
    · simp only [h₁, ↓reduceIte]
      exact (ihl hsl _).node_left hc hs h₁
    by_cases h₂ : 0 < cmp k a
    · simp only [h₁, h₂, ↓reduceIte]
      exact (ihr hsr _).node_right hc hs h₂
    · simp only [h₁, h₂, ↓reduceIte]
      exact .hit _ _ a (inorder_node a l r) (by omega)

/-- Where a search ends when nothing is known of the answers: on a node that was answered with `0`, or
on a node with an empty place on the side of the answer, in which `k` comes somewhere in the sequence. -/
inductive Lands (cmp : P → P → Int) (k : P) (last : Option P) (t : BinaryTree P) : Found P → Prop
  | hit (a : P) (ha : a ∈ inorder t) (hk : cmp k a = 0) : Lands cmp k last t (.hit a)
  | empty (ht : t = .nil) : Lands cmp k last t (.miss last)
  | beside (p : P) (hp : p ∈ inorder t) (hk : cmp k p ≠ 0) (pre post : List P) (s : BinaryTree P)
      (hs : hang p k (cmp k p) t = some s) (ht : inorder t = pre ++ post)
      (hi : inorder s = pre ++ k :: post) : Lands cmp k last t (.miss (some p))

namespace Lands
variable {a : P} {l r : BinaryTree P} {f : Found P} {last : Option P}

theorem node_left (hnd : (inorder (.node a l r)).Nodup) (hka : cmp k a < 0)
    (h : Lands cmp k (some a) l f) : Lands cmp k last (.node a l r) f := by
  cases h with
  | hit b hb hk => exact .hit b (by simp [hb]) hk
  | empty ht =>
    subst ht
    exact .beside a (by simp) (by omega) [] (a :: inorder r) (.node a (.node k .nil .nil) r)
      (by simp [hang, hka]) rfl rfl
  | beside p hp hk pre post s hs ht hi =>
    have hne : a ≠ p := fun e => not_mem_pre hnd (e ▸ hp)
    exact .beside p (by simp [hp]) hk pre (post ++ a :: inorder r) (.node a s r)
      (by simp [hang, hne, hp, hs]) (by simp [ht]) (by simp [hi])

theorem node_right (hnd : (inorder (.node a l r)).Nodup) (hka : 0 < cmp k a)
    (h : Lands cmp k (some a) r f) : Lands cmp k last (.node a l r) f := by
  have hka' : ¬ cmp k a < 0 := by omega
  cases h with
  | hit b hb hk => exact .hit b (by simp [hb]) hk
  | empty ht =>
    subst ht
    exact .beside a (by simp) (by omega) (inorder l ++ [a]) [] (.node a l (.node k .nil .nil))
      (by simp [hang, hka']) (by simp) (by simp)
  | beside p hp hk pre post s hs ht hi =>
    have hne : a ≠ p := fun e => not_mem_post hnd (e ▸ hp)
    have hpl : p ∉ inorder l := fun hpl =>
      (List.nodup_append.1 hnd).2.2 p hpl p (List.mem_cons_of_mem a hp) rfl
    exact .beside p (by simp [hp]) hk (inorder l ++ a :: pre) post (.node a l s)
      (by simp [hang, hne, hpl, hs]) (by simp [ht]) (by simp [hi])

end Lands

/-- Where a search from the root ends, whatever the answers are. -/
theorem descend_lands (cmp : P → P → Int) (k : P) {t : BinaryTree P} (hnd : (inorder t).Nodup)
    (last : Option P) : Lands cmp k last t ((descend k last t).eval cmp) := by
  induction t generalizing last with
  | nil => exact .empty rfl
  | node a l r ihl ihr =>
    have hndl : (inorder l).Nodup := (List.nodup_append.1 hnd).1
    have hndr : (inorder r).Nodup := (List.nodup_cons.1 (List.nodup_append.1 hnd).2.1).2
    simp only [descend, Ask.eval_ask]
    by_cases h₁ : cmp k a < 0
    · simp only [h₁, ↓reduceIte]
      exact (ihl hndl _).node_left hnd h₁
    by_cases h₂ : 0 < cmp k a
    · simp only [h₁, h₂, ↓reduceIte]
      exact (ihr hndr _).node_right hnd h₂
    · simp only [h₁, h₂, ↓reduceIte]
      exact .hit a (by simp) (by omega)

omit [DecidableEq P] in
theorem eq_nil_of_descend {k : P} {last : Option P} {t : BinaryTree P}
    (h : (descend k last t).eval cmp = .miss none) : t = .nil := by
  induction t generalizing last with
  | nil => rfl
  | node a l r ihl ihr =>
    simp only [descend, Ask.eval_ask] at h
    split at h
    · obtain rfl := ihl h
      cases h
    split at h
    · obtain rfl := ihr h
      cases h
    · cases h

end search

end SearchTree
