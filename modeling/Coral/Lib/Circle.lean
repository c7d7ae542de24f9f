import Mathlib.Data.List.Cycle
import Mathlib.Logic.Function.Basic
import Coral.Lib.Places

/-!
# Circular doubly linked rings

`Links P` gives every node its two neighbours. `Ring h l`: following the links from the first node
of `l` goes through `l` once and comes back to it. `Splice` and `Unlink` say what linking a node in
front of another and taking a node out do to the links; `Ring.splice` and `Ring.unlink` what they do
to the ring.

`Rings pool h seq` is a family of such rings over one pool of nodes: no node is in two of them, and
a node of the pool that is in none is a ring of its own. The rules `Rings.splice`,
`Rings.splice_end`, `Rings.start` and `Rings.unlink` change one ring and keep the others.
-/

/-- The neighbours of every node. -/
structure Links (P : Type) where
  succ : P → P
  pred : P → P

namespace Links
open List Places

variable {P : Type} {h h' : Links P} {a v x y z : P} {l l' pre post : List P}

/-- Going around from the head of `l` visits `l` in both directions. -/
def Ring (h : Links P) (l : List P) : Prop := (l : Cycle P).Chain fun x y => h.succ x = y ∧ h.pred y = x

/-- `x` is a ring of its own. -/
def Alone (h : Links P) (x : P) : Prop := h.succ x = x ∧ h.pred x = x

/-- `h'` is `h` with `v` linked in front of `a`. -/
structure Splice [DecidableEq P] (h h' : Links P) (a v : P) : Prop where
  succ : ∀ x, h'.succ x = if x = v then a else if x = h.pred a then v else h.succ x
  pred : ∀ x, h'.pred x = if x = v then h.pred a else if x = a then v else h.pred x

/-- `h'` is `h` with `v` taken out of its ring. -/
structure Unlink [DecidableEq P] (h h' : Links P) (v : P) : Prop where
  succ : ∀ x, h'.succ x = if x = v then v else if x = h.pred v then h.succ v else h.succ x
  pred : ∀ x, h'.pred x = if x = v then v else if x = h.succ v then h.pred v else h.pred x

namespace Ring

theorem nil : Ring h [] := Cycle.Chain.nil _

theorem singleton : Ring h [x] ↔ Alone h x := Cycle.chain_singleton _ x

theorem cons_iff : Ring h (a :: l) ↔ IsChain (fun x y => h.succ x = y ∧ h.pred y = x) (a :: (l ++ [a])) :=
  Iff.rfl

theorem rotate (hr : Ring h l) (hl : l ~r l') : Ring h l' := by
  unfold Ring at hr ⊢
  rwa [← Cycle.coe_eq_coe.2 hl]

theorem swap_iff : Ring h (pre ++ post) ↔ Ring h (post ++ pre) :=
  ⟨fun hr => hr.rotate isRotated_append, fun hr => hr.rotate isRotated_append⟩

/-- Neighbours in `l` are linked. -/
theorem link (hr : Ring h (pre ++ x :: y :: post)) : h.succ x = y ∧ h.pred y = x := by
  rw [swap_iff, cons_append, cons_append, cons_iff, cons_append] at hr
  exact (isChain_cons_cons.1 hr).1

theorem close (hr : Ring h l) (ha : l.head? = some a) (hz : l.getLast? = some z) :
    h.succ z = a ∧ h.pred a = z := by
  cases l with
  | nil => simp at ha
  | cons b l =>
    obtain rfl : b = a := by simpa using ha
    rw [cons_iff, ← cons_append, isChain_append] at hr
    exact hr.2.2 z hz b rfl

theorem succ_mem (hr : Ring h l) (hx : x ∈ l) : h.succ x ∈ l := by
  obtain ⟨pre, post, rfl⟩ := append_of_mem hx
  cases post with
  | cons y post => simp [hr.link.1]
  | nil =>
    obtain ⟨a, ha⟩ : ∃ a, (pre ++ [x]).head? = some a := by cases pre <;> simp
    rw [(hr.close ha getLast?_concat).1]
    exact mem_of_mem_head? ha

theorem pred_mem (hr : Ring h l) (hx : x ∈ l) : h.pred x ∈ l := by
  obtain ⟨pre, post, rfl⟩ := append_of_mem hx
  rcases eq_nil_or_concat pre with rfl | ⟨pre, y, rfl⟩
  · obtain ⟨z, hz⟩ := exists_getLast? (cons_ne_nil x post)
    rw [nil_append, (hr.close rfl hz).2]
    exact mem_of_getLast? hz
  · have hr' : Ring h (pre ++ y :: x :: post) := by simpa using hr
    simp [hr'.link.2]

theorem succ_pred (hr : Ring h l) (hx : x ∈ l) : h.succ (h.pred x) = x := by
  obtain ⟨pre, post, rfl⟩ := append_of_mem hx
  rcases eq_nil_or_concat pre with rfl | ⟨pre, y, rfl⟩
  · obtain ⟨z, hz⟩ := exists_getLast? (cons_ne_nil x post)
    have hzx := Ring.close (a := x) hr rfl hz
    rw [hzx.2, hzx.1]
  · have hr' : Ring h (pre ++ y :: x :: post) := by simpa using hr
    rw [hr'.link.2, hr'.link.1]

theorem pred_succ (hr : Ring h l) (hx : x ∈ l) : h.pred (h.succ x) = x := by
  obtain ⟨pre, post, rfl⟩ := append_of_mem hx
  cases post with
  | cons y post => rw [hr.link.1, hr.link.2]
  | nil =>
    obtain ⟨a, ha⟩ : ∃ a, (pre ++ [x]).head? = some a := by cases pre <;> simp
    have hax := hr.close ha getLast?_concat
    rw [hax.1, hax.2]

/-- A ring depends on the links of its own nodes only. -/
theorem congr (hr : Ring h l) (hl : ∀ x ∈ l, h'.succ x = h.succ x ∧ h'.pred x = h.pred x) :
    Ring h' l := by
  cases l with
  | nil => exact nil
  | cons a l =>
    rw [cons_iff] at hr ⊢
    refine hr.imp_of_mem_imp ?_
    intro x y hx hy hxy
    have hx' : x ∈ a :: l := by simpa [or_comm] using hx
    have hy' : y ∈ a :: l := by simpa [or_comm] using hy
    rw [(hl x hx').1, (hl y hy').2]
    exact hxy

section update
variable [DecidableEq P]

/-- Linking `v` in front of the head puts it at the end. -/
theorem splice (hr : Ring h (a :: l)) (hnd : (a :: l).Nodup) (hv : v ∉ a :: l) (hs : Splice h h' a v) :
    Ring h' (a :: l ++ [v]) := by
  obtain ⟨z, hz⟩ := exists_getLast? (cons_ne_nil a l)
  have hza := hr.close rfl hz
  have hva : a ≠ v := fun e => hv (by simp [e])
  have hvz : z ≠ v := fun e => hv (e ▸ mem_of_getLast? hz)
  rw [cons_iff, ← cons_append, isChain_append] at hr
  show IsChain _ (a :: (l ++ [v] ++ [a]))
  rw [append_assoc, ← cons_append, isChain_append]
  refine ⟨isChain_iff_forall_rel_of_append_cons_cons.2 ?_, ?_, ?_⟩
  · intro x y l₁ l₂ hl
    -- inside the old ring nothing changes: `x` is not its last node, `y` not its first
    have hxy := isChain_iff_forall_rel_of_append_cons_cons.1 hr.1 hl
    have hx : x ≠ v := fun e => hv (by simp [hl, e])
    have hy : y ≠ v := fun e => hv (by simp [hl, e])
    rw [hs.succ, hs.pred, if_neg hx, hza.2, if_neg (ne_last hnd hl hz), if_neg hy,
      if_neg (ne_first hnd hl rfl)]
    exact hxy
  · rw [singleton_append, isChain_pair, hs.succ, hs.pred, if_pos rfl, if_neg hva, if_pos rfl]
    exact ⟨rfl, rfl⟩
  · intro x hx y hy
    obtain rfl : z = x := by simpa [hz] using hx
    obtain rfl : v = y := by simpa using hy
    rw [hs.succ, hs.pred, if_neg hvz, if_pos hza.2.symm, if_pos rfl]
    exact ⟨rfl, hza.2⟩

theorem unlink (hr : Ring h (a :: l)) (hnd : (a :: l).Nodup) (hu : Unlink h h' a) :
    Ring h' l ∧ Alone h' a := by
  refine ⟨?_, by rw [hu.succ, if_pos rfl], by rw [hu.pred, if_pos rfl]⟩
  cases l with
  | nil => exact nil
  | cons b l =>
    obtain ⟨z, hz⟩ := exists_getLast? (cons_ne_nil b l)
    have hza := hr.close (a := a) rfl (by simpa using hz)
    have hab : h.succ a = b ∧ h.pred b = a := (show Ring h ([] ++ a :: b :: l) from hr).link
    obtain ⟨ha, hnd'⟩ := nodup_cons.1 hnd
    have hba : b ≠ a := fun e => ha (by simp [e])
    have hne : z ≠ a := fun e => ha (e ▸ mem_of_getLast? hz)
    have hch : IsChain (fun x y => h.succ x = y ∧ h.pred y = x) (b :: l) := by
      rw [cons_iff, cons_append, isChain_cons_cons, ← cons_append, isChain_append] at hr
      exact hr.2.1
    rw [cons_iff, ← cons_append, isChain_append]
    refine ⟨isChain_iff_forall_rel_of_append_cons_cons.2 ?_, by simp, ?_⟩
    · intro x y l₁ l₂ hl
      have hxy := isChain_iff_forall_rel_of_append_cons_cons.1 hch hl
      have hx : x ≠ a := fun e => ha (by simp [hl, e])
      have hy : y ≠ a := fun e => ha (by simp [hl, e])
      rw [hu.succ, hu.pred, if_neg hx, if_neg hy, hza.2, hab.1, if_neg (ne_last hnd' hl hz),
        if_neg (ne_first hnd' hl rfl)]
      exact hxy
    · intro x hx y hy
      obtain rfl : z = x := by simpa [hz] using hx
      obtain rfl : b = y := by simpa using hy
      rw [hu.succ, hu.pred, if_neg hne, if_pos hza.2.symm, if_neg hba, if_pos hab.1.symm]
      exact ⟨hab.1, hza.2⟩

end update

end Ring

/-- `seq` lists disjoint rings over the nodes of `pool`; the nodes in none of them are alone. -/
structure Rings {ι : Type} (pool : P → Prop) (h : Links P) (seq : ι → List P) : Prop where
  ring : ∀ i, Ring h (seq i)
  nodup : ∀ i, (seq i).Nodup
  disjoint : ∀ i j x, x ∈ seq i → x ∈ seq j → i = j
  alone : ∀ x, pool x → (∀ i, x ∉ seq i) → Alone h x

namespace Rings
variable {ι : Type} [DecidableEq ι] {pool : P → Prop} {seq : ι → List P} {i : ι}

/-- Change one ring: its new nodes were free, the other rings keep their links. -/
theorem update (hr : Rings pool h seq) (hring : Ring h' l') (hnd : l'.Nodup)
    (hmem : ∀ x ∈ l', x ∈ seq i ∨ ∀ j, x ∉ seq j)
    (hframe : ∀ x, x ∉ l' → x ∉ seq i → h'.succ x = h.succ x ∧ h'.pred x = h.pred x)
    (hleft : ∀ x ∈ seq i, x ∉ l' → Alone h' x) :
    Rings pool h' (Function.update seq i l') := by
  -- a node of another ring is neither in the old nor in the new ring `i`
  have hother : ∀ {j x}, j ≠ i → x ∈ seq j → x ∉ l' ∧ x ∉ seq i := fun {j x} hj hx =>
    ⟨fun hx' => (hmem x hx').elim (fun h => hj (hr.disjoint j i x hx h)) (fun h => h j hx),
      fun hx' => hj (hr.disjoint j i x hx hx')⟩
  refine ⟨?_, ?_, ?_, ?_⟩
  · intro j
    by_cases hj : j = i
    · subst hj; simpa using hring
    · simp only [Function.update_of_ne hj]
      exact (hr.ring j).congr fun x hx => hframe x (hother hj hx).1 (hother hj hx).2
  · intro j
    by_cases hj : j = i
    · subst hj; simpa using hnd
    · simpa only [Function.update_of_ne hj] using hr.nodup j
  · intro j₁ j₂ x h₁ h₂
    by_cases hj₁ : j₁ = i <;> by_cases hj₂ : j₂ = i
    · rw [hj₁, hj₂]
    · subst hj₁
      rw [Function.update_self] at h₁
      rw [Function.update_of_ne hj₂] at h₂
      exact absurd h₁ (hother hj₂ h₂).1
    · subst hj₂
      rw [Function.update_self] at h₂
      rw [Function.update_of_ne hj₁] at h₁
      exact absurd h₂ (hother hj₁ h₁).1
    · rw [Function.update_of_ne hj₁] at h₁
      rw [Function.update_of_ne hj₂] at h₂
      exact hr.disjoint j₁ j₂ x h₁ h₂
  · intro x hp hx
    have hxi : x ∉ l' := by simpa using hx i
    by_cases hxs : x ∈ seq i
    · exact hleft x hxs hxi
    · have hal : Alone h x := hr.alone x hp fun j hj => by
        by_cases hji : j = i
        · exact hxs (hji ▸ hj)
        · exact hx j (by simpa only [Function.update_of_ne hji] using hj)
      have hf := hframe x hxi hxs
      exact ⟨hf.1.trans hal.1, hf.2.trans hal.2⟩

theorem start (hr : Rings pool h seq) (hi : seq i = []) (hv : ∀ j, v ∉ seq j) (ha : Alone h v) :
    Rings pool h (Function.update seq i [v]) :=
  hr.update (Ring.singleton.2 ha) (nodup_singleton v)
    (fun x hx => .inr fun j hj => hv j (mem_singleton.1 hx ▸ hj)) (fun _ _ _ => ⟨rfl, rfl⟩)
    (by simp [hi])

omit [DecidableEq ι] in
theorem mono (hr : Rings pool h seq) {pool' : P → Prop} (hp : ∀ x, pool' x → pool x) :
    Rings pool' h seq :=
  ⟨hr.ring, hr.nodup, hr.disjoint, fun x hx => hr.alone x (hp x hx)⟩

omit [DecidableEq ι] in
/-- A node outside of the rings is made a ring of its own. -/
theorem enlarge (hr : Rings pool h seq) (hv : ∀ j, v ∉ seq j) (ha : Alone h' v)
    (hframe : ∀ x, x ≠ v → h'.succ x = h.succ x ∧ h'.pred x = h.pred x) :
    Rings (fun x => x = v ∨ pool x) h' seq := by
  refine ⟨fun j => (hr.ring j).congr fun x hx => hframe x fun e => hv j (e ▸ hx), hr.nodup, hr.disjoint, ?_⟩
  intro x hp hx
  by_cases hxv : x = v
  · exact hxv ▸ ha
  · have hal := hr.alone x (hp.resolve_left hxv) hx
    obtain ⟨hs, hp⟩ := hframe x hxv
    exact ⟨hs.trans hal.1, hp.trans hal.2⟩

/-- One ring is not spoken of any more. -/
theorem forget (hr : Rings pool h seq) (hout : ∀ x, pool x → x ∉ seq i) :
    Rings pool h (Function.update seq i []) := by
  have hsub : ∀ j x, x ∈ Function.update seq i [] j → x ∈ seq j := by
    intro j x hx
    by_cases hji : j = i
    · subst hji
      simp at hx
    · rwa [Function.update_of_ne hji] at hx
  refine ⟨fun j => ?_, fun j => ?_, fun j k x hj hk => hr.disjoint j k x (hsub j x hj) (hsub k x hk), ?_⟩
  · rw [Function.update_apply]
    split
    · exact Ring.nil
    · exact hr.ring j
  · rw [Function.update_apply]
    split
    · exact nodup_nil
    · exact hr.nodup j
  · refine fun x hp hx => hr.alone x hp fun j hj => ?_
    by_cases hji : j = i
    · exact hout x hp (hji ▸ hj)
    · exact hx j (by rwa [Function.update_of_ne hji])

section splice
variable [DecidableEq P]

/-- Linking a free node in front of `a` anywhere in the ring. -/
theorem splice_rotated (hr : Rings pool h seq) (hi : seq i ~r a :: l) (hv : ∀ j, v ∉ seq j)
    (hs : Splice h h' a v) (hl : a :: l ++ [v] ~r l') : Rings pool h' (Function.update seq i l') := by
  have hmem : ∀ x, x ∈ l' ↔ x ∈ seq i ∨ x = v := fun x => by
    rw [← hl.mem_iff, hi.mem_iff]; simp [or_assoc]
  have hnd : (a :: l).Nodup := hi.nodup_iff.1 (hr.nodup i)
  have hring : Ring h (a :: l) := (hr.ring i).rotate hi
  have hv' : v ∉ a :: l := fun hv' => hv i (hi.mem_iff.2 hv')
  refine hr.update ((hring.splice hnd hv' hs).rotate hl) (hl.nodup_iff.1 ?_) (fun x hx => ?_)
    (fun x hx hxi => ?_) (fun x hx hx' => absurd ((hmem x).2 (.inl hx)) hx')
  · exact nodup_append.2 ⟨hnd, nodup_singleton v, fun x hx y hy => by
      rintro rfl; exact hv' (mem_singleton.1 hy ▸ hx)⟩
  · rcases (hmem x).1 hx with hx | rfl
    exacts [.inl hx, .inr hv]
  · have hxv : x ≠ v := fun e => hx ((hmem x).2 (.inr e))
    have hxa : x ≠ a := fun e => hxi (hi.mem_iff.2 (by simp [e]))
    have hxp : x ≠ h.pred a := fun e => hxi (e ▸ (hr.ring i).pred_mem (hi.mem_iff.2 (by simp)))
    rw [hs.succ, hs.pred, if_neg hxv, if_neg hxp, if_neg hxv, if_neg hxa]
    exact ⟨rfl, rfl⟩

theorem splice (hr : Rings pool h seq) (hi : seq i = pre ++ a :: post) (hv : ∀ j, v ∉ seq j)
    (hs : Splice h h' a v) : Rings pool h' (Function.update seq i (pre ++ v :: a :: post)) :=
  hr.splice_rotated (l := post ++ pre) (hi ▸ isRotated_append) hv hs (by
    have := (isRotated_append : (a :: post) ++ (pre ++ [v]) ~r (pre ++ [v]) ++ (a :: post))
    simpa using this)

theorem splice_end (hr : Rings pool h seq) (hi : seq i = a :: l) (hv : ∀ j, v ∉ seq j)
    (hs : Splice h h' a v) : Rings pool h' (Function.update seq i (a :: l ++ [v])) :=
  hr.splice_rotated (hi ▸ .refl _) hv hs (.refl _)

theorem unlink (hr : Rings pool h seq) (hi : seq i = pre ++ a :: post) (hu : Unlink h h' a) :
    Rings pool h' (Function.update seq i (pre ++ post)) := by
  have hrot : seq i ~r a :: (post ++ pre) := hi ▸ isRotated_append
  have hnd : (a :: (post ++ pre)).Nodup := hrot.nodup_iff.1 (hr.nodup i)
  obtain ⟨hring, halone⟩ := ((hr.ring i).rotate hrot).unlink hnd hu
  have ha : a ∈ seq i := by simp [hi]
  have hmem : ∀ x, x ∈ seq i ↔ x = a ∨ x ∈ pre ++ post := fun x => by
    rw [hrot.mem_iff, mem_cons, mem_append, mem_append, or_comm (a := x ∈ post)]
  refine hr.update (hring.rotate isRotated_append) (isRotated_append.nodup_iff.1 (nodup_cons.1 hnd).2)
    (fun x hx => .inl ((hmem x).2 (.inr hx))) (fun x hx hxi => ?_) (fun x hx hx' => ?_)
  · have hxa : x ≠ a := fun e => hxi (e ▸ ha)
    have hxs : x ≠ h.succ a := fun e => hxi (e ▸ (hr.ring i).succ_mem ha)
    have hxp : x ≠ h.pred a := fun e => hxi (e ▸ (hr.ring i).pred_mem ha)
    rw [hu.succ, hu.pred, if_neg hxa, if_neg hxp, if_neg hxa, if_neg hxs]
    exact ⟨rfl, rfl⟩
  · obtain rfl := ((hmem x).1 hx).resolve_right hx'
    exact halone

omit [DecidableEq ι] in
theorem unlink_alone (hr : Rings pool h seq) (hv : Alone h v) (hu : Unlink h h' v) :
    Rings pool h' seq := by
  have hsame : ∀ x, h'.succ x = h.succ x ∧ h'.pred x = h.pred x := fun x => by
    rw [hu.succ, hu.pred, hv.1, hv.2]
    by_cases hx : x = v
    · simp [hx, hv.1, hv.2]
    · simp [hx]
  refine ⟨fun i => (hr.ring i).congr fun x _ => hsame x, hr.nodup, hr.disjoint, fun x hp hx => ?_⟩
  have hal := hr.alone x hp hx
  exact ⟨(hsame x).1.trans hal.1, (hsame x).2.trans hal.2⟩

end splice

end Rings

end Links
