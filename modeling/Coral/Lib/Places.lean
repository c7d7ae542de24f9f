import Mathlib.Data.List.Nodup

/-!
# Places in a list without repetition

In a list without repetition a member is at one place only, so the list reads `pre ++ a :: post` in
one way. `insertBefore a v` puts `v` at the place of `a`.
-/

namespace Places

variable {P : Type} {a v x y z : P} {l l₁ l₂ pre post pre' post' : List P}

theorem not_mem_pre (hnd : (pre ++ a :: post).Nodup) : a ∉ pre := fun ha =>
  (List.nodup_append.1 hnd).2.2 a ha a (List.mem_cons_self ..) rfl

theorem not_mem_post (hnd : (pre ++ a :: post).Nodup) : a ∉ post :=
  (List.nodup_cons.1 (List.nodup_append.1 hnd).2.1).1

theorem mid_inj (hnd : (pre ++ a :: post).Nodup) (h : pre ++ a :: post = pre' ++ a :: post') :
    pre = pre' ∧ post = post' := by
  simpa using (List.append_cons_inj_of_notMem (not_mem_pre hnd) (not_mem_post hnd)).1 h

theorem exists_getLast? (hl : l ≠ []) : ∃ z, l.getLast? = some z :=
  ⟨_, List.getLast?_eq_some_getLast hl⟩

theorem ne_last (hnd : l.Nodup) (hl : l = l₁ ++ x :: y :: l₂) (hz : l.getLast? = some z) : x ≠ z := by
  rintro rfl
  subst hl
  have hy : (y :: l₂).getLast? = some x := by simpa using hz
  exact not_mem_post hnd (List.mem_of_getLast? hy)

theorem ne_first (hnd : l.Nodup) (hl : l = l₁ ++ x :: y :: l₂) (ha : l.head? = some a) : y ≠ a := by
  rintro rfl
  rw [hl, List.append_cons] at hnd
  refine not_mem_pre hnd (List.mem_of_mem_head? ?_)
  rw [hl] at ha
  cases l₁ <;> simpa using ha

theorem head?_ne {b : P} (hnd : (b :: pre ++ a :: post).Nodup) : (b :: pre ++ a :: post).head? ≠ some a := by
  intro e
  exact not_mem_pre hnd (by simp [Option.some.inj e.symm])

variable [DecidableEq P]

/-- The head of a list after `v` is put right before `a`. -/
theorem head?_before (hnd : (pre ++ a :: post).Nodup) (v : P) :
    (if (pre ++ a :: post).head? = some a then some v else (pre ++ a :: post).head?) =
      (pre ++ v :: a :: post).head? := by
  cases pre with
  | nil => exact if_pos rfl
  | cons b pre => exact if_neg (head?_ne hnd)

theorem erase_mid (hnd : (pre ++ a :: post).Nodup) : (pre ++ a :: post).erase a = pre ++ post := by
  rw [List.erase_append_right _ (not_mem_pre hnd), List.erase_cons_head]

/-- The member right after `a`. -/
def follower (a : P) (l : List P) : Option P := (l.dropWhile fun b => b ≠ a).tail.head?

theorem follower_mid (hnd : (pre ++ a :: post).Nodup) : follower a (pre ++ a :: post) = post.head? := by
  have hpre : ∀ b ∈ pre, (decide (b ≠ a)) = true := fun b hb =>
    decide_eq_true fun e => not_mem_pre hnd (e ▸ hb)
  rw [follower, List.dropWhile_append_of_pos hpre]
  simp

theorem follower_reverse (hnd : (pre ++ a :: post).Nodup) :
    follower a (pre ++ a :: post).reverse = pre.getLast? := by
  have hrev : (pre ++ a :: post).reverse = post.reverse ++ a :: pre.reverse := by simp
  rw [hrev, follower_mid (hrev ▸ List.nodup_reverse.2 hnd), List.head?_reverse]

/-- `l` with `v` right before `a`. -/
def insertBefore (a v : P) : List P → List P
  | [] => []
  | b :: l => if b = a then v :: b :: l else b :: insertBefore a v l

theorem insertBefore_mid (ha : a ∉ pre) :
    insertBefore a v (pre ++ a :: post) = pre ++ v :: a :: post := by
  induction pre with
  | nil => simp [insertBefore]
  | cons b pre ih =>
    have hb : b ≠ a := fun e => ha (by simp [e])
    have := ih fun h => ha (List.mem_cons_of_mem _ h)
    simpa [insertBefore, hb] using this

theorem perm_insertBefore (ha : a ∈ l) : (insertBefore a v l).Perm (v :: l) := by
  induction l with
  | nil => cases ha
  | cons b l ih =>
    by_cases hb : b = a
    · rw [insertBefore, if_pos hb]
    · rw [insertBefore, if_neg hb]
      exact ((ih ((List.mem_cons.1 ha).resolve_left (Ne.symm hb))).cons b).trans (.swap v b l)

end Places
