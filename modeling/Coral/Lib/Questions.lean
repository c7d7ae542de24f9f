import Coral.Lib.SearchTree
import Coral.Lib.Prog

/-!
# The questions of a function

`p.questions w answers` are the questions `p` asks when its callback gives `answers`, whatever these
are. `p.Asks x ok post s n`: started with the memory `s` of `x`, `p` asks at most `n` questions, each of
which is `ok`; `post` is what holds where `p` returns, of its result, the memory and the number of
questions that are left. There is one rule for each step; `Asks.questions` is
what it says about runs.
-/

namespace Ask

variable {P α β : Type} {ok : P → P → Prop} {n : Nat}

/-- At most `n` questions, all `ok`; `post` is told how many are left. -/
def Asks (ok : P → P → Prop) (post : α → Nat → Prop) : Ask P α → Nat → Prop
  | done a, n => post a n
  | ask a b k, n => ok a b ∧ ∃ m, n = m + 1 ∧ ∀ c, (k c).Asks ok post m

theorem Asks.mono {post post' : α → Nat → Prop} {ok' : P → P → Prop} {q : Ask P α} (h : q.Asks ok post n)
    (hok : ∀ a b, ok a b → ok' a b) (hpost : ∀ a m, post a m → post' a m) : q.Asks ok' post' n := by
  induction q generalizing n with
  | done a => exact hpost a n h
  | ask a b k ih =>
    obtain ⟨hab, m, hm, hk⟩ := h
    exact ⟨hok a b hab, m, hm, fun c => ih c (hk c)⟩

theorem Asks.map {post : β → Nat → Prop} {f : α → β} {q : Ask P α}
    (h : q.Asks ok (fun a => post (f a)) n) : (q.map f).Asks ok post n := by
  induction q generalizing n with
  | done a => exact h
  | ask a b k ih =>
    obtain ⟨hab, m, hm, hk⟩ := h
    exact ⟨hab, m, hm, fun c => ih c (hk c)⟩

end Ask

namespace SearchTree

variable {P : Type} {k : P}

/-- Where a search below `last` can end. -/
def EndsIn (last : Option P) (t : BinaryTree P) : Found P → Prop
  | .hit a => a ∈ inorder t
  | .miss none => t = .nil ∧ last = none
  | .miss (some p) => last = some p ∨ p ∈ inorder t

/-- A search compares its key with nodes of the tree, at most one on each level. -/
theorem descend_asks (last : Option P) (t : BinaryTree P) {n : Nat} (hn : t.height < n) :
    (descend k last t).Asks (fun a b => a = k ∧ b ∈ inorder t) (fun r m => 0 < m ∧ EndsIn last t r) n := by
  induction t generalizing last n with
  | nil =>
    refine ⟨by omega, ?_⟩
    cases last with
    | none => exact ⟨rfl, rfl⟩
    | some p => exact .inl rfl
  | node a l r ihl ihr =>
    have hl : l.height + 1 ≤ (BinaryTree.node a l r).height := Nat.succ_le_succ (Nat.le_max_left ..)
    have hr : r.height + 1 ≤ (BinaryTree.node a l r).height := Nat.succ_le_succ (Nat.le_max_right ..)
    obtain ⟨m, rfl⟩ : ∃ m, n = m + 1 := ⟨n - 1, by omega⟩
    refine ⟨⟨rfl, by simp⟩, m, rfl, ?_⟩
    -- where the search goes on below `a`, it ends in that subtree or at `a`
    have hbelow : ∀ {t : BinaryTree P} {e : Found P}, (∀ b ∈ inorder t, b ∈ inorder (.node a l r)) →
        EndsIn (some a) t e → EndsIn last (.node a l r) e := by
      intro t e hsub he
      cases e with
      | hit b => exact hsub b he
      | miss p =>
        cases p with
        | none => cases he.2
        | some p => exact .inr (he.elim (fun h => by simp [Option.some.inj h]) (hsub p))
    intro c
    beta_reduce
    by_cases hc : c < 0
    · rw [if_pos hc]
      have hsub : ∀ b ∈ inorder l, b ∈ inorder (.node a l r) := by simp +contextual
      exact (ihl (some a) (by omega)).mono (fun _ b h => ⟨h.1, hsub b h.2⟩) fun _ _ h => ⟨h.1, hbelow hsub h.2⟩
    rw [if_neg hc]
    by_cases hc' : 0 < c
    · rw [if_pos hc']
      have hsub : ∀ b ∈ inorder r, b ∈ inorder (.node a l r) := by simp +contextual
      exact (ihr (some a) (by omega)).mono (fun _ b h => ⟨h.1, hsub b h.2⟩) fun _ _ h => ⟨h.1, hbelow hsub h.2⟩
    · rw [if_neg hc']
      have hm : 0 < m := by omega
      exact ⟨hm, (by simp : a ∈ inorder (.node a l r))⟩

end SearchTree

namespace Prog

variable {O S P E α β : Type}

/-- The questions that are asked when `answers` are given, one after the other. -/
def questions [DecidableEq O] : Prog O S P E α → World O S E → List Int → List (P × P)
  | ret _, _, _ => []
  | abort, _, _ => []
  | select o k, w, cs => k.questions (w.enter o) cs
  | ask a b _, _, [] => [(a, b)]
  | ask a b k, w, c :: cs => (a, b) :: (k c).questions w cs
  | load o k, w, cs => (k (w.mem o)).questions w cs
  | store o s k, w, cs => k.questions (w.put o s) cs
  | emit e k, w, cs => k.questions (w.report e) cs

/-- At most `n` questions, all `ok`, by a function on `x` whose memory is `s`. -/
def Asks (x : O) (ok : P → P → Prop) (post : α → S → Nat → Prop) : Prog O S P E α → S → Nat → Prop
  | ret a, s, n => post a s n
  | abort, _, _ => True
  | select _ k, s, n => k.Asks x ok post s n
  | ask a b k, s, n => ok a b ∧ ∃ m, n = m + 1 ∧ ∀ c, (k c).Asks x ok post s m
  | load o k, s, n => o = x ∧ (k s).Asks x ok post s n
  | store o s' k, _, n => o = x ∧ k.Asks x ok post s' n
  | emit _ k, s, n => k.Asks x ok post s n

section rules
variable {x : O} {ok : P → P → Prop} {post : α → S → Nat → Prop} {s : S} {n : Nat} {p : Prog O S P E α}

theorem Asks.ret {a : α} (h : post a s n) : (ret a : Prog O S P E α).Asks x ok post s n := h

theorem Asks.select {o : O} (h : p.Asks x ok post s n) : (select o p).Asks x ok post s n := h

theorem Asks.ask {a b : P} {k : Int → Prog O S P E α} (hab : ok a b) (hn : 0 < n)
    (hk : ∀ c, (k c).Asks x ok post s (n - 1)) : (ask a b k).Asks x ok post s n :=
  ⟨hab, n - 1, by omega, hk⟩

theorem Asks.load {k : S → Prog O S P E α} (h : (k s).Asks x ok post s n) :
    (load x k).Asks x ok post s n := ⟨rfl, h⟩

theorem Asks.mono {ok' : P → P → Prop} {post' : α → S → Nat → Prop} (h : p.Asks x ok post s n)
    (hok : ∀ a b, ok a b → ok' a b) (hpost : ∀ a s m, post a s m → post' a s m) :
    p.Asks x ok' post' s n := by
  induction p generalizing s n with
  | ret a => exact hpost a s n h
  | abort => trivial
  | select o k ih => exact ih h
  | ask a b k ih =>
    obtain ⟨hab, m, hm, hk⟩ := h
    exact ⟨hok a b hab, m, hm, fun c => ih c (hk c)⟩
  | load o k ih => exact ⟨h.1, ih s h.2⟩
  | store o s' k ih => exact ⟨h.1, ih h.2⟩
  | emit e k ih => exact ih h

theorem Asks.bind {post : β → S → Nat → Prop} {f : α → Prog O S P E β}
    (h : p.Asks x ok (fun a s n => (f a).Asks x ok post s n) s n) : (p.bind f).Asks x ok post s n := by
  induction p generalizing s n with
  | ret a => exact h
  | abort => trivial
  | select o k ih => exact ih h
  | ask a b k ih =>
    obtain ⟨hab, m, hm, hk⟩ := h
    exact ⟨hab, m, hm, fun c => ih c (hk c)⟩
  | load o k ih => exact ⟨h.1, ih s h.2⟩
  | store o s' k ih => exact ⟨h.1, ih h.2⟩
  | emit e k ih => exact ih h

theorem Asks.lift {t : Ask P α} (h : t.Asks ok (fun a => post a s) n) :
    (lift t : Prog O S P E α).Asks x ok post s n := by
  induction t generalizing n with
  | done a => exact h
  | ask a b k ih =>
    obtain ⟨hab, m, hm, hk⟩ := h
    exact ⟨hab, m, hm, fun c => ih c (hk c)⟩

theorem Stays.asks (h : p.Stays x (fun _ => True) false) : p.Asks x ok (fun _ _ _ => True) s n := by
  induction p generalizing s with
  | ret a => trivial
  | abort => trivial
  | select o k ih => exact h.elim
  | ask a b k ih => exact absurd h.1 Bool.false_ne_true
  | load o k ih => exact ⟨h.1, ih s (h.2 s trivial)⟩
  | store o s' k ih => exact ⟨h.1, ih h.2.2⟩
  | emit e k ih => exact ih h

/-- Whatever is answered, the questions are few and in order. -/
theorem Asks.questions [DecidableEq O] {w : World O S E}
    (h : p.Asks x ok post (w.mem x) n) (answers : List Int) :
    (∀ q ∈ p.questions w answers, ok q.1 q.2) ∧ (p.questions w answers).length ≤ n := by
  induction p generalizing w n answers with
  | ret a => simp [Prog.questions]
  | abort => simp [Prog.questions]
  | select o k ih => exact ih (w := w.enter o) h answers
  | ask a b k ih =>
    obtain ⟨hab, m, rfl, hk⟩ := h
    cases answers with
    | nil => exact ⟨by simpa [Prog.questions] using hab, by simp [Prog.questions]⟩
    | cons c answers =>
      obtain ⟨h₁, h₂⟩ := ih c (hk c) answers
      exact ⟨List.forall_mem_cons.2 ⟨hab, h₁⟩, Nat.succ_le_succ h₂⟩
  | load o k ih =>
    obtain ⟨rfl, hk⟩ := h
    exact ih _ hk answers
  | store o s k ih =>
    obtain ⟨rfl, hk⟩ := h
    refine ih (w := w.put o s) ?_ answers
    rw [World.mem_put, Function.update_self]
    exact hk
  | emit e k ih => exact ih (w := w.report e) h answers

end rules

end Prog
