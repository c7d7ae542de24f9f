import Coral.Lib.Runs

/-!
# Two programs in lockstep

Two programs with different memories, whose slots of an object `x` are related by `m`, run in lockstep
(`Lock`) when related memories make them end alike: both stop at a failed check, or both return the
same and leave related memories. The rules follow the steps of a program; `Lock.quiet` lets one side
do something more that keeps the relation. A program that stays within `x` is in lockstep with itself
(`Within.lock`): what other objects hold does not matter to it.
-/

namespace Prog

variable {O S S' P E E' α β Op Op' : Type}

/-- The slots of `x` are related; `x` is the current object if `b`. -/
structure At (m : S → S' → Prop) (x : O) (b : Bool) (w : World O S E) (w' : World O S' E') : Prop where
  mem : m (w.mem x) (w'.mem x)
  current : b = true → w.current = some x ∧ w'.current = some x

/-- Both runs stop at a failed check, or both end with the same result and related worlds. -/
abbrev EndAlike (m : S → S' → Prop) (x : O) (b : Bool) :
    Option (α × World O S E) → Option (α × World O S' E') → Prop :=
  Option.Rel fun r r' => r.1 = r'.1 ∧ At m x b r.2 r'.2

section
variable [DecidableEq O] (answer : S → P → P → Option Int) (answer' : S' → P → P → Option Int)
  (m : S → S' → Prop) (x : O)

/-- From related worlds the two programs end alike. -/
def Lock (b : Bool) (p : Prog O S P E α) (p' : Prog O S' P E' α) : Prop :=
  ∀ w w', At m x b w w' → EndAlike m x b (p.run answer w) (p'.run answer' w')

end

section
variable [DecidableEq O] {answer : S → P → P → Option Int} {answer' : S' → P → P → Option Int}
  {m : S → S' → Prop} {x : O} {b : Bool}

omit [DecidableEq O] in
theorem EndAlike.cases {r : Option (α × World O S E)} {r' : Option (α × World O S' E')}
    (h : EndAlike m x b r r') : r = none ∧ r' = none ∨
      ∃ a w w', r = some (a, w) ∧ r' = some (a, w') ∧ At m x b w w' := by
  cases h with
  | none => exact .inl ⟨rfl, rfl⟩
  | @some r r' h =>
    obtain ⟨heq, hat⟩ := h
    exact .inr ⟨r.1, r.2, r'.2, rfl, by rw [heq], hat⟩

omit [DecidableEq O] in
theorem EndAlike.mono {r : Option (α × World O S E)} {r' : Option (α × World O S' E')}
    (h : EndAlike m x true r r') : EndAlike m x b r r' := by
  cases h with
  | none => exact .none
  | some h => exact .some ⟨h.1, h.2.mem, fun _ => h.2.current rfl⟩

omit [DecidableEq O] in
theorem EndAlike.map_fst {r : Option (α × World O S E)} {r' : Option (α × World O S' E')}
    (h : EndAlike m x b r r') : r.map Prod.fst = r'.map Prod.fst := by
  cases h with
  | none => rfl
  | some h => exact congrArg some h.1

namespace Lock

theorem ret (a : α) : Lock answer answer' m x b (ret a : Prog O S P E α) (ret a : Prog O S' P E' α) :=
  fun _ _ h => .some ⟨rfl, h⟩

theorem abort : Lock answer answer' m x b (abort : Prog O S P E α) (abort : Prog O S' P E' α) :=
  fun _ _ _ => .none

theorem bind {p : Prog O S P E α} {p' : Prog O S' P E' α} {f : α → Prog O S P E β}
    {f' : α → Prog O S' P E' β} (hp : Lock answer answer' m x b p p')
    (hf : ∀ a, Lock answer answer' m x b (f a) (f' a)) :
    Lock answer answer' m x b (p.bind f) (p'.bind f') := by
  intro w w' h
  rw [run_bind, run_bind]
  rcases (hp w w' h).cases with ⟨h₁, h₂⟩ | ⟨a, w₁, w₁', h₁, h₂, hat⟩
  · rw [h₁, h₂]
    exact .none
  · rw [h₁, h₂]
    exact hf a w₁ w₁' hat

theorem ite {c : Prop} [Decidable c] {p q : Prog O S P E α} {p' q' : Prog O S' P E' α}
    (hp : Lock answer answer' m x b p p') (hq : Lock answer answer' m x b q q') :
    Lock answer answer' m x b (if c then p else q) (if c then p' else q') := by
  split
  · exact hp
  · exact hq

/-- Selecting `x` sets the current object on both sides. -/
theorem select {p : Prog O S P E α} {p' : Prog O S' P E' α} (hp : Lock answer answer' m x true p p') :
    Lock answer answer' m x b (select x p) (select x p') :=
  fun w w' h => (hp (w.enter x) (w'.enter x) ⟨h.mem, fun _ => ⟨rfl, rfl⟩⟩).mono

theorem load {k : S → Prog O S P E α} {k' : S' → Prog O S' P E' α}
    (hk : ∀ s s', m s s' → Lock answer answer' m x b (k s) (k' s')) :
    Lock answer answer' m x b (load x k) (load x k') :=
  fun w w' h => hk _ _ h.mem w w' h

theorem store {s : S} {s' : S'} {p : Prog O S P E α} {p' : Prog O S' P E' α} (hs : m s s')
    (hp : Lock answer answer' m x b p p') : Lock answer answer' m x b (store x s p) (store x s' p') := by
  intro w w' h
  refine hp (w.put x s) (w'.put x s') ⟨?_, h.current⟩
  simpa using hs

theorem emit {e : E} {e' : E'} {p : Prog O S P E α} {p' : Prog O S' P E' α}
    (hp : Lock answer answer' m x b p p') : Lock answer answer' m x b (emit e p) (emit e' p') :=
  fun w w' h => hp (w.report e) (w'.report e') ⟨h.mem, h.current⟩

/-- The left side may do something more. -/
theorem quiet {q : Prog O S P E β} {f : β → Prog O S P E α} {p' : Prog O S' P E' α}
    (hq : ∀ w s', m (w.mem x) s' → ∃ a w₁, q.run answer w = some (a, w₁) ∧
      w₁.current = w.current ∧ m (w₁.mem x) s')
    (hf : ∀ a, Lock answer answer' m x b (f a) p') : Lock answer answer' m x b (q.bind f) p' := by
  intro w w' h
  obtain ⟨a, w₁, hrun, hcur, hm⟩ := hq w (w'.mem x) h.mem
  rw [run_seq f hrun]
  exact hf a w₁ w' ⟨hm, fun hb => ⟨hcur.trans (h.current hb).1, (h.current hb).2⟩⟩

section ask
variable (hans : ∀ s s', m s s' → ∀ a c, answer s a c = answer' s' a c)
include hans

theorem ask {a c : P} {k : Int → Prog O S P E α} {k' : Int → Prog O S' P E' α}
    (hk : ∀ i, Lock answer answer' m x true (k i) (k' i)) :
    Lock answer answer' m x true (ask a c k) (ask a c k') := by
  intro w w' h
  obtain ⟨hw, hw'⟩ := h.current rfl
  have heq := hans _ _ h.mem a c
  cases hi : answer (w.mem x) a c with
  | none =>
    rw [hi] at heq
    have hn : (Prog.ask a c k).run answer w = none := by simp [run, runWith, plain, hw, hi]
    have hn' : (Prog.ask a c k').run answer' w' = none := by simp [run, runWith, plain, hw', ← heq]
    rw [hn, hn']
    exact .none
  | some i =>
    rw [hi] at heq
    rw [run_ask k hw hi, run_ask k' hw' heq.symm]
    exact hk i w w' h

theorem lift (q : Ask P α) : Lock answer answer' m x true (Prog.lift q : Prog O S P E α)
    (Prog.lift q : Prog O S' P E' α) := by
  induction q with
  | done a => exact ret a
  | ask a c k ih => exact ask hans ih

end ask

theorem runAll {exec : Op → Prog O S P E α} {exec' : Op' → Prog O S' P E' α} {g : Op → Op'}
    (h : ∀ op, Lock answer answer' m x false (exec op) (exec' (g op))) (ops : List Op)
    {w : World O S E} {w' : World O S' E'} (hw : At m x false w w') :
    EndAlike m x false (Prog.runAll answer exec ops w) (Prog.runAll answer' exec' (ops.map g) w') := by
  induction ops generalizing w w' with
  | nil => exact .some ⟨rfl, hw⟩
  | cons op ops ih =>
    simp only [Prog.runAll, List.map_cons]
    rcases (h op w w' hw).cases with ⟨h₁, h₂⟩ | ⟨a, w₁, w₁', h₁, h₂, hat⟩
    · rw [h₁, h₂]
      exact .none
    · rw [h₁, h₂, Option.bind_some, Option.bind_some]
      rcases (ih hat).cases with ⟨h₃, h₄⟩ | ⟨l, w₂, w₂', h₃, h₄, hat'⟩
      · rw [h₃, h₄]
        exact .none
      · rw [h₃, h₄]
        exact .some ⟨rfl, hat'⟩

end Lock

theorem Stays.lock {p : Prog O S P E α} (hp : p.Stays x (fun _ => True) b) :
    Lock answer answer Eq x b p p := by
  have hans : ∀ s s' : S, s = s' → ∀ a c, answer s a c = answer s' a c := by
    rintro s s' rfl a c
    rfl
  induction p with
  | ret a => exact .ret a
  | abort => exact .abort
  | select o k ih => exact hp.elim
  | ask a c k ih =>
    obtain ⟨rfl, hk⟩ := hp
    exact .ask hans fun i => ih i (hk i)
  | load o k ih =>
    obtain ⟨rfl, hk⟩ := hp
    refine .load ?_
    intro s s' hs
    subst hs
    exact ih s (hk s trivial)
  | store o s k ih =>
    obtain ⟨rfl, -, hk⟩ := hp
    exact .store rfl (ih hk)
  | emit e k ih => exact .emit (ih hp)

/-- A program that stays within `x` depends on nothing else. -/
theorem Within.lock {p : Prog O S P E α} (hp : p.Within x fun _ => True) :
    Lock answer answer Eq x false p p := by
  cases hp with
  | stays h => exact h.lock
  | enters h => exact .select h.lock

end

end Prog
