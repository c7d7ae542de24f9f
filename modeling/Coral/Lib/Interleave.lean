import Mathlib.Logic.Relation
import Coral.Lib.Lockstep

/-!
# Threads whose steps interleave

Threads call functions on objects. The functions come in files: each file `k` has objects with memory
`S k`, its own functions `exec k`, and in each thread its own current object. An object belongs to one
thread. `Step` lets any thread make its next single step: start a call, one step of a running function,
return. `System.isolated`: when every function stays within its object, whatever the other threads
do, a question is asked of the object the call is on, and the calls on an object return and leave what
they do when they are run one after another and nothing else is.
-/

namespace Prog

section step
variable {O S P E α : Type} [DecidableEq O] {answer : S → P → P → Option Int} {x : O}
  {p p' : Prog O S P E α} {w w' : World O S E}

/-- One step of a function; `none` when it has returned or cannot go on. -/
def step (answer : S → P → P → Option Int) :
    Prog O S P E α → World O S E → Option (Prog O S P E α × World O S E)
  | ret _, _ => none
  | abort, _ => none
  | select o k, w => some (k, w.enter o)
  | ask a b k, w => w.current.bind fun o => (answer (w.mem o) a b).map fun c => (k c, w)
  | load o k, w => some (k (w.mem o), w)
  | store o s k, w => some (k, w.put o s)
  | emit e k, w => some (k, w.report e)

theorem step_ask {a b : P} {k : Int → Prog O S P E α} (h : (ask a b k).step answer w = some (p', w')) :
    ∃ o c, w.current = some o ∧ answer (w.mem o) a b = some c ∧ p' = k c ∧ w' = w := by
  obtain ⟨o, ho, h⟩ := Option.bind_eq_some_iff.1 h
  obtain ⟨c, hc, h⟩ := Option.map_eq_some_iff.1 h
  obtain ⟨rfl, rfl⟩ := Prod.mk.inj h
  exact ⟨o, c, ho, hc, rfl, rfl⟩

theorem run_step (h : p.step answer w = some (p', w')) : p.run answer w = p'.run answer w' := by
  cases p with
  | ret a => cases h
  | abort => cases h
  | ask a b k =>
    obtain ⟨o, c, ho, hc, rfl, rfl⟩ := step_ask h
    exact run_ask k ho hc
  | select o k =>
    obtain ⟨rfl, rfl⟩ := Prod.mk.inj (Option.some.inj h)
    rfl
  | load o k =>
    obtain ⟨rfl, rfl⟩ := Prod.mk.inj (Option.some.inj h)
    rfl
  | store o s k =>
    obtain ⟨rfl, rfl⟩ := Prod.mk.inj (Option.some.inj h)
    rfl
  | emit e k =>
    obtain ⟨rfl, rfl⟩ := Prod.mk.inj (Option.some.inj h)
    rfl

/-- A function that cannot go on never returns. -/
theorem run_stuck (h : p.step answer w = none) (hp : ∀ a, p ≠ ret a) : p.run answer w = none := by
  cases p with
  | ret a => exact absurd rfl (hp a)
  | abort => rfl
  | ask a b k =>
    show (w.current.bind fun o => ((answer (w.mem o) a b).map fun c => (c, w)).bind _) = none
    have h' : (w.current.bind fun o => (answer (w.mem o) a b).map fun c => (k c, w)) = none := h
    cases ho : w.current with
    | none => rfl
    | some o =>
      rw [ho, Option.bind_some, Option.map_eq_none_iff] at h'
      rw [Option.bind_some, h']
      rfl
  | select o k => cases h
  | load o k => cases h
  | store o s k => cases h
  | emit e k => cases h

/-- Where a running function on `x` can be: before its start, or `x` is selected. -/
def OnTrack (x : O) (p : Prog O S P E α) (current : Option O) : Prop :=
  p.Within x (fun _ => True) ∨ p.Stays x (fun _ => True) true ∧ current = some x

omit [DecidableEq O] in
theorem OnTrack.ask {a b : P} {k : Int → Prog O S P E α} {current : Option O}
    (h : OnTrack x (ask a b k) current) : current = some x := by
  rcases h with h | h
  · cases h with
    | stays h => exact absurd h.1 Bool.false_ne_true
  · exact h.2

theorem Stays.step {inv : S → Prop} {b : Bool} (h : p.Stays x inv b) (hm : inv (w.mem x))
    (hs : p.step answer w = some (p', w')) :
    p'.Stays x inv b ∧ w'.current = w.current ∧ inv (w'.mem x) ∧ ∀ y, y ≠ x → w'.mem y = w.mem y := by
  cases p with
  | ret a => cases hs
  | abort => cases hs
  | select o k => exact h.elim
  | ask a c k =>
    obtain ⟨o, i, -, -, rfl, rfl⟩ := step_ask hs
    exact ⟨h.2 i, rfl, hm, fun _ _ => rfl⟩
  | load o k =>
    obtain ⟨rfl, rfl⟩ := Prod.mk.inj (Option.some.inj hs)
    obtain ⟨rfl, hk⟩ := h
    exact ⟨hk _ hm, rfl, hm, fun _ _ => rfl⟩
  | store o s k =>
    obtain ⟨rfl, rfl⟩ := Prod.mk.inj (Option.some.inj hs)
    obtain ⟨rfl, hinv, hk⟩ := h
    exact ⟨hk, rfl, by simpa using hinv, fun y hy => Function.update_of_ne hy ..⟩
  | emit e k =>
    obtain ⟨rfl, rfl⟩ := Prod.mk.inj (Option.some.inj hs)
    exact ⟨h, rfl, hm, fun _ _ => rfl⟩

/-- A step stays on track and leaves other objects alone. -/
theorem OnTrack.step (h : OnTrack x p w.current) (hs : p.step answer w = some (p', w')) :
    OnTrack x p' w'.current ∧ ∀ y, y ≠ x → w'.mem y = w.mem y := by
  rcases h with h | ⟨h, hw⟩
  · cases h with
    | stays h =>
      obtain ⟨h₁, -, -, h₂⟩ := h.step trivial hs
      exact ⟨.inl (.stays h₁), h₂⟩
    | enters h =>
      obtain ⟨rfl, rfl⟩ := Prod.mk.inj (Option.some.inj hs)
      exact ⟨.inr ⟨h, rfl⟩, fun _ _ => rfl⟩
  · obtain ⟨h₁, h₂, -, h₃⟩ := h.step trivial hs
    exact ⟨.inr ⟨h₁, h₂.trans hw⟩, h₃⟩

/-- What a function on `x` comes to: its result and the memory of `x`. -/
def outcome (answer : S → P → P → Option Int) (x : O) (p : Prog O S P E α) (w : World O S E) :
    Option (α × S) :=
  (p.run answer w).map fun r => (r.1, r.2.mem x)

omit [DecidableEq O] in
theorem EndAlike.outcome {b : Bool} {r r' : Option (α × World O S E)} (h : EndAlike Eq x b r r') :
    (r.map fun r => (r.1, r.2.mem x)) = r'.map fun r => (r.1, r.2.mem x) := by
  rcases h.cases with ⟨rfl, rfl⟩ | ⟨a, v, v', rfl, rfl, hat⟩
  · rfl
  · simp [hat.mem]

theorem Within.outcome (h : p.Within x fun _ => True) (hmem : w.mem x = w'.mem x) :
    p.outcome answer x w = p.outcome answer x w' :=
  (h.lock w w' ⟨hmem, fun hb => absurd hb Bool.false_ne_true⟩).outcome

/-- Other objects do not matter to it. -/
theorem OnTrack.outcome (h : OnTrack x p w.current) (hmem : w.mem x = w'.mem x)
    (hcur : w.current = w'.current) : p.outcome answer x w = p.outcome answer x w' := by
  rcases h with h | ⟨h, hw⟩
  · exact h.outcome hmem
  · exact (h.lock w w' ⟨hmem, fun _ => ⟨hw, hcur ▸ hw⟩⟩).outcome

end step

/-! ### Systems of threads -/

section system
variable {κ O P E A T : Type} {S Op : κ → Type}

/-- What a thread is doing. -/
inductive Activity (κ O P E A : Type) (S Op : κ → Type) where
  | idle
  | busy (k : κ) (o : O) (op : Op k) (rest : Prog O (S k) P E A)

/-- All threads and the memory they share. `history k o` are the calls on `o` that have returned, with
what they returned. -/
structure System (κ O P E A T : Type) (S Op : κ → Type) where
  thread : T → Activity κ O P E A S Op
  current : T → κ → Option O
  mem : (k : κ) → O → S k
  history : (k : κ) → O → List (Op k × A)

namespace System

/-- What thread `t` sees of file `k`. -/
def view (s : System κ O P E A T S Op) (t : T) (k : κ) : World O (S k) E := ⟨s.current t k, s.mem k, []⟩

variable [DecidableEq κ] [DecidableEq O] [DecidableEq T]

/-- Thread `t` goes on with `a`. -/
def doing (s : System κ O P E A T S Op) (t : T) (a : Activity κ O P E A S Op) : System κ O P E A T S Op :=
  { s with thread := Function.update s.thread t a }

/-- What thread `t` sees of file `k` has become `w`. -/
def seen (s : System κ O P E A T S Op) (t : T) (k : κ) (w : World O (S k) E) : System κ O P E A T S Op :=
  { s with
    current := Function.update s.current t (Function.update (s.current t) k w.current)
    mem := Function.update s.mem k w.mem }

/-- A call on `o` has returned. -/
def returned (s : System κ O P E A T S Op) (k : κ) (o : O) (op : Op k) (a : A) :
    System κ O P E A T S Op :=
  { s with
    history := Function.update s.history k (Function.update (s.history k) o (s.history k o ++ [(op, a)])) }

variable (answer : (k : κ) → S k → P → P → Option Int) (exec : (k : κ) → O → Op k → Prog O (S k) P E A)
  (owner : κ → O → T)

/-- One step of one thread. -/
inductive Step (s : System κ O P E A T S Op) : System κ O P E A T S Op → Prop where
  | call (t : T) (k : κ) (o : O) (op : Op k) (ht : s.thread t = .idle) (ho : owner k o = t) :
      Step s (s.doing t (.busy k o op (exec k o op)))
  | run (t : T) (k : κ) (o : O) (op : Op k) (p p' : Prog O (S k) P E A) (w : World O (S k) E)
      (ht : s.thread t = .busy k o op p) (hp : p.step (answer k) (s.view t k) = some (p', w)) :
      Step s ((s.seen t k w).doing t (.busy k o op p'))
  | finish (t : T) (k : κ) (o : O) (op : Op k) (a : A) (ht : s.thread t = .busy k o op (.ret a)) :
      Step s ((s.returned k o op a).doing t .idle)

/-- Nothing has been called yet. -/
structure Start (s : System κ O P E A T S Op) : Prop where
  thread : ∀ t, s.thread t = .idle
  history : ∀ k o, s.history k o = []

/-- The returned calls on `o` of `s`, run one after another and nothing else, from the memory of `s₀`. -/
def solo (s₀ s : System κ O P E A T S Op) (k : κ) (o : O) : Option (List A × World O (S k) E) :=
  runAll (answer k) (exec k o) ((s.history k o).map Prod.fst) ⟨none, s₀.mem k, []⟩

/-- What the threads do is what each call would do alone. -/
structure Isolated (s₀ s : System κ O P E A T S Op) : Prop where
  /-- A question that is asked for `o` is asked of `o`. -/
  asks : ∀ {t k o op a b rest}, s.thread t = .busy k o op (.ask a b rest) → s.current t k = some o
  /-- While no call on `o` is running, its calls have returned and left what they do alone. -/
  rests : ∀ k o, (∀ op p, s.thread (owner k o) ≠ .busy k o op p) →
    ∃ w, s₀.solo answer exec s k o = some ((s.history k o).map Prod.snd, w) ∧ w.mem o = s.mem k o
  /-- A call that cannot go on would not return alone either. -/
  stuck : ∀ {t k o op p}, s.thread t = .busy k o op p → p.step (answer k) (s.view t k) = none →
    (∀ a, p ≠ .ret a) →
    ∃ w, s₀.solo answer exec s k o = some ((s.history k o).map Prod.snd, w) ∧
      (exec k o op).run (answer k) w = none

section thread
variable {s : System κ O P E A T S Op} {t t' : T} {a : Activity κ O P E A S Op}

omit [DecidableEq κ] [DecidableEq O] in
@[simp] theorem thread_doing_self : (s.doing t a).thread t = a := Function.update_self ..

omit [DecidableEq κ] [DecidableEq O] in
theorem thread_doing_of_ne (h : t' ≠ t) : (s.doing t a).thread t' = s.thread t' :=
  Function.update_of_ne h ..

end thread

omit [DecidableEq T] [DecidableEq O] in
theorem update_other {M : κ → Type} {f : (k : κ) → O → M k} {k k' : κ} {o o' : O} {m : O → M k}
    (hm : ∀ y, y ≠ o → m y = f k y) (hne : ¬ (k' = k ∧ o' = o)) : Function.update f k m k' o' = f k' o' := by
  by_cases hk : k' = k
  · subst hk
    rw [Function.update_self]
    exact hm o' fun ho => hne ⟨rfl, ho⟩
  · rw [Function.update_of_ne hk]

/-- The invariant: a running call, run to its end, comes to what it comes to alone; the calls that have
returned have done what they do alone. -/
structure Inv (s₀ s : System κ O P E A T S Op) : Prop where
  busy : ∀ {t k o op p}, s.thread t = .busy k o op p →
    owner k o = t ∧ OnTrack o p (s.current t k) ∧
    ∃ w, s₀.solo answer exec s k o = some ((s.history k o).map Prod.snd, w) ∧
      (exec k o op).outcome (answer k) o w = p.outcome (answer k) o (s.view t k)
  rest : ∀ k o, (∀ op p, s.thread (owner k o) ≠ .busy k o op p) →
    ∃ w, s₀.solo answer exec s k o = some ((s.history k o).map Prod.snd, w) ∧ w.mem o = s.mem k o

section inv
variable {answer exec owner} {s₀ s s' : System κ O P E A T S Op}
  (hwithin : ∀ k o op, (exec k o op).Within o fun _ => True)

omit [DecidableEq κ] [DecidableEq T] in
theorem Start.inv (h : s₀.Start) : Inv answer exec owner s₀ s₀ where
  busy ht := by rw [h.thread] at ht; cases ht
  rest k o _ := ⟨⟨none, s₀.mem k, []⟩, by simp [solo, h.history, runAll], rfl⟩

omit [DecidableEq κ] in
include hwithin in
theorem Inv.call (h : Inv answer exec owner s₀ s) {t : T} {k : κ} {o : O} {op : Op k}
    (ht : s.thread t = .idle) (ho : owner k o = t) :
    Inv answer exec owner s₀ (s.doing t (.busy k o op (exec k o op))) where
  busy := by
    intro t' k' o' op' p' ht'
    by_cases hne : t' = t
    · subst hne
      obtain ⟨w, hw, hmem⟩ := h.rest k o fun op p hb => by rw [ho, ht] at hb; cases hb
      rw [thread_doing_self] at ht'
      cases ht'
      exact ⟨ho, .inl (hwithin k o op), w, hw, (hwithin k o op).outcome hmem⟩
    · rw [thread_doing_of_ne hne] at ht'
      exact h.busy ht'
  rest := by
    intro k' o' hnot
    refine h.rest k' o' ?_
    intro op' p' hb
    by_cases hne : owner k' o' = t
    · rw [hne, ht] at hb
      cases hb
    · exact hnot op' p' ((thread_doing_of_ne hne).trans hb)

theorem Inv.run (h : Inv answer exec owner s₀ s) {t : T} {k : κ} {o : O} {op : Op k}
    {p p' : Prog O (S k) P E A} {w : World O (S k) E} (ht : s.thread t = .busy k o op p)
    (hp : p.step (answer k) (s.view t k) = some (p', w)) :
    Inv answer exec owner s₀ ((s.seen t k w).doing t (.busy k o op p')) := by
  obtain ⟨ho, htrack, w₀, hw₀, hout⟩ := h.busy ht
  obtain ⟨htrack', hframe⟩ := htrack.step hp
  constructor
  · intro t' k' o' op' q ht'
    by_cases hne : t' = t
    · subst hne
      rw [thread_doing_self] at ht'
      cases ht'
      have hcur : ((s.seen t' k w).doing t' (.busy k o op p')).current t' k = w.current := by
        simp [seen, doing]
      have hmem : ((s.seen t' k w).doing t' (.busy k o op p')).mem k = w.mem := by
        simp [seen, doing]
      refine ⟨ho, hcur ▸ htrack', w₀, hw₀, hout.trans ?_⟩
      have hstep : p.outcome (answer k) o (s.view t' k) = p'.outcome (answer k) o w :=
        congrArg (Option.map _) (run_step hp)
      exact hstep.trans (htrack'.outcome (congrFun hmem o).symm hcur.symm)
    · rw [thread_doing_of_ne hne] at ht'
      obtain ⟨ho', htrack'', w₁, hw₁, hout'⟩ := h.busy ht'
      have hcur : ((s.seen t k w).doing t (.busy k o op p')).current t' = s.current t' :=
        Function.update_of_ne hne ..
      have hmem : ((s.seen t k w).doing t (.busy k o op p')).mem k' o' = s.mem k' o' := by
        refine update_other hframe ?_
        rintro ⟨rfl, rfl⟩
        exact hne (ho'.symm.trans ho)
      refine ⟨ho', by rw [hcur]; exact htrack'', w₁, hw₁, hout'.trans ?_⟩
      exact htrack''.outcome hmem.symm (congrFun hcur k').symm
  · intro k' o' hnot
    have hne : ¬ (k' = k ∧ o' = o) := by
      rintro ⟨rfl, rfl⟩
      exact hnot op p' (by rw [ho, thread_doing_self])
    obtain ⟨w₁, hw₁, hmem₁⟩ := h.rest k' o' fun op' q hb => by
      by_cases hne' : owner k' o' = t
      · rw [hne', ht] at hb
        cases hb
        exact hne ⟨rfl, rfl⟩
      · exact hnot op' q ((thread_doing_of_ne hne').trans hb)
    exact ⟨w₁, hw₁, hmem₁.trans (update_other hframe hne).symm⟩

theorem Inv.finish (h : Inv answer exec owner s₀ s) {t : T} {k : κ} {o : O} {op : Op k} {a : A}
    (ht : s.thread t = .busy k o op (.ret a)) :
    Inv answer exec owner s₀ ((s.returned k o op a).doing t .idle) := by
  obtain ⟨ho, -, w, hw, hout⟩ := h.busy ht
  have helse : ∀ k' o', ¬ (k' = k ∧ o' = o) →
      ((s.returned k o op a).doing t .idle).history k' o' = s.history k' o' := fun _ _ hne =>
    update_other (fun y hy => Function.update_of_ne hy ..) hne
  constructor
  · intro t' k' o' op' p' ht'
    by_cases hne : t' = t
    · subst hne
      rw [thread_doing_self] at ht'
      cases ht'
    · rw [thread_doing_of_ne hne] at ht'
      obtain ⟨ho', htrack, hw'⟩ := h.busy ht'
      have hhist := helse k' o' (by
        rintro ⟨rfl, rfl⟩
        exact hne (ho'.symm.trans ho))
      refine ⟨ho', htrack, ?_⟩
      rw [solo, hhist]
      exact hw'
  · intro k' o' hnot
    by_cases hne : k' = k ∧ o' = o
    · obtain ⟨rfl, rfl⟩ := hne
      have hhist : ((s.returned k' o' op a).doing t .idle).history k' o' = s.history k' o' ++ [(op, a)] := by
        simp [returned, doing]
      obtain ⟨⟨b, w'⟩, hrun, hb⟩ := Option.map_eq_some_iff.1 hout
      obtain ⟨rfl, hmem⟩ := Prod.mk.inj hb
      refine ⟨w', ?_, hmem⟩
      rw [solo, hhist, List.map_append, List.map_append]
      exact runAll_concat hw hrun
    · obtain ⟨w', hw', hmem⟩ := h.rest k' o' fun op' p' hb => by
        by_cases hne' : owner k' o' = t
        · rw [hne', ht] at hb
          cases hb
          exact hne ⟨rfl, rfl⟩
        · exact hnot op' p' ((thread_doing_of_ne hne').trans hb)
      refine ⟨w', ?_, hmem⟩
      rw [solo, helse k' o' hne]
      exact hw'

omit [DecidableEq κ] [DecidableEq T] in
theorem Inv.isolated (h : Inv answer exec owner s₀ s) : Isolated answer exec owner s₀ s where
  asks ht := (h.busy ht).2.1.ask
  rests := h.rest
  stuck := by
    intro t k o op p ht hstuck hp
    obtain ⟨-, -, w, hw, hout⟩ := h.busy ht
    refine ⟨w, hw, ?_⟩
    have hnone : p.outcome (answer k) o (s.view t k) = none := by
      rw [outcome, run_stuck hstuck hp]
      rfl
    rw [hnone] at hout
    exact Option.map_eq_none_iff.1 hout

include hwithin in
theorem Inv.step (h : Inv answer exec owner s₀ s) (hs : Step answer exec owner s s') :
    Inv answer exec owner s₀ s' := by
  cases hs with
  | call t k o op ht ho => exact h.call hwithin ht ho
  | run t k o op p p' w ht hp => exact h.run ht hp
  | finish t k o op a ht => exact h.finish ht

include hwithin in
/-- However the steps of the threads interleave, the calls are isolated from each other. -/
theorem isolated (h₀ : s₀.Start) (h : Relation.ReflTransGen (Step answer exec owner) s₀ s) :
    Isolated answer exec owner s₀ s := by
  refine Inv.isolated ?_
  induction h with
  | refl => exact h₀.inv
  | tail _ hs ih => exact ih.step hwithin hs

end inv

/-! ### Schedules -/

/-- The next step of thread `t`; `start` is the call it makes when it is idle. -/
def fire (s : System κ O P E A T S Op) (t : T) (start : Option ((k : κ) × O × Op k)) :
    Option (System κ O P E A T S Op) :=
  match s.thread t, start with
  | .idle, some ⟨k, o, op⟩ => if owner k o = t then some (s.doing t (.busy k o op (exec k o op))) else none
  | .busy k o op (.ret a), none => some ((s.returned k o op a).doing t .idle)
  | .busy k o op p, none => (p.step (answer k) (s.view t k)).map fun r =>
      (s.seen t k r.2).doing t (.busy k o op r.1)
  | _, _ => none

/-- The system after the steps of a schedule. -/
def play : List (T × Option ((k : κ) × O × Op k)) → System κ O P E A T S Op → Option (System κ O P E A T S Op)
  | [], s => some s
  | (t, start) :: l, s => (s.fire answer exec owner t start).bind (play l)

section play
variable {answer exec owner} {s s' : System κ O P E A T S Op}

theorem step_of_fire {t : T} {start : Option ((k : κ) × O × Op k)}
    (h : s.fire answer exec owner t start = some s') : Step answer exec owner s s' := by
  unfold fire at h
  split at h
  · rename_i k o op ht
    split at h
    · rename_i ho
      obtain rfl := Option.some.inj h
      exact .call t k o op ht ho
    · cases h
  · rename_i k o op a ht
    obtain rfl := Option.some.inj h
    exact .finish t k o op a ht
  · rename_i k o op p _ ht
    obtain ⟨⟨p', w⟩, hp, rfl⟩ := Option.map_eq_some_iff.1 h
    exact .run t k o op p p' w ht hp
  · cases h

theorem reachable_of_play {l : List (T × Option ((k : κ) × O × Op k))}
    (h : play answer exec owner l s = some s') : Relation.ReflTransGen (Step answer exec owner) s s' := by
  induction l generalizing s with
  | nil =>
    obtain rfl := Option.some.inj h
    exact .refl
  | cons e l ih =>
    obtain ⟨s₁, h₁, h₂⟩ := Option.bind_eq_some_iff.1 h
    exact .head (step_of_fire h₁) (ih h₂)

end play

end System

end system

end Prog
