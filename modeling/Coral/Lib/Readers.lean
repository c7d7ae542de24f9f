import Mathlib.Data.Fintype.Basic
import Coral.Lib.Interleave

/-!
# Threads that share objects

As in `Coral.Lib.Interleave`, but an object belongs to no thread. `SharedStep` lets a call start when
no running call on its object is in its way: any number of calls that read may run on one object, a call
that writes runs on it alone. `System.serial`: however the steps interleave, the calls on an object
return, in the order they return in, what they return when they are run one after another and nothing
else is. The order is that of the real calls: a call that returns before another one starts comes first.
-/

namespace Prog

section step
variable {O S P E α : Type} [DecidableEq O] {answer : S → P → P → Option Int} {x : O} {m : S}
  {p p' : Prog O S P E α} {w w' : World O S E}

/-- Where a running function that keeps the memory `m` of `x` can be. -/
def Reading (x : O) (m : S) (p : Prog O S P E α) (current : Option O) : Prop :=
  p.Within x (· = m) ∨ p.Stays x (· = m) true ∧ current = some x

theorem Reading.step (h : Reading x m p w.current) (hm : w.mem x = m)
    (hs : p.step answer w = some (p', w')) : Reading x m p' w'.current ∧ w'.mem = w.mem := by
  have hmem : w'.mem x = m → (∀ y, y ≠ x → w'.mem y = w.mem y) → w'.mem = w.mem := by
    intro hin hout
    funext y
    by_cases hy : y = x
    · rw [hy, hin, hm]
    · exact hout y hy
  rcases h with h | ⟨h, hw⟩
  · cases h with
    | stays h =>
      obtain ⟨h₁, -, h₂, h₃⟩ := h.step hm hs
      exact ⟨.inl (.stays h₁), hmem h₂ h₃⟩
    | enters h =>
      obtain ⟨rfl, rfl⟩ := Prod.mk.inj (Option.some.inj hs)
      exact ⟨.inr ⟨h, rfl⟩, rfl⟩
  · obtain ⟨h₁, h₂, h₃, h₄⟩ := h.step hm hs
    exact ⟨.inr ⟨h₁, h₂.trans hw⟩, hmem h₃ h₄⟩

end step

namespace System

variable {κ O P E A T : Type} {S Op : κ → Type} [DecidableEq κ] [DecidableEq O] [DecidableEq T]
  (answer : (k : κ) → S k → P → P → Option Int) (exec : (k : κ) → O → Op k → Prog O (S k) P E A)
  (reads : (k : κ) → Op k → Prop)

/-- Thread `t` is in a call on `o`, and that call or `op` writes. -/
def Blocks (s : System κ O P E A T S Op) (k : κ) (o : O) (op : Op k) (t : T) : Prop :=
  match s.thread t with
  | .idle => False
  | .busy k' o' op' _ => k' = k ∧ o' = o ∧ ¬ (reads k' op' ∧ reads k op)

/-- One step of one thread; a call starts when no thread blocks it. -/
inductive SharedStep (s : System κ O P E A T S Op) : System κ O P E A T S Op → Prop where
  | call (t : T) (k : κ) (o : O) (op : Op k) (ht : s.thread t = .idle)
      (hfree : ∀ t', ¬ s.Blocks reads k o op t') : SharedStep s (s.doing t (.busy k o op (exec k o op)))
  | run (t : T) (k : κ) (o : O) (op : Op k) (p p' : Prog O (S k) P E A) (w : World O (S k) E)
      (ht : s.thread t = .busy k o op p) (hp : p.step (answer k) (s.view t k) = some (p', w)) :
      SharedStep s ((s.seen t k w).doing t (.busy k o op p'))
  | finish (t : T) (k : κ) (o : O) (op : Op k) (a : A) (ht : s.thread t = .busy k o op (.ret a)) :
      SharedStep s ((s.returned k o op a).doing t .idle)

/-- No call that writes is running on `o`. -/
def Unwritten (s : System κ O P E A T S Op) (k : κ) (o : O) : Prop :=
  ∀ t op p, s.thread t = .busy k o op p → reads k op

/-- What the threads do is what the calls on each object do one after another. -/
structure Serial (s₀ s : System κ O P E A T S Op) : Prop where
  /-- A question that is asked for `o` is asked of `o`. -/
  asks : ∀ {t k o op a b rest}, s.thread t = .busy k o op (.ask a b rest) → s.current t k = some o
  /-- While no call is writing `o`, the calls that have returned have done what they do one after
  another. -/
  rests : ∀ k o, s.Unwritten reads k o →
    ∃ w, s₀.solo answer exec s k o = some ((s.history k o).map Prod.snd, w) ∧ w.mem o = s.mem k o
  /-- A call that cannot go on would not return after them either. -/
  stuck : ∀ {t k o op p}, s.thread t = .busy k o op p → p.step (answer k) (s.view t k) = none →
    (∀ a, p ≠ .ret a) →
    ∃ w, s₀.solo answer exec s k o = some ((s.history k o).map Prod.snd, w) ∧
      (exec k o op).run (answer k) w = none

/-- The invariant: a running call, run to its end, comes to what it comes to after the calls that have
returned; a call that reads finds the memory as they left it; a call that writes runs alone. -/
structure SharedInv (s₀ s : System κ O P E A T S Op) : Prop where
  busy : ∀ {t k o op p}, s.thread t = .busy k o op p →
    OnTrack o p (s.current t k) ∧
    ∃ w, s₀.solo answer exec s k o = some ((s.history k o).map Prod.snd, w) ∧
      (exec k o op).outcome (answer k) o w = p.outcome (answer k) o (s.view t k)
  reading : ∀ {t k o op p}, s.thread t = .busy k o op p → reads k op →
    Reading o (s.mem k o) p (s.current t k)
  alone : ∀ {t t' k o op op' p p'}, s.thread t = .busy k o op p → s.thread t' = .busy k o op' p' →
    t ≠ t' → reads k op ∧ reads k op'
  rest : ∀ k o, s.Unwritten reads k o →
    ∃ w, s₀.solo answer exec s k o = some ((s.history k o).map Prod.snd, w) ∧ w.mem o = s.mem k o

section inv
variable {answer exec reads} {s₀ s s' : System κ O P E A T S Op}
  (hwithin : ∀ k o op, (exec k o op).Within o fun _ => True)
  (hreads : ∀ k o op, reads k op → ∀ m, (exec k o op).Within o (· = m))

omit [DecidableEq κ] [DecidableEq O] [DecidableEq T] in
theorem reads_of_not_blocks {t : T} {k : κ} {o : O} {op op' : Op k} {p : Prog O (S k) P E A}
    (ht : s.thread t = .busy k o op' p) (h : ¬ s.Blocks reads k o op t) : reads k op' ∧ reads k op := by
  by_contra hnot
  refine h ?_
  unfold Blocks
  rw [ht]
  exact ⟨rfl, rfl, hnot⟩

omit [DecidableEq κ] [DecidableEq T] in
theorem Start.sharedInv (h : s₀.Start) : SharedInv answer exec reads s₀ s₀ where
  busy ht := by rw [h.thread] at ht; cases ht
  reading ht := by rw [h.thread] at ht; cases ht
  alone ht := by rw [h.thread] at ht; cases ht
  rest k o _ := ⟨⟨none, s₀.mem k, []⟩, by simp [solo, h.history, runAll], rfl⟩

omit [DecidableEq κ] in
include hwithin hreads in
theorem SharedInv.call (h : SharedInv answer exec reads s₀ s) {t : T} {k : κ} {o : O} {op : Op k}
    (ht : s.thread t = .idle) (hfree : ∀ t', ¬ s.Blocks reads k o op t') :
    SharedInv answer exec reads s₀ (s.doing t (.busy k o op (exec k o op))) := by
  have hold : ∀ {t' k' o' op' p'}, t' ≠ t →
      (s.doing t (.busy k o op (exec k o op))).thread t' = .busy k' o' op' p' →
      s.thread t' = .busy k' o' op' p' := fun hne ht' => (thread_doing_of_ne hne).symm.trans ht'
  constructor
  · intro t' k' o' op' p' ht'
    by_cases hne : t' = t
    · subst hne
      rw [thread_doing_self] at ht'
      cases ht'
      obtain ⟨w, hw, hmem⟩ := h.rest k o fun t'' op' p' hb => (reads_of_not_blocks hb (hfree t'')).1
      exact ⟨.inl (hwithin k o op), w, hw, (hwithin k o op).outcome hmem⟩
    · exact h.busy (hold hne ht')
  · intro t' k' o' op' p' ht' hr
    by_cases hne : t' = t
    · subst hne
      rw [thread_doing_self] at ht'
      cases ht'
      exact .inl (hreads k o op hr _)
    · exact h.reading (hold hne ht') hr
  · intro t₁ t₂ k' o' op₁ op₂ p₁ p₂ h₁ h₂ hne
    by_cases hne₁ : t₁ = t
    · subst hne₁
      rw [thread_doing_self] at h₁
      cases h₁
      exact (reads_of_not_blocks (hold (Ne.symm hne) h₂) (hfree t₂)).symm
    · by_cases hne₂ : t₂ = t
      · subst hne₂
        rw [thread_doing_self] at h₂
        cases h₂
        exact reads_of_not_blocks (hold hne₁ h₁) (hfree t₁)
      · exact h.alone (hold hne₁ h₁) (hold hne₂ h₂) hne
  · intro k' o' hun
    refine h.rest k' o' ?_
    intro t' op' p' hb
    by_cases hne : t' = t
    · rw [hne, ht] at hb
      cases hb
    · exact hun t' op' p' ((thread_doing_of_ne hne).trans hb)

theorem SharedInv.run (h : SharedInv answer exec reads s₀ s) {t : T} {k : κ} {o : O} {op : Op k}
    {p p' : Prog O (S k) P E A} {w : World O (S k) E} (ht : s.thread t = .busy k o op p)
    (hp : p.step (answer k) (s.view t k) = some (p', w)) :
    SharedInv answer exec reads s₀ ((s.seen t k w).doing t (.busy k o op p')) := by
  obtain ⟨htrack, w₀, hw₀, hout⟩ := h.busy ht
  obtain ⟨htrack', hframe⟩ := htrack.step hp
  have hcur : ((s.seen t k w).doing t (.busy k o op p')).current t k = w.current := by
    simp [seen, doing]
  have hcur' : ∀ t', t' ≠ t →
      ((s.seen t k w).doing t (.busy k o op p')).current t' = s.current t' :=
    fun t' hne => Function.update_of_ne hne ..
  have hmemk : ((s.seen t k w).doing t (.busy k o op p')).mem k = w.mem := by
    simp [seen, doing]
  have hold : ∀ {t' k' o' op' q}, t' ≠ t →
      ((s.seen t k w).doing t (.busy k o op p')).thread t' = .busy k' o' op' q →
      s.thread t' = .busy k' o' op' q := fun hne ht' => (thread_doing_of_ne hne).symm.trans ht'
  -- only a call that writes changes memory, and only that of its object
  have hmem : ∀ k' o', (k' = k ∧ o' = o → reads k op) →
      ((s.seen t k w).doing t (.busy k o op p')).mem k' o' = s.mem k' o' := by
    intro k' o' hr
    by_cases heq : k' = k ∧ o' = o
    · obtain ⟨rfl, rfl⟩ := heq
      rw [hmemk, ((h.reading ht (hr ⟨rfl, rfl⟩)).step rfl hp).2]
      rfl
    · exact update_other hframe heq
  -- another call on the same object is there only when both read
  have hother : ∀ {t' k' o' op' q}, t' ≠ t → s.thread t' = .busy k' o' op' q →
      ((s.seen t k w).doing t (.busy k o op p')).mem k' o' = s.mem k' o' := by
    intro t' k' o' op' q hne ht'
    refine hmem k' o' ?_
    rintro ⟨rfl, rfl⟩
    exact (h.alone ht ht' (Ne.symm hne)).1
  constructor
  · intro t' k' o' op' q ht'
    by_cases hne : t' = t
    · subst hne
      rw [thread_doing_self] at ht'
      cases ht'
      refine ⟨hcur ▸ htrack', w₀, hw₀, hout.trans ?_⟩
      have hstep : p.outcome (answer k) o (s.view t' k) = p'.outcome (answer k) o w :=
        congrArg (Option.map _) (run_step hp)
      exact hstep.trans (htrack'.outcome (congrFun hmemk o).symm hcur.symm)
    · obtain ⟨htrack'', w₁, hw₁, hout'⟩ := h.busy (hold hne ht')
      refine ⟨by rw [hcur' t' hne]; exact htrack'', w₁, hw₁, hout'.trans ?_⟩
      exact htrack''.outcome (hother hne (hold hne ht')).symm (congrFun (hcur' t' hne) k').symm
  · intro t' k' o' op' q ht' hr
    by_cases hne : t' = t
    · subst hne
      rw [thread_doing_self] at ht'
      cases ht'
      rw [hmem k o fun _ => hr, hcur]
      exact ((h.reading ht hr).step rfl hp).1
    · rw [hother hne (hold hne ht'), hcur' t' hne]
      exact h.reading (hold hne ht') hr
  · intro t₁ t₂ k' o' op₁ op₂ p₁ p₂ h₁ h₂ hne
    by_cases hne₁ : t₁ = t
    · subst hne₁
      rw [thread_doing_self] at h₁
      cases h₁
      exact h.alone ht (hold (Ne.symm hne) h₂) hne
    · by_cases hne₂ : t₂ = t
      · subst hne₂
        rw [thread_doing_self] at h₂
        cases h₂
        exact h.alone (hold hne₁ h₁) ht hne
      · exact h.alone (hold hne₁ h₁) (hold hne₂ h₂) hne
  · intro k' o' hun
    have hr : k' = k ∧ o' = o → reads k op := by
      rintro ⟨rfl, rfl⟩
      exact hun t op p' thread_doing_self
    obtain ⟨w₁, hw₁, hmem₁⟩ := h.rest k' o' fun t' op' q hb => by
      by_cases hne : t' = t
      · rw [hne, ht] at hb
        cases hb
        exact hr ⟨rfl, rfl⟩
      · exact hun t' op' q ((thread_doing_of_ne hne).trans hb)
    exact ⟨w₁, hw₁, hmem₁.trans (hmem k' o' hr).symm⟩

include hwithin in
theorem SharedInv.finish (h : SharedInv answer exec reads s₀ s) {t : T} {k : κ} {o : O} {op : Op k} {a : A}
    (ht : s.thread t = .busy k o op (.ret a)) :
    SharedInv answer exec reads s₀ ((s.returned k o op a).doing t .idle) := by
  obtain ⟨-, w, hw, hout⟩ := h.busy ht
  obtain ⟨⟨b, w'⟩, hrun, hret⟩ := Option.map_eq_some_iff.1 hout
  obtain ⟨hval, hmem⟩ := Prod.mk.inj hret
  obtain rfl : b = a := hval
  have helse : ∀ k' o', ¬ (k' = k ∧ o' = o) →
      ((s.returned k o op b).doing t .idle).history k' o' = s.history k' o' := fun _ _ hne =>
    update_other (fun y hy => Function.update_of_ne hy ..) hne
  have hhist : ((s.returned k o op b).doing t .idle).history k o = s.history k o ++ [(op, b)] := by
    simp [returned, doing]
  have hsolo : s₀.solo answer exec ((s.returned k o op b).doing t .idle) k o =
      some ((((s.returned k o op b).doing t .idle).history k o).map Prod.snd, w') := by
    rw [solo, hhist, List.map_append, List.map_append]
    exact runAll_concat hw hrun
  have hold : ∀ {t' k' o' op' q}, t' ≠ t →
      ((s.returned k o op b).doing t .idle).thread t' = .busy k' o' op' q →
      s.thread t' = .busy k' o' op' q := fun hne ht' => (thread_doing_of_ne hne).symm.trans ht'
  have hne_of : ∀ {t' k' o' op' q},
      ((s.returned k o op b).doing t .idle).thread t' = .busy k' o' op' q → t' ≠ t := by
    rintro t' k' o' op' q ht' rfl
    rw [thread_doing_self] at ht'
    cases ht'
  constructor
  · intro t' k' o' op' q ht'
    have hne := hne_of ht'
    obtain ⟨htrack, w₁, hw₁, hout'⟩ := h.busy (hold hne ht')
    refine ⟨htrack, ?_⟩
    by_cases heq : k' = k ∧ o' = o
    · -- two calls that read: the other one finds the same memory before and after this one
      obtain ⟨rfl, rfl⟩ := heq
      obtain ⟨w₂, hw₂, hmem₂⟩ := h.rest k' o' fun t'' op'' p'' hb => by
        by_cases hne' : t'' = t
        · subst hne'
          rw [ht] at hb
          cases hb
          exact (h.alone ht (hold hne ht') (Ne.symm hne)).1
        · exact (h.alone hb ht hne').1
      obtain rfl : w₁ = w₂ := (Prod.mk.inj (Option.some.inj (hw₁.symm.trans hw₂))).2
      refine ⟨w', hsolo, Eq.trans ?_ hout'⟩
      exact (hwithin k' o' op').outcome (hmem.trans hmem₂.symm)
    · refine ⟨w₁, ?_, hout'⟩
      rw [solo, helse k' o' heq]
      exact hw₁
  · intro t' k' o' op' q ht'
    exact h.reading (hold (hne_of ht') ht')
  · intro t₁ t₂ k' o' op₁ op₂ p₁ p₂ h₁ h₂ hne
    exact h.alone (hold (hne_of h₁) h₁) (hold (hne_of h₂) h₂) hne
  · intro k' o' hun
    by_cases heq : k' = k ∧ o' = o
    · obtain ⟨rfl, rfl⟩ := heq
      exact ⟨w', hsolo, hmem⟩
    · obtain ⟨w₁, hw₁, hmem₁⟩ := h.rest k' o' fun t' op' q hb => by
        by_cases hne : t' = t
        · rw [hne, ht] at hb
          cases hb
          exact absurd ⟨rfl, rfl⟩ heq
        · exact hun t' op' q ((thread_doing_of_ne hne).trans hb)
      refine ⟨w₁, ?_, hmem₁⟩
      rw [solo, helse k' o' heq]
      exact hw₁

omit [DecidableEq κ] [DecidableEq T] in
theorem SharedInv.serial (h : SharedInv answer exec reads s₀ s) : Serial answer exec reads s₀ s where
  asks ht := (h.busy ht).1.ask
  rests := h.rest
  stuck := by
    intro t k o op p ht hstuck hp
    obtain ⟨-, w, hw, hout⟩ := h.busy ht
    have hnone : p.outcome (answer k) o (s.view t k) = none := by
      rw [outcome, run_stuck hstuck hp]
      rfl
    rw [hnone] at hout
    exact ⟨w, hw, Option.map_eq_none_iff.1 hout⟩

include hwithin hreads in
theorem SharedInv.step (h : SharedInv answer exec reads s₀ s) (hs : SharedStep answer exec reads s s') :
    SharedInv answer exec reads s₀ s' := by
  cases hs with
  | call t k o op ht hfree => exact h.call hwithin hreads ht hfree
  | run t k o op p p' w ht hp => exact h.run ht hp
  | finish t k o op a ht => exact h.finish hwithin ht

include hwithin hreads in
/-- However the steps of the threads interleave, the calls on each object do what they do one after
another. -/
theorem serial (h₀ : s₀.Start) (h : Relation.ReflTransGen (SharedStep answer exec reads) s₀ s) :
    Serial answer exec reads s₀ s := by
  refine SharedInv.serial ?_
  induction h with
  | refl => exact h₀.sharedInv
  | tail _ hs ih => exact ih.step hwithin hreads hs

end inv

/-! ### Schedules -/

section play
variable [Fintype T] [∀ k, DecidablePred (reads k)]

instance (s : System κ O P E A T S Op) (k : κ) (o : O) (op : Op k) (t : T) :
    Decidable (s.Blocks reads k o op t) :=
  match h : s.thread t with
  | .idle => isFalse fun hb => by rw [Blocks, h] at hb; exact hb
  | .busy k' o' op' p =>
    decidable_of_iff (k' = k ∧ o' = o ∧ ¬ (reads k' op' ∧ reads k op)) (by rw [Blocks, h])

/-- The next step of thread `t`, as `fire`; the call it makes when it is idle must not be blocked. -/
def fireShared (s : System κ O P E A T S Op) (t : T) (start : Option ((k : κ) × O × Op k)) :
    Option (System κ O P E A T S Op) :=
  match s.thread t, start with
  | .idle, some ⟨k, o, op⟩ =>
    if ∀ t', ¬ s.Blocks reads k o op t' then some (s.doing t (.busy k o op (exec k o op))) else none
  | .busy .., none => s.fire answer exec (fun _ _ => t) t none
  | _, _ => none

/-- The system after the steps of a schedule. -/
def playShared : List (T × Option ((k : κ) × O × Op k)) → System κ O P E A T S Op →
    Option (System κ O P E A T S Op)
  | [], s => some s
  | (t, start) :: l, s => (s.fireShared answer exec reads t start).bind (playShared l)

variable {answer exec reads} {s s' : System κ O P E A T S Op}

theorem sharedStep_of_fireShared {t : T} {start : Option ((k : κ) × O × Op k)}
    (h : s.fireShared answer exec reads t start = some s') : SharedStep answer exec reads s s' := by
  unfold fireShared at h
  split at h
  · rename_i k o op ht
    split at h
    · rename_i hfree
      obtain rfl := Option.some.inj h
      exact .call t k o op ht hfree
    · cases h
  · rename_i hbusy
    cases step_of_fire h with
    | call t' k o op ht ho =>
      obtain rfl : t = t' := ho
      rw [hbusy] at ht
      cases ht
    | run t' k o op p p' w ht hp => exact .run t' k o op p p' w ht hp
    | finish t' k o op a ht => exact .finish t' k o op a ht
  · cases h

theorem reachable_of_playShared {l : List (T × Option ((k : κ) × O × Op k))}
    (h : playShared answer exec reads l s = some s') :
    Relation.ReflTransGen (SharedStep answer exec reads) s s' := by
  induction l generalizing s with
  | nil =>
    obtain rfl := Option.some.inj h
    exact .refl
  | cons e l ih =>
    obtain ⟨s₁, h₁, h₂⟩ := Option.bind_eq_some_iff.1 h
    exact .head (sharedStep_of_fireShared h₁) (ih h₂)

end play

end System

end Prog
