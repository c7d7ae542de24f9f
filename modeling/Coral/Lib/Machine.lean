import Coral.Lib.Runs

/-!
# Runs of a machine

A machine takes one operation after another: `exec op` is what the operation does to a state, with the
reply it gives, and `none` when it stops. `runAll` is such a run. Where a run is compared with the run
of an abstract machine, the relation between the states may speak of all replies given so far. An
abstract machine that does not determine the replies is told them (`replay`) and says which it admits.
-/

namespace Machine
open Prog

variable {W Op α A : Type}

/-- The replies and the last state of a run; `none` when an operation stops. -/
def runAll (exec : Op → W → Option (α × W)) : List Op → W → Option (List α × W)
  | [], w => some ([], w)
  | op :: ops, w => (exec op w).bind fun r => (runAll exec ops r.2).map fun r' => (r.1 :: r'.1, r'.2)

variable {exec : Op → W → Option (α × W)} {w w' : W} {a : α} {op : Op} {ops : List Op}

theorem runAll_cons (h : exec op w = some (a, w')) :
    runAll exec (op :: ops) w = (runAll exec ops w').map fun r => (a :: r.1, r.2) := by
  simp [runAll, h]

/-- Forward simulation, for a relation that speaks of the replies so far. -/
theorem sim_runAll {rel : List α → W → A → Prop} {step : A → Op → α × A} {ok : A → Op → Prop}
    (hstep : ∀ l w s op, rel l w s → ok s op →
      ∃ w', exec op w = some ((step s op).1, w') ∧ rel (l ++ [(step s op).1]) w' (step s op).2)
    (ops : List Op) {l : List α} {s : A} (hw : rel l w s) (hv : AbsValid step ok s ops) :
    ∃ w', runAll exec ops w = some ((absRun step s ops).1, w') ∧
      rel (l ++ (absRun step s ops).1) w' (absRun step s ops).2 := by
  induction ops generalizing l w s with
  | nil => exact ⟨w, rfl, by simpa [absRun] using hw⟩
  | cons op ops ih =>
    obtain ⟨w₁, h₁, hw₁⟩ := hstep l w s op hw hv.1
    obtain ⟨w₂, h₂, hw₂⟩ := ih hw₁ hv.2
    refine ⟨w₂, ?_, ?_⟩
    · rw [runAll_cons h₁, h₂]
      rfl
    · simpa [absRun] using hw₂

/-! ### Replies the abstract machine does not determine -/

section replies
variable {step : A → Op → α → A} {ok : A → Op → Prop} {admits : A → Op → α → Prop}

/-- The state of an abstract machine that is told the replies. -/
def replay (step : A → Op → α → A) : A → List (Op × α) → A
  | s, [] => s
  | s, (op, a) :: rest => replay step (step s op a) rest

/-- Every reply is one the abstract machine admits where it is given. -/
def Admitted (step : A → Op → α → A) (admits : A → Op → α → Prop) : A → List (Op × α) → Prop
  | _, [] => True
  | s, (op, a) :: rest => admits s op a ∧ Admitted step admits (step s op a) rest

/-- Every operation of the run is allowed in the state the abstract machine is in, whatever is
replied. -/
def Follows (exec : Op → W → Option (α × W)) (step : A → Op → α → A) (ok : A → Op → Prop) :
    A → W → List Op → Prop
  | _, _, [] => True
  | s, w, op :: ops => ok s op ∧ ∀ r ∈ exec op w, Follows exec step ok (step s op r.1) r.2 ops

instance Follows.decidable [∀ s op, Decidable (ok s op)] :
    (ops : List Op) → (s : A) → (w : W) → Decidable (Follows exec step ok s w ops)
  | [], _, _ => isTrue trivial
  | _ :: ops, _, _ =>
      have (s : A) (w : W) : Decidable (Follows exec step ok s w ops) := Follows.decidable ops s w
      inferInstanceAs (Decidable (_ ∧ _))

/-- An operation gives an admitted reply and keeps `rel`, which speaks of the replies so far. -/
def Steps (exec : Op → W → Option (α × W)) (step : A → Op → α → A) (admits : A → Op → α → Prop)
    (rel : List α → W → A → Prop) (l : List α) (w : W) (s : A) (op : Op) : Prop :=
  ∃ a w', exec op w = some (a, w') ∧ admits s op a ∧ rel (l ++ [a]) w' (step s op a)

/-- Simulation of a machine whose replies the abstract machine admits but does not determine. -/
theorem sim_replay {rel : List α → W → A → Prop}
    (hstep : ∀ l w s op, rel l w s → ok s op → Steps exec step admits rel l w s op)
    (ops : List Op) {l : List α} {s : A} (hw : rel l w s) (hv : Follows exec step ok s w ops) :
    ∃ l' w', runAll exec ops w = some (l', w') ∧ Admitted step admits s (ops.zip l') ∧
      rel (l ++ l') w' (replay step s (ops.zip l')) := by
  induction ops generalizing l w s with
  | nil => exact ⟨[], w, rfl, trivial, by simpa [replay] using hw⟩
  | cons op ops ih =>
    obtain ⟨a, w₁, h₁, hadm, hw₁⟩ := hstep l w s op hw hv.1
    obtain ⟨l', w₂, h₂, hadm', hw₂⟩ := ih hw₁ (hv.2 _ h₁)
    refine ⟨a :: l', w₂, ?_, ⟨hadm, hadm'⟩, ?_⟩
    · rw [runAll_cons h₁, h₂]
      rfl
    · simpa [replay] using hw₂

end replies

/-! ### States the replies do not matter to -/

section states
variable {next : A → Op → A} {ok : A → Op → Prop} {admits : A → Op → α → Prop}

/-- Every operation is allowed in the state it is used in. -/
def Permitted (next : A → Op → A) (ok : A → Op → Prop) : A → List Op → Prop
  | _, [] => True
  | s, op :: ops => ok s op ∧ Permitted next ok (next s op) ops

instance Permitted.decidable [∀ s op, Decidable (ok s op)] :
    (ops : List Op) → (s : A) → Decidable (Permitted next ok s ops)
  | [], _ => isTrue trivial
  | _ :: ops, _ =>
      have (s : A) : Decidable (Permitted next ok s ops) := Permitted.decidable ops s
      inferInstanceAs (Decidable (_ ∧ _))

/-- Simulation of a machine whose replies the abstract machine admits, and whose states it
determines. -/
theorem sim_admitted {rel : W → A → Prop}
    (hstep : ∀ w s op, rel w s → ok s op →
      ∃ a w', exec op w = some (a, w') ∧ admits s op a ∧ rel w' (next s op))
    (ops : List Op) {s : A} (hw : rel w s) (hv : Permitted next ok s ops) :
    ∃ l w', runAll exec ops w = some (l, w') ∧ l.length = ops.length ∧
      Admitted (fun s op _ => next s op) admits s (ops.zip l) ∧ rel w' (ops.foldl next s) := by
  induction ops generalizing w s with
  | nil => exact ⟨[], w, rfl, rfl, trivial, hw⟩
  | cons op ops ih =>
    obtain ⟨a, w₁, h₁, hadm, hw₁⟩ := hstep w s op hw hv.1
    obtain ⟨l, w₂, h₂, hlen, hadm', hw₂⟩ := ih hw₁ hv.2
    refine ⟨a :: l, w₂, ?_, congrArg Nat.succ hlen, ⟨hadm, hadm'⟩, hw₂⟩
    rw [runAll_cons h₁, h₂]
    rfl

/-- What two replies have in common that are admitted in the same state, the replies of two runs
have. -/
theorem alike_of_admitted {alike : Op → α → α → Prop}
    (h : ∀ s op a b, admits s op a → admits s op b → alike op a b) {ops : List Op} {l l' : List α} {s : A}
    (hl : Admitted (fun s op _ => next s op) admits s (ops.zip l))
    (hl' : Admitted (fun s op _ => next s op) admits s (ops.zip l')) :
    ∀ r ∈ ops.zip (l.zip l'), alike r.1 r.2.1 r.2.2 := by
  induction ops generalizing l l' s with
  | nil => simp
  | cons op ops ih =>
    cases l with
    | nil => simp
    | cons a l =>
      cases l' with
      | nil => simp
      | cons b l' =>
        rw [List.zip_cons_cons, List.zip_cons_cons]
        exact List.forall_mem_cons.2 ⟨h s op a b hl.1 hl'.1, ih hl.2 hl'.2⟩

end states

/-! ### Operations without effect -/

/-- The operations of a run whose replies satisfy `q`. -/
def kept (q : α → Bool) (ops : List Op) (replies : List α) : List Op :=
  ((ops.zip replies).filter fun r => q r.2).map Prod.fst

/-- Operations whose replies tell that they had no effect can be left out of a run: the other replies
and the last state are the same up to `rel`. -/
theorem runAll_kept (rel : W → W → Prop) {q : α → Bool}
    (htrans : ∀ u v w, rel u v → rel v w → rel u w)
    (hcongr : ∀ op u w a w', rel u w → exec op w = some (a, w') →
      ∃ u', exec op u = some (a, u') ∧ rel u' w')
    (hnone : ∀ op w a w', exec op w = some (a, w') → q a = false → rel w w')
    {ops : List Op} {u w w' : W} {l : List α} (hu : rel u w) (hrun : runAll exec ops w = some (l, w')) :
    ∃ u', runAll exec (kept q ops l) u = some (l.filter q, u') ∧ rel u' w' := by
  induction ops generalizing u w l with
  | nil =>
    obtain ⟨rfl, rfl⟩ := Prod.mk.inj (Option.some.inj hrun)
    exact ⟨u, rfl, hu⟩
  | cons op ops ih =>
    obtain ⟨⟨a, w₁⟩, h₁, hrest⟩ := Option.bind_eq_some_iff.1 hrun
    obtain ⟨⟨l₁, w₂⟩, h₂, heq⟩ := Option.map_eq_some_iff.1 hrest
    obtain ⟨rfl, rfl⟩ := Prod.mk.inj heq
    cases hq : q a with
    | false =>
      obtain ⟨u', h', hu'⟩ := ih (htrans _ _ _ hu (hnone op w a w₁ h₁ hq)) h₂
      exact ⟨u', by simpa [kept, hq] using h', hu'⟩
    | true =>
      obtain ⟨u₁, h₁', hu₁⟩ := hcongr op u w a w₁ hu h₁
      obtain ⟨u', h', hu'⟩ := ih hu₁ h₂
      refine ⟨u', ?_, hu'⟩
      have hkept : kept q (op :: ops) (a :: l₁) = op :: kept q ops l₁ := by simp [kept, hq]
      rw [hkept, runAll_cons h₁', h']
      simp [hq]

theorem forall_of_runAll (good : Op → α → Prop)
    (hgood : ∀ op w a w', exec op w = some (a, w') → good op a)
    {ops : List Op} {w w' : W} {l : List α} (hrun : runAll exec ops w = some (l, w')) :
    ∀ r ∈ ops.zip l, good r.1 r.2 := by
  induction ops generalizing w l with
  | nil => simp
  | cons op ops ih =>
    obtain ⟨⟨a, w₁⟩, h₁, hrest⟩ := Option.bind_eq_some_iff.1 hrun
    obtain ⟨⟨l₁, w₂⟩, h₂, heq⟩ := Option.map_eq_some_iff.1 hrest
    obtain ⟨rfl, rfl⟩ := Prod.mk.inj heq
    rw [List.zip_cons_cons]
    exact List.forall_mem_cons.2 ⟨hgood op w a w₁ h₁, ih h₂⟩

end Machine
