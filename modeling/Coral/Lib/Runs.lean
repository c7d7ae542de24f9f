import Coral.Lib.Prog

/-!
# Runs of operations

A client calls operations `Op` one after another, `exec op` being the function it calls and `ok w op`
what it has to respect when it calls `op` in `w`. `runAll` is such a run, `Valid` says that every call
of it is allowed. `sim_runAll` lifts a forward simulation of the single calls to whole runs,
`inv_runAll` an invariant.
-/

namespace Prog

variable {O S P E Op α A : Type} [DecidableEq O] {answer : S → P → P → Option Int}

/-- The results and the last world of a run; `none` when a call aborts. -/
def runAll (answer : S → P → P → Option Int) (exec : Op → Prog O S P E α) :
    List Op → World O S E → Option (List α × World O S E)
  | [], w => some ([], w)
  | op :: ops, w => ((exec op).run answer w).bind fun r =>
      (runAll answer exec ops r.2).map fun r' => (r.1 :: r'.1, r'.2)

/-- Every call of the run is allowed where it is made. -/
def Valid (answer : S → P → P → Option Int) (exec : Op → Prog O S P E α) (ok : World O S E → Op → Prop) :
    List Op → World O S E → Prop
  | [], _ => True
  | op :: ops, w => ok w op ∧
      match (exec op).run answer w with
      | some r => Valid answer exec ok ops r.2
      | none => True

instance Valid.decidable {exec : Op → Prog O S P E α} {ok : World O S E → Op → Prop}
    [∀ w op, Decidable (ok w op)] :
    (ops : List Op) → (w : World O S E) → Decidable (Valid answer exec ok ops w)
  | [], _ => isTrue trivial
  | op :: ops, w =>
      have : Decidable (match (exec op).run answer w with
          | some r => Valid answer exec ok ops r.2
          | none => True) :=
        match (exec op).run answer w with
        | some r => Valid.decidable ops r.2
        | none => isTrue trivial
      inferInstanceAs (Decidable (_ ∧ _))

/-- The run of an abstract machine. -/
def absRun (step : A → Op → α × A) : A → List Op → List α × A
  | s, [] => ([], s)
  | s, op :: ops => ((step s op).1 :: (absRun step (step s op).2 ops).1, (absRun step (step s op).2 ops).2)

/-- Every call of the run is allowed in the state the abstract machine is in. -/
def AbsValid (step : A → Op → α × A) (ok : A → Op → Prop) : A → List Op → Prop
  | _, [] => True
  | s, op :: ops => ok s op ∧ AbsValid step ok (step s op).2 ops

instance AbsValid.decidable {step : A → Op → α × A} {ok : A → Op → Prop}
    [∀ s op, Decidable (ok s op)] : (ops : List Op) → (s : A) → Decidable (AbsValid step ok s ops)
  | [], _ => isTrue trivial
  | _ :: ops, _ =>
      have (s : A) : Decidable (AbsValid step ok s ops) := AbsValid.decidable ops s
      inferInstanceAs (Decidable (_ ∧ _))

variable {exec : Op → Prog O S P E α} {ok : World O S E → Op → Prop}

theorem runAll_cons {op : Op} {ops : List Op} {w w' : World O S E} {a : α}
    (h : (exec op).run answer w = some (a, w')) :
    runAll answer exec (op :: ops) w = (runAll answer exec ops w').map fun r => (a :: r.1, r.2) := by
  simp [runAll, h]

theorem runAll_concat {ops : List Op} {op : Op} {l : List α} {a : α} {w w₁ w₂ : World O S E}
    (h₁ : runAll answer exec ops w = some (l, w₁)) (h₂ : (exec op).run answer w₁ = some (a, w₂)) :
    runAll answer exec (ops ++ [op]) w = some (l ++ [a], w₂) := by
  induction ops generalizing w l with
  | nil =>
    obtain ⟨rfl, rfl⟩ := Prod.mk.inj (Option.some.inj h₁)
    simp [runAll, h₂]
  | cons op' ops ih =>
    obtain ⟨⟨b, v⟩, hb, h⟩ := Option.bind_eq_some_iff.1 h₁
    obtain ⟨⟨l', v'⟩, hl, h⟩ := Option.map_eq_some_iff.1 h
    obtain ⟨rfl, rfl⟩ := Prod.mk.inj h
    rw [List.cons_append, runAll_cons hb, ih hl]
    rfl

theorem valid_cons {op : Op} {ops : List Op} {w w' : World O S E} {a : α}
    (h : (exec op).run answer w = some (a, w')) :
    Valid answer exec ok (op :: ops) w ↔ ok w op ∧ Valid answer exec ok ops w' := by
  simp [Valid, h]

/-- Forward simulation: when every allowed call does what the abstract machine does, so does every
allowed run, and no call of it aborts. -/
theorem sim_runAll {rel : World O S E → A → Prop} {step : A → Op → α × A}
    (hstep : ∀ w s op, rel w s → ok w op →
      ∃ w', (exec op).run answer w = some ((step s op).1, w') ∧ rel w' (step s op).2)
    (ops : List Op) {w : World O S E} {s : A} (hw : rel w s) (hv : Valid answer exec ok ops w) :
    ∃ w', runAll answer exec ops w = some ((absRun step s ops).1, w') ∧ rel w' (absRun step s ops).2 := by
  induction ops generalizing w s with
  | nil => exact ⟨w, rfl, hw⟩
  | cons op ops ih =>
    obtain ⟨w₁, h₁, hw₁⟩ := hstep w s op hw hv.1
    obtain ⟨w₂, h₂, hw₂⟩ := ih hw₁ ((valid_cons h₁).1 hv).2
    exact ⟨w₂, by rw [runAll_cons h₁, h₂]; rfl, hw₂⟩

/-- The same, when it is the abstract state that allows the calls. -/
theorem sim_runAll_abs {rel : World O S E → A → Prop} {step : A → Op → α × A} {ok : A → Op → Prop}
    (hstep : ∀ w s op, rel w s → ok s op →
      ∃ w', (exec op).run answer w = some ((step s op).1, w') ∧ rel w' (step s op).2)
    (ops : List Op) {w : World O S E} {s : A} (hw : rel w s) (hv : AbsValid step ok s ops) :
    ∃ w', runAll answer exec ops w = some ((absRun step s ops).1, w') ∧ rel w' (absRun step s ops).2 := by
  induction ops generalizing w s with
  | nil => exact ⟨w, rfl, hw⟩
  | cons op ops ih =>
    obtain ⟨w₁, h₁, hw₁⟩ := hstep w s op hw hv.1
    obtain ⟨w₂, h₂, hw₂⟩ := ih hw₁ hv.2
    exact ⟨w₂, by rw [runAll_cons h₁, h₂]; rfl, hw₂⟩

/-- What every allowed call that ends keeps, every allowed run that ends keeps. -/
theorem inv_runAll {rel : World O S E → A → Prop} {step : A → Op → α × A} {ok : A → Op → Prop}
    (hstep : ∀ w s op a w', rel w s → ok s op → (exec op).run answer w = some (a, w') →
      rel w' (step s op).2)
    (ops : List Op) {w w' : World O S E} {s : A} {l : List α} (hw : rel w s) (hv : AbsValid step ok s ops)
    (hrun : runAll answer exec ops w = some (l, w')) : rel w' (absRun step s ops).2 := by
  induction ops generalizing w s l with
  | nil =>
    obtain ⟨-, rfl⟩ := Prod.mk.inj (Option.some.inj hrun)
    exact hw
  | cons op ops ih =>
    obtain ⟨⟨a, w₁⟩, h₁, hrest⟩ := Option.bind_eq_some_iff.1 hrun
    obtain ⟨⟨l₁, w₂⟩, h₂, heq⟩ := Option.map_eq_some_iff.1 hrest
    obtain ⟨-, rfl⟩ := Prod.mk.inj heq
    exact ih (hstep w s op a w₁ hw hv.1 h₁) hv.2 h₂

end Prog
