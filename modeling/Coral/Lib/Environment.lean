import Coral.Lib.Prog

/-!
# Functions among other code

An event of a function is a call of code outside of it. `Env` is what that code does: it may change
the memory of every object and the current object, and it cannot take back what was reported.
`runIn env` is a run in which every event is followed by what `env` does; in `run` nothing happens.
`runIn_of_run`: a part that reports nothing runs the same among other code.
-/

/-- What the code outside does when it is told of an event. -/
structure Env (O S E : Type) where
  react : E → World O S E → World O S E
  log : ∀ e w, (react e w).log = w.log

namespace Prog

variable {O S P E α β : Type} [DecidableEq O] {env : Env O S E} {answer : S → P → P → Option Int}
  {p : Prog O S P E α} {w w' : World O S E} {a : α}

/-- Run `p` to its end with side-effect-free comparisons, each event followed by what `env` does. -/
def runIn (env : Env O S E) (answer : S → P → P → Option Int) :
    Prog O S P E α → World O S E → Option (α × World O S E)
  | ret a, w => some (a, w)
  | abort, _ => none
  | select o k, w => k.runIn env answer (w.enter o)
  | ask a b k, w => w.current.bind fun o => (answer (w.mem o) a b).bind fun c =>
      (k c).runIn env answer w
  | load o k, w => (k (w.mem o)).runIn env answer w
  | store o s k, w => k.runIn env answer (w.put o s)
  | emit e k, w => k.runIn env answer (env.react e (w.report e))

@[simp] theorem runIn_ret (a : α) : (ret a : Prog O S P E α).runIn env answer w = some (a, w) := rfl
@[simp] theorem runIn_load (o : O) (k : S → Prog O S P E α) :
    (load o k).runIn env answer w = (k (w.mem o)).runIn env answer w := rfl
@[simp] theorem runIn_store (o : O) (s : S) (k : Prog O S P E α) :
    (store o s k).runIn env answer w = k.runIn env answer (w.put o s) := rfl
@[simp] theorem runIn_emit (e : E) (k : Prog O S P E α) :
    (emit e k).runIn env answer w = k.runIn env answer (env.react e (w.report e)) := rfl

theorem runIn_bind (p : Prog O S P E α) (f : α → Prog O S P E β) (w : World O S E) :
    (p.bind f).runIn env answer w = (p.runIn env answer w).bind fun r => (f r.1).runIn env answer r.2 := by
  induction p generalizing w with
  | ret a => rfl
  | abort => rfl
  | select o k ih => exact ih _
  | ask a b k ih => simp only [bind, runIn, Option.bind_assoc, ih]
  | load o k ih => exact ih _ _
  | store o s k ih => exact ih _
  | emit e k ih => exact ih _

theorem runIn_seq (f : α → Prog O S P E β) (h : p.runIn env answer w = some (a, w')) :
    (p.bind f).runIn env answer w = (f a).runIn env answer w' := by
  rw [runIn_bind, h]
  rfl

theorem log_grows (h : p.run answer w = some (a, w')) : w.log <+: w'.log := by
  induction p generalizing w with
  | ret c =>
    obtain ⟨-, rfl⟩ := Prod.mk.inj (Option.some.inj h)
    exact List.prefix_rfl
  | abort => cases h
  | select o k ih => exact ih (w := w.enter o) h
  | ask c d k ih =>
    obtain ⟨o, -, h⟩ := Option.bind_eq_some_iff.1 h
    obtain ⟨⟨i, v⟩, hv, h⟩ := Option.bind_eq_some_iff.1 h
    obtain ⟨j, -, hj⟩ := Option.map_eq_some_iff.1 hv
    obtain ⟨rfl, rfl⟩ := Prod.mk.inj hj
    exact ih j h
  | load o k ih => exact ih _ h
  | store o s k ih => exact ih (w := w.put o s) h
  | emit e k ih => exact (List.prefix_append w.log _).trans (ih (w := w.report e) h)

/-- What reports nothing is not disturbed by the code outside. -/
theorem runIn_of_run (env : Env O S E) (h : p.run answer w = some (a, w')) (hlog : w'.log = w.log) :
    p.runIn env answer w = some (a, w') := by
  induction p generalizing w with
  | ret c => exact h
  | abort => cases h
  | select o k ih => exact ih (w := w.enter o) h hlog
  | ask c d k ih =>
    obtain ⟨o, ho, h⟩ := Option.bind_eq_some_iff.1 h
    obtain ⟨⟨i, v⟩, hv, h⟩ := Option.bind_eq_some_iff.1 h
    obtain ⟨j, hj, hij⟩ := Option.map_eq_some_iff.1 hv
    obtain ⟨rfl, rfl⟩ := Prod.mk.inj hij
    simp only [runIn, ho, hj, Option.bind_some]
    exact ih j h hlog
  | load o k ih => exact ih _ h hlog
  | store o s k ih => exact ih (w := w.put o s) h hlog
  | emit e k ih =>
    -- the report would still be in the log at the end
    have hlen := (log_grows (w := w.report e) h).length_le
    rw [hlog, World.report, List.length_append, List.length_singleton] at hlen
    omega

/-! ### Parts that report nothing -/

/-- `p` reports nothing, wherever it is run. -/
def Quiet : Prog O S P E α → Prop
  | ret _ => True
  | abort => True
  | select _ k => k.Quiet
  | ask _ _ k => ∀ c, (k c).Quiet
  | load _ k => ∀ s, (k s).Quiet
  | store _ _ k => k.Quiet
  | emit _ _ => False

omit [DecidableEq O] in
theorem Quiet.bind {f : α → Prog O S P E β} (hp : p.Quiet) (hf : ∀ a, (f a).Quiet) :
    (p.bind f).Quiet := by
  induction p with
  | ret a => exact hf a
  | abort => trivial
  | select o k ih => exact ih hp
  | ask a b k ih => exact fun c => ih c (hp c)
  | load o k ih => exact fun s => ih s (hp s)
  | store o s k ih => exact ih hp
  | emit e k ih => exact hp.elim

omit [DecidableEq O] in
theorem Quiet.ite {q : Prog O S P E α} {c : Prop} [Decidable c] (hp : p.Quiet) (hq : q.Quiet) :
    (if c then p else q).Quiet := by
  split
  · exact hp
  · exact hq

theorem Quiet.log_eq (hp : p.Quiet) (h : p.run answer w = some (a, w')) : w'.log = w.log := by
  induction p generalizing w with
  | ret c =>
    obtain ⟨-, rfl⟩ := Prod.mk.inj (Option.some.inj h)
    rfl
  | abort => cases h
  | select o k ih => exact ih (w := w.enter o) hp h
  | ask c d k ih =>
    obtain ⟨o, -, h⟩ := Option.bind_eq_some_iff.1 h
    obtain ⟨⟨i, v⟩, hv, h⟩ := Option.bind_eq_some_iff.1 h
    obtain ⟨j, -, hj⟩ := Option.map_eq_some_iff.1 hv
    obtain ⟨rfl, rfl⟩ := Prod.mk.inj hj
    exact ih j (hp j) h
  | load o k ih => exact ih _ (hp _) h
  | store o s k ih => exact ih (w := w.put o s) hp h
  | emit e k ih => exact hp.elim

end Prog
