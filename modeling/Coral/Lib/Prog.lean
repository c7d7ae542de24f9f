import Mathlib.Logic.Function.Basic
import Coral.Lib.Ask

/-!
# Functions that reach their callback through a current object

`Prog O S P E α` is a function written as its single steps: it reads and writes the memory `S` of
objects `O`, makes an object the current one (`select`), asks the current object's callback to
compare two keys (`ask`), reports an event (`emit`) and may stop on a failed check (`abort`).
`runWith call` runs it to its end, `call` being what the callback of the current object does; `run`
is the case where the callback stored in an object is a plain function.

`Within x inv p` says that `p` reads, writes and selects `x` only, asks only once `x` is selected, and
keeps `inv` of the memory of `x`. `Within.kept` is the frame rule for such a function.
-/

/-- A function as the sequence of its steps. -/
inductive Prog (O S P E α : Type) where
  | ret (a : α)
  | abort
  | select (o : O) (k : Prog O S P E α)
  | ask (a b : P) (k : Int → Prog O S P E α)
  | load (o : O) (k : S → Prog O S P E α)
  | store (o : O) (s : S) (k : Prog O S P E α)
  | emit (e : E) (k : Prog O S P E α)

/-- What one thread sees: its current object, the memory of the objects, the events so far (each
with the memory at that moment). -/
structure World (O S E : Type) where
  current : Option O
  mem : O → S
  log : List (E × (O → S))

namespace World
variable {O S E : Type} (w : World O S E) (o : O) (s : S) (e : E)

/-- Make `o` the current object. -/
def enter : World O S E := { w with current := some o }

/-- Write `s` to the memory of `o`. -/
def put [DecidableEq O] : World O S E := { w with mem := Function.update w.mem o s }

def report : World O S E := { w with log := w.log ++ [(e, w.mem)] }

@[simp] theorem current_enter : (w.enter o).current = some o := rfl
@[simp] theorem mem_enter : (w.enter o).mem = w.mem := rfl
@[simp] theorem current_put [DecidableEq O] : (w.put o s).current = w.current := rfl
@[simp] theorem mem_put [DecidableEq O] : (w.put o s).mem = Function.update w.mem o s := rfl
@[simp] theorem put_put [DecidableEq O] (s' : S) : (w.put o s).put o s' = w.put o s' := by
  simp [put]
theorem put_self [DecidableEq O] : w.put o (w.mem o) = w := by
  simp [put]
@[simp] theorem current_report : (w.report e).current = w.current := rfl
@[simp] theorem mem_report : (w.report e).mem = w.mem := rfl

end World

namespace Prog

variable {O S P E α β : Type}

def bind : Prog O S P E α → (α → Prog O S P E β) → Prog O S P E β
  | ret a, f => f a
  | abort, _ => abort
  | select o k, f => select o (k.bind f)
  | ask a b k, f => ask a b fun c => (k c).bind f
  | load o k, f => load o fun s => (k s).bind f
  | store o s k, f => store o s (k.bind f)
  | emit e k, f => emit e (k.bind f)

instance : Monad (Prog O S P E) where
  pure := ret
  bind := bind

/-- Answer the questions of `p` by the callback of the current object. -/
def lift : Ask P α → Prog O S P E α
  | .done a => ret a
  | .ask a b k => ask a b fun c => lift (k c)

@[simp] theorem pure_eq (a : α) : (pure a : Prog O S P E α) = ret a := rfl
@[simp] theorem bind_eq (p : Prog O S P E α) (f : α → Prog O S P E β) : p >>= f = p.bind f := rfl
@[simp] theorem ret_bind (a : α) (f : α → Prog O S P E β) : (ret a).bind f = f a := rfl
@[simp] theorem abort_bind (f : α → Prog O S P E β) : (abort : Prog O S P E α).bind f = abort := rfl
@[simp] theorem select_bind (o : O) (k : Prog O S P E α) (f : α → Prog O S P E β) :
    (select o k).bind f = select o (k.bind f) := rfl
@[simp] theorem ask_bind (a b : P) (k : Int → Prog O S P E α) (f : α → Prog O S P E β) :
    (ask a b k).bind f = ask a b fun c => (k c).bind f := rfl
@[simp] theorem load_bind (o : O) (k : S → Prog O S P E α) (f : α → Prog O S P E β) :
    (load o k).bind f = load o fun s => (k s).bind f := rfl
@[simp] theorem store_bind (o : O) (s : S) (k : Prog O S P E α) (f : α → Prog O S P E β) :
    (store o s k).bind f = store o s (k.bind f) := rfl
@[simp] theorem emit_bind (e : E) (k : Prog O S P E α) (f : α → Prog O S P E β) :
    (emit e k).bind f = emit e (k.bind f) := rfl

section
variable [DecidableEq O]

/-- Run `p` to its end; `none` when it aborts. -/
def runWith (call : O → P → P → World O S E → Option (Int × World O S E)) :
    Prog O S P E α → World O S E → Option (α × World O S E)
  | ret a, w => some (a, w)
  | abort, _ => none
  | select o k, w => k.runWith call (w.enter o)
  | ask a b k, w => w.current.bind fun o => (call o a b w).bind fun r => (k r.1).runWith call r.2
  | load o k, w => (k (w.mem o)).runWith call w
  | store o s k, w => k.runWith call (w.put o s)
  | emit e k, w => k.runWith call (w.report e)

/-- The callback stored in an object is a function: it answers `answer s a b` and does nothing
else. -/
def plain (answer : S → P → P → Option Int) (o : O) (a b : P) (w : World O S E) :
    Option (Int × World O S E) :=
  (answer (w.mem o) a b).map fun c => (c, w)

/-- Run `p` with side-effect-free callbacks. -/
def run (answer : S → P → P → Option Int) (p : Prog O S P E α) (w : World O S E) :
    Option (α × World O S E) :=
  p.runWith (plain answer) w

omit [DecidableEq O] in
theorem plain_mem {answer : S → P → P → Option Int} (o : O) (a b : P) (w : World O S E)
    (r : Int × World O S E) (h : plain answer o a b w = some r) : r.2.mem = w.mem := by
  unfold plain at h
  obtain ⟨c, -, rfl⟩ := Option.map_eq_some_iff.1 h
  rfl

variable {call : O → P → P → World O S E → Option (Int × World O S E)}

theorem runWith_bind (p : Prog O S P E α) (f : α → Prog O S P E β) (w : World O S E) :
    (p.bind f).runWith call w = (p.runWith call w).bind fun r => (f r.1).runWith call r.2 := by
  induction p generalizing w with
  | ret a => rfl
  | abort => rfl
  | select o k ih => exact ih _
  | ask a b k ih => simp only [bind, runWith, Option.bind_assoc, ih]
  | load o k ih => exact ih _ _
  | store o s k ih => exact ih _
  | emit e k ih => exact ih _

section run
variable {answer : S → P → P → Option Int} {w : World O S E}

theorem run_bind (p : Prog O S P E α) (f : α → Prog O S P E β) (w : World O S E) :
    (p.bind f).run answer w = (p.run answer w).bind fun r => (f r.1).run answer r.2 :=
  runWith_bind p f w

/-- Go on after a part that ran to its end. -/
theorem run_seq {p : Prog O S P E α} {a : α} {w' : World O S E} (f : α → Prog O S P E β)
    (h : p.run answer w = some (a, w')) : (p.bind f).run answer w = (f a).run answer w' := by
  rw [run_bind, h]
  rfl

theorem run_return {p : Prog O S P E α} {a : α} {b : β} {g : α → β} {w₁ w₂ : World O S E}
    (h : p.run answer w = some (a, w₁)) (hb : (p.bind fun a => ret (g a)).run answer w = some (b, w₂)) :
    w₁ = w₂ := by
  rw [run_seq _ h] at hb
  exact (Prod.mk.inj (Option.some.inj hb)).2

@[simp] theorem run_ret (a : α) : (ret a : Prog O S P E α).run answer w = some (a, w) := rfl
@[simp] theorem run_abort : (abort : Prog O S P E α).run answer w = none := rfl
@[simp] theorem run_select (o : O) (k : Prog O S P E α) :
    (select o k).run answer w = k.run answer (w.enter o) := rfl
@[simp] theorem run_load (o : O) (k : S → Prog O S P E α) :
    (load o k).run answer w = (k (w.mem o)).run answer w := rfl
@[simp] theorem run_store (o : O) (s : S) (k : Prog O S P E α) :
    (store o s k).run answer w = k.run answer (w.put o s) := rfl
@[simp] theorem run_emit (e : E) (k : Prog O S P E α) :
    (emit e k).run answer w = k.run answer (w.report e) := rfl

theorem run_ask {o : O} {a b : P} {c : Int} (k : Int → Prog O S P E α) (ho : w.current = some o)
    (hc : answer (w.mem o) a b = some c) : (ask a b k).run answer w = (k c).run answer w := by
  simp [run, runWith, plain, ho, hc]

/-- While `o` is the current object and its callback is `cmp`, questions are answered by `cmp`. -/
theorem run_lift {o : O} {cmp : P → P → Int} (q : Ask P α) (ho : w.current = some o)
    (hc : ∀ a b, answer (w.mem o) a b = some (cmp a b)) :
    (lift q : Prog O S P E α).run answer w = some (q.eval cmp, w) := by
  induction q with
  | done a => rfl
  | ask a b k ih => exact (run_ask _ ho (hc a b)).trans (ih _)

end run

end

/-- `p` reads and writes `x` only, keeps `inv` of its memory, selects nothing and asks only if `b`. -/
def Stays (x : O) (inv : S → Prop) (b : Bool) : Prog O S P E α → Prop
  | ret _ => True
  | abort => True
  | select _ _ => False
  | ask _ _ k => b = true ∧ ∀ c, (k c).Stays x inv b
  | load o k => o = x ∧ ∀ s, inv s → (k s).Stays x inv b
  | store o s k => o = x ∧ inv s ∧ k.Stays x inv b
  | emit _ k => k.Stays x inv b

/-- `p` stays within `x`: it selects `x` before anything else, or else asks nothing. -/
inductive Within (x : O) (inv : S → Prop) : Prog O S P E α → Prop where
  | stays {p : Prog O S P E α} (h : p.Stays x inv false) : Within x inv p
  | enters {k : Prog O S P E α} (h : k.Stays x inv true) : Within x inv (select x k)

section frame
variable {x : O} {inv : S → Prop} {b : Bool} {p q : Prog O S P E α} {f : α → Prog O S P E β}

theorem Stays.ret (a : α) : (ret a : Prog O S P E α).Stays x inv b := trivial

theorem Stays.abort : (abort : Prog O S P E α).Stays x inv b := trivial

theorem Stays.load {k : S → Prog O S P E α} (hk : ∀ s, inv s → (k s).Stays x inv b) :
    (load x k).Stays x inv b := ⟨rfl, hk⟩

theorem Stays.store {s : S} (hs : inv s) (hp : p.Stays x inv b) : (store x s p).Stays x inv b :=
  ⟨rfl, hs, hp⟩

theorem Stays.ite {c : Prop} [Decidable c] (hp : p.Stays x inv b) (hq : q.Stays x inv b) :
    (if c then p else q).Stays x inv b := by
  split
  · exact hp
  · exact hq

theorem Stays.mono (h : p.Stays x inv false) : p.Stays x inv b := by
  induction p with
  | ret a => trivial
  | abort => trivial
  | select o k ih => exact h.elim
  | ask a c k ih => exact absurd h.1 Bool.false_ne_true
  | load o k ih => exact ⟨h.1, fun s hs => ih s (h.2 s hs)⟩
  | store o s k ih => exact ⟨h.1, h.2.1, ih h.2.2⟩
  | emit e k ih => exact ih h

theorem Stays.bind (hp : p.Stays x inv b) (hf : ∀ a, (f a).Stays x inv b) :
    (p.bind f).Stays x inv b := by
  induction p with
  | ret a => exact hf a
  | abort => trivial
  | select o k ih => exact hp.elim
  | ask a c k ih => exact ⟨hp.1, fun c => ih c (hp.2 c)⟩
  | load o k ih => exact ⟨hp.1, fun s hs => ih s (hp.2 s hs)⟩
  | store o s k ih => exact ⟨hp.1, hp.2.1, ih hp.2.2⟩
  | emit e k ih => exact ih hp

theorem Stays.lift (q : Ask P α) : (lift q : Prog O S P E α).Stays x inv true := by
  induction q with
  | done a => trivial
  | ask a c k ih => exact ⟨rfl, ih⟩

theorem Within.bind (hp : p.Within x inv) (hf : ∀ a, (f a).Stays x inv false) :
    (p.bind f).Within x inv := by
  cases hp with
  | stays h => exact .stays (h.bind hf)
  | enters h => exact .enters (h.bind fun a => (hf a).mono)

variable [DecidableEq O] {call : O → P → P → World O S E → Option (Int × World O S E)}
  {w w' : World O S E} {a : α}

/-- What a run leaves of the memory, when callbacks do not write. -/
structure Kept (x : O) (inv : S → Prop) (w w' : World O S E) : Prop where
  inside : inv (w'.mem x)
  outside : ∀ y, y ≠ x → w'.mem y = w.mem y

theorem Stays.kept (hcall : ∀ o a b w r, call o a b w = some r → r.2.mem = w.mem)
    (h : p.Stays x inv b) (hw : inv (w.mem x)) (hrun : p.runWith call w = some (a, w')) :
    Kept x inv w w' := by
  induction p generalizing w with
  | ret c =>
    obtain ⟨-, rfl⟩ := Prod.mk.inj (Option.some.inj hrun)
    exact ⟨hw, fun _ _ => rfl⟩
  | abort => cases hrun
  | select o k ih => exact h.elim
  | ask c d k ih =>
    obtain ⟨o, -, hrun⟩ := Option.bind_eq_some_iff.1 hrun
    obtain ⟨r, hr, hrun⟩ := Option.bind_eq_some_iff.1 hrun
    have hmem := hcall o c d w r hr
    obtain ⟨h₁, h₂⟩ := ih r.1 (h.2 r.1) (by rwa [hmem]) hrun
    exact ⟨h₁, fun y hy => (h₂ y hy).trans (by rw [hmem])⟩
  | load o k ih =>
    obtain ⟨rfl, hk⟩ := h
    exact ih _ (hk _ hw) hw hrun
  | store o s k ih =>
    obtain ⟨rfl, hs, hk⟩ := h
    obtain ⟨h₁, h₂⟩ := ih hk (by simpa using hs) hrun
    exact ⟨h₁, fun y hy => (h₂ y hy).trans (Function.update_of_ne hy ..)⟩
  | emit e k ih =>
    obtain ⟨h₁, h₂⟩ := ih (w := w.report e) h hw hrun
    exact ⟨h₁, h₂⟩

theorem Within.kept (hcall : ∀ o a b w r, call o a b w = some r → r.2.mem = w.mem)
    (h : p.Within x inv) (hw : inv (w.mem x)) (hrun : p.runWith call w = some (a, w')) :
    Kept x inv w w' := by
  cases h with
  | stays h => exact h.kept hcall hw hrun
  | enters h =>
    obtain ⟨h₁, h₂⟩ := h.kept (w := w.enter x) hcall hw hrun
    exact ⟨h₁, h₂⟩

theorem Stays.current_eq {answer : S → P → P → Option Int} (h : p.Stays x (fun _ => True) b)
    (hrun : p.run answer w = some (a, w')) : w'.current = w.current := by
  induction p generalizing w with
  | ret c =>
    obtain ⟨-, rfl⟩ := Prod.mk.inj (Option.some.inj hrun)
    rfl
  | abort => cases hrun
  | select o k ih => exact h.elim
  | ask c d k ih =>
    obtain ⟨o, -, hrun⟩ := Option.bind_eq_some_iff.1 hrun
    obtain ⟨⟨i, v⟩, hv, hrun⟩ := Option.bind_eq_some_iff.1 hrun
    obtain ⟨j, -, hj⟩ := Option.map_eq_some_iff.1 hv
    obtain ⟨rfl, rfl⟩ := Prod.mk.inj hj
    exact ih j (h.2 j) hrun
  | load o k ih => exact ih _ (h.2 _ trivial) hrun
  | store o s k ih => exact ih (w := w.put o s) h.2.2 hrun
  | emit e k ih => exact ih (w := w.report e) h hrun

/-- A function that changes nothing of its object changes nothing at all. -/
theorem Within.mem_eq (hcall : ∀ o a b w r, call o a b w = some r → r.2.mem = w.mem)
    (h : p.Within x (· = w.mem x)) (hrun : p.runWith call w = some (a, w')) : w'.mem = w.mem := by
  obtain ⟨hin, hout⟩ := h.kept hcall rfl hrun
  funext o
  by_cases ho : o = x
  · exact ho ▸ hin
  · exact hout o ho

end frame

end Prog
