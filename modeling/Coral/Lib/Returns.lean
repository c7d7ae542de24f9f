import Coral.Lib.Machine

/-!
# What a function returns, whatever it is given

`p.Returns post b`: whatever is read and whatever callbacks answer, `p` returns an `a` with `post b' a`
or stops on a check; `b'` tells whether anything was written or reported until then, `b` whether
something was before. Nothing is assumed of the memory or of the callbacks. There is one rule for each
step. `Returns.run`: a run that wrote nothing leaves everything as it was. `failures_vanish`: operations
that write nothing when they fail can be left out of a run when they do.
-/

/-- The same memory and the same reports; another object may be the current one. -/
def World.SameState {O S E : Type} (w w' : World O S E) : Prop := w.mem = w'.mem ∧ w.log = w'.log

namespace Prog

variable {O S P E α β : Type} {post post' : Bool → α → Prop} {b : Bool} {o : O} {s : S}
  {p q : Prog O S P E α}

def Returns (post : Bool → α → Prop) : Bool → Prog O S P E α → Prop
  | b, ret a => post b a
  | _, abort => True
  | b, select _ k => k.Returns post b
  | b, ask _ _ k => ∀ c, (k c).Returns post b
  | b, load _ k => ∀ s, (k s).Returns post b
  | _, store _ _ k => k.Returns post true
  | _, emit _ k => k.Returns post true

theorem Returns.ret {a : α} (h : post b a) : (ret a : Prog O S P E α).Returns post b := h

theorem Returns.abort : (abort : Prog O S P E α).Returns post b := trivial

theorem Returns.select (h : p.Returns post b) : (select o p).Returns post b := h

theorem Returns.load {k : S → Prog O S P E α} (h : ∀ s, (k s).Returns post b) : (load o k).Returns post b := h

theorem Returns.store (h : p.Returns post true) : (store o s p).Returns post b := h

theorem Returns.ite {c : Prop} [Decidable c] (hp : c → p.Returns post b) (hq : ¬ c → q.Returns post b) :
    (if c then p else q).Returns post b := by
  split
  · exact hp ‹_›
  · exact hq ‹_›

theorem Returns.mono (h : p.Returns post b) (hpost : ∀ b a, post b a → post' b a) : p.Returns post' b := by
  induction p generalizing b with
  | ret a => exact hpost b a h
  | abort => trivial
  | select o k ih => exact ih h
  | ask c d k ih => exact fun i => ih i (h i)
  | load o k ih => exact fun s => ih s (h s)
  | store o s k ih => exact ih h
  | emit e k ih => exact ih h

theorem Returns.bind {f : α → Prog O S P E β} {post : Bool → β → Prop}
    (h : p.Returns (fun b a => (f a).Returns post b) b) : (p.bind f).Returns post b := by
  induction p generalizing b with
  | ret a => exact h
  | abort => trivial
  | select o k ih => exact ih h
  | ask c d k ih => exact fun i => ih i (h i)
  | load o k ih => exact fun s => ih s (h s)
  | store o s k ih => exact ih h
  | emit e k ih => exact ih h

theorem Returns.any (h : ∀ b a, post b a) : p.Returns post b := by
  induction p generalizing b with
  | ret a => exact h b a
  | abort => trivial
  | select o k ih => exact ih
  | ask c d k ih => exact fun i => ih i
  | load o k ih => exact fun s => ih s
  | store o s k ih => exact ih
  | emit e k ih => exact ih

theorem Returns.lift {t : Ask P α} (h : ∀ a, post b a) : (lift t : Prog O S P E α).Returns post b := by
  induction t with
  | done a => exact h a
  | ask c d k ih => exact ih

variable [DecidableEq O] {answer : S → P → P → Option Int} {w w' : World O S E} {a : α}

/-- What was written or reported is not undone. -/
theorem Returns.run (h : p.Returns post b) (hrun : p.run answer w = some (a, w')) :
    ∃ b', post b' a ∧ (b' = false → w'.mem = w.mem ∧ w'.log = w.log ∧ b = false) := by
  induction p generalizing w b with
  | ret c =>
    obtain ⟨rfl, rfl⟩ := Prod.mk.inj (Option.some.inj hrun)
    exact ⟨b, h, fun hb => ⟨rfl, rfl, hb⟩⟩
  | abort => cases hrun
  | select o k ih => exact ih (w := w.enter o) h hrun
  | ask c d k ih =>
    obtain ⟨o, -, hrun⟩ := Option.bind_eq_some_iff.1 hrun
    obtain ⟨⟨i, v⟩, hv, hrun⟩ := Option.bind_eq_some_iff.1 hrun
    obtain ⟨j, -, hj⟩ := Option.map_eq_some_iff.1 hv
    obtain ⟨rfl, rfl⟩ := Prod.mk.inj hj
    exact ih j (h j) hrun
  | load o k ih => exact ih _ (h _) hrun
  | store o s k ih =>
    obtain ⟨b', hb', hw⟩ := ih (w := w.put o s) h hrun
    exact ⟨b', hb', fun e => Bool.noConfusion (hw e).2.2⟩
  | emit e k ih =>
    obtain ⟨b', hb', hw⟩ := ih (w := w.report e) h hrun
    exact ⟨b', hb', fun e => Bool.noConfusion (hw e).2.2⟩

/-! ### Where a run starts -/

/-- What does not ask does not depend on the current object. -/
theorem Stays.run_congr {x : O} {v : World O S E} (h : p.Stays x (fun _ => True) false)
    (hv : v.SameState w) (hrun : p.run answer w = some (a, w')) :
    ∃ v', p.run answer v = some (a, v') ∧ v'.SameState w' := by
  induction p generalizing w v with
  | ret c =>
    obtain ⟨rfl, rfl⟩ := Prod.mk.inj (Option.some.inj hrun)
    exact ⟨v, rfl, hv⟩
  | abort => cases hrun
  | select o k ih => exact h.elim
  | ask c d k ih => exact absurd h.1 Bool.false_ne_true
  | load o k ih =>
    rw [run_load] at hrun
    rw [run_load, hv.1]
    exact ih _ (h.2 _ trivial) hv hrun
  | store o s k ih =>
    refine ih (w := w.put o s) (v := v.put o s) h.2.2 ⟨?_, hv.2⟩ hrun
    rw [World.mem_put, World.mem_put, hv.1]
  | emit e k ih =>
    refine ih (w := w.report e) (v := v.report e) h ⟨hv.1, ?_⟩ hrun
    simp only [World.report, hv.1, hv.2]

/-- A function that selects its object first does not depend on the current object. -/
theorem Within.run_congr {x : O} {v : World O S E} (h : p.Within x fun _ => True) (hv : v.SameState w)
    (hrun : p.run answer w = some (a, w')) :
    ∃ v', p.run answer v = some (a, v') ∧ v'.SameState w' := by
  cases h with
  | stays h => exact h.run_congr hv hrun
  | enters h =>
    have hsame : v.enter x = w.enter x := by simp only [World.enter, hv.1, hv.2]
    exact ⟨w', by rw [run_select, hsame, ← run_select]; exact hrun, rfl, rfl⟩

/-! ### Runs -/

theorem run_congr_of_within {v : World O S E} (h : O → ∃ x, p.Within x fun _ => True) (hv : v.SameState w)
    (hrun : p.run answer w = some (a, w')) :
    ∃ v', p.run answer v = some (a, v') ∧ v'.SameState w' := by
  have hcongr : O → ∃ v', p.run answer v = some (a, v') ∧ v'.SameState w' := by
    intro o
    obtain ⟨x, hx⟩ := h o
    exact hx.run_congr hv hrun
  -- with no current object on either side the two are the same
  obtain ⟨_ | o, m, log⟩ := v
  · obtain ⟨_ | o, m', log'⟩ := w
    · obtain ⟨rfl, rfl⟩ := hv
      exact ⟨w', hrun, rfl, rfl⟩
    · exact hcongr o
  · exact hcongr o

/-- When an operation that fails has written nothing, the run without the failed operations gives the
other replies and leads to the same state. Each operation may be answered differently. -/
theorem failures_vanish {Op : Type} {exec : Op → Prog O S P E α} {answer : Op → S → P → P → Option Int}
    {ok : α → Bool} (failed : Op → α → Prop)
    (hreturns : ∀ op, (exec op).Returns (fun b a => ok a = true ∨ b = false ∧ failed op a) false)
    (hwithin : ∀ op, O → ∃ x, (exec op).Within x fun _ => True) {ops : List Op} {l : List α}
    (hrun : Machine.runAll (fun op => (exec op).run (answer op)) ops w = some (l, w')) :
    (∀ r ∈ ops.zip l, ok r.2 = true ∨ failed r.1 r.2) ∧
      ∃ w'', Machine.runAll (fun op => (exec op).run (answer op)) (Machine.kept ok ops l) w =
          some (l.filter ok, w'') ∧ w''.SameState w' := by
  constructor
  · refine Machine.forall_of_runAll (fun op a => ok a = true ∨ failed op a) ?_ hrun
    intro op w a w' h
    obtain ⟨b, hb, -⟩ := (hreturns op).run h
    exact hb.imp id And.right
  · refine Machine.runAll_kept World.SameState ?_ ?_ ?_ ⟨rfl, rfl⟩ hrun
    · exact fun u v w h₁ h₂ => ⟨h₁.1.trans h₂.1, h₁.2.trans h₂.2⟩
    · exact fun op u w a w' hu h => run_congr_of_within (hwithin op) hu h
    · intro op w a w' h hfail
      obtain ⟨b, hb, hw⟩ := (hreturns op).run h
      obtain ⟨hmem, hlog, -⟩ := hw (hb.resolve_left (by simp [hfail])).1
      exact ⟨hmem.symm, hlog.symm⟩

end Prog
