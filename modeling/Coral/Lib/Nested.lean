import Coral.Lib.Prog

/-!
# Callbacks that change the current object

The callback of `x` may, to find its answer, use another object `d`, and then leaves `d` as the
current one (`Callback`; `reads` says for which questions it does). A function that selects `x` once,
at its start, then asks its next question of the wrong callback. `Within.onlyBy_iff` says when this does not
happen: of the questions the function asks (`asked`, were every one answered by `x`), only the last
may have been one that uses `d`. `Within.runWith_eq` says that nothing else is disturbed then.
-/

namespace Prog

variable {O S P E α β : Type}

/-- The questions of a function on one object with memory `s`, were all answered by `ans`. -/
def asked (ans : P → P → Int) : Prog O S P E α → S → List (P × P)
  | ret _, _ => []
  | abort, _ => []
  | select _ k, s => k.asked ans s
  | ask a b k, s => (a, b) :: (k (ans a b)).asked ans s
  | load _ k, s => (k s).asked ans s
  | store _ s k, _ => k.asked ans s
  | emit _ k, s => k.asked ans s

theorem asked_lift_bind (ans : P → P → Int) (q : Ask P α) (f : α → Prog O S P E β) (s : S) :
    ((lift q).bind f).asked ans s = q.asked ans ++ (f (q.eval ans)).asked ans s := by
  induction q with
  | done a => rfl
  | ask a b k ih => exact congrArg ((a, b) :: ·) (ih _)

theorem Stays.asked_eq_nil {x : O} {p : Prog O S P E α} (h : p.Stays x (fun _ => True) false)
    (ans : P → P → Int) (s : S) : p.asked ans s = [] := by
  induction p generalizing s with
  | ret a => rfl
  | abort => rfl
  | select o k ih => exact h.elim
  | ask a b k ih => exact absurd h.1 Bool.false_ne_true
  | load o k ih => exact ih s (h.2 s trivial) s
  | store o s' k ih => exact ih h.2.2 s'
  | emit e k ih => exact ih h s

theorem asked_bind_ret (ans : P → P → Int) (p : Prog O S P E α) (g : α → β) (s : S) :
    (p.bind fun a => ret (g a)).asked ans s = p.asked ans s := by
  induction p generalizing s with
  | ret a => rfl
  | abort => rfl
  | select o k ih => exact ih s
  | ask a b k ih => exact congrArg ((a, b) :: ·) (ih _ s)
  | load o k ih => exact ih s s
  | store o s' k ih => exact ih s'
  | emit e k ih => exact ih s

section
variable [DecidableEq O]

/-- Every question that the run of `p` asks is answered by the callback of `x`. -/
def OnlyBy (x : O) (call : O → P → P → World O S E → Option (Int × World O S E)) :
    Prog O S P E α → World O S E → Prop
  | ret _, _ => True
  | abort, _ => True
  | select o k, w => k.OnlyBy x call (w.enter o)
  | ask a b k, w => w.current = some x ∧ ∀ r, call x a b w = some r → (k r.1).OnlyBy x call r.2
  | load o k, w => (k (w.mem o)).OnlyBy x call w
  | store o s k, w => k.OnlyBy x call (w.put o s)
  | emit e k, w => k.OnlyBy x call (w.report e)

/-- While `d` holds `sd`, the callback of `x` answers by `ans`, writes nothing and leaves `d` selected
when it `reads`. -/
def Callback (x d : O) (inv : S → Prop) (sd : S) (ans : P → P → Int) (reads : P → P → Bool)
    (call : O → P → P → World O S E → Option (Int × World O S E)) : Prop :=
  ∀ w a b, inv (w.mem x) → w.mem d = sd → ∃ w', call x a b w = some (ans a b, w') ∧
    w'.mem = w.mem ∧ w'.current = if reads a b then some d else w.current

variable {x d : O} {inv : S → Prop} {sd : S} {ans : P → P → Int} {reads : P → P → Bool} {b : Bool}
  {call : O → P → P → World O S E → Option (Int × World O S E)}
  {p : Prog O S P E α} {w v : World O S E}

theorem onlyBy_iff_of_ne (ans : P → P → Int) (hp : p.Stays x inv b) (hw : w.current ≠ some x)
    (hi : inv (w.mem x)) : p.OnlyBy x call w ↔ p.asked ans (w.mem x) = [] := by
  induction p generalizing w with
  | ret a => simp [OnlyBy, asked]
  | abort => simp [OnlyBy, asked]
  | select o k ih => exact hp.elim
  | ask a c k ih => exact ⟨fun h => absurd h.1 hw, fun h => absurd h (List.cons_ne_nil _ _)⟩
  | load o k ih =>
    obtain ⟨rfl, hk⟩ := hp
    exact ih _ (hk _ hi) hw hi
  | store o s k ih =>
    obtain ⟨rfl, hs, hk⟩ := hp
    have hput : ((w.put o s).mem o) = s := Function.update_self ..
    have h := ih (w := w.put o s) hk hw (by rwa [hput])
    rwa [hput] at h
  | emit e k ih => exact ih (w := w.report e) hp hw hi

theorem Stays.onlyBy_iff (hcall : Callback x d inv sd ans reads call) (hxd : d ≠ x)
    (hp : p.Stays x inv b) (hw : b = true → w.current = some x) (hi : inv (w.mem x))
    (hd : w.mem d = sd) : p.OnlyBy x call w ↔
      ∀ q ∈ (p.asked ans (w.mem x)).dropLast, reads q.1 q.2 = false := by
  induction p generalizing w with
  | ret a => simp [OnlyBy, asked]
  | abort => simp [OnlyBy, asked]
  | select o k ih => exact hp.elim
  | ask a c k ih =>
    -- after the answer, the current object is still `x` exactly when the callback did not read
    obtain ⟨w', hac, hmem, hcur⟩ := hcall w a c hi hd
    have hk : (ask a c k).OnlyBy x call w ↔ (k (ans a c)).OnlyBy x call w' := by
      show (w.current = some x ∧ ∀ r, call x a c w = some r → (k r.1).OnlyBy x call r.2) ↔ _
      rw [hac]
      simp [hw hp.1]
    rw [hk]
    show _ ↔ ∀ q ∈ ((a, c) :: (k (ans a c)).asked ans (w.mem x)).dropLast, _
    cases hr : reads a c with
    | false =>
      rw [hr, if_neg (by simp)] at hcur
      have hrest := ih (ans a c) (w := w') (hp.2 _) (fun hb => hcur.trans (hw hb)) (by rwa [hmem])
        (by rwa [hmem])
      rw [hrest, hmem]
      cases (k (ans a c)).asked ans (w.mem x) with
      | nil => simp
      | cons q l => simp [hr]
    | true =>
      rw [hr, if_pos rfl] at hcur
      have hne : w'.current ≠ some x := fun h => hxd (Option.some.inj (hcur.symm.trans h))
      rw [onlyBy_iff_of_ne ans (hp.2 _) hne (by rwa [hmem]), hmem]
      cases (k (ans a c)).asked ans (w.mem x) with
      | nil => simp
      | cons q l => simp [hr]
  | load o k ih =>
    obtain ⟨rfl, hk⟩ := hp
    exact ih _ (hk _ hi) hw hi hd
  | store o s k ih =>
    obtain ⟨rfl, hs, hk⟩ := hp
    have hput : ((w.put o s).mem o) = s := Function.update_self ..
    have hputd : ((w.put o s).mem d) = sd := (Function.update_of_ne hxd ..).trans hd
    have h := ih (w := w.put o s) hk hw (by rwa [hput]) hputd
    rwa [hput] at h
  | emit e k ih => exact ih (w := w.report e) hp hw hi hd

theorem Within.onlyBy_iff (hcall : Callback x d inv sd ans reads call) (hxd : d ≠ x)
    (hp : p.Within x inv) (hi : inv (w.mem x)) (hd : w.mem d = sd) : p.OnlyBy x call w ↔
      ∀ q ∈ (p.asked ans (w.mem x)).dropLast, reads q.1 q.2 = false := by
  cases hp with
  | stays h => exact h.onlyBy_iff hcall hxd (fun hb => absurd hb Bool.false_ne_true) hi hd
  | enters h => exact h.onlyBy_iff (w := w.enter x) hcall hxd (fun _ => rfl) hi hd

/-- As long as `x` answers every question, the run is the one with the side-effect-free callback. -/
theorem Stays.runWith_eq {answer : S → P → P → Option Int}
    (hans : ∀ s, inv s → ∀ a c, answer s a c = some (ans a c))
    (hcall : Callback x d inv sd ans reads call) (hxd : d ≠ x) (hp : p.Stays x inv b)
    (hw : b = true → w.current = some x) (hmem : v.mem = w.mem) (hi : inv (w.mem x)) (hd : w.mem d = sd)
    (h : p.OnlyBy x call v) : (p.runWith call v).map (fun r => (r.1, r.2.mem)) =
      (p.run answer w).map fun r => (r.1, r.2.mem) := by
  induction p generalizing w v with
  | ret a => simp [runWith, hmem]
  | abort => rfl
  | select o k ih => exact hp.elim
  | ask a c k ih =>
    obtain ⟨hx, hk⟩ := h
    obtain ⟨v', hac, hmem', -⟩ := hcall v a c (by rwa [hmem]) (by rwa [hmem])
    show (v.current.bind fun o => (call o a c v).bind fun r => (k r.1).runWith call r.2).map _ = _
    rw [hx, Option.bind_some, hac, run_ask k (hw hp.1) (hans _ hi a c)]
    exact ih _ (hp.2 _) hw (hmem'.trans hmem) hi hd (hk _ hac)
  | load o k ih =>
    obtain ⟨rfl, hk⟩ := hp
    have h' : (k (v.mem o)).OnlyBy o call v := h
    show ((k (v.mem o)).runWith call v).map _ = _
    rw [hmem] at h' ⊢
    exact ih _ (hk _ hi) hw hmem hi hd h'
  | store o s k ih =>
    obtain ⟨rfl, hs, hk⟩ := hp
    have hput : ((w.put o s).mem o) = s := Function.update_self ..
    refine ih (w := w.put o s) (v := v.put o s) hk hw ?_ (by rwa [hput])
      ((Function.update_of_ne hxd ..).trans hd) h
    rw [World.mem_put, World.mem_put, hmem]
  | emit e k ih => exact ih (w := w.report e) (v := v.report e) hp hw hmem hi hd h

theorem Within.runWith_eq {answer : S → P → P → Option Int}
    (hans : ∀ s, inv s → ∀ a c, answer s a c = some (ans a c))
    (hcall : Callback x d inv sd ans reads call) (hxd : d ≠ x) (hp : p.Within x inv)
    (hi : inv (w.mem x)) (hd : w.mem d = sd) (h : p.OnlyBy x call w) :
    (p.runWith call w).map (fun r => (r.1, r.2.mem)) =
      (p.run answer w).map fun r => (r.1, r.2.mem) := by
  cases hp with
  | stays hp => exact hp.runWith_eq hans hcall hxd (fun hb => absurd hb Bool.false_ne_true) rfl hi hd h
  | @enters k hp =>
    have h' : k.OnlyBy x call (w.enter x) := h
    show (k.runWith call (w.enter x)).map _ = (k.run answer (w.enter x)).map _
    exact hp.runWith_eq (w := w.enter x) hans hcall hxd (fun _ => rfl) rfl hi hd h'

/-- A function whose questions are all answered without a side effect runs as with `answer`. -/
theorem Stays.runWith_plain {answer : S → P → P → Option Int}
    (hcall : ∀ w a c, inv (w.mem x) → call x a c w = plain answer x a c w) (hp : p.Stays x inv b)
    (hw : b = true → w.current = some x) (hi : inv (w.mem x)) :
    p.runWith call w = p.run answer w := by
  induction p generalizing w with
  | ret a => rfl
  | abort => rfl
  | select o k ih => exact hp.elim
  | ask a c k ih =>
    obtain ⟨rfl, hk⟩ := hp
    show (w.current.bind fun o => (call o a c w).bind _) = w.current.bind fun o => (plain answer o a c w).bind _
    rw [hw rfl, Option.bind_some, Option.bind_some, hcall w a c hi, plain]
    cases answer (w.mem x) a c with
    | none => rfl
    | some i => exact ih i (hk i) hw hi
  | load o k ih =>
    obtain ⟨rfl, hk⟩ := hp
    exact ih _ (hk _ hi) hw hi
  | store o s k ih =>
    obtain ⟨rfl, hs, hk⟩ := hp
    exact ih (w := w.put o s) hk hw (by simpa using hs)
  | emit e k ih => exact ih (w := w.report e) hp hw hi

theorem Within.runWith_plain {answer : S → P → P → Option Int}
    (hcall : ∀ w a c, inv (w.mem x) → call x a c w = plain answer x a c w) (hp : p.Within x inv)
    (hi : inv (w.mem x)) : p.runWith call w = p.run answer w := by
  cases hp with
  | stays h => exact h.runWith_plain hcall (fun hb => absurd hb Bool.false_ne_true) hi
  | enters h => exact h.runWith_plain (w := w.enter x) hcall (fun _ => rfl) hi

end

end Prog
