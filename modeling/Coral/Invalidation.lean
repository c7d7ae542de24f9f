import Coral.Lib.Environment
import Coral.Layout
import Coral.Traverse

/-!
# Invalidating a container

The loops of the three `invalidate` functions are one (`drain`): ask for the successor of an entry,
take the entry out, tell the client, free the entry, go on with the successor. `Drains` is what `next`
and `remove` have to do for that, `inv l` saying of the memory that the container holds `l`.
`Drains.run_drainAll`: the loop then ends, and every entry was destroyed once, in the order of `l`,
while the container held the entries after it (`Destroyed`).
-/

namespace Coral
open Prog

variable {O S P : Type}

/-- A client's `on_destroy`: it may do anything but take back what was reported. -/
structure Client (O S P : Type) where
  onDestroy : P → World O S (Event P) → World O S (Event P)
  log : ∀ e w, (onDestroy e w).log = w.log

/-- A callback that calls something on another container, so that `this` is left elsewhere. -/
def Client.elsewhere : Client O S P := ⟨fun _ w => { w with current := none }, fun _ _ => rfl⟩

/-- The code outside of `invalidate`: the callback, and the allocator that takes memory back. -/
def Client.env (c : Client O S P) (deallocate : P → S → S) : Env O S (Event P) where
  react
    | .destroy e, w => c.onDestroy e w
    | .free e, w => { w with mem := fun o => deallocate e (w.mem o) }
  log
    | .destroy e, w => c.log e w
    | .free _, _ => rfl

/-- What is reported of one entry. -/
def reports (onDestroy : Bool) (e : P) : List (Event P) :=
  if onDestroy then [.destroy e, .free e] else [.free e]

/-- Each entry of `l` was destroyed and then freed, in this order and nothing else, and at that moment
the memory held the entries after it, and not the entry. -/
structure Destroyed (holds : List P → (O → S) → Prop) (onDestroy : Bool) (l : List P)
    (log : List (Event P × (O → S))) : Prop where
  events : log.map Prod.fst = l.flatMap (reports onDestroy)
  states : ∀ pre e rest, l = pre ++ e :: rest → e ∉ rest ∧
    ∀ m, (.destroy e, m) ∈ log ∨ (.free e, m) ∈ log → holds rest m

section destroyed
variable {holds : List P → (O → S) → Prop} {onDestroy : Bool} {a e : P} {l : List P} {m : O → S}
  {log round : List (Event P × (O → S))}

theorem mem_reports {ev : Event P} (h : ev ∈ reports onDestroy e) : ev = .destroy e ∨ ev = .free e := by
  cases onDestroy with
  | false => exact .inr (List.mem_singleton.1 h)
  | true => simpa [reports] using h

theorem Destroyed.nil : Destroyed holds onDestroy [] [] where
  events := rfl
  states pre e rest h := by simp at h

theorem mem_of_event (hev : log.map Prod.fst = l.flatMap (reports onDestroy))
    (h : (.destroy e, m) ∈ log ∨ (.free e, m) ∈ log) : e ∈ l := by
  have hmem : Event.destroy e ∈ log.map Prod.fst ∨ Event.free e ∈ log.map Prod.fst :=
    h.imp List.mem_map_of_mem List.mem_map_of_mem
  rw [hev] at hmem
  rcases hmem with hmem | hmem
  all_goals
    obtain ⟨x, hx, hxe⟩ := List.mem_flatMap.1 hmem
    rcases mem_reports hxe with hxe | hxe <;> cases hxe
    exact hx

/-- One more entry, destroyed before the others while these were held. -/
theorem Destroyed.cons (h : Destroyed holds onDestroy l log) (ha : a ∉ l)
    (hev : round.map Prod.fst = reports onDestroy a) (hround : ∀ r ∈ round, holds l r.2) :
    Destroyed holds onDestroy (a :: l) (round ++ log) where
  events := by rw [List.map_append, hev, h.events, List.flatMap_cons]
  states pre e rest hl := by
    have hev' : round.map Prod.fst = [a].flatMap (reports onDestroy) := by simpa using hev
    cases pre with
    | nil =>
      obtain ⟨rfl, rfl⟩ := List.cons.inj hl
      refine ⟨ha, fun m hm => ?_⟩
      -- what the log says of `a` is in the first round
      have hlog : ¬ ((.destroy a, m) ∈ log ∨ (.free a, m) ∈ log) := fun hm' =>
        ha (mem_of_event h.events hm')
      obtain ⟨hd, hf⟩ := not_or.1 hlog
      rcases hm with hm | hm
      · exact hround _ ((List.mem_append.1 hm).resolve_right hd)
      · exact hround _ ((List.mem_append.1 hm).resolve_right hf)
    | cons b pre =>
      obtain ⟨rfl, rfl⟩ := List.cons.inj hl
      obtain ⟨he, hs⟩ := h.states pre e rest rfl
      refine ⟨he, fun m hm => hs m ?_⟩
      have hround' : ¬ ((.destroy e, m) ∈ round ∨ (.free e, m) ∈ round) := fun hm' =>
        ha (by simp [← List.mem_singleton.1 (mem_of_event hev' hm')])
      obtain ⟨hd, hf⟩ := not_or.1 hround'
      exact hm.imp (fun hm => (List.mem_append.1 hm).resolve_left hd)
        (fun hm => (List.mem_append.1 hm).resolve_left hf)

/-- The entries that were freed, in this order. -/
def frees (log : List (Event P × (O → S))) : List P :=
  (log.map Prod.fst).filterMap fun
    | .free e => some e
    | .destroy _ => none

theorem frees_append (log log' : List (Event P × (O → S))) : frees (log ++ log') = frees log ++ frees log' := by
  simp [frees]

theorem Destroyed.frees_eq (h : Destroyed holds onDestroy l log) : frees log = l := by
  rw [frees, h.events]
  clear h
  induction l with
  | nil => rfl
  | cons a l ih => cases onDestroy <;> simpa [reports] using ih

end destroyed

section drain
variable [DecidableEq O] {env : Env O S (Event P)} {answer : S → P → P → Option Int} {empty end_ : Code}
  {first : Prog O S P (Event P) (Code × Out (Option P))}
  {next : P → Prog O S P (Event P) (Code × Out (Option P))}
  {remove : P → Prog O S P (Event P) Code}
  {inv holds : List P → (O → S) → Prop} {out : P → List P → (O → S) → Prop} {a : P} {l : List P}
  {w : World O S (Event P)}

/-- What the loop relies on: `inv l` holds of the memory while the entries `l` are left. -/
structure Drains (env : Env O S (Event P)) (answer : S → P → P → Option Int) (end_ : Code)
    (next : P → Prog O S P (Event P) (Code × Out (Option P)))
    (remove : P → Prog O S P (Event P) Code) (inv : List P → (O → S) → Prop) : Prop where
  nodup : ∀ l m, inv l m → l.Nodup
  next : ∀ a l w, inv (a :: l) w.mem →
    (next a).run answer w = some (outcome end_ (some none) l.head?, w)
  remove : ∀ a l w, inv (a :: l) w.mem →
    ∃ w', (remove a).run answer w = some (.ok, w') ∧ w'.log = w.log ∧ inv l w'.mem
  destroy : ∀ a l w, inv l w.mem → inv l (env.react (.destroy a) w).mem
  free : ∀ a l w, a ∉ l → inv l w.mem → inv l (env.react (.free a) w).mem

/-- The same with a state in between: `out a l` holds while `a` was taken out and not yet freed, and
says at least that the entries `l` are held. -/
structure DrainsVia (env : Env O S (Event P)) (answer : S → P → P → Option Int) (end_ : Code)
    (next : P → Prog O S P (Event P) (Code × Out (Option P)))
    (remove : P → Prog O S P (Event P) Code) (inv holds : List P → (O → S) → Prop)
    (out : P → List P → (O → S) → Prop) : Prop where
  nodup : ∀ l m, inv l m → l.Nodup
  next : ∀ a l w, inv (a :: l) w.mem →
    (next a).run answer w = some (outcome end_ (some none) l.head?, w)
  remove : ∀ a l w, inv (a :: l) w.mem →
    ∃ w', (remove a).run answer w = some (.ok, w') ∧ w'.log = w.log ∧ out a l w'.mem
  destroy : ∀ a l w, out a l w.mem → out a l (env.react (.destroy a) w).mem
  free : ∀ a l w, out a l w.mem → inv l (env.react (.free a) w).mem
  holds : ∀ a l m, out a l m → holds l m

theorem Drains.via (hd : Drains env answer end_ next remove inv) :
    DrainsVia env answer end_ next remove inv inv fun a l m => a ∉ l ∧ inv l m where
  nodup := hd.nodup
  next := hd.next
  remove a l w h := by
    obtain ⟨w', hrun, hlog, h'⟩ := hd.remove a l w h
    exact ⟨w', hrun, hlog, (List.nodup_cons.1 (hd.nodup _ _ h)).1, h'⟩
  destroy a l w h := ⟨h.1, hd.destroy a l w h.2⟩
  free a l w h := hd.free a l w h.1 h.2
  holds _ _ _ h := h.2

theorem DrainsVia.run_report (hd : DrainsVia env answer end_ next remove inv holds out)
    (h : out a l w.mem) (onDestroy : Bool) :
    ∃ w' round, (∀ k : Prog O S P (Event P) Unit,
        (if onDestroy then emit (.destroy a) (emit (.free a) k) else emit (.free a) k).runIn env answer w =
          k.runIn env answer w') ∧
      w'.log = w.log ++ round ∧ inv l w'.mem ∧ round.map Prod.fst = reports onDestroy a ∧
      ∀ r ∈ round, holds l r.2 := by
  cases onDestroy with
  | false =>
    refine ⟨_, [(.free a, w.mem)], fun _ => rfl, env.log .., hd.free a l _ h, rfl, ?_⟩
    exact List.forall_mem_singleton.2 (hd.holds a l _ h)
  | true =>
    have h₁ : out a l (env.react (.destroy a) (w.report (.destroy a))).mem := hd.destroy a l _ h
    refine ⟨_, [(.destroy a, w.mem), (.free a, (env.react (.destroy a) (w.report (.destroy a))).mem)],
      fun _ => rfl, ?_, hd.free a l _ h₁, rfl, ?_⟩
    · rw [env.log, World.report, env.log, World.report, List.append_assoc]
      rfl
    · exact List.forall_mem_cons.2 ⟨hd.holds a l _ h, List.forall_mem_singleton.2 (hd.holds a l _ h₁)⟩

omit [DecidableEq O] in
theorem requiredTrue_outcome (c : Code) (out : Out (Option P)) (e : Option P) :
    (requiredTrue ((outcome c out e).1 = .ok || (outcome c out e).1 = c) : Prog O S P (Event P) Unit) =
      ret () := by
  cases e <;> simp [requiredTrue]

omit [DecidableEq O] in
theorem outcome_getD (c : Code) (e : Option P) : (outcome c (some none) e).2.getD none = e := by
  cases e <;> rfl

omit [DecidableEq O] in
theorem drain_succ (onDestroy : Bool) (fuel : Nat) (e : P) :
    drain end_ next remove onDestroy (fuel + 1) (some e) =
      (next e).bind fun r => (requiredTrue (r.1 = .ok || r.1 = end_)).bind fun _ =>
        (remove e).bind fun c => (requiredTrue (c = .ok)).bind fun _ =>
          let k := if r.1 = .ok then drain end_ next remove onDestroy fuel (r.2.getD none) else ret ()
          if onDestroy then emit (.destroy e) (emit (.free e) k) else emit (.free e) k :=
  rfl

/-- One round takes one entry out and reports it. -/
theorem DrainsVia.round (hd : DrainsVia env answer end_ next remove inv holds out)
    (h : inv (a :: l) w.mem) (onDestroy : Bool) :
    ∃ w' round, (∀ fuel, (drain end_ next remove onDestroy (fuel + 1) (some a)).runIn env answer w =
        (if (outcome end_ (some none) l.head?).1 = .ok then drain end_ next remove onDestroy fuel l.head?
          else ret ()).runIn env answer w') ∧
      w'.log = w.log ++ round ∧ inv l w'.mem ∧ round.map Prod.fst = reports onDestroy a ∧
      ∀ r ∈ round, holds l r.2 := by
  obtain ⟨w₁, hrem, hlog, h₁⟩ := hd.remove a l w h
  obtain ⟨w', round, hrep, hw', hround⟩ := hd.run_report h₁ onDestroy
  refine ⟨w', round, fun fuel => ?_, hlog ▸ hw', hround⟩
  rw [← hrep, drain_succ, runIn_seq _ (runIn_of_run env (hd.next a l w h) rfl), requiredTrue_outcome,
    outcome_getD]
  exact runIn_seq _ (runIn_of_run env hrem hlog)

/-- The loop takes the entries out one after the other, and needs a round for each. -/
theorem DrainsVia.run_drain (hd : DrainsVia env answer end_ next remove inv holds out)
    (hend : end_ ≠ .ok) (h : inv (a :: l) w.mem) (onDestroy : Bool) :
    ∃ w' log, (∀ fuel, l.length < fuel →
        (drain end_ next remove onDestroy fuel (some a)).runIn env answer w = some ((), w')) ∧
      w'.log = w.log ++ log ∧ Destroyed holds onDestroy (a :: l) log ∧ inv [] w'.mem := by
  induction l generalizing a w with
  | nil =>
    obtain ⟨w', round, hrun, hlog, h', hev, hround⟩ := hd.round h onDestroy
    refine ⟨w', round, fun fuel hfuel => ?_, hlog, ?_, h'⟩
    · obtain ⟨fuel, rfl⟩ := Nat.exists_eq_succ_of_ne_zero (Nat.ne_of_gt hfuel)
      rw [hrun]
      exact congrArg (fun p => runIn env answer p w') (if_neg hend)
    · simpa using Destroyed.nil.cons List.not_mem_nil hev hround
  | cons b l ih =>
    obtain ⟨w₁, round, hrun, hlog, h₁, hev, hround⟩ := hd.round h onDestroy
    obtain ⟨w', log, hrest, hlog', hdest, h'⟩ := ih h₁
    refine ⟨w', round ++ log, fun fuel hfuel => ?_, ?_, ?_, h'⟩
    · obtain ⟨fuel, rfl⟩ := Nat.exists_eq_succ_of_ne_zero (Nat.ne_of_gt (Nat.zero_lt_of_lt hfuel))
      rw [hrun]
      exact hrest fuel (Nat.lt_of_succ_lt_succ hfuel)
    · rw [hlog', hlog, List.append_assoc]
    · exact hdest.cons (List.nodup_cons.1 (hd.nodup _ _ h)).1 hev hround

/-- Invalidating the container: whatever is done after the loop finds it empty. -/
theorem DrainsVia.run_drainAll (hd : DrainsVia env answer end_ next remove inv holds out)
    (hempty : empty ≠ .ok) (hend : end_ ≠ .ok) (h : inv l w.mem)
    (hfirst : first.run answer w = some (outcome empty (some none) l.head?, w)) (onDestroy : Bool) :
    ∃ w' log, (∀ rest fuel, l.length ≤ fuel →
        (drainAll empty end_ first next remove rest fuel onDestroy).runIn env answer w =
          rest.runIn env answer w') ∧
      w'.log = w.log ++ log ∧ Destroyed holds onDestroy l log ∧ inv [] w'.mem := by
  have hfirst' := runIn_of_run env hfirst rfl
  cases l with
  | nil =>
    refine ⟨w, [], fun rest fuel _ => ?_, by simp, Destroyed.nil, h⟩
    refine (runIn_seq _ hfirst').trans ?_
    simp [hempty, requiredTrue]
  | cons a l =>
    obtain ⟨w', log, hrun, hlog, hdest, h'⟩ := hd.run_drain hend h onDestroy
    refine ⟨w', log, fun rest fuel hfuel => ?_, hlog, hdest, h'⟩
    refine (runIn_seq _ hfirst').trans ?_
    exact runIn_seq _ (hrun fuel hfuel)

theorem Drains.run_drainAll (hd : Drains env answer end_ next remove inv) (hempty : empty ≠ .ok)
    (hend : end_ ≠ .ok) (h : inv l w.mem)
    (hfirst : first.run answer w = some (outcome empty (some none) l.head?, w)) (onDestroy : Bool) :
    ∃ w' log, (∀ rest fuel, l.length ≤ fuel →
        (drainAll empty end_ first next remove rest fuel onDestroy).runIn env answer w =
          rest.runIn env answer w') ∧
      w'.log = w.log ++ log ∧ Destroyed inv onDestroy l log ∧ inv [] w'.mem :=
  hd.via.run_drainAll hempty hend h hfirst onDestroy

end drain

end Coral
