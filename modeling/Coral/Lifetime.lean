import Coral.Calls
import Coral.Nearest

/-!
# A container over its whole life

A container is zeroed or invalidated, or it was initialised with its compare function and stores some
ascending list (`Usable`). Every call a client may make keeps that (`Usable.after_call`); on a container in
use the five queries always return (`query_returns`), whatever is stored.
-/

namespace Coral

namespace RedBlackTreeContainer
open Prog SearchTree ThreeWay

variable {P F O : Type} [DecidableEq O] {R : RockTree P} {call : F → P → P → Int} {f : F} {object : O}
  {S : List P} {w w' : World O (RedBlackTreeContainer R F) (Event P)}

/-- `object` is not in use, or it is ordered by `f` and stores some list. -/
def Usable (call : F → P → P → Int) (f : F) (object : O)
    (w : World O (RedBlackTreeContainer R F) (Event P)) : Prop :=
  (w.mem object).compare = none ∨ ∃ S, Holds call f object S w

/-- What a client respects: `f` is the compare function, and only stored entries are removed. -/
def Call.Allowed (f : F) (object : O) (w : World O (RedBlackTreeContainer R F) (Event P)) :
    Call P F → Prop
  | .init compare => ∀ f' ∈ compare, f' = f
  | .remove entry => ∀ e ∈ entry, e ∈ R.nodes (w.mem object).tree
  | _ => True

omit [DecidableEq O] in
theorem Holds.congr (h : Holds call f object S w) (hmem : w'.mem object = w.mem object) :
    Holds call f object S w' :=
  ⟨hmem ▸ h.compare, hmem ▸ h.sorted⟩

omit [DecidableEq O] in
theorem Usable.congr (h : Usable call f object w) (hmem : w'.mem object = w.mem object) :
    Usable call f object w' := by
  rcases h with h | ⟨S, h⟩
  · exact .inl (hmem ▸ h)
  · exact .inr ⟨S, h.congr hmem⟩

omit [DecidableEq O] in
theorem Usable.holds (h : Usable call f object w) {f' : F} (hf : (w.mem object).compare = some f') :
    f' = f ∧ Holds call f object (R.nodes (w.mem object).tree) w := by
  rcases h with h | ⟨S, h⟩
  · rw [hf] at h
    cases h
  · refine ⟨?_, h.sorted.nodes ▸ h⟩
    have := h.compare
    rw [hf] at this
    exact Option.some.inj this

theorem Call.readsOnly_mem {c : Call P F} (hr : c.ReadsOnly) {a : Reply P}
    (hrun : (c.exec object).run (answer call) w = some (a, w')) : w'.mem = w.mem := by
  have hwithin : (c.exec object : M O R F _).Within object (· = w.mem object) :=
    Call.within_of_readsOnly hr
  exact hwithin.mem_eq plain_mem hrun

theorem invalidate_compare {fuel : Nat} {onDestroy : Bool} {a : Reply P}
    (hrun : ((Call.invalidate fuel onDestroy).exec object).run (answer call) w = some (a, w')) :
    (w'.mem object).compare = none := by
  have htail : ∀ {v r w₁}, (load object fun s => (required (R.invalidate s.tree)).bind fun _ =>
      store object zero (ret Code.ok) : M O R F Code).run (answer call) v = some (r, w₁) →
      (w₁.mem object).compare = none := by
    intro v r w₁ h
    rw [run_load] at h
    cases ht : R.invalidate (v.mem object).tree with
    | error error =>
      rw [ht] at h
      cases h
    | ok t =>
      rw [ht] at h
      obtain ⟨-, rfl⟩ := Prod.mk.inj (Option.some.inj h)
      simp [zero]
  obtain ⟨⟨r, w₁⟩, hinv, hret⟩ := Option.bind_eq_some_iff.1 ((run_bind _ _ w).symm.trans hrun)
  obtain ⟨-, rfl⟩ := Prod.mk.inj (Option.some.inj hret)
  obtain ⟨⟨⟨error, entry⟩, w₂⟩, -, hrest⟩ := Option.bind_eq_some_iff.1 ((run_bind _ _ w).symm.trans hinv)
  by_cases he : error = .ok
  · simp only [he, if_true] at hrest
    obtain ⟨_, -, h⟩ := Option.bind_eq_some_iff.1 ((run_bind _ _ w₂).symm.trans hrest)
    exact htail h
  · simp only [he, if_false] at hrest
    obtain ⟨_, -, h⟩ := Option.bind_eq_some_iff.1 ((run_bind _ _ w₂).symm.trans hrest)
    exact htail h

section
variable [DecidableEq P] (hR : R.Lawful) (hc : TotalPreorder (call f))
include hR hc

theorem Holds.after_call (h : Holds call f object S w) {c : Call P F} (ha : c.Allowed f object w)
    {a : Reply P} (hrun : (c.exec object).run (RedBlackTreeContainer.answer call) w = some (a, w')) :
    Usable call f object w' := by
  have hread : c.ReadsOnly → Usable call f object w' := fun hr =>
    .inr ⟨S, h.congr (congrFun (Call.readsOnly_mem hr hrun) object)⟩
  cases c with
  | init compare =>
    rcases compare with _ | f'
    · obtain rfl := run_return rfl hrun
      exact .inr ⟨S, h⟩
    · obtain rfl := ha f' rfl
      obtain ⟨w₁, h₁, h₂⟩ := init_spec hR call f' object w
      obtain rfl := run_return h₁ hrun
      exact .inr ⟨[], h₂⟩
  | add entry =>
    rcases entry with _ | entry
    · obtain rfl := run_return rfl hrun
      exact .inr ⟨S, h⟩
    by_cases heq : ∃ e ∈ S, call f entry e = 0
    · obtain ⟨e, he, hz⟩ := heq
      obtain rfl := run_return (add_hit hR hc h he hz) hrun
      exact .inr ⟨S, h.enter⟩
    · obtain ⟨w₁, h₁, h₂⟩ := add_miss hR hc h fun e he hz => heq ⟨e, he, hz⟩
      obtain rfl := run_return h₁ hrun
      exact .inr ⟨_, h₂⟩
  | remove entry =>
    rcases entry with _ | e
    · obtain rfl := run_return rfl hrun
      exact .inr ⟨S, h⟩
    · obtain ⟨w₁, h₁, h₂⟩ := remove_spec hR hc h (h.sorted.nodes ▸ ha e rfl)
      obtain rfl := run_return h₁ hrun
      exact .inr ⟨_, h₂⟩
  | invalidate fuel onDestroy => exact .inl (invalidate_compare hrun)
  | count out => exact hread trivial
  | query q key out => exact hread trivial
  | first out => exact hread trivial
  | last out => exact hread trivial
  | next entry out => exact hread trivial
  | prev entry out => exact hread trivial

/-- Every allowed call leaves the container usable. -/
theorem Usable.after_call (h : Usable call f object w) {c : Call P F} (ha : c.Allowed f object w)
    {a : Reply P} (hrun : (c.exec object).run (answer call) w = some (a, w')) :
    Usable call f object w' := by
  rcases h with h | ⟨S, h⟩
  · have hkeep : (∀ f', c ≠ .init (some f')) → Usable call f object w' := by
      intro hn
      have hw : Writable fun s : RedBlackTreeContainer R F => s.compare = none :=
        ⟨rfl, fun _ _ hs => hs⟩
      have hin : (c.exec object : M O R F _).Within object _ := Call.within hw fun f' hf => absurd hf (hn f')
      exact .inl (hin.kept plain_mem h hrun).inside
    cases c with
    | init compare =>
      rcases compare with _ | f'
      · exact hkeep fun f' hf => by cases hf
      · obtain rfl := ha f' rfl
        obtain ⟨w₁, h₁, h₂⟩ := init_spec hR call f' object w
        obtain rfl := run_return h₁ hrun
        exact .inr ⟨[], h₂⟩
    | _ => exact hkeep fun f' hf => by cases hf
  · exact h.after_call hR hc ha hrun

omit hR [DecidableEq O] [DecidableEq P] in
theorem Holds.indexed (h : Holds call f object S w) : layout.Indexed f S (w.mem object) where
  compare := h.compare
  tree := h.sorted.nodes.symm ▸ h.sorted.keeps hc
  same := .of_eq h.sorted.nodes

/-- On a container in use, a query returns. -/
theorem query_returns (h : Holds call f object S w) (q : Query) (key : Option P) (out : Out (Option P)) :
    ∃ r, (query (some object) key out q : M O R F _).run (answer call) w =
      some (r, if key.isSome && out.isSome then w.enter object else w) := by
  rcases key with _ | key
  · cases q <;> exact ⟨_, rfl⟩
  rcases out with _ | v
  · cases q <;> exact ⟨_, rfl⟩
  obtain ⟨e, hrun, -⟩ := (h.indexed hc).query hR.on (fun _ _ => trivial) call q key v
  exact ⟨_, query_eq (some object) (some key) (some v) q ▸ hrun⟩

end

end RedBlackTreeContainer

end Coral
