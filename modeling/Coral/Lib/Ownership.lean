import Mathlib.Data.Fintype.Basic
import Mathlib.Data.List.Count
import Mathlib.Data.List.Nodup
import Mathlib.Logic.Function.Basic

/-!
# Who owns what

Items are acquired, passed on and released. `own` lists for every owner the items it has; `acquired`
and `released` are all items that were, in their order, an item as often as it was. `Balanced` says
that no item has two owners or is owned twice, and that an item was acquired once more than it was
released while it has an owner, and as often when it has none: nothing is released twice, and what was
not released has an owner. There is one rule for each way an item goes.
-/

namespace Ownership

variable {ι P : Type} {own : ι → List P} {acquired released l l' : List P} {x : P} {i j : ι}

/-- Who may own an item: the client, one of the holders the client passes items to, and `lost` for the
items nobody can reach any more. -/
inductive Place (K : Type) where
  | client
  | holder (k : K)
  | lost
deriving DecidableEq

instance Place.decidableForall {K : Type} [Fintype K] {p : Place K → Prop} [DecidablePred p] :
    Decidable (∀ i, p i) :=
  decidable_of_iff (p .client ∧ (∀ k, p (.holder k)) ∧ p .lost)
    ⟨fun ⟨hc, hh, hl⟩ i => match i with
      | .client => hc
      | .holder k => hh k
      | .lost => hl, fun h => ⟨h _, fun _ => h _, h _⟩⟩

/-- No item is owned twice. -/
structure Apart (own : ι → List P) : Prop where
  nodup : ∀ i, (own i).Nodup
  disjoint : ∀ i j x, x ∈ own i → x ∈ own j → i = j

/-- The owners have what was acquired and not released. -/
structure Balanced [DecidableEq P] (own : ι → List P) (acquired released : List P) : Prop where
  apart : Apart own
  owned : ∀ i, ∀ x ∈ own i, acquired.count x = released.count x + 1
  free : ∀ x, (∀ i, x ∉ own i) → acquired.count x = released.count x

theorem Balanced.start [DecidableEq P] : Balanced (fun _ : ι => ([] : List P)) [] [] where
  apart := ⟨fun _ => List.nodup_nil, fun _ _ _ hx => absurd hx List.not_mem_nil⟩
  owned _ _ hx := absurd hx List.not_mem_nil
  free _ _ := rfl

/-- Who owns an item after `l'` was released did not release it, and somebody owned it before. -/
theorem Balanced.kept [DecidableEq P] {own' : ι → List P} (h : Balanced own acquired released)
    (h' : Balanced own' acquired (released ++ l')) (hx : x ∈ own' i) : x ∉ l' ∧ ∃ j, x ∈ own j := by
  have howned := h'.owned i x hx
  rw [List.count_append] at howned
  have hsome : ∃ j, x ∈ own j := by
    by_contra hj
    have hfree := h.free x (not_exists.1 hj)
    omega
  obtain ⟨j, hj⟩ := hsome
  have hbefore := h.owned j x hj
  exact ⟨List.count_eq_zero.1 (by omega), j, hj⟩

/-- Passing items on makes nobody an owner of something else. -/
theorem Balanced.owned_before [DecidableEq P] {own' : ι → List P} (h : Balanced own acquired released)
    (h' : Balanced own' acquired released) (hx : x ∈ own' i) : ∃ j, x ∈ own j := by
  have h' : Balanced own' acquired (released ++ []) := by rwa [List.append_nil]
  exact (h.kept h' hx).2

theorem Balanced.mem_acquired [DecidableEq P] (h : Balanced own acquired released) (hx : x ∈ own i) :
    x ∈ acquired := by
  refine List.count_pos_iff.1 ?_
  rw [h.owned i x hx]
  exact Nat.succ_pos _

section holders
variable {K : Type} [DecidableEq K] (own : Place K → List P) (k : K) (l : List P)

theorem holder_update_holder : (fun k' => Function.update own (.holder k) l (.holder k')) =
    Function.update (fun k' => own (.holder k')) k l :=
  Function.update_comp_eq_of_injective' own (fun _ _ h => Place.holder.inj h) k l

theorem holder_update_client : (fun k' => Function.update own .client l (.holder k')) =
    fun k' => own (.holder k') :=
  Function.update_comp_eq_of_forall_ne' own l fun _ h => nomatch h

theorem holder_update_lost : (fun k' => Function.update own .lost l (.holder k')) =
    fun k' => own (.holder k') :=
  Function.update_comp_eq_of_forall_ne' own l fun _ h => nomatch h

end holders

section update
variable [DecidableEq ι]

theorem mem_update {y : P} {k : ι} :
    y ∈ Function.update own i l k ↔ k = i ∧ y ∈ l ∨ k ≠ i ∧ y ∈ own k := by
  rw [Function.update_apply]
  split <;> simp [*]

/-- Change what one owner has: what is new was nobody's. -/
theorem Apart.update (h : Apart own) (hl : l.Nodup) (hnew : ∀ x ∈ l, x ∈ own i ∨ ∀ k, x ∉ own k) :
    Apart (Function.update own i l) where
  nodup k := by
    rw [Function.update_apply]
    split
    · exact hl
    · exact h.nodup k
  disjoint k₁ k₂ x h₁ h₂ := by
    -- an item of another owner is not in `l`
    have hother : ∀ {k}, k ≠ i → x ∈ own k → x ∉ l := fun hk hx hxl =>
      (hnew x hxl).elim (fun hi => hk (h.disjoint _ i x hx hi)) fun hf => hf _ hx
    rw [mem_update] at h₁ h₂
    rcases h₁ with ⟨rfl, h₁⟩ | ⟨hk₁, h₁⟩ <;> rcases h₂ with ⟨rfl, h₂⟩ | ⟨hk₂, h₂⟩
    · rfl
    · exact absurd h₁ (hother hk₂ h₂)
    · exact absurd h₂ (hother hk₁ h₁)
    · exact h.disjoint k₁ k₂ x h₁ h₂

theorem not_mem_of_update (hx : ∀ k, x ∉ Function.update own i l k) :
    x ∉ l ∧ (x ∈ own i ∨ ∀ k, x ∉ own k) := by
  refine ⟨fun hl => hx i (by simpa using hl), ?_⟩
  by_cases hi : x ∈ own i
  · exact .inl hi
  · refine .inr fun k hk => ?_
    by_cases hki : k = i
    · exact hi (hki ▸ hk)
    · exact hx k (mem_update.2 (.inr ⟨hki, hk⟩))

namespace Balanced
variable [DecidableEq P] (h : Balanced own acquired released)
include h

theorem acquire (hx : ∀ k, x ∉ own k) (hl : l.Perm (x :: own i)) :
    Balanced (Function.update own i l) (acquired ++ [x]) released := by
  have hmem : ∀ y, y ∈ l ↔ y = x ∨ y ∈ own i := fun y => by rw [hl.mem_iff, List.mem_cons]
  refine ⟨h.apart.update ?_ ?_, ?_, ?_⟩
  · exact hl.nodup_iff.2 (List.nodup_cons.2 ⟨hx i, h.apart.nodup i⟩)
  · intro y hy
    rcases (hmem y).1 hy with rfl | hy
    exacts [.inr hx, .inl hy]
  · intro k y hy
    rw [mem_update] at hy
    rw [List.count_append]
    by_cases hyx : y = x
    · subst hyx
      rw [h.free y hx, List.count_singleton_self]
    · rw [List.count_singleton, beq_false_of_ne (Ne.symm hyx)]
      rcases hy with ⟨rfl, hy⟩ | ⟨-, hy⟩
      · exact h.owned k y (((hmem y).1 hy).resolve_left hyx)
      · exact h.owned k y hy
  · intro y hy
    obtain ⟨hyl, hyi⟩ := not_mem_of_update hy
    have hne : y ≠ x ∧ y ∉ own i := not_or.1 fun hy => hyl ((hmem y).2 hy)
    rw [List.count_append, List.count_singleton, beq_false_of_ne (Ne.symm hne.1)]
    exact h.free y (hyi.resolve_left hne.2)

variable (l') in
theorem release (hl : (own i).Perm (l' ++ l)) :
    Balanced (Function.update own i l) acquired (released ++ l') := by
  have hnd : (l' ++ l).Nodup := hl.nodup_iff.1 (h.apart.nodup i)
  obtain ⟨hnd', hndl, hdis⟩ := List.nodup_append.1 hnd
  have hmem : ∀ y, y ∈ own i ↔ y ∈ l' ∨ y ∈ l := fun y => by rw [hl.mem_iff, List.mem_append]
  refine ⟨h.apart.update hndl fun y hy => .inl ((hmem y).2 (.inr hy)), ?_, ?_⟩
  · intro k y hy
    have hk : y ∈ own k ∧ y ∉ l' := by
      rw [mem_update] at hy
      rcases hy with ⟨rfl, hy⟩ | ⟨hki, hy⟩
      · exact ⟨(hmem y).2 (.inr hy), fun hy' => hdis y hy' y hy rfl⟩
      · exact ⟨hy, fun hy' => hki (h.apart.disjoint k i y hy ((hmem y).2 (.inl hy')))⟩
    rw [List.count_append, List.count_eq_zero_of_not_mem hk.2]
    exact h.owned k y hk.1
  · intro y hy
    obtain ⟨hyl, hyi⟩ := not_mem_of_update hy
    rw [List.count_append]
    by_cases hy' : y ∈ l'
    · rw [List.count_eq_one_of_mem hnd' hy']
      exact h.owned i y ((hmem y).2 (.inl hy'))
    · have hyo : y ∉ own i := fun hyo => ((hmem y).1 hyo).elim hy' hyl
      rw [List.count_eq_zero_of_not_mem hy']
      exact h.free y (hyi.resolve_left hyo)

/-- The items `l₀` go from `i` to `j`. -/
theorem pass (l₀ : List P) (hij : i ≠ j) (hl : (own i).Perm (l₀ ++ l)) (hl' : l'.Perm (l₀ ++ own j)) :
    Balanced (Function.update (Function.update own i l) j l') acquired released := by
  have hnd : (l₀ ++ l).Nodup := hl.nodup_iff.1 (h.apart.nodup i)
  obtain ⟨hnd₀, hndl, hdis⟩ := List.nodup_append.1 hnd
  have hmem : ∀ y, y ∈ own i ↔ y ∈ l₀ ∨ y ∈ l := fun y => by rw [hl.mem_iff, List.mem_append]
  have hmem' : ∀ y, y ∈ l' ↔ y ∈ l₀ ∨ y ∈ own j := fun y => by rw [hl'.mem_iff, List.mem_append]
  have hi : ∀ y ∈ l₀, y ∈ own i := fun y hy => (hmem y).2 (.inl hy)
  have hleft : Apart (Function.update own i l) :=
    h.apart.update hndl fun y hy => .inl ((hmem y).2 (.inr hy))
  have hj : Function.update own i l j = own j := Function.update_of_ne hij.symm ..
  -- between the two updates nobody has the items
  have hfree : ∀ y ∈ l₀, ∀ k, y ∉ Function.update own i l k := by
    intro y hy k hk
    rw [mem_update] at hk
    rcases hk with ⟨rfl, hk⟩ | ⟨hki, hk⟩
    · exact hdis y hy y hk rfl
    · exact hki (h.apart.disjoint k i y hk (hi y hy))
  refine ⟨hleft.update ?_ ?_, ?_, ?_⟩
  · refine hl'.nodup_iff.2 (List.nodup_append.2 ⟨hnd₀, h.apart.nodup j, ?_⟩)
    rintro y hy z hz rfl
    exact hij (h.apart.disjoint i j y (hi y hy) hz)
  · intro y hy
    rw [hj]
    rcases (hmem' y).1 hy with hy | hy
    exacts [.inr (hfree y hy), .inl hy]
  · intro k y hy
    rw [mem_update, mem_update] at hy
    rcases hy with ⟨rfl, hy⟩ | ⟨-, hy⟩
    · rcases (hmem' y).1 hy with hy | hy
      exacts [h.owned i y (hi y hy), h.owned k y hy]
    · rcases hy with ⟨rfl, hy⟩ | ⟨-, hy⟩
      exacts [h.owned k y ((hmem y).2 (.inr hy)), h.owned k y hy]
  · intro y hy
    obtain ⟨hyl', hyj⟩ := not_mem_of_update hy
    obtain ⟨hy₀, hyo⟩ := not_or.1 (mt (hmem' y).2 hyl')
    obtain ⟨hyl, hyi⟩ := not_mem_of_update (hyj.resolve_left (hj ▸ hyo))
    exact h.free y (hyi.resolve_left fun hyi => ((hmem y).1 hyi).elim hy₀ hyl)

end Balanced

end update

end Ownership
