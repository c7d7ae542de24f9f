import Coral.Allocation
import Coral.Lib.Ownership

/-!
# Who owns the entries

The abstract client of the two ordered containers (`Coral.LinkedLifecycle`, `Coral.TreeLifecycle`): an
entry is in its hands, in a container, or lost. There is one operation for each way an entry changes
hands; each keeps the balance of what was allocated and freed (`Balanced`). `Held` ties an estate to what
the containers hold.
-/

namespace Coral
open Ownership

variable {O F P : Type}

/-- Who owns the entries, and the compare function each container was initialised with. -/
structure Estate (O F P : Type) where
  own : Place O → List P
  compare : O → Option F

namespace Estate

/-- Nothing is allocated and no container is initialised. -/
def start : Estate O F P := ⟨fun _ => [], fun _ => none⟩

/-- The entries of a container, in the order they were put in. -/
def seq (s : Estate O F P) (object : O) : List P := s.own (.holder object)

/-- The client or a container has `x`. -/
def Owned (s : Estate O F P) (x : P) : Prop := x ∈ s.own .client ∨ ∃ o, x ∈ s.seq o

/-- An entry is rejected only if it was answered to be equal to a stored one. -/
def Rejects (s : Estate O F P) (call : F → P → P → Int) (object : O) (e : P) : Prop :=
  ∃ f ∈ s.compare object, ∃ x ∈ s.seq object, call f e x = 0

section
variable [DecidableEq O]

def acquire (s : Estate O F P) (e : P) : Estate O F P :=
  { s with own := Function.update s.own .client (e :: s.own .client) }

/-- Nothing leads to the entries of a container in use once it is initialised again. -/
def init (s : Estate O F P) (object : O) (compare : F) : Estate O F P where
  own := Function.update (Function.update s.own (.holder object) []) .lost
    (s.seq object ++ s.own .lost)
  compare := Function.update s.compare object (some compare)

/-- The entries of a container are freed, and it is all zero. -/
def invalidate (s : Estate O F P) (object : O) : Estate O F P where
  own := Function.update s.own (.holder object) []
  compare := Function.update s.compare object none

variable [DecidableEq P]

def free (s : Estate O F P) (e : P) : Estate O F P :=
  { s with own := Function.update s.own .client ((s.own .client).erase e) }

/-- An entry of the client goes into a container, which then holds `l`. -/
def put (s : Estate O F P) (object : O) (e : P) (l : List P) : Estate O F P :=
  { s with
      own := Function.update (Function.update s.own .client ((s.own .client).erase e)) (.holder object) l }

/-- An entry goes from a container back to the client. -/
def take (s : Estate O F P) (object : O) (e : P) : Estate O F P :=
  { s with
      own := Function.update (Function.update s.own (.holder object) ((s.seq object).erase e)) .client
        (e :: s.own .client) }

end

/-! ### The entries of the containers -/

section
variable [DecidableEq O] (s : Estate O F P) (object : O) (f : F) (e : P) (l : List P)

theorem seq_acquire : (s.acquire e).seq = s.seq := holder_update_client _ (e :: s.own .client)

theorem seq_init : (s.init object f).seq = Function.update s.seq object [] :=
  (holder_update_lost _ (s.seq object ++ s.own .lost)).trans (holder_update_holder s.own ..)

theorem seq_invalidate : (s.invalidate object).seq = Function.update s.seq object [] :=
  holder_update_holder ..

variable [DecidableEq P]

theorem seq_free : (s.free e).seq = s.seq := holder_update_client _ ((s.own .client).erase e)

theorem seq_put : (s.put object e l).seq = Function.update s.seq object l :=
  (holder_update_holder ..).trans (by rw [holder_update_client]; rfl)

theorem seq_take : (s.take object e).seq = Function.update s.seq object ((s.seq object).erase e) :=
  (holder_update_client _ (e :: s.own .client)).trans (holder_update_holder ..)

end

/-! ### What the containers hold -/

/-- The containers hold what `s` says, where `holds o f l` says that `o` was initialised with `f` and
holds `l`. -/
structure Held (holds : O → F → List P → Prop) (s : Estate O F P) : Prop where
  container : ∀ o, ∀ f ∈ s.compare o, holds o f (s.seq o)
  unused : ∀ o, s.compare o = none → s.seq o = []

namespace Held
variable {holds holds' : O → F → List P → Prop} {s t : Estate O F P} {l : List P} {object : O}
  {compare : Option F} (h : Held holds s)
include h

theorem mono (hseq : t.seq = s.seq) (hcompare : t.compare = s.compare)
    (hsame : ∀ o f l, holds o f l → holds' o f l) : Held holds' t where
  container o f hf := hseq ▸ hsame o f _ (h.container o f (hcompare ▸ hf))
  unused o ho := hseq ▸ h.unused o (hcompare ▸ ho)

/-- Only `object` is changed; if it is in use then, it holds `l`, else nothing. -/
theorem update [DecidableEq O] (hseq : t.seq = Function.update s.seq object l)
    (hcompare : t.compare = Function.update s.compare object compare)
    (hobject : ∀ f ∈ compare, holds' object f l) (hnone : compare = none → l = [])
    (hother : ∀ o ≠ object, ∀ f l, holds o f l → holds' o f l) : Held holds' t := by
  constructor
  · intro o f hf
    rw [hcompare] at hf
    rw [hseq]
    by_cases ho : o = object
    · subst ho
      rw [Function.update_self] at hf ⊢
      exact hobject f hf
    · rw [Function.update_of_ne ho] at hf ⊢
      exact hother o ho f _ (h.container o f hf)
  · intro o ho
    rw [hcompare] at ho
    rw [hseq]
    by_cases hne : o = object
    · subst hne
      rw [Function.update_self] at ho ⊢
      exact hnone ho
    · rw [Function.update_of_ne hne] at ho ⊢
      exact h.unused o ho

end Held

/-! ### The balance -/

section
variable [DecidableEq O] [DecidableEq P] {s : Estate O F P} {acquired released : List P} {object : O}
  {f : F} {e : P} {l : List P} (h : Balanced s.own acquired released)
include h

theorem balanced_acquire (he : ∀ i, e ∉ s.own i) :
    Balanced (s.acquire e).own (acquired ++ [e]) released :=
  h.acquire he (List.Perm.refl (e :: s.own .client))

theorem balanced_init : Balanced (s.init object f).own acquired released :=
  h.pass (s.seq object) nofun (by rw [List.append_nil]; rfl) .rfl

theorem balanced_invalidate (hl : (s.seq object).Perm l) :
    Balanced (s.invalidate object).own acquired (released ++ l) :=
  h.release l (by rwa [List.append_nil])

theorem balanced_free (he : e ∈ s.own .client) : Balanced (s.free e).own acquired (released ++ [e]) :=
  h.release [e] (List.perm_cons_erase he)

theorem balanced_put (he : e ∈ s.own .client) (hl : l.Perm (e :: s.seq object)) :
    Balanced (s.put object e l).own acquired released :=
  h.pass [e] nofun (List.perm_cons_erase he) hl

theorem balanced_take (he : e ∈ s.seq object) : Balanced (s.take object e).own acquired released :=
  h.pass [e] nofun (List.perm_cons_erase he) .rfl

omit [DecidableEq O] in
theorem not_mem_seq (he : e ∈ s.own .client) (o : O) : e ∉ s.seq o := fun ho => by
  cases h.apart.disjoint _ _ e he ho

omit [DecidableEq O] in
theorem length_le {addresses : Finset P} (hknown : ∀ x ∈ acquired, x ∈ addresses) (o : O) :
    (s.seq o).length ≤ addresses.card := by
  have hnd : (s.seq o).Nodup := h.apart.nodup _
  rw [← List.toFinset_card_of_nodup hnd]
  exact Finset.card_le_card fun x hx => hknown x (h.mem_acquired (List.mem_toFinset.1 hx))

end

end Estate

end Coral
