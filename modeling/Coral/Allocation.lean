import Coral.Layout
import Coral.Lib.Environment
import Mathlib.Data.Finset.Insert

/-!
# Requests for memory

The three `alloc` functions ask for memory in the same way: `request` is what they do until they have
it. There is one lemma for each way a request can end; `Reaches` says which requests the allocator gets
to see. `request_ends` puts them together, `request_runs` runs them. `Accounts` keeps the books of a run:
what its replies handed out.
-/

namespace Coral
open Prog

variable {O S P E : Type}

/-- The request for `size` bytes of data, in a struct of `sizeofStruct` bytes, reaches the allocator. -/
def Reaches (G : Seagrass) (sizeMax sizeofStruct size : Nat) : Prop :=
  0 < size ∧ size + sizeofStruct ≤ G.uintmaxMax ∧ size + sizeofStruct ≤ sizeMax

instance (G : Seagrass) (sizeMax sizeofStruct size : Nat) : Decidable (Reaches G sizeMax sizeofStruct size) :=
  inferInstanceAs (Decidable (_ ∧ _ ∧ _))

/-- What a request replies that the allocator answers with `answer`. -/
def allocReply (G : Seagrass) (sizeMax sizeofStruct size : Nat) (answer : Option P) : Code × Option P :=
  if size = 0 then (.seaUrchinValueIsZero, none)
  else if Reaches G sizeMax sizeofStruct size then
    answer.elim (.seaUrchinMemoryAllocationFailed, none) fun e => (.ok, some e)
  else (.seaUrchinValueIsTooLarge, none)

section
variable {G : Seagrass} {sizeMax sizeofStruct size : Nat} {answer : Option P}
  {rest : P → Prog O S P E (Code × Out (Option P))} {v : Option P} (hG : G.Lawful)
include hG

theorem request_granted (hr : Reaches G sizeMax sizeofStruct size) {e : P} :
    request G sizeMax sizeofStruct (fun _ => some e) size (some v) rest = rest e := by
  obtain ⟨size, rfl⟩ := Nat.exists_eq_succ_of_ne_zero (Nat.ne_of_gt hr.1)
  unfold request
  rw [hG.add_ok _ _ hr.2.1]
  simp only [if_neg (Nat.not_lt.2 hr.2.2)]

theorem request_refused (hr : Reaches G sizeMax sizeofStruct size) :
    request G sizeMax sizeofStruct (fun _ => none) size (some v) rest =
      ret (.seaUrchinMemoryAllocationFailed, some v) := by
  obtain ⟨size, rfl⟩ := Nat.exists_eq_succ_of_ne_zero (Nat.ne_of_gt hr.1)
  unfold request
  rw [hG.add_ok _ _ hr.2.1]
  simp only [if_neg (Nat.not_lt.2 hr.2.2)]
  rfl

theorem request_too_large (hs : size ≠ 0) (hr : ¬ Reaches G sizeMax sizeofStruct size) :
    request G sizeMax sizeofStruct (fun _ => answer) size (some v) rest =
      ret (.seaUrchinValueIsTooLarge, some v) := by
  obtain ⟨size, rfl⟩ := Nat.exists_eq_succ_of_ne_zero hs
  unfold request
  by_cases hadd : size.succ + sizeofStruct ≤ G.uintmaxMax
  · have hlt : sizeMax < size.succ + sizeofStruct :=
      Nat.lt_of_not_le fun hle => hr ⟨size.succ_pos, hadd, hle⟩
    rw [hG.add_ok _ _ hadd]
    simp only [if_pos hlt]
    rfl
  · rw [hG.add_error _ _ (Nat.lt_of_not_le hadd)]
    rfl

/-- A request hands an item out, or it replies with an error and that is all it does. -/
theorem request_ends (sizeMax sizeofStruct size : Nat) (answer v : Option P)
    (rest : P → Prog O S P E (Code × Out (Option P))) :
    (∃ e, answer = some e ∧ Reaches G sizeMax sizeofStruct size ∧
        allocReply G sizeMax sizeofStruct size answer = (.ok, some e) ∧
        request G sizeMax sizeofStruct (fun _ => answer) size (some v) rest = rest e) ∨
    (Reaches G sizeMax sizeofStruct size → answer = none) ∧
      ∃ code, allocReply G sizeMax sizeofStruct size answer = (code, none) ∧
        request G sizeMax sizeofStruct (fun _ => answer) size (some v) rest = ret (code, some v) := by
  by_cases hr : Reaches G sizeMax sizeofStruct size
  · have hs : size ≠ 0 := Nat.ne_of_gt hr.1
    cases answer with
    | none => exact .inr ⟨fun _ => rfl, _, by simp [allocReply, hs, hr], request_refused hG hr⟩
    | some e => exact .inl ⟨e, rfl, hr, by simp [allocReply, hs, hr], request_granted hG hr⟩
  · refine .inr ⟨fun h => absurd h hr, ?_⟩
    by_cases hs : size = 0
    · exact ⟨.seaUrchinValueIsZero, if_pos hs, by rw [hs]; rfl⟩
    · exact ⟨_, by simp [allocReply, hs, hr], request_too_large hG hs hr⟩

/-- The run of a request; `grant e` is what the allocator does before it hands `e` out. -/
theorem request_runs [DecidableEq O] (env : Env O S E) (ask : S → P → P → Option Int) (w : World O S E)
    (grant : P → World O S E → World O S E) (sizeMax sizeofStruct size : Nat) (answer : Option P)
    (rest : P → Prog O S P E (Code × Out (Option P))) :
    let p := (request G sizeMax sizeofStruct (fun _ => answer) size (some none) rest).bind fun r =>
      ret (r.1, r.2.getD none)
    let w₀ := if Reaches G sizeMax sizeofStruct size then answer.elim w fun e => grant e w else w
    (∃ e, answer = some e ∧ Reaches G sizeMax sizeofStruct size ∧
        allocReply G sizeMax sizeofStruct size answer = (.ok, some e) ∧
        ∀ w', (rest e).runIn env ask (grant e w) = some ((.ok, some (some e)), w') →
          p.runIn env ask w₀ = some ((.ok, some e), w')) ∨
    ∃ code, allocReply G sizeMax sizeofStruct size answer = (code, none) ∧
      p.runIn env ask w₀ = some ((code, none), w) := by
  intro p w₀
  rcases request_ends hG sizeMax sizeofStruct size answer none rest with
    ⟨e, rfl, hr, hreply, hrun⟩ | ⟨hnone, code, hreply, hrun⟩
  · have hw₀ : w₀ = grant e w := if_pos hr
    refine .inl ⟨e, rfl, hr, hreply, fun w' hrest => ?_⟩
    rw [hw₀]
    exact runIn_seq _ (hrun.symm ▸ hrest)
  · have hw₀ : w₀ = w := by
      by_cases hr : Reaches G sizeMax sizeofStruct size
      · simp [w₀, hr, hnone hr]
      · exact if_neg hr
    refine .inr ⟨code, hreply, ?_⟩
    rw [hw₀]
    exact runIn_seq _ (congrArg (fun p => p.runIn env ask w) hrun)

end

/-! ### What a run was given -/

section
variable {W A : Type} {rel : List P → W → A → Prop} {addresses : Finset P}
  {replies : List (Code × Option P)} {w w' : W} {s t : A}

/-- The run that gave `replies` was handed addresses out of `addresses`, and `rel` says where they are. -/
structure Accounts (rel : List P → W → A → Prop) (addresses : Finset P) (replies : List (Code × Option P))
    (w : W) (s : A) : Prop where
  represents : rel (replies.filterMap Prod.snd) w s
  known : ∀ x ∈ replies.filterMap Prod.snd, x ∈ addresses

theorem Accounts.start (h : rel [] w s) : Accounts rel addresses [] w s :=
  ⟨h, fun _ hx => absurd hx List.not_mem_nil⟩

theorem Accounts.reply (h : Accounts rel addresses replies w s) (code : Code)
    (ht : rel (replies.filterMap Prod.snd) w' t) : Accounts rel addresses (replies ++ [(code, none)]) w' t := by
  have hsame : (replies ++ [(code, none)]).filterMap Prod.snd = replies.filterMap Prod.snd := by simp
  exact ⟨hsame ▸ ht, hsame ▸ h.known⟩

theorem Accounts.grant (h : Accounts rel addresses replies w s) {e : P} (he : e ∈ addresses)
    (ht : rel (replies.filterMap Prod.snd ++ [e]) w' t) :
    Accounts rel addresses (replies ++ [(.ok, some e)]) w' t := by
  have hmore : (replies ++ [(Code.ok, some e)]).filterMap Prod.snd = replies.filterMap Prod.snd ++ [e] := by
    simp
  refine ⟨hmore ▸ ht, ?_⟩
  rw [hmore]
  exact List.forall_mem_append.2 ⟨h.known, List.forall_mem_singleton.2 he⟩

end

end Coral
