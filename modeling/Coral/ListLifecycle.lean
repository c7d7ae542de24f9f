import Coral.Allocation
import Coral.Lib.Machine
import Coral.Lib.Ownership
import Coral.ListInvalidation

/-!
# Items of linked lists from `alloc` to `free`

A client allocates items, puts them in lists, takes them out, frees them and invalidates lists, on an
allocator that may refuse a request and that hands freed memory out again. `step` says what each call
does to the lists and to who owns which item. `life_cycle`: every run does that, follows no link of a
freed item, and frees every item once for each time it was allocated, but for the last time if it is
owned or lost. An `init` of a list in use loses its items.
-/

namespace Coral

namespace LinkedList
open Prog Places Ownership

variable {P I : Type}

/-- The calls of a client. The allocator answers a request that reaches it with `answer`. -/
inductive Act (I P : Type) where
  | alloc (size : Nat) (answer : Option P)
  | free (item : P)
  | init (object : I)
  | call (op : Op I P)
  | invalidate (object : I) (onDestroy : Bool)

section
variable [DecidableEq P] [DecidableEq I] {L : RockList P}

/-- Hand the memory of `e` out. -/
def grant (e : P) (m : Memory I L.guarded) : Memory I L.guarded := { m with nodes := m.nodes.grant e }

/-- The call of an act, with its code and the item it wrote to its out parameter. -/
def Act.exec (G : Seagrass) (sizeMax sizeofItem fuel : Nat) : Act I P → M I L.guarded (Code × Option P)
  | .alloc size answer => .load () fun m =>
    -- the allocator owns what it hands out until then
    .store () (if Reaches G sizeMax sizeofItem size then answer.elim m fun e => grant e m else m) do
      let (code, out) ← LinkedList.alloc G sizeMax sizeofItem (fun _ => answer) size (some none)
      return (code, out.getD none)
  | .free item => do return (← LinkedList.free (some item), none)
  | .init object => do return (← LinkedList.init (some object), none)
  | .call op => do return (← op.exec G, none)
  | .invalidate object onDestroy => do
    return (← LinkedList.invalidate G fuel (some object) onDestroy, none)

end

/-! ### Who owns the items -/

/-- Who owns the items, which lists were initialised, and what was freed, in this order. -/
structure Estate (I P : Type) where
  own : Place I → List P
  objects : List I
  released : List P

namespace Estate

/-- Nothing is allocated and no list is initialised. -/
def start : Estate I P := ⟨fun _ => [], [], []⟩

def seq (s : Estate I P) (object : I) : List P := s.own (.holder object)

/-- The items the client or a list has. -/
def pool [DecidableEq P] (s : Estate I P) : Finset P :=
  (s.own .client ++ s.objects.flatMap s.seq).toFinset

variable [DecidableEq P] [DecidableEq I]

/-- What a call on a list does to the owners. -/
def opStep (s : Estate I P) : Op I P → Estate I P
  | .add object item => { s with
      own := Function.update (Function.update s.own .client ((s.own .client).erase item))
        (.holder object) (s.seq object ++ [item]) }
  | .insert object item value => { s with
      own := Function.update (Function.update s.own .client ((s.own .client).erase value))
        (.holder object) (insertBefore item value (s.seq object)) }
  | .remove object item => { s with
      own := Function.update (Function.update s.own (.holder object) ((s.seq object).erase item))
        .client (item :: s.own .client) }

def acquire (s : Estate I P) (item : P) : Estate I P :=
  { s with own := Function.update s.own .client (item :: s.own .client) }

/-- The client frees an item. -/
def free (s : Estate I P) (item : P) : Estate I P :=
  { s with own := Function.update s.own .client ((s.own .client).erase item)
           released := s.released ++ [item] }

/-- The items of a list are freed. -/
def invalidate (s : Estate I P) (object : I) : Estate I P :=
  { s with own := Function.update s.own (.holder object) []
           released := s.released ++ s.seq object }

/-- Nothing leads to the items of a list in use once it is initialised again. -/
def init (s : Estate I P) (object : I) : Estate I P :=
  { s with own := Function.update (Function.update s.own (.holder object) []) .lost
             (s.seq object ++ s.own .lost)
           objects := object :: s.objects }

def step (G : Seagrass) (sizeMax sizeofItem : Nat) (s : Estate I P) :
    Act I P → (Code × Option P) × Estate I P
  | .alloc size answer =>
    let r := allocReply G sizeMax sizeofItem size answer
    (r, r.2.elim s s.acquire)
  | .free item => ((.ok, none), s.free item)
  | .init object => ((.ok, none), s.init object)
  | .call op => ((.ok, none), s.opStep op)
  | .invalidate object _ => ((.ok, none), s.invalidate object)

/-- The replies and the estate of a run from nothing. -/
def run (G : Seagrass) (sizeMax sizeofItem : Nat) (acts : List (Act I P)) :
    List (Code × Option P) × Estate I P := absRun (step G sizeMax sizeofItem) start acts

/-- The client adds what it has in its hands and takes out what is in the list. -/
def OpAllowed (s : Estate I P) : Op I P → Prop
  | .add object item => object ∈ s.objects ∧ item ∈ s.own .client
  | .insert object item value => object ∈ s.objects ∧ item ∈ s.seq object ∧ value ∈ s.own .client
  | .remove object item => object ∈ s.objects ∧ item ∈ s.seq object

/-- The allocator hands out an address nobody owns; the client frees what it has in its hands, and calls
nothing but `init` on a list that is not initialised. -/
def Allowed (G : Seagrass) (sizeMax sizeofItem : Nat) (addresses : Finset P) (s : Estate I P) :
    Act I P → Prop
  | .alloc size answer => Reaches G sizeMax sizeofItem size →
      ∀ e ∈ answer, e ∈ addresses ∧ ∀ i, e ∉ s.own i
  | .free item => item ∈ s.own .client
  | .init _ => True
  | .call op => s.OpAllowed op
  | .invalidate object _ => object ∈ s.objects

instance {s : Estate I P} : (op : Op I P) → Decidable (s.OpAllowed op)
  | .add _ _ => inferInstanceAs (Decidable (_ ∧ _))
  | .insert _ _ _ => inferInstanceAs (Decidable (_ ∧ _ ∧ _))
  | .remove _ _ => inferInstanceAs (Decidable (_ ∧ _))

instance [Fintype I] {G : Seagrass} {sizeMax sizeofItem : Nat} {addresses : Finset P} {s : Estate I P} :
    (act : Act I P) → Decidable (s.Allowed G sizeMax sizeofItem addresses act)
  | .alloc _ _ => inferInstanceAs (Decidable (_ → ∀ _, _ → _ ∧ _))
  | .free _ => inferInstanceAs (Decidable (_ ∈ _))
  | .init _ => isTrue trivial
  | .call op => inferInstanceAs (Decidable (Estate.OpAllowed _ op))
  | .invalidate _ _ => inferInstanceAs (Decidable (_ ∈ _))

end Estate

/-! ### What a memory says of an estate -/

section
variable [DecidableEq P] {L : RockList P} {s : Estate I P} {m : Memory I L.guarded} {acquired : List P}
  {object : I} {e : P}

/-- The lists hold what `s` says, what is owned is allocated, and `acquired` is what was handed out. -/
structure Represents (acquired : List P) (m : Memory I L.guarded) (s : Estate I P) : Prop where
  balanced : Balanced s.own acquired s.released
  keeps : L.guarded.Keeps (· ∈ s.own .client) m.nodes s.seq
  handles : ∀ i ∈ s.objects, m.lists i = ⟨(s.seq i).length, (s.seq i).head?⟩
  unused : ∀ i, i ∉ s.objects → s.seq i = []
  live : ∀ i, ∀ x ∈ s.own i, x ∉ m.nodes.freed

namespace Represents

theorem start (m : Memory I L.guarded) : Represents [] m Estate.start where
  balanced := Balanced.start
  keeps := ⟨fun _ => Links.Ring.nil, fun _ => List.nodup_nil, fun _ _ _ hx => absurd hx List.not_mem_nil,
    fun _ hx => absurd hx List.not_mem_nil⟩
  handles _ hi := absurd hi List.not_mem_nil
  unused _ _ := rfl
  live _ _ hx := absurd hx List.not_mem_nil

variable (h : Represents acquired m s)
include h

theorem mem_pool {x : P} : x ∈ s.pool ↔ x ∈ s.own .client ∨ ∃ i, x ∈ s.seq i := by
  rw [Estate.pool, List.mem_toFinset, List.mem_append, List.mem_flatMap]
  refine or_congr_right ⟨fun ⟨i, _, hx⟩ => ⟨i, hx⟩, fun ⟨i, hx⟩ => ⟨i, ?_, hx⟩⟩
  by_contra hi
  rw [h.unused i hi] at hx
  cases hx

theorem not_mem_seq (he : e ∈ s.own .client) (i : I) : e ∉ s.seq i := fun hi => by
  cases h.balanced.apart.disjoint _ _ e he hi

theorem live_pool : ∀ x ∈ s.pool, x ∉ m.nodes.freed := by
  intro x hx
  rcases h.mem_pool.1 hx with hx | ⟨i, hx⟩
  · exact h.live _ x hx
  · exact h.live _ x hx

/-- There are no more items than addresses were handed out. -/
theorem card_pool : s.pool.card ≤ acquired.toFinset.card := by
  refine Finset.card_le_card fun x hx => List.mem_toFinset.2 ?_
  rcases h.mem_pool.1 hx with hx | ⟨i, hx⟩
  · exact h.balanced.mem_acquired hx
  · exact h.balanced.mem_acquired hx

theorem holds {w : World Unit (Memory I L.guarded) (Event P)} (hw : w.mem () = m) :
    Holds s.objects s.pool s.seq w := by
  subst hw
  refine ⟨⟨h.keeps.ring, h.keeps.nodup, h.keeps.disjoint, ?_⟩, ?_, h.handles⟩
  · intro x hp hx
    refine h.keeps.alone x ((h.mem_pool.1 hp).resolve_right ?_) hx
    rintro ⟨i, hi⟩
    exact hx i hi
  · exact fun i x hx => h.mem_pool.2 (.inr ⟨i, hx⟩)

end Represents

end

/-! ### The calls -/

section
variable [DecidableEq P] [DecidableEq I] {L : RockList P} {s : Estate I P} {acquired : List P} {e : P}
  {object : I} {m : Memory I L.guarded} {w : World Unit (Memory I L.guarded) (Event P)}

theorem Estate.seq_opStep (s : Estate I P) (op : Op I P) :
    (s.opStep op).seq = (Sequences.step s.seq op).2 := by
  cases op with
  | add object item => exact (holder_update_holder ..).trans (by rw [holder_update_client]; rfl)
  | insert object item value => exact (holder_update_holder ..).trans (by rw [holder_update_client]; rfl)
  | remove object item => exact (holder_update_client _ (item :: s.own .client)).trans (holder_update_holder ..)

section
variable {G : Seagrass} {op : Op I P}

omit [DecidableEq I] in
theorem Represents.allowed (h : Represents acquired m s)
    (hop : s.OpAllowed op) :
    Sequences.Allowed s.objects s.pool s.seq op := by
  cases op with
  | add object item => exact ⟨hop.1, h.mem_pool.2 (.inl hop.2), h.not_mem_seq hop.2⟩
  | insert object item value =>
    exact ⟨hop.1, hop.2.1, h.mem_pool.2 (.inl hop.2.2), h.not_mem_seq hop.2.2⟩
  | remove object item => exact hop

theorem Represents.balanced_opStep (h : Represents acquired m s)
    (hop : s.OpAllowed op) :
    Balanced (s.opStep op).own acquired s.released := by
  cases op with
  | add object item =>
    exact h.balanced.pass [item] nofun (List.perm_cons_erase hop.2) List.perm_append_comm
  | insert object item value =>
    exact h.balanced.pass [value] nofun (List.perm_cons_erase hop.2.2)
      (perm_insertBefore hop.2.1)
  | remove object item =>
    exact h.balanced.pass [item] nofun (List.perm_cons_erase hop.2) .rfl

/-- Whoever changes the lists, the items the client has are not linked to any. -/
theorem Represents.opStep (h : Represents acquired m s)
    (hop : s.OpAllowed op)
    (hlive : ∀ x, x ∉ (w.mem ()).nodes.freed ↔ x ∉ m.nodes.freed)
    (hw : Holds s.objects s.pool (Sequences.step s.seq op).2 w) :
    Represents acquired (w.mem ()) (s.opStep op) := by
  have hbal := h.balanced_opStep hop
  have hobjects : (s.opStep op).objects = s.objects := by cases op <;> rfl
  have hreleased : (s.opStep op).released = s.released := by cases op <;> rfl
  refine ⟨hreleased ▸ hbal, ?_, ?_, ?_, ?_⟩
  · rw [Estate.seq_opStep]
    refine hw.keeps.mono fun x hx => h.mem_pool.2 ?_
    cases op with
    | add object item => exact .inl (List.mem_of_mem_erase hx)
    | insert object item value => exact .inl (List.mem_of_mem_erase hx)
    | remove object item =>
      rcases List.mem_cons.1 hx with rfl | hx
      exacts [.inr ⟨object, hop.2⟩, .inl hx]
  · rw [Estate.seq_opStep, hobjects]
    exact hw.object
  · intro i hi
    rw [hobjects] at hi
    rw [Estate.seq_opStep, ← h.unused i hi]
    cases op with
    | add object item => exact Function.update_of_ne (ne_of_mem_of_not_mem hop.1 hi).symm ..
    | insert object item value => exact Function.update_of_ne (ne_of_mem_of_not_mem hop.1 hi).symm ..
    | remove object item => exact Function.update_of_ne (ne_of_mem_of_not_mem hop.1 hi).symm ..
  · intro i x hx
    obtain ⟨j, hj⟩ := h.balanced.owned_before hbal hx
    exact (hlive x).2 (h.live j x hj)

theorem Represents.call (hL : L.Lawful) (hG : G.Lawful) (h : Represents acquired (w.mem ()) s)
    (hfit : acquired.toFinset.card ≤ G.uintmaxMax) (hop : s.OpAllowed op) :
    ∃ w', (op.exec G).run noCallback w = some (.ok, w') ∧ w'.log = w.log ∧
      Represents acquired (w'.mem ()) (s.opStep op) := by
  have hw := h.holds rfl
  obtain ⟨w', hrun, hlive, h'⟩ := step_on (RockList.guarded_on hL) hG hw h.live_pool op (h.allowed hop)
    (hw.fits (h.card_pool.trans hfit) (h.allowed hop))
  have hcode : (Sequences.step s.seq op).1 = .ok := by cases op <;> rfl
  rw [hcode] at hrun
  exact ⟨w', hrun, op.quiet.log_eq hrun, h.opStep hop (fun x => iff_of_eq (congrFun hlive x)) h'⟩

end

omit [DecidableEq I] in
theorem Represents.of_seq (h : Represents acquired m s) {acquired' : List P} {m' : Memory I L.guarded}
    {s' : Estate I P} (hbal : Balanced s'.own acquired' s'.released) (hseq : s'.seq = s.seq)
    (hobjects : s'.objects = s.objects) (hlists : m'.lists = m.lists)
    (hkeeps : L.guarded.Keeps (· ∈ s'.own .client) m'.nodes s.seq)
    (hlive : ∀ i, ∀ x ∈ s'.own i, x ∉ m'.nodes.freed) : Represents acquired' m' s' := by
  refine ⟨hbal, hseq ▸ hkeeps, ?_, ?_, hlive⟩ <;> rw [hseq, hobjects]
  · rw [hlists]
    exact h.handles
  · exact h.unused

theorem Represents.free (h : Represents acquired m s) (he : e ∈ s.own .client) :
    Represents acquired (deallocate e m) (s.free e) := by
  have hbal : Balanced (s.free e).own acquired (s.free e).released :=
    h.balanced.release [e] (List.perm_cons_erase he)
  refine h.of_seq hbal rfl rfl rfl ?_ fun i x hx => ?_
  · exact h.keeps.mono fun x hx => List.mem_of_mem_erase (by simpa [Estate.free] using hx)
  · obtain ⟨hxe, j, hj⟩ := h.balanced.kept hbal hx
    exact fun hf => (List.mem_cons.1 hf).elim (fun hf => hxe (List.mem_singleton.2 hf)) (h.live j x hj)

theorem Represents.alloc (hL : L.Lawful) (h : Represents acquired m s) (he : ∀ i, e ∉ s.own i) :
    ∃ nodes, L.guarded.nodeInit (grant e m).nodes e = .ok nodes ∧
      Represents (acquired ++ [e]) { m with nodes }
        { s with own := Function.update s.own .client (e :: s.own .client) } := by
  have hlive : e ∉ (grant e m).nodes.freed := by simp [grant, Guarded.grant]
  obtain ⟨nodes, hn, hfreed, halone, hframe⟩ := (RockList.guarded_on hL).nodeInit_ok _ e hlive
  have hbal := h.balanced.acquire he (List.Perm.refl (e :: s.own .client))
  refine ⟨nodes, hn, h.of_seq hbal rfl rfl rfl ?_ fun i x hx => ?_⟩
  · refine (h.keeps.enlarge (fun j => he _) halone hframe).mono fun x hx => ?_
    simpa using hx
  · refine (congrFun hfreed x).mpr ?_
    by_cases hxe : x = e
    · exact hxe ▸ hlive
    · have hxo : ∃ j, x ∈ s.own j := by
        rcases mem_update.1 hx with ⟨-, hx⟩ | ⟨-, hx⟩
        exacts [⟨_, (List.mem_cons.1 hx).resolve_left hxe⟩, ⟨_, hx⟩]
      obtain ⟨j, hj⟩ := hxo
      exact fun hf => h.live j x hj (List.mem_filter.1 hf).1

/-- A list in use is initialised again. -/
theorem Represents.init (h : Represents acquired m s) (object : I) :
    Represents acquired (m.set object zero) (s.init object) := by
  have hbal : Balanced (s.init object).own acquired s.released :=
    h.balanced.pass (s.seq object) nofun (by rw [List.append_nil]; rfl) .rfl
  have hseq : (s.init object).seq = Function.update s.seq object [] :=
    (holder_update_lost _ (s.seq object ++ s.own .lost)).trans (holder_update_holder s.own ..)
  refine ⟨hbal, ?_, fun i hi => ?_, fun i hi => ?_, fun i x hx => ?_⟩
  · rw [hseq]
    have hkeeps := h.keeps.forget fun x hx => h.not_mem_seq hx object
    exact hkeeps.mono fun x hx => by simpa [Estate.init] using hx
  · rw [hseq]
    by_cases hio : i = object
    · subst hio
      simp [Memory.set, zero]
    · simp only [Memory.set, Function.update_of_ne hio]
      exact h.handles i ((List.mem_cons.1 hi).resolve_left hio)
  · obtain ⟨hio, hi⟩ := not_or.1 (mt List.mem_cons.2 hi)
    rw [hseq, Function.update_of_ne hio]
    exact h.unused i hi
  · obtain ⟨j, hj⟩ := h.balanced.owned_before hbal hx
    exact h.live j x hj

/-- The items `pre` of the list `object` were freed and `l` are left in it. -/
def Estate.drained (s : Estate I P) (object : I) (pre l : List P) : Estate I P :=
  { s with own := Function.update s.own (.holder object) l, released := s.released ++ pre }

omit [DecidableEq P] in
theorem Estate.seq_drained (s : Estate I P) (object : I) (pre l : List P) :
    (s.drained object pre l).seq = Function.update s.seq object l :=
  holder_update_holder ..

/-- An item of a list that is drained is taken out. -/
def Estate.between (s : Estate I P) (object : I) (pre : List P) (a : P) (l : List P) : Estate I P :=
  { s with own := Function.update (Function.update s.own (.holder object) l) .client (a :: s.own .client)
           released := s.released ++ pre }

theorem Estate.opStep_drained (s : Estate I P) (object : I) (pre : List P) (a : P) (l : List P) :
    (s.drained object pre (a :: l)).opStep (.remove object a) = s.between object pre a l := by
  simp [opStep, drained, between, seq]

theorem Estate.free_between (s : Estate I P) (object : I) (pre : List P) (a : P) (l : List P) :
    (s.between object pre a l).free a = s.drained object (pre ++ [a]) l := by
  have hclient : Function.update (Function.update s.own (.holder object) l) .client (s.own .client) =
      Function.update s.own (.holder object) l :=
    Function.update_eq_iff.2 ⟨rfl, fun _ _ => rfl⟩
  simp [free, drained, between, hclient]

section
variable {G : Seagrass} {c : Client Unit (Memory I L.guarded) P} (hL : L.Lawful) (hG : G.Lawful)
include hL hG

theorem drainsVia (hcall : ∀ e u, (c.onDestroy e u).mem = u.mem) (ho : object ∈ s.objects)
    (hfit : acquired.toFinset.card ≤ G.uintmaxMax) :
    DrainsVia (c.env deallocate) noCallback .seaUrchinEndOfSequence
      (fun e => next (some object) (some e) (some none)) (fun e => remove G (some object) (some e))
      (fun l m => ∃ pre, s.seq object = pre ++ l ∧ Represents acquired (m ()) (s.drained object pre l))
      (fun _ _ => True)
      (fun a l m => ∃ pre, s.seq object = pre ++ a :: l ∧
        Represents acquired (m ()) (s.between object pre a l)) where
  nodup l m h := by
    obtain ⟨pre, -, h⟩ := h
    simpa [Estate.seq_drained] using h.keeps.nodup object
  next a l u h := by
    obtain ⟨pre, -, h⟩ := h
    have hseq : (s.drained object pre (a :: l)).seq object = [] ++ a :: l := by
      simp [Estate.seq_drained]
    exact next_spec (RockList.guarded_on hL) (h.holds rfl) h.live_pool ho hseq none
  remove a l u h := by
    obtain ⟨pre, hpre, h⟩ := h
    have ha : a ∈ (s.drained object pre (a :: l)).seq object := by simp [Estate.seq_drained]
    have hop : (s.drained object pre (a :: l)).OpAllowed (.remove object a) := ⟨ho, ha⟩
    obtain ⟨u', hrun, hlog, h'⟩ := h.call hL hG hfit hop
    rw [Estate.opStep_drained] at h'
    exact ⟨u', hrun, hlog, pre, hpre, h'⟩
  destroy a l u h := by
    obtain ⟨pre, hpre, h⟩ := h
    exact ⟨pre, hpre, (congrFun (hcall a u) ()).symm ▸ h⟩
  free a l u h := by
    obtain ⟨pre, hpre, h⟩ := h
    have ha : a ∈ (s.between object pre a l).own .client := by simp [Estate.between]
    refine ⟨pre ++ [a], by simp [hpre], ?_⟩
    rw [← Estate.free_between]
    exact h.free ha
  holds _ _ _ _ := trivial

theorem Represents.invalidate (hcall : ∀ e u, (c.onDestroy e u).mem = u.mem)
    (h : Represents acquired (w.mem ()) s) (ho : object ∈ s.objects)
    (hfit : acquired.toFinset.card ≤ G.uintmaxMax) {fuel : Nat} (hfuel : acquired.toFinset.card ≤ fuel)
    (onDestroy : Bool) :
    ∃ w', (LinkedList.invalidate G fuel (some object) onDestroy).runIn (c.env deallocate) noCallback w =
        some (.ok, w') ∧
      frees w'.log = frees w.log ++ s.seq object ∧
      Represents acquired (w'.mem ()) (s.invalidate object) := by
  have hstart : s.drained object [] (s.seq object) = s := by
    have hown : Function.update s.own (.holder object) (s.seq object) = s.own :=
      Function.update_eq_self ..
    simp [Estate.drained, hown]
  have hw := h.holds rfl
  obtain ⟨w₁, log, hrun, hlog, hdest, pre, hpre, h₁⟩ := (drainsVia hL hG hcall ho hfit).run_drainAll
    (by decide) (by decide) ⟨[], rfl, hstart.symm ▸ h⟩ (first_spec hw ho none) onDestroy
  rw [List.append_nil] at hpre
  have hlength : (s.seq object).length ≤ fuel := by
    have hsub : (s.seq object).toFinset ⊆ s.pool := fun x hx =>
      h.mem_pool.2 (.inr ⟨object, List.mem_toFinset.1 hx⟩)
    have hcard := (Finset.card_le_card hsub).trans (h.card_pool.trans hfuel)
    rwa [List.toFinset_card_of_nodup (hw.keeps.nodup object)] at hcard
  have hzero : (w₁.mem ()).set object zero = w₁.mem () := by
    have hobject : (w₁.mem ()).lists object = zero := by
      rw [h₁.handles object ho, Estate.seq_drained, Function.update_self]
      rfl
    simp [Memory.set, ← hobject]
  refine ⟨w₁.put () ((w₁.mem ()).set object zero), ?_, ?_, ?_⟩
  · exact hrun _ fuel hlength
  · show frees w₁.log = _
    rw [hlog, frees_append, hdest.frees_eq]
    rfl
  · rw [World.mem_put, Function.update_self, hzero]
    rw [← hpre] at h₁
    exact h₁

end

/-! ### Runs -/

section
variable {G : Seagrass} {sizeMax sizeofItem fuel : Nat} {c : Client Unit (Memory I L.guarded) P}
  {addresses : Finset P} {replies : List (Code × Option P)}

/-- An act of the client, `c` being its callback. -/
def Act.run (G : Seagrass) (sizeMax sizeofItem fuel : Nat) (c : Client Unit (Memory I L.guarded) P)
    (act : Act I P) (w : World Unit (Memory I L.guarded) (Event P)) :
    Option ((Code × Option P) × World Unit (Memory I L.guarded) (Event P)) :=
  (act.exec G sizeMax sizeofItem fuel).runIn (c.env deallocate) noCallback w

omit [DecidableEq P] [DecidableEq I] in
theorem run_nodeInit {K : RockList P} {env : Env Unit (Memory I K) (Event P)}
    {u : World Unit (Memory I K) (Event P)} {item : P} {nodes : K.Heap}
    (hn : K.nodeInit (u.mem ()).nodes item = .ok nodes) :
    (nodeInit item : M I K _).runIn env noCallback u =
      some ((.ok, some (some item)), u.put () { u.mem () with nodes }) := by
  unfold nodeInit
  rw [runIn_load, hn]
  rfl

/-- What a run that gave `replies` and leads to `w` has allocated is accounted for by `s`. -/
structure Accounts (addresses : Finset P) (replies : List (Code × Option P))
    (w : World Unit (Memory I L.guarded) (Event P)) (s : Estate I P) : Prop where
  represents : Represents (replies.filterMap Prod.snd) (w.mem ()) s
  frees : frees w.log = s.released
  known : ∀ x ∈ replies.filterMap Prod.snd, x ∈ addresses

omit [DecidableEq I] in
theorem Accounts.reply (h : Accounts addresses replies w s)
    {w' : World Unit (Memory I L.guarded) (Event P)} {s' : Estate I P} (code : Code)
    (hs : Represents (replies.filterMap Prod.snd) (w'.mem ()) s') (hf : Coral.frees w'.log = s'.released) :
    Accounts addresses (replies ++ [(code, none)]) w' s' := by
  have hsame : (replies ++ [(code, none)]).filterMap Prod.snd = replies.filterMap Prod.snd := by simp
  exact ⟨hsame ▸ hs, hf, hsame ▸ h.known⟩

omit [DecidableEq I] in
theorem Accounts.card_le (h : Accounts addresses replies w s) :
    (replies.filterMap Prod.snd).toFinset.card ≤ addresses.card :=
  Finset.card_le_card fun x hx => h.known x (List.mem_toFinset.1 hx)

variable (hL : L.Lawful) (hG : G.Lawful)
include hL hG

theorem Accounts.alloc (h : Accounts addresses replies w s) {size : Nat} {answer : Option P}
    (hop : s.Allowed G sizeMax sizeofItem addresses (.alloc size answer)) :
    ∃ w', (Act.alloc size answer).run G sizeMax sizeofItem fuel c w =
        some ((s.step G sizeMax sizeofItem (.alloc size answer)).1, w') ∧
      Accounts addresses (replies ++ [(s.step G sizeMax sizeofItem (.alloc size answer)).1]) w'
        (s.step G sizeMax sizeofItem (.alloc size answer)).2 := by
  rcases request_ends hG sizeMax sizeofItem size answer none (nodeInit : P → M I L.guarded _) with
    ⟨e, rfl, hr, hreply, hrun⟩ | ⟨hnone, code, hreply, hrun⟩
  · obtain ⟨hknown, hfresh⟩ := hop hr e rfl
    have hstep : s.step G sizeMax sizeofItem (.alloc size (some e)) = ((.ok, some e), s.acquire e) := by
      simp [Estate.step, hreply]
    obtain ⟨nodes, hn, hrep⟩ := h.represents.alloc hL hfresh
    have hsame : (replies ++ [(Code.ok, some e)]).filterMap Prod.snd =
        replies.filterMap Prod.snd ++ [e] := by simp
    rw [hstep]
    refine ⟨w.put () { w.mem () with nodes }, ?_, ?_⟩
    · have hn' : L.guarded.nodeInit ((w.put () (grant e (w.mem ()))).mem ()).nodes e = .ok nodes := by
        rwa [World.mem_put, Function.update_self]
      unfold Act.run Act.exec
      simp only [runIn_load, runIn_store, if_pos hr, Option.elim_some]
      rw [LinkedList.alloc, hrun]
      refine (runIn_seq _ (run_nodeInit hn')).trans ?_
      simp only [World.mem_put, Function.update_self, World.put_put]
      rfl
    · refine ⟨?_, h.frees, ?_⟩
      · rw [hsame, World.mem_put, Function.update_self]
        exact hrep
      · rw [hsame]
        exact List.forall_mem_append.2 ⟨h.known, List.forall_mem_singleton.2 hknown⟩
  · have hstep : s.step G sizeMax sizeofItem (.alloc size answer) = ((code, none), s) := by
      simp [Estate.step, hreply]
    have hbefore : (if Reaches G sizeMax sizeofItem size then answer.elim (w.mem ()) fun e => grant e (w.mem ())
        else w.mem ()) = w.mem () := by
      split
      · rw [hnone ‹_›]
        rfl
      · rfl
    rw [hstep]
    refine ⟨w, ?_, h.reply _ h.represents h.frees⟩
    unfold Act.run Act.exec
    simp only [runIn_load, runIn_store, hbefore, World.put_self]
    rw [LinkedList.alloc, hrun]
    rfl

theorem Accounts.step (hcall : ∀ e u, (c.onDestroy e u).mem = u.mem)
    (hfit : addresses.card ≤ G.uintmaxMax) (hfuel : addresses.card ≤ fuel)
    (h : Accounts addresses replies w s) (act : Act I P)
    (hop : s.Allowed G sizeMax sizeofItem addresses act) :
    ∃ w', act.run G sizeMax sizeofItem fuel c w = some ((s.step G sizeMax sizeofItem act).1, w') ∧
      Accounts addresses (replies ++ [(s.step G sizeMax sizeofItem act).1]) w'
        (s.step G sizeMax sizeofItem act).2 := by
  cases act with
  | alloc size answer => exact h.alloc hL hG hop
  | free item =>
    refine ⟨_, rfl, h.reply _ (h.represents.free hop) ?_⟩
    show Coral.frees (w.log ++ [(.free item, w.mem)]) = _
    rw [frees_append, h.frees]
    rfl
  | init object => exact ⟨_, rfl, h.reply _ (h.represents.init object) h.frees⟩
  | call op =>
    obtain ⟨w', hrun, hlog, h'⟩ := h.represents.call hL hG (h.card_le.trans hfit) hop
    refine ⟨w', runIn_seq _ (runIn_of_run _ hrun hlog), h.reply _ h' ?_⟩
    rw [hlog, h.frees]
    cases op <;> rfl
  | invalidate object onDestroy =>
    obtain ⟨w', hrun, hfrees, h'⟩ := h.represents.invalidate hL hG hcall hop (h.card_le.trans hfit)
      (h.card_le.trans hfuel) onDestroy
    exact ⟨w', runIn_seq _ hrun, h.reply _ h' (by rw [hfrees, h.frees]; rfl)⟩

/-- Whatever a client does on an allocator that may fail, each list goes through its sequence, no link
of a freed item is followed, and each item was freed as often as it was allocated, but for the last
time if it is owned or lost. -/
theorem life_cycle (hcall : ∀ e u, (c.onDestroy e u).mem = u.mem) (hfit : addresses.card ≤ G.uintmaxMax)
    (hfuel : addresses.card ≤ fuel) (hw : w.log = []) (acts : List (Act I P))
    (hacts : AbsValid (Estate.step G sizeMax sizeofItem) (Estate.Allowed G sizeMax sizeofItem addresses)
      Estate.start acts) :
    ∃ w', Machine.runAll (Act.run G sizeMax sizeofItem fuel c) acts w =
        some ((Estate.run G sizeMax sizeofItem acts).1, w') ∧
      Shows (Estate.run G sizeMax sizeofItem acts).2.objects (Estate.run G sizeMax sizeofItem acts).2.seq w' ∧
      Coral.frees w'.log = (Estate.run G sizeMax sizeofItem acts).2.released ∧
      Balanced (Estate.run G sizeMax sizeofItem acts).2.own
        ((Estate.run G sizeMax sizeofItem acts).1.filterMap Prod.snd)
        (Estate.run G sizeMax sizeofItem acts).2.released ∧
      ∀ i, ∀ x ∈ (Estate.run G sizeMax sizeofItem acts).2.own i, x ∉ (w'.mem ()).nodes.freed := by
  have hstart : Accounts addresses [] w Estate.start :=
    ⟨Represents.start _, by rw [hw]; rfl, by simp⟩
  have hstep : ∀ replies w s act, Accounts addresses replies w s →
      Estate.Allowed G sizeMax sizeofItem addresses s act →
      ∃ w', Act.run G sizeMax sizeofItem fuel c act w = some ((s.step G sizeMax sizeofItem act).1, w') ∧
        Accounts addresses (replies ++ [(s.step G sizeMax sizeofItem act).1]) w'
          (s.step G sizeMax sizeofItem act).2 :=
    fun replies w s act h hop => h.step hL hG hcall hfit hfuel act hop
  obtain ⟨w', hrun, h⟩ := Machine.sim_runAll hstep acts hstart hacts
  rw [List.nil_append] at h
  refine ⟨w', hrun, ?_, h.frees, h.represents.balanced, h.represents.live⟩
  exact (h.represents.holds rfl).shows_on (RockList.guarded_on hL) h.represents.live_pool

end

end

/-- Two lists, an address that is handed out twice, a refused request. -/
def acts : List (Act Bool Nat) :=
  [.init true, .alloc 8 (some 1), .alloc 8 (some 2), .alloc 8 none, .call (.add true 1),
    .call (.insert true 1 2), .call (.remove true 1), .free 1, .alloc 8 (some 1), .init false,
    .call (.add false 1), .invalidate true true]

theorem life_cycle_example :
    ∃ w' : World Unit (Memory Bool (Reference.list : RockList Nat).guarded) (Event Nat),
    Machine.runAll (Act.run Reference.seagrass (2 ^ 64 - 1) 16 3 Client.elsewhere) acts
        ⟨none, fun _ => (blank.mem ()).guarded [], []⟩ =
      some ([(.ok, none), (.ok, some 1), (.ok, some 2), (.seaUrchinMemoryAllocationFailed, none),
        (.ok, none), (.ok, none), (.ok, none), (.ok, none), (.ok, some 1), (.ok, none), (.ok, none),
        (.ok, none)], w') ∧
    Shows [false, true] (fun i => if i then [] else [1]) w' ∧ frees w'.log = [1, 2] ∧
    Balanced (Estate.run Reference.seagrass (2 ^ 64 - 1) 16 acts).2.own [1, 2, 1] [1, 2] := by
  have hacts : AbsValid (Estate.step Reference.seagrass (2 ^ 64 - 1) 16)
      (Estate.Allowed Reference.seagrass (2 ^ 64 - 1) 16 {1, 2}) Estate.start acts := by decide
  have hfuel : ({1, 2} : Finset Nat).card ≤ 3 := by decide
  obtain ⟨w', hrun, hshows, hfrees, hbal, -⟩ := life_cycle (c := Client.elsewhere)
    (w := ⟨none, fun _ => (blank.mem ()).guarded [], []⟩) Reference.list_lawful Reference.seagrass_lawful
    (fun _ _ => rfl) (by decide) hfuel rfl acts hacts
  have hseq : (Estate.run Reference.seagrass (2 ^ 64 - 1) 16 acts).2.seq =
      fun i : Bool => if i then [] else [1] := by
    funext i
    cases i <;> decide
  exact ⟨w', hrun, hseq ▸ hshows, hfrees, hbal⟩

end LinkedList

end Coral
