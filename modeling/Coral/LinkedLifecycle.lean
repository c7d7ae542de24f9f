import Coral.AnyCompare
import Coral.Estate
import Coral.Lib.Machine
import Coral.LinkedInvalidation

/-!
# Entries of linked containers from `alloc` to `free`

A client moves entries between any number of linked containers on an allocator that may refuse a request
and that hands freed memory out again. Nothing is asked of the compare functions: while a call is made
they answer what they like, and they may answer otherwise the next time, as they do when the keys of
stored entries are changed. So the abstract client (`Estate`) cannot tell whether an `add` is rejected;
it is told the replies, and `Admits` says which there may be. `life_cycle_any_compare`: every run
gives such replies, follows no link of a freed entry, and the two orders of a container never disagree on
what is stored.
-/

namespace Coral

namespace LinkedRedBlackTreeContainer
open Prog Places Ownership

variable {O F P : Type}

/-- The calls of a client. The allocator answers a request that reaches it with `answer`. -/
inductive Act (O F P : Type) where
  | alloc (object : O) (size : Nat) (answer : Option P)
  | free (entry : P)
  | init (object : O) (compare : F)
  | add (object : O) (entry : P)
  | insert (object : O) (entry item : P)
  | remove (object : O) (entry : P)
  | invalidate (object : O) (onDestroy : Bool)

/-- A call, and what the compare functions answer while it is made. -/
abbrev TimedAct (O F P : Type) := (F → P → P → Int) × Act O F P

section
variable [DecidableEq P] {R : RockTree P} {L : RockList P}

/-- `s` when `nodes` are the list nodes of the entries. -/
def adopt (nodes : L.guarded.Heap) (s : LinkedRedBlackTreeContainer R.guarded L.guarded F) :
    LinkedRedBlackTreeContainer R.guarded L.guarded F :=
  { s with tree := ⟨s.tree.val, nodes.freed⟩, nodes }

/-- The list nodes are in the entries: what a call on `object` wrote to them, every container sees. -/
def share (object : O) (w : World O (LinkedRedBlackTreeContainer R.guarded L.guarded F) (Event P)) :
    World O (LinkedRedBlackTreeContainer R.guarded L.guarded F) (Event P) :=
  { w with mem := fun o => adopt (w.mem object).nodes (w.mem o) }

/-- Hand the memory of `e` out. -/
def grant (e : P) (w : World O (LinkedRedBlackTreeContainer R.guarded L.guarded F) (Event P)) :
    World O (LinkedRedBlackTreeContainer R.guarded L.guarded F) (Event P) :=
  { w with mem := fun o => { w.mem o with tree := (w.mem o).tree.grant e, nodes := (w.mem o).nodes.grant e } }

/-- The container a call is on. -/
def Act.object : Act O F P → Option O
  | .alloc object _ _ | .init object _ | .add object _ | .insert object _ _ | .remove object _
  | .invalidate object _ => some object
  | .free _ => none

/-- The function that is called, with its code and the entry it wrote to its out parameter. -/
def Act.exec (G : Seagrass) (sizeMax sizeofEntry fuel : Nat) :
    Act O F P → M O R.guarded L.guarded F (Code × Option P)
  | .alloc object size answer => do
    let (code, out) ← LinkedRedBlackTreeContainer.alloc G sizeMax sizeofEntry (fun _ => answer) object
      size (some none)
    return (code, out.getD none)
  | .free entry => do return (← LinkedRedBlackTreeContainer.free (some entry), none)
  | .init object compare => do
    return (← LinkedRedBlackTreeContainer.init (some object) (some compare), none)
  | .add object entry => do
    return (← LinkedRedBlackTreeContainer.add (some object) (some entry), none)
  | .insert object entry item => do
    return (← LinkedRedBlackTreeContainer.insert (some object) (some entry) (some item), none)
  | .remove object entry => do
    return (← LinkedRedBlackTreeContainer.remove (some object) (some entry), none)
  | .invalidate object onDestroy => do
    return (← LinkedRedBlackTreeContainer.invalidate fuel (some object) onDestroy, none)

/-- What the allocator does before it answers: it owns what it hands out until then. -/
def Act.before (G : Seagrass) (sizeMax sizeofEntry : Nat) (act : Act O F P)
    (w : World O (LinkedRedBlackTreeContainer R.guarded L.guarded F) (Event P)) :
    World O (LinkedRedBlackTreeContainer R.guarded L.guarded F) (Event P) :=
  match act with
  | .alloc _ size answer =>
    if Reaches G sizeMax sizeofEntry size then answer.elim w fun e => grant e w else w
  | _ => w

/-- An act of the client, `c` being its callback. -/
def Act.run [DecidableEq O] (G : Seagrass) (sizeMax sizeofEntry fuel : Nat)
    (c : Client O (LinkedRedBlackTreeContainer R.guarded L.guarded F) P) (op : TimedAct O F P)
    (w : World O (LinkedRedBlackTreeContainer R.guarded L.guarded F) (Event P)) :
    Option ((Code × Option P) × World O (LinkedRedBlackTreeContainer R.guarded L.guarded F) (Event P)) :=
  ((op.2.exec G sizeMax sizeofEntry fuel).runIn (c.env deallocate) (answer op.1)
    (op.2.before G sizeMax sizeofEntry w)).map fun r => (r.1, op.2.object.elim r.2 fun o => share o r.2)

end

/-! ### What the calls do -/

section
variable [DecidableEq O] [DecidableEq P]

/-- What a call does that gave the reply `r`. -/
def step (s : Estate O F P) (op : TimedAct O F P) (r : Code × Option P) : Estate O F P :=
  match op.2 with
  | .alloc _ _ _ => r.2.elim s s.acquire
  | .free e => s.free e
  | .init object compare => s.init object compare
  | .add object e => if r.1 = .ok then s.put object e (s.seq object ++ [e]) else s
  | .insert object at_ e => if r.1 = .ok then s.put object e (insertBefore at_ e (s.seq object)) else s
  | .remove object e => s.take object e
  | .invalidate object _ => s.invalidate object

/-- The replies there may be. -/
def Admits (G : Seagrass) (sizeMax sizeofEntry : Nat) (s : Estate O F P) (op : TimedAct O F P)
    (r : Code × Option P) : Prop :=
  match op.2 with
  | .alloc _ size answer => r = allocReply G sizeMax sizeofEntry size answer
  | .add object e | .insert object _ e =>
    r = (.ok, none) ∨ r = (.rockTreeNodeAlreadyExists, none) ∧ s.Rejects op.1 object e
  | _ => r = (.ok, none)

/-- The allocator hands out an address nobody owns; the client puts in what it has in its hands, takes
out what is stored, frees what it has, and calls nothing but `init` on a container that is not
initialised. -/
def Allowed (G : Seagrass) (sizeMax sizeofEntry : Nat) (addresses : Finset P) (s : Estate O F P)
    (op : TimedAct O F P) : Prop :=
  match op.2 with
  | .alloc _ size answer => Reaches G sizeMax sizeofEntry size →
      ∀ e ∈ answer, e ∈ addresses ∧ ∀ i, e ∉ s.own i
  | .free e => e ∈ s.own .client
  | .init _ _ => True
  | .add object e => (s.compare object).isSome ∧ e ∈ s.own .client
  | .insert object at_ e => (s.compare object).isSome ∧ at_ ∈ s.seq object ∧ e ∈ s.own .client
  | .remove object e => (s.compare object).isSome ∧ e ∈ s.seq object
  | .invalidate object _ => (s.compare object).isSome

instance [Fintype O] {G : Seagrass} {sizeMax sizeofEntry : Nat} {addresses : Finset P}
    {s : Estate O F P} : (op : TimedAct O F P) → Decidable (Allowed G sizeMax sizeofEntry addresses s op)
  | (_, .alloc _ _ _) => inferInstanceAs (Decidable (_ → ∀ _, _ → _ ∧ _))
  | (_, .free _) => inferInstanceAs (Decidable (_ ∈ _))
  | (_, .init _ _) => isTrue trivial
  | (_, .add _ _) => inferInstanceAs (Decidable (_ ∧ _))
  | (_, .insert _ _ _) => inferInstanceAs (Decidable (_ ∧ _ ∧ _))
  | (_, .remove _ _) => inferInstanceAs (Decidable (_ ∧ _))
  | (_, .invalidate _ _) => inferInstanceAs (Decidable (_ = true))

end

/-! ### What the memory says of an estate -/

section
variable [DecidableEq P] {R : RockTree P} {L : RockList P} {f : F} {l : List P} {pool : P → Prop}
  {seq : O → List P} {object : O} {u u' : LinkedRedBlackTreeContainer R.guarded L.guarded F}

/-- `u` was initialised with `f`, and its tree and its head are those of the entries `l`. -/
structure Container (f : F) (l : List P) (u : LinkedRedBlackTreeContainer R.guarded L.guarded F) : Prop where
  compare : u.compare = some f
  tree : R.guarded.Keeps u.tree (R.guarded.nodes u.tree)
  same : (R.guarded.nodes u.tree).Perm l
  head : u.list = l.head?

/-- They differ in the memory of the entries only. -/
structure Alike (u u' : LinkedRedBlackTreeContainer R.guarded L.guarded F) : Prop where
  compare : u'.compare = u.compare
  tree : u'.tree.val = u.tree.val
  head : u'.list = u.list

theorem Container.congr (h : Container f l u) (hu : Alike u u') : Container f l u' := by
  have hnodes : R.guarded.nodes u'.tree = R.guarded.nodes u.tree := congrArg R.nodes hu.tree
  have hcount : R.guarded.count u'.tree = R.guarded.count u.tree := congrArg R.count hu.tree
  refine ⟨hu.compare.trans h.compare, ⟨rfl, ?_, ?_⟩, ?_, hu.head.trans h.head⟩
  · exact hnodes ▸ h.tree.nodup
  · rw [hcount, hnodes]
    exact h.tree.count
  · exact hnodes ▸ h.same

theorem alike_adopt (nodes : L.guarded.Heap) (u : LinkedRedBlackTreeContainer R.guarded L.guarded F) :
    Alike u (adopt nodes u) := ⟨rfl, rfl, rfl⟩

theorem Coherent.container (h : Coherent f pool seq object u) : Container f (seq object) u :=
  ⟨h.compare, h.tree, h.same, h.head⟩

theorem Container.coherent (h : Container f (seq object) u) (hk : L.guarded.Keeps pool u.nodes seq)
    (hlive : ∀ x ∈ seq object, u.Allocated x) : Coherent f pool seq object u :=
  ⟨h.compare, h.tree, h.same, h.head, hk, hlive⟩

variable {s t : Estate O F P} {acquired : List P} {e : P}
  {w : World O (LinkedRedBlackTreeContainer R.guarded L.guarded F) (Event P)}

/-- The containers hold what `s` says, what is owned is allocated, and `acquired` is what was handed
out. -/
structure Represents (acquired : List P)
    (w : World O (LinkedRedBlackTreeContainer R.guarded L.guarded F) (Event P)) (s : Estate O F P) :
    Prop where
  balanced : Balanced s.own acquired (frees w.log)
  keeps : ∀ o, L.guarded.Keeps (· ∈ s.own .client) (w.mem o).nodes s.seq
  container : ∀ o, ∀ f ∈ s.compare o, Container f (s.seq o) (w.mem o)
  unused : ∀ o, s.compare o = none → s.seq o = []
  live : ∀ i, ∀ x ∈ s.own i, ∀ o, (w.mem o).Allocated x

/-- It is enough to look at the list nodes of the container that shares them. -/
theorem represents_share (object : O) (hbal : Balanced t.own acquired (frees w.log))
    (hkeeps : L.guarded.Keeps (· ∈ t.own .client) (w.mem object).nodes t.seq)
    (hheld : t.Held fun o f l => Container f l (w.mem o))
    (hlive : ∀ i, ∀ x ∈ t.own i, x ∉ (w.mem object).nodes.freed) :
    Represents acquired (share object w) t where
  balanced := hbal
  keeps _ := hkeeps
  container o f hf := (hheld.container o f hf).congr (alike_adopt _ _)
  unused := hheld.unused
  live i x hx _ := ⟨hlive i x hx, hlive i x hx⟩

namespace Represents

theorem start (hlog : w.log = []) : Represents [] w Estate.start where
  balanced := hlog ▸ Balanced.start
  keeps _ := ⟨fun _ => Links.Ring.nil, fun _ => List.nodup_nil, fun _ _ _ hx => absurd hx List.not_mem_nil,
    fun _ hx => absurd hx List.not_mem_nil⟩
  container _ _ hf := nomatch hf
  unused _ _ := rfl
  live _ _ hx := absurd hx List.not_mem_nil

variable (h : Represents acquired w s)
include h

theorem held : s.Held fun o f l => Container f l (w.mem o) := ⟨h.container, h.unused⟩

theorem live_owned {x : P} (hx : s.Owned x) (o : O) : (w.mem o).Allocated x := by
  rcases hx with hx | ⟨j, hx⟩
  exacts [h.live _ x hx o, h.live _ x hx o]

theorem coherent (hf : f ∈ s.compare object) : Coherent f s.Owned s.seq object (w.mem object) := by
  have hk := h.keeps object
  refine (h.container object f hf).coherent ⟨hk.ring, hk.nodup, hk.disjoint, ?_⟩ fun x hx => h.live _ x hx object
  intro x hp hx
  refine hk.alone x (hp.resolve_right ?_) hx
  rintro ⟨o, ho⟩
  exact hx o ho

variable [DecidableEq O] {u' : LinkedRedBlackTreeContainer R.guarded L.guarded F}

/-- A call that went through changes one container and moves entries between it and the client. -/
theorem after (hf : f ∈ s.compare object) (hu : Leaves f s.Owned s.seq object l (w.mem object) u')
    (hseq : t.seq = Function.update s.seq object l) (hcompare : t.compare = s.compare)
    (hclient : ∀ x ∈ t.own .client, s.Owned x) (hbal : Balanced t.own acquired (frees w.log)) :
    Represents acquired (share object (w.put object u')) t := by
  have hput : (w.put object u').mem object = u' := by rw [World.mem_put, Function.update_self]
  have hsame : t.compare = Function.update s.compare object (s.compare object) :=
    hcompare.trans (Function.update_eq_self object s.compare).symm
  refine represents_share object hbal ?_ (h.held.update hseq hsame ?_ ?_ ?_) ?_
  · rw [hput, hseq]
    exact hu.coherent.keeps.mono hclient
  · intro g hg
    obtain rfl := Option.mem_unique hf hg
    simpa [hput] using hu.coherent.container
  · intro hnone
    rw [Option.mem_def.1 hf] at hnone
    cases hnone
  · intro o ho g l hg
    rwa [World.mem_put, Function.update_of_ne ho]
  · intro i x hx
    obtain ⟨j, hj⟩ := h.balanced.owned_before hbal hx
    rw [hput]
    exact ((hu.allocated x).2 (h.live j x hj object)).2

omit [DecidableEq O] in
theorem enter (object : O) : Represents acquired (w.enter object) s :=
  ⟨h.balanced, h.keeps, h.container, h.unused, h.live⟩

omit [DecidableEq O] in
theorem unchanged (object : O) : Represents acquired (share object w) s :=
  represents_share object h.balanced (h.keeps object) h.held fun i x hx =>
    (h.live i x hx object).2

theorem put (hf : f ∈ s.compare object) (he : e ∈ s.own .client) (hl : l.Perm (e :: s.seq object))
    (hu : Leaves f s.Owned s.seq object l (w.mem object) u') :
    Represents acquired (share object (w.put object u')) (s.put object e l) := by
  refine h.after hf hu (s.seq_put object e l) rfl (fun x hx => .inl ?_) (Estate.balanced_put h.balanced he hl)
  exact List.mem_of_mem_erase (by simpa [Estate.put] using hx)

theorem take (hf : f ∈ s.compare object) (he : e ∈ s.seq object)
    (hu : Leaves f s.Owned s.seq object ((s.seq object).erase e) (w.mem object) u') :
    Represents acquired (share object (w.put object u')) (s.take object e) := by
  refine h.after hf hu (s.seq_take object e) rfl (fun x hx => ?_) (Estate.balanced_take h.balanced he)
  have hx' : x = e ∨ x ∈ s.own .client := by simpa [Estate.take] using hx
  rcases hx' with rfl | hx'
  exacts [.inr ⟨object, he⟩, .inl hx']

/-- A container is initialised, be it in use or not. -/
theorem init (hR : R.Lawful) (object : O) (f : F) (call : F → P → P → Int) :
    ∃ w', (LinkedRedBlackTreeContainer.init (some object) (some f)).run (answer call) w = some (.ok, w') ∧
      w'.log = w.log ∧ Represents acquired (share object w') (s.init object f) := by
  obtain ⟨tree, hi, hshape, hcount⟩ := hR.init_zero
  have hinit : R.guarded.init R.guarded.zero = .ok ⟨tree, []⟩ := congrArg (Except.map _) hi
  have hnodes : R.guarded.nodes ⟨tree, []⟩ = [] := congrArg SearchTree.inorder hshape
  have htree : R.guarded.Keeps ⟨tree, []⟩ (R.guarded.nodes ⟨tree, []⟩) := by
    rw [hnodes]
    exact ⟨hnodes, List.nodup_nil, hcount⟩
  refine ⟨w.put object { (w.mem object).zero with tree := ⟨tree, []⟩, compare := some f }, ?_, rfl, ?_⟩
  · unfold LinkedRedBlackTreeContainer.init
    rw [run_load, run_store]
    refine (run_required hinit _).trans ?_
    simp
  have hbal : Balanced (s.init object f).own acquired (frees w.log) := Estate.balanced_init h.balanced
  have hseq := s.seq_init object f
  have hcompare : (s.init object f).compare = Function.update s.compare object (some f) := rfl
  refine represents_share object hbal ?_ (h.held.update hseq hcompare ?_ nofun ?_) ?_
  · rw [hseq, World.mem_put, Function.update_self]
    have hkeeps := (h.keeps object).forget fun x hx => Estate.not_mem_seq h.balanced hx object
    exact hkeeps.mono fun x hx => by simpa [Estate.init] using hx
  · intro g hg
    simp only [World.mem_put, Function.update_self]
    exact ⟨hg, htree, List.perm_nil.2 hnodes, rfl⟩
  · intro o ho g l hg
    rwa [World.mem_put, Function.update_of_ne ho]
  · intro i x hx
    obtain ⟨j, hj⟩ := h.balanced.owned_before hbal hx
    rw [World.mem_put, Function.update_self]
    exact (h.live j x hj object).2

theorem free (he : e ∈ s.own .client) {w' : World O (LinkedRedBlackTreeContainer R.guarded L.guarded F) (Event P)}
    (hmem : w'.mem = fun o => deallocate e (w.mem o)) (hlog : frees w'.log = frees w.log ++ [e]) :
    Represents acquired w' (s.free e) := by
  have hbal : Balanced (s.free e).own acquired (frees w'.log) :=
    hlog ▸ Estate.balanced_free h.balanced he
  have hseq := s.seq_free e
  have hheld : (s.free e).Held fun o f l => Container f l (w'.mem o) :=
    h.held.mono hseq rfl fun o f l ho => hmem ▸ ho.congr ⟨rfl, rfl, rfl⟩
  refine ⟨hbal, fun o => ?_, hheld.container, hheld.unused, fun i x hx o => ?_⟩
  · rw [hmem, hseq]
    exact (h.keeps o).mono fun x hx => List.mem_of_mem_erase (by simpa [Estate.free] using hx)
  · obtain ⟨hxe, j, hj⟩ := h.balanced.kept (hlog ▸ hbal) hx
    have hne : x ≠ e := fun hx => hxe (List.mem_singleton.2 hx)
    obtain ⟨ht, hn⟩ := h.live j x hj o
    rw [hmem]
    exact ⟨fun hf => (List.mem_cons.1 hf).elim hne ht, fun hf => (List.mem_cons.1 hf).elim hne hn⟩

/-- An address nobody owns is handed out and made a list node of its own. -/
theorem alloc (hL : L.Lawful) (object : O) (he : ∀ i, e ∉ s.own i) :
    ∃ nodes, L.guarded.nodeInit ((grant e w).mem object).nodes e = .ok nodes ∧
      Represents (acquired ++ [e]) (share object
        ((grant e w).put object { (grant e w).mem object with nodes })) (s.acquire e) := by
  have hlive : e ∉ ((grant e w).mem object).nodes.freed := by simp [grant, Guarded.grant]
  obtain ⟨nodes, hn, hfreed, halone, hframe⟩ := (RockList.guarded_on hL).nodeInit_ok _ e hlive
  have hbal : Balanced (s.acquire e).own (acquired ++ [e]) (frees w.log) :=
    Estate.balanced_acquire h.balanced he
  have hseq := s.seq_acquire e
  refine ⟨nodes, hn, represents_share object hbal ?_ (h.held.mono hseq rfl fun o f l hl => ?_) fun i x hx => ?_⟩
  · rw [hseq, World.mem_put, Function.update_self]
    have hkeeps : L.guarded.Keeps (fun x => x = e ∨ x ∈ s.own .client) nodes s.seq :=
      (h.keeps object).enlarge (fun j => he _) halone hframe
    exact hkeeps.mono fun x hx => by simpa [Estate.acquire] using hx
  · refine hl.congr ?_
    by_cases ho : o = object
    · subst ho
      rw [World.mem_put, Function.update_self]
      exact ⟨rfl, rfl, rfl⟩
    · rw [World.mem_put, Function.update_of_ne ho]
      exact ⟨rfl, rfl, rfl⟩
  · rw [World.mem_put, Function.update_self]
    refine (congrFun hfreed x).mpr ?_
    by_cases hxe : x = e
    · exact hxe ▸ hlive
    · have hxo : ∃ j, x ∈ s.own j := by
        rcases mem_update.1 hx with ⟨-, hx⟩ | ⟨-, hx⟩
        exacts [⟨_, (List.mem_cons.1 hx).resolve_left hxe⟩, ⟨_, hx⟩]
      obtain ⟨j, hj⟩ := hxo
      exact fun hf => (h.live j x hj object).2 (List.mem_filter.1 hf).1

end Represents

/-! ### Invalidating a container -/

theorem Coherent.free {ι : Type} {seq : ι → List P} {i : ι} (h : Coherent f pool seq i u) (he : e ∉ seq i) :
    Coherent f pool seq i (deallocate e u) := by
  refine ⟨h.compare, ⟨rfl, h.tree.nodup, h.tree.count⟩, h.same, h.head, h.keeps, fun x hx => ?_⟩
  have hne : x ≠ e := ne_of_mem_of_not_mem hx he
  obtain ⟨ht, hn⟩ := h.live x hx
  exact ⟨fun hf => (List.mem_cons.1 hf).elim hne ht, fun hf => (List.mem_cons.1 hf).elim hne hn⟩

variable [DecidableEq O]

/-- The entries `gone` of the container were freed since `w`, and `l` are left in it. -/
structure Midway (f : F) (object : O) (w : World O (LinkedRedBlackTreeContainer R.guarded L.guarded F) (Event P))
    (s : Estate O F P) (gone l : List P) (m : O → LinkedRedBlackTreeContainer R.guarded L.guarded F) :
    Prop where
  coherent : Coherent f s.Owned (Function.update s.seq object l) object (m object)
  others : ∀ o, o ≠ object → Alike (w.mem o) (m o)
  allocated : ∀ x, (m object).Allocated x ↔ (w.mem object).Allocated x ∧ x ∉ gone

variable {gone : List P} {a : P} {m : O → LinkedRedBlackTreeContainer R.guarded L.guarded F}

theorem Midway.free (h : Midway f object w s gone l m) (ha : a ∉ l) :
    Midway f object w s (gone ++ [a]) l fun o => deallocate a (m o) := by
  refine ⟨h.coherent.free (by rwa [Function.update_self]), fun o ho => ?_, fun x => ?_⟩
  · obtain ⟨h₁, h₂, h₃⟩ := h.others o ho
    exact ⟨h₁, h₂, h₃⟩
  · have hfree : (deallocate a (m object)).Allocated x ↔ (m object).Allocated x ∧ x ≠ a := by
      simp only [Allocated, deallocate, Guarded.free, List.mem_cons, not_or]
      tauto
    rw [hfree, h.allocated, List.mem_append, List.mem_singleton]
    tauto

variable {c : Client O (LinkedRedBlackTreeContainer R.guarded L.guarded F) P}
  (hR : R.Lawful) (hL : L.Lawful)
include hR hL

/-- The loop takes the entries out and frees them, one after the other. -/
theorem drainsVia (hcall : ∀ e u, (c.onDestroy e u).mem = u.mem) (call : F → P → P → Int) :
    DrainsVia (c.env deallocate) (answer call) .rockTreeEndOfSequence
      (fun e => next (some object) (some e) (some none)) (fun e => remove (some object) (some e))
      (fun l m => ∃ gone, s.seq object = gone ++ l ∧ Midway f object w s gone l m) (fun _ _ => True)
      (fun a l m => a ∉ l ∧ ∃ gone, s.seq object = gone ++ a :: l ∧ Midway f object w s gone l m) where
  nodup l m h := by
    obtain ⟨gone, -, h⟩ := h
    simpa using h.coherent.keeps.nodup object
  next a l v h := by
    obtain ⟨gone, -, h⟩ := h
    have hi : Function.update s.seq object (a :: l) object = [] ++ a :: l := by simp
    exact run_next_mid (RockList.guarded_on hL) h.coherent.keeps h.coherent.live_nodes h.coherent.head hi none
  remove a l v h := by
    obtain ⟨gone, hgone, h⟩ := h
    have ha : a ∈ Function.update s.seq object (a :: l) object := by simp
    obtain ⟨u', hrun, hu⟩ := h.coherent.remove_spec hR hL call ha
    have hnd : (a :: l).Nodup := by simpa using h.coherent.keeps.nodup object
    have hcoh := hu.coherent
    rw [Function.update_idem, Function.update_self, List.erase_cons_head] at hcoh
    refine ⟨_, hrun, rfl, (List.nodup_cons.1 hnd).1, gone, hgone, ?_, fun o ho => ?_, fun x => ?_⟩
    · rwa [World.mem_put, Function.update_self]
    · rw [World.mem_put, Function.update_of_ne ho]
      exact h.others o ho
    · rw [World.mem_put, Function.update_self, hu.allocated]
      exact h.allocated x
  destroy a l v h := by
    obtain ⟨ha, gone, hgone, h⟩ := h
    exact ⟨ha, gone, hgone, (hcall a v).symm ▸ h⟩
  free a l v h := by
    obtain ⟨ha, gone, hgone, h⟩ := h
    exact ⟨gone ++ [a], by simp [hgone], h.free ha⟩
  holds _ _ _ _ := trivial

theorem Represents.invalidate (hcall : ∀ e u, (c.onDestroy e u).mem = u.mem) (h : Represents acquired w s)
    (hf : f ∈ s.compare object) (call : F → P → P → Int) {fuel : Nat} (hfuel : (s.seq object).length ≤ fuel)
    (onDestroy : Bool) :
    ∃ w', (LinkedRedBlackTreeContainer.invalidate fuel (some object) onDestroy).runIn (c.env deallocate)
        (answer call) w = some (.ok, w') ∧
      Represents acquired (share object w') (s.invalidate object) := by
  have hstart : Midway f object w s [] (s.seq object) w.mem := by
    refine ⟨?_, fun o _ => ⟨rfl, rfl, rfl⟩, fun x => by simp⟩
    rw [Function.update_eq_self]
    exact h.coherent hf
  have hfirst : (first (some object) (some none)).run (answer call) w =
      some (outcome .rockTreeTreeIsEmpty (some none) (s.seq object).head?, w) :=
    run_first (h.coherent hf).head none
  obtain ⟨w₁, log, hrun, hlog, hdest, gone, hgone, h₁⟩ := (drainsVia hR hL hcall call).run_drainAll
    (by decide) (by decide) ⟨[], (List.nil_append (s.seq object)).symm, hstart⟩ hfirst onDestroy
  rw [List.append_nil] at hgone
  have hfrees : frees w₁.log = frees w.log ++ s.seq object := by
    rw [hlog, frees_append, hdest.frees_eq]
  have hempty : R.guarded.nodes (w₁.mem object).tree = [] :=
    (h₁.coherent.same.trans (by rw [Function.update_self])).eq_nil
  obtain ⟨t, ht⟩ := (RockTree.guarded_on hR).invalidate_empty _ (SearchTree.inorder_eq_nil.1 hempty)
  have hbal : Balanced (s.invalidate object).own acquired (frees w₁.log) :=
    hfrees ▸ Estate.balanced_invalidate h.balanced .rfl
  have hseq := s.seq_invalidate object
  have hcompare : (s.invalidate object).compare = Function.update s.compare object none := rfl
  refine ⟨w₁.put object (zero (w₁.mem object)), ?_,
    represents_share object hbal ?_ (h.held.update hseq hcompare nofun (fun _ => rfl) ?_) ?_⟩
  · refine (hrun _ fuel hfuel).trans ?_
    rw [runIn_load, ht]
    rfl
  · rw [hseq, World.mem_put, Function.update_self]
    exact h₁.coherent.keeps.mono fun x hx => .inl (by simpa [Estate.invalidate] using hx)
  · intro o ho g l hg
    rw [World.mem_put, Function.update_of_ne ho]
    exact hg.congr (h₁.others o ho)
  · intro i x hx
    rw [World.mem_put, Function.update_self]
    obtain ⟨hxs, j, hj⟩ := h.balanced.kept (hfrees ▸ hbal) hx
    exact ((h₁.allocated x).2 ⟨h.live j x hj object, hgone ▸ hxs⟩).2

end

/-! ### Runs -/

section
variable [DecidableEq P] [DecidableEq O] {R : RockTree P} {L : RockList P} {G : Seagrass}
  {sizeMax sizeofEntry fuel : Nat} {c : Client O (LinkedRedBlackTreeContainer R.guarded L.guarded F) P}
  {addresses : Finset P} {replies : List (Code × Option P)} {s : Estate O F P} {op : TimedAct O F P}
  {r : Code × Option P} {w w' : World O (LinkedRedBlackTreeContainer R.guarded L.guarded F) (Event P)}

theorem run_act {v : World O (LinkedRedBlackTreeContainer R.guarded L.guarded F) (Event P)}
    (h : (op.2.exec G sizeMax sizeofEntry fuel).runIn (c.env deallocate) (answer op.1)
      (op.2.before G sizeMax sizeofEntry w) = some (r, v)) :
    Act.run G sizeMax sizeofEntry fuel c op w =
      some (r, op.2.object.elim v fun o => share o v) := by
  unfold Act.run
  rw [h]
  rfl

variable (call : F → P → P → Int)

theorem run_nodesInit (hR : R.Lawful) {nodes : L.guarded.Heap} {e : P} {object : O}
    (hn : L.guarded.nodeInit (w.mem object).nodes e = .ok nodes) :
    (nodesInit object e : M O R.guarded L.guarded F _).runIn (c.env deallocate) (answer call) w =
      some ((.ok, some (some e)), w.put object { w.mem object with nodes }) := by
  have he : R.guarded.nodeInit e = .ok := hR.nodeInit_ok e
  unfold nodesInit
  rw [he]
  show ((load object fun s => (required (L.guarded.nodeInit s.nodes e)).bind fun nodes =>
    store object { s with nodes } (ret (Code.ok, some (some e)))) : M O R.guarded L.guarded F _).runIn
      (c.env deallocate) (answer call) w = _
  rw [runIn_load, hn]
  rfl

theorem steps_alloc (hR : R.Lawful) (hL : L.Lawful) (hG : G.Lawful)
    (h : Accounts Represents addresses replies w s) {object : O} {size : Nat} {answer : Option P}
    (hop : Allowed G sizeMax sizeofEntry addresses s (call, .alloc object size answer)) :
    Machine.Steps (Act.run G sizeMax sizeofEntry fuel c) step (Admits G sizeMax sizeofEntry)
      (Accounts Represents addresses) replies w s (call, .alloc object size answer) := by
  rcases request_runs hG (c.env deallocate) (LinkedRedBlackTreeContainer.answer call) w grant sizeMax
    sizeofEntry size answer (nodesInit object) with ⟨e, rfl, hr, hreply, hrun⟩ | ⟨code, hreply, hrun⟩
  · obtain ⟨hknown, hfresh⟩ := hop hr e rfl
    obtain ⟨nodes, hn, hrep⟩ := h.represents.alloc hL object hfresh
    have hexec := hrun _ (run_nodesInit call hR hn)
    exact ⟨(.ok, some e), _, run_act hexec, hreply.symm, h.grant hknown hrep⟩
  · refine ⟨(code, none), _, run_act hrun, hreply.symm, ?_⟩
    simpa [Act.object, step] using h.reply _ (h.represents.unchanged object)

/-- `add` and `insert`: the entry is rejected, or goes in and the container holds `l`. -/
theorem accounts_put (h : Accounts Represents addresses replies w s) {object : O} {e : P} {f : F} {l : List P}
    {p : M O R.guarded L.guarded F Code} (hf : f ∈ s.compare object) (he : e ∈ s.own .client)
    (hl : l.Perm (e :: s.seq object))
    (hp : (∃ x ∈ s.seq object, call f e x = 0 ∧ p.run (answer call) w =
        some (.rockTreeNodeAlreadyExists, w.enter object)) ∨
      ∃ u, p.run (answer call) w = some (.ok, (w.enter object).put object u) ∧
        Leaves f s.Owned s.seq object l (w.mem object) u) :
    ∃ r w', (p.bind fun code => ret (code, (none : Option P))).runIn (c.env deallocate) (answer call) w =
        some (r, w') ∧
      (r = (.ok, none) ∨ r = (.rockTreeNodeAlreadyExists, none) ∧ s.Rejects call object e) ∧
      Accounts Represents addresses (replies ++ [r]) (share object w')
        (if r.1 = .ok then s.put object e l else s) := by
  rcases hp with ⟨x, hx, hz, hp⟩ | ⟨u, hp, hu⟩
  · refine ⟨_, _, runIn_seq _ (runIn_of_run _ hp rfl), .inr ⟨rfl, f, hf, x, hx, hz⟩, ?_⟩
    rw [if_neg nofun]
    exact h.reply _ ((h.represents.enter object).unchanged object)
  · refine ⟨_, _, runIn_seq _ (runIn_of_run _ hp rfl), .inl rfl, ?_⟩
    rw [if_pos rfl]
    exact h.reply _ ((h.represents.enter object).put hf he hl hu)

theorem steps (hR : R.Lawful) (hL : L.Lawful) (hG : G.Lawful)
    (hcall : ∀ e u, (c.onDestroy e u).mem = u.mem) (hfuel : addresses.card ≤ fuel)
    (h : Accounts Represents addresses replies w s) (hop : Allowed G sizeMax sizeofEntry addresses s op) :
    Machine.Steps (Act.run G sizeMax sizeofEntry fuel c) step (Admits G sizeMax sizeofEntry)
      (Accounts Represents addresses) replies w s op := by
  obtain ⟨call, act⟩ := op
  cases act with
  | alloc object size answer => exact steps_alloc call hR hL hG h hop
  | free e =>
    refine ⟨_, _, run_act rfl, rfl, h.reply _ (h.represents.free hop rfl ?_)⟩
    show frees (w.log ++ [(.free e, w.mem)]) = _
    rw [frees_append]
    rfl
  | init object f =>
    obtain ⟨w', hrun, hlog, h'⟩ := h.represents.init hR object f call
    exact ⟨_, _, run_act (runIn_seq _ (runIn_of_run _ hrun hlog)), rfl, h.reply _ h'⟩
  | add object e =>
    obtain ⟨hsome, he⟩ := hop
    obtain ⟨f, hf⟩ := Option.isSome_iff_exists.1 hsome
    obtain ⟨r, w', hrun, hadmits, h'⟩ := accounts_put call (c := c) h hf he (List.perm_append_singleton e _)
      ((h.represents.coherent hf).add_spec hR hL call (.inl he) (Estate.not_mem_seq h.represents.balanced he)
        (h.represents.live_owned (.inl he) object))
    exact ⟨r, _, run_act hrun, hadmits, h'⟩
  | insert object at_ e =>
    obtain ⟨hsome, hat, he⟩ := hop
    obtain ⟨f, hf⟩ := Option.isSome_iff_exists.1 hsome
    obtain ⟨r, w', hrun, hadmits, h'⟩ := accounts_put call (c := c) h hf he (perm_insertBefore hat)
      ((h.represents.coherent hf).insert_spec hR hL call hat (.inl he) (Estate.not_mem_seq h.represents.balanced he)
        (h.represents.live_owned (.inl he) object))
    exact ⟨r, _, run_act hrun, hadmits, h'⟩
  | remove object e =>
    obtain ⟨hsome, he⟩ := hop
    obtain ⟨f, hf⟩ := Option.isSome_iff_exists.1 hsome
    obtain ⟨u, hrun, hu⟩ := (h.represents.coherent hf).remove_spec hR hL call he
    exact ⟨_, _, run_act (runIn_seq _ (runIn_of_run _ hrun rfl)), rfl,
      h.reply _ (h.represents.take hf he hu)⟩
  | invalidate object onDestroy =>
    obtain ⟨f, hf⟩ := Option.isSome_iff_exists.1 hop
    obtain ⟨w', hrun, h'⟩ := h.represents.invalidate hR hL hcall hf call
      ((Estate.length_le h.represents.balanced h.known object).trans hfuel) onDestroy
    exact ⟨_, _, run_act (runIn_seq _ hrun), rfl, h.reply _ h'⟩

/-- Whatever a client does and whatever its compare functions answer: an entry is rejected only because
it was answered to be equal to a stored one; each container shows the entries put in and not taken out, in
the order they were put in, and its tree the same entries; no link of a freed entry is followed, and each
entry was freed as often as it was allocated, but for the last time if it is owned or lost. -/
theorem life_cycle_any_compare (hR : R.Lawful) (hL : L.Lawful) (hG : G.Lawful)
    (hcall : ∀ e u, (c.onDestroy e u).mem = u.mem) (hfuel : addresses.card ≤ fuel) (hw : w.log = [])
    (ops : List (TimedAct O F P))
    (hops : Machine.Follows (Act.run G sizeMax sizeofEntry fuel c) step
      (Allowed G sizeMax sizeofEntry addresses) Estate.start w ops) :
    ∃ replies w', Machine.runAll (Act.run G sizeMax sizeofEntry fuel c) ops w = some (replies, w') ∧
      Machine.Admitted step (Admits G sizeMax sizeofEntry) Estate.start (ops.zip replies) ∧
      (∀ object, ∀ f ∈ (Machine.replay step Estate.start (ops.zip replies)).compare object,
        Seen f object ((Machine.replay step Estate.start (ops.zip replies)).seq object) w') ∧
      Balanced (Machine.replay step Estate.start (ops.zip replies)).own
        (replies.filterMap Prod.snd) (frees w'.log) ∧
      ∀ i, ∀ x ∈ (Machine.replay step Estate.start (ops.zip replies)).own i, ∀ object,
        (w'.mem object).Allocated x := by
  have hstart : Accounts Represents addresses [] w (Estate.start : Estate O F P) :=
    .start (Represents.start hw)
  obtain ⟨replies, w', hrun, hadmitted, h⟩ := Machine.sim_replay
    (fun _ _ _ _ h hop => steps hR hL hG hcall hfuel h hop) ops hstart hops
  rw [List.nil_append] at h
  exact ⟨replies, w', hrun, hadmitted,
    fun object f hf => (h.represents.coherent hf).seen hR hL, h.represents.balanced, h.represents.live⟩

end

/-- Two containers that are not in use, on memory nothing was freed of. -/
def unused : World Bool (LinkedRedBlackTreeContainer (Reference.tree : RockTree Nat).guarded
    Reference.list.guarded Unit) (Event Nat) :=
  ⟨none, fun _ => guarded ⟨Reference.tree.zero, none, none, Reference.alone⟩ [], []⟩

/-- Compare functions that put any two keys in the order they are asked in, in the other order, and that
take them for equal; one entry goes from one container to the other. -/
def disorder : List (TimedAct Bool Unit Nat) :=
  [(fun _ _ _ => 1, .init true ()), (fun _ _ _ => 1, .alloc true 8 (some 1)),
    (fun _ _ _ => 1, .alloc true 8 (some 2)), (fun _ _ _ => 1, .add true 1),
    (fun _ _ _ => -1, .insert true 1 2), (fun _ _ _ => 0, .alloc false 8 (some 3)),
    (fun _ _ _ => 0, .add true 3), (fun _ _ _ => -1, .add true 3), (fun _ _ _ => 1, .remove true 1),
    (fun _ _ _ => 1, .init false ()), (fun _ _ _ => 1, .add false 1),
    (fun _ _ _ => 1, .invalidate true true)]

theorem life_cycle_any_compare_example : ∃ w',
    Machine.runAll (Act.run Reference.seagrass (2 ^ 64 - 1) 16 3 Client.elsewhere) disorder unused =
      some ([(.ok, none), (.ok, some 1), (.ok, some 2), (.ok, none), (.ok, none), (.ok, some 3),
        (.rockTreeNodeAlreadyExists, none), (.ok, none), (.ok, none), (.ok, none), (.ok, none),
        (.ok, none)], w') ∧
    Seen () false [1] w' ∧ frees w'.log = [2, 3] := by
  have hops : Machine.Follows (Act.run Reference.seagrass (2 ^ 64 - 1) 16 3 Client.elsewhere)
      step (Allowed Reference.seagrass (2 ^ 64 - 1) 16 {1, 2, 3}) Estate.start unused
      disorder := by decide
  obtain ⟨replies, w', hrun, -, hseen, -⟩ := life_cycle_any_compare Reference.tree_lawful
    Reference.list_lawful Reference.seagrass_lawful (fun _ _ => rfl) (by decide) rfl disorder hops
  have hrun' : Machine.runAll (Act.run Reference.seagrass (2 ^ 64 - 1) 16 3 Client.elsewhere) disorder
      unused = some (_, _) := rfl
  obtain ⟨rfl, rfl⟩ := Prod.mk.inj (Option.some.inj (hrun'.symm.trans hrun))
  exact ⟨_, hrun, hseen false () rfl, rfl⟩

end LinkedRedBlackTreeContainer

end Coral
