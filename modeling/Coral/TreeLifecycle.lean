import Coral.Estate
import Coral.Lib.Machine
import Coral.TreeAnyCompare
import Coral.TreeInvalidation

/-!
# Entries of red-black-tree containers from `alloc` to `free`

As `Coral.LinkedLifecycle`, for the containers without a list: any number of them, an allocator that may
fail and that hands freed memory out again, compare functions that answer what they like.
`tree_life_cycle`: a container has the entries that were put in and not taken out, whatever their order,
no link of a freed entry is followed, and each entry was freed as often as it was allocated, but for the
last time if it is owned or lost. An `init` of a container in use loses its entries.
-/

namespace Coral

namespace RedBlackTreeContainer
open Prog Ownership

variable {O F P : Type}

/-- The calls of a client. The allocator answers a request that reaches it with `answer`. -/
inductive Act (O F P : Type) where
  | alloc (size : Nat) (answer : Option P)
  | free (entry : P)
  | init (object : O) (compare : F)
  | add (object : O) (entry : P)
  | remove (object : O) (entry : P)
  | invalidate (object : O) (onDestroy : Bool)

/-- A call, and what the compare functions answer while it is made. -/
abbrev TimedAct (O F P : Type) := (F → P → P → Int) × Act O F P

section
variable [DecidableEq P] {R : RockTree P}

/-- The nodes are in the entries: that `freed` was given back, every container sees. -/
def share (freed : List P) (w : World O (RedBlackTreeContainer R.guarded F) (Event P)) :
    World O (RedBlackTreeContainer R.guarded F) (Event P) :=
  { w with mem := fun o => { w.mem o with tree := ⟨(w.mem o).tree.val, freed⟩ } }

/-- Hand the memory of `e` out. -/
def grant (e : P) (w : World O (RedBlackTreeContainer R.guarded F) (Event P)) :
    World O (RedBlackTreeContainer R.guarded F) (Event P) :=
  { w with mem := fun o => { w.mem o with tree := (w.mem o).tree.grant e } }

/-- The container a call is on. -/
def Act.object : Act O F P → Option O
  | .init object _ | .add object _ | .remove object _ | .invalidate object _ => some object
  | .alloc _ _ | .free _ => none

/-- The function that is called, with its code and the entry it wrote to its out parameter. -/
def Act.exec (G : Seagrass) (sizeMax sizeofEntry fuel : Nat) :
    Act O F P → M O R.guarded F (Code × Option P)
  | .alloc size answer => do
    let (code, out) ← RedBlackTreeContainer.alloc G sizeMax sizeofEntry (fun _ => answer) size (some none)
    return (code, out.getD none)
  | .free entry => do return (← RedBlackTreeContainer.free (some entry), none)
  | .init object compare => do return (← RedBlackTreeContainer.init (some object) (some compare), none)
  | .add object entry => do return (← RedBlackTreeContainer.add (some object) (some entry), none)
  | .remove object entry => do return (← RedBlackTreeContainer.remove (some object) (some entry), none)
  | .invalidate object onDestroy => do
    return (← RedBlackTreeContainer.invalidate fuel (some object) onDestroy, none)

/-- What the allocator does before it answers: it owns what it hands out until then. -/
def Act.before (G : Seagrass) (sizeMax sizeofEntry : Nat) (act : Act O F P)
    (w : World O (RedBlackTreeContainer R.guarded F) (Event P)) :
    World O (RedBlackTreeContainer R.guarded F) (Event P) :=
  match act with
  | .alloc size answer => if Reaches G sizeMax sizeofEntry size then answer.elim w fun e => grant e w else w
  | _ => w

/-- An act of the client, `c` being its callback. A container that is set to zero does not forget what
was freed. -/
def Act.run [DecidableEq O] (G : Seagrass) (sizeMax sizeofEntry fuel : Nat)
    (c : Client O (RedBlackTreeContainer R.guarded F) P) (op : TimedAct O F P)
    (w : World O (RedBlackTreeContainer R.guarded F) (Event P)) :
    Option ((Code × Option P) × World O (RedBlackTreeContainer R.guarded F) (Event P)) :=
  ((op.2.exec G sizeMax sizeofEntry fuel).runIn (c.env deallocate) (answer op.1)
    (op.2.before G sizeMax sizeofEntry w)).map fun r => (r.1, op.2.object.elim r.2 fun o =>
      share (frees (r.2.log.drop w.log.length) ++ (w.mem o).tree.freed) r.2)

end

/-! ### What the calls do -/

section
variable [DecidableEq O] [DecidableEq P]

/-- What a call does that gave the reply `r`. -/
def step (s : Estate O F P) (op : TimedAct O F P) (r : Code × Option P) : Estate O F P :=
  match op.2 with
  | .alloc _ _ => r.2.elim s s.acquire
  | .free e => s.free e
  | .init object compare => s.init object compare
  | .add object e => if r.1 = .ok then s.put object e (s.seq object ++ [e]) else s
  | .remove object e => s.take object e
  | .invalidate object _ => s.invalidate object

/-- The replies there may be. -/
def Admits (G : Seagrass) (sizeMax sizeofEntry : Nat) (s : Estate O F P) (op : TimedAct O F P)
    (r : Code × Option P) : Prop :=
  match op.2 with
  | .alloc size answer => r = allocReply G sizeMax sizeofEntry size answer
  | .add object e => r = (.ok, none) ∨ r = (.rockTreeNodeAlreadyExists, none) ∧ s.Rejects op.1 object e
  | _ => r = (.ok, none)

/-- The allocator hands out an address nobody owns; the client puts in what it has in its hands, takes
out what is stored, frees what it has, and calls nothing but `init` on a container that is not
initialised. -/
def Allowed (G : Seagrass) (sizeMax sizeofEntry : Nat) (addresses : Finset P) (s : Estate O F P)
    (op : TimedAct O F P) : Prop :=
  match op.2 with
  | .alloc size answer => Reaches G sizeMax sizeofEntry size →
      ∀ e ∈ answer, e ∈ addresses ∧ ∀ i, e ∉ s.own i
  | .free e => e ∈ s.own .client
  | .init _ _ => True
  | .add object e => (s.compare object).isSome ∧ e ∈ s.own .client
  | .remove object e => (s.compare object).isSome ∧ e ∈ s.seq object
  | .invalidate object _ => (s.compare object).isSome

instance [Fintype O] {G : Seagrass} {sizeMax sizeofEntry : Nat} {addresses : Finset P}
    {s : Estate O F P} : (op : TimedAct O F P) → Decidable (Allowed G sizeMax sizeofEntry addresses s op)
  | (_, .alloc _ _) => inferInstanceAs (Decidable (_ → ∀ _, _ → _ ∧ _))
  | (_, .free _) => inferInstanceAs (Decidable (_ ∈ _))
  | (_, .init _ _) => isTrue trivial
  | (_, .add _ _) => inferInstanceAs (Decidable (_ ∧ _))
  | (_, .remove _ _) => inferInstanceAs (Decidable (_ ∧ _))
  | (_, .invalidate _ _) => inferInstanceAs (Decidable (_ = true))

end

/-! ### What the memory says of an estate -/

section
variable [DecidableEq P] {R : RockTree P} {f : F} {l : List P} {object : O} {s t : Estate O F P}
  {acquired freed : List P} {e : P} {w : World O (RedBlackTreeContainer R.guarded F) (Event P)}

/-- The containers hold what `s` says, what is owned is allocated, and `acquired` is what was handed
out. -/
structure Represents (acquired : List P) (w : World O (RedBlackTreeContainer R.guarded F) (Event P))
    (s : Estate O F P) : Prop where
  balanced : Balanced s.own acquired (frees w.log)
  container : ∀ o, ∀ f ∈ s.compare o, Coherent f (s.seq o) (w.mem o)
  unused : ∀ o, s.compare o = none → s.seq o = []
  live : ∀ i, ∀ x ∈ s.own i, ∀ o, x ∉ (w.mem o).tree.freed

theorem represents_share (hbal : Balanced t.own acquired (frees w.log))
    (hheld : t.Held fun o f l => Coherent f l (w.mem o)) (hlive : ∀ i, ∀ x ∈ t.own i, x ∉ freed) :
    Represents acquired (share freed w) t where
  balanced := hbal
  container o f hf := (hheld.container o f hf).congr rfl rfl
  unused := hheld.unused
  live i x hx _ := hlive i x hx

namespace Represents

theorem start (hlog : w.log = []) : Represents [] w Estate.start where
  balanced := hlog ▸ Balanced.start
  container _ _ hf := nomatch hf
  unused _ _ := rfl
  live _ _ hx := absurd hx List.not_mem_nil

variable (h : Represents acquired w s)
include h

theorem held : s.Held fun o f l => Coherent f l (w.mem o) := ⟨h.container, h.unused⟩

theorem live_seq (o : O) : (w.mem o).tree.Live (s.seq o) := fun x hx => h.live _ x hx o

theorem enter (object : O) : Represents acquired (w.enter object) s :=
  ⟨h.balanced, h.container, h.unused, h.live⟩

theorem unchanged (object : O) : Represents acquired (share (w.mem object).tree.freed w) s :=
  represents_share h.balanced h.held fun i x hx => h.live i x hx object

variable [DecidableEq O] {u' : RedBlackTreeContainer R.guarded F}

theorem after (hf : f ∈ s.compare object) (hu : Coherent f l u')
    (hseq : t.seq = Function.update s.seq object l) (hcompare : t.compare = s.compare)
    (hbal : Balanced t.own acquired (frees w.log)) :
    Represents acquired (share (w.mem object).tree.freed (w.put object u')) t := by
  have hsame : t.compare = Function.update s.compare object (s.compare object) :=
    hcompare.trans (Function.update_eq_self object s.compare).symm
  refine represents_share hbal (h.held.update hseq hsame ?_ ?_ ?_) ?_
  · intro g hg
    obtain rfl := Option.mem_unique hf hg
    rwa [World.mem_put, Function.update_self]
  · intro hnone
    rw [Option.mem_def.1 hf] at hnone
    cases hnone
  · intro o ho g l hg
    rwa [World.mem_put, Function.update_of_ne ho]
  · intro i x hx
    obtain ⟨j, hj⟩ := h.balanced.owned_before hbal hx
    exact h.live j x hj object

theorem init (hR : R.Lawful) (object : O) (f : F) (call : F → P → P → Int) :
    ∃ w', (RedBlackTreeContainer.init (some object) (some f)).run (answer call) w = some (.ok, w') ∧
      w'.log = w.log ∧ Represents acquired (share (w.mem object).tree.freed w') (s.init object f) := by
  obtain ⟨tree, hi, hshape, hcount⟩ := hR.init_zero
  have hinit : R.guarded.init R.guarded.zero = .ok ⟨tree, []⟩ := congrArg (Except.map _) hi
  have hnodes : R.guarded.nodes ⟨tree, []⟩ = [] := congrArg SearchTree.inorder hshape
  have htree : R.guarded.Keeps ⟨tree, []⟩ (R.guarded.nodes ⟨tree, []⟩) := by
    rw [hnodes]
    exact ⟨hnodes, List.nodup_nil, hcount⟩
  have hbal : Balanced (s.init object f).own acquired (frees w.log) := Estate.balanced_init h.balanced
  have hcompare : (s.init object f).compare = Function.update s.compare object (some f) := rfl
  refine ⟨(w.put object zero).put object ⟨⟨tree, []⟩, some f⟩, ?_, rfl,
    represents_share hbal (h.held.update (s.seq_init object f) hcompare ?_ nofun ?_) ?_⟩
  · unfold RedBlackTreeContainer.init
    rw [run_store]
    exact run_required hinit _
  · intro g hg
    rw [World.mem_put, Function.update_self]
    exact ⟨hg, htree, List.perm_nil.2 hnodes⟩
  · intro o ho g l hg
    rwa [World.put_put, World.mem_put, Function.update_of_ne ho]
  · intro i x hx
    obtain ⟨j, hj⟩ := h.balanced.owned_before hbal hx
    exact h.live j x hj object

theorem free (he : e ∈ s.own .client) {w' : World O (RedBlackTreeContainer R.guarded F) (Event P)}
    (hmem : w'.mem = fun o => deallocate e (w.mem o)) (hlog : frees w'.log = frees w.log ++ [e]) :
    Represents acquired w' (s.free e) := by
  have hbal : Balanced (s.free e).own acquired (frees w'.log) := hlog ▸ Estate.balanced_free h.balanced he
  have hheld : (s.free e).Held fun o f l => Coherent f l (w'.mem o) :=
    h.held.mono (s.seq_free e) rfl fun o f l ho => hmem ▸ ho.congr rfl rfl
  refine ⟨hbal, hheld.container, hheld.unused, fun i x hx o => ?_⟩
  · obtain ⟨hxe, j, hj⟩ := h.balanced.kept (hlog ▸ hbal) hx
    have hne : x ≠ e := fun hx => hxe (List.mem_singleton.2 hx)
    rw [hmem]
    exact fun hf => (List.mem_cons.1 hf).elim hne (h.live j x hj o)

theorem alloc (he : ∀ i, e ∉ s.own i) : Represents (acquired ++ [e]) (grant e w) (s.acquire e) := by
  have hheld : (s.acquire e).Held fun o f l => Coherent f l ((grant e w).mem o) :=
    h.held.mono (s.seq_acquire e) rfl fun o f l ho => ho.congr rfl rfl
  refine ⟨Estate.balanced_acquire h.balanced he, hheld.container, hheld.unused, fun i x hx o => ?_⟩
  · by_cases hxe : x = e
    · simp [grant, Guarded.grant, hxe]
    · have hxo : ∃ j, x ∈ s.own j := by
        rcases mem_update.1 hx with ⟨-, hx⟩ | ⟨-, hx⟩
        exacts [⟨_, (List.mem_cons.1 hx).resolve_left hxe⟩, ⟨_, hx⟩]
      obtain ⟨j, hj⟩ := hxo
      exact fun hf => h.live j x hj o (List.mem_filter.1 hf).1

end Represents

/-! ### Invalidating a container -/

/-- The entries `gone` of the container were freed since `w`, and the tree holds `l`. -/
structure Midway (f : F) (object : O) (w : World O (RedBlackTreeContainer R.guarded F) (Event P))
    (gone l : List P) (m : O → RedBlackTreeContainer R.guarded F) : Prop where
  compare : (m object).compare = some f
  tree : R.guarded.Keeps (m object).tree l
  live : (m object).tree.Live l
  others : ∀ o, o ≠ object → (m o).tree.val = (w.mem o).tree.val ∧ (m o).compare = (w.mem o).compare

variable {gone nodes : List P} {a : P} {m : O → RedBlackTreeContainer R.guarded F}

theorem Midway.free (h : Midway f object w gone l m) (ha : a ∉ l) :
    Midway f object w (gone ++ [a]) l fun o => deallocate a (m o) :=
  ⟨h.compare, ⟨h.tree.nodes, h.tree.nodup, h.tree.count⟩, h.live.free ha, h.others⟩

variable [DecidableEq O] {c : Client O (RedBlackTreeContainer R.guarded F) P} (hR : R.Lawful)
include hR

theorem drainsVia (hcall : ∀ e u, (c.onDestroy e u).mem = u.mem) (call : F → P → P → Int) :
    DrainsVia (c.env deallocate) (answer call) .rockTreeEndOfSequence
      (fun e => next object (some e) (some none)) (fun e => remove (some object) (some e))
      (fun l m => ∃ gone, nodes = gone ++ l ∧ Midway f object w gone l m) (fun _ _ => True)
      (fun a l m => a ∉ l ∧ ∃ gone, nodes = gone ++ a :: l ∧ Midway f object w gone l m) where
  nodup l m h := by
    obtain ⟨gone, -, h⟩ := h
    exact h.tree.nodup
  next a l v h := by
    obtain ⟨gone, -, h⟩ := h
    have hnext := h.tree.next (RockTree.guarded_on hR) h.live (List.nil_append (a :: l)).symm
    exact Layout.run_nextOrPrev (C := layout) hnext none
  remove a l v h := by
    obtain ⟨gone, hgone, h⟩ := h
    obtain ⟨tree, ht, hfreed, hk⟩ := h.tree.remove (RockTree.guarded_on hR) h.live (List.mem_cons_self ..)
    rw [List.erase_cons_head] at hk
    refine ⟨_, run_remove ht, rfl, (List.nodup_cons.1 h.tree.nodup).1, gone, hgone, ?_, ?_, ?_, fun o ho => ?_⟩
    · rw [World.mem_put, Function.update_self]
      exact h.compare
    · rw [World.mem_put, Function.update_self]
      exact hk
    · rw [World.mem_put, Function.update_self]
      exact fun x hx => (iff_of_eq (congrFun hfreed x)).2 (h.live x (List.mem_cons_of_mem a hx))
    · rw [World.mem_put, Function.update_of_ne ho]
      exact h.others o ho
  destroy a l v h := by
    obtain ⟨ha, gone, hgone, h⟩ := h
    exact ⟨ha, gone, hgone, (hcall a v).symm ▸ h⟩
  free a l v h := by
    obtain ⟨ha, gone, hgone, h⟩ := h
    exact ⟨gone ++ [a], by simp [hgone], h.free ha⟩
  holds _ _ _ _ := trivial

theorem Represents.invalidate (hcall : ∀ e u, (c.onDestroy e u).mem = u.mem) (h : Represents acquired w s)
    (hf : f ∈ s.compare object) (call : F → P → P → Int) {fuel : Nat} (hfuel : (s.seq object).length ≤ fuel)
    (onDestroy : Bool) :
    ∃ w' log, (RedBlackTreeContainer.invalidate fuel (some object) onDestroy).runIn (c.env deallocate)
        (answer call) w = some (.ok, w') ∧ w'.log = w.log ++ log ∧
      Represents acquired (share (frees log ++ (w.mem object).tree.freed) w') (s.invalidate object) := by
  have hcoh := h.container object f hf
  have hlive := hcoh.live_tree (h.live_seq object)
  have hstart : Midway f object w [] (R.guarded.nodes (w.mem object).tree) w.mem :=
    ⟨hcoh.compare, hcoh.tree, hlive, fun _ _ => ⟨rfl, rfl⟩⟩
  have hfirst : (first (some object) (some none)).run (answer call) w = some (outcome .rockTreeTreeIsEmpty
      (some none) (R.guarded.nodes (w.mem object).tree).head?, w) :=
    Layout.run_firstOrLast (hcoh.tree.first (RockTree.guarded_on hR) hlive) none
  obtain ⟨w₁, log, hrun, hlog, hdest, gone, -, h₁⟩ := (drainsVia hR hcall call).run_drainAll
    (by decide) (by decide) ⟨[], (List.nil_append _).symm, hstart⟩ hfirst onDestroy
  have hfrees : frees log = R.guarded.nodes (w.mem object).tree := hdest.frees_eq
  obtain ⟨t, ht⟩ := (RockTree.guarded_on hR).invalidate_empty _ (SearchTree.inorder_eq_nil.1 h₁.tree.nodes)
  have hbal : Balanced (s.invalidate object).own acquired (frees w₁.log) := by
    rw [hlog, frees_append, hfrees]
    exact Estate.balanced_invalidate h.balanced hcoh.same.symm
  have hcompare : (s.invalidate object).compare = Function.update s.compare object none := rfl
  refine ⟨w₁.put object zero, log, ?_, hlog,
    represents_share hbal (h.held.update (s.seq_invalidate object) hcompare nofun (fun _ => rfl) ?_) ?_⟩
  · refine (hrun _ fuel (hcoh.same.length_eq ▸ hfuel)).trans ?_
    rw [runIn_load, ht]
    rfl
  · intro o ho g l hg
    rw [World.mem_put, Function.update_of_ne ho]
    exact hg.congr (h₁.others o ho).1 (h₁.others o ho).2
  · intro i x hx
    have hbal' : Balanced (s.invalidate object).own acquired (frees w.log ++ frees log) := by
      rwa [← frees_append, ← hlog]
    obtain ⟨hxs, j, hj⟩ := h.balanced.kept hbal' hx
    exact fun hf => (List.mem_append.1 hf).elim hxs (h.live j x hj object)

end

/-! ### Runs -/

section
variable [DecidableEq P] [DecidableEq O] {R : RockTree P} {G : Seagrass} {sizeMax sizeofEntry fuel : Nat}
  {c : Client O (RedBlackTreeContainer R.guarded F) P} {addresses : Finset P}
  {replies : List (Code × Option P)} {s : Estate O F P} {op : TimedAct O F P} {r : Code × Option P}
  {w w' : World O (RedBlackTreeContainer R.guarded F) (Event P)}

theorem run_act {v : World O (RedBlackTreeContainer R.guarded F) (Event P)}
    {log : List (Event P × (O → RedBlackTreeContainer R.guarded F))}
    (h : (op.2.exec G sizeMax sizeofEntry fuel).runIn (c.env deallocate) (answer op.1)
      (op.2.before G sizeMax sizeofEntry w) = some (r, v)) (hlog : v.log = w.log ++ log) :
    Act.run G sizeMax sizeofEntry fuel c op w =
      some (r, op.2.object.elim v fun o => share (frees log ++ (w.mem o).tree.freed) v) := by
  unfold Act.run
  rw [h, Option.map_some, hlog, List.drop_left]

omit [DecidableEq P] [DecidableEq O] in
theorem nodeInit_eq (hR : ∀ a, R.nodeInit a = .ok) (e : P) :
    (nodeInit e : M O R F _) = ret (.ok, some (some e)) := by
  unfold nodeInit
  rw [hR]
  rfl

variable (call : F → P → P → Int) (hR : R.Lawful)
include hR

theorem steps_alloc (hG : G.Lawful) (h : Accounts Represents addresses replies w s) {size : Nat}
    {answer : Option P} (hop : Allowed G sizeMax sizeofEntry addresses s (call, .alloc size answer)) :
    Machine.Steps (Act.run G sizeMax sizeofEntry fuel c) step (Admits G sizeMax sizeofEntry)
      (Accounts Represents addresses) replies w s (call, .alloc size answer) := by
  rcases request_runs hG (c.env deallocate) (RedBlackTreeContainer.answer call) w grant sizeMax sizeofEntry
    size answer nodeInit with ⟨e, rfl, hr, hreply, hrun⟩ | ⟨code, hreply, hrun⟩
  · obtain ⟨hknown, hfresh⟩ := hop hr e rfl
    have hinit : (nodeInit e : M O R.guarded F _) = ret (.ok, some (some e)) :=
      nodeInit_eq (R := R.guarded) hR.nodeInit_ok e
    have hexec := hrun (grant e w) (hinit ▸ rfl)
    exact ⟨(.ok, some e), _, run_act hexec (List.append_nil _).symm, hreply.symm,
      h.grant hknown (h.represents.alloc hfresh)⟩
  · refine ⟨(code, none), _, run_act hrun (List.append_nil _).symm, hreply.symm, ?_⟩
    simpa [Act.object, step] using h.reply _ h.represents

theorem steps (hG : G.Lawful) (hcall : ∀ e u, (c.onDestroy e u).mem = u.mem)
    (hfuel : addresses.card ≤ fuel) (h : Accounts Represents addresses replies w s)
    (hop : Allowed G sizeMax sizeofEntry addresses s op) :
    Machine.Steps (Act.run G sizeMax sizeofEntry fuel c) step (Admits G sizeMax sizeofEntry)
      (Accounts Represents addresses) replies w s op := by
  obtain ⟨call, act⟩ := op
  have hnil : ∀ {v : World O (RedBlackTreeContainer R.guarded F) (Event P)}, v.log = w.log →
      v.log = w.log ++ [] := fun hv => hv.trans (List.append_nil _).symm
  cases act with
  | alloc size answer => exact steps_alloc call hR hG h hop
  | free e =>
    have hfrees : frees (w.log ++ [(.free e, w.mem)]) = frees w.log ++ [e] := by
      rw [frees_append]
      rfl
    exact ⟨_, _, run_act rfl (rfl : _ = w.log ++ [(.free e, w.mem)]), rfl,
      h.reply _ (h.represents.free hop rfl hfrees)⟩
  | init object f =>
    obtain ⟨w', hrun, hlog, h'⟩ := h.represents.init hR object f call
    exact ⟨_, _, run_act (runIn_seq _ (runIn_of_run _ hrun hlog)) (hnil hlog), rfl, h.reply _ h'⟩
  | add object e =>
    obtain ⟨hsome, he⟩ := hop
    obtain ⟨f, hf⟩ := Option.isSome_iff_exists.1 hsome
    have hcoh := h.represents.container object f hf
    rcases hcoh.add_spec call hR (h.represents.live_seq object)
        (Estate.not_mem_seq h.represents.balanced he object) (h.represents.live _ e he object) with
      ⟨x, hx, hz, hrun⟩ | ⟨tree, hrun, hu⟩
    · have hrejects : s.Rejects call object e := ⟨f, hf, x, hx, hz⟩
      exact ⟨_, _, run_act (runIn_seq _ (runIn_of_run _ hrun rfl)) (hnil rfl), .inr ⟨rfl, hrejects⟩,
        h.reply _ ((h.represents.enter object).unchanged object)⟩
    · refine ⟨_, _, run_act (runIn_seq _ (runIn_of_run _ hrun rfl)) (hnil rfl), .inl rfl, ?_⟩
      exact h.reply _ ((h.represents.enter object).after hf hu (s.seq_put object e _) rfl
        (Estate.balanced_put h.represents.balanced he (List.perm_append_singleton e _)))
  | remove object e =>
    obtain ⟨hsome, he⟩ := hop
    obtain ⟨f, hf⟩ := Option.isSome_iff_exists.1 hsome
    obtain ⟨tree, hrun, hu⟩ := (h.represents.container object f hf).remove_spec call hR
      (h.represents.live_seq object) he
    refine ⟨_, _, run_act (runIn_seq _ (runIn_of_run _ hrun rfl)) (hnil rfl), rfl, ?_⟩
    exact h.reply _ (h.represents.after hf hu (s.seq_take object e) rfl
      (Estate.balanced_take h.represents.balanced he))
  | invalidate object onDestroy =>
    obtain ⟨f, hf⟩ := Option.isSome_iff_exists.1 hop
    obtain ⟨w', log, hrun, hlog, h'⟩ := h.represents.invalidate hR hcall hf call
      ((Estate.length_le h.represents.balanced h.known object).trans hfuel) onDestroy
    exact ⟨_, _, run_act (runIn_seq _ hrun) hlog, rfl, h.reply _ h'⟩

omit call in
/-- Whatever a client does and whatever its compare functions answer: an entry is rejected only because
it was answered to be equal to a stored one; each container has the entries put in and not taken out; no
link of a freed entry is followed, and each entry was freed as often as it was allocated, but for the last
time if it is owned or lost. -/
theorem tree_life_cycle (hG : G.Lawful) (hcall : ∀ e u, (c.onDestroy e u).mem = u.mem)
    (hfuel : addresses.card ≤ fuel) (hw : w.log = []) (ops : List (TimedAct O F P))
    (hops : Machine.Follows (Act.run G sizeMax sizeofEntry fuel c) step
      (Allowed G sizeMax sizeofEntry addresses) Estate.start w ops) :
    ∃ replies w', Machine.runAll (Act.run G sizeMax sizeofEntry fuel c) ops w = some (replies, w') ∧
      Machine.Admitted step (Admits G sizeMax sizeofEntry) Estate.start (ops.zip replies) ∧
      (∀ object, ∀ f ∈ (Machine.replay step Estate.start (ops.zip replies)).compare object,
        Seen f object ((Machine.replay step Estate.start (ops.zip replies)).seq object) w') ∧
      Balanced (Machine.replay step Estate.start (ops.zip replies)).own
        (replies.filterMap Prod.snd) (frees w'.log) ∧
      ∀ i, ∀ x ∈ (Machine.replay step Estate.start (ops.zip replies)).own i, ∀ object,
        x ∉ (w'.mem object).tree.freed := by
  have hstart : Accounts Represents addresses [] w (Estate.start : Estate O F P) :=
    .start (Represents.start hw)
  obtain ⟨replies, w', hrun, hadmitted, h⟩ := Machine.sim_replay
    (fun _ _ _ _ h hop => steps hR hG hcall hfuel h hop) ops hstart hops
  rw [List.nil_append] at h
  exact ⟨replies, w', hrun, hadmitted,
    fun object f hf => (h.represents.container object f hf).seen hR (h.represents.live_seq object),
    h.represents.balanced, h.represents.live⟩

end

/-- Two containers that are not in use, on memory nothing was freed of. -/
def untouched : World Bool (RedBlackTreeContainer (Reference.tree : RockTree Nat).guarded Unit) (Event Nat) :=
  ⟨none, fun _ => ⟨⟨Reference.tree.zero, []⟩, none⟩, []⟩

/-- Compare functions that contradict each other; the memory of a freed entry is handed out again and goes
into the other container. -/
def disorder : List (TimedAct Bool Unit Nat) :=
  [(fun _ _ _ => 1, .init true ()), (fun _ _ _ => 1, .init false ()), (fun _ _ _ => 1, .alloc 8 (some 1)),
    (fun _ _ _ => 1, .alloc 8 (some 2)), (fun _ _ _ => 1, .add true 1), (fun _ _ _ => 0, .add true 2),
    (fun _ _ _ => -1, .add true 2), (fun _ _ _ => 1, .remove true 1), (fun _ _ _ => 1, .free 1),
    (fun _ _ _ => 1, .alloc 8 (some 1)), (fun _ _ _ => 1, .alloc 8 none), (fun _ _ _ => 1, .add false 1),
    (fun _ _ _ => 1, .invalidate true true)]

theorem tree_life_cycle_example : ∃ w',
    Machine.runAll (Act.run Reference.seagrass (2 ^ 64 - 1) 16 2 Client.elsewhere) disorder untouched =
      some ([(.ok, none), (.ok, none), (.ok, some 1), (.ok, some 2), (.ok, none),
        (.rockTreeNodeAlreadyExists, none), (.ok, none), (.ok, none), (.ok, none), (.ok, some 1),
        (.seaUrchinMemoryAllocationFailed, none), (.ok, none), (.ok, none)], w') ∧
    Seen () false [1] w' ∧ frees w'.log = [1, 2] := by
  have hops : Machine.Follows (Act.run Reference.seagrass (2 ^ 64 - 1) 16 2 Client.elsewhere)
      step (Allowed Reference.seagrass (2 ^ 64 - 1) 16 {1, 2}) Estate.start untouched disorder := by decide
  obtain ⟨replies, w', hrun, -, hseen, -⟩ := tree_life_cycle Reference.tree_lawful
    Reference.seagrass_lawful (fun _ _ => rfl) (by decide) rfl disorder hops
  have hrun' : Machine.runAll (Act.run Reference.seagrass (2 ^ 64 - 1) 16 2 Client.elsewhere) disorder
      untouched = some (_, _) := rfl
  obtain ⟨rfl, rfl⟩ := Prod.mk.inj (Option.some.inj (hrun'.symm.trans hrun))
  exact ⟨_, hrun, hseen false () rfl, rfl⟩

end RedBlackTreeContainer

end Coral
