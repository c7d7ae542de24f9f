import Coral.InsertionOrder
import Coral.Lib.Lockstep
import Coral.SortedSet

/-!
# The two ordered containers agree

The functions the two files share run in lockstep on two containers with the same tree and the same
compare function (`Layout.Alike`); what the linked container does to its list besides keeps that.
`containers_agree` puts this together for runs, for any compare function.
-/

namespace Coral

/-! ### The shared functions -/

namespace Layout
open Prog

/-- Where `m` relates two containers, they have the same tree and the same compare function, and go on
so when a call changes the tree. -/
structure Alike {P F S S' : Type} {R : RockTree P} (C : Layout R F S) (C' : Layout R F S')
    (m : S → S' → Prop) : Prop where
  tree : ∀ s s', m s s' → C.tree s = C'.tree s'
  compare : ∀ s s', m s s' → C.compare s = C'.compare s'
  setTree : ∀ s s' tree, m s s' → m (C.setTree s tree) (C'.setTree s' tree)

/-- A function of one container and one of the other in lockstep. -/
abbrev Together {O P F S S' E H α : Type} [DecidableEq O] {R : RockTree P} (C : Layout R F S)
    (C' : Layout R F S') (m : S → S' → Prop) (call : F → P → P → Int) (object : O) (b : Bool)
    (p : Prog O S P E α) (p' : Prog O S' P H α) : Prop :=
  Lock (C.answer call) (C'.answer call) m object b p p'

variable {O P F S S' E H α : Type} [DecidableEq O] {R : RockTree P} {C : Layout R F S}
  {C' : Layout R F S'} {m : S → S' → Prop} {call : F → P → P → Int} {object : O} {b : Bool}

section parts

theorem required_together (e : Except Code α) :
    Together (E := E) (H := H) C C' m call object b (required e) (required e) := by
  cases e with
  | error => exact .abort
  | ok a => exact .ret a

theorem requiredTrue_together (c : Bool) :
    Together (E := E) (H := H) C C' m call object b (requiredTrue c) (requiredTrue c) := by
  cases c with
  | false => exact .abort
  | true => exact .ret ()

theorem found_together (node : Option P) :
    Together (E := E) (H := H) C C' m call object b (found node) (found node) := by
  cases node with
  | none => exact .abort
  | some node => exact .ret _

end parts

namespace Alike
variable (h : C.Alike C' m)
include h

omit [DecidableEq O] in
theorem answer (s : S) (s' : S') (hs : m s s') (a c : P) : C.answer call s a c = C'.answer call s' a c := by
  rw [Layout.answer, Layout.answer, h.compare s s' hs]

theorem find (k : P) : Together (E := E) (H := H) C C' m call object true
    (C.find object k) (C'.find object k) := by
  refine .load ?_
  intro s s' hs
  rw [h.tree s s' hs]
  exact .lift h.answer _

theorem insertNode (p : Option P) (k : P) : Together (E := E) (H := H) C C' m call object true
    (C.insertNode object p k) (C'.insertNode object p k) := by
  refine .load ?_
  intro s s' hs
  rw [h.tree s s' hs]
  refine .bind (.lift h.answer _) fun e => .bind (required_together e) ?_
  intro tree
  exact .store (h.setTree s s' tree hs) (.ret ())

theorem entityCompare (a c : P) : Together (E := E) (H := H) C C' m call object true
    (entityCompare a c) (entityCompare a c) :=
  .ask h.answer fun i => .ret i

/-- What comes after an entry was put into the tree may differ. -/
theorem enlist (entry : P) {rest : Prog O S P E Code} {rest' : Prog O S' P H Code}
    (hrest : Together C C' m call object true rest rest') :
    Together C C' m call object b (C.enlist object entry rest) (C'.enlist object entry rest') := by
  refine .select (.bind (h.find entry) ?_)
  rintro ⟨error, node⟩
  exact .ite (.ret _) (.bind (requiredTrue_together _) fun _ => .bind (h.insertNode _ _) fun _ => hrest)

theorem count (out : Out Nat) : Together (E := E) (H := H) C C' m call object b
    (C.count (some object) out) (C'.count (some object) out) := by
  cases out with
  | none => exact .ret _
  | some v =>
    refine .load ?_
    intro s s' hs
    rw [h.tree s s' hs]
    exact .bind (required_together _) fun _ => .ret _

variable {out : Out (Option P)}

theorem stepOrNotFound (step : R.Tree → P → Except Code P) (node : P) :
    Together (E := E) (H := H) C C' m call object b (C.stepOrNotFound step object node out)
      (C'.stepOrNotFound step object node out) := by
  refine .load ?_
  intro s s' hs
  rw [h.tree s s' hs]
  cases step (C'.tree s') node with
  | ok node => exact found_together _
  | error error => exact .bind (requiredTrue_together _) fun _ => .ret _

variable (key : Option P) (out : Out (Option P))

theorem query (q : Query) : Together (E := E) (H := H) C C' m call object b
    (C.query (some object) key out q) (C'.query (some object) key out q) := by
  rcases key with _ | key
  · cases q <;> exact .ret _
  rcases out with _ | v
  · cases q <;> exact .ret _
  cases q with
  | get =>
    refine .select (.bind (h.find key) ?_)
    rintro ⟨error, node⟩
    exact .ite (found_together node) (.bind (requiredTrue_together _) fun _ => .ret _)
  | ceiling =>
    refine .select (.bind (h.find key) ?_)
    rintro ⟨error, node⟩
    refine .ite (found_together node) (.bind (requiredTrue_together _) fun _ => ?_)
    cases node with
    | none => exact .ret _
    | some node => exact .bind (h.entityCompare key node) fun c => .ite (.ret _) (found_together _)
  | floor =>
    refine .select (.bind (h.find key) ?_)
    rintro ⟨error, node⟩
    refine .ite (found_together node) (.bind (requiredTrue_together _) fun _ => ?_)
    cases node with
    | none => exact .ret _
    | some node =>
      exact .bind (h.entityCompare key node) fun c => .ite (h.stepOrNotFound _ _) (found_together _)
  | higher =>
    refine .select (.bind (h.find key) ?_)
    rintro ⟨error, node⟩
    refine .ite ?_ (.bind (requiredTrue_together _) fun _ => ?_)
    · cases node with
      | none => exact .abort
      | some node => exact h.stepOrNotFound _ _
    · cases node with
      | none => exact .ret _
      | some node => exact .bind (h.entityCompare key node) fun c => .ite (.ret _) (found_together _)
  | lower =>
    refine .select (.bind (h.find key) ?_)
    rintro ⟨error, node⟩
    refine .bind (requiredTrue_together _) fun _ => ?_
    cases node with
    | none => exact .ite .abort (.ret _)
    | some node =>
      exact .bind (h.entityCompare key node) fun c => .ite (h.stepOrNotFound _ _) (found_together _)

theorem firstOrLast (end_ : R.Tree → Except Code P) : Together (E := E) (H := H) C C' m call object b
    (C.firstOrLast end_ (some object) out) (C'.firstOrLast end_ (some object) out) := by
  cases out with
  | none => exact .ret _
  | some v =>
    refine .load ?_
    intro s s' hs
    rw [h.tree s s' hs]
    cases end_ (C'.tree s') with
    | ok node => exact found_together _
    | error error => exact .bind (requiredTrue_together _) fun _ => .ret _

theorem nextOrPrev (step : R.Tree → P → Except Code P) : Together (E := E) (H := H) C C' m call object b
    (C.nextOrPrev step object key out) (C'.nextOrPrev step object key out) := by
  rcases key with _ | entry
  · exact .ret _
  rcases out with _ | v
  · exact .ret _
  refine .load ?_
  intro s s' hs
  rw [h.tree s s' hs]
  cases step (C'.tree s') entry with
  | ok node => exact found_together _
  | error error => exact .bind (requiredTrue_together _) fun _ => .ret _

end Alike

end Layout

namespace Agreement
open Prog

variable {P F O : Type} [DecidableEq O] {R : RockTree P} {L : RockList P} {call : F → P → P → Int}
  {object : O} {b : Bool}

/-- The two containers order the same entries in the same tree. -/
structure Same (s : LinkedRedBlackTreeContainer R L F) (s' : RedBlackTreeContainer R F) : Prop where
  tree : s.tree = s'.tree
  compare : s.compare = s'.compare

theorem same_alike : LinkedRedBlackTreeContainer.layout.Alike RedBlackTreeContainer.layout
    (Same : LinkedRedBlackTreeContainer R L F → RedBlackTreeContainer R F → Prop) where
  tree _ _ h := h.tree
  compare _ _ h := h.compare
  setTree _ _ _ h := ⟨rfl, h.compare⟩

/-- A function of the linked container and one of the plain container in lockstep. -/
abbrev Together {α : Type} (call : F → P → P → Int) (object : O) (b : Bool)
    (p : LinkedRedBlackTreeContainer.M O R L F α) (p' : RedBlackTreeContainer.M O R F α) : Prop :=
  Lock (LinkedRedBlackTreeContainer.answer call) (RedBlackTreeContainer.answer call) Same object b p p'

/-! ### The calls that change a container -/

section quiet
variable {w : World O (LinkedRedBlackTreeContainer R L F) (Event P)} {s' : RedBlackTreeContainer R F}

theorem quiet_put (h : Same (w.mem object) s') {s : LinkedRedBlackTreeContainer R L F}
    (ht : s.tree = (w.mem object).tree) (hf : s.compare = (w.mem object).compare) :
    (w.put object s).current = w.current ∧ Same ((w.put object s).mem object) s' := by
  refine ⟨rfl, ?_⟩
  rw [World.mem_put, Function.update_self]
  exact ⟨ht.trans h.tree, hf.trans h.compare⟩

theorem setList_quiet (h : Same (w.mem object) s') (node : Option P) : ∃ a w₁,
    (LinkedRedBlackTreeContainer.setList object node).run (LinkedRedBlackTreeContainer.answer call) w =
      some (a, w₁) ∧ w₁.current = w.current ∧ Same (w₁.mem object) s' :=
  ⟨(), _, rfl, quiet_put h rfl rfl⟩

variable [DecidableEq P] (hL : L.Lawful) (h : Same (w.mem object) s')
include hL h

theorem listInsertBefore_quiet (a v : P) : ∃ u w₁,
    (LinkedRedBlackTreeContainer.listInsertBefore object a v).run
      (LinkedRedBlackTreeContainer.answer call) w = some (u, w₁) ∧
      w₁.current = w.current ∧ Same (w₁.mem object) s' := by
  obtain ⟨nodes, hn⟩ := hL.insertBefore_ok (w.mem object).nodes a v
  refine ⟨(), w.put object { w.mem object with nodes }, ?_, quiet_put h rfl rfl⟩
  unfold LinkedRedBlackTreeContainer.listInsertBefore
  rw [run_load]
  exact run_required hn _

theorem listRemove_quiet (a : P) : ∃ u w₁,
    (LinkedRedBlackTreeContainer.listRemove object a).run
      (LinkedRedBlackTreeContainer.answer call) w = some (u, w₁) ∧
      w₁.current = w.current ∧ Same (w₁.mem object) s' := by
  obtain ⟨nodes, hn⟩ := hL.remove_ok (w.mem object).nodes a
  refine ⟨(), w.put object { w.mem object with nodes }, ?_, quiet_put h rfl rfl⟩
  unfold LinkedRedBlackTreeContainer.listRemove
  rw [run_load]
  exact run_required hn _

theorem append_quiet (v : P) : ∃ u w₁,
    (LinkedRedBlackTreeContainer.append object v).run (LinkedRedBlackTreeContainer.answer call) w =
      some (u, w₁) ∧ w₁.current = w.current ∧ Same (w₁.mem object) s' := by
  cases hlist : (w.mem object).list with
  | none =>
    rw [LinkedRedBlackTreeContainer.run_append_none hlist]
    exact setList_quiet h _
  | some list =>
    rw [LinkedRedBlackTreeContainer.run_append_some hlist]
    exact listInsertBefore_quiet hL h list v

theorem unhead_quiet (a : P) : ∃ u w₁,
    (LinkedRedBlackTreeContainer.unhead object a).run (LinkedRedBlackTreeContainer.answer call) w =
      some (u, w₁) ∧ w₁.current = w.current ∧ Same (w₁.mem object) s' := by
  unfold LinkedRedBlackTreeContainer.unhead
  rw [run_load, hL.next_ok]
  split
  · exact setList_quiet h _
  · exact ⟨(), w, rfl, rfl, h⟩

omit hL in
theorem rehead_quiet (a v : P) : ∃ u w₁,
    (LinkedRedBlackTreeContainer.rehead object a v).run (LinkedRedBlackTreeContainer.answer call) w =
      some (u, w₁) ∧ w₁.current = w.current ∧ Same (w₁.mem object) s' := by
  unfold LinkedRedBlackTreeContainer.rehead
  rw [run_load]
  split
  · exact setList_quiet h _
  · exact ⟨(), w, rfl, rfl, h⟩

end quiet

section mutators
variable [DecidableEq P] (hL : L.Lawful)
include hL

theorem add_together (entry : P) : Together (L := L) call object b
    (LinkedRedBlackTreeContainer.add (some object) (some entry))
    (RedBlackTreeContainer.add (R := R) (some object) (some entry)) :=
  same_alike.enlist entry (.quiet (fun _ _ h => append_quiet hL h entry) fun _ => .ret _)

theorem insert_together (entry item : P) : Together (L := L) call object b
    (LinkedRedBlackTreeContainer.insert (some object) (some entry) (some item))
    (RedBlackTreeContainer.add (R := R) (some object) (some item)) := by
  refine same_alike.enlist item (.quiet (fun _ _ h => listInsertBefore_quiet hL h entry item) fun _ => ?_)
  exact .quiet (fun _ _ h => rehead_quiet h entry item) fun _ => .ret _

theorem remove_together (entry : P) : Together (L := L) call object b
    (LinkedRedBlackTreeContainer.remove (some object) (some entry))
    (RedBlackTreeContainer.remove (R := R) (some object) (some entry)) := by
  refine .quiet (fun w s' h => unhead_quiet hL h entry) fun _ => ?_
  refine .quiet (fun w s' h => listRemove_quiet hL h entry) fun _ => ?_
  refine .load ?_
  intro s s' h
  show Together call object b
    (((required (R.remove s.tree entry)).bind fun tree => store object { s with tree } (.ret ())).bind
      fun _ => .ret Code.ok)
    ((required (R.remove s'.tree entry)).bind fun tree => store object { s' with tree } (.ret Code.ok))
  rw [h.tree]
  cases R.remove s'.tree entry with
  | error => exact .abort
  | ok tree => exact .store ⟨rfl, h.compare⟩ (.ret _)

/-- What the plain container is asked to do instead. -/
def plainOp : LinkedRedBlackTreeContainer.Op P → RedBlackTreeContainer.Op P
  | .add entry => .add entry
  | .insert _ item => .add item
  | .remove entry => .remove entry

theorem exec_together (op : LinkedRedBlackTreeContainer.Op P) :
    Together (L := L) call object b (op.exec object) ((plainOp op).exec (R := R) object) := by
  cases op with
  | add entry => exact add_together hL entry
  | insert entry item => exact insert_together hL entry item
  | remove entry => exact remove_together hL entry

end mutators

/-! ### Runs -/

section runs
variable {f : F} {w w₀ w₁ : World O (LinkedRedBlackTreeContainer R L F) (Event P)}
  {w' w₀' w₁' : World O (RedBlackTreeContainer R F) (Event P)}

theorem init_same
    (hinit : (LinkedRedBlackTreeContainer.init (some object) (some f)).run
      (LinkedRedBlackTreeContainer.answer call) w₀ = some (.ok, w₁))
    (hinit' : (RedBlackTreeContainer.init (some object) (some f)).run
      (RedBlackTreeContainer.answer call) w₀' = some (.ok, w₁')) :
    At Same object false w₁ w₁' := by
  change ((required (R.init R.zero)).bind _).run _ _ = _ at hinit hinit'
  cases ht : R.init R.zero with
  | error => rw [ht] at hinit; cases hinit
  | ok t =>
    rw [ht] at hinit hinit'
    obtain ⟨-, rfl⟩ := Prod.mk.inj (Option.some.inj hinit)
    obtain ⟨-, rfl⟩ := Prod.mk.inj (Option.some.inj hinit')
    refine ⟨?_, fun hb => absurd hb (by decide)⟩
    simp only [World.mem_put, Function.update_self]
    exact ⟨rfl, rfl⟩

/-- The two functions return the same, or both stop at a failed check. -/
def SameResult {α : Type} (call : F → P → P → Int)
    (w : World O (LinkedRedBlackTreeContainer R L F) (Event P))
    (w' : World O (RedBlackTreeContainer R F) (Event P)) (p : LinkedRedBlackTreeContainer.M O R L F α)
    (p' : RedBlackTreeContainer.M O R F α) : Prop :=
  (p.run (LinkedRedBlackTreeContainer.answer call) w).map Prod.fst =
    (p'.run (RedBlackTreeContainer.answer call) w').map Prod.fst

/-- Every question about the order has the same answer in both containers. -/
structure SameAnswers (call : F → P → P → Int) (object : O)
    (w : World O (LinkedRedBlackTreeContainer R L F) (Event P))
    (w' : World O (RedBlackTreeContainer R F) (Event P)) : Prop where
  count : ∀ out, SameResult call w w' (LinkedRedBlackTreeContainer.count (some object) out)
    (RedBlackTreeContainer.count (some object) out)
  get : ∀ key out, SameResult call w w' (LinkedRedBlackTreeContainer.get (some object) key out)
    (RedBlackTreeContainer.get (some object) key out)
  ceiling : ∀ key out, SameResult call w w' (LinkedRedBlackTreeContainer.ceiling (some object) key out)
    (RedBlackTreeContainer.ceiling (some object) key out)
  floor : ∀ key out, SameResult call w w' (LinkedRedBlackTreeContainer.floor (some object) key out)
    (RedBlackTreeContainer.floor (some object) key out)
  higher : ∀ key out, SameResult call w w' (LinkedRedBlackTreeContainer.higher (some object) key out)
    (RedBlackTreeContainer.higher (some object) key out)
  lower : ∀ key out, SameResult call w w' (LinkedRedBlackTreeContainer.lower (some object) key out)
    (RedBlackTreeContainer.lower (some object) key out)
  first : ∀ out, SameResult call w w' (LinkedRedBlackTreeContainer.sortedFirst (some object) out)
    (RedBlackTreeContainer.first (some object) out)
  last : ∀ out, SameResult call w w' (LinkedRedBlackTreeContainer.sortedLast (some object) out)
    (RedBlackTreeContainer.last (some object) out)
  next : ∀ entry out, SameResult call w w' (LinkedRedBlackTreeContainer.sortedNext object entry out)
    (RedBlackTreeContainer.next object entry out)
  prev : ∀ entry out, SameResult call w w' (LinkedRedBlackTreeContainer.sortedPrev object entry out)
    (RedBlackTreeContainer.prev object entry out)

theorem sameAnswers (h : At Same object false w w') : SameAnswers call object w w' where
  count out := (same_alike.count out w w' h).map_fst
  get key out := (same_alike.query key out .get w w' h).map_fst
  ceiling key out := (same_alike.query key out .ceiling w w' h).map_fst
  floor key out := (same_alike.query key out .floor w w' h).map_fst
  higher key out := (same_alike.query key out .higher w w' h).map_fst
  lower key out := (same_alike.query key out .lower w w' h).map_fst
  first out := (same_alike.firstOrLast out R.first w w' h).map_fst
  last out := (same_alike.firstOrLast out R.last w w' h).map_fst
  next entry out := (same_alike.nextOrPrev entry out R.next w w' h).map_fst
  prev entry out := (same_alike.nextOrPrev entry out R.prev w w' h).map_fst

theorem containers_agree [DecidableEq P] (hL : L.Lawful)
    (hinit : (LinkedRedBlackTreeContainer.init (some object) (some f)).run
      (LinkedRedBlackTreeContainer.answer call) w₀ = some (.ok, w₁))
    (hinit' : (RedBlackTreeContainer.init (some object) (some f)).run
      (RedBlackTreeContainer.answer call) w₀' = some (.ok, w₁'))
    (ops : List (LinkedRedBlackTreeContainer.Op P)) :
    (runAll (LinkedRedBlackTreeContainer.answer call)
      (LinkedRedBlackTreeContainer.Op.exec object) ops w₁).map Prod.fst =
    (runAll (RedBlackTreeContainer.answer call)
      (RedBlackTreeContainer.Op.exec object) (ops.map plainOp) w₁').map Prod.fst ∧
    ∀ codes codes' w w',
      runAll (LinkedRedBlackTreeContainer.answer call)
        (LinkedRedBlackTreeContainer.Op.exec object) ops w₁ = some (codes, w) →
      runAll (RedBlackTreeContainer.answer call)
        (RedBlackTreeContainer.Op.exec object) (ops.map plainOp) w₁' = some (codes', w') →
      SameAnswers call object w w' := by
  have hexec : ∀ op : LinkedRedBlackTreeContainer.Op P, Together (R := R) (L := L) call object false
      (op.exec object) ((plainOp op).exec object) := exec_together hL
  have hrun := Lock.runAll hexec ops (init_same hinit hinit')
  refine ⟨hrun.map_fst, ?_⟩
  intro codes codes' w w' hw hw'
  rcases hrun.cases with ⟨hn, -⟩ | ⟨a, v, v', hv, hv', hat⟩
  · rw [hw] at hn
    cases hn
  · rw [hw] at hv
    rw [hw'] at hv'
    obtain ⟨-, rfl⟩ := Prod.mk.inj (Option.some.inj hv)
    obtain ⟨-, rfl⟩ := Prod.mk.inj (Option.some.inj hv')
    exact sameAnswers hat

theorem containers_agree_example : ∃ w₁ w₁' w w',
    (LinkedRedBlackTreeContainer.init (some ()) (some ())).run
      (LinkedRedBlackTreeContainer.answer Reference.compare) LinkedRedBlackTreeContainer.blank =
        some (.ok, w₁) ∧
    (RedBlackTreeContainer.init (some ()) (some ())).run
      (RedBlackTreeContainer.answer Reference.compare) RedBlackTreeContainer.blank = some (.ok, w₁') ∧
    runAll (LinkedRedBlackTreeContainer.answer Reference.compare)
      (LinkedRedBlackTreeContainer.Op.exec ()) [.add 2, .insert 2 1, .insert 1 2] w₁ =
        some ([.ok, .ok, .rockTreeNodeAlreadyExists], w) ∧
    runAll (RedBlackTreeContainer.answer Reference.compare)
      (RedBlackTreeContainer.Op.exec ()) [.add 2, .add 1, .add 2] w₁' =
        some ([.ok, .ok, .rockTreeNodeAlreadyExists], w') ∧
    SameAnswers Reference.compare () w w' := by
  have hagree := containers_agree Reference.list_lawful
    (rfl : (LinkedRedBlackTreeContainer.init (some ()) (some ())).run
      (LinkedRedBlackTreeContainer.answer Reference.compare) LinkedRedBlackTreeContainer.blank =
        some (.ok, _))
    (rfl : (RedBlackTreeContainer.init (some ()) (some ())).run
      (RedBlackTreeContainer.answer Reference.compare) RedBlackTreeContainer.blank = some (.ok, _))
    [.add 2, .insert 2 1, .insert 1 2]
  exact ⟨_, _, _, _, rfl, rfl, rfl, rfl, hagree.2 _ _ _ _ rfl rfl⟩

end runs

end Agreement

end Coral
