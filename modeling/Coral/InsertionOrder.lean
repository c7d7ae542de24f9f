import Coral.Lib.Runs
import Coral.LinkedSpec
import Coral.Reference

/-!
# The linked container keeps the order of insertion

The abstract container is the sequence of its entries (`InsertionOrder.step`). On every run of `add`,
`insert` and `remove` the tree and the ring of the container hold the same entries (`indexes_agree`),
and going along the ring shows the abstract sequence (`keeps_insertion_order`).
-/

namespace Coral

namespace LinkedRedBlackTreeContainer
open Prog Places ThreeWay

/-- The calls that change a container. -/
inductive Op (P : Type) where
  | add (entry : P)
  | insert (entry item : P)
  | remove (entry : P)

variable {P F O : Type} [DecidableEq P] {R : RockTree P} {L : RockList P}

def Op.exec (object : O) : Op P → M O R L F Code
  | .add entry => LinkedRedBlackTreeContainer.add (some object) (some entry)
  | .insert entry item => LinkedRedBlackTreeContainer.insert (some object) (some entry) (some item)
  | .remove entry => LinkedRedBlackTreeContainer.remove (some object) (some entry)

/-- The candidates are those of `pool`; `insert` and `remove` are called at a stored entry. -/
def Op.Allowed (pool : P → Prop) (object : O)
    (w : World O (LinkedRedBlackTreeContainer R L F) (Event P)) : Op P → Prop
  | .add entry => pool entry
  | .insert entry item => entry ∈ R.nodes (w.mem object).tree ∧ pool item
  | .remove entry => entry ∈ R.nodes (w.mem object).tree

instance {pool : P → Prop} [DecidablePred pool] {object : O}
    {w : World O (LinkedRedBlackTreeContainer R L F) (Event P)} :
    (op : Op P) → Decidable (op.Allowed pool object w)
  | .add entry => inferInstanceAs (Decidable (pool entry))
  | .insert _ _ => inferInstanceAs (Decidable (_ ∧ _))
  | .remove entry => inferInstanceAs (Decidable (entry ∈ R.nodes (w.mem object).tree))

namespace InsertionOrder

/-- What a call does to the sequence. -/
def step (cmp : P → P → Int) (l : List P) : Op P → Code × List P
  | .add entry =>
      if ∃ e ∈ l, cmp entry e = 0 then (.rockTreeNodeAlreadyExists, l) else (.ok, l ++ [entry])
  | .insert entry item =>
      if ∃ e ∈ l, cmp item e = 0 then (.rockTreeNodeAlreadyExists, l)
      else (.ok, insertBefore entry item l)
  | .remove entry => (.ok, l.erase entry)

/-- The results and the last state of a run that starts empty. -/
def run (cmp : P → P → Int) (ops : List (Op P)) : List Code × List P := absRun (step cmp) [] ops

end InsertionOrder

variable [DecidableEq O] {call : F → P → P → Int} {f : F} {pool : P → Prop} {object : O} {l : List P}
  {w w₀ w₁ : World O (LinkedRedBlackTreeContainer R L F) (Event P)}

section run
variable (hR : R.Lawful) (hL : L.Lawful) (hc : TotalPreorder (call f))
include hR hL hc

theorem step_refines (h : Holds call f pool l (w.mem object)) (op : Op P)
    (hop : op.Allowed pool object w) :
    ∃ w', (op.exec object).run (answer call) w = some ((InsertionOrder.step (call f) l op).1, w') ∧
      Holds call f pool (InsertionOrder.step (call f) l op).2 (w'.mem object) := by
  cases op with
  | add entry =>
    by_cases heq : ∃ e ∈ l, call f entry e = 0
    · rw [InsertionOrder.step, if_pos heq]
      obtain ⟨e, he, hz⟩ := heq
      exact ⟨_, add_hit hR hc h he hz, h⟩
    · rw [InsertionOrder.step, if_neg heq]
      exact add_miss hR hL hc h hop fun e he hz => heq ⟨e, he, hz⟩
  | insert entry item =>
    by_cases heq : ∃ e ∈ l, call f item e = 0
    · rw [InsertionOrder.step, if_pos heq]
      obtain ⟨e, he, hz⟩ := heq
      exact ⟨_, insert_hit hR hc h he hz, h⟩
    · rw [InsertionOrder.step, if_neg heq]
      exact insert_miss hR hL hc h (h.mem_iff.1 hop.1) hop.2 fun e he hz => heq ⟨e, he, hz⟩
  | remove entry => exact remove_spec hR hL hc h (h.mem_iff.1 hop)

/-- What holds after every run. The candidates are alone before it, as `alloc` leaves them. -/
theorem run_refines (halone : ∀ x, pool x → Links.Alone (L.links (w₀.mem object).nodes) x)
    (hinit : (init (some object) (some f)).run (answer call) w₀ = some (.ok, w₁)) {ops : List (Op P)}
    (hops : Valid (answer call) (Op.exec object) (Op.Allowed pool object) ops w₁) :
    ∃ w, runAll (answer call) (Op.exec object) ops w₁ = some ((InsertionOrder.run (call f) ops).1, w) ∧
      Holds call f pool (InsertionOrder.run (call f) ops).2 (w.mem object) := by
  obtain ⟨w', hw', h⟩ := init_spec hR call f object w₀ halone
  obtain rfl : w' = w₁ := by simpa [hw'] using hinit
  have hstep : ∀ w l op, Holds call f pool l (w.mem object) → op.Allowed pool object w →
      ∃ w', (op.exec object).run (answer call) w = some ((InsertionOrder.step (call f) l op).1, w') ∧
        Holds call f pool (InsertionOrder.step (call f) l op).2 (w'.mem object) :=
    fun w l op h hop => step_refines hR hL hc h op hop
  exact sim_runAll hstep ops h hops

end run

/-- The run of the allowed calls `ops` leads from `init` to `w`; the candidates were alone before. -/
def ReachableBy (call : F → P → P → Int) (f : F) (pool : P → Prop) (object : O) (ops : List (Op P))
    (w : World O (LinkedRedBlackTreeContainer R L F) (Event P)) : Prop :=
  ∃ w₀ w₁ codes, (∀ x, pool x → Links.Alone (L.links (w₀.mem object).nodes) x) ∧
    (init (some object) (some f)).run (answer call) w₀ = some (.ok, w₁) ∧
    Valid (answer call) (Op.exec object) (Op.Allowed pool object) ops w₁ ∧
    runAll (answer call) (Op.exec object) ops w₁ = some (codes, w)

def Reachable (call : F → P → P → Int) (f : F) (pool : P → Prop) (object : O)
    (w : World O (LinkedRedBlackTreeContainer R L F) (Event P)) : Prop :=
  ∃ ops, ReachableBy call f pool object ops w

theorem ReachableBy.holds (hR : R.Lawful) (hL : L.Lawful) (hc : TotalPreorder (call f))
    {ops : List (Op P)} (hw : ReachableBy call f pool object ops w) :
    Holds call f pool (InsertionOrder.run (call f) ops).2 (w.mem object) := by
  obtain ⟨w₀, w₁, codes, halone, hinit, hops, hrun⟩ := hw
  obtain ⟨w', hw', h⟩ := run_refines hR hL hc halone hinit hops
  obtain ⟨-, rfl⟩ := Prod.mk.inj (Option.some.inj (hrun.symm.trans hw'))
  exact h

/-! ### The two indexes -/

/-- The ring `object->list` leads to and the tree hold the same entries. -/
structure Agree (call : F → P → P → Int) (f : F) (object : O) (l : List P)
    (w : World O (LinkedRedBlackTreeContainer R L F) (Event P)) : Prop where
  ring : Links.Ring (L.links (w.mem object).nodes) l
  head : (w.mem object).list = l.head?
  nodup : l.Nodup
  same : ∀ e, e ∈ l ↔ e ∈ R.nodes (w.mem object).tree
  null : (w.mem object).list = none ↔ R.nodes (w.mem object).tree = []
  count : ∀ v, (count (some object) (some v) : M O R L F _).run (answer call) w =
    some ((.ok, some l.length), w)
  different : l.Pairwise fun a b => call f a b ≠ 0

omit [DecidableEq P] in
theorem Holds.agree (hc : TotalPreorder (call f)) (h : Holds call f pool l (w.mem object)) : Agree call f object l w where
  ring := h.keeps.ring ()
  head := h.head
  nodup := h.keeps.nodup ()
  same e := h.mem_iff.symm
  null := by
    rw [h.head, List.head?_eq_none_iff]
    exact ⟨fun hl => (hl ▸ h.same).eq_nil, fun ht => (ht ▸ h.same).symm.eq_nil⟩
  count v := count_spec h v
  different := by
    have hne : (R.nodes (w.mem object).tree).Pairwise fun a b => call f a b ≠ 0 :=
      h.sorted.ascending.imp fun {a b} hab => by omega
    exact (h.same.pairwise_iff fun {a b} hab hba => hab ((hc.zero_comm a b).2 hba)).1 hne

theorem indexes_agree (hR : R.Lawful) (hL : L.Lawful) (hc : TotalPreorder (call f))
    (halone : ∀ x, pool x → Links.Alone (L.links (w₀.mem object).nodes) x)
    (hinit : (init (some object) (some f)).run (answer call) w₀ = some (.ok, w₁)) (ops : List (Op P))
    (hops : Valid (answer call) (Op.exec object) (Op.Allowed pool object) ops w₁) :
    ∃ w, runAll (answer call) (Op.exec object) ops w₁ = some ((InsertionOrder.run (call f) ops).1, w) ∧
      Agree call f object (InsertionOrder.run (call f) ops).2 w := by
  obtain ⟨w, hw, h⟩ := run_refines hR hL hc halone hinit hops
  exact ⟨w, hw, h.agree hc⟩

/-- Nothing is initialised yet, and every list node is alone. -/
def blank : World Unit (LinkedRedBlackTreeContainer (Reference.tree : RockTree Nat) Reference.list Unit)
    (Event Nat) :=
  ⟨none, fun _ => ⟨Reference.tree.zero, some 7, none, Reference.alone⟩, []⟩

theorem indexes_agree_example : ∃ w₁ w,
    (init (some ()) (some ())).run (answer Reference.compare) blank = some (.ok, w₁) ∧
    runAll (answer Reference.compare) (Op.exec ())
      [.add 2, .insert 2 1, .insert 1 2, .remove 1, .add 1] w₁ =
        some ([.ok, .ok, .rockTreeNodeAlreadyExists, .ok, .ok], w) ∧
    Agree Reference.compare () () [2, 1] w := by
  obtain ⟨w, hw, h⟩ := indexes_agree Reference.tree_lawful Reference.list_lawful
    Reference.compare_total (fun x (_ : x < 3) => ⟨rfl, rfl⟩)
    (rfl : (init (some ()) (some ())).run (answer Reference.compare) blank = some (.ok, _))
    [.add 2, .insert 2 1, .insert 1 2, .remove 1, .add 1] (by decide)
  exact ⟨_, w, rfl, hw, h⟩

/-! ### The order -/

/-- What a client sees of a container whose entries were put in the order `l`. -/
structure Shows (call : F → P → P → Int) (f : F) (object : O) (l : List P)
    (w : World O (LinkedRedBlackTreeContainer R L F) (Event P)) : Prop where
  nodup : l.Nodup
  forward : ∀ n, (traverse (first (some object) (some none))
      (fun e => next (some object) (some e) (some none)) n).run (answer call) w =
    some (traversal .rockTreeTreeIsEmpty .rockTreeEndOfSequence l n, w)
  backward : ∀ n, (traverse (last (some object) (some none))
      (fun e => prev (some object) (some e) (some none)) n).run (answer call) w =
    some (traversal .rockTreeTreeIsEmpty .rockTreeEndOfSequence l.reverse n, w)

theorem Holds.shows (hL : L.Lawful) (h : Holds call f pool l (w.mem object)) :
    Shows call f object l w where
  nodup := h.keeps.nodup ()
  forward := run_traverse (by decide) (by decide) (first_spec h none)
    fun pre e post hl => next_spec hL h hl none
  backward := run_traverse_reverse (by decide) (by decide) (last_spec hL h none)
    fun pre e post hl => prev_spec hL h hl none

theorem keeps_insertion_order (hR : R.Lawful) (hL : L.Lawful) (hc : TotalPreorder (call f))
    (halone : ∀ x, pool x → Links.Alone (L.links (w₀.mem object).nodes) x)
    (hinit : (init (some object) (some f)).run (answer call) w₀ = some (.ok, w₁)) (ops : List (Op P))
    (hops : Valid (answer call) (Op.exec object) (Op.Allowed pool object) ops w₁) :
    ∃ w, runAll (answer call) (Op.exec object) ops w₁ = some ((InsertionOrder.run (call f) ops).1, w) ∧
      Shows call f object (InsertionOrder.run (call f) ops).2 w := by
  obtain ⟨w, hw, h⟩ := run_refines hR hL hc halone hinit hops
  exact ⟨w, hw, h.shows hL⟩

theorem keeps_insertion_order_example : ∃ w₁ w,
    (init (some ()) (some ())).run (answer Reference.compare) blank = some (.ok, w₁) ∧
    runAll (answer Reference.compare) (Op.exec ())
      [.add 2, .insert 2 1, .insert 1 2, .remove 1, .add 1] w₁ =
        some ([.ok, .ok, .rockTreeNodeAlreadyExists, .ok, .ok], w) ∧
    Shows Reference.compare () () [2, 1] w := by
  obtain ⟨w, hw, h⟩ := keeps_insertion_order Reference.tree_lawful Reference.list_lawful
    Reference.compare_total (fun x (_ : x < 3) => ⟨rfl, rfl⟩)
    (rfl : (init (some ()) (some ())).run (answer Reference.compare) blank = some (.ok, _))
    [.add 2, .insert 2 1, .insert 1 2, .remove 1, .add 1] (by decide)
  exact ⟨_, w, rfl, hw, h⟩

end LinkedRedBlackTreeContainer

end Coral
