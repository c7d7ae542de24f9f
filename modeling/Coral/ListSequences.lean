import Mathlib.Data.Fintype.Basic
import Coral.Lib.Runs
import Coral.ListSpec
import Coral.Reference

/-!
# The linked lists are sequences

The abstract memory gives every list object its sequence (`Sequences.step`); `Holds` relates it to the
list objects in `objects`, which are those that were initialised, and `pool` are the items.
`refines_sequences`: whatever calls are made, on any of the lists and with items
going from one to another, each list goes through its own sequence.
-/

namespace Coral

namespace LinkedList
open Prog Places

/-- The calls that change a list. -/
inductive Op (I P : Type) where
  | add (object : I) (item : P)
  | insert (object : I) (item value : P)
  | remove (object : I) (item : P)

variable {P I : Type} [DecidableEq P] [DecidableEq I] {L : RockList P}

def Op.exec (G : Seagrass) : Op I P → M I L Code
  | .add object item => LinkedList.add G (some object) (some item)
  | .insert object item value => LinkedList.insert G (some object) (some item) (some value)
  | .remove object item => LinkedList.remove G (some object) (some item)

/-- The list can count the item the call puts into it. -/
def Op.Fits (G : Seagrass) (seq : I → List P) : Op I P → Prop
  | .add object _ | .insert object _ _ => 1 + (seq object).length ≤ G.uintmaxMax
  | .remove _ _ => True

namespace Sequences

/-- What a call does to the sequences. -/
def step (seq : I → List P) : Op I P → Code × (I → List P)
  | .add object item => (.ok, Function.update seq object (seq object ++ [item]))
  | .insert object item value => (.ok, Function.update seq object (insertBefore item value (seq object)))
  | .remove object item => (.ok, Function.update seq object ((seq object).erase item))

/-- An item of `pool` that is in no list may be put in a list, an item of the list may be taken out. -/
def Allowed (objects : List I) (pool : Finset P) (seq : I → List P) : Op I P → Prop
  | .add object item => object ∈ objects ∧ item ∈ pool ∧ ∀ j, item ∉ seq j
  | .insert object item value => object ∈ objects ∧ item ∈ seq object ∧ value ∈ pool ∧ ∀ j, value ∉ seq j
  | .remove object item => object ∈ objects ∧ item ∈ seq object

instance [Fintype I] {objects : List I} {pool : Finset P} {seq : I → List P} :
    (op : Op I P) → Decidable (Allowed objects pool seq op)
  | .add _ _ => inferInstanceAs (Decidable (_ ∧ _ ∧ _))
  | .insert _ _ _ => inferInstanceAs (Decidable (_ ∧ _ ∧ _ ∧ _))
  | .remove _ _ => inferInstanceAs (Decidable (_ ∧ _))

/-- The results and the sequences of a run that starts with empty lists. -/
def run (ops : List (Op I P)) : List Code × (I → List P) := absRun step (fun _ => []) ops

end Sequences

/-! ### Runs -/

variable {G : Seagrass} {objects : List I} {pool : Finset P} {seq : I → List P}
  {w w₀ w₁ : World Unit (Memory I L) (Event P)}

/-- What a client sees of lists that hold the sequences `seq`. -/
structure Shows (objects : List I) (seq : I → List P) (w : World Unit (Memory I L) (Event P)) :
    Prop where
  nodup : ∀ i, (seq i).Nodup
  disjoint : ∀ i j x, x ∈ seq i → x ∈ seq j → i = j
  count : ∀ i ∈ objects, ∀ v, (count (some i) (some v)).run noCallback w =
    some ((.ok, some (seq i).length), w)
  forward : ∀ i ∈ objects, ∀ n, (traverse (first (some i) (some none))
      (fun a => next (some i) (some a) (some none)) n).run noCallback w =
    some (traversal .seaUrchinIsEmpty .seaUrchinEndOfSequence (seq i) n, w)
  backward : ∀ i ∈ objects, ∀ n, (traverse (last (some i) (some none))
      (fun a => prev (some i) (some a) (some none)) n).run noCallback w =
    some (traversal .seaUrchinIsEmpty .seaUrchinEndOfSequence (seq i).reverse n, w)

omit [DecidableEq I] in
theorem Holds.shows_on {live : L.Heap → P → Prop} (hL : L.LawfulOn live) (h : Holds objects pool seq w)
    (hlive : ∀ x ∈ pool, live (w.mem ()).nodes x) : Shows objects seq w where
  nodup := h.keeps.nodup
  disjoint := h.keeps.disjoint
  count i hi v := count_spec h hi v
  forward i hi := run_traverse (by decide) (by decide) (first_spec h hi none)
    fun pre a post hs => next_spec hL h hlive hi hs none
  backward i hi := run_traverse_reverse (by decide) (by decide) (last_spec hL h hlive hi none)
    fun pre a post hs => prev_spec hL h hlive hi hs none

omit [DecidableEq I] in
theorem Holds.shows (hL : L.Lawful) (h : Holds objects pool seq w) : Shows objects seq w :=
  h.shows_on hL.on fun _ _ => trivial

omit [DecidableEq P] in
theorem run_init {codes : List Code}
    (hinit : runAll noCallback (fun i => init (some i)) objects w₀ = some (codes, w₁)) :
    (w₁.mem ()).nodes = (w₀.mem ()).nodes ∧ (∀ i ∈ objects, (w₁.mem ()).lists i = zero) ∧
      ∀ i ∉ objects, (w₁.mem ()).lists i = (w₀.mem ()).lists i := by
  induction objects generalizing w₀ codes with
  | nil =>
    obtain ⟨-, rfl⟩ := Prod.mk.inj (Option.some.inj hinit)
    exact ⟨rfl, by simp, fun _ _ => rfl⟩
  | cons object objects ih =>
    have hone : (init (some object) : M I L Code).run noCallback w₀ =
        some (.ok, w₀.put () ((w₀.mem ()).set object zero)) := rfl
    change ((init (some object) : M I L Code).run noCallback w₀).bind _ = _ at hinit
    rw [hone] at hinit
    obtain ⟨⟨codes', w'⟩, hrest, hw'⟩ := Option.map_eq_some_iff.1 hinit
    obtain ⟨-, rfl⟩ := Prod.mk.inj hw'
    obtain ⟨hn, hin, hout⟩ := ih hrest
    have hset : ∀ i, ((w₀.put () ((w₀.mem ()).set object zero)).mem ()).lists i =
        if i = object then zero else (w₀.mem ()).lists i := fun i => by
      show Function.update (w₀.mem ()).lists object zero i = _
      rw [Function.update_apply]
    refine ⟨hn, ?_, ?_⟩
    · intro i hi
      by_cases hio : i ∈ objects
      · exact hin i hio
      · obtain rfl : i = object := by simpa [hio] using hi
        rw [hout i hio, hset, if_pos rfl]
    · intro i hi
      obtain ⟨hne, hio⟩ : i ≠ object ∧ i ∉ objects := by simpa using hi
      rw [hout i hio, hset, if_neg hne]

/-- A call that is allowed does what it does to the sequences, while the items in `pool` are
allocated. -/
theorem step_on {live : L.Heap → P → Prop} (hL : L.LawfulOn live) (hG : G.Lawful)
    (h : Holds objects pool seq w) (hlive : ∀ x ∈ pool, live (w.mem ()).nodes x) (op : Op I P)
    (hop : Sequences.Allowed objects pool seq op) (hfit : op.Fits G seq) :
    ∃ w', (op.exec G).run noCallback w = some ((Sequences.step seq op).1, w') ∧
      live (w'.mem ()).nodes = live (w.mem ()).nodes ∧
      Holds objects pool (Sequences.step seq op).2 w' := by
  cases op with
  | add object item =>
    obtain ⟨ho, hx, hfree⟩ := hop
    exact add_spec hL hG h hlive ho hfit hx hfree
  | insert object item value =>
    obtain ⟨ho, ha, hx, hfree⟩ := hop
    exact insert_spec hL hG h hlive ho hfit ha hx hfree
  | remove object item => exact remove_spec hL hG h hlive hop.1 hop.2

omit [DecidableEq I] in
/-- There is room for one more item while there are no more items than a count can count. -/
theorem Holds.fits (h : Holds objects pool seq w) (hpool : pool.card ≤ G.uintmaxMax) {op : Op I P}
    (hop : Sequences.Allowed objects pool seq op) : op.Fits G seq := by
  cases op with
  | add object item => exact Nat.le_trans (h.length_lt hop.2.1 hop.2.2 object) hpool
  | insert object item value => exact Nat.le_trans (h.length_lt hop.2.2.1 hop.2.2.2 object) hpool
  | remove object item => trivial

theorem step_refines (hL : L.Lawful) (hG : G.Lawful) (hpool : pool.card ≤ G.uintmaxMax)
    (h : Holds objects pool seq w) (op : Op I P) (hop : Sequences.Allowed objects pool seq op) :
    ∃ w', (op.exec G).run noCallback w = some ((Sequences.step seq op).1, w') ∧
      Holds objects pool (Sequences.step seq op).2 w' := by
  obtain ⟨w', hrun, -, h'⟩ := step_on hL.on hG h (fun _ _ => trivial) op hop (h.fits hpool hop)
  exact ⟨w', hrun, h'⟩

omit [DecidableEq P] in
theorem holds_init (halone : ∀ x ∈ pool, Links.Alone (L.links (w₀.mem ()).nodes) x) {codes : List Code}
    (hinit : runAll noCallback (fun i => init (some i)) objects w₀ = some (codes, w₁)) :
    Holds objects pool (fun _ => []) w₁ := by
  obtain ⟨hnodes, hzero, -⟩ := run_init hinit
  refine ⟨⟨fun _ => Links.Ring.nil, fun _ => List.nodup_nil, ?_, ?_⟩, ?_, hzero⟩
  · intro i j x hx
    exact absurd hx List.not_mem_nil
  · intro x hx _
    rw [hnodes]
    exact halone x hx
  · intro i x hx
    exact absurd hx List.not_mem_nil

/-- `objects` are initialised, `pool` are items whose nodes are alone, as `alloc` leaves them. -/
theorem refines_sequences (hL : L.Lawful) (hG : G.Lawful) (hpool : pool.card ≤ G.uintmaxMax)
    (halone : ∀ x ∈ pool, Links.Alone (L.links (w₀.mem ()).nodes) x) {codes : List Code}
    (hinit : runAll noCallback (fun i => init (some i)) objects w₀ = some (codes, w₁))
    (ops : List (Op I P))
    (hops : AbsValid Sequences.step (Sequences.Allowed objects pool) (fun _ => []) ops) :
    ∃ w, runAll noCallback (Op.exec G) ops w₁ = some ((Sequences.run ops).1, w) ∧
      Shows objects (Sequences.run ops).2 w := by
  obtain ⟨w, hw, h⟩ := sim_runAll_abs
    (fun w seq op h hop => step_refines hL hG hpool h op hop) ops (holds_init halone hinit) hops
  exact ⟨w, hw, h.shows hL⟩

/-- Two lists that were never initialised, and numbers as items. -/
def blank : World Unit (Memory Bool (Reference.list : RockList Nat)) (Event Nat) :=
  ⟨none, fun _ => ⟨fun _ => ⟨7, some 9⟩, Reference.alone⟩, []⟩

theorem refines_sequences_example : ∃ w₁ w,
    runAll noCallback (fun i => init (some i)) [true, false] blank = some ([.ok, .ok], w₁) ∧
    runAll noCallback (Op.exec Reference.seagrass)
      [.add true 1, .add true 2, .insert true 1 3, .remove true 1, .add false 1] w₁ =
        some ([.ok, .ok, .ok, .ok, .ok], w) ∧
    Shows [true, false] (fun i => if i then [3, 2] else [1]) w := by
  obtain ⟨w, hw, hs⟩ := refines_sequences Reference.list_lawful Reference.seagrass_lawful
    (show ({1, 2, 3} : Finset Nat).card ≤ _ by decide) (fun _ _ => ⟨rfl, rfl⟩)
    (rfl : runAll noCallback (fun i => init (some i)) [true, false] blank = some (_, _))
    [.add true 1, .add true 2, .insert true 1 3, .remove true 1, .add false 1]
    (by decide)
  have hseq : (Sequences.run [.add true 1, .add true 2, .insert true 1 3, .remove true 1,
      .add false 1]).2 = fun i : Bool => if i then [3, 2] else [1] := by
    funext i
    cases i <;> decide
  exact ⟨_, w, rfl, hw, hseq ▸ hs⟩

/-! ### Reachable lists -/

/-- The run of the allowed calls `ops` leads from the initialised lists `objects` to `w`; the items
were alone before. No call of it was stopped by a check. -/
def ReachableBy (G : Seagrass) (objects : List I) (pool : Finset P) (ops : List (Op I P))
    (w : World Unit (Memory I L) (Event P)) : Prop :=
  ∃ w₀ w₁ codes codes', (∀ x ∈ pool, Links.Alone (L.links (w₀.mem ()).nodes) x) ∧
    runAll noCallback (fun i => init (some i)) objects w₀ = some (codes, w₁) ∧
    AbsValid Sequences.step (Sequences.Allowed objects pool) (fun _ => []) ops ∧
    runAll noCallback (Op.exec G) ops w₁ = some (codes', w)

theorem Holds.after_op (hL : L.Lawful) (hG : G.Lawful) (h : Holds objects pool seq w) (op : Op I P)
    (hop : Sequences.Allowed objects pool seq op) {code : Code} {w' : World Unit (Memory I L) (Event P)}
    (hrun : (op.exec G).run noCallback w = some (code, w')) :
    Holds objects pool (Sequences.step seq op).2 w' := by
  have hfit : op.Fits G seq := by
    cases op with
    | add object item =>
      have hfit := fit_of_increment hG hrun
      rwa [h.object object hop.1] at hfit
    | insert object item value =>
      have hfit := fit_of_increment hG hrun
      rwa [h.object object hop.1] at hfit
    | remove object item => trivial
  obtain ⟨w'', hrun', -, h'⟩ := step_on hL.on hG h (fun _ _ => trivial) op hop hfit
  obtain ⟨-, rfl⟩ := Prod.mk.inj (Option.some.inj (hrun.symm.trans hrun'))
  exact h'

theorem Holds.after_run (hL : L.Lawful) (hG : G.Lawful) (h : Holds objects pool seq w) {ops : List (Op I P)}
    (hops : AbsValid Sequences.step (Sequences.Allowed objects pool) seq ops) {codes : List Code}
    {w' : World Unit (Memory I L) (Event P)}
    (hrun : runAll noCallback (Op.exec G) ops w = some (codes, w')) :
    Holds objects pool (absRun Sequences.step seq ops).2 w' := by
  have hstep : ∀ w seq op code w', Holds objects pool seq w → Sequences.Allowed objects pool seq op →
      (op.exec G).run noCallback w = some (code, w') →
      Holds objects pool (Sequences.step seq op).2 w' :=
    fun w seq op code w' h hop hrun => h.after_op hL hG op hop hrun
  exact inv_runAll hstep ops h hops hrun

theorem ReachableBy.holds (hL : L.Lawful) (hG : G.Lawful) {ops : List (Op I P)}
    (hw : ReachableBy G objects pool ops w) : Holds objects pool (Sequences.run ops).2 w := by
  obtain ⟨w₀, w₁, codes, codes', halone, hinit, hops, hrun⟩ := hw
  exact (holds_init halone hinit).after_run hL hG hops hrun

end LinkedList

end Coral
