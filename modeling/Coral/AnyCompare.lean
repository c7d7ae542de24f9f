import Coral.LinkedCalls
import Coral.LinkedSpec
import Coral.TreeAnyCompare

/-!
# The linked container under any compare function

No function of `src/linked_red_black_tree_container.c` checks that a compare function is an order, or
that it answers the same twice. `Coherent` is what holds all the same: the tree and the ring of a
container hold the same entries, each once, and all of them are allocated; the rings of other containers
may be on the same list nodes. One lemma for each function that changes a container says what it leaves,
`Coherent.seen` what a client sees of one.
-/

namespace Coral

namespace LinkedRedBlackTreeContainer
open Prog Places

variable {P F O ι : Type} [DecidableEq P] {R : RockTree P} {L : RockList P} {f : F} {pool : P → Prop}
  {seq : ι → List P} {i : ι} {object : O} {s : LinkedRedBlackTreeContainer R.guarded L.guarded F}
  {w : World O (LinkedRedBlackTreeContainer R.guarded L.guarded F) (Event P)}

/-- The memory of `x` was not given back. -/
def Allocated (s : LinkedRedBlackTreeContainer R.guarded L.guarded F) (x : P) : Prop :=
  x ∉ s.tree.freed ∧ x ∉ s.nodes.freed

/-- `s` was initialised with `f`, its tree and its ring `seq i` hold the same entries. -/
structure Coherent (f : F) (pool : P → Prop) (seq : ι → List P) (i : ι)
    (s : LinkedRedBlackTreeContainer R.guarded L.guarded F) : Prop where
  compare : s.compare = some f
  tree : R.guarded.Keeps s.tree (R.guarded.nodes s.tree)
  same : (R.guarded.nodes s.tree).Perm (seq i)
  head : s.list = (seq i).head?
  keeps : L.guarded.Keeps pool s.nodes seq
  live : ∀ x ∈ seq i, s.Allocated x

theorem Coherent.indexed (h : Coherent f pool seq i s) : layout.Indexed f (seq i) s :=
  ⟨h.compare, h.tree, h.same⟩

theorem Coherent.mem_iff (h : Coherent f pool seq i s) {e : P} :
    e ∈ R.guarded.nodes s.tree ↔ e ∈ seq i := h.same.mem_iff

theorem Coherent.live_tree (h : Coherent f pool seq i s) :
    ∀ x ∈ R.guarded.nodes s.tree, x ∉ s.tree.freed := fun x hx => (h.live x (h.mem_iff.1 hx)).1

theorem Coherent.live_nodes (h : Coherent f pool seq i s) : ∀ x ∈ seq i, x ∉ s.nodes.freed :=
  fun x hx => (h.live x hx).2

/-- What a call that returned leaves of a container: `s'`, with the ring `l`. -/
structure Leaves (f : F) (pool : P → Prop) (seq : ι → List P) (i : ι) [DecidableEq ι] (l : List P)
    (s s' : LinkedRedBlackTreeContainer R.guarded L.guarded F) : Prop where
  coherent : Coherent f pool (Function.update seq i l) i s'
  allocated : ∀ x, s'.Allocated x ↔ s.Allocated x

/-! ### The functions that change a container -/

section
variable [DecidableEq O] {entry at_ : P}

variable (hR : R.Lawful) (hL : L.Lawful) (call : F → P → P → Int)
  (h : Coherent f pool seq i (w.mem object))
include hR h

variable [DecidableEq ι]
include hL

theorem Coherent.add_spec (hp : pool entry) (hv : ∀ j, entry ∉ seq j) (hlive : (w.mem object).Allocated entry) :
    (∃ e ∈ seq i, call f entry e = 0 ∧ (add (some object) (some entry)).run (answer call) w =
      some (.rockTreeNodeAlreadyExists, w.enter object)) ∨
    ∃ s', (add (some object) (some entry)).run (answer call) w =
        some (.ok, (w.enter object).put object s') ∧
      Leaves f pool seq i (seq i ++ [entry]) (w.mem object) s' := by
  rcases h.indexed.enlist call (RockTree.guarded_on hR) h.live_tree (hv i) hlive.1
    ((append object entry).bind fun _ => .ret .ok) with hrej | ⟨tree, hrun, hfreed, htree, hperm⟩
  · exact .inl hrej
  · obtain ⟨nodes, happ, hnodes, hk⟩ := run_append call object (w := w.enter object)
      (s := { w.mem object with tree }) (RockList.guarded_on hL) h.keeps h.live_nodes h.head hp hv hlive.2
    have hall : ∀ x, Allocated { w.mem object with tree, list := (seq i ++ [entry]).head?, nodes } x ↔
        (w.mem object).Allocated x := fun x => and_congr (iff_of_eq (congrFun hfreed x)) (iff_of_eq (congrFun hnodes x))
    refine .inr ⟨_, hrun.trans ((run_seq _ happ).trans rfl), ⟨h.compare, htree, ?_, ?_, hk, ?_⟩, hall⟩
    all_goals rw [Function.update_self]
    · exact hperm.trans (List.perm_append_singleton entry _).symm
    · intro x hx
      rw [hall]
      rcases List.mem_append.1 hx with hx | hx
      · exact h.live x hx
      · exact List.mem_singleton.1 hx ▸ hlive

theorem Coherent.insert_spec (hat : at_ ∈ seq i) (hp : pool entry) (hv : ∀ j, entry ∉ seq j)
    (hlive : (w.mem object).Allocated entry) :
    (∃ e ∈ seq i, call f entry e = 0 ∧ (insert (some object) (some at_) (some entry)).run (answer call) w =
      some (.rockTreeNodeAlreadyExists, w.enter object)) ∨
    ∃ s', (insert (some object) (some at_) (some entry)).run (answer call) w =
        some (.ok, (w.enter object).put object s') ∧
      Leaves f pool seq i (insertBefore at_ entry (seq i)) (w.mem object) s' := by
  obtain ⟨pre, post, hi⟩ := List.append_of_mem hat
  have hnd : (pre ++ at_ :: post).Nodup := hi ▸ h.keeps.nodup i
  rcases h.indexed.enlist call (RockTree.guarded_on hR) h.live_tree (hv i) hlive.1
    ((listInsertBefore object at_ entry).bind fun _ => (rehead object at_ entry).bind fun _ => .ret .ok) with
      hrej | ⟨tree, hrun, hfreed, htree, hperm⟩
  · exact .inl hrej
  obtain ⟨nodes, hlink, hnodes, hk⟩ := run_linkBefore call object (w := w.enter object)
    (s := { w.mem object with tree }) (RockList.guarded_on hL) h.keeps h.live_nodes h.head hi hp hv hlive.2
  have hall : ∀ x, Allocated { w.mem object with
      tree, list := (pre ++ entry :: at_ :: post).head?, nodes } x ↔ (w.mem object).Allocated x :=
    fun x => and_congr (iff_of_eq (congrFun hfreed x)) (iff_of_eq (congrFun hnodes x))
  rw [hi, insertBefore_mid (not_mem_pre hnd)]
  refine .inr ⟨_, hrun.trans hlink, ⟨h.compare, htree, ?_, ?_, hk, ?_⟩, hall⟩
  all_goals rw [Function.update_self]
  · exact hperm.trans (hi ▸ List.perm_middle.symm)
  · intro x hx
    rw [hall]
    have hx' : x = entry ∨ x ∈ seq i := by
      rw [hi]
      simpa [or_left_comm] using hx
    rcases hx' with rfl | hx'
    exacts [hlive, h.live x hx']

theorem Coherent.remove_spec (he : entry ∈ seq i) :
    ∃ s', (remove (some object) (some entry)).run (answer call) w = some (.ok, w.put object s') ∧
      Leaves f pool seq i ((seq i).erase entry) (w.mem object) s' := by
  obtain ⟨pre, post, hi⟩ := List.append_of_mem he
  have hnd : (pre ++ entry :: post).Nodup := hi ▸ h.keeps.nodup i
  obtain ⟨nodes, hb, hnodes, hk⟩ :=
    RockList.remove_mid (RockList.guarded_on hL) h.keeps h.live_nodes hi
  obtain ⟨tree, ht, hfreed, htree⟩ := h.tree.remove (RockTree.guarded_on hR) h.live_tree (h.mem_iff.2 he)
  have hrun : (remove (some object) (some entry)).run (answer call) w =
      some (.ok, w.put object { w.mem object with list := (pre ++ post).head?, nodes, tree }) :=
    run_remove (run_unhead (RockList.guarded_on hL) h.keeps h.live_nodes h.head hi) hb ht
  have hall : ∀ x, Allocated { w.mem object with tree, list := (pre ++ post).head?, nodes } x ↔
      (w.mem object).Allocated x :=
    fun x => and_congr (iff_of_eq (congrFun hfreed x)) (iff_of_eq (congrFun hnodes x))
  refine ⟨_, hrun, ⟨h.compare, htree.nodes ▸ htree, ?_, ?_, ?_, ?_⟩, hall⟩
  · rw [Function.update_self]
    show (R.guarded.nodes tree).Perm _
    rw [htree.nodes]
    exact h.same.erase entry
  · rw [Function.update_self, hi, erase_mid hnd]
  · rw [hi, erase_mid hnd]
    exact hk
  · intro x hx
    rw [Function.update_self] at hx
    exact (hall x).2 (h.live x (List.mem_of_mem_erase hx))

end

/-! ### What a client sees -/

/-- What a client sees of a container whose entries were put in the order `l`, whatever is answered
while it looks. -/
structure Seen (f : F) (object : O) [DecidableEq O] (l : List P)
    (w : World O (LinkedRedBlackTreeContainer R.guarded L.guarded F) (Event P)) : Prop where
  nodup : l.Nodup
  count : ∀ (call : F → P → P → Int) v, (count (some object) (some v)).run (answer call) w =
    some ((.ok, some l.length), w)
  forward : ∀ (call : F → P → P → Int) n, (traverse (first (some object) (some none))
      (fun e => next (some object) (some e) (some none)) n).run (answer call) w =
    some (traversal .rockTreeTreeIsEmpty .rockTreeEndOfSequence l n, w)
  backward : ∀ (call : F → P → P → Int) n, (traverse (last (some object) (some none))
      (fun e => prev (some object) (some e) (some none)) n).run (answer call) w =
    some (traversal .rockTreeTreeIsEmpty .rockTreeEndOfSequence l.reverse n, w)
  /-- The tree is another order of the same entries. -/
  sorted : ∃ nodes, nodes.Perm l ∧
    (∀ (call : F → P → P → Int) n, (traverse (sortedFirst (some object) (some none))
      (fun e => sortedNext object (some e) (some none)) n).run (answer call) w =
        some (traversal .rockTreeTreeIsEmpty .rockTreeEndOfSequence nodes n, w)) ∧
    ∀ (call : F → P → P → Int) n, (traverse (sortedLast (some object) (some none))
      (fun e => sortedPrev object (some e) (some none)) n).run (answer call) w =
        some (traversal .rockTreeTreeIsEmpty .rockTreeEndOfSequence nodes.reverse n, w)
  query : ∀ (call : F → P → P → Int) q key v, ∃ e,
    (query (some object) (some key) (some v) q).run (answer call) w =
      some (outcome .rockTreeNodeNotFound (some v) e, w.enter object) ∧
    ∀ x ∈ e, x ∈ l ∧ q.Fits (call f key x)

theorem Coherent.seen [DecidableEq O] (hR : R.Lawful) (h : Coherent f pool seq i (w.mem object))
    (hL : L.Lawful) : Seen f object (seq i) w where
  nodup := h.keeps.nodup i
  count call v := h.same.length_eq ▸ Layout.run_count (C := layout) h.tree.count v
  forward call := run_traverse (by decide) (by decide) (run_first h.head none)
    fun pre e post hi => run_next_mid (RockList.guarded_on hL) h.keeps h.live_nodes h.head hi none
  backward call := run_traverse_reverse (by decide) (by decide)
    (run_last (RockList.guarded_on hL) h.keeps h.live_nodes h.head none)
    fun pre e post hi => run_prev_mid (RockList.guarded_on hL) h.keeps h.live_nodes h.head hi none
  sorted := h.indexed.traversed (RockTree.guarded_on hR) h.live_tree
  query call q key v := by
    rw [query_eq]
    exact h.indexed.query (RockTree.guarded_on hR) h.live_tree call q key v

end LinkedRedBlackTreeContainer

end Coral
