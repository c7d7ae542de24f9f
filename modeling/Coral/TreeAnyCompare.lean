import Coral.Calls
import Coral.ContainerSpec
import Coral.Guarded

/-!
# The red-black-tree container under any compare function

No function of `src/red_black_tree_container.c` checks that a compare function is an order, or that it
answers the same twice. `Coherent` is what holds all the same: the tree holds the entries, each once,
whatever their order. There is one lemma for each function that changes a container; `Coherent.seen` is
what a client sees of one.
-/

namespace Coral

namespace RedBlackTreeContainer
open Prog

variable {P F O : Type} [DecidableEq P] {R : RockTree P} {f : F} {l : List P} {object : O}
  {s s' : RedBlackTreeContainer R.guarded F} {w : World O (RedBlackTreeContainer R.guarded F) (Event P)}

/-- `s` was initialised with `f`, and its tree holds the entries `l`. -/
structure Coherent (f : F) (l : List P) (s : RedBlackTreeContainer R.guarded F) : Prop where
  compare : s.compare = some f
  tree : R.guarded.Keeps s.tree (R.guarded.nodes s.tree)
  same : (R.guarded.nodes s.tree).Perm l

theorem Coherent.indexed (h : Coherent f l s) : layout.Indexed f l s := ⟨h.compare, h.tree, h.same⟩

theorem Coherent.mem_iff (h : Coherent f l s) {e : P} : e ∈ R.guarded.nodes s.tree ↔ e ∈ l := h.same.mem_iff

theorem Coherent.live_tree (h : Coherent f l s) (hlive : s.tree.Live l) :
    ∀ x ∈ R.guarded.nodes s.tree, x ∉ s.tree.freed := fun x hx => hlive x (h.mem_iff.1 hx)

/-- What was freed besides makes no difference. -/
theorem Coherent.congr (h : Coherent f l s) (ht : s'.tree.val = s.tree.val) (hf : s'.compare = s.compare) :
    Coherent f l s' := by
  have hnodes : R.guarded.nodes s'.tree = R.guarded.nodes s.tree := congrArg R.nodes ht
  have hcount : R.guarded.count s'.tree = R.guarded.count s.tree := congrArg R.count ht
  refine ⟨hf.trans h.compare, ⟨rfl, ?_, ?_⟩, ?_⟩
  · exact hnodes ▸ h.tree.nodup
  · rw [hcount, hnodes]
    exact h.tree.count
  · exact hnodes ▸ h.same

section
variable [DecidableEq O] (call : F → P → P → Int)

/-! ### The functions that change a container -/

section
variable (hR : R.Lawful) (h : Coherent f l (w.mem object)) (hlive : (w.mem object).tree.Live l)
include hR h hlive

theorem Coherent.add_spec {entry : P} (hv : entry ∉ l) (hfree : entry ∉ (w.mem object).tree.freed) :
    (∃ e ∈ l, call f entry e = 0 ∧ (add (some object) (some entry)).run (answer call) w =
      some (.rockTreeNodeAlreadyExists, w.enter object)) ∨
    ∃ tree, (add (some object) (some entry)).run (answer call) w =
        some (.ok, (w.enter object).put object { w.mem object with tree }) ∧
      Coherent f (l ++ [entry]) { w.mem object with tree } := by
  rcases h.indexed.enlist call (RockTree.guarded_on hR) (h.live_tree hlive) hv hfree (.ret .ok) with
    hrej | ⟨tree, hrun, -, htree, hperm⟩
  · exact .inl hrej
  · exact .inr ⟨tree, hrun, h.compare, htree, hperm.trans (List.perm_append_singleton entry l).symm⟩

theorem Coherent.remove_spec {entry : P} (he : entry ∈ l) :
    ∃ tree, (remove (some object) (some entry)).run (answer call) w =
        some (.ok, w.put object { w.mem object with tree }) ∧
      Coherent f (l.erase entry) { w.mem object with tree } := by
  obtain ⟨tree, ht, -, htree⟩ :=
    h.tree.remove (RockTree.guarded_on hR) (h.live_tree hlive) (h.mem_iff.2 he)
  refine ⟨tree, run_remove ht, h.compare, htree.nodes ▸ htree, ?_⟩
  rw [htree.nodes]
  exact h.same.erase entry

end

/-! ### What a client sees -/

/-- What a client sees of a container with the entries `l`, whatever is answered while it looks. -/
structure Seen (f : F) (object : O) (l : List P)
    (w : World O (RedBlackTreeContainer R.guarded F) (Event P)) : Prop where
  nodup : l.Nodup
  count : ∀ (call : F → P → P → Int) v, (count (some object) (some v)).run (answer call) w =
    some ((.ok, some l.length), w)
  /-- The traversals go through them in some order. -/
  traversed : ∃ nodes, nodes.Perm l ∧
    (∀ (call : F → P → P → Int) n, (traverse (first (some object) (some none))
      (fun e => next object (some e) (some none)) n).run (answer call) w =
        some (traversal .rockTreeTreeIsEmpty .rockTreeEndOfSequence nodes n, w)) ∧
    ∀ (call : F → P → P → Int) n, (traverse (last (some object) (some none))
      (fun e => prev object (some e) (some none)) n).run (answer call) w =
        some (traversal .rockTreeTreeIsEmpty .rockTreeEndOfSequence nodes.reverse n, w)
  query : ∀ (call : F → P → P → Int) q key v, ∃ e,
    (query (some object) (some key) (some v) q).run (answer call) w =
      some (outcome .rockTreeNodeNotFound (some v) e, w.enter object) ∧
    ∀ x ∈ e, x ∈ l ∧ q.Fits (call f key x)

theorem Coherent.seen (hR : R.Lawful) (h : Coherent f l (w.mem object)) (hlive : (w.mem object).tree.Live l) :
    Seen f object l w where
  nodup := h.same.nodup_iff.1 h.tree.nodup
  count call v := h.same.length_eq ▸ Layout.run_count (C := layout) h.tree.count v
  traversed := h.indexed.traversed (RockTree.guarded_on hR) (h.live_tree hlive)
  query call q key v := by
    rw [query_eq]
    exact h.indexed.query (RockTree.guarded_on hR) (h.live_tree hlive) call q key v

end

end RedBlackTreeContainer

end Coral
