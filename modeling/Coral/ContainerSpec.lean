import Coral.LayoutSpec
import Coral.RedBlackTreeContainer

/-!
# What the functions of the red-black-tree container do

`Holds call f object S w`: in `w` the container `object` was initialised with the compare function
`f` and stores the ascending list `S`. One lemma for each function says what it returns on such a
container and what it leaves; the callers below never unfold a function again.
-/

namespace Coral

namespace RedBlackTreeContainer
open Prog SearchTree ThreeWay

variable {P F O : Type} {R : RockTree P} {call : F → P → P → Int} {f : F} {object : O} {S : List P}
  {w : World O (RedBlackTreeContainer R F) (Event P)}

/-- `object` was initialised with `f` and stores `S`. -/
structure Holds (call : F → P → P → Int) (f : F) (object : O) (S : List P)
    (w : World O (RedBlackTreeContainer R F) (Event P)) : Prop where
  compare : (w.mem object).compare = some f
  sorted : R.Sorted (call f) (w.mem object).tree S

theorem Holds.enter (h : Holds call f object S w) : Holds call f object S (w.enter object) :=
  ⟨h.compare, h.sorted⟩

section
variable [DecidableEq O] {tree : R.Tree}

theorem Holds.put (h : Holds call f object S w) {S' : List P} (ht : R.Sorted (call f) tree S') :
    Holds call f object S' (w.put object { w.mem object with tree }) := by
  constructor <;> simp only [World.mem_put, Function.update_self]
  · exact h.compare
  · exact ht

theorem run_find (h : Holds call f object S w) (hw : w.current = some object) (k : P) :
    (layout.find object k).run (answer call) w = some ((R.find (w.mem object).tree k).eval (call f), w) :=
  Layout.run_find (C := layout) call h.compare hw k

theorem run_entityCompare (h : Holds call f object S w) (hw : w.current = some object) (a b : P) :
    (entityCompare a b : M O R F Int).run (answer call) w = some (call f a b, w) :=
  Layout.run_entityCompare (C := layout) h.compare hw a b

theorem run_remove {e : P} (hr : R.remove (w.mem object).tree e = .ok tree) :
    (remove (some object) (some e) : M O R F Code).run (answer call) w =
      some (.ok, w.put object { w.mem object with tree }) := by
  unfold remove
  rw [run_load]
  exact run_required hr _

end

section
variable [DecidableEq O] [DecidableEq P] (hR : R.Lawful)
include hR

theorem init_spec (call : F → P → P → Int) (f : F) (object : O)
    (w : World O (RedBlackTreeContainer R F) (Event P)) :
    ∃ w', (init (some object) (some f)).run (answer call) w = some (.ok, w') ∧
      Holds call f object [] w' := by
  obtain ⟨t, ht, hs⟩ := RockTree.sorted_init hR (call f)
  refine ⟨(w.put object zero).put object ⟨t, some f⟩, ?_, by simp, by simpa using hs⟩
  unfold init
  rw [run_store]
  exact run_required ht _

variable (hc : TotalPreorder (call f)) (h : Holds call f object S w)

omit hR [DecidableEq P] in
include h in
theorem count_spec (v : Nat) : (count (some object) (some v) : M O R F _).run (answer call) w =
    some ((.ok, some S.length), w) :=
  Layout.run_count (C := layout) h.sorted.count v

include hc h in
theorem add_hit {entry e : P} (he : e ∈ S) (hz : call f entry e = 0) :
    (add (some object) (some entry)).run (answer call) w =
      some (.rockTreeNodeAlreadyExists, w.enter object) :=
  Layout.reject (C := layout) hR hc h.compare h.sorted _ he hz

include hc h in
theorem add_miss {entry : P} (hne : ∀ e ∈ S, call f entry e ≠ 0) :
    ∃ w', (add (some object) (some entry)).run (answer call) w = some (.ok, w') ∧
      Holds call f object (place (call f) entry S) w' := by
  obtain ⟨tree, hrun, hs⟩ := Layout.accept (C := layout) hR hc h.compare h.sorted (.ret .ok) hne
  exact ⟨_, hrun, h.enter.put hs⟩

include hc h in
theorem remove_spec {e : P} (he : e ∈ S) :
    ∃ w', (remove (some object) (some e)).run (answer call) w = some (.ok, w') ∧
      Holds call f object (S.erase e) w' := by
  obtain ⟨t', ht, hs⟩ := RockTree.remove_stored hR hc h.sorted he
  exact ⟨_, run_remove ht, h.put hs⟩

include hc h in
theorem get_spec (key : P) (v : Option P) : (get (some object) (some key) (some v)).run (answer call) w =
    some (outcome .rockTreeNodeNotFound (some v) (S.find? fun e => call f key e = 0), w.enter object) := by
  have hfind := run_find h.enter rfl key
  rw [World.mem_enter] at hfind
  rcases RockTree.find_cases hR hc h.sorted key with ⟨e, he, hz, hf⟩ | ⟨hne, p, _, hf, _⟩
  · rw [hf] at hfind
    rw [h.sorted.ascending.find?_eq hc he hz]
    exact run_seq _ hfind
  · have hnone : S.find? (fun e => call f key e = 0) = none := by simpa using hne
    rw [hf] at hfind
    rw [hnone]
    exact run_seq _ hfind

include h in
theorem first_spec (v : Option P) : (first (some object) (some v)).run (answer call) w =
    some (outcome .rockTreeTreeIsEmpty (some v) S.head?, w) :=
  Layout.run_firstOrLast (RockTree.first_eq hR h.sorted) v

include h in
theorem last_spec (v : Option P) : (last (some object) (some v)).run (answer call) w =
    some (outcome .rockTreeTreeIsEmpty (some v) S.getLast?, w) :=
  Layout.run_firstOrLast (RockTree.last_eq hR h.sorted) v

variable {pre post : List P} {e : P}

include hc h in
theorem next_spec (hS : S = pre ++ e :: post) (v : Option P) :
    (next object (some e) (some v)).run (answer call) w =
      some (outcome .rockTreeEndOfSequence (some v) post.head?, w) :=
  Layout.run_nextOrPrev (RockTree.next_eq hR hc h.sorted hS) v

include hc h in
theorem prev_spec (hS : S = pre ++ e :: post) (v : Option P) :
    (prev object (some e) (some v)).run (answer call) w =
      some (outcome .rockTreeEndOfSequence (some v) pre.getLast?, w) :=
  Layout.run_nextOrPrev (RockTree.prev_eq hR hc h.sorted hS) v

end

end RedBlackTreeContainer

end Coral
