import Coral.LayoutSpec
import Coral.LinkedRedBlackTreeContainer
import Coral.RingState

/-!
# What the functions of the linked container do

`Holds call f pool l s`: the container `s` was initialised with `f`, its tree is sorted, and its list
is a ring that goes through the entries of the tree in the order `l`. One lemma for each function says
what it returns and what it leaves.
-/

namespace Coral

namespace LinkedRedBlackTreeContainer
open Prog Places ThreeWay

variable {P F O : Type} {R : RockTree P} {L : RockList P} {call : F → P → P → Int} {f : F}
  {pool : P → Prop} {l : List P} {object : O} {s : LinkedRedBlackTreeContainer R L F}
  {w : World O (LinkedRedBlackTreeContainer R L F) (Event P)}

/-- The entries of the tree are on the ring, in the order `l`. -/
structure Holds (call : F → P → P → Int) (f : F) (pool : P → Prop) (l : List P)
    (s : LinkedRedBlackTreeContainer R L F) : Prop where
  compare : s.compare = some f
  sorted : R.Sorted (call f) s.tree (R.nodes s.tree)
  same : (R.nodes s.tree).Perm l
  head : s.list = l.head?
  keeps : L.Keeps pool s.nodes fun _ : Unit => l

/-! ### The steps -/

section steps
variable [DecidableEq O] {nodes : L.Heap} {tree : R.Tree} {a v : P}

theorem run_setList (l : Option P) : (setList object l : M O R L F Unit).run (answer call)
    (w.put object s) = some ((), w.put object { s with list := l }) := by
  simp [setList]

theorem run_removeNode (hr : R.remove s.tree a = .ok tree) :
    (removeNode object a : M O R L F Unit).run (answer call) (w.put object s) =
      some ((), w.put object { s with tree }) := by
  simp [removeNode, run_required hr]

theorem run_listInsertBefore (hb : L.insertBefore s.nodes a v = .ok nodes) :
    (listInsertBefore object a v : M O R L F Unit).run (answer call) (w.put object s) =
      some ((), w.put object { s with nodes }) := by
  simp [listInsertBefore, run_required hb]

theorem run_listRemove (hb : L.remove s.nodes a = .ok nodes) :
    (listRemove object a : M O R L F Unit).run (answer call) (w.put object s) =
      some ((), w.put object { s with nodes }) := by
  simp [listRemove, run_required hb]

variable [DecidableEq P]

theorem run_rehead (a v : P) : (rehead object a v : M O R L F Unit).run (answer call)
    (w.put object s) =
      some ((), w.put object { s with list := if s.list = some a then some v else s.list }) := by
  by_cases hl : s.list = some a
  · simp [rehead, hl, setList]
  · simp [rehead, hl]

omit [DecidableEq O] [DecidableEq P] in
/-- There is one ring only. -/
theorem keeps_update {h : L.Heap} {l' : List P}
    (hk : L.Keeps pool h (Function.update (fun _ : Unit => l) () l')) : L.Keeps pool h fun _ : Unit => l' := by
  have hu : Function.update (fun _ : Unit => l) () l' = fun _ => l' := funext fun _ => Function.update_self ..
  rwa [hu] at hk

omit [DecidableEq P] in
theorem run_append_none (hlist : (w.mem object).list = none) :
    (append object v : M O R L F Unit).run (answer call) w = (setList object (some v)).run (answer call) w := by
  unfold append
  rw [run_load, hlist]

omit [DecidableEq P] in
theorem run_append_some (hlist : (w.mem object).list = some a) :
    (append object v : M O R L F Unit).run (answer call) w =
      (listInsertBefore object a v).run (answer call) w := by
  unfold append
  rw [run_load, hlist]

section rings
variable {ι : Type} [DecidableEq ι] {seq : ι → List P} {i : ι} {live : L.Heap → P → Prop}
  (hL : L.LawfulOn live) (hk : L.Keeps pool s.nodes seq) (hlive : ∀ x ∈ seq i, live s.nodes x)
include hL hk hlive

variable (call object) in
theorem run_append (hhead : s.list = (seq i).head?) (hp : pool v) (hv : ∀ j, v ∉ seq j)
    (hvl : live s.nodes v) :
    ∃ nodes, (append object v : M O R L F Unit).run (answer call) (w.put object s) =
        some ((), w.put object { s with list := (seq i ++ [v]).head?, nodes }) ∧
      live nodes = live s.nodes ∧ L.Keeps pool nodes (Function.update seq i (seq i ++ [v])) := by
  have hlist : ((w.put object s).mem object).list = (seq i).head? := by
    rw [World.mem_put, Function.update_self, hhead]
  cases hi : seq i with
  | nil =>
    rw [hi] at hlist
    exact ⟨s.nodes, (run_append_none hlist).trans (run_setList _), rfl, RockList.keeps_first hk hi hp hv⟩
  | cons a l =>
    rw [hi] at hlist hhead
    obtain ⟨nodes, hb, hsame, hk'⟩ := RockList.insertBefore_head hL hk hlive hi hp hv hvl
    refine ⟨nodes, ?_, hsame, hk'⟩
    rw [run_append_some hlist, run_listInsertBefore hb, List.cons_append, List.head?_cons,
      ← List.head?_cons (l := l), ← hhead]

variable (call object) in
/-- What `insert` does once the entry is in the tree. -/
theorem run_linkBefore (hhead : s.list = (seq i).head?) {pre post : List P}
    (hi : seq i = pre ++ a :: post) (hp : pool v) (hv : ∀ j, v ∉ seq j) (hvl : live s.nodes v) :
    ∃ nodes, ((listInsertBefore object a v).bind fun _ => (rehead object a v).bind fun _ =>
        .ret .ok : M O R L F Code).run (answer call) (w.put object s) =
        some (.ok, w.put object { s with list := (pre ++ v :: a :: post).head?, nodes }) ∧
      live nodes = live s.nodes ∧ L.Keeps pool nodes (Function.update seq i (pre ++ v :: a :: post)) := by
  have hnd : (pre ++ a :: post).Nodup := hi ▸ hk.nodup i
  obtain ⟨nodes, hb, hsame, hk'⟩ := RockList.insertBefore_mid hL hk hlive hi hp hv hvl
  have hlist : (if s.list = some a then some v else s.list) = (pre ++ v :: a :: post).head? := by
    rw [hhead, hi, head?_before hnd]
  refine ⟨nodes, ?_, hsame, hk'⟩
  rw [← hlist]
  exact (run_seq _ (run_listInsertBefore hb)).trans ((run_seq _ (run_rehead a v)).trans rfl)

end rings

theorem run_unhead_head {b : P} (hlist : s.list = some a) (hb : L.next s.nodes a = .ok b) :
    (unhead object a : M O R L F Unit).run (answer call) (w.put object s) =
      some ((), w.put object { s with list := if a = b then none else some b }) := by
  unfold unhead
  rw [run_load, World.mem_put, Function.update_self, if_pos hlist]
  exact (run_required hb _).trans (run_setList _)

theorem run_unhead {ι : Type} {seq : ι → List P} {i : ι} {live : L.Heap → P → Prop} (hL : L.LawfulOn live)
    (hk : L.Keeps pool s.nodes seq) (hlive : ∀ x ∈ seq i, live s.nodes x)
    (hhead : s.list = (seq i).head?) {pre post : List P} (hi : seq i = pre ++ a :: post) :
    (unhead object a : M O R L F Unit).run (answer call) (w.put object s) =
      some ((), w.put object { s with list := (pre ++ post).head? }) := by
  have hnd : (pre ++ a :: post).Nodup := hi ▸ hk.nodup i
  rw [hi] at hhead
  cases pre with
  | nil =>
    obtain ⟨b, hb, hnext⟩ := RockList.next_head hL hk hlive hi
    rw [List.nil_append, ← hnext]
    exact run_unhead_head hhead hb
  | cons b pre =>
    have hsame : (b :: pre ++ post).head? = s.list := by rw [hhead]; rfl
    have hne : s.list ≠ some a := hhead ▸ head?_ne hnd
    unfold unhead
    rw [run_load, World.mem_put, Function.update_self, if_neg hne, hsame]
    rfl

theorem run_remove {list : Option P} (hun : (unhead object a : M O R L F Unit).run (answer call)
      (w.put object (w.mem object)) = some ((), w.put object { w.mem object with list }))
    (hb : L.remove (w.mem object).nodes a = .ok nodes) (ht : R.remove (w.mem object).tree a = .ok tree) :
    (remove (some object) (some a) : M O R L F Code).run (answer call) w =
      some (.ok, w.put object { w.mem object with list, nodes, tree }) := by
  rw [World.put_self] at hun
  have hlist : (listRemove object a : M O R L F Unit).run (answer call)
      (w.put object { w.mem object with list }) =
        some ((), w.put object { w.mem object with list, nodes }) := run_listRemove hb
  have hnode : (removeNode object a : M O R L F Unit).run (answer call)
      (w.put object { w.mem object with list, nodes }) =
        some ((), w.put object { w.mem object with list, nodes, tree }) := run_removeNode ht
  exact (run_seq _ hun).trans ((run_seq _ hlist).trans ((run_seq _ hnode).trans rfl))

omit [DecidableEq P] in
theorem run_first {r : Option P} (hr : (w.mem object).list = r) (v : Option P) :
    (first (some object) (some v) : M O R L F _).run (answer call) w =
      some (outcome .rockTreeTreeIsEmpty (some v) r, w) := by
  unfold first
  rw [run_load, hr]
  cases r <;> rfl

theorem run_next {b : P} (hb : L.next (w.mem object).nodes a = .ok b) (v : Option P) :
    (next (some object) (some a) (some v) : M O R L F _).run (answer call) w =
      some (outcome .rockTreeEndOfSequence (some v)
        (if a = b ∨ (w.mem object).list = some b then none else some b), w) := by
  unfold next
  rw [run_load]
  refine (run_required hb _).trans ?_
  split <;> rfl

end steps

/-! ### The functions -/

section
variable [DecidableEq O] [DecidableEq P] (hR : R.Lawful) (hL : L.Lawful)

include hR in
theorem init_spec (call : F → P → P → Int) (f : F) (object : O)
    (w : World O (LinkedRedBlackTreeContainer R L F) (Event P))
    (halone : ∀ x, pool x → Links.Alone (L.links (w.mem object).nodes) x) :
    ∃ w', (init (some object) (some f)).run (answer call) w = some (.ok, w') ∧
      Holds call f pool [] (w'.mem object) := by
  obtain ⟨t, ht, hs⟩ := RockTree.sorted_init hR (call f)
  refine ⟨w.put object { (w.mem object).zero with tree := t, compare := some f }, ?_, ?_⟩
  · unfold init
    rw [run_load, run_store]
    refine (run_required ht _).trans ?_
    simp
  · rw [World.mem_put, Function.update_self]
    refine ⟨rfl, ?_, ?_, rfl, ⟨fun _ => Links.Ring.nil, fun _ => List.nodup_nil, ?_, fun x hx _ => halone x hx⟩⟩
    · exact hs.nodes ▸ hs
    · exact hs.nodes ▸ List.Perm.refl _
    · exact fun _ _ _ _ _ => rfl

variable (hc : TotalPreorder (call f)) (h : Holds call f pool l (w.mem object))
include hc h

omit [DecidableEq O] [DecidableEq P] hc in
theorem Holds.mem_iff {e : P} : e ∈ R.nodes (w.mem object).tree ↔ e ∈ l := h.same.mem_iff

omit hc [DecidableEq P] in
theorem count_spec (v : Nat) : (count (some object) (some v) : M O R L F _).run (answer call) w =
    some ((.ok, some l.length), w) :=
  h.same.length_eq ▸ Layout.run_count (C := layout) h.sorted.count v

include hR

theorem add_hit {entry e : P} (he : e ∈ l) (hz : call f entry e = 0) :
    (add (some object) (some entry)).run (answer call) w =
      some (.rockTreeNodeAlreadyExists, w.enter object) :=
  Layout.reject (C := layout) hR hc h.compare h.sorted _ (h.mem_iff.2 he) hz

theorem insert_hit {at_ entry e : P} (he : e ∈ l) (hz : call f entry e = 0) :
    (insert (some object) (some at_) (some entry)).run (answer call) w =
      some (.rockTreeNodeAlreadyExists, w.enter object) :=
  Layout.reject (C := layout) hR hc h.compare h.sorted _ (h.mem_iff.2 he) hz

theorem accept {entry : P} (hne : ∀ e ∈ l, call f entry e ≠ 0) (rest : M O R L F Code) :
    ∃ tree, (layout.enlist object entry rest).run (answer call) w =
        rest.run (answer call) ((w.enter object).put object { w.mem object with tree }) ∧
      R.Sorted (call f) tree (R.nodes tree) ∧ (R.nodes tree).Perm (entry :: l) := by
  obtain ⟨tree, hrun, hs⟩ := Layout.accept (C := layout) hR hc h.compare h.sorted rest
    fun e he => hne e (h.mem_iff.1 he)
  refine ⟨tree, hrun, hs.nodes.symm ▸ hs, ?_⟩
  rw [hs.nodes]
  exact (List.perm_orderedInsert _ entry _).trans (h.same.cons entry)

include hL

/-- An entry equal to no stored one goes to the end of the list. -/
theorem add_miss {entry : P} (hp : pool entry) (hne : ∀ e ∈ l, call f entry e ≠ 0) :
    ∃ w', (add (some object) (some entry)).run (answer call) w = some (.ok, w') ∧
      Holds call f pool (l ++ [entry]) (w'.mem object) := by
  obtain ⟨tree, hrun, hs, hperm⟩ := accept hR hc h hne ((append object entry).bind fun _ => .ret .ok)
  have hv : entry ∉ l := fun he => hne entry he (hc.refl entry)
  obtain ⟨nodes, happ, -, hk⟩ := run_append call object (w := w.enter object)
    (s := { w.mem object with tree }) hL.on h.keeps (i := ()) (fun _ _ => trivial) h.head hp
    (fun _ => hv) trivial
  refine ⟨_, hrun.trans ((run_seq _ happ).trans rfl), ?_⟩
  rw [World.mem_put, Function.update_self]
  exact ⟨h.compare, hs, hperm.trans (List.perm_append_singleton entry l).symm, rfl, keeps_update hk⟩

theorem insert_miss {at_ item : P} (hat : at_ ∈ l) (hp : pool item) (hne : ∀ e ∈ l, call f item e ≠ 0) :
    ∃ w', (insert (some object) (some at_) (some item)).run (answer call) w = some (.ok, w') ∧
      Holds call f pool (insertBefore at_ item l) (w'.mem object) := by
  obtain ⟨tree, hrun, hs, hperm⟩ := accept hR hc h hne
    ((listInsertBefore object at_ item).bind fun _ => (rehead object at_ item).bind fun _ => .ret .ok)
  have hv : item ∉ l := fun he => hne item he (hc.refl item)
  obtain ⟨pre, post, rfl⟩ := List.append_of_mem hat
  have hnd : (pre ++ at_ :: post).Nodup := h.keeps.nodup ()
  obtain ⟨nodes, hlink, -, hk⟩ := run_linkBefore call object (w := w.enter object)
    (s := { w.mem object with tree }) hL.on h.keeps (i := ()) (fun _ _ => trivial) h.head rfl hp
    (fun _ => hv) trivial
  refine ⟨_, hrun.trans hlink, ?_⟩
  rw [World.mem_put, Function.update_self, insertBefore_mid (not_mem_pre hnd)]
  exact ⟨h.compare, hs, hperm.trans List.perm_middle.symm, rfl, keeps_update hk⟩

theorem remove_spec {e : P} (he : e ∈ l) :
    ∃ w', (remove (some object) (some e)).run (answer call) w = some (.ok, w') ∧
      Holds call f pool (l.erase e) (w'.mem object) := by
  obtain ⟨pre, post, rfl⟩ := List.append_of_mem he
  have hnd : (pre ++ e :: post).Nodup := h.keeps.nodup ()
  obtain ⟨nodes, hb, -, hk⟩ := RockList.remove_mid hL.on h.keeps (i := ()) (fun _ _ => trivial) rfl
  obtain ⟨tree, ht, hs⟩ := RockTree.remove_stored hR hc h.sorted (h.mem_iff.2 he)
  refine ⟨_, run_remove (run_unhead hL.on h.keeps (i := ()) (fun _ _ => trivial) h.head rfl) hb ht, ?_⟩
  rw [World.mem_put, Function.update_self]
  refine ⟨h.compare, hs.nodes ▸ hs, ?_, ?_, ?_⟩
  · show (R.nodes tree).Perm _
    rw [hs.nodes]
    exact h.same.erase e
  · rw [erase_mid hnd]
  · rw [erase_mid hnd]
    exact keeps_update hk

end

section observers
variable [DecidableEq O] [DecidableEq P]

section rings
variable {ι : Type} {seq : ι → List P} {i : ι} {live : L.Heap → P → Prop} {a : P} {pre post : List P}
  (hL : L.LawfulOn live) (hk : L.Keeps pool (w.mem object).nodes seq)
  (hlive : ∀ x ∈ seq i, live (w.mem object).nodes x) (hhead : (w.mem object).list = (seq i).head?)
include hL hk hlive hhead

theorem run_last (v : Option P) : (last (some object) (some v)).run (answer call) w =
    some (outcome .rockTreeTreeIsEmpty (some v) (seq i).getLast?, w) := by
  unfold LinkedRedBlackTreeContainer.last
  rw [run_load, hhead]
  cases hi : seq i with
  | nil => rfl
  | cons a l =>
    obtain ⟨z, hz, hlast⟩ := RockList.prev_head hL hk hlive (a := a) (by rw [hi]; rfl)
    rw [hi] at hlast
    rw [hlast]
    exact run_required hz _

theorem run_next_mid (hi : seq i = pre ++ a :: post) (v : Option P) :
    (next (some object) (some a) (some v)).run (answer call) w =
      some (outcome .rockTreeEndOfSequence (some v) post.head?, w) := by
  obtain ⟨b, hb, hcases⟩ := RockList.next_cases hL hk hlive hi
  rw [run_next hb v, hhead]
  rcases hcases with ⟨rfl, hfirst⟩ | ⟨hpost, hne, hfirst⟩
  · rw [if_pos (.inr hfirst)]
    rfl
  · rw [if_neg (not_or.2 ⟨hne, hfirst⟩), hpost]

theorem run_prev_mid (hi : seq i = pre ++ a :: post) (v : Option P) :
    (prev (some object) (some a) (some v)).run (answer call) w =
      some (outcome .rockTreeEndOfSequence (some v) pre.getLast?, w) := by
  unfold prev
  rw [run_load, hhead]
  rcases RockList.prev_cases hL hk hlive hi with ⟨rfl, hfirst⟩ | ⟨b, hb, hpre, hne, hfirst⟩
  · rw [if_pos hfirst]
    rfl
  · rw [if_neg hfirst]
    refine (run_required hb _).trans ?_
    rw [if_neg hne, hpre]
    rfl

end rings

variable (hL : L.Lawful) (h : Holds call f pool l (w.mem object))
include h

omit [DecidableEq P] in
theorem first_spec (v : Option P) : (first (some object) (some v)).run (answer call) w =
    some (outcome .rockTreeTreeIsEmpty (some v) l.head?, w) :=
  run_first h.head v

include hL

theorem last_spec (v : Option P) : (last (some object) (some v)).run (answer call) w =
    some (outcome .rockTreeTreeIsEmpty (some v) l.getLast?, w) :=
  run_last (i := ()) hL.on h.keeps (fun _ _ => trivial) h.head v

variable {a : P} {pre post : List P}

theorem next_spec (hl : l = pre ++ a :: post) (v : Option P) :
    (next (some object) (some a) (some v)).run (answer call) w =
      some (outcome .rockTreeEndOfSequence (some v) post.head?, w) :=
  run_next_mid hL.on h.keeps (i := ()) (fun _ _ => trivial) h.head hl v

theorem prev_spec (hl : l = pre ++ a :: post) (v : Option P) :
    (prev (some object) (some a) (some v)).run (answer call) w =
      some (outcome .rockTreeEndOfSequence (some v) pre.getLast?, w) :=
  run_prev_mid hL.on h.keeps (i := ()) (fun _ _ => trivial) h.head hl v

end observers

end LinkedRedBlackTreeContainer

end Coral
