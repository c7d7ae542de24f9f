import Mathlib.Data.Finset.Card
import Coral.LinkedList
import Coral.RingState
import Coral.Traverse

/-!
# What the functions of the linked list do

`Holds objects pool seq w`: the list objects in `objects` hold the sequences `seq` of items in `pool`,
their nodes being linked to rings. `Wrote` says what the steps of a function have written so far. One
lemma for each function says what it returns and what it leaves.
-/

namespace Coral

namespace LinkedList
open Prog Places

variable {P I : Type} {L : RockList P} {G : Seagrass} {objects : List I} {pool : Finset P}
  {seq : I → List P} {object : I} {s : Object P} {nodes nodes' : L.Heap} {c c' : Nat} {l : Option P}
  {a v : P} {w w' w₁ : World Unit (Memory I L) (Event P)}

/-- No function of this file asks for a comparison. -/
def noCallback (_ : Memory I L) (_ _ : P) : Option Int := none

/-- The lists in `objects` are those of `seq`. -/
structure Holds (objects : List I) (pool : Finset P) (seq : I → List P)
    (w : World Unit (Memory I L) (Event P)) : Prop where
  keeps : L.Keeps (· ∈ pool) (w.mem ()).nodes seq
  pool : ∀ i, ∀ x ∈ seq i, x ∈ pool
  object : ∀ i ∈ objects, (w.mem ()).lists i = ⟨(seq i).length, (seq i).head?⟩

/-- `w'` is `w` with `s` in `object` and `nodes` in the heap. -/
structure Wrote (w w' : World Unit (Memory I L) (Event P)) (object : I) (s : Object P)
    (nodes : L.Heap) : Prop where
  nodes : (w'.mem ()).nodes = nodes
  written : (w'.mem ()).lists object = s
  other : ∀ i, i ≠ object → (w'.mem ()).lists i = (w.mem ()).lists i

theorem Holds.wrote (h : Holds objects pool seq w) (ho : object ∈ objects) :
    Wrote w w object ⟨(seq object).length, (seq object).head?⟩ (w.mem ()).nodes :=
  ⟨rfl, h.object object ho, fun _ _ => rfl⟩

/-! ### The steps -/

theorem run_listInsertBefore (hw : Wrote w w₁ object s nodes)
    (hb : L.insertBefore nodes a v = .ok nodes') :
    ∃ w₂, (listInsertBefore a v : M I L Unit).run noCallback w₁ = some ((), w₂) ∧
      Wrote w w₂ object s nodes' := by
  refine ⟨w₁.put () { w₁.mem () with nodes := nodes' }, ?_, rfl, hw.written, hw.other⟩
  unfold listInsertBefore
  rw [run_load, hw.nodes]
  exact run_required hb _

theorem run_listRemove (hw : Wrote w w₁ object s nodes) (hb : L.remove nodes a = .ok nodes') :
    ∃ w₂, (listRemove a : M I L Unit).run noCallback w₁ = some ((), w₂) ∧
      Wrote w w₂ object s nodes' := by
  refine ⟨w₁.put () { w₁.mem () with nodes := nodes' }, ?_, rfl, hw.written, hw.other⟩
  unfold listRemove
  rw [run_load, hw.nodes]
  exact run_required hb _

theorem run_first {l : List P} (hw : (w.mem ()).lists object = ⟨l.length, l.head?⟩) (v : Option P) :
    (first (some object) (some v) : M I L _).run noCallback w =
      some (outcome .seaUrchinIsEmpty (some v) l.head?, w) := by
  unfold first
  rw [run_load, hw]
  cases l <;> rfl

section
variable [DecidableEq I]

theorem Wrote.set (hw : Wrote w w₁ object s nodes) {s₁ s₂ : Object P} (hs : s₁ = s₂) :
    Wrote w (w₁.put () ((w₁.mem ()).set object s₁)) object s₂ nodes :=
  ⟨hw.nodes, (Function.update_self ..).trans hs,
    fun i hi => (Function.update_of_ne hi ..).trans (hw.other i hi)⟩

theorem run_setList (hw : Wrote w w₁ object ⟨c, l⟩ nodes) (l' : Option P) :
    ∃ w₂, (setList object l' : M I L Unit).run noCallback w₁ = some ((), w₂) ∧
      Wrote w w₂ object ⟨c, l'⟩ nodes :=
  ⟨_, rfl, hw.set (by rw [hw.written])⟩

theorem run_setCount (hw : Wrote w w₁ object ⟨c, l⟩ nodes) (c' : Nat) :
    ∃ w₂, (setCount object c' : M I L Unit).run noCallback w₁ = some ((), w₂) ∧
      Wrote w w₂ object ⟨c', l⟩ nodes :=
  ⟨_, rfl, hw.set (by rw [hw.written])⟩

theorem run_increment (hw : Wrote w w₁ object ⟨c, l⟩ nodes) (hadd : G.add 1 c = .ok c') :
    ∃ w₂, (increment G object : M I L Unit).run noCallback w₁ = some ((), w₂) ∧
      Wrote w w₂ object ⟨c', l⟩ nodes := by
  obtain ⟨w₂, h₂, hw₂⟩ := run_setCount hw c'
  refine ⟨w₂, ?_, hw₂⟩
  unfold increment
  rw [run_load, hw.written]
  exact (run_required hadd _).trans h₂

theorem run_decrement (hG : G.Lawful) (hw : Wrote w w₁ object ⟨c, l⟩ nodes) :
    ∃ w₂, (decrement G object : M I L Unit).run noCallback w₁ = some ((), w₂) ∧
      Wrote w w₂ object ⟨c - 1, l⟩ nodes := by
  unfold decrement
  rw [run_load, hw.written]
  by_cases hc : c = 0
  · subst hc
    exact ⟨w₁, rfl, hw⟩
  · obtain ⟨w₂, h₂, hw₂⟩ := run_setCount hw (c - 1)
    rw [if_neg hc]
    exact ⟨w₂, (run_required (hG.subtract_ok c 1 (Nat.one_le_iff_ne_zero.2 hc)) _).trans h₂, hw₂⟩

theorem run_append_none (hlist : ((w.mem ()).lists object).list = none) :
    (append object v : M I L Unit).run noCallback w = (setList object (some v)).run noCallback w := by
  unfold append
  rw [run_load, hlist]

theorem run_append_some (hlist : ((w.mem ()).lists object).list = some a) :
    (append object v : M I L Unit).run noCallback w = (listInsertBefore a v).run noCallback w := by
  unfold append
  rw [run_load, hlist]

/-- Where the count was raised there was room for one more. -/
theorem fit_of_increment (hG : G.Lawful) {α : Type} {k : Unit → M I L α}
    {r : α × World Unit (Memory I L) (Event P)}
    (hrun : ((increment G object).bind k).run noCallback w = some r) :
    1 + ((w.mem ()).lists object).count ≤ G.uintmaxMax := by
  by_contra hlt
  have herr := hG.add_error 1 ((w.mem ()).lists object).count (Nat.lt_of_not_le hlt)
  have hstop : ((increment G object).bind k : M I L α).run noCallback w = none := by
    unfold increment
    rw [load_bind, run_load, herr]
    rfl
  rw [hstop] at hrun
  cases hrun

theorem Holds.update (h : Holds objects pool seq w) {l : List P}
    (hw : Wrote w w' object ⟨l.length, l.head?⟩ nodes)
    (hkeeps : L.Keeps (· ∈ pool) nodes (Function.update seq object l)) (hpool : ∀ x ∈ l, x ∈ pool) :
    Holds objects pool (Function.update seq object l) w' := by
  refine ⟨hw.nodes ▸ hkeeps, ?_, ?_⟩
  · intro i x hx
    by_cases hio : i = object
    · subst hio
      exact hpool x (by simpa using hx)
    · exact h.pool i x (by simpa only [Function.update_of_ne hio] using hx)
  · intro i hi
    by_cases hio : i = object
    · subst hio
      rw [Function.update_self]
      exact hw.written
    · rw [Function.update_of_ne hio, hw.other i hio]
      exact h.object i hi

end

section
variable [DecidableEq P]

theorem run_next {b : P} (hb : L.next (w.mem ()).nodes a = .ok b) (v : Option P) :
    (next (some object) (some a) (some v) : M I L _).run noCallback w =
      some (outcome .seaUrchinEndOfSequence (some v)
        (if a = b ∨ ((w.mem ()).lists object).list = some b then none else some b), w) := by
  unfold next
  rw [run_load]
  refine (run_required hb _).trans ?_
  split <;> rfl

theorem Holds.length_lt (h : Holds objects pool seq w) {x : P} (hx : x ∈ pool) (hfree : ∀ j, x ∉ seq j)
    (i : I) : 1 + (seq i).length ≤ pool.card := by
  have hnd : (x :: seq i).Nodup := List.nodup_cons.2 ⟨hfree i, h.keeps.nodup i⟩
  have hsub : (x :: seq i).toFinset ⊆ pool := by
    intro y hy
    rcases List.mem_cons.1 (List.mem_toFinset.1 hy) with rfl | hy
    exacts [hx, h.pool i y hy]
  have hcard := Finset.card_le_card hsub
  rw [List.toFinset_card_of_nodup hnd, List.length_cons] at hcard
  omega

variable [DecidableEq I]

theorem run_rehead (hw : Wrote w w₁ object ⟨c, l⟩ nodes) (a v : P) :
    ∃ w₂, (rehead object a v : M I L Unit).run noCallback w₁ = some ((), w₂) ∧
      Wrote w w₂ object ⟨c, if l = some a then some v else l⟩ nodes := by
  unfold rehead
  rw [run_load, hw.written]
  by_cases hl : l = some a
  · rw [if_pos hl, if_pos hl]
    exact run_setList hw (some v)
  · rw [if_neg hl, if_neg hl]
    exact ⟨w₁, rfl, hw⟩

theorem run_unhead_head {b : P} (hw : Wrote w w₁ object ⟨c, some a⟩ nodes) (hb : L.next nodes a = .ok b) :
    ∃ w₂, (unhead object a : M I L Unit).run noCallback w₁ = some ((), w₂) ∧
      Wrote w w₂ object ⟨c, if a = b then none else some b⟩ nodes := by
  unfold unhead
  rw [run_load, hw.written, hw.nodes, if_pos rfl]
  obtain ⟨w₂, h₂, hw₂⟩ := run_setList hw (if a = b then none else some b)
  exact ⟨w₂, (run_required hb _).trans h₂, hw₂⟩

theorem run_unhead_other (hw : Wrote w w₁ object ⟨c, l⟩ nodes) (hne : l ≠ some a) :
    (unhead object a : M I L Unit).run noCallback w₁ = some ((), w₁) := by
  unfold unhead
  rw [run_load, hw.written, if_neg hne]
  rfl

theorem run_unhead {live : L.Heap → P → Prop} (hL : L.LawfulOn live) {pre post : List P} {i : I}
    {seq : I → List P} {pool : Finset P} (hk : L.Keeps (· ∈ pool) nodes seq)
    (hlive : ∀ x ∈ seq i, live nodes x) (hs : seq i = pre ++ a :: post)
    (hw : Wrote w w₁ object ⟨c, (seq i).head?⟩ nodes) :
    ∃ w₂, (unhead object a : M I L Unit).run noCallback w₁ = some ((), w₂) ∧
      Wrote w w₂ object ⟨c, (pre ++ post).head?⟩ nodes := by
  cases pre with
  | nil =>
    obtain ⟨b, hb, hnext⟩ := RockList.next_head hL hk hlive hs
    rw [List.nil_append, ← hnext]
    rw [hs] at hw
    exact run_unhead_head hw hb
  | cons b pre =>
    have hne : (seq i).head? ≠ some a := by
      rw [hs]
      exact head?_ne (hs ▸ hk.nodup i)
    exact ⟨w₁, run_unhead_other hw hne, by rwa [hs] at hw⟩

theorem run_remove (hG : G.Lawful) (hun : ∃ w₁, (unhead object a : M I L Unit).run noCallback w =
      some ((), w₁) ∧ Wrote w w₁ object ⟨c, l⟩ nodes) (hb : L.remove nodes a = .ok nodes') :
    ∃ w', (remove G (some object) (some a) : M I L Code).run noCallback w = some (.ok, w') ∧
      Wrote w w' object ⟨c - 1, l⟩ nodes' := by
  obtain ⟨w₁, h₁, hw₁⟩ := hun
  obtain ⟨w₂, h₂, hw₂⟩ := run_listRemove hw₁ hb
  obtain ⟨w₃, h₃, hw₃⟩ := run_decrement hG hw₂
  exact ⟨w₃, (run_seq _ h₁).trans ((run_seq _ h₂).trans ((run_seq _ h₃).trans rfl)), hw₃⟩

end

/-! ### The functions

They do the same whether items are ever freed or not, as long as those in `pool` are allocated. -/

theorem count_spec (h : Holds objects pool seq w) (ho : object ∈ objects) (v : Nat) :
    (count (some object) (some v)).run noCallback w = some ((.ok, some (seq object).length), w) := by
  unfold count
  rw [run_load, h.object object ho]
  rfl

theorem first_spec (h : Holds objects pool seq w) (ho : object ∈ objects) (v : Option P) :
    (first (some object) (some v)).run noCallback w =
      some (outcome .seaUrchinIsEmpty (some v) (seq object).head?, w) :=
  run_first (h.object object ho) v

section observers
variable [DecidableEq P] {live : L.Heap → P → Prop} (hL : L.LawfulOn live)
  (h : Holds objects pool seq w) (hlive : ∀ x ∈ pool, live (w.mem ()).nodes x) (ho : object ∈ objects)
  {pre post : List P}
include hL h hlive ho

theorem last_spec (v : Option P) : (last (some object) (some v)).run noCallback w =
    some (outcome .seaUrchinIsEmpty (some v) (seq object).getLast?, w) := by
  unfold last
  rw [run_load, h.object object ho]
  cases hs : seq object with
  | nil => rfl
  | cons a l =>
    obtain ⟨z, hz, hlast⟩ := RockList.prev_head hL h.keeps (fun x hx => hlive x (h.pool object x hx))
      (show (seq object).head? = some a by rw [hs]; rfl)
    rw [hs] at hlast
    rw [hlast]
    exact run_required hz _

theorem next_spec (hs : seq object = pre ++ a :: post) (v : Option P) :
    (next (some object) (some a) (some v)).run noCallback w =
      some (outcome .seaUrchinEndOfSequence (some v) post.head?, w) := by
  obtain ⟨b, hb, hcases⟩ :=
    RockList.next_cases hL h.keeps (fun x hx => hlive x (h.pool object x hx)) hs
  rw [run_next hb v, h.object object ho]
  rcases hcases with ⟨rfl, hhead⟩ | ⟨hpost, hne, hhead⟩
  · rw [if_pos (.inr hhead)]
    rfl
  · rw [if_neg (not_or.2 ⟨hne, hhead⟩), hpost]

theorem prev_spec (hs : seq object = pre ++ a :: post) (v : Option P) :
    (prev (some object) (some a) (some v)).run noCallback w =
      some (outcome .seaUrchinEndOfSequence (some v) pre.getLast?, w) := by
  unfold prev
  rw [run_load, h.object object ho]
  rcases RockList.prev_cases hL h.keeps (fun x hx => hlive x (h.pool object x hx)) hs with
    ⟨rfl, hhead⟩ | ⟨b, hb, hpre, hne, hhead⟩
  · rw [if_pos hhead]
    rfl
  · rw [if_neg hhead]
    refine (run_required hb _).trans ?_
    rw [if_neg hne, hpre]
    rfl

end observers

section mutators
variable [DecidableEq P] [DecidableEq I] {live : L.Heap → P → Prop} (hL : L.LawfulOn live)
  (hG : G.Lawful) (h : Holds objects pool seq w) (hlive : ∀ x ∈ pool, live (w.mem ()).nodes x)
  (ho : object ∈ objects) {x : P}
include hL hG h hlive ho

theorem add_spec (hfit : 1 + (seq object).length ≤ G.uintmaxMax) (hx : x ∈ pool)
    (hfree : ∀ j, x ∉ seq j) :
    ∃ w', (add G (some object) (some x)).run noCallback w = some (.ok, w') ∧
      live (w'.mem ()).nodes = live (w.mem ()).nodes ∧
      Holds objects pool (Function.update seq object (seq object ++ [x])) w' := by
  have hmem : ∀ y ∈ seq object ++ [x], y ∈ pool := by
    intro y hy
    rcases List.mem_append.1 hy with hy | hy
    exacts [h.pool object y hy, List.mem_singleton.1 hy ▸ hx]
  have hadd := hG.add_ok 1 _ hfit
  obtain ⟨w₁, h₁, hw₁⟩ := run_increment (h.wrote ho) hadd
  suffices happ : ∃ w₂ nodes, (append object x).run noCallback w₁ = some ((), w₂) ∧
      Wrote w w₂ object ⟨(seq object ++ [x]).length, (seq object ++ [x]).head?⟩ nodes ∧
      live nodes = live (w.mem ()).nodes ∧
      L.Keeps (· ∈ pool) nodes (Function.update seq object (seq object ++ [x])) by
    obtain ⟨w₂, nodes, h₂, hw₂, hlive', hk⟩ := happ
    exact ⟨w₂, (run_seq _ h₁).trans ((run_seq _ h₂).trans rfl), hw₂.nodes ▸ hlive', h.update hw₂ hk hmem⟩
  have hlist : ((w₁.mem ()).lists object).list = (seq object).head? := by rw [hw₁.written]
  cases hs : seq object with
  | nil =>
    obtain ⟨w₂, h₂, hw₂⟩ := run_setList hw₁ (some x)
    rw [hs] at hw₂
    rw [hs] at hlist
    exact ⟨w₂, _, (run_append_none hlist).trans h₂, hw₂, rfl, RockList.keeps_first h.keeps hs hx hfree⟩
  | cons a l =>
    obtain ⟨nodes, hb, hlive', hk⟩ := RockList.insertBefore_head hL h.keeps
      (fun x hx => hlive x (h.pool object x hx)) hs hx hfree (hlive x hx)
    obtain ⟨w₂, h₂, hw₂⟩ := run_listInsertBefore hw₁ hb
    rw [hs, Nat.add_comm] at hw₂
    rw [hs] at hlist
    exact ⟨w₂, nodes, (run_append_some hlist).trans h₂, by simpa using hw₂, hlive', hk⟩

theorem insert_spec (hfit : 1 + (seq object).length ≤ G.uintmaxMax) {a : P} (ha : a ∈ seq object)
    (hx : x ∈ pool) (hfree : ∀ j, x ∉ seq j) :
    ∃ w', (insert G (some object) (some a) (some x)).run noCallback w = some (.ok, w') ∧
      live (w'.mem ()).nodes = live (w.mem ()).nodes ∧
      Holds objects pool (Function.update seq object (insertBefore a x (seq object))) w' := by
  obtain ⟨pre, post, hs⟩ := List.append_of_mem ha
  have hnd : (pre ++ a :: post).Nodup := hs ▸ h.keeps.nodup object
  have hmem : ∀ y ∈ pre ++ x :: a :: post, y ∈ pool := by
    intro y hy
    rw [List.mem_append, List.mem_cons] at hy
    rcases hy with hy | rfl | hy
    exacts [h.pool object y (by simp [hs, hy]), hx, h.pool object y (hs ▸ List.mem_append_right pre hy)]
  have hadd := hG.add_ok 1 _ hfit
  obtain ⟨nodes, hb, hlive', hk⟩ := RockList.insertBefore_mid hL h.keeps
    (fun x hx => hlive x (h.pool object x hx)) hs hx hfree (hlive x hx)
  obtain ⟨w₁, h₁, hw₁⟩ := run_increment (h.wrote ho) hadd
  obtain ⟨w₂, h₂, hw₂⟩ := run_listInsertBefore hw₁ hb
  obtain ⟨w₃, h₃, hw₃⟩ := run_rehead hw₂ a x
  rw [hs, insertBefore_mid (not_mem_pre hnd)]
  refine ⟨w₃, (run_seq _ h₁).trans ((run_seq _ h₂).trans ((run_seq _ h₃).trans rfl)), hw₃.nodes ▸ hlive',
    h.update ?_ hk hmem⟩
  have hlength : 1 + (seq object).length = (pre ++ x :: a :: post).length := by
    simp only [hs, List.length_append, List.length_cons]
    omega
  rwa [hlength, hs, head?_before hnd] at hw₃

theorem remove_spec {a : P} (ha : a ∈ seq object) :
    ∃ w', (remove G (some object) (some a)).run noCallback w = some (.ok, w') ∧
      live (w'.mem ()).nodes = live (w.mem ()).nodes ∧
      Holds objects pool (Function.update seq object ((seq object).erase a)) w' := by
  obtain ⟨pre, post, hs⟩ := List.append_of_mem ha
  have hnd : (pre ++ a :: post).Nodup := hs ▸ h.keeps.nodup object
  have hmem : ∀ y ∈ pre ++ post, y ∈ pool := by
    intro y hy
    refine h.pool object y ?_
    rw [hs, List.mem_append, List.mem_cons]
    rcases List.mem_append.1 hy with hy | hy
    exacts [.inl hy, .inr (.inr hy)]
  have hlength : (seq object).length - 1 = (pre ++ post).length := by
    simp only [hs, List.length_append, List.length_cons]
    omega
  have hlive₁ : ∀ x ∈ seq object, live (w.mem ()).nodes x := fun x hx => hlive x (h.pool object x hx)
  obtain ⟨nodes, hb, hlive', hk⟩ := RockList.remove_mid hL h.keeps hlive₁ hs
  obtain ⟨w', hrun, hw'⟩ := run_remove hG (run_unhead hL h.keeps hlive₁ hs (h.wrote ho)) hb
  rw [hlength] at hw'
  rw [hs, erase_mid hnd]
  exact ⟨w', hrun, hw'.nodes ▸ hlive', h.update hw' hk hmem⟩

end mutators

end LinkedList

end Coral
