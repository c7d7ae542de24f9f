import Coral.RingState
import Coral.TreeState

/-!
# Entries that are freed

`rock` on a memory that entries are given back of. `R.guarded` and `L.guarded` do what `R` and `L` do,
except that a call that would follow the links of a freed entry faults; no caller goes on after a
fault. So a function of coral that runs to its end on guarded memory has followed the links of
allocated entries only. The calls of a tree are taken to follow the links of all its nodes.
-/

namespace Coral

/-- `val`, and the entries whose memory was given back. -/
structure Guarded (T P : Type) where
  val : T
  freed : List P

namespace Guarded

variable {T P α : Type} {g : Guarded T P} {nodes l : List P} {e : P}

/-- All of `nodes` are allocated. -/
def Live (g : Guarded T P) (nodes : List P) : Prop := ∀ x ∈ nodes, x ∉ g.freed

/-- Give the memory of `e` back. -/
def free (g : Guarded T P) (e : P) : Guarded T P := ⟨g.val, e :: g.freed⟩

/-- Hand the memory of `e` out again. -/
def grant [DecidableEq P] (g : Guarded T P) (e : P) : Guarded T P := ⟨g.val, g.freed.filter (· ≠ e)⟩

/-- What a call that follows a dangling link returns: a code no caller knows. -/
def fault : Code := .rockTreeObjectIsNull

theorem Live.free (h : g.Live l) (he : e ∉ l) : (g.free e).Live l := fun x hx hf => by
  rcases List.mem_cons.1 hf with rfl | hf
  · exact he hx
  · exact h x hx hf

variable [DecidableEq P]

instance : Decidable (g.Live nodes) := inferInstanceAs (Decidable (∀ x ∈ nodes, x ∉ g.freed))

/-- A call that follows the links of `nodes` and then returns `r`. -/
def follow (g : Guarded T P) (nodes : List P) (r : Except Code α) : Except Code α :=
  if g.Live nodes then r else .error fault

theorem follow_live (h : g.Live nodes) (r : Except Code α) : g.follow nodes r = r := if_pos h

end Guarded

/-! ### Trees -/

namespace RockTree
open Guarded

variable {P : Type} [DecidableEq P] {R : RockTree P}

/-- `R` on trees whose nodes may be freed. -/
def guarded (R : RockTree P) : RockTree P where
  Tree := Guarded R.Tree P
  zero := ⟨R.zero, []⟩
  nodeInit := R.nodeInit
  init t := (R.init t.val).map fun tree => { t with val := tree }
  invalidate t := t.follow (R.nodes t.val) ((R.invalidate t.val).map fun tree => { t with val := tree })
  count t := R.count t.val
  find t k := if t.Live (R.nodes t.val) then R.find t.val k else .done (fault, none)
  insert t at_ n :=
    if t.Live (n :: R.nodes t.val) then
      (R.insert t.val at_ n).map fun r => r.map fun tree => { t with val := tree }
    else .done (.error fault)
  remove t a := t.follow (a :: R.nodes t.val) ((R.remove t.val a).map fun tree => { t with val := tree })
  first t := t.follow (R.nodes t.val) (R.first t.val)
  last t := t.follow (R.nodes t.val) (R.last t.val)
  next t a := t.follow (a :: R.nodes t.val) (R.next t.val a)
  prev t a := t.follow (a :: R.nodes t.val) (R.prev t.val a)
  shape t := R.shape t.val

/-- `t` holds the nodes `l`, and all of them are allocated. -/
structure Intact (R : RockTree P) (cmp : P → P → Int) (t : Guarded R.Tree P) (l : List P) : Prop where
  sorted : R.Sorted cmp t.val l
  live : t.Live l

section
variable {cmp : P → P → Int} {t : Guarded R.Tree P} {a : P} {l : List P}

omit [DecidableEq P] in
theorem Intact.free (h : R.Intact cmp t l) (ha : a ∉ l) : R.Intact cmp (t.free a) l :=
  ⟨h.sorted, h.live.free ha⟩

omit [DecidableEq P] in
theorem Intact.live_nodes (h : R.Intact cmp t l) : t.Live (R.nodes t.val) := h.sorted.nodes ▸ h.live

theorem Intact.guarded (hc : ThreeWay.TotalPreorder cmp) (h : R.Intact cmp t l) : R.guarded.Keeps t l :=
  ⟨h.sorted.nodes, h.sorted.ascending.nodup hc, h.sorted.count⟩

variable (hR : R.Lawful)
include hR

/-- On trees of allocated nodes guarding makes no difference. -/
theorem guarded_on : R.guarded.LawfulOn fun t x => x ∉ t.freed where
  find_eq t k hl := (if_pos hl).trans (hR.find_eq t.val k)
  insert_root t n hn ht := by
    obtain ⟨tree, h₁, h₂⟩ := hR.insert_root t.val n ht
    have hlive : t.Live (n :: R.nodes t.val) := by
      rw [RockTree.nodes, show R.shape t.val = .nil from ht]
      exact List.forall_mem_singleton.2 hn
    refine ⟨⟨tree, t.freed⟩, (if_pos hlive).trans ?_, rfl, h₂⟩
    rw [h₁]
    rfl
  insert_under t p n hl hn := by
    obtain ⟨f, hf, hspec⟩ := hR.insert_under t.val p n
    have hlive : t.Live (n :: R.nodes t.val) := List.forall_mem_cons.2 ⟨hn, hl⟩
    refine ⟨fun c => (f c).map fun tree => { t with val := tree }, (if_pos hlive).trans ?_, ?_⟩
    · rw [hf]
      rfl
    · intro c s hc hn hs
      obtain ⟨tree, h₁, h₂⟩ := hspec c s hc hn hs
      exact ⟨⟨tree, t.freed⟩, congrArg (Except.map _) h₁, rfl, h₂⟩
  remove_mem t pre a post hl hnd hmid := by
    obtain ⟨tree, h₁, h₂⟩ := hR.remove_mem t.val pre a post hnd hmid
    have ha : a ∈ R.nodes t.val := by
      rw [show R.nodes t.val = pre ++ a :: post from hmid]
      simp
    refine ⟨⟨tree, t.freed⟩, (follow_live (List.forall_mem_cons.2 ⟨hl a ha, hl⟩) _).trans ?_, rfl, h₂⟩
    rw [h₁]
    rfl
  first_eq t hl := (follow_live hl _).trans (hR.on.first_eq t.val fun _ _ => trivial)
  last_eq t hl := (follow_live hl _).trans (hR.on.last_eq t.val fun _ _ => trivial)
  next_eq t pre a post hl hnd hmid := by
    have ha : a ∈ R.nodes t.val := by
      rw [show R.nodes t.val = pre ++ a :: post from hmid]
      simp
    exact (follow_live (List.forall_mem_cons.2 ⟨hl a ha, hl⟩) _).trans
      (hR.on.next_eq t.val pre a post (fun _ _ => trivial) hnd hmid)
  prev_eq t pre a post hl hnd hmid := by
    have ha : a ∈ R.nodes t.val := by
      rw [show R.nodes t.val = pre ++ a :: post from hmid]
      simp
    exact (follow_live (List.forall_mem_cons.2 ⟨hl a ha, hl⟩) _).trans
      (hR.on.prev_eq t.val pre a post (fun _ _ => trivial) hnd hmid)
  invalidate_empty t ht := by
    obtain ⟨tree, h⟩ := hR.invalidate_empty t.val ht
    have hlive : t.Live (R.nodes t.val) := by
      rw [RockTree.nodes, show R.shape t.val = .nil from ht]
      exact fun _ hx => absurd hx List.not_mem_nil
    refine ⟨⟨tree, t.freed⟩, (follow_live hlive _).trans ?_⟩
    rw [h]
    rfl

theorem guarded_first (h : R.Intact cmp t l) :
    R.guarded.first t = l.head?.elim (.error .rockTreeTreeIsEmpty) .ok :=
  (follow_live h.live_nodes _).trans (first_eq hR h.sorted)

theorem guarded_next (hc : ThreeWay.TotalPreorder cmp) (h : R.Intact cmp t (a :: l)) :
    R.guarded.next t a = l.head?.elim (.error .rockTreeEndOfSequence) .ok :=
  (h.guarded hc).next (guarded_on hR) h.live (List.nil_append (a :: l)).symm

theorem guarded_remove (hc : ThreeWay.TotalPreorder cmp) (h : R.Intact cmp t l) (ha : a ∈ l) :
    ∃ t', R.guarded.remove t a = .ok t' ∧ R.Intact cmp t' (l.erase a) := by
  obtain ⟨t', ht, hlive, hk⟩ := (h.guarded hc).remove (guarded_on hR) h.live ha
  refine ⟨t', ht, ⟨hk.nodes, h.sorted.ascending.sublist List.erase_sublist, hk.count⟩, fun x hx => ?_⟩
  exact congrFun hlive x ▸ h.live x (List.mem_of_mem_erase hx)

theorem guarded_invalidate (h : R.Intact cmp t []) : ∃ t', R.guarded.invalidate t = .ok t' :=
  (guarded_on hR).invalidate_empty t (SearchTree.inorder_eq_nil.1 h.sorted.nodes)

end

end RockTree

/-! ### Rings -/

namespace RockList
open Guarded

variable {P : Type} [DecidableEq P] {L : RockList P}

/-- `L` on list nodes that may be freed. -/
def guarded (L : RockList P) : RockList P where
  Heap := Guarded L.Heap P
  nodeInit h a := (h.follow [a] (L.nodeInit h.val a)).map fun nodes => { h with val := nodes }
  next h a := h.follow [a] (L.next h.val a)
  prev h a := h.follow [a] (L.prev h.val a)
  insertBefore h a v := (h.follow [a, v, (L.links h.val).pred a] (L.insertBefore h.val a v)).map
    fun nodes => { h with val := nodes }
  remove h v := (h.follow [v, (L.links h.val).succ v, (L.links h.val).pred v] (L.remove h.val v)).map
    fun nodes => { h with val := nodes }
  links h := L.links h.val

/-- The nodes in `h` are linked to the ring `l`, and all of it is allocated. -/
structure Intact (L : RockList P) (h : Guarded L.Heap P) (l : List P) : Prop where
  ring : Links.Ring (L.links h.val) l
  nodup : l.Nodup
  live : h.Live l

section
variable {h h' : Guarded L.Heap P} {a : P} {l : List P}

omit [DecidableEq P] in
theorem Intact.free (hi : L.Intact h l) (ha : a ∉ l) : L.Intact (h.free a) l :=
  ⟨hi.ring, hi.nodup, hi.live.free ha⟩

theorem Intact.keeps (hi : L.Intact h l) : L.guarded.Keeps (fun _ => False) h fun _ : Unit => l :=
  ⟨fun _ => hi.ring, fun _ => hi.nodup, fun _ _ _ _ _ => rfl, fun _ hx => hx.elim⟩

variable (hL : L.Lawful)
include hL

theorem guarded_on : L.guarded.LawfulOn fun h x => x ∉ h.freed where
  next_ok h a ha := (follow_live (List.forall_mem_singleton.2 ha) _).trans (hL.next_ok h.val a)
  prev_ok h a ha := (follow_live (List.forall_mem_singleton.2 ha) _).trans (hL.prev_ok h.val a)
  nodeInit_ok h a ha := by
    obtain ⟨nodes, hn, halone⟩ := hL.nodeInit_ok h.val a
    refine ⟨⟨nodes, h.freed⟩, ?_, rfl, halone⟩
    show (h.follow _ (L.nodeInit h.val a)).map _ = _
    rw [follow_live (List.forall_mem_singleton.2 ha), hn]
    rfl
  insertBefore_alone h a v hne halone hback ha hv hp := by
    obtain ⟨nodes, hn⟩ := hL.insertBefore_ok h.val a v
    have hlive : h.Live [a, v, (L.links h.val).pred a] := by
      simp only [Live, List.forall_mem_cons]
      exact ⟨ha, hv, hp, by simp⟩
    refine ⟨⟨nodes, h.freed⟩, ?_, rfl, hL.insertBefore_alone h.val a v nodes hne halone hback hn⟩
    show (h.follow _ (L.insertBefore h.val a v)).map _ = _
    rw [follow_live hlive, hn]
    rfl
  remove_ring h v hback hforth hv hs hp := by
    obtain ⟨nodes, hn⟩ := hL.remove_ok h.val v
    have hlive : h.Live [v, (L.links h.val).succ v, (L.links h.val).pred v] := by
      simp only [Live, List.forall_mem_cons]
      exact ⟨hv, hs, hp, by simp⟩
    refine ⟨⟨nodes, h.freed⟩, ?_, rfl, hL.remove_ring h.val v nodes hback hforth hn⟩
    show (h.follow _ (L.remove h.val v)).map _ = _
    rw [follow_live hlive, hn]
    rfl

theorem guarded_next (hi : L.Intact h (a :: l)) :
    ∃ b, L.guarded.next h a = .ok b ∧ (if a = b then none else some b) = l.head? :=
  next_head (guarded_on hL) hi.keeps (i := ()) hi.live rfl

theorem guarded_remove (hi : L.Intact h (a :: l)) :
    ∃ h', L.guarded.remove h a = .ok h' ∧ L.Intact h' l := by
  obtain ⟨h', hn, hlive, hk⟩ :=
    remove_mid (guarded_on hL) hi.keeps (i := ()) hi.live (List.nil_append (a :: l)).symm
  refine ⟨h', hn, ?_, (List.nodup_cons.1 hi.nodup).2, fun x hx => ?_⟩
  · have hr := hk.ring ()
    rwa [Function.update_self, List.nil_append] at hr
  · exact congrFun hlive x ▸ hi.live x (List.mem_cons_of_mem a hx)

end

end RockList

end Coral
