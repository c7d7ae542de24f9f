import Coral.Rock

/-!
# Lists kept in rings

`L.Keeps pool h seq`: the list nodes in `h` are linked to the disjoint rings `seq`. A list object
points to the head of its ring. These are the facts about single calls of `rock` that the linked list
and the linked container rest on: what linking a node in and taking one out do to the sequences, and
how the ends of a ring are told from its other places.

They hold of every `L` that is lawful on the nodes the calls follow (`LawfulOn`), be it that all nodes
are `live` or only those that are allocated.
-/

namespace Coral

namespace RockList
open Links Places

variable {P ι : Type} {L : RockList P} {pool : P → Prop} {h : L.Heap} {seq : ι → List P} {i : ι}
  {a v : P} {l pre post : List P}

/-- The list nodes in `h` are linked to the rings `seq`. -/
abbrev Keeps (L : RockList P) (pool : P → Prop) (h : L.Heap) (seq : ι → List P) : Prop :=
  Rings pool (L.links h) seq

theorem keeps_first [DecidableEq ι] (hk : L.Keeps pool h seq) (hi : seq i = []) (hp : pool v)
    (hv : ∀ j, v ∉ seq j) : L.Keeps pool h (Function.update seq i [v]) :=
  hk.start hi hv (hk.alone v hp hv)

variable [DecidableEq P]

/-- `L.Lawful` of the calls that follow the links of `live` nodes; no call changes which these are. -/
structure LawfulOn (L : RockList P) (live : L.Heap → P → Prop) : Prop where
  next_ok : ∀ h a, live h a → L.next h a = .ok ((L.links h).succ a)
  prev_ok : ∀ h a, live h a → L.prev h a = .ok ((L.links h).pred a)
  nodeInit_ok : ∀ h a, live h a → ∃ h', L.nodeInit h a = .ok h' ∧ live h' = live h ∧
    Alone (L.links h') a ∧
    ∀ x, x ≠ a → (L.links h').succ x = (L.links h).succ x ∧ (L.links h').pred x = (L.links h).pred x
  insertBefore_alone : ∀ h a v, v ≠ a → Alone (L.links h) v → (L.links h).succ ((L.links h).pred a) = a →
    live h a → live h v → live h ((L.links h).pred a) →
    ∃ h', L.insertBefore h a v = .ok h' ∧ live h' = live h ∧ Splice (L.links h) (L.links h') a v
  remove_ring : ∀ h v, (L.links h).succ ((L.links h).pred v) = v →
    (L.links h).pred ((L.links h).succ v) = v →
    live h v → live h ((L.links h).succ v) → live h ((L.links h).pred v) →
    ∃ h', L.remove h v = .ok h' ∧ live h' = live h ∧ Unlink (L.links h) (L.links h') v

theorem Lawful.on (hL : L.Lawful) : L.LawfulOn fun _ _ => True where
  next_ok h a _ := hL.next_ok h a
  prev_ok h a _ := hL.prev_ok h a
  nodeInit_ok h a _ := by
    obtain ⟨h', hh, halone⟩ := hL.nodeInit_ok h a
    exact ⟨h', hh, rfl, halone⟩
  insertBefore_alone h a v hne halone hback _ _ _ := by
    obtain ⟨h', hh⟩ := hL.insertBefore_ok h a v
    exact ⟨h', hh, rfl, hL.insertBefore_alone h a v h' hne halone hback hh⟩
  remove_ring h v hback hforth _ _ _ := by
    obtain ⟨h', hh⟩ := hL.remove_ok h v
    exact ⟨h', hh, rfl, hL.remove_ring h v h' hback hforth hh⟩

variable {live : L.Heap → P → Prop} (hL : L.LawfulOn live) (hk : L.Keeps pool h seq)
include hL hk

theorem insertBefore_ring (hlive : ∀ x ∈ seq i, live h x) (ha : a ∈ seq i) (hp : pool v)
    (hv : ∀ j, v ∉ seq j) (hvl : live h v) :
    ∃ h', L.insertBefore h a v = .ok h' ∧ live h' = live h ∧ Splice (L.links h) (L.links h') a v := by
  have hva : v ≠ a := fun e => hv i (e ▸ ha)
  exact hL.insertBefore_alone h a v hva (hk.alone v hp hv) ((hk.ring i).succ_pred ha) (hlive a ha) hvl
    (hlive _ ((hk.ring i).pred_mem ha))

theorem insertBefore_head [DecidableEq ι] (hlive : ∀ x ∈ seq i, live h x) (hi : seq i = a :: l)
    (hp : pool v) (hv : ∀ j, v ∉ seq j) (hvl : live h v) :
    ∃ h', L.insertBefore h a v = .ok h' ∧ live h' = live h ∧
      L.Keeps pool h' (Function.update seq i (a :: l ++ [v])) := by
  have ha : a ∈ seq i := by simp [hi]
  obtain ⟨h', hh, hlive', hs⟩ := insertBefore_ring hL hk hlive ha hp hv hvl
  exact ⟨h', hh, hlive', hk.splice_end hi hv hs⟩

theorem insertBefore_mid [DecidableEq ι] (hlive : ∀ x ∈ seq i, live h x) (hi : seq i = pre ++ a :: post)
    (hp : pool v) (hv : ∀ j, v ∉ seq j) (hvl : live h v) :
    ∃ h', L.insertBefore h a v = .ok h' ∧ live h' = live h ∧
      L.Keeps pool h' (Function.update seq i (pre ++ v :: a :: post)) := by
  have ha : a ∈ seq i := by simp [hi]
  obtain ⟨h', hh, hlive', hs⟩ := insertBefore_ring hL hk hlive ha hp hv hvl
  exact ⟨h', hh, hlive', hk.splice hi hv hs⟩

theorem remove_mid [DecidableEq ι] (hlive : ∀ x ∈ seq i, live h x) (hi : seq i = pre ++ a :: post) :
    ∃ h', L.remove h a = .ok h' ∧ live h' = live h ∧
      L.Keeps pool h' (Function.update seq i (pre ++ post)) := by
  have ha : a ∈ seq i := by simp [hi]
  have hr := hk.ring i
  obtain ⟨h', hh, hlive', hu⟩ := hL.remove_ring h a (hr.succ_pred ha) (hr.pred_succ ha) (hlive a ha)
    (hlive _ (hr.succ_mem ha)) (hlive _ (hr.pred_mem ha))
  exact ⟨h', hh, hlive', hk.unlink hi hu⟩

/-- Taking out a node that is on no ring changes none. -/
theorem remove_free (hp : pool v) (hv : ∀ j, v ∉ seq j) (hvl : live h v) :
    ∃ h', L.remove h v = .ok h' ∧ live h' = live h ∧ L.Keeps pool h' seq := by
  have hal : Alone (L.links h) v := hk.alone v hp hv
  have hback : (L.links h).succ ((L.links h).pred v) = v := by rw [hal.2, hal.1]
  have hforth : (L.links h).pred ((L.links h).succ v) = v := by rw [hal.1, hal.2]
  obtain ⟨h', hh, hlive', hu⟩ := hL.remove_ring h v hback hforth hvl (hal.1.symm ▸ hvl) (hal.2.symm ▸ hvl)
  exact ⟨h', hh, hlive', hk.unlink_alone hal hu⟩

/-- `next` leads to the following node, and from the last one to the head. -/
theorem next_cases (hlive : ∀ x ∈ seq i, live h x) (hi : seq i = pre ++ a :: post) :
    ∃ b, L.next h a = .ok b ∧
      (post = [] ∧ (seq i).head? = some b ∨
        post.head? = some b ∧ a ≠ b ∧ (seq i).head? ≠ some b) := by
  refine ⟨_, hL.next_ok h a (hlive a (by simp [hi])), ?_⟩
  have hr := hk.ring i
  have hnd := hk.nodup i
  cases post with
  | nil =>
    have hz : (seq i).getLast? = some a := by simp [hi]
    obtain ⟨b, hb⟩ : ∃ b, (seq i).head? = some b := by rw [hi]; cases pre <;> simp
    exact .inl ⟨rfl, by rw [(hr.close hb hz).1, hb]⟩
  | cons b post =>
    have hlink := (hi ▸ hr).link
    rw [hlink.1]
    refine .inr ⟨rfl, ?_, ?_⟩
    · intro e
      exact not_mem_post (hi ▸ hnd) (by simp [e])
    · intro e
      exact ne_first hnd hi e rfl

theorem prev_cases (hlive : ∀ x ∈ seq i, live h x) (hi : seq i = pre ++ a :: post) :
    pre = [] ∧ (seq i).head? = some a ∨
      ∃ b, L.prev h a = .ok b ∧ pre.getLast? = some b ∧ a ≠ b ∧ (seq i).head? ≠ some a := by
  have hnd := hk.nodup i
  have ha : live h a := hlive a (by simp [hi])
  rcases List.eq_nil_or_concat' pre with rfl | ⟨pre, b, rfl⟩
  · exact .inl ⟨rfl, by simp [hi]⟩
  · have hi' : seq i = pre ++ b :: a :: post := by simp [hi]
    refine .inr ⟨b, ?_, by simp, ?_, fun e => ne_first hnd hi' e rfl⟩
    · have hr : Ring (L.links h) (pre ++ b :: a :: post) := hi' ▸ hk.ring i
      rw [hL.prev_ok h a ha, hr.link.2]
    · intro e
      exact not_mem_post (hi' ▸ hnd) (by simp [e])

/-- The node before the head is the last one. -/
theorem prev_head (hlive : ∀ x ∈ seq i, live h x) {a : P} (ha : (seq i).head? = some a) :
    ∃ z, L.prev h a = .ok z ∧ (seq i).getLast? = some z := by
  obtain ⟨z, hz⟩ := exists_getLast? (l := seq i) (fun e => by simp [e] at ha)
  have hal := hlive a (List.mem_of_mem_head? ha)
  exact ⟨z, by rw [hL.prev_ok h a hal, ((hk.ring i).close ha hz).2], hz⟩

/-- The head after the head is taken out: the node that follows it, if that is another one. -/
theorem next_head (hlive : ∀ x ∈ seq i, live h x) (hi : seq i = a :: l) :
    ∃ b, L.next h a = .ok b ∧ (if a = b then none else some b) = l.head? := by
  obtain ⟨b, hb, ⟨rfl, hhead⟩ | ⟨hpost, hne, _⟩⟩ :=
    next_cases hL hk hlive (show seq i = [] ++ a :: l from hi)
  · obtain rfl : a = b := by simpa [hi] using hhead
    exact ⟨a, hb, if_pos rfl⟩
  · exact ⟨b, hb, by rw [if_neg hne, hpost]⟩

end RockList

end Coral
