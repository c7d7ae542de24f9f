import Coral.SortedSet

/-!
# Ceiling, floor, higher and lower

What the four queries should report (`IsCeiling`, `IsFloor`, `IsHigher`, `IsLower`) and what they do
report, on every container a run of `add` and `remove` leads to. `floor` and `lower` are right.
`ceiling` and `higher` are right only where the search for a missing key ends below its successor
(`SuccessorMet`): where it ends at the predecessor they give up instead of stepping on.
-/

namespace Coral

namespace RedBlackTreeContainer
open Prog SearchTree ThreeWay

variable {P F O : Type} {R : RockTree P} {call : F → P → P → Int} {f : F} {object : O}
  {w : World O (RedBlackTreeContainer R F) (Event P)}

/-- A run of allowed calls leads from `init` to `w`. -/
def Reachable [DecidableEq O] (call : F → P → P → Int) (f : F) (object : O)
    (w : World O (RedBlackTreeContainer R F) (Event P)) : Prop :=
  ∃ w₀ w₁ ops codes, (init (some object) (some f)).run (answer call) w₀ = some (.ok, w₁) ∧
    Valid (answer call) (Op.exec object) (Op.Allowed object) ops w₁ ∧
    runAll (answer call) (Op.exec object) ops w₁ = some (codes, w)

/-- `r` reports the entry `best` is about, or, when there is `nothing` to report, that and `out` as
it was. -/
inductive Reports (best : P → Prop) (nothing : Prop) (out : Out (Option P)) :
    Code × Out (Option P) → Prop where
  | entry {e : P} (he : best e) : Reports best nothing out (.ok, some (some e))
  | notFound (h : nothing) : Reports best nothing out (.rockTreeNodeNotFound, out)

/-- The least stored entry not below `key`. -/
def IsCeiling (cmp : P → P → Int) (S : List P) (key : P) :
    Out (Option P) → Code × Out (Option P) → Prop :=
  Reports (Least cmp (fun e => cmp key e ≤ 0) S) (∀ e ∈ S, 0 < cmp key e)

/-- The greatest stored entry not above `key`. -/
def IsFloor (cmp : P → P → Int) (S : List P) (key : P) :
    Out (Option P) → Code × Out (Option P) → Prop :=
  Reports (Greatest cmp (fun e => 0 ≤ cmp key e) S) (∀ e ∈ S, cmp key e < 0)

/-- The least stored entry above `key`. -/
def IsHigher (cmp : P → P → Int) (S : List P) (key : P) :
    Out (Option P) → Code × Out (Option P) → Prop :=
  Reports (Least cmp (fun e => cmp key e < 0) S) (∀ e ∈ S, ¬ cmp key e < 0)

/-- The greatest stored entry below `key`. -/
def IsLower (cmp : P → P → Int) (S : List P) (key : P) :
    Out (Option P) → Code × Out (Option P) → Prop :=
  Reports (Greatest cmp (fun e => 0 < cmp key e) S) (∀ e ∈ S, ¬ 0 < cmp key e)

/-- `key` is equal to a stored entry, or above them all, or its place in the tree is the empty left
one of its successor. -/
def SuccessorMet [DecidableEq P] (cmp : P → P → Int) (t : BinaryTree P) (key : P) : Prop :=
  (∃ e ∈ inorder t, cmp key e = 0) ∨ (∀ e ∈ inorder t, ¬ cmp key e < 0) ∨
    ∃ e, Least cmp (fun e => cmp key e < 0) (inorder t) e ∧ (subtree e t).left = .nil

section
variable [DecidableEq P] {cmp : P → P → Int} {t : BinaryTree P} {key p : P}
  (hc : TotalPreorder cmp) (hs : Ascending cmp (inorder t))
include hc hs

/-- What a missed search says about the successor of the key: it is the node the search ended at, or
there is none, or the search missed it. -/
theorem miss_cases {last : Option P} (h : Ends cmp key none t (.miss last)) :
    (∃ p, last = some p ∧ cmp key p < 0 ∧ SuccessorMet cmp t key ∧
      Least cmp (fun e => cmp key e ≤ 0) (inorder t) p ∧ Least cmp (fun e => cmp key e < 0) (inorder t) p) ∨
    ((∀ p ∈ last, 0 < cmp key p) ∧ ((∀ e ∈ inorder t, 0 < cmp key e) ∧ SuccessorMet cmp t key ∨
      (∃ e ∈ inorder t, cmp key e < 0) ∧ ¬ SuccessorMet cmp t key)) := by
  cases h with
  | empty ht =>
    subst ht
    exact .inr ⟨by simp, .inl ⟨by simp, .inr (.inl (by simp))⟩⟩
  | below pre post p ht hpre hp hpost hfree =>
    have hs' := ht ▸ hs
    have hle : Least cmp (fun e => cmp key e ≤ 0) (inorder t) p := by
      rw [ht]
      exact hs'.least hc (fun a ha => by have := hpre a ha; omega) (by omega)
    have hlt : Least cmp (fun e => cmp key e < 0) (inorder t) p := by
      rw [ht]
      exact hs'.least hc (fun a ha => by have := hpre a ha; omega) hp
    exact .inl ⟨p, rfl, hp, .inr (.inr ⟨p, hlt, hfree⟩), hle, hlt⟩
  | above pre post p ht hpre hp hpost hfree hsucc =>
    refine .inr ⟨by simpa using hp, ?_⟩
    have hbelow : ∀ e ∈ pre ++ [p], 0 < cmp key e :=
      List.forall_mem_append.2 ⟨hpre, List.forall_mem_singleton.2 hp⟩
    cases post with
    | nil =>
      rw [ht]
      refine .inl ⟨hbelow, .inr (.inl ?_)⟩
      intro e he
      have := hbelow e (ht ▸ he)
      omega
    | cons s post =>
      have ht' : inorder t = (pre ++ [p]) ++ s :: post := by simp [ht]
      have hks : cmp key s < 0 := hpost s (by simp)
      refine .inr ⟨⟨s, by simp [ht'], hks⟩, ?_⟩
      rintro (⟨e, he, hz⟩ | hnone | ⟨e, he, hleft⟩)
      · rw [ht'] at he
        rcases List.mem_append.1 he with he | he
        · have := hbelow e he
          omega
        · have := hpost e he
          omega
      · exact hnone s (by simp [ht']) hks
      · -- the successor is `s`, and `s` has a left subtree
        have hls : Least cmp (fun e => cmp key e < 0) (inorder t) s := by
          rw [ht'] at hs ⊢
          exact hs.least hc (fun a ha => by have := hbelow a ha; omega) hks
        obtain rfl := hls.unique hc hs he
        exact hsucc s rfl hleft

end

section
variable [DecidableEq O] [DecidableEq P] (hR : R.Lawful) (hc : TotalPreorder (call f))
include hR hc

theorem Reachable.holds (hw : Reachable call f object w) :
    Holds call f object (R.nodes (w.mem object).tree) w := by
  obtain ⟨w₀, w₁, ops, codes, hinit, hops, hrun⟩ := hw
  obtain ⟨w', hw', h⟩ := run_refines hR hc hinit hops
  obtain rfl : w' = w := by
    rw [hrun] at hw'
    exact (Prod.mk.inj (Option.some.inj hw')).2.symm
  exact h.sorted.nodes ▸ h

theorem run_find_ends (h : Holds call f object (R.nodes (w.mem object).tree) w) (key : P) :
    ∃ r, (layout.find object key).run (answer call) (w.enter object) =
        some (RockTree.findResult r, w.enter object) ∧
      Ends (call f) key none (R.shape (w.mem object).tree) r := by
  obtain ⟨r, hf, hends⟩ := RockTree.find_ends hR hc h.sorted key
  have hfind := run_find h.enter rfl key
  rw [World.mem_enter, hf] at hfind
  exact ⟨r, hfind, hends⟩

/-- What `ceiling` and `higher` go on with where the search ended at `last` and missed the key: the
node there, if it is above the key. -/
def foundAbove (key : P) (v : Option P) : Option P → M O R F (Code × Out (Option P))
  | none => .ret (.rockTreeNodeNotFound, some v)
  | some node => (entityCompare key node).bind fun c =>
    if 0 < c then .ret (.rockTreeNodeNotFound, some v) else found (some node)

omit hR in
theorem run_foundAbove (h : Holds call f object (R.nodes (w.mem object).tree) w) {key : P} {last : Option P}
    (hm : Ends (call f) key none (R.shape (w.mem object).tree) (.miss last)) (v : Option P) :
    ∃ r, (foundAbove key v last).run (answer call) (w.enter object) = some (r, w.enter object) ∧
      (IsCeiling (call f) (R.nodes (w.mem object).tree) key (some v) r ↔
        SuccessorMet (call f) (R.shape (w.mem object).tree) key) ∧
      (IsHigher (call f) (R.nodes (w.mem object).tree) key (some v) r ↔
        SuccessorMet (call f) (R.shape (w.mem object).tree) key) := by
  have hs : Ascending (call f) (inorder (R.shape (w.mem object).tree)) := h.sorted.ascending
  rcases miss_cases hc hs hm with ⟨p, rfl, hp, hmet, hle, hlt⟩ | ⟨hlast, hrest⟩
  · refine ⟨(.ok, some (some p)), ?_, ⟨fun _ => hmet, fun _ => .entry hle⟩, ⟨fun _ => hmet, fun _ => .entry hlt⟩⟩
    refine (run_seq _ (run_entityCompare h.enter rfl key p)).trans ?_
    rw [if_neg (by omega)]
    rfl
  · refine ⟨(.rockTreeNodeNotFound, some v), ?_, ?_⟩
    · cases last with
      | none => rfl
      | some p =>
        refine (run_seq _ (run_entityCompare h.enter rfl key p)).trans ?_
        rw [if_pos (hlast p rfl)]
        rfl
    · rcases hrest with ⟨hnone, hmet⟩ | ⟨⟨s, hs, hks⟩, hmet⟩
      · refine ⟨⟨fun _ => hmet, fun _ => .notFound hnone⟩, ⟨fun _ => hmet, fun _ => .notFound ?_⟩⟩
        intro e he
        have := hnone e he
        omega
      · refine ⟨⟨?_, fun h => absurd h hmet⟩, ⟨?_, fun h => absurd h hmet⟩⟩
        · intro hr
          cases hr with
          | notFound hnone =>
            have := hnone s hs
            omega
        · intro hr
          cases hr with
          | notFound hnone => exact absurd hks (hnone s hs)

section step
variable {pre post : List P} {e : P}

theorem run_next (h : Holds call f object (pre ++ e :: post) w) (out : Out (Option P)) :
    (layout.stepOrNotFound R.next object e out).run (answer call) w =
      some (outcome .rockTreeNodeNotFound out post.head?, w) :=
  Layout.run_stepOrNotFound (RockTree.next_eq hR hc h.sorted rfl) out

theorem run_prev (h : Holds call f object (pre ++ e :: post) w) (out : Out (Option P)) :
    (layout.stepOrNotFound R.prev object e out).run (answer call) w =
      some (outcome .rockTreeNodeNotFound out pre.getLast?, w) :=
  Layout.run_stepOrNotFound (RockTree.prev_eq hR hc h.sorted rfl) out

end step

theorem ceiling_least_iff (hw : Reachable call f object w) (key : P) (v : Option P) :
    ∃ r, (ceiling (some object) (some key) (some v)).run (answer call) w = some (r, w.enter object) ∧
      (IsCeiling (call f) (R.nodes (w.mem object).tree) key (some v) r ↔
        SuccessorMet (call f) (R.shape (w.mem object).tree) key) := by
  have h := hw.holds hR hc
  have hs : Ascending (call f) (inorder (R.shape (w.mem object).tree)) := h.sorted.ascending
  obtain ⟨a | last, hfind, hends⟩ := run_find_ends hR hc h key
  all_goals
    unfold ceiling Layout.ceiling checked
    rw [run_select, Prog.bind_eq, run_seq _ hfind]
  · cases hends with
    | hit pre post a ht hk =>
      refine ⟨_, rfl, fun _ => .inl ⟨a, by simp [ht], hk⟩, fun _ => .entry ?_⟩
      have hcut := Ascending.cut_hit hc (ht ▸ hs) hk
      show Least _ _ (inorder (R.shape (w.mem object).tree)) a
      rw [ht] at hs ⊢
      exact hs.least hc (fun b hb => by have := hcut.1 b hb; omega) (by omega)
  · obtain ⟨r, hr, hceil, _⟩ := run_foundAbove hc h hends v
    exact ⟨r, by cases last <;> exact hr, hceil⟩

end

theorem ceiling_least_iff_example : ∃ w, Reachable Reference.compare () () w ∧
    Reference.tree.shape (w.mem ()).tree = .node 10 .nil (.node 20 .nil .nil) ∧
    (ceiling (some ()) (some 15) (some none)).run (answer Reference.compare) w =
      some ((.ok, some (some 20)), w.enter ()) ∧
    (IsCeiling (Reference.compare ()) (Reference.tree.nodes (w.mem ()).tree) 15 (some none)
        (.ok, some (some 20)) ↔
      SuccessorMet (Reference.compare ()) (Reference.tree.shape (w.mem ()).tree) 15) := by
  have hw : Reachable Reference.compare () () _ :=
    ⟨blank, _, [.add 10, .add 20], _, rfl, by decide, rfl⟩
  obtain ⟨r, hr, hiff⟩ := ceiling_least_iff Reference.tree_lawful Reference.compare_total hw 15 none
  obtain rfl : r = (.ok, some (some 20)) := congrArg Prod.fst (Option.some.inj (hr.symm.trans rfl))
  exact ⟨_, hw, rfl, hr, hiff⟩

/-- With 20 and then 10 stored, the search for 15 ends at 10, and 20 is not found. -/
theorem ceiling_misses_successor : ∃ w, Reachable Reference.compare () () w ∧
    20 ∈ Reference.tree.nodes (w.mem ()).tree ∧ Reference.compare () 15 20 ≤ 0 ∧
    (ceiling (some ()) (some 15) (some none)).run (answer Reference.compare) w =
      some ((.rockTreeNodeNotFound, some none), w.enter ()) ∧
    ¬ IsCeiling (Reference.compare ()) (Reference.tree.nodes (w.mem ()).tree) 15 (some none)
      (.rockTreeNodeNotFound, some none) := by
  refine ⟨_, ⟨blank, _, [.add 20, .add 10], _, rfl, by decide, rfl⟩, by decide, by decide, rfl, ?_⟩
  intro h
  cases h with
  | notFound hnone => exact absurd (hnone 20 (by decide)) (by decide)

section
variable [DecidableEq O] [DecidableEq P] (hR : R.Lawful) (hc : TotalPreorder (call f))
include hR hc

theorem higher_least_iff (hw : Reachable call f object w) (key : P) (v : Option P) :
    ∃ r, (higher (some object) (some key) (some v)).run (answer call) w = some (r, w.enter object) ∧
      (IsHigher (call f) (R.nodes (w.mem object).tree) key (some v) r ↔
        SuccessorMet (call f) (R.shape (w.mem object).tree) key) := by
  have h := hw.holds hR hc
  have hs : Ascending (call f) (inorder (R.shape (w.mem object).tree)) := h.sorted.ascending
  obtain ⟨a | last, hfind, hends⟩ := run_find_ends hR hc h key
  all_goals
    unfold higher Layout.higher checked
    rw [run_select, Prog.bind_eq, run_seq _ hfind]
  · cases hends with
    | hit pre post a ht hk =>
      have hcut := Ascending.cut_hit hc (ht ▸ hs) hk
      have ht' : R.nodes (w.mem object).tree = pre ++ a :: post := ht
      have hmet : SuccessorMet (call f) (R.shape (w.mem object).tree) key :=
        .inl ⟨a, by simp [ht], hk⟩
      have hnot : ∀ e ∈ pre ++ [a], ¬ call f key e < 0 :=
        List.forall_mem_append.2 ⟨fun e he => by have := hcut.1 e he; omega,
          List.forall_mem_singleton.2 (by omega)⟩
      refine ⟨_, run_next hR hc (ht' ▸ h.enter) (some v), fun _ => hmet, fun _ => ?_⟩
      rw [ht']
      cases post with
      | nil => exact .notFound hnot
      | cons s post =>
        rw [ht, List.append_cons] at hs
        rw [List.append_cons]
        exact .entry (hs.least hc hnot (hcut.2 s (by simp)))
  · obtain ⟨r, hr, _, hhigh⟩ := run_foundAbove hc h hends v
    exact ⟨r, by cases last <;> exact hr, hhigh⟩

end

theorem higher_least_iff_example : ∃ w, Reachable Reference.compare () () w ∧
    Reference.tree.shape (w.mem ()).tree = .node 10 .nil (.node 20 .nil .nil) ∧
    (higher (some ()) (some 15) (some none)).run (answer Reference.compare) w =
      some ((.ok, some (some 20)), w.enter ()) ∧
    (IsHigher (Reference.compare ()) (Reference.tree.nodes (w.mem ()).tree) 15 (some none)
        (.ok, some (some 20)) ↔
      SuccessorMet (Reference.compare ()) (Reference.tree.shape (w.mem ()).tree) 15) := by
  have hw : Reachable Reference.compare () () _ :=
    ⟨blank, _, [.add 10, .add 20], _, rfl, by decide, rfl⟩
  obtain ⟨r, hr, hiff⟩ := higher_least_iff Reference.tree_lawful Reference.compare_total hw 15 none
  obtain rfl : r = (.ok, some (some 20)) := congrArg Prod.fst (Option.some.inj (hr.symm.trans rfl))
  exact ⟨_, hw, rfl, hr, hiff⟩

theorem higher_misses_successor : ∃ w, Reachable Reference.compare () () w ∧
    20 ∈ Reference.tree.nodes (w.mem ()).tree ∧ Reference.compare () 15 20 < 0 ∧
    (higher (some ()) (some 15) (some none)).run (answer Reference.compare) w =
      some ((.rockTreeNodeNotFound, some none), w.enter ()) ∧
    ¬ IsHigher (Reference.compare ()) (Reference.tree.nodes (w.mem ()).tree) 15 (some none)
      (.rockTreeNodeNotFound, some none) := by
  refine ⟨_, ⟨blank, _, [.add 20, .add 10], _, rfl, by decide, rfl⟩, by decide, by decide, rfl, ?_⟩
  intro h
  cases h with
  | notFound hnone => exact absurd (by decide) (hnone 20 (by decide))

/-- Where the entries that are to be reported end, one step back leads to the greatest of them. -/
theorem reports_pred {cmp : P → P → Int} {sel : P → Prop} {nothing : Prop} {pre post : List P}
    (hc : TotalPreorder cmp) (hs : Ascending cmp (pre ++ post)) (hpre : ∀ e ∈ pre, sel e)
    (hpost : ∀ e ∈ post, ¬ sel e) (hnone : pre = [] → nothing) (out : Out (Option P)) :
    Reports (Greatest cmp sel (pre ++ post)) nothing out
      (outcome .rockTreeNodeNotFound out pre.getLast?) := by
  rcases List.eq_nil_or_concat' pre with rfl | ⟨pre, q, rfl⟩
  · exact .notFound (hnone rfl)
  · rw [List.getLast?_concat]
    rw [List.append_assoc] at hs ⊢
    exact .entry (hs.greatest hc hpost (hpre q (by simp)))

section
variable [DecidableEq O] {key p : P} {q : Int → Prop} [DecidablePred q]

/-- `floor` and `lower` step back from the node their search ended at. -/
theorem run_stepBack [DecidableEq P] (hR : R.Lawful) (hc : TotalPreorder (call f))
    (h : Holds call f object (R.nodes (w.mem object).tree) w) {pre post : List P}
    (ht : R.nodes (w.mem object).tree = pre ++ p :: post) (hq : q (call f key p)) (v : Option P) :
    ((entityCompare key p).bind fun c => if q c then layout.stepOrNotFound R.prev object p (some v)
        else found (some p) : M O R F _).run (answer call) (w.enter object) =
      some (outcome .rockTreeNodeNotFound (some v) pre.getLast?, w.enter object) := by
  refine (run_seq _ (run_entityCompare h.enter rfl key p)).trans ?_
  rw [if_pos hq]
  exact run_prev hR hc (ht ▸ h.enter) (some v)

theorem run_stay (h : Holds call f object (R.nodes (w.mem object).tree) w) (hq : ¬ q (call f key p))
    (v : Option P) :
    ((entityCompare key p).bind fun c => if q c then layout.stepOrNotFound R.prev object p (some v)
        else found (some p) : M O R F _).run (answer call) (w.enter object) =
      some ((.ok, some (some p)), w.enter object) := by
  refine (run_seq _ (run_entityCompare h.enter rfl key p)).trans ?_
  rw [if_neg hq]
  rfl

end

section
variable [DecidableEq O] [DecidableEq P] (hR : R.Lawful) (hc : TotalPreorder (call f))
include hR hc

theorem floor_greatest (hw : Reachable call f object w) (key : P) (v : Option P) :
    ∃ r, (floor (some object) (some key) (some v)).run (answer call) w = some (r, w.enter object) ∧
      IsFloor (call f) (R.nodes (w.mem object).tree) key (some v) r := by
  have h := hw.holds hR hc
  have hs : Ascending (call f) (inorder (R.shape (w.mem object).tree)) := h.sorted.ascending
  obtain ⟨a | last, hfind, hends⟩ := run_find_ends hR hc h key
  all_goals
    unfold floor Layout.floor checked
    rw [run_select, Prog.bind_eq, run_seq _ hfind]
  · cases hends with
    | hit pre post a ht hk =>
      refine ⟨_, rfl, .entry ?_⟩
      have hcut := Ascending.cut_hit hc (ht ▸ hs) hk
      show Greatest _ _ (inorder (R.shape (w.mem object).tree)) a
      rw [ht] at hs ⊢
      exact hs.greatest hc (fun b hb => by have := hcut.2 b hb; omega) (by omega)
  · cases hends with
    | empty ht => exact ⟨_, rfl, .notFound (by simp [RockTree.nodes, ht])⟩
    | below pre post p ht hpre hp hpost =>
      have ht' : R.nodes (w.mem object).tree = pre ++ p :: post := ht
      have habove : ∀ e ∈ p :: post, call f key e < 0 := List.forall_mem_cons.2 ⟨hp, hpost⟩
      refine ⟨_, run_stepBack hR hc h ht' hp v, ?_⟩
      -- one step back from the successor is the predecessor
      rw [ht] at hs
      rw [ht']
      refine reports_pred hc hs ?_ ?_ ?_ (some v)
      · intro e he
        have := hpre e he
        omega
      · intro e he
        have := habove e he
        omega
      · rintro rfl
        exact habove
    | above pre post p ht hpre hp hpost =>
      refine ⟨_, run_stay h (by omega) v, .entry ?_⟩
      show Greatest _ _ (inorder (R.shape (w.mem object).tree)) p
      rw [ht] at hs ⊢
      exact hs.greatest hc (fun e he => by have := hpost e he; omega) (by omega)

end

theorem floor_greatest_example : ∃ w, Reachable Reference.compare () () w ∧
    Reference.tree.nodes (w.mem ()).tree = [10, 20] ∧
    (floor (some ()) (some 15) (some none)).run (answer Reference.compare) w =
      some ((.ok, some (some 10)), w.enter ()) ∧
    IsFloor (Reference.compare ()) (Reference.tree.nodes (w.mem ()).tree) 15 (some none)
      (.ok, some (some 10)) := by
  have hw : Reachable Reference.compare () () _ :=
    ⟨blank, _, [.add 20, .add 10], _, rfl, by decide, rfl⟩
  obtain ⟨r, hr, hfloor⟩ := floor_greatest Reference.tree_lawful Reference.compare_total hw 15 none
  obtain rfl : r = (.ok, some (some 10)) := congrArg Prod.fst (Option.some.inj (hr.symm.trans rfl))
  exact ⟨_, hw, rfl, hr, hfloor⟩

section
variable [DecidableEq O] [DecidableEq P] (hR : R.Lawful) (hc : TotalPreorder (call f))
include hR hc

theorem lower_greatest (hw : Reachable call f object w) (key : P) (v : Option P) :
    ∃ r, (lower (some object) (some key) (some v)).run (answer call) w = some (r, w.enter object) ∧
      IsLower (call f) (R.nodes (w.mem object).tree) key (some v) r := by
  have h := hw.holds hR hc
  have hs : Ascending (call f) (R.nodes (w.mem object).tree) := h.sorted.ascending
  obtain ⟨a | last, hfind, hends⟩ := run_find_ends hR hc h key
  all_goals
    unfold lower Layout.lower checked
    rw [run_select, Prog.bind_eq, run_seq _ hfind]
  · cases hends with
    | hit pre post a ht hk =>
      have ht' : R.nodes (w.mem object).tree = pre ++ a :: post := ht
      have hcut := Ascending.cut_hit hc (ht' ▸ hs) hk
      have hnot : ∀ e ∈ a :: post, ¬ 0 < call f key e :=
        List.forall_mem_cons.2 ⟨by omega, fun e he => by have := hcut.2 e he; omega⟩
      refine ⟨_, run_stepBack hR hc h ht' (by omega) v, ?_⟩
      rw [ht'] at hs ⊢
      refine reports_pred hc hs hcut.1 hnot ?_ (some v)
      rintro rfl
      exact hnot
  · cases hends with
    | empty ht => exact ⟨_, rfl, .notFound (by simp [RockTree.nodes, ht])⟩
    | below pre post p ht hpre hp hpost =>
      have ht' : R.nodes (w.mem object).tree = pre ++ p :: post := ht
      have hnot : ∀ e ∈ p :: post, ¬ 0 < call f key e :=
        List.forall_mem_cons.2 ⟨by omega, fun e he => by have := hpost e he; omega⟩
      refine ⟨_, run_stepBack hR hc h ht' (by omega) v, ?_⟩
      rw [ht'] at hs ⊢
      refine reports_pred hc hs hpre hnot ?_ (some v)
      rintro rfl
      exact hnot
    | above pre post p ht hpre hp hpost =>
      have ht' : R.nodes (w.mem object).tree = pre ++ p :: post := ht
      refine ⟨_, run_stay h (by omega) v, .entry ?_⟩
      rw [ht'] at hs ⊢
      exact hs.greatest hc (fun e he => by have := hpost e he; omega) hp

end

theorem lower_greatest_example : ∃ w, Reachable Reference.compare () () w ∧
    Reference.tree.nodes (w.mem ()).tree = [10, 20] ∧
    (lower (some ()) (some 20) (some none)).run (answer Reference.compare) w =
      some ((.ok, some (some 10)), w.enter ()) ∧
    IsLower (Reference.compare ()) (Reference.tree.nodes (w.mem ()).tree) 20 (some none)
      (.ok, some (some 10)) := by
  have hw : Reachable Reference.compare () () _ :=
    ⟨blank, _, [.add 20, .add 10], _, rfl, by decide, rfl⟩
  obtain ⟨r, hr, hlower⟩ := lower_greatest Reference.tree_lawful Reference.compare_total hw 20 none
  obtain rfl : r = (.ok, some (some 10)) := congrArg Prod.fst (Option.some.inj (hr.symm.trans rfl))
  exact ⟨_, hw, rfl, hr, hlower⟩

end RedBlackTreeContainer

end Coral
