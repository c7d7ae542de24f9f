import Coral.Rock

/-!
# Trees that hold a list

`R.Keeps t l`: the nodes of `t` are `l`, each once, and the count is its length; `R.Sorted cmp t l`: `l`
is ascending as well. These are the facts about single calls of `rock` that both containers rest on:
where a search ends, be the answers those of an order (`find_ends`) or any (`find_lands`), that a node
hung where a missed search ended is at its sorted place (`insert_miss`), what is left after a removal
(`Keeps.remove`).

As for rings, what holds whatever the order is holds of every `R` that is lawful on the nodes the calls
follow (`LawfulOn`).
-/

namespace Coral

open Places SearchTree ThreeWay

namespace RockTree

variable {P : Type} {R : RockTree P} {cmp : P → P → Int} {t : R.Tree} {l : List P} {k : P}

/-- `t` holds exactly the nodes `l`, in this order. -/
structure Keeps (R : RockTree P) (t : R.Tree) (l : List P) : Prop where
  nodes : R.nodes t = l
  nodup : l.Nodup
  count : R.count t = .ok l.length

/-- The same, and they are ascending. -/
structure Sorted (R : RockTree P) (cmp : P → P → Int) (t : R.Tree) (l : List P) : Prop where
  nodes : R.nodes t = l
  ascending : Ascending cmp l
  count : R.count t = .ok l.length

theorem Sorted.keeps (hc : TotalPreorder cmp) (h : R.Sorted cmp t l) : R.Keeps t l :=
  ⟨h.nodes, h.ascending.nodup hc, h.count⟩

/-! ### Whatever the order is -/

section
variable [DecidableEq P]

/-- `R.Lawful` of the calls that follow the links of `live` nodes; no call changes which these are. -/
structure LawfulOn (R : RockTree P) (live : R.Tree → P → Prop) : Prop where
  find_eq : ∀ t k, (∀ x ∈ R.nodes t, live t x) → R.find t k = (descend k none (R.shape t)).map findResult
  insert_root : ∀ t n, live t n → R.shape t = .nil → ∃ t', R.insert t none n = .done (.ok t') ∧
    live t' = live t ∧ R.nodes t' = [n] ∧ R.count t' = (R.count t).map (· + 1)
  insert_under : ∀ t p n, (∀ x ∈ R.nodes t, live t x) → live t n → ∃ f : Int → Except Code R.Tree,
    R.insert t (some p) n = .ask n p (fun c => .done (f c)) ∧
    ∀ c s, c ≠ 0 → n ∉ R.nodes t → hang p n c (R.shape t) = some s →
      ∃ t', f c = .ok t' ∧ live t' = live t ∧ R.nodes t' = inorder s ∧
        R.count t' = (R.count t).map (· + 1)
  remove_mem : ∀ t pre a post, (∀ x ∈ R.nodes t, live t x) → (R.nodes t).Nodup →
    R.nodes t = pre ++ a :: post → ∃ t', R.remove t a = .ok t' ∧ live t' = live t ∧
      R.nodes t' = pre ++ post ∧ R.count t' = (R.count t).map (· - 1)
  first_eq : ∀ t, (∀ x ∈ R.nodes t, live t x) →
    R.first t = (R.nodes t).head?.elim (.error .rockTreeTreeIsEmpty) .ok
  last_eq : ∀ t, (∀ x ∈ R.nodes t, live t x) →
    R.last t = (R.nodes t).getLast?.elim (.error .rockTreeTreeIsEmpty) .ok
  next_eq : ∀ t pre a post, (∀ x ∈ R.nodes t, live t x) → (R.nodes t).Nodup →
    R.nodes t = pre ++ a :: post → R.next t a = post.head?.elim (.error .rockTreeEndOfSequence) .ok
  prev_eq : ∀ t pre a post, (∀ x ∈ R.nodes t, live t x) → (R.nodes t).Nodup →
    R.nodes t = pre ++ a :: post → R.prev t a = pre.getLast?.elim (.error .rockTreeEndOfSequence) .ok
  invalidate_empty : ∀ t, R.shape t = .nil → ∃ t', R.invalidate t = .ok t'

theorem Lawful.on (hR : R.Lawful) : R.LawfulOn fun _ _ => True where
  find_eq t k _ := hR.find_eq t k
  insert_root t n _ ht := by
    obtain ⟨t', h₁, h₂⟩ := hR.insert_root t n ht
    exact ⟨t', h₁, rfl, h₂⟩
  insert_under t p n _ _ := by
    obtain ⟨f, hf, hspec⟩ := hR.insert_under t p n
    refine ⟨f, hf, fun c s hc hn hs => ?_⟩
    obtain ⟨t', h₁, h₂⟩ := hspec c s hc hn hs
    exact ⟨t', h₁, rfl, h₂⟩
  remove_mem t pre a post _ hnd hl := by
    obtain ⟨t', h₁, h₂⟩ := hR.remove_mem t pre a post hnd hl
    exact ⟨t', h₁, rfl, h₂⟩
  first_eq t _ := by
    cases hl : R.nodes t with
    | nil => exact hR.first_nil t hl
    | cons a l => exact hR.first_cons t a l hl
  last_eq t _ := by
    rcases List.eq_nil_or_concat' (R.nodes t) with hl | ⟨l, a, hl⟩
    · rw [hR.last_nil t hl, hl]
      rfl
    · rw [hR.last_concat t l a hl, hl, List.getLast?_concat]
      rfl
  next_eq t pre a post _ hnd hl := by
    cases post with
    | nil => exact hR.next_end t pre a hnd hl
    | cons b post => exact hR.next_mid t pre a b post hnd hl
  prev_eq t pre a post _ hnd hl := by
    rcases List.eq_nil_or_concat' pre with rfl | ⟨pre, b, rfl⟩
    · exact hR.prev_start t a post hnd hl
    · rw [hR.prev_mid t pre b a post hnd (by rw [hl]; simp), List.getLast?_concat]
      rfl
  invalidate_empty := hR.invalidate_empty

namespace Keeps
variable {live : R.Tree → P → Prop} {pre post : List P} {a : P} (hR : R.LawfulOn live) (h : R.Keeps t l)
  (hlive : ∀ x ∈ l, live t x)
include hR h hlive

omit [DecidableEq P] hR in
theorem live_nodes : ∀ x ∈ R.nodes t, live t x := h.nodes ▸ hlive

/-- What the search for `k` finds whatever the answers are: a node answered with `0`, or else a place to
insert `k` at. -/
theorem find_lands (cmp : P → P → Int) (k : P) :
    (∃ e ∈ l, cmp k e = 0 ∧ (R.find t k).eval cmp = (.ok, some e)) ∨
    ∃ p, (R.find t k).eval cmp = (.rockTreeNodeNotFound, p) ∧ (∀ a ∈ p, a ∈ l) ∧
      (k ∉ l → live t k → ∃ t' pre post, (R.insert t p k).eval cmp = .ok t' ∧ live t' = live t ∧
        l = pre ++ post ∧ R.Keeps t' (pre ++ k :: post)) := by
  have hln := h.live_nodes hlive
  have hnd : (R.nodes t).Nodup := h.nodes.symm ▸ h.nodup
  have heval : (R.find t k).eval cmp = findResult ((descend k none (R.shape t)).eval cmp) := by
    rw [hR.find_eq t k hln, Ask.eval_map]
  -- the tree after `k` was hung in
  have hkept : ∀ {t' pre post}, l = pre ++ post → k ∉ l → R.nodes t' = pre ++ k :: post →
      R.count t' = (R.count t).map (· + 1) → R.Keeps t' (pre ++ k :: post) := by
    intro t' pre post hl hk hn hcount
    refine ⟨hn, List.nodup_middle.2 (List.nodup_cons.2 ⟨hl ▸ hk, hl ▸ h.nodup⟩), ?_⟩
    rw [hcount, h.count, hl]
    simp [Except.map]
    omega
  have hlands := descend_lands cmp k hnd none
  rw [heval]
  generalize (descend k none (R.shape t)).eval cmp = found at hlands
  cases hlands with
  | hit e he hz => exact .inl ⟨e, h.nodes ▸ he, hz, rfl⟩
  | empty ht =>
    have hl : l = [] := by rw [← h.nodes, RockTree.nodes, ht]; rfl
    refine .inr ⟨none, rfl, nofun, fun hk hkl => ?_⟩
    obtain ⟨t', h₁, h₂, h₃, h₄⟩ := hR.insert_root t k hkl ht
    exact ⟨t', [], [], by rw [h₁]; rfl, h₂, hl, hkept hl hk h₃ h₄⟩
  | beside p hp hz pre post s hs ht hi =>
    have hl : l = pre ++ post := by rw [← h.nodes, ← ht]; rfl
    refine .inr ⟨some p, rfl, ?_, fun hk hkl => ?_⟩
    · intro a ha
      obtain rfl := Option.mem_some_iff.1 ha
      exact h.nodes ▸ hp
    obtain ⟨f, hf, hspec⟩ := hR.insert_under t p k hln hkl
    obtain ⟨t', h₁, h₂, h₃, h₄⟩ := hspec _ s hz (h.nodes.symm ▸ hk) hs
    exact ⟨t', pre, post, by rw [hf]; exact h₁, h₂, hl, hkept hl hk (h₃.trans hi) h₄⟩

theorem remove {e : P} (he : e ∈ l) :
    ∃ t', R.remove t e = .ok t' ∧ live t' = live t ∧ R.Keeps t' (l.erase e) := by
  obtain ⟨pre, post, rfl⟩ := List.append_of_mem he
  have hnd : (R.nodes t).Nodup := h.nodes.symm ▸ h.nodup
  obtain ⟨t', h₁, h₂, h₃, h₄⟩ := hR.remove_mem t pre e post (h.live_nodes hlive) hnd h.nodes
  refine ⟨t', h₁, h₂, ?_⟩
  rw [erase_mid h.nodup]
  refine ⟨h₃, h.nodup.sublist (by simp), ?_⟩
  rw [h₄, h.count]
  simp [Except.map]

theorem first : R.first t = l.head?.elim (.error .rockTreeTreeIsEmpty) .ok := by
  rw [hR.first_eq t (h.live_nodes hlive), h.nodes]

theorem last : R.last t = l.getLast?.elim (.error .rockTreeTreeIsEmpty) .ok := by
  rw [hR.last_eq t (h.live_nodes hlive), h.nodes]

theorem next (hl : l = pre ++ a :: post) :
    R.next t a = post.head?.elim (.error .rockTreeEndOfSequence) .ok :=
  hR.next_eq t pre a post (h.live_nodes hlive) (h.nodes.symm ▸ h.nodup) (h.nodes.trans hl)

theorem prev (hl : l = pre ++ a :: post) :
    R.prev t a = pre.getLast?.elim (.error .rockTreeEndOfSequence) .ok :=
  hR.prev_eq t pre a post (h.live_nodes hlive) (h.nodes.symm ▸ h.nodup) (h.nodes.trans hl)

end Keeps

end

/-! ### Ascending lists -/

section
variable [DecidableEq P] (hR : R.Lawful)
include hR

theorem sorted_init (cmp : P → P → Int) : ∃ t, R.init R.zero = .ok t ∧ R.Sorted cmp t [] := by
  obtain ⟨t, h₁, h₂, h₃⟩ := hR.init_zero
  exact ⟨t, h₁, by rw [RockTree.nodes, h₂]; rfl, ascending_nil, h₃⟩

theorem find_eval : (R.find t k).eval cmp = findResult ((descend k none (R.shape t)).eval cmp) := by
  rw [hR.find_eq, Ask.eval_map]

variable (hc : TotalPreorder cmp) (h : R.Sorted cmp t l)
include hc h

theorem find_ends (k : P) : ∃ r, (R.find t k).eval cmp = findResult r ∧ Ends cmp k none (R.shape t) r :=
  ⟨_, find_eval hR, descend_spec hc (by have := h.ascending; rwa [← h.nodes] at this) none⟩

omit hR hc in
/-- The key of a missed search lies between two neighbours of `l`. -/
theorem miss_cut {p : Option P} (hm : Ends cmp k none (R.shape t) (.miss p)) :
    ∃ pre post, l = pre ++ post ∧ (∀ a ∈ pre, 0 < cmp k a) ∧ ∀ a ∈ post, cmp k a < 0 := by
  have hl := h.nodes
  unfold RockTree.nodes at hl
  cases hm with
  | empty ht =>
    rw [ht] at hl
    exact ⟨[], [], hl.symm, by simp, by simp⟩
  | below pre post p ht hpre hp hpost =>
    have hfrom : ∀ a ∈ p :: post, cmp k a < 0 := List.forall_mem_cons.2 ⟨hp, hpost⟩
    exact ⟨pre, p :: post, by rw [← hl, ht], hpre, hfrom⟩
  | above pre post p ht hpre hp hpost =>
    have hupto : ∀ a ∈ pre ++ [p], 0 < cmp k a :=
      List.forall_mem_append.2 ⟨hpre, List.forall_mem_singleton.2 hp⟩
    exact ⟨pre ++ [p], post, by rw [← hl, ht]; simp, hupto, hpost⟩

omit hR hc in
theorem miss_ne {p : Option P} (hm : Ends cmp k none (R.shape t) (.miss p)) {a : P} (ha : a ∈ l) :
    cmp k a ≠ 0 := by
  obtain ⟨pre, post, rfl, hpre, hpost⟩ := miss_cut h hm
  rcases List.mem_append.1 ha with ha | ha
  · have := hpre a ha
    omega
  · have := hpost a ha
    omega

/-- Inserting `k` where the search for it ended puts it at its sorted place. -/
theorem insert_miss {p : Option P} (hm : Ends cmp k none (R.shape t) (.miss p)) :
    ∃ t', (R.insert t p k).eval cmp = .ok t' ∧ R.Sorted cmp t' (place cmp k l) := by
  obtain ⟨pre, post, hl, hpre, hpost⟩ := miss_cut h hm
  have hk : k ∉ R.nodes t := fun hk => miss_ne h hm (h.nodes ▸ hk) (hc.refl k)
  have hasc : Ascending cmp (pre ++ k :: post) := (hl ▸ h.ascending).insert_mid hc hpre hpost
  -- whichever side `k` is hung on, it ends up between `pre` and `post`
  suffices hn : ∃ t', (R.insert t p k).eval cmp = .ok t' ∧ R.nodes t' = pre ++ k :: post ∧
      R.count t' = (R.count t).map (· + 1) by
    obtain ⟨t', h₁, h₂, h₃⟩ := hn
    refine ⟨t', h₁, ?_⟩
    rw [hl, place_append hpre hpost]
    refine ⟨h₂, hasc, ?_⟩
    rw [h₃, h.count, hl]
    simp [Except.map]
    omega
  have hcut : ∀ pre₁ post₁, l = pre₁ ++ post₁ → (∀ a ∈ pre₁, 0 < cmp k a) → (∀ a ∈ post₁, cmp k a < 0) →
      pre₁ ++ k :: post₁ = pre ++ k :: post := by
    intro pre₁ post₁ h₁ h₂ h₃
    rw [← place_append h₂ h₃, ← place_append hpre hpost, ← h₁, ← hl]
  have hnd : (inorder (R.shape t)).Nodup := by
    have := h.ascending.nodup hc
    rwa [← h.nodes] at this
  cases hm with
  | empty ht =>
    obtain ⟨t', h₁, h₂, h₃⟩ := hR.insert_root t k ht
    have hl₀ : l = [] := by rw [← h.nodes, RockTree.nodes, ht]; rfl
    refine ⟨t', by rw [h₁]; rfl, ?_, h₃⟩
    rw [h₂]
    exact hcut [] [] hl₀ (by simp) (by simp)
  | below pre₁ post₁ p ht h₁ hp h₂ hfree =>
    obtain ⟨f, hf, hspec⟩ := hR.insert_under t p k
    obtain ⟨s, hs, hi⟩ := hang_before (n := k) hnd ht hfree hp
    obtain ⟨t', h₃, h₄, h₅⟩ := hspec _ s (by omega) hk hs
    refine ⟨t', by rw [hf]; exact h₃, ?_, h₅⟩
    rw [h₄, hi]
    have hfrom : ∀ a ∈ p :: post₁, cmp k a < 0 := List.forall_mem_cons.2 ⟨hp, h₂⟩
    exact hcut pre₁ (p :: post₁) (by rw [← h.nodes, ← ht]; rfl) h₁ hfrom
  | above pre₁ post₁ p ht h₁ hp h₂ hfree =>
    obtain ⟨f, hf, hspec⟩ := hR.insert_under t p k
    obtain ⟨s, hs, hi⟩ := hang_after (n := k) hnd ht hfree hp
    obtain ⟨t', h₃, h₄, h₅⟩ := hspec _ s (by omega) hk hs
    refine ⟨t', by rw [hf]; exact h₃, ?_, h₅⟩
    rw [h₄, hi]
    have hupto : ∀ a ∈ pre₁ ++ [p], 0 < cmp k a :=
      List.forall_mem_append.2 ⟨h₁, List.forall_mem_singleton.2 hp⟩
    have := hcut (pre₁ ++ [p]) post₁ (by rw [← h.nodes, RockTree.nodes, ht]; simp) hupto h₂
    simpa using this

theorem remove_stored {e : P} (he : e ∈ l) :
    ∃ t', R.remove t e = .ok t' ∧ R.Sorted cmp t' (l.erase e) := by
  obtain ⟨t', ht, -, hk⟩ := (h.keeps hc).remove hR.on (fun _ _ => trivial) he
  exact ⟨t', ht, hk.nodes, h.ascending.sublist List.erase_sublist, hk.count⟩

/-- What a search finds: an equal node, or else the place of `k`. -/
theorem find_cases (k : P) :
    (∃ e ∈ l, cmp k e = 0 ∧ (R.find t k).eval cmp = (.ok, some e)) ∨
    (∀ e ∈ l, cmp k e ≠ 0) ∧ ∃ p t', (R.find t k).eval cmp = (.rockTreeNodeNotFound, p) ∧
      (R.insert t p k).eval cmp = .ok t' ∧ R.Sorted cmp t' (place cmp k l) := by
  obtain ⟨r, hr, hends⟩ := find_ends hR hc h k
  cases r with
  | hit e =>
    cases hends with
    | hit pre post _ ht hk => exact .inl ⟨e, by rw [← h.nodes, RockTree.nodes, ht]; simp, hk, hr⟩
  | miss p =>
    obtain ⟨t', h₁, h₂⟩ := insert_miss hR hc h hends
    exact .inr ⟨fun e he => miss_ne h hends he, p, t', hr, h₁, h₂⟩

omit hc in
theorem first_eq : R.first t = l.head?.elim (.error .rockTreeTreeIsEmpty) .ok := by
  rw [hR.on.first_eq t fun _ _ => trivial, h.nodes]

omit hc in
theorem last_eq : R.last t = l.getLast?.elim (.error .rockTreeTreeIsEmpty) .ok := by
  rw [hR.on.last_eq t fun _ _ => trivial, h.nodes]

theorem next_eq {pre post : List P} {e : P} (hl : l = pre ++ e :: post) :
    R.next t e = post.head?.elim (.error .rockTreeEndOfSequence) .ok :=
  (h.keeps hc).next hR.on (fun _ _ => trivial) hl

theorem prev_eq {pre post : List P} {e : P} (hl : l = pre ++ e :: post) :
    R.prev t e = pre.getLast?.elim (.error .rockTreeEndOfSequence) .ok :=
  (h.keeps hc).prev hR.on (fun _ _ => trivial) hl

end

end RockTree

end Coral
