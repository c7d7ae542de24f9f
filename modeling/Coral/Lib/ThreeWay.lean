import Mathlib.Data.List.Sort

/-!
# Three-way comparisons

A comparison answers a negative number, zero or a positive number. `TotalPreorder cmp` says that
these answers come from one total preorder; `Ascending cmp l` that `l` is strictly increasing in it.
`place cmp k l` is `l` with `k` at its sorted place.
-/

namespace ThreeWay

variable {α : Type} {cmp : α → α → Int}

/-- The answers of `cmp` are those of one total preorder. -/
structure TotalPreorder (cmp : α → α → Int) : Prop where
  swap : ∀ a b, cmp a b < 0 ↔ 0 < cmp b a
  trans : ∀ a b c, cmp a b ≤ 0 → cmp b c ≤ 0 → cmp a c ≤ 0

namespace TotalPreorder

theorem refl (h : TotalPreorder cmp) (a : α) : cmp a a = 0 := by
  have := h.swap a a
  omega

theorem zero_comm (h : TotalPreorder cmp) (a b : α) : cmp a b = 0 ↔ cmp b a = 0 := by
  have h₁ := h.swap a b
  have h₂ := h.swap b a
  omega

theorem lt_of_lt_of_le (h : TotalPreorder cmp) {a b c : α} (hab : cmp a b < 0) (hbc : cmp b c ≤ 0) :
    cmp a c < 0 := by
  have hac := h.trans a b c (by omega) hbc
  have hca := h.trans b c a hbc
  have h₁ := h.swap a b
  have h₂ := h.swap a c
  have h₃ := h.swap c a
  omega

theorem lt_of_le_of_lt (h : TotalPreorder cmp) {a b c : α} (hab : cmp a b ≤ 0) (hbc : cmp b c < 0) :
    cmp a c < 0 := by
  have hac := h.trans a b c hab (by omega)
  have hca := h.trans c a b
  have h₁ := h.swap b c
  have h₂ := h.swap a c
  have h₃ := h.swap c a
  omega

theorem lt_trans (h : TotalPreorder cmp) {a b c : α} (hab : cmp a b < 0) (hbc : cmp b c < 0) :
    cmp a c < 0 :=
  h.lt_of_lt_of_le hab (by omega)

/-- A key equal to `b` compares with `c` as `b` does, as far as "below" goes. -/
theorem lt_of_zero_of_lt (h : TotalPreorder cmp) {a b c : α} (hab : cmp a b = 0) (hbc : cmp b c < 0) :
    cmp a c < 0 :=
  h.lt_of_le_of_lt (by omega) hbc

theorem gt_of_zero_of_gt (h : TotalPreorder cmp) {a b c : α} (hab : cmp a b = 0) (hcb : cmp c b < 0) :
    0 < cmp a c :=
  (h.swap c a).1 (h.lt_of_lt_of_le hcb (by have := h.zero_comm a b; omega))

theorem zero_trans (h : TotalPreorder cmp) {a b c : α} (hab : cmp a b = 0) (hbc : cmp b c = 0) :
    cmp a c = 0 := by
  have h₁ := h.trans a b c (by omega) (by omega)
  have h₂ := h.trans c b a (by have := h.zero_comm b c; omega) (by have := h.zero_comm a b; omega)
  have h₃ := h.swap a c
  omega

end TotalPreorder

/-- `l` is strictly increasing. -/
def Ascending (cmp : α → α → Int) (l : List α) : Prop := l.Pairwise fun a b => cmp a b < 0

theorem ascending_nil : Ascending cmp [] := List.Pairwise.nil

theorem ascending_append {l₁ l₂ : List α} : Ascending cmp (l₁ ++ l₂) ↔
    Ascending cmp l₁ ∧ Ascending cmp l₂ ∧ ∀ a ∈ l₁, ∀ b ∈ l₂, cmp a b < 0 := List.pairwise_append

theorem ascending_cons {a : α} {l : List α} : Ascending cmp (a :: l) ↔
    (∀ b ∈ l, cmp a b < 0) ∧ Ascending cmp l := List.pairwise_cons

namespace Ascending

theorem nodup (hc : TotalPreorder cmp) {l : List α} (h : Ascending cmp l) : l.Nodup :=
  h.imp fun {a b} hab he => by
    have := hc.refl b
    subst he
    omega

theorem sublist {l l' : List α} (h : Ascending cmp l) (hs : l'.Sublist l) : Ascending cmp l' :=
  List.Pairwise.sublist hs h

theorem head_lt {a b : α} {l : List α} (h : Ascending cmp (a :: l)) (hb : b ∈ l) : cmp a b < 0 :=
  (ascending_cons.1 h).1 b hb

theorem lt_mid {a b : α} {pre post : List α} (h : Ascending cmp (pre ++ b :: post)) (ha : a ∈ pre) :
    cmp a b < 0 :=
  (ascending_append.1 h).2.2 a ha b (List.mem_cons_self ..)

theorem mid_lt {a b : α} {pre post : List α} (h : Ascending cmp (pre ++ a :: post)) (hb : b ∈ post) :
    cmp a b < 0 :=
  head_lt (ascending_append.1 h).2.1 hb

theorem eq_of_zero (hc : TotalPreorder cmp) {l : List α} (h : Ascending cmp l) {a b : α} (ha : a ∈ l)
    (hb : b ∈ l) (hab : cmp a b = 0) : a = b := by
  obtain ⟨pre, post, rfl⟩ := List.append_of_mem ha
  have hba := (hc.zero_comm a b).1 hab
  rcases List.mem_append.1 hb with hb | hb
  · have := h.lt_mid hb
    omega
  rcases List.mem_cons.1 hb with rfl | hb
  · rfl
  · have := h.mid_lt hb
    omega

theorem find?_eq (hc : TotalPreorder cmp) {l : List α} (h : Ascending cmp l) {k e : α} (he : e ∈ l)
    (hk : cmp k e = 0) : l.find? (fun a => cmp k a = 0) = some e := by
  cases hf : l.find? (fun a => cmp k a = 0) with
  | none => exact absurd hk (by simpa using List.find?_eq_none.1 hf e he)
  | some a =>
    have hka : cmp k a = 0 := by simpa using List.find?_some hf
    rw [h.eq_of_zero hc (List.mem_of_find?_eq_some hf) he (hc.zero_trans ((hc.zero_comm k a).1 hka) hk)]

/-- A key fits between the members below it and the members above it. -/
theorem insert_mid (hc : TotalPreorder cmp) {k : α} {pre post : List α} (h : Ascending cmp (pre ++ post))
    (hpre : ∀ a ∈ pre, 0 < cmp k a) (hpost : ∀ a ∈ post, cmp k a < 0) :
    Ascending cmp (pre ++ k :: post) := by
  obtain ⟨h₁, h₂, h₃⟩ := ascending_append.1 h
  refine ascending_append.2 ⟨h₁, ascending_cons.2 ⟨hpost, h₂⟩, ?_⟩
  intro a ha b hb
  rcases List.mem_cons.1 hb with rfl | hb
  · exact (hc.swap a b).2 (hpre a ha)
  · exact h₃ a ha b hb

theorem cut_hit (hc : TotalPreorder cmp) {k a : α} {pre post : List α}
    (h : Ascending cmp (pre ++ a :: post)) (hk : cmp k a = 0) :
    (∀ b ∈ pre, 0 < cmp k b) ∧ ∀ b ∈ post, cmp k b < 0 :=
  ⟨fun _ hb => hc.gt_of_zero_of_gt hk (h.lt_mid hb), fun _ hb => hc.lt_of_zero_of_lt hk (h.mid_lt hb)⟩

/-- What comes after a member are the members above it. -/
theorem mem_above (hc : TotalPreorder cmp) {a b : α} {pre post : List α}
    (h : Ascending cmp (pre ++ a :: post)) : b ∈ post ↔ b ∈ pre ++ a :: post ∧ cmp a b < 0 := by
  obtain ⟨hpre, hpost⟩ := h.cut_hit hc (hc.refl a)
  refine ⟨fun hb => ⟨List.mem_append_right pre (List.mem_cons_of_mem a hb), hpost b hb⟩, ?_⟩
  rintro ⟨hb, hab⟩
  rcases List.mem_append.1 hb with hb | hb
  · have := hpre b hb
    omega
  rcases List.mem_cons.1 hb with rfl | hb
  · have := hc.refl b
    omega
  · exact hb

theorem eq_of_perm (hc : TotalPreorder cmp) {l l' : List α} (h : Ascending cmp l)
    (h' : l'.Pairwise fun a b => cmp a b ≤ 0) (hp : l.Perm l') : l = l' := by
  refine hp.eq_of_pairwise ?_ (h.imp fun {a b} hab => by omega) h'
  intro a b ha hb hab hba
  have := hc.swap a b
  exact h.eq_of_zero hc ha (hp.mem_iff.2 hb) (by omega)

/-- An ascending list is determined by its members. -/
theorem eq_of_same (hc : TotalPreorder cmp) {l l' : List α} (h : Ascending cmp l) (h' : Ascending cmp l')
    (hm : ∀ a, a ∈ l ↔ a ∈ l') : l = l' :=
  h.eq_of_perm hc (h'.imp fun {a b} hab => by omega)
    ((List.perm_ext_iff_of_nodup (h.nodup hc) (h'.nodup hc)).2 hm)

end Ascending

/-- The members of `l`, sorted. -/
def sorted (cmp : α → α → Int) (l : List α) : List α := l.insertionSort fun a b => cmp a b ≤ 0

theorem sorted_eq (hc : TotalPreorder cmp) {l S : List α} (hS : Ascending cmp S) (hp : S.Perm l) :
    sorted cmp l = S := by
  have : Std.Total fun a b => cmp a b ≤ 0 := ⟨fun a b => by have := hc.swap a b; omega⟩
  have : IsTrans α fun a b => cmp a b ≤ 0 := ⟨hc.trans⟩
  exact (hS.eq_of_perm hc (List.pairwise_insertionSort _ l) (hp.trans (List.perm_insertionSort _ l).symm)).symm

/-! ### Cuts -/

section cut
variable {sel : α → Prop} [DecidablePred sel] {pre post : List α}

/-- Where the selected members come first, they are the ones before the cut. -/
theorem filter_cut (hpre : ∀ a ∈ pre, sel a) (hpost : ∀ a ∈ post, ¬ sel a) :
    (pre ++ post).filter (fun a => sel a) = pre := by
  have h₁ : pre.filter (fun a => sel a) = pre := by simpa using hpre
  have h₂ : post.filter (fun a => sel a) = [] := by simpa using hpost
  rw [List.filter_append, h₁, h₂, List.append_nil]

/-- Where the selected members come last, the first one is behind the cut. -/
theorem find?_cut (hpre : ∀ a ∈ pre, ¬ sel a) (hpost : ∀ a ∈ post, sel a) :
    (pre ++ post).find? (fun a => sel a) = post.head? := by
  have h : pre.find? (fun a => sel a) = none := by simpa using hpre
  rw [List.find?_append, h, Option.none_or]
  cases post with
  | nil => rfl
  | cons b post => simp [hpost b (List.mem_cons_self ..)]

end cut

/-- `e` is the least member of `l` that `sel` selects. -/
def Least (cmp : α → α → Int) (sel : α → Prop) (l : List α) (e : α) : Prop :=
  e ∈ l ∧ sel e ∧ ∀ a ∈ l, sel a → ¬ cmp a e < 0

/-- `e` is the greatest member of `l` that `sel` selects. -/
def Greatest (cmp : α → α → Int) (sel : α → Prop) (l : List α) (e : α) : Prop :=
  e ∈ l ∧ sel e ∧ ∀ a ∈ l, sel a → ¬ 0 < cmp a e

section best
variable {sel : α → Prop} {pre post : List α} {e e' : α}

theorem Ascending.least (hc : TotalPreorder cmp) (h : Ascending cmp (pre ++ e :: post))
    (hpre : ∀ a ∈ pre, ¬ sel a) (he : sel e) : Least cmp sel (pre ++ e :: post) e := by
  refine ⟨by simp, he, ?_⟩
  intro a ha hsel hlt
  rcases List.mem_append.1 ha with ha | ha
  · exact hpre a ha hsel
  rcases List.mem_cons.1 ha with rfl | ha
  · have := hc.refl a
    omega
  · have := (hc.swap e a).1 (h.mid_lt ha)
    omega

theorem Ascending.greatest (hc : TotalPreorder cmp) (h : Ascending cmp (pre ++ e :: post))
    (hpost : ∀ a ∈ post, ¬ sel a) (he : sel e) : Greatest cmp sel (pre ++ e :: post) e := by
  refine ⟨by simp, he, ?_⟩
  intro a ha hsel hgt
  rcases List.mem_append.1 ha with ha | ha
  · have := h.lt_mid ha
    omega
  rcases List.mem_cons.1 ha with rfl | ha
  · have := hc.refl a
    omega
  · exact hpost a ha hsel

theorem Least.unique (hc : TotalPreorder cmp) {l : List α} (hs : Ascending cmp l)
    (h : Least cmp sel l e) (h' : Least cmp sel l e') : e = e' := by
  have h₁ := h.2.2 e' h'.1 h'.2.1
  have h₂ := h'.2.2 e h.1 h.2.1
  have h₃ := hc.swap e' e
  exact hs.eq_of_zero hc h.1 h'.1 (by omega)

end best

/-- `l` with `k` in front of the first member above it. -/
def place (cmp : α → α → Int) (k : α) (l : List α) : List α :=
  l.orderedInsert (fun a b => cmp a b < 0) k

theorem place_append {k : α} {pre post : List α} (hpre : ∀ a ∈ pre, 0 < cmp k a)
    (hpost : ∀ a ∈ post, cmp k a < 0) : place cmp k (pre ++ post) = pre ++ k :: post := by
  induction pre with
  | nil =>
    cases post with
    | nil => rfl
    | cons b post => simp [place, hpost b (List.mem_cons_self ..)]
  | cons b pre ih =>
    have hb : ¬ cmp k b < 0 := by have := hpre b (List.mem_cons_self ..); omega
    have := ih fun a ha => hpre a (List.mem_cons_of_mem _ ha)
    simpa [place, List.orderedInsert, hb] using this

end ThreeWay
