import Coral.Lib.Nested
import Coral.Lib.Lockstep
import Coral.Lifetime

/-!
# Compare functions that look into another container

A compare function may itself read another container `D` (`Decision`) before it answers. The read makes
`D` the current container of the thread, and nothing makes the first one current again: the next
comparison is then decided by the compare function of `D`. `nested_faithful_iff` says exactly when a
call on `C` is not disturbed: when of all its comparisons only the last may have read `D`.
-/

namespace Coral

namespace RedBlackTreeContainer
open Prog SearchTree ThreeWay

variable {P O : Type} {R : RockTree P}

/-- A read of another container. -/
structure Read (P : Type) where
  query : Query
  key : Option P
  out : Out (Option P)

/-- How a comparison is decided: reads, each of which may depend on those before, and an answer. -/
inductive Decision (P : Type) where
  | answer (c : Int)
  | read (r : Read P) (k : Code × Out (Option P) → Decision P)

inductive Comparator (P : Type) where
  | pure (cmp : P → P → Int)
  | nested (decide : P → P → Decision P)

/-- Compare functions in which those that read another container are replaced by `ans`. -/
def Comparator.replaced (ans : P → P → Int) : Comparator P → P → P → Int
  | .pure cmp => cmp
  | .nested _ => ans

theorem answer_replaced (ans : P → P → Int) (s : RedBlackTreeContainer R (Comparator P)) (a b : P) :
    answer (Comparator.replaced ans) s a b = s.compare.map fun f => f.replaced ans a b :=
  rfl

/-- The container is compared without a side effect. -/
def pureAnswer (this : RedBlackTreeContainer R (Comparator P)) (a b : P) : Option Int :=
  match this.compare with
  | some (.pure cmp) => some (cmp a b)
  | _ => none

section
variable [DecidableEq O] (D : O)

def Read.run (r : Read P) (w : World O (RedBlackTreeContainer R (Comparator P)) (Event P)) :
    Option ((Code × Out (Option P)) × World O (RedBlackTreeContainer R (Comparator P)) (Event P)) :=
  (RedBlackTreeContainer.query (some D) r.key r.out r.query).run pureAnswer w

def Decision.run : Decision P → World O (RedBlackTreeContainer R (Comparator P)) (Event P) →
    Option (Int × World O (RedBlackTreeContainer R (Comparator P)) (Event P))
  | .answer c, w => some (c, w)
  | .read r k, w => (r.run D w).bind fun x => (k x.1).run x.2

/-- The read gets as far as making the other container the current one. -/
def Read.Selects (r : Read P) : Bool := r.key.isSome && r.out.isSome

/-- The comparison makes the other container the current one. -/
def Decision.reads (w : World O (RedBlackTreeContainer R (Comparator P)) (Event P)) : Decision P → Bool
  | .answer _ => false
  | .read r k => r.Selects || (r.run D w).elim false fun x => (k x.1).reads w

/-- The call of `(*this)->compare` that `entity_compare` makes, `this` being the current container. -/
def comparison (this : O) (a b : P) (w : World O (RedBlackTreeContainer R (Comparator P)) (Event P)) :
    Option (Int × World O (RedBlackTreeContainer R (Comparator P)) (Event P)) :=
  match (w.mem this).compare with
  | none => none
  | some (.pure cmp) => some (cmp a b, w)
  | some (.nested decide) => (decide a b).run D w

end

/-- The calls that compare. -/
inductive Search (P : Type) where
  | add (entry : Option P)
  | query (q : Query) (key : Option P) (out : Out (Option P))

namespace Search

def call : Search P → Call P (Comparator P)
  | .add entry => .add entry
  | .query q key out => .query q key out

/-- What is searched for, if the call gets that far. -/
def key? : Search P → Option P
  | .add entry => entry
  | .query _ _ none => none
  | .query _ key (some _) => key

/-- The comparisons after a search for `key` that ended so. -/
def finish (key : P) : Search P → Found P → List (P × P)
  | .query .get _ _, _ => []
  | .query .lower _ _, .hit a => [(key, a)]
  | _, .miss (some p) => [(key, p)]
  | _, _ => []

/-- The comparisons of a call on a container with the tree `t`, answered by `ans`. -/
def comparisons (ans : P → P → Int) (t : BinaryTree P) (s : Search P) : List (P × P) :=
  s.key?.elim [] fun key =>
    (descend key none t).asked ans ++ s.finish key ((descend key none t).eval ans)

end Search

theorem asked_find [DecidableEq P] (hR : R.Lawful) {α : Type} (ans : P → P → Int) (object : O) (key : P)
    (k : Code × Option P → M O R (Comparator P) α) (s : RedBlackTreeContainer R (Comparator P)) :
    ((layout.find object key).bind k).asked ans s = (descend key none (R.shape s.tree)).asked ans ++
      (k (RockTree.findResult ((descend key none (R.shape s.tree)).eval ans))).asked ans s := by
  show ((Prog.lift (R.find s.tree key)).bind k).asked ans s = _
  rw [asked_lift_bind, hR.find_eq, Ask.asked_map, Ask.eval_map]

/-- Inserting below a node compares once more, with that node. -/
theorem asked_insertNode [DecidableEq P] (hR : R.Lawful) (ans : P → P → Int) (object : O) (n : P)
    (s : RedBlackTreeContainer R (Comparator P)) {last : Option P}
    (hlast : last = none → R.shape s.tree = .nil) :
    (layout.insertNode object last n : M O R (Comparator P) Unit).asked ans s =
      last.elim [] fun p => [(n, p)] := by
  show ((Prog.lift (R.insert s.tree last n)).bind _).asked ans s = _
  rw [asked_lift_bind]
  rcases last with _ | p
  · obtain ⟨t', h, -, -⟩ := hR.insert_root s.tree n (hlast rfl)
    rw [h]
    rfl
  · obtain ⟨g, h, -⟩ := hR.insert_under s.tree p n
    rw [h]
    have htail : ((required (g (ans n p))).bind fun tree => store object { s with tree } (ret ()) :
        M O R (Comparator P) Unit).Stays object (fun _ => True) false :=
      .bind (required_stays _) fun _ => ⟨rfl, trivial, trivial⟩
    exact congrArg ((n, p) :: ·) (htail.asked_eq_nil ans s)

/-- The comparisons a call makes. -/
theorem asked_search [DecidableEq P] (hR : R.Lawful) (ans : P → P → Int) (object : O) (search : Search P)
    (s : RedBlackTreeContainer R (Comparator P)) :
    ((search.call.exec object : M O R _ _).asked ans s) = search.comparisons ans (R.shape s.tree) := by
  cases search with
  | add entry =>
    refine (asked_bind_ret ans _ _ s).trans ?_
    rcases entry with _ | key
    · rfl
    refine (asked_find hR ans object key _ s).trans (congrArg (_ ++ ·) ?_)
    cases h : (descend key none (R.shape s.tree)).eval ans with
    | hit a => rfl
    | miss last =>
      show ((layout.insertNode object last key).bind fun _ => ret Code.ok).asked ans s = _
      rw [asked_bind_ret, asked_insertNode hR ans object key s fun hl => eq_nil_of_descend (hl ▸ h)]
      rcases last with _ | p <;> rfl
  | query q key out =>
    refine (asked_bind_ret ans _ _ s).trans ?_
    rcases key with _ | key
    · cases q <;> cases out <;> rfl
    rcases out with _ | v
    · cases q <;> rfl
    -- what follows the last comparison asks nothing
    have hfound : ∀ {c : Prop} [Decidable c] (p : P), (if c then ret (.rockTreeNodeNotFound, some v)
        else found (some p) : M O R (Comparator P) _).Stays object (fun _ => True) false :=
      fun p => .ite (.ret _) (found_stays _)
    have hprev : ∀ {c : Prop} [Decidable c] (p : P), (if c then layout.stepOrNotFound R.prev object p (some v)
        else found (some p) : M O R (Comparator P) _).Stays object (fun _ => True) false :=
      fun p => .ite (Layout.stepOrNotFound_stays _ _) (found_stays _)
    cases q with
    | get =>
      refine (asked_find hR ans object key _ s).trans (congrArg (_ ++ ·) ?_)
      rcases (descend key none (R.shape s.tree)).eval ans with a | last <;> rfl
    | ceiling =>
      refine (asked_find hR ans object key _ s).trans (congrArg (_ ++ ·) ?_)
      rcases (descend key none (R.shape s.tree)).eval ans with a | _ | p
      · rfl
      · rfl
      · exact congrArg ((key, p) :: ·) ((hfound p).asked_eq_nil ans s)
    | floor =>
      refine (asked_find hR ans object key _ s).trans (congrArg (_ ++ ·) ?_)
      rcases (descend key none (R.shape s.tree)).eval ans with a | _ | p
      · rfl
      · rfl
      · exact congrArg ((key, p) :: ·) ((hprev p).asked_eq_nil ans s)
    | higher =>
      have hnext : ∀ p, (layout.stepOrNotFound R.next object p (some v) :
          M O R (Comparator P) _).Stays object (fun _ => True) false := fun p => Layout.stepOrNotFound_stays _ _
      refine (asked_find hR ans object key _ s).trans (congrArg (_ ++ ·) ?_)
      rcases (descend key none (R.shape s.tree)).eval ans with a | _ | p
      · exact (hnext a).asked_eq_nil ans s
      · rfl
      · exact congrArg ((key, p) :: ·) ((hfound p).asked_eq_nil ans s)
    | lower =>
      refine (asked_find hR ans object key _ s).trans (congrArg (_ ++ ·) ?_)
      rcases (descend key none (R.shape s.tree)).eval ans with a | _ | p
      · exact congrArg ((key, a) :: ·) ((hprev a).asked_eq_nil ans s)
      · rfl
      · exact congrArg ((key, p) :: ·) ((hprev p).asked_eq_nil ans s)

section
variable [DecidableEq O] {cmp : P → P → Int} {decide : P → P → Decision P} {C D : O} {S : List P}
  {w w' : World O (RedBlackTreeContainer R (Comparator P)) (Event P)}

/-- What two containers can become on one thread, `D` ordered by `cmp` and `C` by `decide`. -/
inductive ReachableBoth (cmp : P → P → Int) (decide : P → P → Decision P) (C D : O) :
    World O (RedBlackTreeContainer R (Comparator P)) (Event P) → Prop where
  | start {w : _} (hC : (w.mem C).compare = none) (hD : (w.mem D).compare = none) :
      ReachableBoth cmp decide C D w
  | onC {w w' a} (c : Call P (Comparator P)) (h : ReachableBoth cmp decide C D w)
      (ha : c.Allowed (.nested decide) C w)
      (hrun : (c.exec C).runWith (comparison D) w = some (a, w')) : ReachableBoth cmp decide C D w'
  | onD {w w' a} (c : Call P (Comparator P)) (h : ReachableBoth cmp decide C D w)
      (ha : c.Allowed (.pure cmp) D w)
      (hrun : (c.exec D).runWith (comparison D) w = some (a, w')) : ReachableBoth cmp decide C D w'

/-- The call is what it is with the pure compare function `ans`, and every comparison it makes is
decided by the compare function of `C`. -/
structure Faithful (C D : O) (ans : P → P → Int)
    (w : World O (RedBlackTreeContainer R (Comparator P)) (Event P)) (s : Search P) : Prop where
  same : ((s.call.exec C).runWith (comparison D) w).map (fun r => (r.1, r.2.mem C)) =
    ((s.call.exec C).run (answer (Comparator.replaced ans)) w).map fun r => (r.1, r.2.mem C)
  own : (s.call.exec C).OnlyBy C (comparison D) w

/-- The compare function of the container is `f`, if it has one. -/
def ComparesBy (f : Comparator P) (s : RedBlackTreeContainer R (Comparator P)) : Prop :=
  ∀ f', s.compare = some f' → f' = f

omit [DecidableEq O] in
theorem writable_comparesBy (f : Comparator P) : Writable (R := R) (ComparesBy f) := by
  constructor
  · intro f' hf
    cases hf
  · intro s tree hs f' hf
    exact hs f' hf

omit [DecidableEq O] in
theorem within_comparesBy {f : Comparator P} {c : Call P (Comparator P)} (ha : c.Allowed f C w) :
    (c.exec C : M O R _ _).Within C (ComparesBy f) := by
  refine Call.within (writable_comparesBy f) ?_
  rintro f' rfl tree f'' hf
  obtain rfl := ha f' rfl
  exact (Option.some.inj hf).symm

theorem run_pureAnswer (ans : P → P → Int) (r : Read P) (hD : ComparesBy (.pure cmp) (w.mem D)) :
    r.run D w = (RedBlackTreeContainer.query (some D) r.key r.out r.query).run (answer (Comparator.replaced ans)) w := by
  refine (query_within r.query r.key).runWith_plain ?_ hD
  intro w a b hw
  rw [plain, plain, answer_replaced, pureAnswer]
  cases hf : (w.mem D).compare with
  | none => rfl
  | some f =>
    obtain rfl := hw f hf
    rfl

theorem comparison_eq_plain (ans : P → P → Int) (a b : P) (hD : ComparesBy (.pure cmp) (w.mem D)) :
    comparison D D a b w = plain (answer (Comparator.replaced ans)) D a b w := by
  rw [plain, answer_replaced, comparison]
  cases hf : (w.mem D).compare with
  | none => rfl
  | some f =>
    obtain rfl := hD f hf
    rfl

theorem query_current {F : Type} {answer : RedBlackTreeContainer R F → P → P → Option Int} {object : O}
    {w w' : World O (RedBlackTreeContainer R F) (Event P)} (q : Query) (key : Option P)
    (out : Out (Option P)) {r : Code × Out (Option P)}
    (hrun : (RedBlackTreeContainer.query (some object) key out q).run answer w = some (r, w')) :
    w'.current = if key.isSome && out.isSome then some object else w.current := by
  rcases key with _ | key
  · have hret : (RedBlackTreeContainer.query (some object) none out q : M O R F _) =
        .ret (.seaUrchinKeyIsNull, out) := by cases q <;> rfl
    rw [hret] at hrun
    obtain ⟨-, rfl⟩ := Prod.mk.inj (Option.some.inj hrun)
    rfl
  rcases out with _ | v
  · have hret : (RedBlackTreeContainer.query (some object) (some key) none q : M O R F _) =
        .ret (.seaUrchinOutIsNull, none) := by cases q <;> rfl
    rw [hret] at hrun
    obtain ⟨-, rfl⟩ := Prod.mk.inj (Option.some.inj hrun)
    rfl
  · obtain ⟨body, hbody⟩ : ∃ body, (RedBlackTreeContainer.query (some object) (some key) (some v) q :
        M O R F _) = .select object body := by cases q <;> exact ⟨_, rfl⟩
    have hwithin : (RedBlackTreeContainer.query (some object) (some key) (some v) q : M O R F _).Within object
      fun _ => True := query_within q (some key)
    rw [hbody] at hrun hwithin
    cases hwithin with
    | stays h => exact h.elim
    | enters h => exact h.current_eq hrun

theorem Read.run_mem (r : Read P) {x : Code × Out (Option P)} (hrun : r.run D w = some (x, w')) :
    w'.mem = w.mem :=
  Within.mem_eq plain_mem (query_within r.query r.key) hrun

theorem Decision.run_mem (d : Decision P) {c : Int} (hrun : d.run D w = some (c, w')) : w'.mem = w.mem := by
  induction d generalizing w with
  | answer c => exact congrArg World.mem (Prod.mk.inj (Option.some.inj hrun)).2.symm
  | read r k ih =>
    obtain ⟨⟨x, w₁⟩, h₁, h₂⟩ := Option.bind_eq_some_iff.1 hrun
    exact (ih x h₂).trans (Read.run_mem r h₁)

theorem comparison_mem (o : O) (a b : P) (w : World O (RedBlackTreeContainer R (Comparator P)) (Event P))
    (r : Int × World O (RedBlackTreeContainer R (Comparator P)) (Event P))
    (h : comparison D o a b w = some r) : r.2.mem = w.mem := by
  unfold comparison at h
  split at h
  · cases h
  · obtain rfl := Option.some.inj h
    rfl
  · exact Decision.run_mem _ h

theorem ReachableBoth.comparesBy (hCD : D ≠ C) (h : ReachableBoth cmp decide C D w) :
    ComparesBy (.nested decide) (w.mem C) ∧ ComparesBy (.pure cmp) (w.mem D) := by
  induction h with
  | start hC hD => exact ⟨fun f hf => by simp [hC] at hf, fun f hf => by simp [hD] at hf⟩
  | onC c _ ha hrun ih =>
    obtain ⟨hin, hout⟩ := (within_comparesBy ha).kept comparison_mem ih.1 hrun
    exact ⟨hin, by rw [hout D hCD]; exact ih.2⟩
  | onD c _ ha hrun ih =>
    obtain ⟨hin, hout⟩ := (within_comparesBy ha).kept comparison_mem ih.2 hrun
    exact ⟨by rw [hout C hCD.symm]; exact ih.1, hin⟩

/-! ### What a comparison comes to -/

/-- A read depends on what `D` stores only, and leaves `D` selected. -/
theorem Read.run_eq (r : Read P) {x : Code × Out (Option P)} (hrun : r.run D w = some (x, w'))
    {v : World O (RedBlackTreeContainer R (Comparator P)) (Event P)} (hmem : v.mem D = w.mem D) :
    ∃ v', r.run D v = some (x, v') ∧ v'.mem = v.mem ∧
      v'.current = if r.Selects then some D else v.current := by
  have hwithin : (RedBlackTreeContainer.query (some D) r.key r.out r.query : M O R (Comparator P) _).Within D
    fun _ => True := query_within r.query r.key
  have hlock : Lock pureAnswer pureAnswer Eq D false _ _ := hwithin.lock
  have hat : At Eq D false w v := ⟨hmem.symm, fun hb => absurd hb Bool.false_ne_true⟩
  rcases (hlock w v hat).cases with ⟨hn, -⟩ | ⟨x', w₁, v', hw, hv, -⟩
  · cases hrun.symm.trans hn
  · obtain ⟨rfl, -⟩ := Prod.mk.inj (Option.some.inj (hrun.symm.trans hw))
    exact ⟨v', hv, Read.run_mem r hv, query_current r.query r.key r.out hv⟩

/-- A comparison depends on what `D` stores only, and leaves `D` selected if it reads it. -/
theorem Decision.run_eq (d : Decision P) {c : Int} (hrun : d.run D w = some (c, w'))
    {v : World O (RedBlackTreeContainer R (Comparator P)) (Event P)} (hmem : v.mem D = w.mem D) :
    ∃ v', d.run D v = some (c, v') ∧ v'.mem = v.mem ∧
      v'.current = if d.reads D w then some D else v.current := by
  induction d generalizing w w' v with
  | answer c' =>
    obtain ⟨rfl, -⟩ := Prod.mk.inj (Option.some.inj hrun)
    exact ⟨v, rfl, rfl, rfl⟩
  | read r k ih =>
    obtain ⟨⟨x, w₁⟩, h₁, h₂⟩ := Option.bind_eq_some_iff.1 hrun
    have hw₁ : w.mem D = w₁.mem D := by rw [Read.run_mem r h₁]
    -- what follows the read, from `w` itself: this is what `reads` looks at
    obtain ⟨u, hu, -, -⟩ := ih x h₂ hw₁
    obtain ⟨v₁, hv₁, hmem₁, hcur₁⟩ := Read.run_eq r h₁ hmem
    obtain ⟨v₂, hv₂, hmem₂, hcur₂⟩ := ih x hu (v := v₁) (by rw [hmem₁, hmem])
    refine ⟨v₂, ?_, hmem₂.trans hmem₁, ?_⟩
    · rw [Decision.run, hv₁]
      exact hv₂
    · have hreads : (Decision.read r k).reads D w = (r.Selects || (k x).reads D w) := by
        rw [Decision.reads, h₁]
        rfl
      rw [hcur₂, hcur₁, hreads]
      cases r.Selects <;> cases (k x).reads D w <;> rfl

/-- The comparisons of `C` come to the answers `ans`, with `D` as it is in `w`. -/
def Computes (D : O) (decide : P → P → Decision P) (ans : P → P → Int)
    (w : World O (RedBlackTreeContainer R (Comparator P)) (Event P)) : Prop :=
  ∀ a b, ∃ w', (decide a b).run D w = some (ans a b, w')

section
variable [DecidableEq P] (hR : R.Lawful)
include hR

/-- `D`, ordered by a total preorder, is in order in every state the two containers can be in. -/
theorem ReachableBoth.usable (hc : TotalPreorder cmp) (hCD : D ≠ C) (ans : P → P → Int)
    (h : ReachableBoth cmp decide C D w) : Usable (Comparator.replaced ans) (.pure cmp) D w := by
  induction h with
  | start hC hD => exact .inl hD
  | onC c h ha hrun ih =>
    obtain ⟨-, hout⟩ := (within_comparesBy ha).kept comparison_mem (h.comparesBy hCD).1 hrun
    exact ih.congr (hout D hCD)
  | onD c h ha hrun ih =>
    have hplain := (within_comparesBy (R := R) ha).runWith_plain
      (fun w a b => comparison_eq_plain ans a b) (h.comparesBy hCD).2
    rw [hplain] at hrun
    exact ih.after_call hR hc ha hrun

theorem Decision.returns {ans : P → P → Int} (hc : TotalPreorder cmp)
    (h : Holds (Comparator.replaced ans) (.pure cmp) D S w) (d : Decision P) :
    ∃ c w', d.run D w = some (c, w') := by
  induction d generalizing w with
  | answer c => exact ⟨c, w, rfl⟩
  | read r k ih =>
    have hD : ComparesBy (.pure cmp) (w.mem D) := fun f hf =>
      Option.some.inj (hf.symm.trans h.compare)
    obtain ⟨x, hx⟩ := query_returns hR hc h r.query r.key r.out
    have hread : r.run D w = some (x, if r.Selects then w.enter D else w) :=
      (run_pureAnswer ans r hD).trans hx
    obtain ⟨c, w', hk⟩ := ih x (h.congr (congrFun (Read.run_mem r hread) D))
    refine ⟨c, w', ?_⟩
    rw [Decision.run, hread]
    exact hk

theorem ReachableBoth.computes (hc : TotalPreorder cmp) (hCD : D ≠ C) (h : ReachableBoth cmp decide C D w)
    (hD : (w.mem D).compare.isSome) : ∃ ans, Computes D decide ans w := by
  obtain ⟨fD, hfD⟩ := Option.isSome_iff_exists.1 hD
  have hholds := ((h.usable hR hc hCD fun _ _ => 0).holds hfD).2
  choose ans hans using fun a b => Decision.returns hR hc hholds (decide a b)
  exact ⟨ans, hans⟩

/-- A call on `C` is undisturbed exactly when no comparison before its last one reads `D`. That the
comparisons come to answers is no assumption about `D` when its order is a total preorder. -/
theorem nested_faithful_iff (hCD : D ≠ C) (h : ReachableBoth cmp decide C D w)
    (hC : (w.mem C).compare.isSome) :
    (TotalPreorder cmp → (w.mem D).compare.isSome → ∃ ans, Computes D decide ans w) ∧
    ∀ ans, Computes D decide ans w → ∀ s : Search P, Faithful C D ans w s ↔
      ∀ q ∈ (s.comparisons ans (R.shape (w.mem C).tree)).dropLast, (decide q.1 q.2).reads D w = false := by
  refine ⟨fun hc hD => h.computes hR hc hCD hD, ?_⟩
  intro ans hans s
  obtain ⟨fC, hfC⟩ := Option.isSome_iff_exists.1 hC
  obtain rfl := (h.comparesBy hCD).1 fC hfC
  have hcall : Callback C D (fun s => s.compare = some (.nested decide)) (w.mem D) ans
      (fun a b => (decide a b).reads D w) (comparison (R := R) D) := by
    intro v a b hv hmem
    unfold comparison
    rw [hv]
    obtain ⟨w', hw'⟩ := hans a b
    exact Decision.run_eq (decide a b) hw' hmem
  have hwithin : (s.call.exec C : M O R (Comparator P) _).Within C
      fun s => s.compare = some (.nested decide) := by
    cases s with
    | add entry => exact .bind (add_within (fun _ _ hs => hs) entry) fun _ => .ret _
    | query q key out => exact .bind (query_within q key) fun _ => .ret _
  have hiff := hwithin.onlyBy_iff hcall hCD hfC rfl
  rw [asked_search hR ans C s] at hiff
  refine ⟨fun hf => hiff.1 hf.own, fun hcond => ⟨?_, hiff.2 hcond⟩⟩
  have hpure : ∀ s : RedBlackTreeContainer R (Comparator P), s.compare = some (.nested decide) →
      ∀ a b, answer (Comparator.replaced ans) s a b = some (ans a b) := by
    intro s hs a b
    exact Layout.answer_eq (C := layout) hs a b
  have heq := hwithin.runWith_eq hpure hcall hCD hfC rfl (hiff.2 hcond)
  have hproj := congrArg (Option.map fun r : Reply P × (O → RedBlackTreeContainer R (Comparator P)) =>
    (r.1, r.2 C)) heq
  rwa [Option.map_map, Option.map_map] at hproj

end

end

section example_

/-- Two containers, not in use yet. -/
def unused : World Bool (RedBlackTreeContainer (Reference.tree : RockTree Nat) (Comparator Nat))
    (Event Nat) :=
  ⟨none, fun _ => zero, []⟩

def descending (a b : Nat) : Int := Reference.compare () b a

theorem descending_total : TotalPreorder descending where
  swap a b := by unfold descending Reference.compare; omega
  trans a b c := by unfold descending Reference.compare; omega

/-- The order of the numbers, found out after a look into the other container. -/
def afterGet (a b : Nat) : Decision Nat :=
  .read ⟨.get, some a, some none⟩ fun _ => .answer (Reference.compare () a b)

theorem nested_faithful_iff_example : ∃ w, ReachableBoth descending afterGet false true w ∧
    Reference.tree.nodes (w.mem false).tree = [20] ∧ (∃ ans, Computes true afterGet ans w) ∧
    Computes true afterGet (Reference.compare ()) w ∧
    ∀ s : Search Nat, Faithful false true (Reference.compare ()) w s ↔
      ∀ q ∈ (s.comparisons (Reference.compare ()) (Reference.tree.shape (w.mem false).tree)).dropLast,
        (afterGet q.1 q.2).reads true w = false := by
  have hw : ReachableBoth descending afterGet false true _ :=
    .onC (.add (some 20)) (.onD (.init (some (.pure descending)))
      (.onC (.init (some (.nested afterGet))) (.start (w := unused) rfl rfl)
        (fun f hf => (Option.some.inj hf).symm) rfl) (fun f hf => (Option.some.inj hf).symm) rfl) trivial rfl
  obtain ⟨hcomputes, hiff⟩ := nested_faithful_iff Reference.tree_lawful (by decide) hw rfl
  exact ⟨_, hw, by decide, hcomputes descending_total rfl, fun a b => ⟨_, rfl⟩,
    hiff _ fun a b => ⟨_, rfl⟩⟩

/-- With 20 stored in `C`, the search for 30 reads `D` to compare it with 20; `floor` then compares them
once more, by the order of `D`, and misses 20. In the same way 10 is added on the wrong side. -/
theorem nested_misleads : ∃ w, ReachableBoth descending afterGet false true w ∧
    Computes true afterGet (Reference.compare ()) w ∧
    (∃ w', ((Search.query .floor (some 30) (some none)).call.exec false).runWith (comparison true) w =
      some (.entry (.rockTreeNodeNotFound, some none), w')) ∧
    (∃ w', ((Search.query .floor (some 30) (some none)).call.exec false).run
      (answer (Comparator.replaced (Reference.compare ()))) w = some (.entry (.ok, some (some 20)), w')) ∧
    ¬ Faithful false true (Reference.compare ()) w (.query .floor (some 30) (some none)) ∧
    (∃ w', ((Search.add (some 10)).call.exec false).runWith (comparison true) w = some (.code .ok, w') ∧
      Reference.tree.nodes (w'.mem false).tree = [20, 10]) ∧
    ¬ Faithful false true (Reference.compare ()) w (.add (some 10)) := by
  have hw : ReachableBoth descending afterGet false true _ :=
    .onC (.add (some 20)) (.onD (.init (some (.pure descending)))
      (.onC (.init (some (.nested afterGet))) (.start (w := unused) rfl rfl)
        (fun f hf => (Option.some.inj hf).symm) rfl) (fun f hf => (Option.some.inj hf).symm) rfl) trivial rfl
  refine ⟨_, hw, fun a b => ⟨_, rfl⟩, ⟨_, rfl⟩, ⟨_, rfl⟩, ?_, ⟨_, rfl, by decide⟩, ?_⟩
  · intro hf
    have hresult := congrArg (Option.map Prod.fst) hf.same
    exact absurd hresult (by decide)
  · intro hf
    have hnodes := congrArg (Option.map fun r => Reference.tree.nodes r.2.tree) hf.same
    exact absurd hnodes (by decide)

end example_

end RedBlackTreeContainer

end Coral
