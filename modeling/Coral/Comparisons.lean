import Coral.Lib.Questions
import Coral.Threads

/-!
# What the compare functions are asked

In both files a search compares the key it is given with entries that are stored, the key first, and
with at most one entry on each level of the tree and one more; nothing else compares. So a compare
function may take its first argument for a key and its second for an entry. This holds on any tree,
whatever the compare function answers.
-/

namespace Coral

namespace RockTree
open SearchTree

variable {P : Type} [DecidableEq P] {R : RockTree P} (hR : R.Lawful) {t : R.Tree} {k : P} {n : Nat}
include hR

theorem find_asks (k : P) (hn : (R.shape t).height < n) :
    (R.find t k).Asks (fun a b => a = k ∧ b ∈ R.nodes t)
      (fun r m => 0 < m ∧ ∃ e, r = findResult e ∧ EndsIn none (R.shape t) e) n := by
  rw [hR.find_eq]
  exact ((descend_asks none (R.shape t) hn).mono (fun _ _ h => h) fun e _ h => ⟨h.1, e, rfl, h.2⟩).map

theorem insert_asks {last : Option P} (hlast : EndsIn none (R.shape t) (.miss last)) (hn : 0 < n) :
    (R.insert t last k).Asks (fun a b => a = k ∧ b ∈ R.nodes t) (fun _ _ => True) n := by
  cases last with
  | none =>
    obtain ⟨t', h, -⟩ := hR.insert_root t k hlast.1
    rw [h]
    trivial
  | some p =>
    have hp : p ∈ R.nodes t := hlast.resolve_left (by simp)
    obtain ⟨g, h, -⟩ := hR.insert_under t p k
    rw [h]
    exact ⟨⟨rfl, hp⟩, n - 1, by omega, fun _ => trivial⟩

end RockTree

namespace Layout
open Prog SearchTree

variable {P F O S E α : Type} {R : RockTree P} {C : Layout R F S} {object : O} {s : S} {key : P} {n : Nat}

theorem compare_asks {t : R.Tree} {node : P} {k : Int → Prog O S P E α} (hn : 0 < n) (hnode : node ∈ R.nodes t)
    (hk : ∀ c, (k c).Stays object (fun _ => True) false) :
    ((entityCompare key node).bind k).Asks object (fun a b => a = key ∧ b ∈ R.nodes t)
      (fun _ _ _ => True) s n :=
  .ask ⟨rfl, hnode⟩ hn fun c => (hk c).asks

theorem stored_of_missed {t : R.Tree} {p : P} (h : EndsIn none (R.shape t) (.miss (some p))) :
    p ∈ R.nodes t :=
  h.resolve_left (by simp)

variable [DecidableEq P] (hR : R.Lawful)
include hR

/-- A function that starts with a search in the tree of its container. -/
theorem search_asks {body : Code × Option P → Prog O S P E α}
    (hhit : ∀ a m, 0 < m → a ∈ R.nodes (C.tree s) → (body (.ok, some a)).Asks object
      (fun a b => a = key ∧ b ∈ R.nodes (C.tree s)) (fun _ _ _ => True) s m)
    (hmiss : ∀ last m, 0 < m → EndsIn none (R.shape (C.tree s)) (.miss last) →
      (body (.rockTreeNodeNotFound, last)).Asks object
        (fun a b => a = key ∧ b ∈ R.nodes (C.tree s)) (fun _ _ _ => True) s m) :
    (Prog.select object ((C.find object key).bind body)).Asks object
      (fun a b => a = key ∧ b ∈ R.nodes (C.tree s)) (fun _ _ _ => True) s
      ((R.shape (C.tree s)).height + 1) := by
  refine .select (.bind (.load (.lift ?_)))
  refine (RockTree.find_asks hR key (Nat.lt_succ_self _)).mono (fun _ _ h => h) ?_
  rintro r m ⟨hm, a | last, rfl, he⟩
  · exact hhit a m hm he
  · exact hmiss last m hm he

/-- Once an entry is in the tree, nothing is compared. -/
theorem insertNode_asks {last : Option P} {k : Unit → Prog O S P E α} (hn : 0 < n)
    (hlast : EndsIn none (R.shape (C.tree s)) (.miss last))
    (hk : ∀ u, (k u).Stays object (fun _ => True) false) :
    ((C.insertNode object last key).bind k).Asks object (fun a b => a = key ∧ b ∈ R.nodes (C.tree s))
      (fun _ _ _ => True) s n := by
  refine .bind (.load (.bind (.lift ?_)))
  refine (RockTree.insert_asks hR hlast hn).mono (fun _ _ h => h) fun tree _ _ => ?_
  cases tree with
  | error => trivial
  | ok tree => exact ⟨rfl, (hk ()).asks⟩

theorem enlist_asks {rest : Prog O S P E Code} (entry : P) (hrest : rest.Stays object (fun _ => True) false) :
    (C.enlist object entry rest).Asks object (fun a b => a = entry ∧ b ∈ R.nodes (C.tree s))
      (fun _ _ _ => True) s ((R.shape (C.tree s)).height + 1) :=
  search_asks hR (fun _ _ _ _ => .ret trivial) fun _ _ hm he => insertNode_asks hR hm he fun _ => hrest

theorem query_asks (q : Query) (key : P) (v : Option P) :
    (C.query (some object) (some key) (some v) q : Prog O S P E _).Asks object
      (fun a b => a = key ∧ b ∈ R.nodes (C.tree s)) (fun _ _ _ => True) s
      ((R.shape (C.tree s)).height + 1) := by
  cases q with
  | get => exact search_asks hR (fun a _ _ _ => (found_stays (some a)).asks) fun _ _ _ _ => .ret trivial
  | ceiling =>
    refine search_asks hR (fun a _ _ _ => (found_stays (some a)).asks) fun last m hm he => ?_
    rcases last with _ | p
    · exact .ret trivial
    · exact compare_asks hm (stored_of_missed he) fun c => .ite (.ret _) (found_stays _)
  | floor =>
    refine search_asks hR (fun a _ _ _ => (found_stays (some a)).asks) fun last m hm he => ?_
    rcases last with _ | p
    · exact .ret trivial
    · exact compare_asks hm (stored_of_missed he) fun c => .ite (stepOrNotFound_stays _ _) (found_stays _)
  | higher =>
    refine search_asks hR (fun a _ _ _ => (stepOrNotFound_stays R.next a).asks) fun last m hm he => ?_
    rcases last with _ | p
    · exact .ret trivial
    · exact compare_asks hm (stored_of_missed he) fun c => .ite (.ret _) (found_stays _)
  | lower =>
    refine search_asks hR (fun a m hm ha => ?_) fun last m hm he => ?_
    · exact compare_asks hm ha fun c => .ite (stepOrNotFound_stays _ _) (found_stays _)
    rcases last with _ | p
    · exact .ret trivial
    · exact compare_asks hm (stored_of_missed he) fun c => .ite (stepOrNotFound_stays _ _) (found_stays _)

end Layout

namespace RedBlackTreeContainer
open Prog SearchTree

variable {P F O : Type} {R : RockTree P} {object : O} {s : RedBlackTreeContainer R F} {key : P} {n : Nat}

/-- The call looks for `key`. -/
def Call.LooksFor (key : P) : Call P F → Prop
  | .add entry => entry = some key
  | .query _ k _ => k = some key
  | _ => False

section
variable [DecidableEq P] (hR : R.Lawful)
include hR

theorem Call.asks (c : Call P F) : (c.exec object : M O R F _).Asks object
    (fun a b => c.LooksFor a ∧ b ∈ R.nodes s.tree) (fun _ _ _ => True) s ((R.shape s.tree).height + 1) := by
  have hw : Writable fun _ : RedBlackTreeContainer R F => True := ⟨trivial, fun _ _ _ => trivial⟩
  cases c with
  | init compare => exact (Stays.bind (init_stays hw fun _ _ _ => trivial) fun _ => .ret _).asks
  | count out => exact (Stays.bind (Layout.count_stays out) fun _ => .ret _).asks
  | add entry =>
    rcases entry with _ | entry
    · exact .ret trivial
    · refine .bind ((Layout.enlist_asks hR entry (.ret _)).mono ?_ fun _ _ _ _ => trivial)
      exact fun _ _ h => ⟨congrArg some h.1.symm, h.2⟩
  | remove entry => exact (Stays.bind (remove_stays hw.tree entry) fun _ => .ret _).asks
  | query q key out =>
    rcases key with _ | key
    · cases q <;> exact .ret trivial
    rcases out with _ | v
    · cases q <;> exact .ret trivial
    refine .bind (.mono (query_eq (some object) (some key) (some v) q ▸ Layout.query_asks hR q key v) ?_
      fun _ _ _ _ => trivial)
    exact fun _ _ h => ⟨congrArg some h.1.symm, h.2⟩
  | first out => exact (Stays.bind (Layout.firstOrLast_stays R.first) fun _ => .ret _).asks
  | last out => exact (Stays.bind (Layout.firstOrLast_stays R.last) fun _ => .ret _).asks
  | next entry out => exact (Stays.bind (Layout.nextOrPrev_stays R.next entry) fun _ => .ret _).asks
  | prev entry out => exact (Stays.bind (Layout.nextOrPrev_stays R.prev entry) fun _ => .ret _).asks
  | invalidate fuel onDestroy => exact (Stays.bind (invalidate_stays hw fuel onDestroy) fun _ => .ret _).asks

end

end RedBlackTreeContainer

namespace LinkedRedBlackTreeContainer
open Prog SearchTree

variable {P F O : Type} {R : RockTree P} {L : RockList P} {object : O} {s : LinkedRedBlackTreeContainer R L F}
  {key : P} {n : Nat}

/-- The call looks for `key`. -/
def Call.LooksFor (key : P) : Call P F → Prop
  | .add entry => entry = some key
  | .insert entry item => entry.isSome ∧ item = some key
  | .query _ k _ => k = some key
  | _ => False

section
variable [DecidableEq P] (hR : R.Lawful)
include hR

omit [DecidableEq P] hR in
theorem writable : Writable fun _ : LinkedRedBlackTreeContainer R L F => True :=
  ⟨fun _ _ => trivial, fun _ _ _ => trivial, fun _ _ _ => trivial, fun _ _ _ => trivial⟩

theorem Call.asks (c : Call P F) : (c.exec object : M O R L F _).Asks object
    (fun a b => c.LooksFor a ∧ b ∈ R.nodes s.tree) (fun _ _ _ => True) s ((R.shape s.tree).height + 1) := by
  have hw : Writable fun _ : LinkedRedBlackTreeContainer R L F => True := writable
  cases c with
  | alloc G sizeMax sizeofEntry posixMemalign size out =>
    exact (Stays.bind (alloc_stays hw G sizeMax sizeofEntry posixMemalign size) fun _ => .ret _).asks
  | init compare => exact (Stays.bind (init_stays hw fun _ _ _ _ _ => trivial) fun _ => .ret _).asks
  | count out => exact (Stays.bind (Layout.count_stays out) fun _ => .ret _).asks
  | add entry =>
    rcases entry with _ | entry
    · exact .ret trivial
    · refine .bind (.mono (Layout.enlist_asks hR entry (.bind (append_stays writable entry) fun _ => .ret _)) ?_
        fun _ _ _ _ => trivial)
      exact fun _ _ h => ⟨congrArg some h.1.symm, h.2⟩
  | insert entry item =>
    rcases entry with _ | entry
    · exact .ret trivial
    rcases item with _ | item
    · exact .ret trivial
    · refine .bind (.mono (Layout.enlist_asks hR item (.bind (listInsertBefore_stays writable entry item) fun _ =>
        .bind (rehead_stays writable entry item) fun _ => .ret _)) ?_ fun _ _ _ _ => trivial)
      exact fun _ _ h => ⟨⟨rfl, congrArg some h.1.symm⟩, h.2⟩
  | remove entry => exact (Stays.bind (remove_stays hw entry) fun _ => .ret _).asks
  | query q key out =>
    rcases key with _ | key
    · cases q <;> exact .ret trivial
    rcases out with _ | v
    · cases q <;> exact .ret trivial
    refine .bind (.mono (query_eq (some object) (some key) (some v) q ▸ Layout.query_asks hR q key v) ?_
      fun _ _ _ _ => trivial)
    exact fun _ _ h => ⟨congrArg some h.1.symm, h.2⟩
  | sortedFirst out => exact (Stays.bind (Layout.firstOrLast_stays R.first) fun _ => .ret _).asks
  | sortedLast out => exact (Stays.bind (Layout.firstOrLast_stays R.last) fun _ => .ret _).asks
  | sortedNext entry out => exact (Stays.bind (Layout.nextOrPrev_stays R.next entry) fun _ => .ret _).asks
  | sortedPrev entry out => exact (Stays.bind (Layout.nextOrPrev_stays R.prev entry) fun _ => .ret _).asks
  | first out => exact (Stays.bind listFirst_stays fun _ => .ret _).asks
  | last out => exact (Stays.bind listLast_stays fun _ => .ret _).asks
  | next entry out => exact (Stays.bind (next_stays entry) fun _ => .ret _).asks
  | prev entry out => exact (Stays.bind (prev_stays entry) fun _ => .ret _).asks
  | invalidate fuel onDestroy => exact (Stays.bind (invalidate_stays hw fuel onDestroy) fun _ => .ret _).asks

end

end LinkedRedBlackTreeContainer

namespace Threads
open Prog

variable {P F O : Type} {R : RockTree P} {L : RockList P}

/-- The call looks for `key`. -/
def LooksFor (key : P) : (file : File) → Call P F file → Prop
  | .redBlackTreeContainer => RedBlackTreeContainer.Call.LooksFor key
  | .linkedRedBlackTreeContainer => LinkedRedBlackTreeContainer.Call.LooksFor key

/-- The tree of a container. -/
def tree : (file : File) → Slot R L F file → R.Tree
  | .redBlackTreeContainer => RedBlackTreeContainer.tree
  | .linkedRedBlackTreeContainer => LinkedRedBlackTreeContainer.tree

/-- In either file, whatever the tree looks like and whatever the compare function answers, a call
compares what it looks for, first, with entries that are stored when it is made, second, at most one on
each level of the tree and one more; a call that looks for nothing compares nothing. -/
theorem compares_key_with_stored [DecidableEq O] [DecidableEq P] (hR : R.Lawful) (file : File) (object : O)
    (c : Call P F file) (w : World O (Slot R L F file) (Event P)) (answers : List Int) :
    (∀ q ∈ (exec file object c).questions w answers,
      LooksFor q.1 file c ∧ q.2 ∈ R.nodes (tree file (w.mem object))) ∧
    ((exec file object c).questions w answers).length ≤ (R.shape (tree file (w.mem object))).height + 1 := by
  cases file with
  | redBlackTreeContainer => exact (RedBlackTreeContainer.Call.asks hR c).questions answers
  | linkedRedBlackTreeContainer => exact (LinkedRedBlackTreeContainer.Call.asks hR c).questions answers

/-- The search for 15 goes from 20 to 10, and `floor` compares with 10 once more. -/
theorem compares_key_with_stored_example :
    (exec .redBlackTreeContainer () (.query .floor (some 15) (some none)) :
      Prog Unit (Slot (Reference.tree : RockTree Nat) Reference.list Unit .redBlackTreeContainer) Nat _ _).questions
        ⟨none, fun _ => ⟨(.node 20 (.node 10 .nil .nil) .nil, 2), some ()⟩, []⟩ [-1, 1, 1] =
      [(15, 20), (15, 10), (15, 10)] ∧
    3 ≤ (BinaryTree.node 20 (.node 10 .nil .nil) .nil).height + 1 := by
  have h := compares_key_with_stored (L := Reference.list) Reference.tree_lawful .redBlackTreeContainer ()
    (.query .floor (some 15) (some none) : RedBlackTreeContainer.Call Nat Unit)
    ⟨none, fun _ => ⟨(.node 20 (.node 10 .nil .nil) .nil, 2), some ()⟩, []⟩ [-1, 1, 1]
  exact ⟨rfl, h.2⟩

end Threads

end Coral
