import Coral.Lib.Interleave
import Coral.LinkedCalls
import Coral.Reference

/-!
# Threads with containers of their own

Each of the two files has one `this` in every thread. `threads_isolated`: however the threads
interleave, `this` is the container a running search is on whenever `entity_compare` is called, and the
calls on a container return and leave what they do alone. Nothing is asked of `rock` but that only
`find` and `insert` compare, which the types of `RockTree` say.
-/

namespace Coral

namespace Threads
open Prog System

variable {P F O T : Type} {R : RockTree P} {L : RockList P}

/-- The files with a `this` of their own. -/
inductive File where
  | redBlackTreeContainer
  | linkedRedBlackTreeContainer
deriving DecidableEq

abbrev Slot (R : RockTree P) (L : RockList P) (F : Type) : File → Type
  | .redBlackTreeContainer => RedBlackTreeContainer R F
  | .linkedRedBlackTreeContainer => LinkedRedBlackTreeContainer R L F

abbrev Call (P F : Type) : File → Type
  | .redBlackTreeContainer => RedBlackTreeContainer.Call P F
  | .linkedRedBlackTreeContainer => LinkedRedBlackTreeContainer.Call P F

/-- The compare function of a container. -/
def compare : (file : File) → Slot R L F file → Option F
  | .redBlackTreeContainer, s => RedBlackTreeContainer.compare s
  | .linkedRedBlackTreeContainer, s => LinkedRedBlackTreeContainer.compare s

def answer (call : F → P → P → Int) (file : File) (this : Slot R L F file) (a b : P) : Option Int :=
  match file with
  | .redBlackTreeContainer => RedBlackTreeContainer.answer call this a b
  | .linkedRedBlackTreeContainer => LinkedRedBlackTreeContainer.answer call this a b

def exec [DecidableEq P] (file : File) (object : O) (c : Call P F file) :
    Prog O (Slot R L F file) P (Event P) (Reply P) :=
  match file with
  | .redBlackTreeContainer => RedBlackTreeContainer.Call.exec object c
  | .linkedRedBlackTreeContainer => LinkedRedBlackTreeContainer.Call.exec object c

/-- Threads that use containers of both files. -/
abbrev Process (O T : Type) {P : Type} (R : RockTree P) (L : RockList P) (F : Type) :=
  System File O P (Event P) (Reply P) T (Slot R L F) (Call P F)

/-- The compare function a call of `entity_compare` in thread `t` reaches: that of `*this`. -/
def invoked (s : Process O T R L F) (t : T) (file : File) : Option F :=
  (s.current t file).bind fun this => compare file (s.mem file this)

section
variable [DecidableEq O] [DecidableEq T] [DecidableEq P]

omit [DecidableEq O] [DecidableEq T] in
theorem exec_within (file : File) (object : O) (c : Call P F file) :
    (exec file object c : Prog O (Slot R L F file) P (Event P) (Reply P)).Within object fun _ => True := by
  cases file with
  | redBlackTreeContainer =>
    exact RedBlackTreeContainer.Call.within ⟨trivial, fun _ _ _ => trivial⟩ fun _ _ _ => trivial
  | linkedRedBlackTreeContainer =>
    refine LinkedRedBlackTreeContainer.Call.within ⟨?_, ?_, ?_, ?_⟩ fun _ _ _ _ _ => trivial
    all_goals intros; trivial

theorem threads_isolated (call : F → P → P → Int) (owner : File → O → T) {s₀ s : Process O T R L F}
    (h₀ : s₀.Start) (h : Relation.ReflTransGen (Step (answer call) exec owner) s₀ s) :
    (∀ t file object c a b rest, s.thread t = .busy file object c (.ask a b rest) →
      invoked s t file = compare file (s.mem file object)) ∧
    Isolated (answer call) exec owner s₀ s := by
  have hiso := isolated exec_within h₀ h
  refine ⟨?_, hiso⟩
  intro t file object c a b rest ht
  unfold invoked
  rw [hiso.asks ht]
  rfl

end

section example_

/-- Numbers in ascending or descending order. -/
def order (descending : Bool) (a b : Nat) : Int :=
  if descending then Reference.compare () b a else Reference.compare () a b

/-- Two threads, each with a container that stores 20; their orders differ. -/
def twoThreads : Process Bool Bool (Reference.tree : RockTree Nat) Reference.list Bool where
  thread _ := .idle
  current _ _ := none
  mem
    | .redBlackTreeContainer, o => ⟨(.node 20 .nil .nil, 1), some o⟩
    | .linkedRedBlackTreeContainer, _ => ⟨(.nil, 0), none, none, Reference.alone⟩
  history _ _ := []

/-- Both threads look for the ceiling of 10, turn and turn about. -/
def bothCeiling : List (Bool × Option ((file : File) × Bool × Call Nat Bool file)) :=
  [false, true].map (fun t => (t, some ⟨.redBlackTreeContainer, t, .query .ceiling (some 10) (some none)⟩)) ++
    (List.replicate 5 [(false, none), (true, none)]).flatten

theorem threads_isolated_example : ∃ s : Process Bool Bool Reference.tree Reference.list Bool,
    play (answer order) exec (fun _ o => o) bothCeiling twoThreads = some s ∧
    (s.history .redBlackTreeContainer false).map Prod.snd = [.entry (.ok, some (some 20))] ∧
    (s.history .redBlackTreeContainer true).map Prod.snd = [.entry (.rockTreeNodeNotFound, some none)] ∧
    Isolated (answer order) exec (fun _ o => o) twoThreads s := by
  have hplay : play (answer order) exec (fun _ o => o) bothCeiling twoThreads = some _ := rfl
  have hiso := threads_isolated order (fun _ o => o) ⟨fun _ => rfl, fun _ _ => rfl⟩ (reachable_of_play hplay)
  exact ⟨_, hplay, rfl, rfl, hiso.2⟩

end example_

end Threads

end Coral
