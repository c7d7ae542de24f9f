import Coral.Lib.Readers
import Coral.Threads

/-!
# Threads that read one container

`Coral.Threads` gives each thread containers of its own. Here any thread may use any container:
`count`, the queries and the traversals run on one container in any number of threads at a time, a call
that writes runs on it alone. That `this` is of its thread is what makes it work: `Serial.asks` says that
`entity_compare` reaches the container of the search it is called for.
-/

namespace Coral

namespace Threads
open Prog System

variable {P F O T : Type} {R : RockTree P} {L : RockList P}

/-- The calls that may run on a container side by side. -/
def ReadsOnly : (file : File) → Call P F file → Prop
  | .redBlackTreeContainer => RedBlackTreeContainer.Call.ReadsOnly
  | .linkedRedBlackTreeContainer => LinkedRedBlackTreeContainer.Call.ReadsOnly

instance (file : File) : DecidablePred (ReadsOnly file : Call P F file → Prop) :=
  match file with
  | .redBlackTreeContainer => fun c =>
    match c with
    | .count _ | .query _ _ _ | .first _ | .last _ | .next _ _ | .prev _ _ => isTrue trivial
    | .init _ | .add _ | .remove _ | .invalidate _ _ => isFalse id
  | .linkedRedBlackTreeContainer => fun c =>
    match c with
    | .count _ | .query _ _ _ | .sortedFirst _ | .sortedLast _ | .sortedNext _ _ | .sortedPrev _ _ =>
      isTrue trivial
    | .first _ | .last _ | .next _ _ | .prev _ _ => isTrue trivial
    | .alloc .. | .init _ | .add _ | .insert _ _ | .remove _ | .invalidate _ _ => isFalse id

section
variable [DecidableEq O] [DecidableEq T] [DecidableEq P]

omit [DecidableEq O] [DecidableEq T] in
theorem exec_reads (file : File) (object : O) (c : Call P F file) (hc : ReadsOnly file c)
    (m : Slot R L F file) :
    (exec file object c : Prog O (Slot R L F file) P (Event P) (Reply P)).Within object (· = m) := by
  cases file with
  | redBlackTreeContainer => exact RedBlackTreeContainer.Call.within_of_readsOnly hc
  | linkedRedBlackTreeContainer => exact LinkedRedBlackTreeContainer.Call.within_of_readsOnly hc

/-- However threads interleave that share containers, a search compares by the compare function of its
container, and the calls on a container do what they do one after another. -/
theorem readers_share (call : F → P → P → Int) {s₀ s : Process O T R L F} (h₀ : s₀.Start)
    (h : Relation.ReflTransGen (SharedStep (answer call) exec ReadsOnly) s₀ s) :
    (∀ t file object c a b rest, s.thread t = .busy file object c (.ask a b rest) →
      invoked s t file = compare file (s.mem file object)) ∧
    Serial (answer call) exec ReadsOnly s₀ s := by
  have hserial := serial exec_within exec_reads h₀ h
  refine ⟨?_, hserial⟩
  intro t file object c a b rest ht
  unfold invoked
  rw [hserial.asks ht]
  rfl

end

/-- Both threads look something up in the container of the first, turn and turn about; then the second
one adds an entry to it, and the first one looks it up. -/
def shareContainer : List (Bool × Option ((file : File) × Bool × Call Nat Bool file)) :=
  [(false, some ⟨.redBlackTreeContainer, false, .query .ceiling (some 10) (some none)⟩),
      (true, some ⟨.redBlackTreeContainer, false, .query .floor (some 30) (some none)⟩)] ++
    (List.replicate 5 [(false, none), (true, none)]).flatten ++
    [(true, some ⟨.redBlackTreeContainer, false, .add (some 25)⟩)] ++
    List.replicate 7 (true, none) ++
    [(false, some ⟨.redBlackTreeContainer, false, .query .get (some 25) (some none)⟩)] ++
    List.replicate 5 (false, none)

theorem readers_share_example : ∃ s : Process Bool Bool Reference.tree Reference.list Bool,
    playShared (answer order) exec ReadsOnly shareContainer twoThreads = some s ∧
    (s.history .redBlackTreeContainer false).map Prod.snd =
      [.entry (.ok, some (some 20)), .entry (.ok, some (some 20)), .code .ok,
        .entry (.ok, some (some 25))] ∧
    Serial (answer order) exec ReadsOnly twoThreads s := by
  have hplay : playShared (answer order) exec ReadsOnly shareContainer twoThreads = some _ := rfl
  have hserial := readers_share order ⟨fun _ => rfl, fun _ _ => rfl⟩ (reachable_of_playShared hplay)
  exact ⟨_, hplay, rfl, hserial.2⟩

end Threads

end Coral
