import Coral.Layout

/-!
# A client's traversal

`traverse first next n` is the loop every client writes: take what `first` reports and go on with
`next` until an error is returned, at most `n` entries far. `run_traverse` says when it goes through
a list. `Answers` speaks of one query.
-/

namespace Coral

variable {O S P E : Type}

/-- What a query reports about `e`: the entry in `out`, or the code `c` and `out` as it was. -/
def outcome (c : Code) (out : Out (Option P)) (e : Option P) : Code × Out (Option P) :=
  e.elim (c, out) fun e => (.ok, some (some e))

@[simp] theorem outcome_none (c : Code) (out : Out (Option P)) : outcome c out none = (c, out) := rfl
@[simp] theorem outcome_some (c : Code) (out : Out (Option P)) (e : P) :
    outcome c out (some e) = (.ok, some (some e)) := rfl

/-- Go on from the result `r` of the last call: the entries met and the code of the last call. -/
def walk (next : P → Prog O S P E (Code × Out (Option P))) :
    Nat → Code × Out (Option P) → Prog O S P E (List P × Code)
  | 0, r => return ([], r.1)
  | n + 1, (.ok, some (some e)) => do
    let r ← next e
    let (l, c) ← walk next n r
    return (e :: l, c)
  | _ + 1, r => return ([], r.1)

def traverse (first : Prog O S P E (Code × Out (Option P)))
    (next : P → Prog O S P E (Code × Out (Option P))) (n : Nat) : Prog O S P E (List P × Code) := do
  let r ← first
  walk next n r

/-- What a traversal of `l` reports that goes at most `n` entries far: `empty` is the code of `first`
on the empty list, `end_` that of `next` on the last entry. -/
def traversal (empty end_ : Code) (l : List P) (n : Nat) : List P × Code :=
  (l.take n, if n < l.length then .ok else if l = [] then empty else end_)

section
variable [DecidableEq O] {answer : S → P → P → Option Int} {w : World O S E}
  {first : Prog O S P E (Code × Out (Option P))} {next : P → Prog O S P E (Code × Out (Option P))}
  {empty end_ : Code} {out : Out (Option P)} {l : List P}

omit [DecidableEq O] in
theorem walk_error {r : Code × Out (Option P)} (hr : r.1 ≠ .ok) (n : Nat) :
    walk next n r = .ret ([], r.1) := by
  unfold walk
  split
  · rfl
  · exact absurd rfl hr
  · rfl

theorem run_walk (hend : end_ ≠ .ok)
    (hnext : ∀ pre e post, l = pre ++ e :: post →
      (next e).run answer w = some (outcome end_ out post.head?, w))
    {c : Code} (hc : c ≠ .ok) (n : Nat) {pre post : List P} (hl : l = pre ++ post) :
    (walk next n (outcome c out post.head?)).run answer w =
      some ((post.take n, if n < post.length then .ok else if post = [] then c else end_), w) := by
  induction post generalizing pre n c with
  | nil =>
    show (walk next n (c, out)).run answer w = _
    rw [walk_error hc]
    simp
  | cons e post ih =>
    cases n with
    | zero => simp [walk]
    | succ n =>
      have hwalk := ih hend n (show l = (pre ++ [e]) ++ post by simp [hl])
      show ((next e).bind fun r => (walk next n r).bind fun r => .ret (e :: r.1, r.2)).run answer w = _
      rw [Prog.run_bind, hnext pre e post hl]
      show ((walk next n (outcome end_ out post.head?)).bind _).run answer w = _
      rw [Prog.run_bind, hwalk]
      simp

/-- A traversal goes through `l` when `first` reports its head and `next` the neighbour. -/
theorem run_traverse (hempty : empty ≠ .ok) (hend : end_ ≠ .ok)
    (hfirst : first.run answer w = some (outcome empty out l.head?, w))
    (hnext : ∀ pre e post, l = pre ++ e :: post →
      (next e).run answer w = some (outcome end_ out post.head?, w)) (n : Nat) :
    (traverse first next n).run answer w = some (traversal empty end_ l n, w) := by
  show (first.bind (walk next n)).run answer w = _
  rw [Prog.run_bind, hfirst]
  exact run_walk hend hnext hempty n (List.nil_append l).symm

theorem run_traverse_reverse (hempty : empty ≠ .ok) (hend : end_ ≠ .ok)
    (hlast : first.run answer w = some (outcome empty out l.getLast?, w))
    (hprev : ∀ pre e post, l = pre ++ e :: post →
      (next e).run answer w = some (outcome end_ out pre.getLast?, w)) (n : Nat) :
    (traverse first next n).run answer w = some (traversal empty end_ l.reverse n, w) := by
  refine run_traverse hempty hend (by rwa [List.head?_reverse]) (fun pre e post h => ?_) n
  have h' : l = post.reverse ++ e :: pre.reverse := by
    rw [← List.reverse_reverse l, h]
    simp
  rw [hprev _ _ _ h', List.getLast?_reverse]

end

/-- `body` reports an entry that is `ok`, or none with the code `c`, and leaves `w` as it is. -/
def Answers [DecidableEq O] (answer : S → P → P → Option Int) (c : Code) (out : Out (Option P))
    (ok : P → Prop) (w : World O S E) (body : Prog O S P E (Code × Out (Option P))) : Prop :=
  ∃ e, body.run answer w = some (outcome c out e, w) ∧ ∀ x ∈ e, ok x

namespace Answers
variable [DecidableEq O] {answer : S → P → P → Option Int} {c : Code} {out : Out (Option P)} {ok : P → Prop}
  {w : World O S E} {body body' : Prog O S P E (Code × Out (Option P))}

theorem nothing : Answers answer c out ok w (.ret (c, out)) := ⟨none, rfl, nofun⟩

theorem found {e : P} (he : ok e) : Answers answer c out ok w (.ret (.ok, some (some e))) :=
  ⟨some e, rfl, fun _ hx => Option.mem_some_iff.1 hx ▸ he⟩

theorem seq {α : Type} {p : Prog O S P E α} {a : α} {f : α → Prog O S P E (Code × Out (Option P))}
    (hp : p.run answer w = some (a, w)) (h : Answers answer c out ok w (f a)) :
    Answers answer c out ok w (p.bind f) := by
  obtain ⟨e, he, hok⟩ := h
  exact ⟨e, (Prog.run_seq f hp).trans he, hok⟩

theorem ite {b : Prop} [Decidable b] (h : b → Answers answer c out ok w body)
    (h' : ¬ b → Answers answer c out ok w body') :
    Answers answer c out ok w (if b then body else body') := by
  split
  · exact h ‹_›
  · exact h' ‹_›

end Answers

end Coral
