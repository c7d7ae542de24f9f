/-!
# Computations that compare keys through a callback

`Ask P α` is a computation that may ask, any number of times and one after another, how two keys
compare, and goes on with the answer. It touches nothing else.
-/

/-- A computation with result in `α` that asks for comparisons of keys in `P`. -/
inductive Ask (P α : Type) where
  | done (a : α)
  | ask (a b : P) (k : Int → Ask P α)

namespace Ask

variable {P α β : Type}

/-- The result when every question is answered by `cmp`. -/
def eval (cmp : P → P → Int) : Ask P α → α
  | done a => a
  | ask a b k => (k (cmp a b)).eval cmp

/-- The questions that are asked when they are answered by `cmp`. -/
def asked (cmp : P → P → Int) : Ask P α → List (P × P)
  | done _ => []
  | ask a b k => (a, b) :: (k (cmp a b)).asked cmp

def map (f : α → β) : Ask P α → Ask P β
  | done a => done (f a)
  | ask a b k => ask a b fun c => (k c).map f

@[simp] theorem eval_done (cmp : P → P → Int) (a : α) : (done a : Ask P α).eval cmp = a := rfl

@[simp] theorem eval_ask (cmp : P → P → Int) (a b : P) (k : Int → Ask P α) :
    (ask a b k).eval cmp = (k (cmp a b)).eval cmp := rfl

@[simp] theorem eval_map (cmp : P → P → Int) (f : α → β) (p : Ask P α) :
    (p.map f).eval cmp = f (p.eval cmp) := by
  induction p with
  | done a => rfl
  | ask a b k ih => exact ih _

@[simp] theorem asked_map (cmp : P → P → Int) (f : α → β) (p : Ask P α) :
    (p.map f).asked cmp = p.asked cmp := by
  induction p with
  | done a => rfl
  | ask a b k ih => exact congrArg ((a, b) :: ·) (ih _)

end Ask
