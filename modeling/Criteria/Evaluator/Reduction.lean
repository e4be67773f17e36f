import Criteria.Evaluator

/-!
# Reductions

What a selector gives for the entities that pass is reduced to one result: the
least or the greatest, the sum, the average, or a fold by a function of the
caller. The entities are visited in the order of the list, the predicate before
the selector.

A sum of nothing is zero. The other reductions of nothing have no result, which
is a fault unless a fallback is given. An average is computed in wide numbers,
adding from zero and dividing once.
-/

namespace Criteria

namespace Evaluator

variable {T N : Type}

/-- **A fold over what a selector gives** for the entities that pass. -/
def foldSelected {β : Type} (v : Evaluator T) (selector : Callable T N)
    (step : β → N → Run β) (start : β) (source : List T) : Run β :=
  Run.fold (fun acc e => do
    if ← v.evaluate e then
      let x ← Run.call selector e
      step acc x
    else .done acc) start source

/-- A result that has to be there, or the fault of a reduction over nothing. -/
def orEmpty (reduction : Reduction) (result : Option N) : Run N :=
  match result with
  | none => .fail (.emptyResult reduction)
  | some x => .done x

/-! ## The least and the greatest -/

/-- Which of two is wanted of an extreme. -/
inductive Extreme
  | least | greatest
deriving DecidableEq

/-- Whether a number takes the place of the best one so far. -/
def Extreme.improves [Numeric N] : Extreme → N → N → Bool
  | .least, best, x => Numeric.less x best
  | .greatest, best, x => Numeric.less best x

/-- The better of the best so far and a number; the earlier of equals. -/
def Extreme.choose [Numeric N] (extreme : Extreme) (best : Option N) (x : N) : Option N :=
  match best with
  | none => some x
  | some b => if extreme.improves b x then some x else some b

/-- The extreme of what a selector gives. -/
def extreme? [Numeric N] (v : Evaluator T) (extreme : Extreme) (source : List T)
    (selector : Callable T N) : Run (Option N) := do
  Run.requireCallable "selector" selector
  v.foldSelected selector (fun best x => .done (extreme.choose best x)) none source

/-- **The least.** -/
def min [Numeric N] (v : Evaluator T) (source : List T) (selector : Callable T N) :
    Run N := do
  orEmpty .min (← v.extreme? .least source selector)

/-- The least, or a fallback. -/
def minOr [Numeric N] (v : Evaluator T) (source : List T) (selector : Callable T N)
    (fallback : N) : Run N := do
  let result ← v.extreme? .least source selector
  .done (result.getD fallback)

/-- **The greatest.** -/
def max [Numeric N] (v : Evaluator T) (source : List T) (selector : Callable T N) :
    Run N := do
  orEmpty .max (← v.extreme? .greatest source selector)

/-- The greatest, or a fallback. -/
def maxOr [Numeric N] (v : Evaluator T) (source : List T) (selector : Callable T N)
    (fallback : N) : Run N := do
  let result ← v.extreme? .greatest source selector
  .done (result.getD fallback)

/-! ## Sums and averages -/

/-- **The sum.** -/
def sum [Numeric N] (v : Evaluator T) (source : List T) (selector : Callable T N) :
    Run N := do
  Run.requireCallable "selector" selector
  v.foldSelected selector (fun total x => .done (Numeric.add total x)) Numeric.zero source

/-- A total in wide numbers, and how many were added. -/
structure Total where
  /-- The total so far. -/
  sum : Decimal := .zero
  /-- How many numbers it is the total of. -/
  count : Nat := 0

/-- The total with one more number. -/
def Total.add [Numeric N] (total : Total) (x : N) : Total where
  sum := Floating.add total.sum (Numeric.toDecimal x)
  count := total.count + 1

/-- The mean of the numbers in a total. -/
def Total.mean (total : Total) : Decimal :=
  Floating.div total.sum (.ofInt .extended total.count)

/-- The average of what a selector gives, if it gives anything. -/
def average? [Numeric N] (v : Evaluator T) (source : List T) (selector : Callable T N) :
    Run (Option Decimal) := do
  Run.requireCallable "selector" selector
  let total ← v.foldSelected selector (fun total x => .done (total.add x)) ({} : Total) source
  .done (if total.count = 0 then none else some total.mean)

/-- **The average.** -/
def average [Numeric N] (v : Evaluator T) (source : List T) (selector : Callable T N) :
    Run Decimal := do
  orEmpty .average (← v.average? source selector)

/-- The average, or a fallback. -/
def averageOr [Numeric N] (v : Evaluator T) (source : List T) (selector : Callable T N)
    (fallback : Decimal) : Run Decimal := do
  let result ← v.average? source selector
  .done (result.getD fallback)

/-! ## Folds of the caller -/

/-- **A fold by a function of the caller**, from the first number on. -/
def aggregate (v : Evaluator T) (source : List T) (selector : Callable T N)
    (combine : Callable (N × N) N) : Run N := do
  Run.requireCallable "selector" selector
  Run.requireCallable "aggregate function" combine
  let result ← v.foldSelected selector (fun acc x =>
    match acc with
    | none => .done (some x)
    | some a => do
      let b ← Run.call combine (a, x)
      .done (some b)) none source
  orEmpty .aggregate result

end Evaluator

end Criteria
