import Criteria.Evaluator.Reduction

/-!
# Grouping

The entities that pass are grouped by what a key selector gives for them. A result
by group is a list of keys with what belongs to them (`Groups`), every key once,
in the order in which the keys first appear.

For a sum and an average the key of an entity is selected before its number, for
an extreme the number before the key.
-/

namespace Criteria

/-- **What belongs to each key.** -/
abbrev Groups (K V : Type) := List (K × V)

/-- The groups with one key changed, or with a new key at the end. -/
def Groups.update {K V : Type} [BEq K] (key : K) (fresh : V) (change : V → V) :
    Groups K V → Groups K V
  | [] => [(key, fresh)]
  | (k, x) :: rest =>
    if k == key then (k, change x) :: rest
    else (k, x) :: Groups.update key fresh change rest

/-- The groups in the order of their keys. -/
def Groups.sorted {K V : Type} (less : K → K → Bool) (groups : Groups K V) : Groups K V :=
  groups.mergeSort fun a b => !less b.1 a.1

namespace Evaluator

variable {T K N : Type} [BEq K]

/-- A fold over the entities that pass. -/
def foldPassed {β : Type} (v : Evaluator T) (step : β → T → Run β) (start : β)
    (source : List T) : Run β :=
  Run.fold (fun acc e => do
    if ← v.evaluate e then step acc e else .done acc) start source

/-! ## Groups of entities -/

/-- **The entities of each key.** -/
def grouped (v : Evaluator T) (source : List T) (key : Callable T K) :
    Run (Groups K (List T)) := do
  Run.requireCallable "key selector" key
  v.foldPassed (fun groups e => do
    let k ← Run.call key e
    .done (Groups.update k [e] (· ++ [e]) groups)) [] source

/-- **How many entities each key has.** -/
def countByGroup (v : Evaluator T) (source : List T) (key : Callable T K) :
    Run (Groups K Nat) := do
  Run.requireCallable "key selector" key
  v.foldPassed (fun groups e => do
    let k ← Run.call key e
    .done (Groups.update k 1 (· + 1) groups)) [] source

/-- **The groups of more than one entity.** -/
def duplicatesByGroup (v : Evaluator T) (source : List T) (key : Callable T K) :
    Run (Groups K (List T)) := do
  let groups ← v.grouped source key
  .done (groups.filter fun group => decide (1 < group.2.length))

/-- The entity of a group that has only one. -/
def loneMember (group : K × List T) : Option (K × T) :=
  match group.2 with
  | [e] => some (group.1, e)
  | _ => none

/-- **The entities that have their key alone.** -/
def uniquesByGroup (v : Evaluator T) (source : List T) (key : Callable T K) :
    Run (Groups K T) := do
  let groups ← v.grouped source key
  .done (groups.filterMap loneMember)

/-- **The first `count` entities of each key.** The groups are put in order one by
one, beginning with that of the last key. -/
def topByGroup (v : Evaluator T) (source : List T) (key : Callable T K) (count : Int32)
    (order : Option (SortOrder T) := none) : Run (Groups K (List T)) := do
  v.limits.requireTop count
  let groups ← v.grouped source key
  let fromLast ← Run.each (fun (group : K × List T) => do
    let members ← arrange order group.2
    .done (group.1, members.take (countWord count).toNat)) groups.reverse
  .done fromLast.reverse

/-! ## Reductions by group -/

/-- The two selectors of a reduction by group must be there. -/
def requireSelectors (key : Callable T K) (value : Callable T N) : Run Unit := do
  Run.requireCallable "key selector" key
  Run.requireCallable "value selector" value

/-- **The sum of each key.** -/
def sumByGroup [Numeric N] (v : Evaluator T) (source : List T) (key : Callable T K)
    (value : Callable T N) : Run (Groups K N) := do
  requireSelectors key value
  v.foldPassed (fun groups e => do
    let k ← Run.call key e
    let x ← Run.call value e
    .done (Groups.update k (Numeric.add Numeric.zero x) (Numeric.add · x) groups)) [] source

/-- The extreme of each key. -/
def extremeByGroup [Numeric N] (v : Evaluator T) (extreme : Extreme) (source : List T)
    (key : Callable T K) (value : Callable T N) : Run (Groups K N) := do
  requireSelectors key value
  v.foldPassed (fun groups e => do
    let x ← Run.call value e
    let k ← Run.call key e
    .done (Groups.update k x
      (fun best => if extreme.improves best x then x else best) groups)) [] source

/-- **The least of each key.** -/
def minByGroup [Numeric N] (v : Evaluator T) (source : List T) (key : Callable T K)
    (value : Callable T N) : Run (Groups K N) :=
  v.extremeByGroup .least source key value

/-- **The greatest of each key.** -/
def maxByGroup [Numeric N] (v : Evaluator T) (source : List T) (key : Callable T K)
    (value : Callable T N) : Run (Groups K N) :=
  v.extremeByGroup .greatest source key value

/-- **The average of each key.** -/
def averageByGroup [Numeric N] (v : Evaluator T) (source : List T) (key : Callable T K)
    (value : Callable T N) : Run (Groups K Decimal) := do
  requireSelectors key value
  let totals ← v.foldPassed (fun (groups : Groups K Total) e => do
    let k ← Run.call key e
    let x ← Run.call value e
    .done (Groups.update k (Total.add {} x) (·.add x) groups)) [] source
  .done (totals.map fun group => (group.1, group.2.mean))

end Evaluator

end Criteria
