import Criteria.Text

/-!
# Faults

What can go wrong is recorded as its cause. The wording of a fault is a function
of the cause, `Fault.wording`, and is written nowhere else.

A fault of the library is one of five: an argument it rejects, a reduction
without a value to start from, a condition that has no description, a
configuration it cannot read, and a value that cannot be read or written. Two more
come out of a caller's own function: what the function raises, and the attempt
to call a function that is not there. The last one, `Fault.undefined`, is no fault
that could be raised: it stands for a run that has no defined course.
-/

namespace Criteria

/-- **Why an argument is rejected.** -/
inductive ArgumentFault
  /-- A field without a name. -/
  | emptyFieldName
  /-- A field without a getter. -/
  | noGetter (field : Text)
  /-- A field that no binding names. -/
  | noBinding (field : Text)
  /-- A binary operator with an operand missing. -/
  | missingOperand (operator : Text)
  /-- A negation of nothing. -/
  | missingNegand
  /-- A function call with an argument missing. -/
  | missingArgument (function : Text)
  /-- A value reference where no value is supplied. -/
  | unboundValue
  /-- A field where no resolver is supplied. -/
  | noResolver (field : Text)
  /-- A call with the wrong number of arguments. -/
  | arity (function : Text) (expected actual : Nat)
  /-- A call of a function that is not known. -/
  | unknownFunction (name : Text)
  /-- An operator in the place of a comparison that is none. -/
  | notComparison (operator : Text)
  /-- A value condition without a description. -/
  | missingCondition
  /-- A value condition bound to nothing. -/
  | missingTarget
  /-- Bounds of a length in the wrong order. -/
  | lengthBounds (low high : Nat)
  /-- A predicate that is not there. -/
  | missingPredicate
  /-- A predicate without a description where one is needed. -/
  | missingDescription
  /-- A predicate whose description still refers to a value. -/
  | unboundDescription (description : Text)
  /-- A predicate without a root. -/
  | missingRoot
  /-- A group entry without a node. -/
  | missingNode (entry : Nat)
  /-- A connective before the first entry of a group. -/
  | leadingConnective
  /-- No connective before a later entry of a group. -/
  | missingConnective (entry : Nat)
  /-- A predicate added to a builder that is not there. -/
  | missingAddend
  /-- A sub-group whose compose function is not there. -/
  | missingCompose
  /-- A count below one. -/
  | notPositive (name : Text) (n : Int)
  /-- A page size above the limit. -/
  | pageSizeLimit (size limit : Nat)
  /-- A top count above the limit. -/
  | topCountLimit (count limit : Nat)
  /-- A function of the caller that is not there. -/
  | missingCallable (role : Text)
  /-- A page without a page size. -/
  | pageWithoutSize
  /-- A remote evaluator without a provider. -/
  | missingProvider
  /-- A scalar query for an operation that has no scalar answer. -/
  | notScalar (operation : Text)
  /-- A reduction without a target field. -/
  | missingTargetField (operation : Text)
  /-- A grouped count without a field to group by. -/
  | missingGroupBy
deriving DecidableEq

namespace ArgumentFault

/-- The wording of a rejected argument. -/
def message : ArgumentFault → Text
  | emptyFieldName => "field name must not be empty"
  | noGetter field => "field '" ++ field ++ "' has no getter"
  | noBinding field => "no binding for field '" ++ field ++ "'"
  | missingOperand operator => "binary operator " ++ operator ++ " needs two operands"
  | missingNegand => "NOT needs an operand"
  | missingArgument function => "function " ++ function ++ " received a null argument"
  | unboundValue => "value reference evaluated without a bound value"
  | noResolver field => "no field resolver for entity." ++ field
  | arity function expected actual =>
    function ++ " expects " ++ .ofNat expected ++ " argument(s), got " ++ .ofNat actual
  | unknownFunction name => "unknown function: " ++ name
  | notComparison operator => "not a comparison operator: " ++ operator
  | missingCondition => "value condition needs a description"
  | missingTarget => "value condition bound to a null target"
  | lengthBounds low high =>
    "lengthBetween: min " ++ .ofNat low ++ " > max " ++ .ofNat high
  | missingPredicate => "predicate must not be null"
  | missingDescription => "predicate description must not be null"
  | unboundDescription description =>
    "predicate description has an unbound value reference: " ++ description
  | missingRoot => "predicate root must not be null"
  | missingNode entry => "condition group entry " ++ .ofNat entry ++ " has no node"
  | leadingConnective => "first entry of a condition group cannot carry a connective"
  | missingConnective entry =>
    "condition group entry " ++ .ofNat entry ++ " needs a connective"
  | missingAddend => "ExpressionBuilder::add: predicate must not be null"
  | missingCompose => "ExpressionBuilder::addSubGroup: compose function must not be null"
  | notPositive name n =>
    name ++ " must be greater than or equal to 1, got " ++ .ofInt n
  | pageSizeLimit size limit =>
    "pageSize " ++ .ofNat size ++ " exceeds the configured limit of " ++ .ofNat limit
  | topCountLimit count limit =>
    "count " ++ .ofNat count ++ " exceeds the configured limit of " ++ .ofNat limit
  | missingCallable role => role ++ " must not be null"
  | pageWithoutSize => "page is set but pageSize is missing"
  | missingProvider => "QueryEvaluator needs a provider"
  | notScalar operation => "scalar() cannot execute operation '" ++ operation ++ "'"
  | missingTargetField operation =>
    "operation '" ++ operation ++ "' needs a target field"
  | missingGroupBy => "count_by_group needs a group-by field"

end ArgumentFault

/-- The reductions that have no value over nothing. -/
inductive Reduction
  | min | max | average | aggregate
deriving DecidableEq

/-- The name of a reduction. -/
def Reduction.name : Reduction → Text
  | .min => "min"
  | .max => "max"
  | .average => "average"
  | .aggregate => "aggregate"

/-- **Why a value cannot be read or written as asked.** -/
inductive ValueFault
  /-- It is of another kind. -/
  | kind
  /-- It has no member under the key. -/
  | missingKey
  /-- A string in it is not UTF-8. -/
  | encoding
deriving DecidableEq

/-- The wording of a value that cannot be read or written. -/
def ValueFault.message : ValueFault → Text
  | .kind => "value of another kind"
  | .missingKey => "key not found"
  | .encoding => "invalid UTF-8"

/-- **A fault a caller's function raises**, with its own wording. -/
inductive CallerFault
  /-- Something out of range. -/
  | outOfRange (message : Text)
  /-- Something the function's logic excludes. -/
  | logic (message : Text)
deriving DecidableEq

/-- **A fault.** -/
inductive Fault
  /-- An argument is rejected. -/
  | argument (cause : ArgumentFault)
  /-- A reduction over nothing. -/
  | emptyResult (reduction : Reduction)
  /-- A condition or a sort key that has no description. -/
  | notDescribable (label : Text)
  /-- A configuration that cannot be read. -/
  | configuration (cause : ValueFault)
  /-- A value that cannot be read or written. -/
  | value (cause : ValueFault)
  /-- A call of a function that is not there. -/
  | emptyCall
  /-- A fault of a caller's function. -/
  | caller (cause : CallerFault)
  /-- **The end of what is defined**: an expression that is not there is used, and whatever
  comes of it, there is no result. -/
  | undefined
deriving DecidableEq

namespace Fault

/-- The wording of a fault, in full. -/
def wording : Fault → Text
  | argument cause => "Invalid argument: " ++ cause.message
  | emptyResult reduction =>
    "Empty result: " ++ reduction.name ++ " over an empty filtered set"
  | notDescribable label => "Not translatable: " ++ label
  | configuration cause => "Configuration error: " ++ cause.message
  | value cause => cause.message
  | emptyCall => "call of a missing function"
  | caller (.outOfRange message) => message
  | caller (.logic message) => message
  | undefined => "use of a missing expression"

/-- **The message of a fault.** A message ends at a zero byte, which only a name in
the wording can bring into it. -/
def message (fault : Fault) : Text := fault.wording.untilZero

end Fault

end Criteria
