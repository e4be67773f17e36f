import Criteria.Evaluator.Grouping

/-!
# Evaluation by a provider

A `Provider` executes queries over entities that are elsewhere. A
`RemoteEvaluator` composes the query of an operation from the description of its
predicate, its sign and a sort order, and hands it to the provider. Every
operation has its query as a result of its own (`describe…`), so that what would
be asked can be seen without asking.

Arguments are checked first, then the predicate is described, then the order. If
one of them fails, no query exists and the provider is not asked. Otherwise it is
asked exactly once, which is the event `Event.requested`.
-/

namespace Criteria

/-- **What executes queries.** -/
structure Provider (T : Type) where
  /-- The entities that a query selects. -/
  fetch : Query → Run (List T)
  /-- The single value that a query asks for. -/
  scalar : Query → Run Value

namespace Provider

variable {T : Type}

/-- Hands over a query for entities. -/
def requestEntities (p : Provider T) (q : Query) : Run (List T) := do
  Run.event (.requested q)
  p.fetch q

/-- Hands over a query for a value. -/
def requestValue (p : Provider T) (q : Query) : Run Value := do
  Run.event (.requested q)
  p.scalar q

end Provider

/-- **A predicate over the entities of a provider.** -/
structure RemoteEvaluator (T : Type) where
  /-- Who executes the queries. -/
  provider : Provider T
  /-- Where the entities are. -/
  source : Text
  /-- The condition. -/
  predicate : Predicate T := .always
  /-- Whether the entities that fail the condition are wanted. -/
  negate : Bool := false
  /-- The limits on pages and tops. -/
  limits : Limits := {}

namespace RemoteEvaluator

variable {T : Type}

/-- The evaluator over a provider that is there. -/
def make (provider : Option (Provider T)) (source : Text)
    (predicate : Predicate T := .always) (negate : Bool := false) (limits : Limits := {}) :
    Except Fault (RemoteEvaluator T) :=
  match provider with
  | none => .error (.argument .missingProvider)
  | some provider => .ok ⟨provider, source, predicate, negate, limits⟩

/-! ## Queries -/

/-- The query of an operation on the entities that pass, or that fail. -/
def compose (v : RemoteEvaluator T) (operation : Operation) (negate : Bool) :
    Run Query := do
  let filter ← v.predicate.describe negate
  .done { operation := operation, source := v.source, filter := some filter }

/-- The message of a composed query, if it can be written down. -/
def composedEvents (q : Query) : List Event :=
  match q.text with
  | .ok text => [.message .debug ("Composed query: " ++ text)]
  | .error _ => []

/-- The query as it is, with a message. The text of the query is needed for the message alone,
so without a delivery of messages it does not matter whether there is one. -/
def logged (q : Query) : Run Query where
  events := composedEvents q
  outcome := .ok q

/-- **The query for entities.** -/
def describeSelect (v : RemoteEvaluator T) (negate : Bool) (order : Option (SortOrder T))
    (offset limit : Option UInt64) : Run Query := do
  let q ← v.compose .select negate
  let orderBy ← match order with
    | none => .done []
    | some order => order.describe
  logged { q with orderBy := orderBy, offset := offset, limit := limit }

/-- **The query for the reduction of a field.** -/
def describeReduction (v : RemoteEvaluator T) (operation : Operation) (field : Text) :
    Run Query := do
  let q ← v.compose operation v.negate
  logged { q with targetField := some field }

/-- The query whether an entity passes. -/
def describeAny (v : RemoteEvaluator T) : Run Query := v.compose .exist v.negate

/-- The query how many entities pass. -/
def describeCount (v : RemoteEvaluator T) : Run Query := v.compose .count v.negate

/-- The query for the first entity that passes. -/
def describeFirst (v : RemoteEvaluator T) (order : Option (SortOrder T) := none) :
    Run Query :=
  v.describeSelect v.negate order none (some 1)

/-- The query for the first entity that does not pass. -/
def describeFirstFailed (v : RemoteEvaluator T) (order : Option (SortOrder T) := none) :
    Run Query :=
  v.describeSelect (!v.negate) order none (some 1)

/-- The query for all entities that pass. -/
def describeAll (v : RemoteEvaluator T) (order : Option (SortOrder T) := none) : Run Query :=
  v.describeSelect v.negate order none none

/-- The query for all entities that do not pass. -/
def describeAllFailed (v : RemoteEvaluator T) (order : Option (SortOrder T) := none) :
    Run Query :=
  v.describeSelect (!v.negate) order none none

/-- **The query for a page.** -/
def describePaged (v : RemoteEvaluator T) (page size : Int32)
    (order : Option (SortOrder T) := none) : Run Query := do
  v.limits.requirePage page size
  v.describeSelect v.negate order
    (some ((countWord page - 1) * countWord size)) (some (countWord size))

/-- **The query for the first `count` entities.** -/
def describeTop (v : RemoteEvaluator T) (count : Int32)
    (order : Option (SortOrder T) := none) : Run Query := do
  v.limits.requireTop count
  v.describeSelect v.negate order none (some (countWord count))

/-- The query for the first entity of every datum of a field. -/
def describeDistinct {t : FieldType} (v : RemoteEvaluator T) (field : Field T t)
    (order : Option (SortOrder T) := none) : Run Query := do
  let q ← v.describeSelect v.negate order none none
  .done { q with distinctBy := some field.name }

/-- The query how many entities each datum of a field has. -/
def describeCountByGroup {t : FieldType} (v : RemoteEvaluator T) (key : Field T t) :
    Run Query := do
  let q ← v.compose .countByGroup v.negate
  .done { q with groupBy := some key.name }

/-! ## Execution -/

/-- The entities of a query, once it is composed. -/
def entities (v : RemoteEvaluator T) (query : Run Query) : Run (List T) := do
  let q ← query
  v.provider.requestEntities q

/-- The value of a query, once it is composed. -/
def value (v : RemoteEvaluator T) (query : Run Query) : Run Value := do
  let q ← query
  v.provider.requestValue q

/-- Whether an entity passes. -/
def any (v : RemoteEvaluator T) : Run Bool := do
  let reply ← v.value v.describeAny
  FieldType.bool.ofValue reply

/-- How many entities pass. -/
def count (v : RemoteEvaluator T) : Run (FixedInt ⟨false, .w64⟩) := do
  let reply ← v.value v.describeCount
  FieldType.countOfValue reply

/-- The first entity that passes. -/
def first (v : RemoteEvaluator T) (order : Option (SortOrder T) := none) :
    Run (Option T) := do
  let rows ← v.entities (v.describeFirst order)
  .done rows.head?

/-- The first entity that does not pass. -/
def firstFailed (v : RemoteEvaluator T) (order : Option (SortOrder T) := none) :
    Run (Option T) := do
  let rows ← v.entities (v.describeFirstFailed order)
  .done rows.head?

/-- The last entity that passes. The whole ordered result is read, since reversing
a stable order would change which of several equals comes last. -/
def last (v : RemoteEvaluator T) (order : Option (SortOrder T) := none) :
    Run (Option T) := do
  let rows ← v.entities (v.describeAll order)
  .done rows.getLast?

/-- The last entity that does not pass. -/
def lastFailed (v : RemoteEvaluator T) (order : Option (SortOrder T) := none) :
    Run (Option T) := do
  let rows ← v.entities (v.describeAllFailed order)
  .done rows.getLast?

/-- The entities that pass. -/
def all (v : RemoteEvaluator T) (order : Option (SortOrder T) := none) : Run (List T) :=
  v.entities (v.describeAll order)

/-- The entities that do not pass. -/
def allFailed (v : RemoteEvaluator T) (order : Option (SortOrder T) := none) :
    Run (List T) :=
  v.entities (v.describeAllFailed order)

/-- One page of the entities that pass. -/
def paged (v : RemoteEvaluator T) (page size : Int32)
    (order : Option (SortOrder T) := none) : Run (List T) :=
  v.entities (v.describePaged page size order)

/-- The first `count` entities that pass. -/
def top (v : RemoteEvaluator T) (count : Int32) (order : Option (SortOrder T) := none) :
    Run (List T) :=
  v.entities (v.describeTop count order)

/-- The first entity of every datum of a field. -/
def distinct {t : FieldType} (v : RemoteEvaluator T) (field : Field T t)
    (order : Option (SortOrder T) := none) : Run (List T) :=
  v.entities (v.describeDistinct field order)

/-- A reply that has to be there, converted to the field's type. -/
def reduced {t : FieldType} (reduction : Reduction) (reply : Value) : Run t.Val :=
  if reply.isNull then .fail (.emptyResult reduction) else t.ofValue reply

/-- **The least datum of a field.** -/
def min {t : FieldType} (v : RemoteEvaluator T) (field : Field T t) : Run t.Val := do
  let reply ← v.value (v.describeReduction .min field.name)
  reduced .min reply

/-- **The greatest datum of a field.** -/
def max {t : FieldType} (v : RemoteEvaluator T) (field : Field T t) : Run t.Val := do
  let reply ← v.value (v.describeReduction .max field.name)
  reduced .max reply

/-- **The sum of a field**; without a reply it is zero. -/
def sum {t : FieldType} [Numeric t.Val] (v : RemoteEvaluator T) (field : Field T t) :
    Run t.Val := do
  let reply ← v.value (v.describeReduction .sum field.name)
  if reply.isNull then .done Numeric.zero else t.ofValue reply

/-- **The average of a field.** -/
def average {t : FieldType} (v : RemoteEvaluator T) (field : Field T t) : Run Decimal := do
  let reply ← v.value (v.describeReduction .average field.name)
  if reply.isNull then .fail (.emptyResult .average) else FieldType.decimalOfValue reply

/-- Groups of the data of a type, counted in words. -/
abbrev GroupCounts (t : FieldType) := Groups t.Val (FixedInt ⟨false, .w64⟩)

/-- The counts of groups so far, with those of one row of a reply. -/
def addGroupRow (t : FieldType) (groups : GroupCounts t) (row : Value) :
    Except Fault (GroupCounts t) := do
  let count ← row.at "count"
  let n ← FieldType.countOfValue count
  let key ← row.at "key"
  let k ← t.ofValue key
  letI := t.keyEquality
  .ok (Groups.update k n (·.add n) groups)

/-- The counts of groups that a reply lists. -/
def groupCounts (t : FieldType) (reply : Value) : Except Fault (GroupCounts t) :=
  reply.elements.foldlM (addGroupRow t) []

/-- **How many entities each datum of a field has.** -/
def countByGroup {t : FieldType} (v : RemoteEvaluator T) (key : Field T t) :
    Run (GroupCounts t) := do
  let reply ← v.value (v.describeCountByGroup key)
  groupCounts t reply

end RemoteEvaluator

end Criteria
