import Criteria.Field
import Criteria.StableSort

/-!
# Sort orders

A `SortKey` compares two entities by what an extractor gives for each, in a
direction. A `SortOrder` is a list of keys, of which the first that tells two
entities apart decides. Sorting by it is stable (module `Criteria.StableSort`):
entities that no key tells apart keep their order.

A key made from a field can be described by the field's name. A key made from
any other extractor cannot, and a description that would need it is a fault.
-/

namespace Criteria

/-- **A sort key.** -/
structure SortKey (T : Type) where
  /-- Compares two entities, in ascending direction. -/
  ascending : T → T → Run Ordering
  /-- The direction. -/
  direction : Direction
  /-- The name of the field, if the key is one. -/
  field : Option Text

namespace SortKey

variable {T : Type}

/-- The comparison of what an extractor gives for two entities. -/
def compareVia {K : Type} (less : K → K → Bool) (extract : T → Run K) (a b : T) :
    Run Ordering := do
  let x ← extract a
  let y ← extract b
  .done (threeWay less x y)

/-- The key of a field. -/
def ofField {t : FieldType} (f : Field T t) (direction : Direction) : SortKey T where
  ascending := compareVia t.lt f.getter
  direction := direction
  field := some f.name

/-- The key of an extractor without a name. -/
def ofExtractor {K : Type} (less : K → K → Bool) (extract : Callable T K)
    (direction : Direction) : SortKey T where
  ascending := compareVia less (Run.call extract)
  direction := direction
  field := none

/-- **Which of two entities comes first** by the key, in its direction. -/
def compare (key : SortKey T) (a b : T) : Run Ordering := do
  let o ← key.ascending a b
  .done (key.direction.apply o)

/-- Whether the key can be described. -/
def isDescribable (key : SortKey T) : Bool := key.field.isSome

end SortKey

/-- **A sort order.** -/
structure SortOrder (T : Type) where
  /-- The keys, the first one deciding. -/
  keys : List (SortKey T)
  /-- The bindings of the fields among them. -/
  bindings : Bindings T := {}

namespace SortOrder

variable {T : Type}

/-- The order without keys, which `thenBy` extends. -/
def unordered : SortOrder T := ⟨[], {}⟩

/-- The order with a field as a further key. -/
def thenBy {t : FieldType} (o : SortOrder T) (f : Field T t)
    (direction : Direction := .ascending) : SortOrder T where
  keys := o.keys ++ [.ofField f direction]
  bindings := o.bindings.bind f

/-- The order with an extractor as a further key. -/
def thenByExtractor {K : Type} (o : SortOrder T) (less : K → K → Bool)
    (extract : Callable T K) (direction : Direction := .ascending) : SortOrder T where
  keys := o.keys ++ [.ofExtractor less extract direction]
  bindings := o.bindings

/-- **Which of two entities comes first**: the first key that tells them apart
decides, and those after it are not asked. -/
def compareByKeys : List (SortKey T) → T → T → Run Ordering
  | [], _, _ => .done .eq
  | key :: keys, a, b => do
    let o ← key.compare a b
    if o = .eq then compareByKeys keys a b else .done o

/-- Which of two entities comes first by the order. -/
def compare (o : SortOrder T) (a b : T) : Run Ordering := compareByKeys o.keys a b

/-! ## Sorting -/

/-- Entities in the order of a comparison. -/
def sortBy (compare : T → T → Run Ordering) (xs : List T) : Run (List T) :=
  StableSort.sort (fun a b => do
    let o ← compare a b
    .done (o == .lt)) xs

/-- **The entities in order.** Those that no key tells apart keep their order. -/
def sort (o : SortOrder T) (xs : List T) : Run (List T) := sortBy o.compare xs

/-! ## Description -/

/-- Whether every key can be described. -/
def isDescribable (o : SortOrder T) : Bool := o.keys.all SortKey.isDescribable

/-- The descriptions of keys, counted from `i`. A key without a name is a fault,
with a warning. -/
def describeKeys : Nat → List (SortKey T) → Run (List SortField)
  | _, [] => .done []
  | i, key :: keys =>
    match key.field with
    | none => do
      Run.log .warning ("Ordering key #" ++ .ofNat i ++ " has no field name; cannot translate")
      .fail (.notDescribable ("<opaque ordering key #" ++ .ofNat i ++ ">"))
    | some field => do
      let rest ← describeKeys (i + 1) keys
      .done (⟨field, key.direction⟩ :: rest)

/-- **The order by field names.** -/
def describe (o : SortOrder T) : Run (List SortField) := describeKeys 0 o.keys

end SortOrder

/-- Entities in an order, or as they are without one. -/
def arrange {T : Type} (order : Option (SortOrder T)) (xs : List T) : Run (List T) :=
  match order with
  | none => .done xs
  | some order => order.sort xs

end Criteria
