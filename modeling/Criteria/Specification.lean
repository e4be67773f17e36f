import Criteria.Evaluator

/-!
# Specifications

A `Specification` bundles a filter with an order and with what is to be returned of
the result: a page, a top count, or everything. Numbers are checked when they are
set, so a specification that a setter rejects is not changed. `validate` checks
what only the combination shows: a page needs a page size.
-/

namespace Criteria

/-- **A filter with an order and paging.** -/
@[ext]
structure Specification (T : Type) where
  /-- The condition. -/
  filter : Predicate T := .always
  /-- Whether the entities that fail the condition are wanted. -/
  negate : Bool := false
  /-- The order, if there is one. -/
  order : Option (SortOrder T) := none
  /-- The page. -/
  page : Option Int32 := none
  /-- The size of a page. -/
  pageSize : Option Int32 := none
  /-- How many entities are wanted. -/
  top : Option Int32 := none
  /-- How many pages make a block. -/
  blockSize : Option Int32 := none

namespace Specification

variable {T : Type}

/-- Sets the filter. -/
def withFilter (s : Specification T) (filter : Predicate T) : Specification T :=
  { s with filter := filter }

/-- Sets the sign. -/
def withNegation (s : Specification T) (negate : Bool := true) : Specification T :=
  { s with negate := negate }

/-- Sets the order. -/
def withOrder (s : Specification T) (order : SortOrder T) : Specification T :=
  { s with order := some order }

/-- Sets the page and its size, both or neither. -/
def withPagination (s : Specification T) (page size : Int32) : Run (Specification T) := do
  requirePositive "page" page
  requirePositive "pageSize" size
  .done { s with page := some page, pageSize := some size }

/-- Sets the page. -/
def withPage (s : Specification T) (page : Int32) : Run (Specification T) := do
  requirePositive "page" page
  .done { s with page := some page }

/-- Sets the size of a page. -/
def withPageSize (s : Specification T) (size : Int32) : Run (Specification T) := do
  requirePositive "pageSize" size
  .done { s with pageSize := some size }

/-- Sets the top count. -/
def withTop (s : Specification T) (top : Int32) : Run (Specification T) := do
  requirePositive "top" top
  .done { s with top := some top }

/-- Sets the block size. -/
def withBlockSize (s : Specification T) (size : Int32) : Run (Specification T) := do
  requirePositive "blockSize" size
  .done { s with blockSize := some size }

/-- A number that is set must be positive. -/
def requireSet (name : Text) (n : Option Int32) : Run Unit :=
  match n with
  | none => .done ()
  | some n => requirePositive name n

/-- **A page needs a page size**, and what is set must be positive. -/
def validate (s : Specification T) : Run Unit :=
  if s.page.isSome && s.pageSize.isNone then .reject .pageWithoutSize
  else do
    requireSet "page" s.page
    requireSet "pageSize" s.pageSize
    requireSet "top" s.top
    requireSet "blockSize" s.blockSize

/-- The evaluator of a specification. -/
def evaluator (s : Specification T) (limits : Limits) : Evaluator T where
  predicate := s.filter
  negate := s.negate
  limits := limits

/-- **The entities that a specification asks for.** A page takes precedence over a
top count; with neither, every entity that passes is returned. -/
def query (s : Specification T) (source : List T) (limits : Limits := {}) :
    Run (List T) := do
  s.validate
  match s.page, s.pageSize, s.top with
  | some page, some size, _ => (s.evaluator limits).paged source page size s.order
  | _, _, some top => (s.evaluator limits).top source top s.order
  | _, _, none => (s.evaluator limits).all source s.order

end Specification

end Criteria
