import Criteria.Run

/-!
# Pages and limits

Pages are counted from one. The positions of a page are computed in 64-bit words
(`pageRange`), with a test that keeps the product of page and size from wrapping:
a page past the end is an empty range at the end. `saturatingProduct` is the
product of two words, or the largest word where it does not fit.

Counts that a caller gives are checked: they are at least one
(`requirePositive`), and a page size or a top count is not above its limit
(`Limits`). A check that fails leaves a message.
-/

namespace Criteria

/-! ## Positions of a page -/

/-- **The half-open range of positions of a page**, clamped to the total. -/
def pageRange (total page size : UInt64) : UInt64 × UInt64 :=
  let index := page - 1
  if index ≠ 0 ∧ size > total / index then (total, total)
  else
    let first := min total (index * size)
    (first, first + min size (total - first))

/-- **The product of two words**, or the largest word where it does not fit. -/
def saturatingProduct (a b : UInt64) : UInt64 :=
  if a ≠ 0 ∧ b > (0 - 1) / a then 0 - 1 else a * b

/-- The number of elements, as a word. -/
def lengthWord {α : Type} (xs : List α) : UInt64 := .ofNat xs.length

/-- The elements at a range of positions. -/
def slice {α : Type} (xs : List α) (range : UInt64 × UInt64) : List α :=
  (xs.take range.2.toNat).drop range.1.toNat

/-! ## Checks -/

/-- A positive count as a word. -/
def countWord (n : Int32) : UInt64 := .ofInt n.toInt

/-- **A count must be at least one.** -/
def requirePositive (name : Text) (n : Int32) : Run Unit :=
  if n < 1 then do
    Run.log .debug ("Rejected " ++ name ++ " = " ++ .ofInt n.toInt)
    .reject (.notPositive name n.toInt)
  else .done ()

/-- **The limits on pages and top counts**; zero is no limit. -/
structure Limits where
  /-- The largest page size. -/
  maxPageSize : UInt64 := 0
  /-- The largest top count. -/
  maxTopCount : UInt64 := 0
deriving DecidableEq

namespace Limits

/-- Whether a limit excludes a count. -/
def excludes (limit n : UInt64) : Bool := limit != 0 && decide (limit < n)

/-- **A page size must not be above its limit.** -/
def checkPageSize (limits : Limits) (size : UInt64) : Run Unit :=
  if excludes limits.maxPageSize size then do
    Run.log .debug ("Rejected page size " ++ .ofNat size.toNat ++ " (limit "
      ++ .ofNat limits.maxPageSize.toNat ++ ")")
    .reject (.pageSizeLimit size.toNat limits.maxPageSize.toNat)
  else .done ()

/-- **A top count must not be above its limit.** -/
def checkTopCount (limits : Limits) (count : UInt64) : Run Unit :=
  if excludes limits.maxTopCount count then do
    Run.log .debug ("Rejected top count " ++ .ofNat count.toNat ++ " (limit "
      ++ .ofNat limits.maxTopCount.toNat ++ ")")
    .reject (.topCountLimit count.toNat limits.maxTopCount.toNat)
  else .done ()

/-- The checks of a page and its size. -/
def requirePage (limits : Limits) (page size : Int32) : Run Unit := do
  requirePositive "page" page
  requirePositive "pageSize" size
  limits.checkPageSize (countWord size)

/-- The checks of a top count. -/
def requireTop (limits : Limits) (count : Int32) : Run Unit := do
  requirePositive "count" count
  limits.checkTopCount (countWord count)

end Limits

end Criteria
