import Criteria.Paging
import Criteria.Predicate
import Criteria.SortOrder

/-!
# Evaluation in memory

An `Evaluator` is a predicate, a sign and limits. An entity **passes** if the
predicate's verdict differs from `negate`. Every operation on a list of entities
filters first; where it takes a sort order it sorts what passed, stably, and
without one it keeps the order of the list.

This module holds the operations that select entities: the first and the last,
all, pages, tops, entities with distinct or repeated keys, and positions.
Reductions are in `Criteria.Evaluator.Reduction`, groups in
`Criteria.Evaluator.Grouping`.

The fast forms agree with the plain ones by what they scan: the first and the
last entity are found in one pass without sorting, the earlier of equals being
first and the later last.
-/

namespace Criteria

/-- **A predicate with a sign and limits.** -/
structure Evaluator (T : Type) where
  /-- The condition. -/
  predicate : Predicate T := .always
  /-- Whether the entities that fail the condition are wanted. -/
  negate : Bool := false
  /-- The limits on pages and tops. -/
  limits : Limits := {}

namespace Evaluator

variable {T : Type}

/-- The evaluator of the opposite sign. -/
def negated (v : Evaluator T) : Evaluator T := { v with negate := !v.negate }

/-- **Whether an entity passes.** -/
def evaluate (v : Evaluator T) (e : T) : Run Bool := do
  let verdict ← v.predicate.test e
  .done (verdict != v.negate)

/-- Whether passing is as wanted. -/
def accepts (v : Evaluator T) (wanted : Bool) (e : T) : Run Bool := do
  let passed ← v.evaluate e
  .done (passed == wanted)

/-- Whether some entity passes. -/
def any (v : Evaluator T) (source : List T) : Run Bool := Run.exist v.evaluate source

/-- How many entities pass. -/
def count (v : Evaluator T) (source : List T) : Run Nat := do
  let passed ← Run.keep v.evaluate source
  .done passed.length

/-! ## All entities that pass -/

/-- **The entities that are accepted, in order.** -/
def select (v : Evaluator T) (source : List T) (order : Option (SortOrder T))
    (wanted : Bool) : Run (List T) := do
  let accepted ← Run.keep (v.accepts wanted) source
  arrange order accepted

/-- The entities that pass. -/
def all (v : Evaluator T) (source : List T) (order : Option (SortOrder T) := none) :
    Run (List T) :=
  v.select source order true

/-- The entities that do not pass. -/
def allFailed (v : Evaluator T) (source : List T) (order : Option (SortOrder T) := none) :
    Run (List T) :=
  v.select source order false

/-! ## The first and the last -/

/-- The better of two entities, the first one for want of another. -/
def earlier (order : SortOrder T) (best : Option T) (e : T) : Run (Option T) :=
  match best with
  | none => .done (some e)
  | some b => do
    let o ← order.compare e b
    .done (if o = .lt then some e else some b)

/-- The later of two entities in order, the second one of equals. -/
def later (order : SortOrder T) (best : Option T) (e : T) : Run (Option T) :=
  match best with
  | none => .done (some e)
  | some b => do
    let o ← order.compare e b
    .done (if o = .lt then some b else some e)

/-- One pass that chooses among the accepted entities. -/
def scan (v : Evaluator T) (wanted : Bool) (choose : Option T → T → Run (Option T))
    (source : List T) : Run (Option T) :=
  Run.fold (fun best e => do
    if ← v.accepts wanted e then choose best e else .done best) none source

/-- **The first accepted entity**; without an order nothing after it is tested. -/
def firstWhere (v : Evaluator T) (source : List T) (order : Option (SortOrder T))
    (wanted : Bool) : Run (Option T) :=
  match order with
  | none => Run.first? (v.accepts wanted) source
  | some order => v.scan wanted (earlier order) source

/-- **The last accepted entity.** -/
def lastWhere (v : Evaluator T) (source : List T) (order : Option (SortOrder T))
    (wanted : Bool) : Run (Option T) :=
  match order with
  | none => v.scan wanted (fun _ e => .done (some e)) source
  | some order => v.scan wanted (later order) source

/-- The first entity that passes. -/
def first (v : Evaluator T) (source : List T) (order : Option (SortOrder T) := none) :
    Run (Option T) :=
  v.firstWhere source order true

/-- The first entity that does not pass. -/
def firstFailed (v : Evaluator T) (source : List T)
    (order : Option (SortOrder T) := none) : Run (Option T) :=
  v.firstWhere source order false

/-- The last entity that passes. -/
def last (v : Evaluator T) (source : List T) (order : Option (SortOrder T) := none) :
    Run (Option T) :=
  v.lastWhere source order true

/-- The last entity that does not pass. -/
def lastFailed (v : Evaluator T) (source : List T)
    (order : Option (SortOrder T) := none) : Run (Option T) :=
  v.lastWhere source order false

/-! ## Pages and tops -/

/-- **One page of the entities that pass.** A page past the end is empty. -/
def paged (v : Evaluator T) (source : List T) (page size : Int32)
    (order : Option (SortOrder T) := none) : Run (List T) := do
  v.limits.requirePage page size
  let passed ← v.select source order true
  .done (slice passed (pageRange (lengthWord passed) (countWord page) (countWord size)))

/-- **The first `count` entities that pass.** -/
def top (v : Evaluator T) (source : List T) (count : Int32)
    (order : Option (SortOrder T) := none) : Run (List T) := do
  v.limits.requireTop count
  let passed ← v.select source order true
  .done (passed.take (countWord count).toNat)

/-- **A page together with the block of pages it stands in.** -/
structure PagedBlock (T : Type) where
  /-- The entities of the page. -/
  items : List T
  /-- The number of the page. -/
  page : Int32
  /-- The size of a page. -/
  pageSize : Int32
  /-- How many pages make a block. -/
  blockSize : Int32
  /-- How many entities the block holds. -/
  totalInBlock : UInt64
  /-- Whether entities follow the block. -/
  hasMoreBlocks : Bool

/-- **A page and its block.** The pages from the first one on are in blocks of
`blockSize`. -/
def pagedBlock (v : Evaluator T) (source : List T) (page size blockSize : Int32)
    (order : Option (SortOrder T) := none) : Run (PagedBlock T) := do
  requirePositive "page" page
  requirePositive "pageSize" size
  requirePositive "blockSize" blockSize
  v.limits.checkPageSize (countWord size)
  let passed ← v.select source order true
  let total := lengthWord passed
  let block := (countWord page - 1) / countWord blockSize
  let span := saturatingProduct (countWord size) (countWord blockSize)
  let blockRange := pageRange total (block + 1) span
  .done {
    items := slice passed (pageRange total (countWord page) (countWord size))
    page := page
    pageSize := size
    blockSize := blockSize
    totalInBlock := blockRange.2 - blockRange.1
    hasMoreBlocks := decide (blockRange.2 < total) }

/-! ## Distinct and repeated keys -/

/-- The entities whose key none before them has, given the keys so far. -/
def firstOfKeys {K : Type} [BEq K] (selector : Callable T K) (seen : List K) :
    List T → Run (List T)
  | [] => .done []
  | e :: rest => do
    let k ← Run.call selector e
    if seen.any (· == k) then firstOfKeys selector seen rest
    else
      let kept ← firstOfKeys selector (seen ++ [k]) rest
      .done (e :: kept)

/-- **The first entity of every key**, among those that pass. -/
def distinct {K : Type} [BEq K] (v : Evaluator T) (source : List T)
    (selector : Callable T K) (order : Option (SortOrder T) := none) : Run (List T) := do
  Run.requireCallable "selector" selector
  let passed ← v.select source order true
  firstOfKeys selector [] passed

/-- **Every entity whose key another one shares**, among those that pass. -/
def duplicates {K : Type} [BEq K] (v : Evaluator T) (source : List T)
    (selector : Callable T K) (order : Option (SortOrder T) := none) : Run (List T) := do
  Run.requireCallable "selector" selector
  let passed ← v.select source order true
  let keys ← Run.each (Run.call selector) passed
  let repeated (k : K) : Bool := decide (1 < (keys.filter (· == k)).length)
  .done (((passed.zip keys).filter fun entry => repeated entry.2).map (·.1))

/-! ## Positions in the ordered source -/

/-- The position of the first entity that passes, counted from `i`. -/
def positionFrom (v : Evaluator T) : Nat → List T → Run (Option Nat)
  | _, [] => .done none
  | i, e :: rest => do
    if ← v.evaluate e then .done (some i) else v.positionFrom (i + 1) rest

/-- **Where the first entity that passes stands** in the whole source, in order. -/
def firstIndex (v : Evaluator T) (source : List T)
    (order : Option (SortOrder T) := none) : Run (Option Nat) := do
  let items ← arrange order source
  v.positionFrom 0 items

/-- **Where the last entity that passes stands** in the whole source, in order; the
search starts at the end. -/
def lastIndex (v : Evaluator T) (source : List T)
    (order : Option (SortOrder T) := none) : Run (Option Nat) := do
  let items ← arrange order source
  let fromEnd ← v.positionFrom 0 items.reverse
  .done (fromEnd.map (items.length - 1 - ·))

end Evaluator

end Criteria
