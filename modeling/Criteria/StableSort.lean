import Criteria.Run

/-!
# Stable sorting

A comparison may end in a fault, and then so does the sort that made it. Which
of several faults that is depends on the comparisons that come before it, so the
order of the comparisons is part of what sorting means here:

* the list is cut into halves, the first of them longer by one if the length is
  odd, and each half is sorted by itself (`sortHalf`): its chunks of seven elements
  by insertion (`sortChunk`), and then neighbouring chunks are merged until one is
  left (`mergeChunks`);
* the sorted halves are merged, from the front if they are equally long and from
  the back if not (`mergeHalves`).

Every comparison asks whether an element comes before one that was ahead of it.
**Elements of which neither comes before the other keep their order**, since
insertion and merging move an element only past those that it comes before.
-/

namespace Criteria

namespace StableSort

variable {T : Type}

/-! ## Insertion -/

/-- A sorted list from its last element to its first, with one more element: behind
those it comes before, and ahead of all others. -/
def insertFromBack (before : T → T → Run Bool) (a : T) : List T → Run (List T)
  | [] => .done [a]
  | b :: rest => do
    if ← before a b then
      let rest ← insertFromBack before a rest
      .done (b :: rest)
    else .done (a :: b :: rest)

/-- A sorted list from its last element to its first, with one more element. It is
compared with the first one at the start, and with the others only if it has to
stay behind that. -/
def insert (before : T → T → Run Bool) (fromBack : List T) (a : T) : Run (List T) :=
  match fromBack.getLast? with
  | none => .done [a]
  | some first => do
    if ← before a first then .done (fromBack ++ [a])
    else insertFromBack before a fromBack

/-- A chunk in order: its elements are inserted first to last. -/
def sortChunk (before : T → T → Run Bool) (chunk : List T) : Run (List T) := do
  let fromBack ← Run.fold (insert before) [] chunk
  .done fromBack.reverse

/-! ## Merging -/

/-- An element among those of a sorted list: those that come before it are ahead of
it, and it is followed by what `next` makes of the others. -/
def place (before : T → T → Run Bool) (a : T) (next : List T → Run (List T)) :
    List T → Run (List T)
  | [] => do
    let rest ← next []
    .done (a :: rest)
  | b :: bs => do
    if ← before b a then
      let rest ← place before a next bs
      .done (b :: rest)
    else
      let rest ← next (b :: bs)
      .done (a :: rest)

/-- **Two sorted lists as one**, merged from the front. An element of the second list
goes ahead of those of the first that it comes before. -/
def merge (before : T → T → Run Bool) : List T → List T → Run (List T)
  | [], bs => .done bs
  | a :: as, bs => place before a (merge before as) bs

/-- Two sorted lists as one, merged from the back. -/
def mergeFromBack (before : T → T → Run Bool) (as bs : List T) : Run (List T) := do
  let fromBack ← merge (fun a b => before b a) bs.reverse as.reverse
  .done fromBack.reverse

/-- Every two neighbouring chunks as one. -/
def mergePairs (before : T → T → Run Bool) : List (List T) → Run (List (List T))
  | as :: bs :: rest => do
    let merged ← merge before as bs
    let rest ← mergePairs before rest
    .done (merged :: rest)
  | chunks => .done chunks

/-- All chunks as one, after rounds in which every two neighbours are merged. -/
def mergeChunks (before : T → T → Run Bool) : Nat → List (List T) → Run (List T)
  | 0, chunks => .done chunks.flatten
  | rounds + 1, chunks => do
    let chunks ← mergePairs before chunks
    mergeChunks before rounds chunks

/-! ## Sorting -/

/-- The first chunk of a list, which has room for the given number of elements, and
the chunks of seven after it. -/
def cut : Nat → List T → List T × List (List T)
  | _, [] => ([], [])
  | 0, a :: rest =>
    let (chunk, chunks) := cut 6 rest
    ([], (a :: chunk) :: chunks)
  | room + 1, a :: rest =>
    let (chunk, chunks) := cut room rest
    (a :: chunk, chunks)

/-- The chunks of seven elements, of which the last one may be shorter. -/
def chunks (xs : List T) : List (List T) :=
  let (chunk, chunks) := cut 7 xs
  chunk :: chunks

/-- A half in order. There are as many rounds as chunks, so that one is left. -/
def sortHalf (before : T → T → Run Bool) (xs : List T) : Run (List T) := do
  let sorted ← Run.each (sortChunk before) (chunks xs)
  mergeChunks before sorted.length sorted

/-- The two halves of a list, in order, as one list. -/
def mergeHalves (before : T → T → Run Bool) (as bs : List T) : Run (List T) :=
  if as.length ≤ bs.length then merge before as bs else mergeFromBack before as bs

/-- **A list in order**, by whether one element comes before another. -/
def sort (before : T → T → Run Bool) (xs : List T) : Run (List T) := do
  let half := (xs.length + 1) / 2
  let as ← sortHalf before (xs.take half)
  let bs ← sortHalf before (xs.drop half)
  mergeHalves before as bs

/-! ## Chunks -/

/-- Cutting loses nothing. -/
theorem flatten_cut (room : Nat) (xs : List T) :
    (cut room xs).1 ++ (cut room xs).2.flatten = xs := by
  induction xs generalizing room with
  | nil => cases room <;> rfl
  | cons a rest ih =>
    cases room with
    | zero => simpa [cut] using ih 6
    | succ room => simpa [cut] using ih room

/-- The chunks hold the list. -/
theorem flatten_chunks (xs : List T) : (chunks xs).flatten = xs := flatten_cut 7 xs

end StableSort

end Criteria
