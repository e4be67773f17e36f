/-!
# Search trees

A `SearchTree` holds elements that an order tells apart, from left to right. Whether
one is there is decided by the search for its place: of the elements on the way, the
last one to the left of the place has to come before it (`SearchTree.contains`).

For an order that is transitive this finds the element wherever it is
(`SearchTree.exists_split` says what the search compares). For an order that is not,
such as that of numbers of several kinds, it depends on the shape of the tree which
elements are compared, and so **the shape is part of the definition**: a red-black
tree, whose nodes change colour while there is a red one on either side, and turn
otherwise.
-/

namespace Criteria

/-- The colour of a node. No red node is below a red one. -/
inductive NodeColor
  | red | black
deriving DecidableEq

/-- **A search tree.** -/
inductive SearchTree (α : Type)
  /-- The tree without elements. -/
  | leaf
  /-- An element between those to the left of it and those to the right. -/
  | node (color : NodeColor) (left : SearchTree α) (a : α) (right : SearchTree α)

namespace SearchTree

variable {α : Type}

/-- The elements from left to right. -/
def toList : SearchTree α → List α
  | leaf => []
  | node _ l a r => l.toList ++ a :: r.toList

/-! ## Search -/

/-- The last element to the left of the place of `x`, given the last one to the left
of the whole tree. -/
def lastBefore? (less : α → α → Bool) (x : α) (left : Option α) : SearchTree α → Option α
  | leaf => left
  | node _ l a r =>
    if less x a then lastBefore? less x left l else lastBefore? less x (some a) r

/-- **Whether an element is there**: the last one to the left of its place does not
come before it. -/
def contains (less : α → α → Bool) (t : SearchTree α) (x : α) : Bool :=
  match t.lastBefore? less x none with
  | none => false
  | some a => !less a x

/-! ## Insertion -/

/-- A black node with an element added on its left. Two red nodes in a row change
colour with the red node on the other side, or turn if there is none. -/
def mendLeft : SearchTree α → α → SearchTree α → SearchTree α
  | node .red (node .red a x b) y c, z, node .red d u e =>
    node .red (node .black (node .red a x b) y c) z (node .black d u e)
  | node .red a x (node .red b y c), z, node .red d u e =>
    node .red (node .black a x (node .red b y c)) z (node .black d u e)
  | node .red (node .red a x b) y c, z, d =>
    node .black (node .red a x b) y (node .red c z d)
  | node .red a x (node .red b y c), z, d =>
    node .black (node .red a x b) y (node .red c z d)
  | l, z, r => node .black l z r

/-- A black node with an element added on its right. -/
def mendRight : SearchTree α → α → SearchTree α → SearchTree α
  | node .red a x b, y, node .red (node .red c z d) u e =>
    node .red (node .black a x b) y (node .black (node .red c z d) u e)
  | node .red a x b, y, node .red c z (node .red d u e) =>
    node .red (node .black a x b) y (node .black c z (node .red d u e))
  | a, x, node .red (node .red b y c) z d =>
    node .black (node .red a x b) y (node .red c z d)
  | a, x, node .red b y (node .red c z d) =>
    node .black (node .red a x b) y (node .red c z d)
  | l, z, r => node .black l z r

/-- A tree with one more element, as a red leaf that the nodes above make up for. -/
def addBelow (less : α → α → Bool) (x : α) : SearchTree α → SearchTree α
  | leaf => node .red leaf x leaf
  | node .black l a r =>
    if less x a then mendLeft (addBelow less x l) a r else mendRight l a (addBelow less x r)
  | node .red l a r =>
    if less x a then node .red (addBelow less x l) a r else node .red l a (addBelow less x r)

/-- A tree whose root is black. -/
def blacken : SearchTree α → SearchTree α
  | leaf => leaf
  | node _ l a r => node .black l a r

/-- **A tree with one more element.** -/
def add (less : α → α → Bool) (t : SearchTree α) (x : α) : SearchTree α :=
  blacken (addBelow less x t)

/-! ## Elements -/

@[simp] theorem toList_leaf : (leaf : SearchTree α).toList = [] := rfl

@[simp] theorem toList_node (color : NodeColor) (l : SearchTree α) (a : α)
    (r : SearchTree α) : (node color l a r).toList = l.toList ++ a :: r.toList := rfl

@[simp] theorem toList_blacken (t : SearchTree α) : t.blacken.toList = t.toList := by
  cases t <;> rfl

@[simp] theorem toList_mendLeft (l : SearchTree α) (a : α) (r : SearchTree α) :
    (mendLeft l a r).toList = l.toList ++ a :: r.toList := by
  unfold mendLeft
  split <;> simp

@[simp] theorem toList_mendRight (l : SearchTree α) (a : α) (r : SearchTree α) :
    (mendRight l a r).toList = l.toList ++ a :: r.toList := by
  unfold mendRight
  split <;> simp

/-- **What the search compares.** The place of an element divides the tree; the
element does not come before the last one to the left, comes before the first one to
the right, and is added between them. -/
theorem exists_split (less : α → α → Bool) (x : α) (t : SearchTree α) :
    ∃ as bs, t.toList = as ++ bs ∧ (t.add less x).toList = as ++ x :: bs ∧
      t.lastBefore? less x none = as.getLast? ∧
      (∀ a ∈ as.getLast?, less x a = false) ∧ (∀ b ∈ bs.head?, less x b = true) := by
  have below (left : Option α) : ∃ as bs, t.toList = as ++ bs ∧
      (addBelow less x t).toList = as ++ x :: bs ∧
      t.lastBefore? less x left = as.getLast?.or left ∧
      (∀ a ∈ as.getLast?, less x a = false) ∧ (∀ b ∈ bs.head?, less x b = true) := by
    induction t generalizing left with
    | leaf => exact ⟨[], [], by simp [lastBefore?, addBelow]⟩
    | node color l a r ihl ihr =>
      by_cases h : less x a = true
      · obtain ⟨as, bs, hl, hadd, hlast, hbefore, hafter⟩ := ihl left
        refine ⟨as, bs ++ a :: r.toList, by simp [hl], ?_, by simp [lastBefore?, h, hlast],
          hbefore, ?_⟩
        · cases color <;> simp [addBelow, h, hadd]
        · cases bs with
          | nil => simpa using h
          | cons b bs => simpa using hafter
      · obtain ⟨as, bs, hr, hadd, hlast, hbefore, hafter⟩ := ihr (some a)
        refine ⟨l.toList ++ a :: as, bs, by simp [hr], ?_, ?_, ?_, hafter⟩
        · cases color <;> simp [addBelow, h, hadd]
        · cases as <;> simp_all [lastBefore?, List.getLast?_cons]
        · cases as with
          | nil => simpa using h
          | cons c cs => simpa [List.getLast?_cons] using hbefore
  obtain ⟨as, bs, hlist, hadd, hlast, hbefore, hafter⟩ := below none
  exact ⟨as, bs, hlist, by simpa [add] using hadd, by simpa using hlast, hbefore, hafter⟩

end SearchTree

end Criteria
