import Criteria.Field

/-!
# Predicates

A predicate is a tree of conditions on an entity. A **leaf** is either described
by an expression together with the bindings of the fields it mentions, or it is a
function of the caller under a label. A **group** joins nodes by connectives,
strictly from left to right and without precedence; an empty group is true.

A predicate has two readings. `Predicate.test` evaluates the tree, and evaluates
no node that cannot change the verdict. `Predicate.describe` turns the tree into
one expression, which is possible exactly when every leaf is described; the
fields of the expression are looked up in `Predicate.bindings`.
-/

namespace Criteria

/-- **How a node is joined to those before it.** -/
inductive Connective
  | and | or
deriving DecidableEq

namespace Connective

/-- How a connective is written. -/
def name : Connective → Text
  | .and => "AND"
  | .or => "OR"

/-- The operator of a connective. -/
def op : Connective → BinaryOp
  | .and => .and
  | .or => .or

/-- Whether the node after the connective can still change the verdict. -/
def demands : Connective → Bool → Bool
  | .and, verdict => verdict
  | .or, verdict => !verdict

end Connective

/-- **A leaf of a predicate.** -/
inductive Leaf (T : Type)
  /-- A condition that is an expression over bound fields. -/
  | described (description : Expr) (bindings : Bindings T)
  /-- A function of the caller. -/
  | native (label : Text) (test : T → Run Bool)

namespace Leaf

variable {T : Type}

/-- **The verdict of a leaf.** -/
def test : Leaf T → T → Run Bool
  | .described description bindings, e => description.test (bindings.resolver e) none
  | .native _ f, e => f e

/-- Whether the leaf has a description. -/
def isDescribed : Leaf T → Bool
  | .described _ _ => true
  | .native _ _ => false

/-- The description of a leaf. A leaf without one is a fault, with a warning. -/
def describe : Leaf T → Run Expr
  | .described description _ => .done description
  | .native label _ => do
    Run.log .warning ("Predicate leaf '" ++ label ++ "' has no description; cannot translate")
    .fail (.notDescribable label)

/-- The bindings of a leaf. -/
def bindings : Leaf T → Bindings T
  | .described _ bindings => bindings
  | .native _ _ => {}

/-- The leaf as text. -/
def text : Leaf T → Except Fault Text
  | .described description _ => description.text
  | .native label _ => .ok ("<opaque:" ++ label ++ ">")

end Leaf

/-- **A node of a predicate.** Its form keeps the rule of groups: the first node
has no connective and every later one has one. -/
inductive Node (T : Type)
  /-- A leaf. -/
  | leaf (l : Leaf T)
  /-- The group of no nodes. -/
  | empty
  /-- A group, from its first node and the later ones. -/
  | group (first : Node T) (rest : List (Connective × Node T))

namespace Node

variable {T : Type}

/-! ## Groups from entries -/

/-- The first entry of a group must have a node and no connective. -/
def checkFirst : Option Connective × Option (Node T) → Except Fault (Node T)
  | (_, none) => .error (.argument (.missingNode 0))
  | (some _, some _) => .error (.argument .leadingConnective)
  | (none, some n) => .ok n

/-- Every later entry of a group, counted from `i`, must have a node and a
connective. -/
def checkRest : Nat → List (Option Connective × Option (Node T)) →
    Except Fault (List (Connective × Node T))
  | _, [] => .ok []
  | i, (_, none) :: _ => .error (.argument (.missingNode i))
  | i, (none, some _) :: _ => .error (.argument (.missingConnective i))
  | i, (some c, some n) :: entries => do
    let rest ← checkRest (i + 1) entries
    .ok ((c, n) :: rest)

/-- **The group of a list of entries**, which is refused for the first entry that
breaks the rule of groups. -/
def ofEntries : List (Option Connective × Option (Node T)) → Except Fault (Node T)
  | [] => .ok .empty
  | entry :: entries => do
    let first ← checkFirst entry
    let rest ← checkRest 1 entries
    .ok (.group first rest)

/-- Whether the node is a leaf. -/
def isLeaf : Node T → Bool
  | .leaf _ => true
  | _ => false

/-- The number of entries of a group. -/
def entryCount? : Node T → Option Nat
  | .leaf _ => none
  | .empty => some 0
  | .group _ rest => some (rest.length + 1)

/-! ## The two readings -/

mutual

/-- **The verdict of a node.** -/
def test (n : Node T) (e : T) : Run Bool :=
  match n with
  | .leaf l => l.test e
  | .empty => .done true
  | .group first rest => do
    let verdict ← test first e
    testRest rest e verdict

/-- The verdict of a group after some of its nodes, from the verdict so far. -/
def testRest (rest : List (Connective × Node T)) (e : T) (verdict : Bool) : Run Bool :=
  match rest with
  | [] => .done verdict
  | (c, n) :: rest =>
    if c.demands verdict then do
      let verdict ← test n e
      testRest rest e verdict
    else testRest rest e verdict

end

mutual

/-- Whether every leaf has a description. -/
def isDescribable : Node T → Bool
  | .leaf l => l.isDescribed
  | .empty => true
  | .group first rest => isDescribable first && restDescribable rest

/-- Whether every leaf of the later nodes of a group has a description. -/
def restDescribable : List (Connective × Node T) → Bool
  | [] => true
  | (_, n) :: rest => isDescribable n && restDescribable rest

end

mutual

/-- **The node as one expression**: the same nodes, joined in the same order. -/
def describe : Node T → Run Expr
  | .leaf l => l.describe
  | .empty => .done (.literal (.bool true))
  | .group first rest => do
    let e ← describe first
    describeRest e rest

/-- The expression of a group, from that of the nodes before. -/
def describeRest (before : Expr) : List (Connective × Node T) → Run Expr
  | [] => .done before
  | (c, n) :: rest => do
    let e ← describe n
    describeRest (.binary c.op before e) rest

end

mutual

/-- The bindings so far, with those of the leaves of a node in written order. -/
def mergeBindings (before : Bindings T) : Node T → Bindings T
  | .leaf l => before.merge l.bindings
  | .empty => before
  | .group first rest => mergeRest (mergeBindings before first) rest

/-- The bindings so far, with those of the later nodes of a group. -/
def mergeRest (before : Bindings T) : List (Connective × Node T) → Bindings T
  | [] => before
  | (_, n) :: rest => mergeRest (mergeBindings before n) rest

end

/-- **The bindings of the leaves**, the leftmost deciding for a name. -/
def bindings (n : Node T) : Bindings T := mergeBindings {} n

mutual

/-- **The node as text.** -/
def text : Node T → Except Fault Text
  | .leaf l => l.text
  | .empty => .ok "true"
  | .group first rest => do
    let written ← text first
    let later ← restText rest
    .ok ("(" ++ written ++ later ++ ")")

/-- The later nodes of a group as text, each after its connective. -/
def restText : List (Connective × Node T) → Except Fault Text
  | [] => .ok .empty
  | (c, n) :: rest => do
    let written ← text n
    let later ← restText rest
    .ok (" " ++ c.name ++ " " ++ written ++ later)

end

end Node

/-- **A built predicate.** -/
structure Predicate (T : Type) where
  /-- The tree of its conditions. -/
  root : Node T

namespace Predicate

variable {T : Type}

/-- The predicate of a root that is there. -/
def ofNode : Option (Node T) → Except Fault (Predicate T)
  | none => .error (.argument .missingRoot)
  | some root => .ok ⟨root⟩

/-- The predicate that is true of every entity. -/
def always : Predicate T := ⟨.empty⟩

/-- The label of a function without one. -/
def defaultLabel : Text := "<opaque predicate>"

/-- The leaf of a function of the caller. -/
def nativeLeaf (label : Text) (f : T → Run Bool) : Node T :=
  .leaf <| .native label fun e => do
    Run.event .called
    f e

/-- **The predicate of a function of the caller**, which must be there. -/
def ofFunction (f : Callable T Bool) (label : Text := defaultLabel) :
    Except Fault (Predicate T) :=
  match f with
  | none => .error (.argument .missingPredicate)
  | some f => .ok ⟨nativeLeaf label f⟩

/-- **The predicate of a description**, which must be there and must not refer to
a value. Its leaf gets the text of the description for a label, which nothing reads; the
description must have a text all the same. -/
def ofDescription (description : Expr) (bindings : Bindings T) :
    Except Fault (Predicate T) :=
  if description.isAbsent then .error (.argument .missingDescription)
  else if description.containsValueRef then do
    let text ← description.text
    .error (.argument (.unboundDescription text))
  else do
    let _label ← description.text
    .ok ⟨.leaf (.described description bindings)⟩

/-- **Whether the predicate holds of an entity.** -/
def test (p : Predicate T) (e : T) : Run Bool := p.root.test e

/-- Whether the predicate can be described. -/
def isDescribable (p : Predicate T) : Bool := p.root.isDescribable

/-- **The description of the predicate**, of its negation if `negate` is set. -/
def describe (p : Predicate T) (negate : Bool := false) : Run Expr := do
  let e ← p.root.describe
  .done (if negate then .not e else e)

/-- The bindings under which the description is to be read. -/
def bindings (p : Predicate T) : Bindings T := p.root.bindings

/-- The predicate as text. -/
def text (p : Predicate T) : Except Fault Text := p.root.text

end Predicate

end Criteria
