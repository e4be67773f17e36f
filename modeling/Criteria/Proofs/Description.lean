import Criteria.Evaluator
import Criteria.Proofs.Interpretation
import Criteria.Proofs.Lookup

/-!
# The two readings of a predicate agree

A predicate is tested node by node, and it is described by one expression. Both go
through the tree in the same order, but by recursions of their own: a test folds
verdicts, the description folds expressions, and only its interpretation folds
verdicts again.

`Node.exists_description` ties the two together for any relation between runs: if the
leaves, each read under its own bindings, are related to their descriptions under one
resolver, so is the whole tree. For the merged bindings of the predicate and equality
of runs that is the agreement of the two readings (`Predicate.describe_test`), which
covers the verdict, the fault, and every field that is read on the way.
-/

namespace Criteria

variable {T : Type}

/-- **The truth value of two expressions joined by a connective**: the second one counts
only if the connective still demands it. -/
theorem Expr.test_connective (c : Connective) (r : Resolver) (value : Option Value)
    (a b : Expr) :
    (Expr.binary c.op a b).test r value
      = (a.test r value >>= fun verdict =>
          if c.demands verdict then b.test r value else .done verdict) := by
  cases c with
  | and =>
    rw [Connective.op, test_and]
    refine congrArg (a.test r value >>= ·) (funext fun verdict => ?_)
    cases verdict <;> rfl
  | or =>
    rw [Connective.op, test_or]
    refine congrArg (a.test r value >>= ·) (funext fun verdict => ?_)
    cases verdict <;> rfl

namespace Node

/-- Where no node is left, the verdict stays. -/
theorem bind_testRest_nil (x : Run Bool) (e : T) : x >>= testRest [] e = x := Run.bind_done x

/-- Going on through a group from a verdict is going on from the verdict on one more
node, which is only tested if it is still demanded. -/
theorem bind_testRest_cons (x : Run Bool) (c : Connective) (n : Node T)
    (rest : List (Connective × Node T)) (e : T) :
    x >>= testRest ((c, n) :: rest) e
      = (x >>= fun v => if c.demands v then n.test e else .done v) >>= testRest rest e := by
  rw [Run.bind_bind]
  refine congrArg (x >>= ·) (funext fun v => ?_)
  show (if c.demands v then n.test e >>= testRest rest e else testRest rest e v) = _
  split <;> rfl

mutual

/-- **A tree of described leaves has a description**, and reading the tree is reading
the description as far as reading each leaf is. -/
theorem exists_description (n : Node T) (h : n.isDescribable = true) :
    ∃ d, n.describe = .done d ∧
      ∀ (R : {α : Type} → Run α → Run α → Prop), Run.Congruence R →
        ∀ (r : Expr.Resolver) (e : T),
          (∀ c b, .described c b ∈ n.leaves → R (c.test (b.resolver e) none) (c.test r none)) →
          R (n.test e) (d.test r none) := by
  match n with
  | .leaf (.described c b) =>
    exact ⟨c, rfl, fun R _ r e hl => hl c b (List.mem_singleton_self _)⟩
  | .leaf (.native label f) => exact absurd h Bool.false_ne_true
  | .empty => exact ⟨.literal (.bool true), rfl, fun R hR r e _ => hR.refl _⟩
  | .group first rest =>
    obtain ⟨hfirst, hrest⟩ := (Bool.and_eq_true _ _).mp h
    obtain ⟨d, hd, hdr⟩ := exists_description first hfirst
    obtain ⟨d', hd', hdr'⟩ := exists_restDescription rest hrest d
    refine ⟨d', ?_, fun R hR r e hl => ?_⟩
    · unfold describe
      rw [hd]
      exact hd'
    · exact hdr' R hR r e (first.test e)
        (hdr R hR r e fun c b hc => hl c b (List.mem_append_left _ hc))
        (fun c b hc => hl c b (List.mem_append_right _ hc))

/-- The later nodes of a group extend the description of those before, and reading on
from a verdict on those before is reading the extended description. -/
theorem exists_restDescription (rest : List (Connective × Node T))
    (h : restDescribable rest = true) (before : Expr) :
    ∃ d, describeRest before rest = .done d ∧
      ∀ (R : {α : Type} → Run α → Run α → Prop), Run.Congruence R →
        ∀ (r : Expr.Resolver) (e : T) (x : Run Bool), R x (before.test r none) →
          (∀ c b, .described c b ∈ restLeaves rest →
            R (c.test (b.resolver e) none) (c.test r none)) →
          R (x >>= testRest rest e) (d.test r none) := by
  match rest with
  | [] =>
    refine ⟨before, rfl, fun R _ r e x hx _ => ?_⟩
    rw [bind_testRest_nil]
    exact hx
  | (c, n) :: rest =>
    obtain ⟨hn, hrest⟩ := (Bool.and_eq_true _ _).mp h
    obtain ⟨d, hd, hdr⟩ := exists_description n hn
    obtain ⟨d', hd', hdr'⟩ := exists_restDescription rest hrest (.binary c.op before d)
    refine ⟨d', ?_, fun R hR r e x hx hl => ?_⟩
    · unfold describeRest
      rw [hd]
      exact hd'
    · -- the induction continues from the verdict up to and including the node
      rw [bind_testRest_cons]
      refine hdr' R hR r e _ ?_ fun c b hc => hl c b (List.mem_append_right _ hc)
      rw [Expr.test_connective]
      refine hR.bind hx fun v => ?_
      split
      · exact hdr R hR r e fun c b hc => hl c b (List.mem_append_left _ hc)
      · exact hR.refl _

end

/-- **One getter for a name**: any two leaves that bind a name bind it to the same
getter. -/
def Consistent (n : Node T) : Prop :=
  ∀ l ∈ n.leaves, ∀ m ∈ n.leaves, ∀ name g h,
    l.bindings.getter? name = some g → m.bindings.getter? name = some h → g = h

/-- A tree is consistent if one table of getters serves all its leaves. -/
theorem consistent_of_common {n : Node T} (b : Bindings T)
    (hb : ∀ l ∈ n.leaves, ∀ name g, l.bindings.getter? name = some g → b.getter? name = some g) :
    n.Consistent := by
  intro l hl m hm name g h hg hh
  exact Option.some.inj ((hb l hl name g hg).symm.trans (hb m hm name h hh))

/-- In a consistent tree the merged bindings serve every leaf as well as its own. -/
theorem Consistent.getter?_bindings {n : Node T} (hn : n.Consistent) {l : Leaf T}
    (hl : l ∈ n.leaves) {name : Text} {g : T → Run Value}
    (hg : l.bindings.getter? name = some g) : n.bindings.getter? name = some g := by
  cases hfirst : n.bindings.getter? name with
  | none =>
    rw [getter?_leaf_of_none hfirst hl] at hg
    cases hg
  | some g' =>
    obtain ⟨m, hm, hg'⟩ := exists_leaf_of_getter? hfirst
    rw [hn m hm l hl name g' g hg' hg]

end Node

/-- **The bindings of a leaf cover its description**: every field that stands in it is
bound. -/
def Leaf.Covered (l : Leaf T) : Prop :=
  match l with
  | .described c b => ∀ name ∈ c.fields, b.has name = true
  | .native _ _ => True

/-- Two bindings that agree on a name resolve it by the same run. -/
theorem Bindings.resolve_congr {b b' : Bindings T} {name : Text}
    (h : b.getter? name = b'.getter? name) (e : T) :
    Expr.resolve (b.resolver e) name = Expr.resolve (b'.resolver e) name := by
  show (Run.event (.read name) >>= fun _ => b.valueOf e name)
    = (Run.event (.read name) >>= fun _ => b'.valueOf e name)
  rw [Bindings.valueOf, Bindings.valueOf, h]

namespace Predicate

/-- Describing a negation is describing the predicate and negating. -/
theorem describe_of_done {p : Predicate T} {d : Expr} (h : p.root.describe = .done d)
    (negate : Bool) : p.describe negate = .done (if negate then .not d else d) := by
  unfold describe
  rw [h]
  rfl

/-- The description of a negation has the verdict of an evaluator of that sign. -/
theorem test_sign (negate : Bool) (r : Expr.Resolver) (d : Expr) :
    (if negate then Expr.not d else d).test r none
      = (d.test r none >>= fun verdict => .done (verdict != negate)) := by
  cases negate with
  | true =>
    rw [if_pos rfl, Expr.test_not]
    exact congrArg (d.test r none >>= ·) (funext fun verdict => by cases verdict <;> rfl)
  | false =>
    rw [if_neg Bool.false_ne_true]
    refine (Run.bind_done _).symm.trans ?_
    exact congrArg (d.test r none >>= ·) (funext fun verdict => by cases verdict <;> rfl)

/-- **The two readings of a predicate agree.** If every leaf is described, binds the
fields it mentions, and shares the getters of names with the others, then testing the
predicate is one and the same run as interpreting its description under its bindings:
the same verdict or the same fault, after reading the same fields in the same order.
Likewise an evaluator of either sign and the description of that sign. -/
theorem describe_test (p : Predicate T) (described : p.isDescribable = true)
    (covered : ∀ l ∈ p.root.leaves, l.Covered) (consistent : p.root.Consistent) :
    (∃ d, p.describe = .done d ∧ ∀ e, p.test e = d.test (p.bindings.resolver e) none) ∧
      ∀ (negate : Bool) (limits : Limits), ∃ d, p.describe negate = .done d ∧
        ∀ e, (Evaluator.mk p negate limits).evaluate e = d.test (p.bindings.resolver e) none := by
  obtain ⟨d, hd, hread⟩ := p.root.exists_description described
  -- a leaf resolves its fields by the merged bindings as by its own
  have leafwise (e : T) (c : Expr) (b : Bindings T) (hc : .described c b ∈ p.root.leaves) :
      c.test (b.resolver e) none = c.test (p.bindings.resolver e) none := by
    refine Expr.test_related Run.congruence_eq none c fun name hname => ?_
    refine Bindings.resolve_congr ?_ e
    obtain ⟨g, hg⟩ := Option.isSome_iff_exists.mp (covered _ hc name hname)
    rw [hg]
    exact (consistent.getter?_bindings hc hg).symm
  have agree (e : T) : p.test e = d.test (p.bindings.resolver e) none :=
    hread _ Run.congruence_eq _ e (leafwise e)
  refine ⟨⟨d, describe_of_done hd false, agree⟩, fun negate limits => ?_⟩
  refine ⟨if negate then .not d else d, describe_of_done hd negate, fun e => ?_⟩
  rw [test_sign, ← agree]
  rfl

/-- A flag of a pair, by name. -/
def flagField (name : Text) (pick : Bool × Bool → Bool) (named : name.isEmpty = false) :
    Field (Bool × Bool) .bool :=
  ⟨name, fun e => .done (pick e), named⟩

/-- The leaf that a flag is set. -/
def flagLeaf (f : Field (Bool × Bool) .bool) : Leaf (Bool × Bool) :=
  .described (.binary .eq f.expr (.literal (.bool true))) (.bind {} f)

/-- The first flag of a pair. -/
def leftFlag : Field (Bool × Bool) .bool := flagField "left" Prod.fst rfl

/-- The second flag of a pair. -/
def rightFlag : Field (Bool × Bool) .bool := flagField "right" Prod.snd rfl

/-- Nested groups over two flags, one of them mentioned twice. -/
def flags : Predicate (Bool × Bool) where
  root := .group (.leaf (flagLeaf leftFlag))
    [(.and, .empty), (.or, .group (.leaf (flagLeaf rightFlag)) [(.and, .leaf (flagLeaf leftFlag))])]

/-- The bindings of the two flags. -/
def flagBindings : Bindings (Bool × Bool) := .bind (.bind {} leftFlag) rightFlag

/-- The leaves of the sample bind the flags as they are bound together. -/
theorem flags_bound : ∀ l ∈ flags.root.leaves, ∀ name g,
    l.bindings.getter? name = some g → flagBindings.getter? name = some g := by
  have hleaves : flags.root.leaves
      = [flagLeaf leftFlag, flagLeaf rightFlag, flagLeaf leftFlag] := rfl
  rw [hleaves]
  intro l hl name g hg
  simp only [List.mem_cons, List.not_mem_nil, or_false] at hl
  rcases hl with rfl | rfl | rfl <;>
  · obtain ⟨rfl, hg⟩ := Option.ite_none_right_eq_some.mp
      ((Bindings.getter?_bind_empty _ _).symm.trans hg)
    exact hg

/-- The leaves of the sample cover their descriptions. -/
theorem flags_covered : ∀ l ∈ flags.root.leaves, l.Covered := by
  have hleaves : flags.root.leaves
      = [flagLeaf leftFlag, flagLeaf rightFlag, flagLeaf leftFlag] := rfl
  rw [hleaves]
  intro l hl
  simp only [List.mem_cons, List.not_mem_nil, or_false] at hl
  rcases hl with rfl | rfl | rfl <;>
  · intro name hname
    rw [List.mem_singleton.mp hname]
    rfl

/-- The two readings agree on nested groups over two flags. -/
theorem describe_test_flags :
    flags.isDescribable = true ∧ (∀ l ∈ flags.root.leaves, l.Covered) ∧
      flags.root.Consistent ∧
      (∃ d, flags.describe = .done d ∧
        ∀ e, flags.test e = d.test (flags.bindings.resolver e) none) ∧
      ∀ (negate : Bool) (limits : Limits), ∃ d, flags.describe negate = .done d ∧
        ∀ e, (Evaluator.mk flags negate limits).evaluate e
          = d.test (flags.bindings.resolver e) none :=
  have hconsistent := Node.consistent_of_common flagBindings flags_bound
  ⟨rfl, flags_covered, hconsistent, describe_test flags rfl flags_covered hconsistent⟩

end Predicate

end Criteria
