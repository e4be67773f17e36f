import Criteria.Predicate
import Criteria.Proofs.Sequencing

/-!
# What the bindings of a predicate bind

The bindings of a predicate are those of its leaves, merged in written order, and
merging never replaces a getter. So looking up a name in them finds the getter of the
first leaf that binds it (`Node.getter?_bindings`), whatever the shape of the tree.
-/

namespace Criteria

namespace Bindings

variable {T : Type}

/-- Inserting leaves the names alone that are bound, and binds no other. -/
theorem getter?_insert (b : Bindings T) (entry : Text × (T → Run Value)) (name : Text) :
    (b.insert entry).getter? name
      = (b.getter? name).or (if entry.1 = name then some entry.2 else none) := by
  unfold insert
  by_cases hb : b.has entry.1 = true
  · rw [if_pos hb]
    by_cases hn : entry.1 = name
    · obtain ⟨g, hg⟩ := Option.isSome_iff_exists.mp (hn ▸ hb)
      rw [hg, Option.some_or]
    · rw [if_neg hn, Option.or_none]
  · rw [if_neg hb]
    unfold getter?
    rw [List.find?_append, List.find?_singleton, Option.map_or]
    by_cases hn : entry.1 = name
    · simp only [hn, decide_true, if_true, Option.map_some]
    · simp only [hn, decide_false, Bool.false_eq_true, if_false, Option.map_none]

/-- **Merging never replaces a getter**: a name of both keeps the first one. -/
theorem getter?_merge (b other : Bindings T) (name : Text) :
    (b.merge other).getter? name = (b.getter? name).or (other.getter? name) := by
  obtain ⟨entries⟩ := other
  show (entries.foldl insert b).getter? name = _
  induction entries generalizing b with
  | nil => exact (Option.or_none).symm
  | cons entry entries ih =>
    rw [List.foldl_cons, ih, getter?_insert, Option.or_assoc]
    refine congrArg (b.getter? name).or ?_
    unfold getter?
    rw [List.find?_cons]
    by_cases hn : entry.1 = name
    · simp only [hn, decide_true, if_true, Option.some_or, Option.map_some]
    · simp only [hn, decide_false, if_false, Option.none_or]

@[simp] theorem getter?_empty (name : Text) : ({} : Bindings T).getter? name = none := rfl

/-- A single field is bound to its own getter. -/
theorem getter?_bind_empty {t : FieldType} (f : Field T t) (name : Text) :
    (Bindings.bind {} f).getter? name = if f.name = name then some f.valueOf else none := by
  unfold bind
  rw [getter?_insert, getter?_empty, Option.none_or]

/-! ## Reading what is bound -/

/-- The value under a name that is bound. -/
theorem valueOf_of_getter? {b : Bindings T} {name : Text} {g : T → Run Value}
    (h : b.getter? name = some g) (e : T) : b.valueOf e name = g e := by
  unfold valueOf
  rw [h]

/-- Resolving a name has the outcome of reading its value. -/
theorem outcome_resolve (b : Bindings T) (e : T) (name : Text) :
    (Expr.resolve (b.resolver e) name).outcome = (b.valueOf e name).outcome :=
  Run.outcome_bind_ok (Run.outcome_event _) _

end Bindings

namespace Node

variable {T : Type}

mutual

/-- **The leaves of a node**, in written order. -/
def leaves : Node T → List (Leaf T)
  | .leaf l => [l]
  | .empty => []
  | .group first rest => leaves first ++ restLeaves rest

/-- The leaves of the later nodes of a group. -/
def restLeaves : List (Connective × Node T) → List (Leaf T)
  | [] => []
  | (_, n) :: rest => leaves n ++ restLeaves rest

end

/-- The getter of a name in the first of several leaves that binds it. -/
def firstGetter? (name : Text) (ls : List (Leaf T)) : Option (T → Run Value) :=
  ls.findSome? fun l => l.bindings.getter? name

theorem firstGetter?_append (name : Text) (ls ms : List (Leaf T)) :
    firstGetter? name (ls ++ ms) = (firstGetter? name ls).or (firstGetter? name ms) :=
  List.findSome?_append

mutual

/-- Going through a node binds the names that its leaves add to those before. -/
theorem getter?_mergeBindings (before : Bindings T) (n : Node T) (name : Text) :
    (mergeBindings before n).getter? name
      = (before.getter? name).or (firstGetter? name n.leaves) := by
  match n with
  | .leaf l =>
    show (before.merge l.bindings).getter? name = _
    rw [Bindings.getter?_merge]
    unfold leaves firstGetter?
    rw [List.findSome?_singleton]
  | .empty => exact (Option.or_none).symm
  | .group first rest =>
    show (mergeRest (mergeBindings before first) rest).getter? name
      = (before.getter? name).or (firstGetter? name (first.leaves ++ restLeaves rest))
    rw [getter?_mergeRest, getter?_mergeBindings, Option.or_assoc, firstGetter?_append]

/-- So does going through the later nodes of a group. -/
theorem getter?_mergeRest (before : Bindings T) (rest : List (Connective × Node T))
    (name : Text) :
    (mergeRest before rest).getter? name
      = (before.getter? name).or (firstGetter? name (restLeaves rest)) := by
  match rest with
  | [] => exact (Option.or_none).symm
  | (c, n) :: rest =>
    show (mergeRest (mergeBindings before n) rest).getter? name
      = (before.getter? name).or (firstGetter? name (n.leaves ++ restLeaves rest))
    rw [getter?_mergeRest, getter?_mergeBindings, Option.or_assoc, firstGetter?_append]

end

/-- **Looking up a name finds the first leaf that binds it.** -/
theorem getter?_bindings (n : Node T) (name : Text) :
    n.bindings.getter? name = firstGetter? name n.leaves := by
  unfold bindings
  rw [getter?_mergeBindings, Bindings.getter?_empty, Option.none_or]

/-- A getter is that of some leaf. -/
theorem exists_leaf_of_getter? {n : Node T} {name : Text} {g : T → Run Value}
    (h : n.bindings.getter? name = some g) :
    ∃ l ∈ n.leaves, l.bindings.getter? name = some g :=
  List.exists_of_findSome?_eq_some ((getter?_bindings n name).symm.trans h)

/-- A name without a getter has none in any leaf. -/
theorem getter?_leaf_of_none {n : Node T} {name : Text} (h : n.bindings.getter? name = none)
    {l : Leaf T} (hl : l ∈ n.leaves) : l.bindings.getter? name = none :=
  List.findSome?_eq_none_iff.mp ((getter?_bindings n name).symm.trans h) l hl

end Node

end Criteria
