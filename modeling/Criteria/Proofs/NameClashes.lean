import Criteria.Proofs.Description

/-!
# Leaves that share a name

The bindings of a predicate are merged from those of its leaves, and merging keeps the
first getter of a name. A leaf that comes later and gives the name to another datum is
still tested by its own getter. Its description, read under the merged bindings, reads the
datum of the other leaf, without a fault, and its verdict can be another one
(`Predicate.not_all_leaves_kept`). A leaf that leaves a name unbound likewise gets the
getter of one that binds it.

So merging keeps what a leaf means where the leaves agree on the names they share. Less is
not enough: if two leaves differ in the value under a name, in a single entity, then an
expression over the names of one of them changes its value (`Predicate.leaves_kept`).
-/

namespace Criteria

variable {T : Type}

namespace Node

/-- The merged bindings have the value of a leaf for a name, in an entity, if all leaves
that bind the name give it that value there. -/
theorem outcome_valueOf_of_leaves {n : Node T} {l : Leaf T} (hl : l ∈ n.leaves) {name : Text}
    {e : T} (h : ∀ m ∈ n.leaves, ∀ g, m.bindings.getter? name = some g →
      (g e).outcome = (l.bindings.valueOf e name).outcome) :
    (n.bindings.valueOf e name).outcome = (l.bindings.valueOf e name).outcome := by
  cases hfirst : n.bindings.getter? name with
  | none => rw [Bindings.valueOf, Bindings.valueOf, hfirst, getter?_leaf_of_none hfirst hl]
  | some g =>
    obtain ⟨m, hm, hg⟩ := exists_leaf_of_getter? hfirst
    rw [Bindings.valueOf_of_getter? hfirst]
    exact h m hm g hg

/-- **One value for a name**: any two leaves that bind a name give it the same value, or
the same fault, in every entity. -/
def Agrees (n : Node T) : Prop :=
  ∀ l ∈ n.leaves, ∀ m ∈ n.leaves, ∀ name g h,
    l.bindings.getter? name = some g → m.bindings.getter? name = some h →
    ∀ e, (g e).outcome = (h e).outcome

end Node

namespace Predicate

/-- **When merging keeps what a leaf means.** A described leaf has the verdict of its
description under the merged bindings, in every entity in which all leaves that bind a
field of the description give it the value that the leaf itself has for it. And the merged
bindings evaluate all expressions over the names of a leaf as its own bindings do, for
every leaf and entity, exactly if any two leaves agree on the names that both bind. -/
theorem leaves_kept (p : Predicate T) :
    (∀ c b, .described c b ∈ p.root.leaves → ∀ e,
      (∀ name ∈ c.fields, ∀ m ∈ p.root.leaves, ∀ g, m.bindings.getter? name = some g →
        (g e).outcome = (b.valueOf e name).outcome) →
      (c.test (p.bindings.resolver e) none).outcome = ((Leaf.described c b).test e).outcome) ∧
    (p.root.Agrees ↔
      ∀ l ∈ p.root.leaves, ∀ c : Expr, (∀ name ∈ c.fields, l.bindings.has name = true) →
        ∀ e, (c.evaluate (p.bindings.resolver e) none).outcome
          = (c.evaluate (l.bindings.resolver e) none).outcome) := by
  refine ⟨fun c b hleaf e hvalues => ?_, fun agrees l hl c covered e => ?_, fun kept => ?_⟩
  · refine Expr.test_related Run.congruence_outcome none c fun name hname => ?_
    rw [Bindings.outcome_resolve, Bindings.outcome_resolve]
    exact Node.outcome_valueOf_of_leaves hleaf (hvalues name hname)
  · refine Expr.evaluate_related Run.congruence_outcome none c fun name hname => ?_
    obtain ⟨g, hg⟩ := Option.isSome_iff_exists.mp (covered name hname)
    rw [Bindings.outcome_resolve, Bindings.outcome_resolve]
    refine Node.outcome_valueOf_of_leaves hl fun m hm g' hg' => ?_
    rw [Bindings.valueOf_of_getter? hg]
    exact agrees m hm l hl name g' g hg' hg e
  · -- a field alone is an expression, so either leaf has the value of the merged bindings
    have own (l) (hl : l ∈ p.root.leaves) (name g) (hg : l.bindings.getter? name = some g) (e) :
        (p.bindings.valueOf e name).outcome = (g e).outcome := by
      have hfield := kept l hl (.field name) (fun name' hname' => by
        rw [List.mem_singleton.mp hname', Bindings.has, hg]
        rfl) e
      rwa [Expr.evaluate, Expr.evaluate, Bindings.outcome_resolve, Bindings.outcome_resolve,
        Bindings.valueOf_of_getter? hg] at hfield
    intro l hl m hm name g h hg hh e
    exact (own l hl name g hg e).symm.trans (own m hm name h hh e)

/-- The second flag of a pair, under the name of the first. -/
def mislabelled : Field (Bool × Bool) .bool :=
  flagField leftFlag.name Prod.snd leftFlag.named

/-- Two different flags under one name. -/
def clash : Predicate (Bool × Bool) where
  root := .group (.leaf (flagLeaf leftFlag)) [(.and, .leaf (flagLeaf mislabelled))]

/-- Merging can change the verdict of a leaf: the second flag of a pair is not set, and the
first one is read for it. -/
theorem not_all_leaves_kept :
    ¬ ∀ p : Predicate (Bool × Bool), p.isDescribable = true →
      ∀ c b, .described c b ∈ p.root.leaves → ∀ e,
        (c.test (p.bindings.resolver e) none).outcome
          = ((Leaf.described c b).test e).outcome := by
  intro kept
  have hleaf : flagLeaf mislabelled ∈ clash.root.leaves := .tail _ (.head _)
  have hmerged : ((Expr.binary .eq mislabelled.expr (.literal (.bool true))).test
      (clash.bindings.resolver (true, false)) none).outcome = .ok true := rfl
  have hown : ((flagLeaf mislabelled).test (true, false)).outcome = .ok false := rfl
  cases hmerged.symm.trans ((kept clash rfl _ _ hleaf (true, false)).trans hown)

end Predicate

end Criteria
