import Criteria.Proofs.Description

/-!
# Describing is all or nothing

A predicate has a description exactly if every leaf has one, and an order exactly if
every key is a field. Otherwise there is no partial description: the outcome is a fault
that names what stands in the way, the leftmost leaf of the tree in written order or the
first key of the order, and a warning about it is all that happens before.

The tree is gone through by two recursions of its own, one that asks whether all leaves
are described and one that describes them. Both are compared with the list of its leaves,
where the first one without a description decides (`Node.describe_eq`).
-/

namespace Criteria

variable {T : Type}

namespace Run

variable {α β : Type}

/-- The run that gives up on what has no description, with a warning. -/
def undescribed (warning label : Text) : Run α := do
  Run.log .warning warning
  .fail (.notDescribable label)

@[simp] theorem undescribed_bind (warning label : Text) (f : α → Run β) :
    undescribed warning label >>= f = undescribed warning label := rfl

@[simp] theorem outcome_undescribed (warning label : Text) :
    (undescribed warning label : Run α).outcome = .error (.notDescribable label) := rfl

end Run

/-- **A description that is all or nothing**: there is one exactly if everything can be
described, and otherwise the fault has the label of what stands in the way. -/
structure AllOrNothing {α : Type} (describable : Bool) (x : Run α) (label? : Option Text) :
    Prop where
  /-- It succeeds exactly if everything can be described. -/
  succeeds : describable = true ↔ ∃ a, x.outcome = .ok a
  /-- Otherwise it fails with the label. -/
  fails : describable = false →
    ∃ label, label? = some label ∧ x.outcome = .error (.notDescribable label)

/-- It is enough to say what happens with a label and without one. -/
theorem allOrNothing_of_label? {α : Type} {describable : Bool} {x : Run α}
    {label? : Option Text} (hclear : describable = true ↔ label? = none)
    (hsome : ∀ label, label? = some label → x.outcome = .error (.notDescribable label))
    (hnone : label? = none → ∃ a, x.outcome = .ok a) : AllOrNothing describable x label? := by
  cases hlabel : label? with
  | none =>
    have hdescribable := hclear.mpr hlabel
    exact ⟨iff_of_true hdescribable (hnone hlabel), fun hnot => by simp [hdescribable] at hnot⟩
  | some label =>
    have hfail := hsome label hlabel
    have hdescribable : ¬ describable = true := fun h => by simp [hclear.mp h] at hlabel
    exact ⟨iff_of_false hdescribable (by simp [hfail]), fun _ => ⟨label, rfl, hfail⟩⟩

/-! ## Predicates -/

/-- The label of a leaf that has no description. -/
def Leaf.nativeLabel? : Leaf T → Option Text
  | .described _ _ => none
  | .native label _ => some label

/-- The warning about a leaf without a description. -/
def Leaf.warning (label : Text) : Text :=
  "Predicate leaf '" ++ label ++ "' has no description; cannot translate"

namespace Node

/-- **The label of the leftmost leaf without a description.** -/
def nativeLabel? (n : Node T) : Option Text := n.leaves.findSome? Leaf.nativeLabel?

mutual

/-- A tree can be described if none of its leaves is in the way. -/
theorem isDescribable_iff (n : Node T) :
    n.isDescribable = true ↔ n.leaves.findSome? Leaf.nativeLabel? = none := by
  match n with
  | .leaf (.described c b) => simp [isDescribable, leaves, Leaf.isDescribed, Leaf.nativeLabel?]
  | .leaf (.native label f) => simp [isDescribable, leaves, Leaf.isDescribed, Leaf.nativeLabel?]
  | .empty => simp [isDescribable, leaves]
  | .group first rest =>
    rw [isDescribable, leaves, List.findSome?_append, Option.or_eq_none_iff, Bool.and_eq_true,
      isDescribable_iff first, restDescribable_iff rest]

/-- So can the later nodes of a group. -/
theorem restDescribable_iff (rest : List (Connective × Node T)) :
    restDescribable rest = true ↔ (restLeaves rest).findSome? Leaf.nativeLabel? = none := by
  match rest with
  | [] => simp [restDescribable, restLeaves]
  | (c, n) :: rest =>
    rw [restDescribable, restLeaves, List.findSome?_append, Option.or_eq_none_iff,
      Bool.and_eq_true, isDescribable_iff n, restDescribable_iff rest]

end

mutual

/-- **The leftmost leaf without a description** is the one that a description gives up on. -/
theorem describe_of_native (n : Node T) {label : Text}
    (h : n.leaves.findSome? Leaf.nativeLabel? = some label) :
    n.describe = Run.undescribed (Leaf.warning label) label := by
  match n with
  | .leaf (.described c b) => simp [leaves, Leaf.nativeLabel?] at h
  | .leaf (.native other f) =>
    obtain rfl : other = label := by simpa [leaves, Leaf.nativeLabel?] using h
    rfl
  | .empty => simp [leaves] at h
  | .group first rest =>
    rw [leaves, List.findSome?_append] at h
    unfold describe
    cases hfirst : first.leaves.findSome? Leaf.nativeLabel? with
    | some other =>
      rw [hfirst, Option.some_or, Option.some.injEq] at h
      rw [describe_of_native first (hfirst.trans (congrArg some h)), Run.undescribed_bind]
    | none =>
      rw [hfirst, Option.none_or] at h
      obtain ⟨d, hd, -⟩ := exists_description first ((isDescribable_iff first).mpr hfirst)
      rw [hd, Run.done_bind, describeRest_of_native rest d h]

/-- Whatever comes before, so it is with the later nodes of a group. -/
theorem describeRest_of_native (rest : List (Connective × Node T)) (before : Expr) {label : Text}
    (h : (restLeaves rest).findSome? Leaf.nativeLabel? = some label) :
    describeRest before rest = Run.undescribed (Leaf.warning label) label := by
  match rest with
  | [] => simp [restLeaves] at h
  | (c, n) :: rest =>
    rw [restLeaves, List.findSome?_append] at h
    unfold describeRest
    cases hn : n.leaves.findSome? Leaf.nativeLabel? with
    | some other =>
      rw [hn, Option.some_or, Option.some.injEq] at h
      rw [describe_of_native n (hn.trans (congrArg some h)), Run.undescribed_bind]
    | none =>
      rw [hn, Option.none_or] at h
      obtain ⟨d, hd, -⟩ := exists_description n ((isDescribable_iff n).mpr hn)
      rw [hd, Run.done_bind, describeRest_of_native rest _ h]

end

end Node

namespace Predicate

/-- A predicate with a leaf in the way gives up on it, whatever sign is asked for. -/
theorem describe_of_native {p : Predicate T} {label : Text}
    (h : p.root.nativeLabel? = some label) (negate : Bool) :
    p.describe negate = Run.undescribed (Leaf.warning label) label := by
  unfold describe
  rw [Node.describe_of_native p.root h, Run.undescribed_bind]

/-- A predicate without a leaf in the way has a description of either sign. -/
theorem exists_describe {p : Predicate T} (h : p.root.nativeLabel? = none) (negate : Bool) :
    ∃ d, p.describe negate = .done d := by
  obtain ⟨d, hd, -⟩ := p.root.exists_description ((Node.isDescribable_iff p.root).mpr h)
  exact ⟨_, describe_of_done hd negate⟩

/-- **Describing a predicate** succeeds exactly if every leaf is described, and otherwise
names the leftmost one that is not. -/
theorem allOrNothing_describe (p : Predicate T) (negate : Bool) :
    AllOrNothing p.isDescribable (p.describe negate) p.root.nativeLabel? := by
  refine allOrNothing_of_label? (Node.isDescribable_iff p.root) (fun label h => ?_) fun h => ?_
  · rw [describe_of_native h, Run.outcome_undescribed]
  · obtain ⟨d, hd⟩ := exists_describe h negate
    exact ⟨d, congrArg Run.outcome hd⟩

end Predicate

/-! ## Orders -/

namespace SortOrder

/-- The warning about a key without a name. -/
def keyWarning (i : Nat) : Text :=
  "Ordering key #" ++ .ofNat i ++ " has no field name; cannot translate"

/-- The label of a key without a name. -/
def keyLabel (i : Nat) : Text := "<opaque ordering key #" ++ .ofNat i ++ ">"

/-- **Where the first key without a name stands.** -/
def unnamedKey? (o : SortOrder T) : Option Nat := o.keys.findIdx? fun key => !key.isDescribable

/-- The fields of the keys that are fields. -/
def namedFields (keys : List (SortKey T)) : List SortField :=
  keys.filterMap fun key => key.field.map fun field => ⟨field, key.direction⟩

/-- **The first key without a name** is the one that a description gives up on; without
one, the description has a field for every key. -/
theorem describeKeys_eq (i : Nat) (keys : List (SortKey T)) :
    describeKeys i keys
      = match keys.findIdx? fun key => !key.isDescribable with
        | some j => Run.undescribed (keyWarning (i + j)) (keyLabel (i + j))
        | none => .done (namedFields keys) := by
  induction keys generalizing i with
  | nil => rfl
  | cons key keys ih =>
    rw [List.findIdx?_cons]
    unfold describeKeys SortKey.isDescribable
    cases hfield : key.field with
    | none => rfl
    | some field =>
      have hnext (j : Nat) : i + 1 + j = i + (j + 1) := by omega
      simp only [ih (i + 1), SortKey.isDescribable, Option.isSome_some, Bool.not_true]
      cases keys.findIdx? fun key => !key.field.isSome with
      | some j => simp [hnext]
      | none => simp [namedFields, hfield]

theorem isDescribable_iff (o : SortOrder T) : o.isDescribable = true ↔ o.unnamedKey? = none := by
  simp [isDescribable, unnamedKey?, List.findIdx?_eq_none_iff]

/-- An order with a key in the way gives up on it. -/
theorem describe_of_unnamed {o : SortOrder T} {i : Nat} (h : o.unnamedKey? = some i) :
    o.describe = Run.undescribed (keyWarning i) (keyLabel i) := by
  unfold describe
  rw [describeKeys_eq, show (o.keys.findIdx? fun key => !key.isDescribable) = some i from h]
  simp

/-- An order without a key in the way is described by a field for every key. -/
theorem describe_of_named {o : SortOrder T} (h : o.unnamedKey? = none) :
    o.describe = .done (namedFields o.keys) := by
  unfold describe
  rw [describeKeys_eq, show (o.keys.findIdx? fun key => !key.isDescribable) = none from h]

/-- **Describing an order** succeeds exactly if every key is a field, and otherwise names
the first one that is not. -/
theorem allOrNothing_describe (o : SortOrder T) :
    AllOrNothing o.isDescribable o.describe (o.unnamedKey?.map keyLabel) := by
  refine allOrNothing_of_label? ?_ (fun label h => ?_) fun h => ?_
  · rw [isDescribable_iff, Option.map_eq_none_iff]
  · obtain ⟨i, hi, rfl⟩ := Option.map_eq_some_iff.mp h
    rw [describe_of_unnamed hi, Run.outcome_undescribed]
  · exact ⟨_, congrArg Run.outcome (describe_of_named (Option.map_eq_none_iff.mp h))⟩

end SortOrder

end Criteria
