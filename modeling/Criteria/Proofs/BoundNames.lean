import Mathlib.Data.Finset.Card
import Mathlib.Data.List.Forall2
import Criteria.Proofs.EvaluationFaults
import Criteria.Proofs.NameClashes
import Criteria.Proofs.Substitution
import Criteria.Proofs.Translation

/-!
# The names that a predicate binds

A predicate of conditions on fields binds the names of these fields, each once, and a name to
the getter of the leftmost leaf that carries it (`Predicate.bindings_union`). Its description
mentions no other name, so no binding is missing when it is read under the bindings.

Which fields these are is told by how the predicate was built: by additions of conditions on
fields, of predicates that were built before, and of sub-groups, nested to any depth
(`Builder.MadeOf`). The leaves of what is built are the leaves of the additions in written
order (`Builder.leaves_of_build`), one for each field. From there on the shape of the tree does
not matter: the bindings are looked up leaf by leaf (`Node.getter?_bindings`), and the
description mentions the fields of the leaves in their order (`Node.fields_of_describe`). That
a leaf mentions its own field only is due to binding: the condition mentions none, so what it
mentions on a field is what was put in (`Expr.fields_substitute_subset`).
-/

namespace Criteria

variable {T : Type}

/-! ## Names -/

namespace Bindings

/-- The names that are bound. -/
def names (b : Bindings T) : List Text := b.entries.map (·.1)

theorem has_iff_mem_names {b : Bindings T} {name : Text} :
    b.has name = true ↔ name ∈ b.names := by
  unfold has getter? names
  rw [Option.isSome_map, List.find?_isSome]
  simp

/-- Inserting binds a name once. -/
theorem nodup_names_insert {b : Bindings T} (h : b.names.Nodup)
    (entry : Text × (T → Run Value)) : (b.insert entry).names.Nodup := by
  unfold insert
  split
  · exact h
  · rename_i hnew
    rw [has_iff_mem_names] at hnew
    show (List.map _ (b.entries ++ [entry])).Nodup
    rw [List.map_append, List.map_singleton, ← List.concat_eq_append]
    exact h.concat hnew

theorem nodup_names_merge {b : Bindings T} (h : b.names.Nodup) (other : Bindings T) :
    (b.merge other).names.Nodup := by
  obtain ⟨entries⟩ := other
  show (entries.foldl insert b).names.Nodup
  induction entries generalizing b with
  | nil => exact h
  | cons entry entries ih => exact ih (nodup_names_insert h entry)

end Bindings

namespace Node

mutual

theorem nodup_names_mergeBindings {before : Bindings T} (h : before.names.Nodup) (n : Node T) :
    (mergeBindings before n).names.Nodup := by
  match n with
  | .leaf l => exact Bindings.nodup_names_merge h _
  | .empty => exact h
  | .group first rest => exact nodup_names_mergeRest (nodup_names_mergeBindings h first) rest

theorem nodup_names_mergeRest {before : Bindings T} (h : before.names.Nodup)
    (rest : List (Connective × Node T)) : (mergeRest before rest).names.Nodup := by
  match rest with
  | [] => exact h
  | (c, n) :: rest => exact nodup_names_mergeRest (nodup_names_mergeBindings h n) rest

end

/-- The bindings of a node bind every name once. -/
theorem nodup_names_bindings (n : Node T) : n.bindings.names.Nodup :=
  nodup_names_mergeBindings (show ({} : Bindings T).names.Nodup from List.nodup_nil) n

/-! ## The fields of a description -/

/-- The fields that the description of a leaf mentions. -/
def leafFields : Leaf T → List Text
  | .described description _ => description.fields
  | .native _ _ => []

mutual

/-- **A description mentions the fields of the leaves**, in written order. -/
theorem fields_of_describe (n : Node T) {d : Expr} (h : n.describe.outcome = .ok d) :
    d.fields = n.leaves.flatMap leafFields := by
  match n with
  | .leaf (.described c b) =>
    cases h
    exact (List.append_nil _).symm
  | .leaf (.native label f) => cases h
  | .empty =>
    cases h
    rfl
  | .group first rest =>
    obtain ⟨before, hfirst, hrest⟩ := Run.bind_eq_ok_iff.mp h
    rw [fields_of_describeRest rest hrest, fields_of_describe first hfirst, leaves,
      List.flatMap_append]

/-- The later nodes of a group add their fields to those before. -/
theorem fields_of_describeRest (rest : List (Connective × Node T)) {before d : Expr}
    (h : (describeRest before rest).outcome = .ok d) :
    d.fields = before.fields ++ (restLeaves rest).flatMap leafFields := by
  match rest with
  | [] =>
    cases h
    exact (List.append_nil _).symm
  | (c, n) :: rest =>
    obtain ⟨e, hn, hrest⟩ := Run.bind_eq_ok_iff.mp h
    rw [fields_of_describeRest rest hrest, Expr.fields, fields_of_describe n hn, restLeaves,
      List.flatMap_append, List.append_assoc]

end

/-! ## The leaves of what is built -/

/-- The later entries of a group are checked one by one. -/
theorem restLeaves_of_checkRest {i : Nat} {entries : List (Option Connective × Node T)}
    {rest : List (Connective × Node T)}
    (h : checkRest i (entries.map fun entry => (entry.1, some entry.2)) = .ok rest) :
    restLeaves rest = entries.flatMap fun entry => entry.2.leaves := by
  induction entries generalizing i rest with
  | nil =>
    cases h
    rfl
  | cons entry entries ih =>
    obtain ⟨c, n⟩ := entry
    cases c with
    | none => cases h
    | some c =>
      obtain ⟨rest', hrest, h⟩ := exists_of_bind_eq_ok h
      cases h
      rw [restLeaves, ih hrest, List.flatMap_cons]

end Node

namespace Builder

/-- The leaves of the conditions so far, in written order. -/
def leaves (b : Builder T) : List (Leaf T) := b.entries.flatMap fun entry => entry.2.leaves

theorem leaves_appended (b : Builder T) (n : Node T) :
    (b.appended n).leaves = b.leaves ++ n.leaves := by
  show List.flatMap _ (b.entries ++ [_]) = _
  rw [List.flatMap_append, List.flatMap_singleton]
  rfl

/-- **The leaves of a predicate** are those of the conditions it was built from. -/
theorem leaves_of_build {b : Builder T} {p : Predicate T} (h : b.build = .ok p) :
    p.root.leaves = b.leaves := by
  obtain ⟨root, hroot, h⟩ := exists_of_bind_eq_ok h
  cases h
  unfold leaves
  cases hentries : b.entries with
  | nil =>
    rw [hentries] at hroot
    cases hroot
    rfl
  | cons entry entries =>
    rw [hentries] at hroot
    obtain ⟨first, hfirst, hroot⟩ := exists_of_bind_eq_ok hroot
    obtain ⟨rest, hrest, hroot⟩ := exists_of_bind_eq_ok hroot
    cases hroot
    obtain ⟨c, n⟩ := entry
    cases c with
    | some c => cases hfirst
    | none =>
      cases hfirst
      rw [Node.leaves, Node.restLeaves_of_checkRest hrest, List.flatMap_cons]

end Builder

/-! ## Predicates of conditions on fields -/

/-- A field that fails to give a value fails to be read. -/
theorem Field.outcome_getter_of_valueOf {t : FieldType} {f : Field T t} {e : T} {fault : Fault}
    (h : (f.valueOf e).outcome = .error fault) : (f.getter e).outcome = .error fault := by
  unfold valueOf at h
  rw [Run.outcome_map] at h
  cases hx : (f.getter e).outcome with
  | ok x =>
    rw [hx] at h
    cases h
  | error other =>
    rw [hx] at h
    cases h
    rfl

/-- A field of some type. -/
abbrev SomeField (T : Type) := (t : FieldType) × Field T t

/-- **A builder that is made of conditions on fields**, by methods that have not failed: the
fields in written order. A condition on a field mentions no field itself. -/
inductive Builder.MadeOf : Builder T → List (SomeField T) → Prop
  /-- The outset. -/
  | start : MadeOf {} []
  /-- The next condition is to be joined by "and". -/
  | and {b joined : Builder T} {fields : List (SomeField T)} : MadeOf b fields →
    Builder.and.run b = .ok () joined → MadeOf joined fields
  /-- The next condition is to be joined by "or". -/
  | or {b joined : Builder T} {fields : List (SomeField T)} : MadeOf b fields →
    Builder.or.run b = .ok () joined → MadeOf joined fields
  /-- A condition on a field is added. -/
  | addCondition {b added : Builder T} {fields : List (SomeField T)} {t : FieldType}
    {f : Field T t} {c : Condition} : MadeOf b fields → c.description.fields = [] →
    (Builder.addCondition f c).run b = .ok () added → MadeOf added (fields ++ [⟨t, f⟩])
  /-- A predicate is added that was built from such conditions. -/
  | addPredicate {b other added : Builder T} {p : Predicate T} {fields more : List (SomeField T)} :
    MadeOf b fields → MadeOf other more → other.build = .ok p →
    (Builder.addPredicate p).run b = .ok () added → MadeOf added (fields ++ more)
  /-- A group is added that is composed of such conditions. -/
  | addGroup {b child added : Builder T} {fields more : List (SomeField T)}
    (compose : Builder.Method T Unit) : MadeOf b fields → MadeOf child more →
    compose.run {} = .ok () child → (Builder.addGroup (some compose)).run b = .ok () added →
    MadeOf added (fields ++ more)

/-- **A predicate that is made of conditions on fields.** -/
def Predicate.MadeOf (p : Predicate T) (fields : List (SomeField T)) : Prop :=
  ∃ b : Builder T, b.MadeOf fields ∧ b.build = .ok p

/-- **A leaf that is a condition on a field**: it binds the field, and mentions no other. -/
def Leaf.IsOn (l : Leaf T) (f : SomeField T) : Prop :=
  ∃ d : Expr, l = .described d (.bind {} f.2) ∧ ∀ name ∈ d.fields, name = f.2.name

namespace Builder

/-- The predicate of a condition on a field is a leaf on the field. -/
theorem exists_leaf_of_conditionOn {t : FieldType} {f : Field T t} {c : Condition}
    {p : Predicate T} (closed : c.description.fields = []) (h : conditionOn f c = .ok p) :
    ∃ l : Leaf T, p.root = .leaf l ∧ l.IsOn ⟨t, f⟩ := by
  obtain ⟨d, hd, hp⟩ := exists_of_bind_eq_ok h
  have hbound : d = c.description.substitute f.expr := Expr.eq_substitute_of_bindValue _ hd
  have hfields : ∀ name ∈ d.fields, name = f.name := fun name hname => by
    rw [hbound] at hname
    have hmem := Expr.fields_substitute_subset _ hname
    rw [closed, List.nil_append] at hmem
    exact List.mem_singleton.mp hmem
  refine ⟨.described d (.bind {} f), ?_, d, rfl, hfields⟩
  unfold Predicate.ofDescription at hp
  split at hp
  · cases hp
  · split at hp
    · obtain ⟨text, -, hp⟩ := exists_of_bind_eq_ok hp
      cases hp
    · obtain ⟨label, -, hp⟩ := exists_of_bind_eq_ok hp
      cases hp
      rfl

/-- A condition on a field that is accepted becomes a leaf on the field. -/
theorem exists_leaf_of_addCondition {b added : Builder T} {t : FieldType} {f : Field T t}
    {c : Condition} (closed : c.description.fields = [])
    (h : (addCondition f c).run b = .ok () added) :
    ∃ l : Leaf T, added = b.appended (.leaf l) ∧ l.IsOn ⟨t, f⟩ := by
  rw [addCondition_eq_addition] at h
  obtain ⟨p, hp, rfl⟩ := exists_of_run_addition h
  obtain ⟨l, hl, hon⟩ := exists_leaf_of_conditionOn closed hp
  exact ⟨l, by rw [hl], hon⟩

/-- A group that is accepted adds the predicate that its builder builds. -/
theorem exists_build_of_addGroup {b child added : Builder T} {compose : Method T Unit}
    (hchild : compose.run {} = .ok () child)
    (h : (addGroup (some compose)).run b = .ok () added) :
    ∃ p, child.build = .ok p ∧ added = b.appended p.root := by
  rw [addGroup_some, groupOf_eq hchild] at h
  exact exists_of_run_addition h

/-- **There is one leaf for each field**, in written order. -/
theorem MadeOf.leaves {b : Builder T} {fields : List (SomeField T)} (h : b.MadeOf fields) :
    List.Forall₂ Leaf.IsOn b.leaves fields := by
  induction h with
  | start => exact .nil
  | and _ hjoined ih | or _ hjoined ih =>
    cases hjoined
    exact ih
  | addCondition _ closed hadd ih =>
    obtain ⟨l, rfl, hl⟩ := exists_leaf_of_addCondition closed hadd
    rw [leaves_appended]
    exact List.rel_append ih (.cons hl .nil)
  | addPredicate _ _ hbuild hadd ih ihMore =>
    rw [run_addPredicate] at hadd
    cases hadd
    rw [leaves_appended, leaves_of_build hbuild]
    exact List.rel_append ih ihMore
  | addGroup compose _ _ hchild hadd ih ihMore =>
    obtain ⟨p, hbuild, rfl⟩ := exists_build_of_addGroup hchild hadd
    rw [leaves_appended, leaves_of_build hbuild]
    exact List.rel_append ih ihMore

end Builder

theorem Predicate.MadeOf.leaves {p : Predicate T} {fields : List (SomeField T)}
    (h : p.MadeOf fields) : List.Forall₂ Leaf.IsOn p.root.leaves fields := by
  obtain ⟨b, hb, hbuild⟩ := h
  rw [Builder.leaves_of_build hbuild]
  exact hb.leaves

/-! ## Bindings and descriptions -/

section

variable {ls : List (Leaf T)} {fields : List (SomeField T)}

/-- The first leaf that binds a name is the one of the first field of that name. -/
theorem firstGetter?_of_isOn (h : List.Forall₂ Leaf.IsOn ls fields) (name : Text) :
    Node.firstGetter? name ls
      = (fields.find? fun f => f.2.name = name).map fun f => f.2.valueOf := by
  induction h with
  | nil => rfl
  | @cons l f ls fields hl _ ih =>
    obtain ⟨d, rfl, -⟩ := hl
    have hbound : (Leaf.described d (.bind {} f.2)).bindings.getter? name
        = if f.2.name = name then some f.2.valueOf else none := Bindings.getter?_bind_empty _ _
    rw [Node.firstGetter?, List.findSome?_cons, hbound, List.find?_cons]
    by_cases hname : f.2.name = name
    · simp [hname]
    · simp only [hname, if_false, decide_false]
      exact ih

/-- The leaves mention the names of the fields only. -/
theorem exists_field_of_mem_leafFields (h : List.Forall₂ Leaf.IsOn ls fields) {name : Text}
    (hname : name ∈ ls.flatMap Node.leafFields) : ∃ f ∈ fields, f.2.name = name := by
  induction h with
  | nil => cases hname
  | @cons l f ls fields hl _ ih =>
    obtain ⟨d, rfl, hd⟩ := hl
    rw [List.flatMap_cons] at hname
    rcases List.mem_append.mp hname with h | h
    · exact ⟨f, List.mem_cons_self, (hd name h).symm⟩
    · obtain ⟨g, hg, hgname⟩ := ih h
      exact ⟨g, List.mem_cons_of_mem f hg, hgname⟩

/-- No leaf on a field is without a description. -/
theorem findSome?_nativeLabel?_of_isOn (h : List.Forall₂ Leaf.IsOn ls fields) :
    ls.findSome? Leaf.nativeLabel? = none := by
  induction h with
  | nil => rfl
  | cons hl _ ih =>
    obtain ⟨d, rfl, -⟩ := hl
    rwa [List.findSome?_cons]

end

/-- A predicate of either sign mentions the fields of its leaves. -/
theorem Predicate.fields_of_describe {p : Predicate T} {negate : Bool} {d : Expr}
    (h : p.describe negate = .done d) : d.fields = p.root.leaves.flatMap Node.leafFields := by
  obtain ⟨e, he, h⟩ := Run.bind_eq_ok_iff.mp (congrArg Run.outcome h)
  rw [← Node.fields_of_describe p.root he]
  cases h
  cases negate <;> rfl

/-- **Bindings that are the union of those of fields**, the first one of a name deciding. -/
structure Predicate.BindsFirst (p : Predicate T) (fields : List (SomeField T)) : Prop where
  /-- Bound are the names of the fields. -/
  names : ∀ name, p.bindings.has name = true ↔ ∃ f ∈ fields, f.2.name = name
  /-- Every name is bound once. -/
  size : p.bindings.size = (fields.map fun f => f.2.name).toFinset.card
  /-- A name has the getter of the first field that carries it. -/
  getters : ∀ name, p.bindings.getter? name
    = (fields.find? fun f => f.2.name = name).map fun f => f.2.valueOf
  /-- There is a description of either sign, and every field that it mentions is bound. No
  binding is missing, then, when it is read under the bindings: the fault of a missing one shows
  only where the getter of a field itself raises it. -/
  described : ∀ negate, ∃ d, p.describe negate = .done d ∧
    (∀ name ∈ d.fields, p.bindings.has name = true) ∧
    ∀ e value name,
      (d.evaluate (p.bindings.resolver e) value).outcome = .error (.argument (.noBinding name)) →
      ∃ f ∈ fields, (f.2.getter e).outcome = .error (.argument (.noBinding name))

/-- **The bindings of a predicate that is made of conditions on fields** are the union of those
of the fields, the leftmost of a name deciding, and cover its description. -/
theorem Predicate.bindings_union {p : Predicate T} {fields : List (SomeField T)}
    (h : p.MadeOf fields) : p.BindsFirst fields := by
  have hleaves := h.leaves
  have hgetters (name : Text) : p.bindings.getter? name
      = (fields.find? fun f => f.2.name = name).map fun f => f.2.valueOf :=
    (Node.getter?_bindings p.root name).trans (firstGetter?_of_isOn hleaves name)
  have hnames (name : Text) : p.bindings.has name = true ↔ ∃ f ∈ fields, f.2.name = name := by
    rw [Bindings.has, hgetters, Option.isSome_map, List.find?_isSome]
    simp
  refine ⟨hnames, ?_, hgetters, fun negate => ?_⟩
  · have hnodup : p.bindings.names.Nodup := p.root.nodup_names_bindings
    have hset : p.bindings.names.toFinset = (fields.map fun f => f.2.name).toFinset := by
      ext name
      rw [List.mem_toFinset, List.mem_toFinset, ← Bindings.has_iff_mem_names, hnames, List.mem_map]
    rw [← hset, List.toFinset_card_of_nodup hnodup]
    exact (List.length_map _).symm
  · obtain ⟨d, hd⟩ := exists_describe (findSome?_nativeLabel?_of_isOn hleaves) negate
    have hbound : ∀ name ∈ d.fields, p.bindings.has name = true := fun name hname => by
      rw [fields_of_describe hd] at hname
      exact (hnames name).mpr (exists_field_of_mem_leafFields hleaves hname)
    refine ⟨d, hd, hbound, fun e value name hfault => ?_⟩
    cases (Expr.ends_evaluate d).of_error hfault with
    | @resolver lookUp mentioned _ hlookUp hmentioned hraised =>
      cases hlookUp
      obtain ⟨g, hg⟩ := Option.isSome_iff_exists.mp (hbound mentioned hmentioned)
      rw [Bindings.valueOf_of_getter? hg] at hraised
      rw [hgetters] at hg
      obtain ⟨f, hf, rfl⟩ := Option.map_eq_some_iff.mp hg
      exact ⟨f, List.mem_of_find?_eq_some hf, Field.outcome_getter_of_valueOf hraised⟩

namespace Predicate

open Builder (fieldLeaf)

/-- A predicate over the two flags of a pair, with the second one under the name of the first in
a group, and a predicate embedded after it. -/
def sharedNames : Predicate (Bool × Bool) where
  root := .group (.leaf (fieldLeaf rightFlag .isTrue))
    [(.or, .group (.leaf (fieldLeaf mislabelled .isTrue))
        [(.and, .leaf (fieldLeaf leftFlag .isFalse))]),
      (.and, .group (.leaf (fieldLeaf leftFlag .isTrue)) [])]

/-- The name of the first flag is bound to the second one, which comes before it. -/
theorem bindings_union_sharedNames :
    sharedNames.MadeOf
        [⟨.bool, rightFlag⟩, ⟨.bool, mislabelled⟩, ⟨.bool, leftFlag⟩, ⟨.bool, leftFlag⟩] ∧
      sharedNames.BindsFirst
        [⟨.bool, rightFlag⟩, ⟨.bool, mislabelled⟩, ⟨.bool, leftFlag⟩, ⟨.bool, leftFlag⟩] ∧
      sharedNames.bindings.getter? leftFlag.name = some mislabelled.valueOf := by
  have hgroup : Builder.MadeOf _ [⟨.bool, mislabelled⟩, ⟨.bool, leftFlag⟩] :=
    .addCondition (c := .isFalse)
      (.and (.addCondition (c := .isTrue) .start rfl rfl) rfl) rfl rfl
  have hembedded : Builder.MadeOf _ [⟨.bool, leftFlag⟩] :=
    .addCondition (c := .isTrue) .start rfl rfl
  let composed : Builder.Method (Bool × Bool) Unit := do
    Builder.addCondition mislabelled .isTrue
    Builder.and
    Builder.addCondition leftFlag .isFalse
  have hbefore : Builder.MadeOf _ [⟨.bool, rightFlag⟩] :=
    .or (.addCondition (c := .isTrue) .start rfl rfl) rfl
  have hjoined : Builder.MadeOf _
      [⟨.bool, rightFlag⟩, ⟨.bool, mislabelled⟩, ⟨.bool, leftFlag⟩] :=
    .addGroup composed hbefore hgroup rfl rfl
  have hmade : sharedNames.MadeOf
      [⟨.bool, rightFlag⟩, ⟨.bool, mislabelled⟩, ⟨.bool, leftFlag⟩, ⟨.bool, leftFlag⟩] :=
    ⟨_, .addPredicate hjoined hembedded rfl (Builder.run_addPredicate _ _), rfl⟩
  exact ⟨hmade, bindings_union hmade, rfl⟩

end Predicate

end Criteria
