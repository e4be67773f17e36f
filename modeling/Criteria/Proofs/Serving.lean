import Criteria.Proofs.Refusing
import Criteria.Proofs.Selecting

/-!
# A table in the place of its rows

A query carries a description of a predicate and the names of sort fields, and a table
reads both under bindings of its own. When is that as good as evaluating the predicate
and comparing by the fields themselves? The bindings have to give every name the getter
that the predicate and the fields use for it, and there must be no fault to tell the
two ways apart.

For a predicate that is `Table.Serves`, and what follows is that its filter passes the
rows that it holds of (`Serves.exists_filter`). For a sort order it is `Table.SortsBy`,
and what follows is one comparison of the rows, a total preorder, that both ways compute
(`exists_comparison`). Nothing is asked of rows that are not in the table.
-/

namespace Criteria

variable {T : Type}

/-! ## Predicates -/

namespace Table

/-- **A table that serves a predicate**: the predicate can be described and tested on
every row, and the table binds the fields of the description as the leaves do. -/
structure Serves (table : Table T) (p : Predicate T) : Prop where
  /-- Every leaf has a description. -/
  described : p.isDescribable = true
  /-- The predicate has a verdict on every row. -/
  decides : ∀ e ∈ table.rows, ∃ verdict, (p.test e).outcome = .ok verdict
  /-- The getter that a leaf binds to a field it mentions is the one of the table. -/
  shares : ∀ c b, .described c b ∈ p.root.leaves → ∀ name ∈ c.fields, ∀ g,
    b.getter? name = some g → table.bindings.getter? name = some g

/-- **The filter of a query passes the rows that the predicate holds of**, or those
that it does not hold of. -/
theorem Serves.exists_filter {table : Table T} {p : Predicate T} (h : table.Serves p)
    (negate : Bool) : ∃ d, p.describe negate = .done d ∧ ∀ e ∈ table.rows,
      (passes table.bindings (some d) e).outcome = .ok (p.verdict e != negate) := by
  obtain ⟨d, hd, hread⟩ := p.root.exists_description h.described
  refine ⟨if negate then .not d else d, Predicate.describe_of_done hd negate, fun e he => ?_⟩
  -- a leaf that has a value has the same one under the bindings of the table
  have leafwise (c : Expr) (b : Bindings T) (hc : .described c b ∈ p.root.leaves)
      (verdict : Bool) (hv : (c.test (b.resolver e) none).outcome = .ok verdict) :
      (c.test (table.bindings.resolver e) none).outcome = .ok verdict := by
    refine Expr.test_related Run.congruence_ok none c (fun name hname => ?_) verdict hv
    intro v hv
    cases hg : b.getter? name with
    | none =>
      have hnone : b.valueOf e name = .reject (.noBinding name) := by
        rw [Bindings.valueOf, hg]
      have hresolve : Expr.resolve (b.resolver e) name
          = (Run.event (.read name) >>= fun _ => b.valueOf e name) := rfl
      rw [hresolve, hnone] at hv
      cases hv
    | some g =>
      rw [← Bindings.resolve_congr (hg.trans (h.shares c b hc name hname g hg).symm) e]
      exact hv
  have htest : (d.test (table.bindings.resolver e) none).outcome = .ok (p.verdict e) :=
    hread _ Run.congruence_ok _ e leafwise _ (Run.outcome_eq_resultD (h.decides e he) false)
  show ((if negate then Expr.not d else d).test _ none).outcome = _
  rw [Predicate.test_sign, Run.outcome_bind_ok htest]
  rfl

end Table

/-! ## Queries for a value -/

namespace RemoteEvaluator

variable {table : Table T} {p : Predicate T}

/-- The evaluator over a table. -/
abbrev querying (table : Table T) (source : Text) (p : Predicate T) (negate : Bool)
    (limits : Limits) : RemoteEvaluator T where
  provider := table.provider
  source := source
  predicate := p
  negate := negate
  limits := limits

/-- A composed query for a value is handed to the table. -/
theorem outcome_value {query : Run Query} {q : Query} (hq : query.outcome = .ok q)
    (source : Text) (negate : Bool) (limits : Limits) :
    ((querying table source p negate limits).value query).outcome = (table.scalar q).outcome := by
  unfold value
  rw [Run.outcome_bind_ok hq]
  exact Run.outcome_bind_ok (Run.outcome_event _) _

/-- **A query on the wanted rows** is composed, and the table keeps them. -/
theorem outcome_compose (h : table.Serves p) (hp : p.IsPortable) (source : Text) (negate : Bool)
    (limits : Limits) (operation : Operation) (wanted : Bool) :
    ∃ d, d.isPortable = true ∧
      ((querying table source p negate limits).compose operation wanted).outcome
        = .ok { operation := operation, source := source, filter := some d } ∧
      ∀ q : Query, q.filter = some d →
        (table.filtered q).outcome = .ok (Evaluator.chosen p wanted table.rows) := by
  obtain ⟨d, hd, hpasses⟩ := h.exists_filter wanted
  refine ⟨d, Predicate.isPortable_of_describe hp hd, ?_, fun q hq => ?_⟩
  · unfold compose
    rw [hd]
    rfl
  · unfold Table.filtered
    rw [hq]
    exact Run.outcome_keep hpasses

end RemoteEvaluator

namespace Table

/-! ## Sort orders -/

/-- **A field that a table binds** as the field reads itself. -/
def Binds (table : Table T) {t : FieldType} (f : Field T t) : Prop :=
  table.bindings.getter? f.name = some f.valueOf

theorem Binds.valueOf {table : Table T} {t : FieldType} {f : Field T t} (h : table.Binds f)
    (e : T) : table.bindings.valueOf e f.name = f.valueOf e :=
  Bindings.valueOf_of_getter? h e

/-- **A key that a table sorts by**: a bound field of a comparable type, which every row
has a datum of, without a not-a-number in it. -/
inductive SortsBy (table : Table T) : SortKey T → Prop
  | field {t : FieldType} (f : Field T t) (direction : Direction)
      (comparable : t.isComparable = true) (binds : table.Binds f)
      (present : ∀ e ∈ table.rows, ∃ x, (f.getter e).outcome = .ok x ∧ t.NaNFree x) :
      SortsBy table (.ofField f direction)

/-- **A comparison that both ways compute**: by the keys themselves, and by the names of
their fields. -/
structure Compares (table : Table T) (keys : List (SortKey T)) (fields : List SortField)
    (c : T → T → Ordering) : Prop where
  /-- The comparison is a total preorder. -/
  total : Std.TransCmp c
  /-- By the keys. -/
  direct : ∀ a ∈ table.rows, ∀ b ∈ table.rows,
    (SortOrder.compareByKeys keys a b).outcome = .ok (c a b)
  /-- By the names. -/
  named : ∀ a ∈ table.rows, ∀ b ∈ table.rows,
    (compareBy table.bindings fields a b).outcome = .ok (c a b)

/-- **Both ways compute one comparison** by a key that the table sorts by. -/
theorem SortsBy.exists_comparison {table : Table T} {key : SortKey T} (h : table.SortsBy key) :
    ∃ (name : Text) (value : T → Value) (c : T → T → Ordering), key.field = some name ∧
      Std.TransCmp c ∧
      (∀ a ∈ table.rows, ∀ b ∈ table.rows, (key.compare a b).outcome = .ok (c a b)) ∧
      (∀ e ∈ table.rows, (table.bindings.valueOf e name).outcome = .ok (value e)) ∧
      ∀ a ∈ table.rows, ∀ b ∈ table.rows,
        key.direction.apply ((value a).compare (value b)) = c a b := by
  cases h with
  | field f direction comparable binds present =>
    rename_i t
    let datum (e : T) : t.Val := (f.getter e).resultD t.default
    have hdatum : ∀ e ∈ table.rows,
        (f.getter e).outcome = .ok (datum e) ∧ t.NaNFree (datum e) := fun e he => by
      obtain ⟨x, hx, hfree⟩ := present e he
      have hd := Run.outcome_eq_resultD ⟨x, hx⟩ t.default
      refine ⟨hd, ?_⟩
      rwa [show datum e = x from Except.ok.inj (hd.symm.trans hx)]
    refine ⟨f.name, fun e => t.toValue (datum e),
      fun a b => direction.apply (t.compare (datum a) (datum b)), rfl,
      SortOrder.transCmp_apply (transCmp_comap t.transCmp_compare datum) direction, ?_, ?_, ?_⟩
    · intro a ha b hb
      beta_reduce
      rw [← FieldType.threeWay_lt comparable (hdatum a ha).2 (hdatum b hb).2]
      exact Run.outcome_bind_ok (SortKey.outcome_compareVia (hdatum a ha).1 (hdatum b hb).1) _
    · intro e he
      rw [binds.valueOf]
      exact Run.outcome_bind_ok (hdatum e he).1 _
    · intro a ha b hb
      exact congrArg direction.apply
        (FieldType.compare_toValue comparable (hdatum a ha).2 (hdatum b hb).2)

/-- **Both ways compute one comparison** by keys that the table sorts by. -/
theorem exists_comparison {table : Table T} (keys : List (SortKey T))
    (h : ∀ key ∈ keys, table.SortsBy key) (i : Nat) :
    ∃ fields c, SortOrder.describeKeys i keys = .done fields ∧
      table.Compares keys fields c := by
  induction keys generalizing i with
  | nil =>
    exact ⟨[], fun _ _ => .eq, rfl, { eq_swap := rfl, isLE_trans := fun _ _ => rfl },
      fun _ _ _ _ => rfl, fun _ _ _ _ => rfl⟩
  | cons key keys ih =>
    obtain ⟨fields, c, hdescribe, htotal, hdirect, hnamed⟩ :=
      ih (fun k hk => h k (List.mem_cons_of_mem key hk)) (i + 1)
    obtain ⟨name, value, first, hname, hfirst, hcompare, hvalue, hagree⟩ :=
      (h key List.mem_cons_self).exists_comparison
    refine ⟨⟨name, key.direction⟩ :: fields, compareLex first c, ?_, inferInstance, ?_, ?_⟩
    · unfold SortOrder.describeKeys
      rw [hname, hdescribe]
      rfl
    · intro a ha b hb
      unfold SortOrder.compareByKeys
      rw [Run.outcome_bind_ok (hcompare a ha b hb)]
      exact SortOrder.outcome_then _ (hdirect a ha b hb)
    · intro a ha b hb
      unfold compareBy
      rw [Run.outcome_bind_ok (hvalue a ha), Run.outcome_bind_ok (hvalue b hb)]
      dsimp only
      rw [hagree a ha b hb]
      exact SortOrder.outcome_then _ (hnamed a ha b hb)

end Table

/-- The nested groups over two flags can be written down. -/
theorem Predicate.isPortable_flags : Predicate.flags.IsPortable := by
  intro c b hleaf
  have hleaves : Predicate.flags.root.leaves
      = [flagLeaf leftFlag, flagLeaf rightFlag, flagLeaf leftFlag] := rfl
  rw [hleaves] at hleaf
  simp only [flagLeaf, List.mem_cons, List.not_mem_nil, or_false, Leaf.described.injEq] at hleaf
  rcases hleaf with ⟨rfl, -⟩ | ⟨rfl, -⟩ | ⟨rfl, -⟩ <;>
  · show (Text.isUtf8 _ && true) = true
    rw [Bool.and_true]
    exact Text.isUtf8_ofString _

end Criteria
