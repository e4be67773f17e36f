import Criteria.Proofs.DatumOrder
import Criteria.Proofs.Refusing

/-!
# Sorting by names is sorting by fields

In memory a sort key compares what its field reads by the order of the field's type. A
table knows the name of the field only, looks up the value that stands for the datum, and
compares values, for all types alike. For a field of a comparable type, whose name is bound
to it, the two comparisons are one and the same run (`Field.compare_valueOf`): a datum is
read where the other way reads one, a fault comes where it comes, and the results are equal,
not-a-numbers included, which neither way tells from any other number.

Two comparisons that are the same run make the same sort, whatever its comparisons are
(`SortOrder.sort_by_names`). Nothing is asked of the rows. As a query the names are written down
before anything is sorted, so a table sorts by them if they are UTF-8.
-/

namespace Criteria

variable {T : Type}

/-- **Comparing the values of a field is comparing its data**, in either direction. -/
theorem Field.compare_valueOf {t : FieldType} (f : Field T t) (ht : t.isComparable = true)
    (direction : Direction) (a b : T) :
    (f.valueOf a >>= fun u => f.valueOf b >>= fun w =>
        Run.done (direction.apply (u.compare w)))
      = (SortKey.ofField f direction).compare a b := by
  have hvalues (x y : t.Val) : (t.toValue x).compare (t.toValue y) = threeWay t.lt x y :=
    FieldType.compareBy_toValue FieldType.describedRank_null_lt ht x y
  show (f.getter a >>= fun x => Run.done (t.toValue x)) >>= _
    = (f.getter a >>= fun x => f.getter b >>= fun y => Run.done (threeWay t.lt x y)) >>= _
  rw [Run.bind_bind, Run.bind_bind]
  refine congrArg (f.getter a >>= ·) (funext fun x => ?_)
  show (f.getter b >>= fun y => Run.done (t.toValue y)) >>= _ = _
  rw [Run.bind_bind, Run.bind_bind]
  refine congrArg (f.getter b >>= ·) (funext fun y => ?_)
  show Run.done (direction.apply ((t.toValue x).compare (t.toValue y))) = _
  rw [hvalues]
  rfl

/-- **A key that bindings name**: a field of a comparable type, bound to its name. -/
inductive Bindings.Names (b : Bindings T) : SortKey T → Prop
  | field {t : FieldType} (f : Field T t) (direction : Direction)
      (comparable : t.isComparable = true) (bound : b.getter? f.name = some f.valueOf) :
      b.Names (.ofField f direction)

namespace SortOrder

/-- **Comparing by names is comparing by keys**, one key after the other. -/
theorem exists_describeKeys (b : Bindings T) (keys : List (SortKey T))
    (names : ∀ key ∈ keys, b.Names key) (i : Nat) :
    ∃ fields, describeKeys i keys = .done fields ∧
      Table.compareBy b fields = compareByKeys keys := by
  induction keys generalizing i with
  | nil => exact ⟨[], rfl, rfl⟩
  | cons key keys ih =>
    obtain ⟨fields, hdescribe, hcompare⟩ :=
      ih (fun k hk => names k (List.mem_cons_of_mem key hk)) (i + 1)
    obtain ⟨f, direction, comparable, bound⟩ := names key List.mem_cons_self
    have hvalue (e : T) : b.valueOf e f.name = f.valueOf e := by
      unfold Bindings.valueOf
      rw [bound]
    refine ⟨⟨f.name, direction⟩ :: fields, ?_, ?_⟩
    · show (describeKeys (i + 1) keys >>= fun rest =>
        Run.done (⟨f.name, direction⟩ :: rest)) = _
      rw [hdescribe]
      rfl
    · funext x y
      show (b.valueOf x f.name >>= fun u => b.valueOf y f.name >>= fun w => _)
        = ((SortKey.ofField f direction).compare x y >>= fun o => _)
      rw [hvalue, hvalue, ← Field.compare_valueOf f comparable direction, hcompare, Run.bind_bind]
      refine congrArg (f.valueOf x >>= ·) (funext fun u => ?_)
      rw [Run.bind_bind]
      rfl

/-- The reply to a query that only sorts is the rows in order. -/
theorem outcome_fetch_sorted (b : Bindings T) (rows : List T) {q : Query} {o : SortOrder T}
    (hsort : ∀ xs, sortBy (Table.compareBy b q.orderBy) xs = o.sort xs)
    (hfilter : q.filter = none) (hdistinct : q.distinctBy = none) (hoffset : q.offset = none)
    (hlimit : q.limit = none) :
    ((Table.mk rows b).fetch q).outcome = q.reply (o.sort rows).outcome := by
  have hrows : ((Table.mk rows b).filtered q).outcome = .ok rows := by
    have hkeep : (Run.keep (Table.passes b q.filter) rows).outcome
        = .ok (rows.filter fun _ => true) := Run.outcome_keep fun e _ => by
      rw [hfilter]
      rfl
    rwa [List.filter_true] at hkeep
  have hrest (sorted : List T) : (Table.distinctBy b q.distinctBy sorted >>= fun xs =>
      Run.done (Table.window q.offset q.limit xs)) = .done sorted := by
    rw [hdistinct, hoffset, hlimit]
    rfl
  unfold Table.fetch
  rw [Table.outcome_announce_bind, Run.outcome_bind_ok hrows]
  simp only [hsort, hrest]
  exact congrArg (fun run => q.reply run.outcome) (Run.bind_done _)

/-- The query for all entities, sorted by fields. -/
def sorting (source : Text) (fields : List SortField) : Query :=
  { operation := .select, source := source, filter := none, orderBy := fields }

/-- **Sorting by names is sorting by fields.** Of a field of a comparable type the values
compare as the data do, on any two entities and in either direction. So an order made of
such fields can be described, and where their names are bound to them, sorting by the
description is sorting by the order. It also is the reply of a table to a query for it. -/
theorem sort_by_names :
    (∀ {t : FieldType} (f : Field T t), t.isComparable = true →
      ∀ (direction : Direction) (a b : T),
        (f.valueOf a >>= fun u => f.valueOf b >>= fun w =>
            Run.done (direction.apply (u.compare w)))
          = (SortKey.ofField f direction).compare a b) ∧
    ∀ (b : Bindings T) (o : SortOrder T), (∀ key ∈ o.keys, b.Names key) →
      ∃ fields, o.describe = .done fields ∧
        (∀ rows, sortBy (Table.compareBy b fields) rows = o.sort rows) ∧
        ∀ (rows : List T) (source : Text),
          ((Table.mk rows b).fetch (sorting source fields)).outcome
            = (sorting source fields).reply (o.sort rows).outcome := by
  refine ⟨fun f => f.compare_valueOf, fun b o names => ?_⟩
  obtain ⟨fields, hdescribe, hcompare⟩ := exists_describeKeys b o.keys names 0
  have hsort (rows : List T) : sortBy (Table.compareBy b fields) rows = o.sort rows :=
    congrArg (sortBy · rows) hcompare
  exact ⟨fields, hdescribe, hsort, fun rows source =>
    outcome_fetch_sorted b rows hsort rfl rfl rfl rfl⟩

/-- The grades of a row, if there are any. -/
def gradesField : Field (Option (List Text) × List (Text × Double)) (.optional (.list .text)) :=
  ⟨"grades", fun e => .done e.1, rfl⟩

/-- The weights in a row, by name. -/
def weightsField : Field (Option (List Text) × List (Text × Double)) (.dict .double) :=
  ⟨"weights", fun e => .done e.2, rfl⟩

/-- Rows by their grades, the last ones first, and then by their weights. -/
def byGrades : SortOrder (Option (List Text) × List (Text × Double)) :=
  (unordered.thenBy gradesField .descending).thenBy weightsField

/-- Both keys of the sample are named by its bindings. -/
theorem byGrades_names : ∀ key ∈ byGrades.keys, byGrades.bindings.Names key := by
  have hkeys : byGrades.keys
      = [.ofField gradesField .descending, .ofField weightsField .ascending] := rfl
  rw [hkeys]
  intro key hkey
  simp only [List.mem_cons, List.not_mem_nil, or_false] at hkey
  rcases hkey with rfl | rfl
  · exact .field gradesField .descending rfl rfl
  · exact .field weightsField .ascending rfl rfl

/-- Sorting by names for an order of lists that may be absent, and of dictionaries. -/
theorem sort_by_names_grades :
    (∀ key ∈ byGrades.keys, byGrades.bindings.Names key) ∧
      ∃ fields, byGrades.describe = .done fields ∧
        (∀ rows, sortBy (Table.compareBy byGrades.bindings fields) rows = byGrades.sort rows) ∧
        ∀ rows source,
          ((Table.mk rows byGrades.bindings).fetch (sorting source fields)).outcome
            = (sorting source fields).reply (byGrades.sort rows).outcome :=
  ⟨byGrades_names, sort_by_names.2 byGrades.bindings byGrades byGrades_names⟩

end SortOrder

end Criteria
