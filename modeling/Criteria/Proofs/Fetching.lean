import Criteria.Proofs.Comparisons
import Criteria.Proofs.KeySelection
import Criteria.Proofs.RemoteSelection

/-!
# What a query fetches

A table executes a query in four steps: it filters its rows, sorts them by the sort fields, keeps
the first row of each value of the distinct field, and takes a stretch of what is left. Evaluators
compose such queries in a few ways only, but a query may have any of these parts together
(`Table.fetch_honours`): any filter, any sort fields in any directions, a distinct field, and an
offset and a limit anywhere, past the end and up to the largest word included. What it cannot have
is text that is not UTF-8, or a filter with a part missing: such a query is refused before the
first step.

## Two comparisons of values

Sorting and distinguishing do not compare alike. Sort fields are compared by the comparison of
descriptions, and the values seen are searched for by the order of values as such, which ranks
strings, arrays and objects differently. What the two have in common is which values tie. These
are the equal ones (`Value.compareBy_eq_iff`), if there is no not-a-number among the numbers; and
if the numbers of a field are of one kind, both comparisons are total preorders of its values. So
the tree of values seen answers whether an equal value was seen, and what is kept are the leaders
of the sorted rows under the equality of values (`Table.outcome_firstOfValues_eq_firsts`).
-/

namespace Criteria

open Std (TransCmp OrientedCmp ReflCmp)
open StableSort (tied ahead)

variable {T : Type}

/-! ## Values under their equality -/

namespace Value

theorem nativeRank_injective : Function.Injective nativeRank := by
  intro k l h
  cases k <;> cases l <;> first | rfl | cases h

theorem Over.mono {M N : Number → Prop} (hMN : ∀ n, M n → N n) {v : Value} (h : v.Over M) :
    v.Over N := by
  induction h with
  | null => exact .null
  | bool b => exact .bool b
  | number hn => exact .number (hMN _ hn)
  | string t => exact .string t
  | array _ ih => exact .array ih
  | object _ ih => exact .object ih

/-- **The values whose numbers have a property.** -/
abbrev Among (N : Number → Prop) : Type := {v : Value // v.Over N}

instance (N : Number → Prop) : BEq (Among N) := ⟨fun a b => a.1.eq b.1⟩

/-- The order of values as such, among them. -/
def compareAmong {N : Number → Prop} (a b : Among N) : Ordering := compareBy nativeRank a.1 b.1

theorem transCmp_among {N : Number → Prop} (hN : Number.Coherent N) :
    TransCmp (compareAmong (N := N)) :=
  transCmp_compareBy nativeRank_injective hN

section

variable {N : Number → Prop} (hnumeric : ∀ n, N n → IsNumeric n)

include hnumeric

/-- Equal values are those that tie in the order of values. -/
theorem beq_among (a b : Among N) : (a == b) = (compareAmong a b == .eq) := by
  show a.1.eq b.1 = _
  rw [Bool.eq_iff_iff, beq_iff_eq]
  exact (compareBy_eq_iff nativeRank_injective (a.2.mono hnumeric) (b.2.mono hnumeric)).symm

/-- **Equality of values is an equivalence** where their numbers can be ordered. -/
theorem partialEquiv_among (hN : Number.Coherent N) : PartialEquivBEq (Among N) :=
  have := transCmp_among hN
  { symm := fun {a b} hab => by
      rw [beq_among hnumeric, beq_iff_eq] at hab ⊢
      exact OrientedCmp.eq_symm hab
    trans := fun {a b d} hab hbd => by
      rw [beq_among hnumeric, beq_iff_eq] at hab hbd ⊢
      exact TransCmp.eq_trans hab hbd }

/-- A value is equal to itself. -/
theorem beq_among_self (hN : Number.Coherent N) (a : Among N) : (a == a) = true := by
  have := transCmp_among hN
  rw [beq_among hnumeric, beq_iff_eq]
  exact ReflCmp.compare_self

end

end Value

namespace Table

/-! ## What rows have -/

/-- The value of a field, for an entity that has one. -/
def valueAt (b : Bindings T) (field : Text) (e : T) : Value := (b.valueOf e field).resultD .null

/-- The rows that pass a filter. -/
def wanted (table : Table T) (filter : Option Expr) : List T :=
  table.rows.filter fun e => (passes table.bindings filter e).resultD false

/-- **The comparison by sort fields**, lexicographic, each field in its direction. -/
def rankBy (b : Bindings T) : List SortField → T → T → Ordering
  | [], _, _ => .eq
  | key :: keys, x, y =>
    (key.direction.apply ((valueAt b key.field x).compare (valueAt b key.field y))).then
      (rankBy b keys x y)

/-- **The first rows of each value** of a field: those before which no row has an equal one. -/
def firsts (b : Bindings T) (field : Text) (rows : List T) : List T :=
  @leaders T Value ⟨Value.eq⟩ (valueAt b field) rows

/-- The first rows of each value of a field, all rows without a field. -/
def firstsBy (b : Bindings T) (field : Option Text) (rows : List T) : List T :=
  match field with
  | none => rows
  | some field => firsts b field rows

variable {b : Bindings T} {rows : List T} {N : Number → Prop} {field : Text}

theorem HasValues.mono {xs : List T} (h : HasValues b rows N field) (hxs : xs ⊆ rows) :
    HasValues b xs N field := fun e he => h e (hxs he)

theorem HasValues.outcome_valueOf (h : HasValues b rows N field) {e : T} (he : e ∈ rows) :
    (b.valueOf e field).outcome = .ok (valueAt b field e) := by
  obtain ⟨v, hv, -⟩ := h e he
  exact Run.outcome_eq_resultD ⟨v, hv⟩ .null

theorem HasValues.over (h : HasValues b rows N field) {e : T} (he : e ∈ rows) :
    (valueAt b field e).Over N := by
  obtain ⟨v, hv, hover⟩ := h e he
  rwa [← Except.ok.inj (hv.symm.trans (h.outcome_valueOf he))]

/-- The values as what they are among. -/
theorem HasValues.exists_among (h : HasValues b rows N field) :
    ∃ k : T → Value.Among N, ∀ e ∈ rows, (k e).1 = valueAt b field e := by
  have hvalue (e : T) : ∃ v : Value.Among N, e ∈ rows → v.1 = valueAt b field e := by
    by_cases he : e ∈ rows
    · exact ⟨⟨_, h.over he⟩, fun _ => rfl⟩
    · exact ⟨⟨.null, .null⟩, fun hmem => absurd hmem he⟩
  choose k hk using hvalue
  exact ⟨k, hk⟩

theorem firsts_eq_leaders {k : T → Value.Among N} (hk : ∀ e ∈ rows, (k e).1 = valueAt b field e) :
    firsts b field rows = leaders k rows := by
  refine @leaders_congr T Value ⟨Value.eq⟩ _ _ _ k rows fun x hx y hy => ?_
  show (valueAt b field x).eq (valueAt b field y) = (k x).1.eq (k y).1
  rw [hk x hx, hk y hy]

/-! ## Sorting -/

/-- Sort fields compare rows that have their values. -/
theorem outcome_compareBy {fields : List SortField}
    (values : ∀ key ∈ fields, ∃ N, HasValues b rows N key.field) {x y : T} (hx : x ∈ rows)
    (hy : y ∈ rows) : (compareBy b fields x y).outcome = .ok (rankBy b fields x y) := by
  induction fields with
  | nil => rfl
  | cons key keys ih =>
    obtain ⟨⟨N, hvalues⟩, hrest⟩ := List.forall_mem_cons.mp values
    unfold compareBy
    rw [Run.outcome_bind_ok (hvalues.outcome_valueOf hx),
      Run.outcome_bind_ok (hvalues.outcome_valueOf hy)]
    exact SortOrder.outcome_then _ (ih hrest)

/-! ## Distinguishing -/

section

variable (hN : Number.Coherent N) (hnumeric : ∀ n, N n → Value.IsNumeric n)
  (h : HasValues b rows N field)

include hN hnumeric h

/-- **Searching for the values seen** keeps the first row of each. -/
theorem outcome_firstOfValues_eq_firsts :
    (firstOfValues b field .leaf rows).outcome = .ok (firsts b field rows) := by
  have := Value.transCmp_among hN
  have := Value.partialEquiv_among hnumeric hN
  obtain ⟨k, hk⟩ := h.exists_among
  have hless (x y : Value.Among N) : x.1.lt y.1 = (Value.compareAmong x y == .lt) := rfl
  have hsearch : (firstOfValues b field .leaf rows).outcome
      = (Evaluator.firstOfKeys (some fun e => Run.done (k e)) [] rows).outcome :=
    outcome_firstOfValues (D := fun _ => True) (fun x y _ _ => hless x y)
      (fun x y _ _ => Value.beq_among hnumeric x y)
      (fun e he => (h.outcome_valueOf he).trans (congrArg Except.ok (hk e he).symm))
      (fun _ _ _ _ => trivial) .leaf (fun _ => Iff.rfl) (fun _ _ => trivial)
  rw [hsearch, Evaluator.outcome_firstOfKeys fun e _ => rfl, firsts_eq_leaders hk]

/-- Every row has a row of an equal value among the first ones. -/
theorem exists_first {e : T} (he : e ∈ rows) :
    ∃ d ∈ firsts b field rows, (valueAt b field d).eq (valueAt b field e) = true := by
  have := Value.partialEquiv_among hnumeric hN
  obtain ⟨k, hk⟩ := h.exists_among
  obtain ⟨d, hd, hkeys⟩ := exists_leader he (Value.beq_among_self hnumeric hN (k e))
  refine ⟨d, firsts_eq_leaders hk ▸ hd, ?_⟩
  rw [← hk d ((leaders_sublist k rows).subset hd), ← hk e he]
  exact hkeys

end

/-- The first rows of each value stand as they are, -/
theorem firsts_sublist (b : Bindings T) (field : Text) (rows : List T) :
    (firsts b field rows).Sublist rows :=
  @leaders_sublist T Value ⟨Value.eq⟩ _ rows

/-- and no two of them have equal ones. -/
theorem firsts_distinct (b : Bindings T) (field : Text) (rows : List T) :
    (firsts b field rows).Pairwise fun x y =>
      (valueAt b field x).eq (valueAt b field y) = false :=
  @leaders_distinct T Value ⟨Value.eq⟩ _ rows

/-! ## A stretch of the rows -/

/-- **A window** has the rows from the offset on, up to the limit. -/
theorem getElem?_window_eq_some_iff (offset limit : Option UInt64) (rows : List T) (i : ℕ) (e : T) :
    (window offset limit rows)[i]? = some e
      ↔ (∀ n ∈ limit, i < n.toNat) ∧ rows[(offset.getD 0).toNat + i]? = some e := by
  unfold window
  cases limit with
  | none => simp
  | some limit => simp [List.getElem?_take]

/-! ## The query -/

/-- **A query that a table can honour**: its filter has a verdict on every row, and every sort
field and the distinct field have a value for each row that passes, with numbers of one kind and
without a not-a-number. -/
structure CanHonour (table : Table T) (q : Query) : Prop where
  /-- The filter has a verdict. -/
  verdict : ∀ e ∈ table.rows, ∃ verdict, (passes table.bindings q.filter e).outcome = .ok verdict
  /-- The fields have values. -/
  values : ∀ field ∈ q.orderBy.map SortField.field ++ q.distinctBy.toList,
    ∃ k, HasValues table.bindings (table.wanted q.filter) (Number.Ordinary k) field

/-- **How a query is honoured**: with the rows that pass in order, with those that are left of
them, and with those that are selected. -/
structure Honours (table : Table T) (q : Query) (sorted kept selected : List T) : Prop where
  /-- Without a distinct field, an offset and a limit, all rows that pass are fetched. -/
  fetch_sorted : (table.fetch { q with distinctBy := none, offset := none, limit := none }).outcome
    = .ok sorted
  /-- They are the rows that pass, -/
  perm : sorted.Perm (table.wanted q.filter)
  /-- in the order of the sort fields, -/
  ordered : sorted.Pairwise fun x y => (rankBy table.bindings q.orderBy x y).isLE = true
  /-- and those that no sort field tells apart are as they were in the table. -/
  stable : ∀ e ∈ table.wanted q.filter, sorted.filter (tied (rankBy table.bindings q.orderBy) e)
    = (table.wanted q.filter).filter (tied (rankBy table.bindings q.orderBy) e)
  /-- Without an offset and a limit, -/
  fetch_kept : (table.fetch { q with offset := none, limit := none }).outcome = .ok kept
  /-- these are all of them if there is no distinct field, -/
  kept_all : q.distinctBy = none → kept = sorted
  /-- and else the first row of each value: -/
  kept_firsts : ∀ field ∈ q.distinctBy, kept = firsts table.bindings field sorted
  /-- in the order they have, -/
  kept_sublist : kept.Sublist sorted
  /-- no two with equal values, -/
  kept_distinct : ∀ field ∈ q.distinctBy, kept.Pairwise fun x y =>
    (valueAt table.bindings field x).eq (valueAt table.bindings field y) = false
  /-- and one for every row that passes. -/
  kept_present : ∀ field ∈ q.distinctBy, ∀ e ∈ table.wanted q.filter, ∃ d ∈ kept,
    (valueAt table.bindings field d).eq (valueAt table.bindings field e) = true
  /-- The query fetches, -/
  fetch_selected : (table.fetch q).outcome = .ok selected
  /-- of these, the ones from the offset on, up to the limit. -/
  selected_at : ∀ (i : ℕ) (e : T), selected[i]? = some e
    ↔ (∀ n ∈ q.limit, i < n.toNat) ∧ kept[(q.offset.getD 0).toNat + i]? = some e

section

variable {table : Table T} {q : Query} (h : table.CanHonour q)

include h

/-- The filter passes the rows that are wanted. -/
theorem CanHonour.outcome_passes {e : T} (he : e ∈ table.rows) :
    (passes table.bindings q.filter e).outcome
      = .ok ((passes table.bindings q.filter e).resultD false) :=
  Run.outcome_eq_resultD (h.verdict e he) false

/-- **The sort fields order the rows that are wanted**: what they say of two is part of a total
preorder. -/
theorem CanHonour.exists_preorder : ∃ c, TransCmp c ∧
    ∀ x ∈ table.wanted q.filter, ∀ y ∈ table.wanted q.filter,
      (compareBy table.bindings q.orderBy x y).outcome = .ok (c x y) ∧
        c x y = rankBy table.bindings q.orderBy x y := by
  have hvalues : ∀ key ∈ q.orderBy, ∃ N, Number.Coherent N ∧
      HasValues table.bindings (table.wanted q.filter) N key.field := fun key hkey => by
    obtain ⟨k, hk⟩ := h.values _ (List.mem_append_left _ (List.mem_map_of_mem hkey))
    exact ⟨_, Number.coherent_ordinary k, hk⟩
  obtain ⟨c, htotal, hcompare⟩ := exists_comparison_of_coherent q.orderBy hvalues
  refine ⟨c, htotal, fun x hx y hy => ⟨hcompare x hx y hy, ?_⟩⟩
  have hrank := outcome_compareBy (fun key hkey => (hvalues key hkey).imp fun _ hN => hN.2) hx hy
  exact Except.ok.inj ((hcompare x hx y hy).symm.trans hrank)

/-- **Queries that filter and sort alike** go on from the same sorted rows. -/
theorem CanHonour.outcome_fetch {c : T → T → Ordering} [TransCmp c]
    (hcompare : ∀ x ∈ table.wanted q.filter, ∀ y ∈ table.wanted q.filter,
      (compareBy table.bindings q.orderBy x y).outcome = .ok (c x y)) {q' : Query}
    (hfilter : q'.filter = q.filter) (horder : q'.orderBy = q.orderBy) :
    (table.fetch q').outcome
      = q'.reply (distinctBy table.bindings q'.distinctBy
          ((table.wanted q.filter).mergeSort (ahead c)) >>= fun rows =>
            .done (window q'.offset q'.limit rows)).outcome := by
  refine outcome_fetch_of_passed (fun e he => ?_) fun x hx y hy => ?_
  · rw [hfilter]
    exact h.outcome_passes he
  · rw [horder]
    exact hcompare x hx y hy

/-- What the distinct field leaves of rows that are wanted. -/
theorem CanHonour.outcome_distinctBy {rows : List T} (hrows : rows ⊆ table.wanted q.filter) :
    (distinctBy table.bindings q.distinctBy rows).outcome
      = .ok (firstsBy table.bindings q.distinctBy rows) := by
  have hvalues := fun field hfield => h.values field (List.mem_append_right _ hfield)
  cases hdistinct : q.distinctBy with
  | none => rfl
  | some field =>
    obtain ⟨k, hk⟩ := hvalues field (by rw [hdistinct]; exact List.mem_singleton_self field)
    exact outcome_firstOfValues_eq_firsts (Number.coherent_ordinary k)
      (fun _ hn => hn.not_nan) (hk.mono hrows)

/-- **A query that can be written down is honoured**, with whatever parts it has. -/
theorem CanHonour.exists_honours (hportable : q.isPortable = true) :
    ∃ sorted kept selected, table.Honours q sorted kept selected := by
  obtain ⟨c, htotal, hcompare⟩ := h.exists_preorder
  have harranges := StableSort.arranges_mergeSort (c := c) (table.wanted q.filter)
  set sorted := (table.wanted q.filter).mergeSort (ahead c)
  have hmem {e : T} : e ∈ sorted ↔ e ∈ table.wanted q.filter := harranges.perm.mem_iff
  have hfetch {q' : Query} (hfilter : q'.filter = q.filter) (horder : q'.orderBy = q.orderBy)
      (hportable : q'.isPortable = true) :=
    (h.outcome_fetch (fun x hx y hy => (hcompare x hx y hy).1) hfilter horder).trans
      (Query.reply_of_isPortable hportable _)
  have hdistinct := h.outcome_distinctBy fun e he => hmem.mp he
  refine ⟨sorted, firstsBy table.bindings q.distinctBy sorted,
    window q.offset q.limit (firstsBy table.bindings q.distinctBy sorted), ?_⟩
  constructor
  case fetch_sorted => exact hfetch rfl rfl (Query.isPortable_of_distinctBy hportable)
  case perm => exact harranges.perm
  case ordered =>
    refine harranges.sorted.imp_of_mem fun hx hy hxy => ?_
    rwa [← (hcompare _ (hmem.mp hx) _ (hmem.mp hy)).2]
  case stable =>
    intro e he
    have htied : ∀ x ∈ table.wanted q.filter,
        tied (rankBy table.bindings q.orderBy) e x = tied c e x := fun x hx => by
      rw [tied, tied, (hcompare e he x hx).2]
    rw [List.filter_congr htied, List.filter_congr fun x hx => htied x (hmem.mp hx)]
    exact harranges.stable e
  case fetch_kept => exact Eq.trans (hfetch rfl rfl hportable) (Run.outcome_bind_ok hdistinct _)
  case kept_all =>
    intro hnone
    rw [hnone, firstsBy]
  case kept_firsts =>
    intro field hfield
    rw [Option.mem_def.mp hfield, firstsBy]
  case kept_sublist =>
    cases q.distinctBy with
    | none => exact List.Sublist.refl _
    | some field => exact firsts_sublist _ _ _
  case kept_distinct =>
    intro field hfield
    rw [Option.mem_def.mp hfield]
    exact firsts_distinct _ _ _
  case kept_present =>
    intro field hfield e he
    obtain ⟨k, hk⟩ := h.values field
      (List.mem_append_right _ (Option.mem_toList.mpr hfield))
    rw [Option.mem_def.mp hfield]
    exact exists_first (Number.coherent_ordinary k) (fun _ hn => hn.not_nan)
      (hk.mono fun e he => hmem.mp he) (hmem.mpr he)
  case fetch_selected =>
    exact Eq.trans (hfetch rfl rfl hportable) (Run.outcome_bind_ok hdistinct _)
  case selected_at => exact getElem?_window_eq_some_iff _ _ _

end

/-- Parcels, each with a shelf and a weight in grams. -/
def parcels : Table (Text × Int64) where
  rows := [("b", 2), ("a", 1), ("b", 3), ("a", 2), ("c", 0)]
  bindings := (Bindings.bind {} (⟨"shelf", fun e => .done e.1, rfl⟩ : Field _ .text)).bind
    (⟨"grams", fun e => .done (.int e.2), rfl⟩ : Field _ .value)

/-- One parcel of each weight above zero, but for the first one. -/
def parcelQuery : Query where
  filter := some (.binary .gt (.field "grams") (.literal (.int 0)))
  orderBy := [⟨"shelf", .ascending⟩, ⟨"grams", .descending⟩]
  distinctBy := some "grams"
  offset := some 1
  limit := some 18446744073709551615

end Table

end Criteria
