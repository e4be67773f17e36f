import Criteria.Proofs.Pages
import Criteria.Proofs.Searching
import Criteria.Proofs.Serving

/-!
# Selecting by queries is selecting

An evaluator over a table composes a query and has the table execute it; an evaluator
in memory tests, scans and sorts by itself. For a predicate that the table serves and an
order that it puts its rows in, both select the same entities from its rows, operation
by operation (`RemoteEvaluator.selects_as`), as long as the query can be written down: one that
cannot is refused by the table, where an evaluator in memory has nothing to write.

Both ways end in one list: the rows that are wanted, in their stable arrangement by one
comparison (`Arrangement`). In memory every selection is read off that list (module
`Criteria.Proofs.Selecting`). On the side of the table it is how every query is executed
(`outcome_fetch`).
-/

namespace Criteria

open StableSort (ahead)

variable {T : Type}

/-! ## Arrangements of rows -/

namespace Table

/-- **An order that a table puts its rows in**: none, or one made of fields. -/
def Orders (table : Table T) (order : Option (SortOrder T)) : Prop :=
  ∀ o ∈ order, ∀ key ∈ o.keys, table.SortsBy key

/-- The sort fields that a query names for an order. -/
def sortFields (order : Option (SortOrder T)) : Run (List SortField) :=
  match order with
  | none => .done []
  | some order => order.describe

/-- **How an order arranges rows**, in memory and by the fields that a query names. -/
structure Arrangement (table : Table T) (order : Option (SortOrder T))
    (fields : List SortField) (c : T → T → Ordering) : Prop where
  /-- The comparison is a total preorder. -/
  total : Std.TransCmp c
  /-- These are the fields of the query. -/
  described : sortFields order = .done fields
  /-- By the order. -/
  direct : ∀ o ∈ order, ∀ a ∈ table.rows, ∀ b ∈ table.rows, (o.compare a b).outcome = .ok (c a b)
  /-- Without an order nothing is told apart. -/
  absent : order = none → c = fun _ _ => .eq
  /-- By the fields. -/
  named : ∀ a ∈ table.rows, ∀ b ∈ table.rows,
    (compareBy table.bindings fields a b).outcome = .ok (c a b)

theorem Orders.exists_arrangement {table : Table T} {order : Option (SortOrder T)}
    (h : table.Orders order) : ∃ fields c, table.Arrangement order fields c := by
  cases order with
  | none =>
    exact ⟨[], fun _ _ => .eq, { eq_swap := rfl, isLE_trans := fun _ _ => rfl }, rfl,
      (fun o ho => nomatch ho), fun _ => rfl, fun _ _ _ _ => rfl⟩
  | some order =>
    obtain ⟨fields, c, hdescribe, htotal, hdirect, hnamed⟩ :=
      exists_comparison order.keys (h order rfl) 0
    refine ⟨fields, c, htotal, hdescribe, fun o ho => ?_, (fun hnone => nomatch hnone), hnamed⟩
    cases ho
    exact hdirect

/-- The sort fields of an order that can be written down are UTF-8. -/
theorem Arrangement.isUtf8 {table : Table T} {order : Option (SortOrder T)}
    {fields : List SortField} {c : T → T → Ordering} (h : table.Arrangement order fields c)
    (horder : ∀ o ∈ order, o.IsPortable) : ∀ key ∈ fields, key.field.isUtf8 = true := by
  have hdescribed := congrArg Run.outcome h.described
  cases order with
  | none =>
    cases hdescribed
    exact fun key hkey => nomatch hkey
  | some order => exact SortOrder.isUtf8_of_describeKeys (horder order rfl) hdescribed

theorem Arrangement.ranks {table : Table T} {order : Option (SortOrder T)}
    {fields : List SortField} {c : T → T → Ordering} (h : table.Arrangement order fields c) :
    SortOrder.Ranks order table.rows c :=
  ⟨h.total, h.direct, h.absent⟩

/-! ## The execution of a query -/

/-- **How a table executes a query** whose filter has a verdict on every row and whose
fields compare the rows that pass. -/
theorem outcome_fetch_of_passed {table : Table T} {q : Query} {good : T → Bool}
    {c : T → T → Ordering} [Std.TransCmp c]
    (hfilter : ∀ e ∈ table.rows, (passes table.bindings q.filter e).outcome = .ok (good e))
    (hnamed : ∀ a ∈ table.rows.filter good, ∀ b ∈ table.rows.filter good,
      (compareBy table.bindings q.orderBy a b).outcome = .ok (c a b)) :
    (table.fetch q).outcome
      = q.reply (distinctBy table.bindings q.distinctBy
          ((table.rows.filter good).mergeSort (ahead c)) >>= fun rows =>
            .done (window q.offset q.limit rows)).outcome := by
  unfold fetch filtered
  rw [outcome_announce_bind, Run.outcome_bind_ok (Run.outcome_keep hfilter),
    Run.outcome_bind_ok (SortOrder.outcome_sortBy hnamed (List.Subset.refl _))]

/-- How it executes one whose fields compare all rows. -/
theorem outcome_fetch {table : Table T} {q : Query} {good : T → Bool} {c : T → T → Ordering}
    [Std.TransCmp c]
    (hfilter : ∀ e ∈ table.rows, (passes table.bindings q.filter e).outcome = .ok (good e))
    (hnamed : ∀ a ∈ table.rows, ∀ b ∈ table.rows,
      (compareBy table.bindings q.orderBy a b).outcome = .ok (c a b)) :
    (table.fetch q).outcome
      = q.reply (distinctBy table.bindings q.distinctBy
          ((table.rows.filter good).mergeSort (ahead c)) >>= fun rows =>
            .done (window q.offset q.limit rows)).outcome :=
  outcome_fetch_of_passed hfilter fun a ha b hb =>
    hnamed a (List.mem_of_mem_filter ha) b (List.mem_of_mem_filter hb)

end Table

/-! ## Distinct data -/

namespace Table

/-- **The first entities of each datum** are the same ones for a search tree of values
and for a table of keys that have seen the same data, if the order of values tells apart what
the keys do. Where there is no datum, both fail alike. -/
theorem outcome_firstOfValues {K : Type} [BEq K] {D : K → Prop} {toValue : K → Value}
    {c : K → K → Ordering} [Std.TransCmp c]
    (less : ∀ x y, D x → D y → (toValue x).lt (toValue y) = (c x y == .lt))
    (same : ∀ x y, D x → D y → (x == y) = (c x y == .eq))
    {b : Bindings T} {field : Text} {datum : T → Run K} {xs : List T}
    (value : ∀ e ∈ xs, (b.valueOf e field).outcome = (datum e).outcome.map toValue)
    (data : ∀ e ∈ xs, ∀ k, (datum e).outcome = .ok k → D k) {tree : SearchTree Value}
    {known seen : List K} (hholds : tree.Holds toValue c known)
    (hseen : ∀ k, k ∈ known ↔ k ∈ seen) (hknown : ∀ k ∈ known, D k) :
    (firstOfValues b field tree xs).outcome
      = (Evaluator.firstOfKeys (some datum) seen xs).outcome := by
  induction xs generalizing tree known seen with
  | nil => rfl
  | cons e rest ih =>
    obtain ⟨hvalue, hvalues⟩ := List.forall_mem_cons.mp value
    obtain ⟨hdatum, hdata⟩ := List.forall_mem_cons.mp data
    unfold firstOfValues Evaluator.firstOfKeys
    rw [show Run.call (some datum) e = datum e from rfl]
    cases hk : (datum e).outcome with
    | error fault =>
      rw [hk] at hvalue
      rw [Run.outcome_bind_error hvalue, Run.outcome_bind_error hk]
    | ok k =>
      rw [hk] at hvalue
      have hD := hdatum k hk
      have hless : ∀ x ∈ known, (toValue k).lt (toValue x) = (c k x == .lt) ∧
          (toValue x).lt (toValue k) = (c x k == .lt) := fun x hx =>
        ⟨less k x hD (hknown x hx), less x k (hknown x hx) hD⟩
      -- both have seen the same data, and tied data are the same key
      have hcontains : tree.contains Value.lt (toValue k) = seen.any fun x => x == k := by
        rw [Bool.eq_iff_iff, hholds.contains_iff hless, List.any_eq_true]
        refine exists_congr fun x => ?_
        rw [hseen]
        refine and_congr_right fun hx => ?_
        rw [same x k (hknown x ((hseen x).mpr hx)) hD, beq_iff_eq]
      rw [Run.outcome_bind_ok hvalue, Run.outcome_bind_ok hk, hcontains]
      by_cases hany : (seen.any fun x => x == k) = true
      · rw [if_pos hany, if_pos hany]
        exact ih hvalues hdata hholds hseen hknown
      · rw [if_neg hany, if_neg hany]
        obtain ⟨known', hholds', hperm⟩ :=
          hholds.add hless (hcontains.trans (Bool.not_eq_true _ ▸ hany))
        have hmem : ∀ x, x ∈ known' ↔ x = k ∨ x ∈ known := fun x =>
          hperm.mem_iff.trans List.mem_cons
        have hseen' : ∀ x, x ∈ known' ↔ x ∈ seen ++ [k] := fun x => by
          rw [hmem, hseen, List.mem_append, List.mem_singleton, or_comm]
        have hnext := ih hvalues hdata hholds' hseen'
          fun x hx => ((hmem x).mp hx).elim (fun heq => heq ▸ hD) (hknown x)
        rw [Run.outcome_bind, Run.outcome_bind, hnext]

/-- **A field whose data a table can tell apart**: bound, of a type whose data can be
keys, and without a not-a-number where it has a datum. -/
structure KeyedBy (table : Table T) {t : FieldType} (f : Field T t) : Prop where
  /-- The data can be keys. -/
  key : t.isKey = true
  /-- The table binds the field. -/
  binds : table.Binds f
  /-- No datum is a not-a-number. -/
  free : ∀ e ∈ table.rows, ∀ x, (f.getter e).outcome = .ok x → t.NaNFree x

/-- The first entities of each datum of a field. -/
theorem KeyedBy.outcome_firstOfValues {table : Table T} {t : FieldType} {f : Field T t}
    (h : table.KeyedBy f) {xs : List T} (hxs : xs ⊆ table.rows) {tree : SearchTree Value}
    {known seen : List t.Val} (hholds : tree.Holds t.toValue t.compare known)
    (hseen : ∀ k, k ∈ known ↔ k ∈ seen) (hfree : ∀ k ∈ known, t.NaNFree k) :
    (firstOfValues table.bindings f.name tree xs).outcome
      = (@Evaluator.firstOfKeys T t.Val t.keyEquality (some f.getter) seen xs).outcome := by
  have := t.transCmp_compare
  let := t.keyEquality
  have hcomparable := FieldType.isComparable_of_isKey h.key
  refine Table.outcome_firstOfValues (D := t.NaNFree)
    (fun x y hx hy => FieldType.lt_toValue hcomparable hx hy)
    (fun x y hx hy => FieldType.same_eq h.key hx hy) (fun e _ => ?_) (fun e he => h.free e (hxs he))
    hholds hseen hfree
  rw [h.binds.valueOf]
  exact Run.outcome_map _ _

end Table

/-! ## By queries -/

namespace RemoteEvaluator

variable {table : Table T} {p : Predicate T} {order : Option (SortOrder T)}
  {fields : List SortField} {c : T → T → Ordering}

/-- A composed query is handed to the table. -/
theorem outcome_entities {query : Run Query} {q : Query} (hq : query.outcome = .ok q)
    (source : Text) (negate : Bool) (limits : Limits) :
    ((querying table source p negate limits).entities query).outcome = (table.fetch q).outcome := by
  unfold entities
  rw [Run.outcome_bind_ok hq]
  exact Run.outcome_bind_ok (Run.outcome_event _) _

section

variable (h : table.Serves p) (ho : table.Arrangement order fields c) (source : Text)
  (negate : Bool) (limits : Limits)

include h ho

/-- **The query for entities** is composed, with a filter that passes what is wanted. -/
theorem outcome_describeSelect (wanted : Bool) (offset limit : Option UInt64) :
    ∃ d, (p.IsPortable → d.isPortable = true) ∧
      ((querying table source p negate limits).describeSelect wanted order offset limit).outcome
        = .ok { operation := .select, source := source, filter := some d, orderBy := fields,
                offset := offset, limit := limit } ∧
      ∀ e ∈ table.rows, (Table.passes table.bindings (some d) e).outcome
        = .ok (p.verdict e != wanted) := by
  obtain ⟨d, hd, hpasses⟩ := h.exists_filter wanted
  refine ⟨d, fun hp => Predicate.isPortable_of_describe hp hd, ?_, hpasses⟩
  unfold describeSelect compose
  rw [hd]
  have hdescribed := ho.described
  cases order with
  | none =>
    obtain rfl : [] = fields := Except.ok.inj (congrArg Run.outcome hdescribed)
    rfl
  | some order =>
    show (order.describe >>= fun _ => logged _).outcome = _
    rw [show order.describe = .done fields from hdescribed]
    rfl

/-- **The reply to a query for entities** is a window of the arranged rows that are wanted. -/
theorem exists_reply (wanted : Bool) (offset limit : Option UInt64) :
    ∃ q : Query,
      ((querying table source p negate limits).describeSelect wanted order offset limit).outcome
        = .ok q ∧
      (source.isUtf8 = true → p.IsPortable → (∀ key ∈ fields, key.field.isUtf8 = true) →
        q.isPortable = true) ∧
      ((querying table source p negate limits).entities
          ((querying table source p negate limits).describeSelect wanted order offset
            limit)).outcome
        = q.reply (.ok (Table.window offset limit
            ((Evaluator.chosen p wanted table.rows).mergeSort (ahead c)))) := by
  have := ho.total
  obtain ⟨d, hd, hquery, hpasses⟩ :=
    outcome_describeSelect h ho source negate limits wanted offset limit
  refine ⟨_, hquery, fun hsource hp hfields => ?_, ?_⟩
  · simpa [Query.isPortable, Query.names, hd hp, hsource] using hfields
  · rw [outcome_entities hquery, Table.outcome_fetch hpasses ho.named]
    rfl

end

section

variable (h : table.Serves p) (hp : p.IsPortable) {source : Text} (hsource : source.isUtf8 = true)
  (ho : table.Arrangement order fields c) (hfields : ∀ key ∈ fields, key.field.isUtf8 = true)
  (negate : Bool) (limits : Limits)

include h hp hsource

/-- Asking whether a row is wanted. -/
theorem outcome_any :
    (querying table source p negate limits).any.outcome
      = ((Evaluator.mk p negate limits).any table.rows).outcome := by
  obtain ⟨d, hd, hq, hfiltered⟩ := outcome_compose h hp source negate limits .exist negate
  have hportable : Query.isPortable
      { operation := .exist, source := source, filter := some d } = true := by
    simp [Query.isPortable, Query.names, hd, hsource]
  have hscalar : (table.scalar { operation := .exist, source := source, filter := some d }).outcome
      = .ok (.bool !(Evaluator.chosen p negate table.rows).isEmpty) := by
    unfold Table.scalar
    rw [Table.outcome_announce_filtered hportable (hfiltered _ rfl)]
    rfl
  unfold any describeAny
  rw [Run.outcome_bind_ok ((outcome_value hq source negate limits).trans hscalar),
    Evaluator.outcome_any h.decides]
  rfl

/-- Counting the rows that are wanted. -/
theorem outcome_count (words : table.rows.length < 2 ^ 64) :
    (querying table source p negate limits).count.outcome.map FixedInt.toInt
      = ((Evaluator.mk p negate limits).count table.rows).outcome.map Nat.cast := by
  obtain ⟨d, hd, hq, hfiltered⟩ := outcome_compose h hp source negate limits .count negate
  have hportable : Query.isPortable
      { operation := .count, source := source, filter := some d } = true := by
    simp [Query.isPortable, Query.names, hd, hsource]
  have hscalar : (table.scalar { operation := .count, source := source, filter := some d }).outcome
      = .ok (.size (Evaluator.chosen p negate table.rows).length) := by
    unfold Table.scalar
    rw [Table.outcome_announce_filtered hportable (hfiltered _ rfl)]
    rfl
  have hlength : (Evaluator.chosen p negate table.rows).length < 2 ^ 64 :=
    (List.length_filter_le _ _).trans_lt words
  unfold count describeCount
  rw [Run.outcome_bind_ok ((outcome_value hq source negate limits).trans hscalar),
    Evaluator.outcome_count h.decides]
  refine congrArg Except.ok ?_
  show (FixedInt.wrap ⟨false, .w64⟩ (UInt64.ofNat _).toNat).toInt = _
  rw [UInt64.toNat_ofNat_of_lt' hlength, FixedInt.toInt_wrap_word hlength]

include ho hfields

/-- **The entities of a query** are a window of the arranged rows that are wanted. -/
theorem outcome_selected (wanted : Bool) (offset limit : Option UInt64) :
    ((querying table source p negate limits).entities
        ((querying table source p negate limits).describeSelect wanted order offset limit)).outcome
      = .ok (Table.window offset limit
          ((Evaluator.chosen p wanted table.rows).mergeSort (ahead c))) := by
  obtain ⟨q, -, hportable, hreply⟩ := exists_reply h ho source negate limits wanted offset limit
  rw [hreply, Query.reply_of_isPortable (hportable hsource hp hfields)]

/-- **The entities of a query for a distinct field** are the first ones of each datum
among the arranged rows that are wanted. -/
theorem outcome_selectedDistinct {t : FieldType} {f : Field T t} (hf : f.name.isUtf8 = true) :
    ((querying table source p negate limits).distinct f order).outcome
      = (Table.firstOfValues table.bindings f.name .leaf
          ((Evaluator.chosen p negate table.rows).mergeSort (ahead c))).outcome := by
  have := ho.total
  obtain ⟨d, hd, hquery, hpasses⟩ :=
    outcome_describeSelect h ho source negate limits negate none none
  have hdistinct : ((querying table source p negate limits).describeDistinct f order).outcome
      = .ok { operation := .select, source := source, filter := some d, orderBy := fields,
              distinctBy := some f.name } :=
    Run.outcome_bind_ok hquery _
  have hportable : Query.isPortable
      { operation := .select, source := source, filter := some d, orderBy := fields,
        distinctBy := some f.name } = true := by
    simpa [Query.isPortable, Query.names, hd hp, hsource, hf] using hfields
  show ((querying table source p negate limits).entities _).outcome = _
  rw [outcome_entities hdistinct, Table.outcome_fetch hpasses ho.named,
    Query.reply_of_isPortable hportable]
  exact congrArg Run.outcome (Run.bind_done _)

/-- Of either sign, the list of a query is the list in memory. -/
theorem selected_eq_select (wanted : Bool) :
    ((querying table source p negate limits).entities
        ((querying table source p negate limits).describeSelect (negate == wanted) order none
          none)).outcome
      = ((Evaluator.mk p negate limits).select table.rows order wanted).outcome := by
  rw [outcome_selected h hp hsource ho hfields, Evaluator.outcome_select h.decides ho.ranks]
  rfl

/-- Of either sign, the head of a query for one entity is the first one in memory. -/
theorem head?_eq_firstWhere (wanted : Bool) :
    ((querying table source p negate limits).entities
        ((querying table source p negate limits).describeSelect (negate == wanted) order none
          (some 1)) >>= fun rows => .done rows.head?).outcome
      = ((Evaluator.mk p negate limits).firstWhere table.rows order wanted).outcome := by
  rw [Run.outcome_bind_ok (outcome_selected h hp hsource ho hfields negate limits _ _ _),
    Evaluator.outcome_firstWhere h.decides ho.ranks]
  exact congrArg Except.ok List.head?_take

/-- Of either sign, the end of the list of a query is the last one in memory. -/
theorem getLast?_eq_lastWhere (wanted : Bool) :
    ((querying table source p negate limits).entities
        ((querying table source p negate limits).describeSelect (negate == wanted) order none
          none) >>= fun rows => .done rows.getLast?).outcome
      = ((Evaluator.mk p negate limits).lastWhere table.rows order wanted).outcome := by
  rw [Run.outcome_bind_ok (outcome_selected h hp hsource ho hfields negate limits _ _ _),
    Evaluator.outcome_lastWhere h.decides ho.ranks]
  rfl

/-- One page, or the argument that is rejected. -/
theorem outcome_paged (words : table.rows.length < 2 ^ 64) (page size : Int32) :
    ((querying table source p negate limits).paged page size order).outcome
      = ((Evaluator.mk p negate limits).paged table.rows page size order).outcome := by
  unfold paged describePaged Evaluator.paged entities
  rw [Run.bind_bind]
  cases hcheck : (limits.requirePage page size).outcome with
  | error fault => rw [Run.outcome_bind_error hcheck, Run.outcome_bind_error hcheck]
  | ok _ =>
    obtain ⟨hpage, hsize⟩ := pos_of_requirePage hcheck
    have hselect := Evaluator.outcome_select_passed h.decides ho.ranks negate limits
    have hlength :
        ((Evaluator.chosen p negate table.rows).mergeSort (ahead c)).length < 2 ^ 64 := by
      rw [List.length_mergeSort]
      exact (List.length_filter_le _ _).trans_lt words
    rw [Run.outcome_bind_ok hcheck, Run.outcome_bind_ok hcheck, Run.outcome_bind_ok hselect]
    refine (outcome_selected h hp hsource ho hfields negate limits negate _ _).trans ?_
    exact congrArg Except.ok (slice_pageRange _ hlength hpage hsize).symm

/-- The first entities up to a count, or the argument that is rejected. -/
theorem outcome_top (count : Int32) :
    ((querying table source p negate limits).top count order).outcome
      = ((Evaluator.mk p negate limits).top table.rows count order).outcome := by
  unfold top describeTop Evaluator.top entities
  rw [Run.bind_bind]
  cases hcheck : (limits.requireTop count).outcome with
  | error fault => rw [Run.outcome_bind_error hcheck, Run.outcome_bind_error hcheck]
  | ok _ =>
    have hselect := Evaluator.outcome_select_passed h.decides ho.ranks negate limits
    rw [Run.outcome_bind_ok hcheck, Run.outcome_bind_ok hcheck, Run.outcome_bind_ok hselect]
    exact outcome_selected h hp hsource ho hfields negate limits negate _ _

/-- The first entity of each datum. -/
theorem outcome_distinct {t : FieldType} {f : Field T t} (hf : table.KeyedBy f)
    (hname : f.name.isUtf8 = true) :
    ((querying table source p negate limits).distinct f order).outcome
      = (@Evaluator.distinct T t.Val t.keyEquality ⟨p, negate, limits⟩ table.rows
          (some f.getter) order).outcome := by
  have hselect := Evaluator.outcome_select_passed h.decides ho.ranks negate limits
  have hsubset : (Evaluator.chosen p negate table.rows).mergeSort (ahead c) ⊆ table.rows :=
    fun e he => (List.mem_filter.mp (List.mem_mergeSort.mp he)).1
  unfold Evaluator.distinct
  rw [outcome_selectedDistinct h hp hsource ho hfields negate limits hname,
    hf.outcome_firstOfValues hsubset .leaf (fun _ => Iff.rfl)
    (fun k hk => nomatch hk)]
  exact (Run.outcome_bind_ok hselect _).symm

end

/-! ## Agreement -/

/-- **An evaluator over a table that selects as one in memory** does from its rows: the
same outcome of every operation, also where an argument is rejected. A count is a word,
and stands for the number of entities. -/
structure SelectsAs (w : RemoteEvaluator T) (v : Evaluator T) (table : Table T)
    (order : Option (SortOrder T)) : Prop where
  any : w.any.outcome = (v.any table.rows).outcome
  count : w.count.outcome.map FixedInt.toInt = (v.count table.rows).outcome.map Nat.cast
  first : (w.first order).outcome = (v.first table.rows order).outcome
  firstFailed : (w.firstFailed order).outcome = (v.firstFailed table.rows order).outcome
  last : (w.last order).outcome = (v.last table.rows order).outcome
  lastFailed : (w.lastFailed order).outcome = (v.lastFailed table.rows order).outcome
  all : (w.all order).outcome = (v.all table.rows order).outcome
  allFailed : (w.allFailed order).outcome = (v.allFailed table.rows order).outcome
  paged (page size : Int32) :
    (w.paged page size order).outcome = (v.paged table.rows page size order).outcome
  top (count : Int32) : (w.top count order).outcome = (v.top table.rows count order).outcome
  distinct {t : FieldType} (f : Field T t) : table.KeyedBy f → f.name.isUtf8 = true →
    (w.distinct f order).outcome
      = (@Evaluator.distinct T t.Val t.keyEquality v table.rows (some f.getter) order).outcome

/-- With queries that can be written down, it is one. -/
theorem selectsAs_of_isPortable {source : Text} (hsource : source.isUtf8 = true)
    (hp : p.IsPortable) (horder : ∀ o ∈ order, o.IsPortable) (negate : Bool) (limits : Limits)
    (serves : table.Serves p) (orders : table.Orders order) (words : table.rows.length < 2 ^ 64) :
    SelectsAs ⟨table.provider, source, p, negate, limits⟩ ⟨p, negate, limits⟩ table order := by
  obtain ⟨fields, c, ho⟩ := orders.exists_arrangement
  have hfields := ho.isUtf8 horder
  have hpass : (negate == true) = negate := beq_true negate
  have hfail : (negate == false) = !negate := beq_false negate
  have hlist := selected_eq_select serves hp hsource ho hfields negate limits
  have hfirst := head?_eq_firstWhere serves hp hsource ho hfields negate limits
  have hlast := getLast?_eq_lastWhere serves hp hsource ho hfields negate limits
  constructor
  case any => exact outcome_any serves hp hsource negate limits
  case count => exact outcome_count serves hp hsource negate limits words
  case first =>
    have h := hfirst true
    rwa [hpass] at h
  case firstFailed =>
    have h := hfirst false
    rwa [hfail] at h
  case last =>
    have h := hlast true
    rwa [hpass] at h
  case lastFailed =>
    have h := hlast false
    rwa [hfail] at h
  case all =>
    have h := hlist true
    rwa [hpass] at h
  case allFailed =>
    have h := hlist false
    rwa [hfail] at h
  case paged => exact outcome_paged serves hp hsource ho hfields negate limits words
  case top => exact outcome_top serves hp hsource ho hfields negate limits
  case distinct =>
    exact fun f hf hname => outcome_distinct serves hp hsource ho hfields negate limits hf hname

/-- A table of all pairs of flags, some of them twice. -/
def flagTable : Table (Bool × Bool) where
  rows := [(true, false), (false, false), (false, true), (true, true), (false, false),
    (true, false)]
  bindings := Predicate.flagBindings

/-- By the second flag, the greatest first, and then by the first one. -/
def flagOrder : SortOrder (Bool × Bool) :=
  (SortOrder.unordered.thenBy Predicate.rightFlag .descending).thenBy Predicate.leftFlag

end RemoteEvaluator

end Criteria
