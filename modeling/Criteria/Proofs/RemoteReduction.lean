import Criteria.Proofs.Reductions
import Criteria.Proofs.Serving

/-!
# Reducing by queries is reducing

An evaluator over a table has the table reduce the values of a field by name, and takes
the datum from the reply; an evaluator in memory folds the data that the field reads. For
a predicate that the table serves and a field that it binds, both have the same outcome
(`RemoteEvaluator.reduces_as`), and nothing is asked of the data. What is asked is that the query
can be written down, since the table refuses it otherwise.

Both ways first read the field of every row that is wanted, in the order of the rows
(`Evaluator.outcome_foldPassed`, `Table.targets_eq`). If that fails, they fail alike.
If not there is a list of data and a list of their values, which are reduced to the same
result by module `Criteria.Proofs.Reductions`.
-/

namespace Criteria

variable {T : Type} {table : Table T} {p : Predicate T} {t : FieldType} {f : Field T t}

/-! ## In memory -/

/-- **A fold over what a field reads** of the rows that are wanted. -/
theorem Evaluator.outcome_foldPassed {β : Type} (h : table.Serves p) (negate : Bool)
    (limits : Limits) (f : Field T t) (g : β → t.Val → β) (start : β) :
    ((Evaluator.mk p negate limits).foldPassed
        (fun acc e => Run.call (some f.getter) e >>= fun x => .done (g acc x)) start
        table.rows).outcome
      = (Run.each f.getter (chosen p negate table.rows) >>= fun xs =>
          .done (xs.foldl g start)).outcome :=
  (Run.outcome_fold_keep _ start fun e he => outcome_evaluate (h.decides e he) negate limits).trans
    (congrArg Run.outcome (Run.fold_each f.getter g start _))

/-! ## By queries -/

namespace Table

/-- **The values of a bound field** are those of the data that it reads. -/
theorem Binds.column_eq (h : table.Binds f) (rows : List T) :
    column table.bindings f.name rows
      = Run.each f.getter rows >>= fun xs => .done (xs.map t.toValue) := by
  have hvalue : (fun e => table.bindings.valueOf e f.name) = f.valueOf := funext h.valueOf
  unfold column
  rw [hvalue]
  exact Run.each_map f.getter t.toValue rows

end Table

namespace RemoteEvaluator

/-- **The reply to a query for a reduction**, for an operation that the table executes by
finishing the list of the values of the field. -/
theorem outcome_reduction (h : table.Serves p) (hp : p.IsPortable) {source : Text}
    (hsource : source.isUtf8 = true) (hf : table.Binds f) (hname : f.name.isUtf8 = true)
    (negate : Bool) (limits : Limits) (operation : Operation) (finish : List Value → Value)
    (hfinish : ∀ q rows, q.isPortable = true → q.operation = operation →
      (table.filtered q).outcome = .ok rows →
      (table.scalar q).outcome = (table.targets q rows >>= fun vs => .done (finish vs)).outcome) :
    ((querying table source p negate limits).value
        ((querying table source p negate limits).describeReduction operation f.name)).outcome
      = (Run.each f.getter (Evaluator.chosen p negate table.rows) >>= fun xs =>
          .done (finish (xs.map t.toValue))).outcome := by
  obtain ⟨d, hd, hq, hfiltered⟩ := outcome_compose h hp source negate limits operation negate
  have hquery : ((querying table source p negate limits).describeReduction operation f.name).outcome
      = .ok { operation := operation, source := source, filter := some d,
              targetField := some f.name } := Run.outcome_bind_ok hq _
  have hportable : Query.isPortable
      { operation := operation, source := source, filter := some d,
        targetField := some f.name } = true := by
    simp [Query.isPortable, Query.names, hd, hsource, hname]
  rw [outcome_value hquery, hfinish _ _ hportable rfl (hfiltered _ rfl)]
  show (Table.column table.bindings f.name _ >>= _).outcome = _
  rw [hf.column_eq, Run.bind_bind]
  rfl

/-- The operation that asks for an extreme. -/
def extremeOperation : Evaluator.Extreme → Operation
  | .least => .min
  | .greatest => .max

/-- A reply that has to be there is the number that has to be there. -/
theorem reduced_optionValue {n : NumberType} (reduction : Reduction) (x : Option n.type.Val) :
    reduced reduction (Table.optionValue n x) = Evaluator.orEmpty reduction x := by
  cases x with
  | none => rfl
  | some x =>
    unfold reduced Table.optionValue
    rw [NumberType.isNull_toValue, if_neg Bool.false_ne_true, NumberType.ofValue_toValue]
    rfl

/-- **The least and the greatest.** -/
theorem outcome_extreme {n : NumberType} {f : Field T n.type} (h : table.Serves p)
    (hp : p.IsPortable) {source : Text} (hsource : source.isUtf8 = true) (hf : table.Binds f)
    (hname : f.name.isUtf8 = true) (negate : Bool) (limits : Limits)
    (extreme : Evaluator.Extreme) (reduction : Reduction) :
    ((querying table source p negate limits).value
        ((querying table source p negate limits).describeReduction (extremeOperation extreme)
          f.name) >>= reduced reduction : Run n.type.Val).outcome
      = ((Evaluator.mk p negate limits).extreme? extreme table.rows (some f.getter) >>=
          Evaluator.orEmpty reduction).outcome := by
  have hreply := outcome_reduction h hp hsource hf hname negate limits (extremeOperation extreme)
    (fun vs => vs.foldl (Table.chooseValue (Table.isGreatest extreme)) .null)
    fun q rows hportable hq hrows => by
      unfold Table.scalar
      rw [Table.outcome_announce_filtered hportable hrows, hq]
      cases extreme <;> rfl
  refine Run.outcome_bind_of_common hreply
    (Evaluator.outcome_foldPassed h negate limits f extreme.choose none) fun xs _ => ?_
  rw [Table.foldl_chooseValue, reduced_optionValue]

/-- **The sum.** -/
theorem outcome_sum {n : NumberType} {f : Field T n.type} (h : table.Serves p)
    (hp : p.IsPortable) {source : Text} (hsource : source.isUtf8 = true) (hf : table.Binds f)
    (hname : f.name.isUtf8 = true) (negate : Bool) (limits : Limits)
    (hn : n ≠ .single ∨ Evaluator.chosen p negate table.rows = []) :
    ((querying table source p negate limits).sum f).outcome
      = ((Evaluator.mk p negate limits).sum table.rows (some f.getter)).outcome := by
  have hreply := outcome_reduction h hp hsource hf hname negate limits .sum
    (fun vs => (vs.foldl Table.RunningSum.add (.whole 0)).toValue)
    fun q rows hportable hq hrows => by
      unfold Table.scalar
      rw [Table.outcome_announce_filtered hportable hrows, hq]
  have hlocal := Evaluator.outcome_foldPassed h negate limits f Numeric.add Numeric.zero
  have hsum := Run.outcome_bind_of_common (f := fun reply =>
      if reply.isNull then .done Numeric.zero else Run.ofExcept (n.type.ofValue reply))
    (g := Run.done) hreply hlocal fun xs hxs => by
      have hxs' : n ≠ .single ∨ xs = [] := hn.imp_right fun hnil =>
        List.eq_nil_of_length_eq_zero (by rw [Run.length_of_each hxs, hnil, List.length_nil])
      rw [Table.isNull_runningSum, if_neg Bool.false_ne_true, Table.ofValue_sum hxs']
      rfl
  rw [Run.bind_done] at hsum
  exact hsum

/-- The average of a reply: the one in memory, rounded to what a value carries. -/
def rounded (mean : Decimal) : Decimal := (mean.convert .double).convert .extended

/-- **The average.** -/
theorem outcome_average {n : NumberType} {f : Field T n.type} (h : table.Serves p)
    (hp : p.IsPortable) {source : Text} (hsource : source.isUtf8 = true) (hf : table.Binds f)
    (hname : f.name.isUtf8 = true) (negate : Bool) (limits : Limits) :
    ((querying table source p negate limits).average f).outcome
      = ((Evaluator.mk p negate limits).average table.rows (some f.getter)).outcome.map
          rounded := by
  have hreply := outcome_reduction h hp hsource hf hname negate limits .average
    (fun vs => Table.meanValue (vs.foldl Table.addToTotal {}))
    fun q rows hportable hq hrows => by
      unfold Table.scalar
      rw [Table.outcome_announce_filtered hportable hrows, hq]
  have hlocal := Evaluator.outcome_foldPassed h negate limits f
    (fun total x => Evaluator.Total.add total x) {}
  rw [← Run.outcome_map]
  unfold Evaluator.average Evaluator.average?
  rw [Run.bind_bind, Run.bind_bind, Run.bind_bind,
    show Run.requireCallable "selector" (some f.getter) = .done () from rfl, Run.done_bind]
  refine Run.outcome_bind_of_common hreply hlocal fun xs _ => ?_
  rw [Table.foldl_addToTotal]
  generalize xs.foldl (fun total x => Evaluator.Total.add total x) {} = total
  by_cases hcount : total.count = 0
  · rw [if_pos hcount, Table.meanValue, if_pos hcount]
    rfl
  · rw [if_neg hcount, Table.meanValue, if_neg hcount]
    rfl

/-- The reply to a query for the counts of groups. -/
theorem outcome_groupReply (h : table.Serves p) (hp : p.IsPortable) {source : Text}
    (hsource : source.isUtf8 = true) (hf : table.Binds f) (hname : f.name.isUtf8 = true)
    (negate : Bool) (limits : Limits) :
    ((querying table source p negate limits).value
        ((querying table source p negate limits).describeCountByGroup f)).outcome
      = (Run.each f.getter (Evaluator.chosen p negate table.rows) >>= fun xs =>
          .done (.array (((xs.map t.toValue).foldl (fun groups v => Table.countValue v groups)
            []).map Table.groupValue))).outcome := by
  obtain ⟨d, hd, hq, hfiltered⟩ := outcome_compose h hp source negate limits .countByGroup negate
  have hquery : ((querying table source p negate limits).describeCountByGroup f).outcome
      = .ok { operation := .countByGroup, source := source, filter := some d,
              groupBy := some f.name } := Run.outcome_bind_ok hq _
  have hportable : Query.isPortable
      { operation := .countByGroup, source := source, filter := some d,
        groupBy := some f.name } = true := by
    simp [Query.isPortable, Query.names, hd, hsource, hname]
  rw [outcome_value hquery]
  unfold Table.scalar
  rw [Table.outcome_announce_filtered hportable (hfiltered _ rfl)]
  show (Table.column table.bindings f.name _ >>= _).outcome = _
  rw [hf.column_eq, Run.bind_bind]
  rfl

/-- **The counts of groups**, as the numbers that their words stand for. -/
theorem outcome_countByGroup (ht : Table.isGroupKey t = true) (h : table.Serves p)
    (hp : p.IsPortable) {source : Text} (hsource : source.isUtf8 = true) (hf : table.Binds f)
    (hname : f.name.isUtf8 = true) (negate : Bool) (limits : Limits)
    (words : table.rows.length < 2 ^ 64) :
    ((querying table source p negate limits).countByGroup f).outcome.map
        (List.map fun group => (group.1, group.2.toInt))
      = (@Evaluator.countByGroup T t.Val t.keyEquality ⟨p, negate, limits⟩ table.rows
          (some f.getter)).outcome.map (List.map fun group => (group.1, (group.2 : ℤ))) := by
  have hlocal := Evaluator.outcome_foldPassed h negate limits f (Table.countDatum t) []
  rw [← Run.outcome_map, ← Run.outcome_map]
  unfold countByGroup Evaluator.countByGroup
  rw [Run.bind_bind, Run.bind_bind,
    show Run.requireCallable "key selector" (some f.getter) = .done () from rfl, Run.done_bind]
  refine Run.outcome_bind_of_common (outcome_groupReply h hp hsource hf hname negate limits) hlocal
    fun xs hxs => ?_
  obtain ⟨hnodup, hsum⟩ := Table.foldl_countDatum ht xs
  rw [Table.foldl_countValue ht]
  show (Run.ofExcept (groupCounts t _) >>= _).outcome = _
  rw [Table.groupCounts_array ht hnodup]
  refine congrArg Except.ok ?_
  rw [List.map_map]
  refine List.map_congr_left fun group hgroup => ?_
  -- no group has more data than there are rows
  have hle : group.2 ≤ xs.length := by
    rw [← hsum]
    exact List.le_sum_of_mem (List.mem_map_of_mem hgroup)
  have hlength : xs.length < 2 ^ 64 := by
    rw [Run.length_of_each hxs]
    exact (List.length_filter_le _ _).trans_lt words
  exact congrArg (group.1, ·) (Table.toInt_wordCount (hle.trans_lt hlength))

/-! ## Nothing to reduce -/

section

variable (h : table.Serves p) {negate : Bool} {limits : Limits}
  (hnone : ((Evaluator.mk p negate limits).any table.rows).outcome = .ok false)

include h hnone

/-- Where no row passes, none is wanted. -/
theorem chosen_of_none : Evaluator.chosen p negate table.rows = [] := by
  have hempty := Except.ok.inj ((Evaluator.outcome_any h.decides negate limits).symm.trans hnone)
  rw [Bool.not_eq_false', List.isEmpty_iff] at hempty
  exact hempty

/-- Where no row passes, a fold in memory is where it starts. -/
theorem outcome_foldPassed_of_none {β : Type} (f : Field T t) (g : β → t.Val → β) (start : β) :
    ((Evaluator.mk p negate limits).foldPassed
        (fun acc e => Run.call (some f.getter) e >>= fun x => .done (g acc x)) start
        table.rows).outcome = .ok start := by
  rw [Evaluator.outcome_foldPassed h, chosen_of_none h hnone]
  rfl

/-- The extreme of nothing is a fault. -/
theorem outcome_extreme_of_none {n : NumberType} (f : Field T n.type)
    (extreme : Evaluator.Extreme) (reduction : Reduction) :
    ((Evaluator.mk p negate limits).extreme? extreme table.rows (some f.getter) >>=
      Evaluator.orEmpty reduction).outcome = .error (.emptyResult reduction) :=
  Run.outcome_bind_ok (outcome_foldPassed_of_none h hnone f extreme.choose none) _

/-- The average of nothing is a fault. -/
theorem outcome_average_of_none {n : NumberType} (f : Field T n.type) :
    ((Evaluator.mk p negate limits).average table.rows (some f.getter)).outcome
      = .error (.emptyResult .average) := by
  have hlocal := outcome_foldPassed_of_none h hnone f
    (fun total x => Evaluator.Total.add total x) {}
  unfold Evaluator.average Evaluator.average?
  rw [Run.bind_bind, Run.bind_bind,
    show Run.requireCallable "selector" (some f.getter) = .done () from rfl, Run.done_bind]
  exact Run.outcome_bind_ok hlocal _

/-- The sum of nothing is zero, in memory. -/
theorem outcome_sum_of_none {n : NumberType} (f : Field T n.type) :
    ((Evaluator.mk p negate limits).sum table.rows (some f.getter)).outcome = .ok Numeric.zero :=
  outcome_foldPassed_of_none h hnone f Numeric.add Numeric.zero

end

/-! ## Agreement -/

/-- **An evaluator over a table that reduces as one in memory** does from its rows, for
every field that the table binds and whose name can be written down. -/
structure ReducesAs (w : RemoteEvaluator T) (v : Evaluator T) (table : Table T) : Prop where
  min {n : NumberType} (f : Field T n.type) : table.Binds f → f.name.isUtf8 = true →
    (w.min f).outcome = (v.min table.rows (some f.getter)).outcome
  max {n : NumberType} (f : Field T n.type) : table.Binds f → f.name.isUtf8 = true →
    (w.max f).outcome = (v.max table.rows (some f.getter)).outcome
  sum {n : NumberType} (f : Field T n.type) : table.Binds f → f.name.isUtf8 = true →
    n ≠ .single → (w.sum f).outcome = (v.sum table.rows (some f.getter)).outcome
  /-- A reply carries the average rounded. -/
  average {n : NumberType} (f : Field T n.type) : table.Binds f → f.name.isUtf8 = true →
    (w.average f).outcome = (v.average table.rows (some f.getter)).outcome.map rounded
  /-- The words of the reply stand for the counts. -/
  countByGroup {t : FieldType} (f : Field T t) : table.Binds f → f.name.isUtf8 = true →
    Table.isGroupKey t = true →
    (w.countByGroup f).outcome.map (List.map fun group => (group.1, group.2.toInt))
      = (@Evaluator.countByGroup T t.Val t.keyEquality v table.rows (some f.getter)).outcome.map
          (List.map fun group => (group.1, (group.2 : ℤ)))
  /-- Where no row passes, there is no result but a sum. -/
  nothing {n : NumberType} (f : Field T n.type) : table.Binds f → f.name.isUtf8 = true →
    (v.any table.rows).outcome = .ok false →
      (w.min f).outcome = .error (.emptyResult .min) ∧
      (v.min table.rows (some f.getter)).outcome = .error (.emptyResult .min) ∧
      (w.max f).outcome = .error (.emptyResult .max) ∧
      (v.max table.rows (some f.getter)).outcome = .error (.emptyResult .max) ∧
      (w.average f).outcome = .error (.emptyResult .average) ∧
      (v.average table.rows (some f.getter)).outcome = .error (.emptyResult .average) ∧
      (w.sum f).outcome = .ok Numeric.zero ∧
      (v.sum table.rows (some f.getter)).outcome = .ok Numeric.zero

/-- With queries that can be written down, it is one. -/
theorem reducesAs_of_isPortable {source : Text} (hsource : source.isUtf8 = true)
    (hp : p.IsPortable) (negate : Bool) (limits : Limits) (serves : table.Serves p)
    (words : table.rows.length < 2 ^ 64) :
    ReducesAs ⟨table.provider, source, p, negate, limits⟩ ⟨p, negate, limits⟩ table := by
  constructor
  case min =>
    exact fun f hf hname =>
      outcome_extreme serves hp hsource hf hname negate limits .least .min
  case max =>
    exact fun f hf hname =>
      outcome_extreme serves hp hsource hf hname negate limits .greatest .max
  case sum =>
    exact fun f hf hname hn => outcome_sum serves hp hsource hf hname negate limits (Or.inl hn)
  case average =>
    exact fun f hf hname => outcome_average serves hp hsource hf hname negate limits
  case countByGroup =>
    exact fun f hf hname ht =>
      outcome_countByGroup ht serves hp hsource hf hname negate limits words
  case nothing =>
    intro n f hf hname hnone
    have hmin := outcome_extreme_of_none serves hnone f .least .min
    have hmax := outcome_extreme_of_none serves hnone f .greatest .max
    have haverage := outcome_average_of_none serves hnone f
    have hsum := outcome_sum_of_none serves hnone f
    refine ⟨(outcome_extreme serves hp hsource hf hname negate limits .least .min).trans hmin,
      hmin, (outcome_extreme serves hp hsource hf hname negate limits .greatest .max).trans hmax,
      hmax, (outcome_average serves hp hsource hf hname negate limits).trans ?_, haverage,
      (outcome_sum serves hp hsource hf hname negate limits ?_).trans hsum, hsum⟩
    · rw [haverage]
      rfl
    · exact Or.inr (chosen_of_none serves hnone)

/-- A weight of a pair of flags, in eight bits without a sign. -/
def weightField : Field (Bool × Bool) (NumberType.int ⟨false, .w8⟩).type where
  name := "weight"
  getter e := .done (.wrap _ (if e.1 then 200 else 100))
  named := rfl

/-- A table of pairs of flags with their weights, whose sum is above what eight bits
hold. -/
def weightTable : Table (Bool × Bool) where
  rows := [(true, true), (false, true), (false, false), (true, false)]
  bindings := .bind Predicate.flagBindings weightField

end RemoteEvaluator

end Criteria
