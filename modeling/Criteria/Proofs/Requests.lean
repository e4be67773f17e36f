import Criteria.Proofs.Arguments
import Criteria.Proofs.RemoteSelection
import Criteria.Proofs.Translation

/-!
# What a provider is asked

An evaluator by queries has many operations (`RemoteEvaluator.Call`), and all of them are
of one form: the arguments are checked, the predicate is described, then the order, and
from the descriptions the query is finished, which cannot fail any more
(`RemoteEvaluator.Composes`). Then it is handed over and the reply is read.

So there is an order among the obstacles to an operation (`Call.obstacle?`): a fault of
its arguments, then a leaf of the predicate that has no description, then a key of the
order that has no name. An operation with an obstacle ends in that fault and the provider
is not asked; one without asks it exactly once. This holds of every operation by itself,
so also of those that are performed one after another, whether or not some of them fail
(`Attempt.performAll_eq`).
-/

namespace Criteria

variable {T : Type}

/-! ## The queries that are handed over -/

/-- The query that an event hands over. -/
def Event.query? : Event → Option Query
  | .requested q => some q
  | _ => none

namespace Run

variable {α β : Type}

/-- **The queries that a run hands to a provider**, in order. -/
def requests (x : Run α) : List Query := x.events.filterMap Event.query?

@[simp] theorem requests_done (a : α) : (Run.done a).requests = [] := rfl

/-- After a run with a result, the queries of what follows are added. -/
theorem requests_bind_ok {x : Run α} {a : α} (h : x.outcome = .ok a) (f : α → Run β) :
    (x >>= f).requests = x.requests ++ (f a).requests := by
  show (andThen x f).events.filterMap _ = _
  unfold andThen
  rw [h]
  exact List.filterMap_append

/-- After a run that fails, no query is added. -/
theorem requests_bind_error {x : Run α} {fault : Fault} (h : x.outcome = .error fault)
    (f : α → Run β) : (x >>= f).requests = x.requests := by
  show (andThen x f).events.filterMap _ = _
  unfold andThen
  rw [h]
  rfl

end Run

namespace RemoteEvaluator

/-! ## Operations -/

/-- **An operation of an evaluator by queries**, with the type of its result. -/
inductive Call (T : Type) : Type → Type 1
  /-- Whether an entity passes. -/
  | any : Call T Bool
  /-- How many entities pass. -/
  | count : Call T (FixedInt ⟨false, .w64⟩)
  /-- The first entity that passes. -/
  | first (order : Option (SortOrder T)) : Call T (Option T)
  /-- The first entity that does not pass. -/
  | firstFailed (order : Option (SortOrder T)) : Call T (Option T)
  /-- The last entity that passes. -/
  | last (order : Option (SortOrder T)) : Call T (Option T)
  /-- The last entity that does not pass. -/
  | lastFailed (order : Option (SortOrder T)) : Call T (Option T)
  /-- The entities that pass. -/
  | all (order : Option (SortOrder T)) : Call T (List T)
  /-- The entities that do not pass. -/
  | allFailed (order : Option (SortOrder T)) : Call T (List T)
  /-- One page of the entities that pass. -/
  | paged (page size : Int32) (order : Option (SortOrder T)) : Call T (List T)
  /-- The first entities that pass, up to a count. -/
  | top (count : Int32) (order : Option (SortOrder T)) : Call T (List T)
  /-- The first entity of every datum of a field. -/
  | distinct {t : FieldType} (field : Field T t) (order : Option (SortOrder T)) :
    Call T (List T)
  /-- The least datum of a field. -/
  | min {t : FieldType} (field : Field T t) : Call T t.Val
  /-- The greatest datum of a field. -/
  | max {t : FieldType} (field : Field T t) : Call T t.Val
  /-- The sum of a field. -/
  | sum {t : FieldType} [Numeric t.Val] (field : Field T t) : Call T t.Val
  /-- The average of a field. -/
  | average {t : FieldType} (field : Field T t) : Call T Decimal
  /-- How many entities each datum of a field has. -/
  | countByGroup {t : FieldType} (key : Field T t) : Call T (GroupCounts t)

namespace Call

variable {α : Type}

/-- **Performing an operation.** -/
def perform (v : RemoteEvaluator T) : Call T α → Run α
  | .any => v.any
  | .count => v.count
  | .first order => v.first order
  | .firstFailed order => v.firstFailed order
  | .last order => v.last order
  | .lastFailed order => v.lastFailed order
  | .all order => v.all order
  | .allFailed order => v.allFailed order
  | .paged page size order => v.paged page size order
  | .top n order => v.top n order
  | .distinct field order => v.distinct field order
  | .min field => v.min field
  | .max field => v.max field
  | @Call.sum _ _ _ field => v.sum field
  | .average field => v.average field
  | .countByGroup key => v.countByGroup key

/-- **The query of an operation**, without performing it. -/
def query (v : RemoteEvaluator T) : Call T α → Run Query
  | .any => v.describeAny
  | .count => v.describeCount
  | .first order => v.describeFirst order
  | .firstFailed order => v.describeFirstFailed order
  | .last order => v.describeAll order
  | .lastFailed order => v.describeAllFailed order
  | .all order => v.describeAll order
  | .allFailed order => v.describeAllFailed order
  | .paged page size order => v.describePaged page size order
  | .top n order => v.describeTop n order
  | .distinct field order => v.describeDistinct field order
  | .min field => v.describeReduction .min field.name
  | .max field => v.describeReduction .max field.name
  | @Call.sum _ _ _ field => v.describeReduction .sum field.name
  | .average field => v.describeReduction .average field.name
  | .countByGroup key => v.describeCountByGroup key

/-- **What a provider answers to the query of an operation**: it fetches entities or a
value, and the reply is read. -/
def answer (p : Provider T) (q : Query) : Call T α → Run α
  | .any => p.scalar q >>= fun reply => Run.ofExcept (FieldType.bool.ofValue reply)
  | .count => p.scalar q >>= fun reply => Run.ofExcept (FieldType.countOfValue reply)
  | .first _ | .firstFailed _ => p.fetch q >>= fun rows => .done rows.head?
  | .last _ | .lastFailed _ => p.fetch q >>= fun rows => .done rows.getLast?
  | .all _ | .allFailed _ | .paged .. | .top .. | .distinct .. => p.fetch q
  | .min _ => p.scalar q >>= reduced .min
  | .max _ => p.scalar q >>= reduced .max
  | @Call.sum _ t _ _ => p.scalar q >>= fun reply =>
    if reply.isNull then .done Numeric.zero else Run.ofExcept (t.ofValue reply)
  | .average _ => p.scalar q >>= fun reply =>
    if reply.isNull then .fail (.emptyResult .average)
    else Run.ofExcept (FieldType.decimalOfValue reply)
  | @Call.countByGroup _ t _ => p.scalar q >>= fun reply => Run.ofExcept (groupCounts t reply)

/-- The order that an operation asks for. -/
def order : Call T α → Option (SortOrder T)
  | .first order | .firstFailed order | .last order | .lastFailed order | .all order
  | .allFailed order | .paged _ _ order | .top _ order | .distinct _ order => order
  | _ => none

/-- The fault of the arguments of an operation. -/
def fault? (limits : Limits) : Call T α → Option ArgumentFault
  | .paged page size _ => limits.pageFault? page size
  | .top n _ => limits.topFault? "count" n
  | _ => none

/-- **What stands in the way of an operation**: a fault of its arguments, before a leaf
of the predicate without a description, before a key of the order without a name. -/
def obstacle? (v : RemoteEvaluator T) (c : Call T α) : Option Fault :=
  ((c.fault? v.limits).map .argument).or <|
    (v.predicate.root.nativeLabel?.map .notDescribable).or <|
      (c.order.bind SortOrder.unnamedKey?).map fun i => .notDescribable (SortOrder.keyLabel i)

/-- Nothing stands in the way of an operation whose arguments are accepted and whose
predicate and order can be described. -/
theorem obstacle?_eq_none_iff {v : RemoteEvaluator T} {c : Call T α} :
    c.obstacle? v = none ↔
      c.fault? v.limits = none ∧ v.predicate.isDescribable = true ∧
        ∀ o ∈ c.order, o.isDescribable = true := by
  have hpredicate : v.predicate.isDescribable = true ↔ v.predicate.root.nativeLabel? = none :=
    Node.isDescribable_iff v.predicate.root
  rw [obstacle?, Option.or_eq_none_iff, Option.or_eq_none_iff, Option.map_eq_none_iff,
    Option.map_eq_none_iff, Option.map_eq_none_iff, Option.bind_eq_none_iff, hpredicate]
  simp only [SortOrder.isDescribable_iff, Option.mem_def]

/-- **Every operation hands its query over once** and reads the answer. -/
theorem perform_eq (v : RemoteEvaluator T) (c : Call T α) :
    c.perform v = c.query v >>= fun q =>
      Run.event (.requested q) >>= fun _ => c.answer v.provider q := by
  cases c with
  | all | allFailed | paged | top | distinct => rfl
  | _ =>
    refine (Run.bind_bind _ _ _).trans (congrArg (_ >>= ·) (funext fun q => ?_))
    exact Run.bind_bind _ _ _

end Call

/-! ## Queries -/

/-- **A run that composes a query** from the descriptions of the predicate and of the
order: finishing it leaves messages at most and does not fail. -/
def Composes (v : RemoteEvaluator T) (order : Option (SortOrder T)) (x : Run Query) : Prop :=
  ∃ (negate : Bool) (finish : Expr → List SortField → Run Query),
    x = (v.predicate.describe negate >>= fun d => Table.sortFields order >>= finish d) ∧
      ∀ d fields, ∃ q, (finish d fields).outcome = .ok q ∧ (finish d fields).requests = []

theorem composes_compose (v : RemoteEvaluator T) (operation : Operation) (negate : Bool) :
    v.Composes none (v.compose operation negate) :=
  ⟨negate, fun d _ => .done { operation := operation, source := v.source, filter := some d },
    rfl, fun _ _ => ⟨_, rfl, rfl⟩⟩

/-- The message of a composed query asks for nothing, whether or not there is one. -/
theorem requests_logged (q : Query) : (logged q).requests = [] := by
  show (composedEvents q).filterMap _ = []
  unfold composedEvents
  cases q.text <;> rfl

theorem composes_describeReduction (v : RemoteEvaluator T) (operation : Operation)
    (field : Text) : v.Composes none (v.describeReduction operation field) :=
  ⟨v.negate, fun d _ => logged {
      operation := operation, source := v.source, filter := some d, targetField := some field },
    Run.bind_bind _ _ _, fun _ _ => ⟨_, rfl, requests_logged _⟩⟩

theorem composes_describeSelect (v : RemoteEvaluator T) (negate : Bool)
    (order : Option (SortOrder T)) (offset limit : Option UInt64) :
    v.Composes order (v.describeSelect negate order offset limit) := by
  refine ⟨negate, fun d fields => logged {
    operation := .select, source := v.source, filter := some d, orderBy := fields,
    offset := offset, limit := limit }, ?_, fun _ _ => ⟨_, rfl, requests_logged _⟩⟩
  cases order <;> exact Run.bind_bind _ _ _

/-- A query with something added is composed as well. -/
theorem Composes.map {v : RemoteEvaluator T} {order : Option (SortOrder T)} {x : Run Query}
    (h : v.Composes order x) (g : Query → Query) :
    v.Composes order (x >>= fun q => .done (g q)) := by
  obtain ⟨negate, finish, rfl, hfinish⟩ := h
  refine ⟨negate, fun d fields => finish d fields >>= fun q => .done (g q), ?_, fun d fields => ?_⟩
  · rw [Run.bind_bind]
    exact congrArg (_ >>= ·) (funext fun d => Run.bind_bind _ _ _)
  · obtain ⟨q, hq, hrequests⟩ := hfinish d fields
    exact ⟨g q, Run.outcome_bind_ok hq _, by rw [Run.requests_bind_ok hq, hrequests]; rfl⟩

namespace Call

variable {α : Type}

/-- **The query of an operation** is composed after its arguments are checked. -/
theorem exists_composes (v : RemoteEvaluator T) (c : Call T α) :
    ∃ check x, check.Checks (c.fault? v.limits) ∧ v.Composes c.order x ∧
      c.query v = check >>= fun _ => x := by
  cases c with
  | paged page size order =>
    exact ⟨_, _, v.limits.requirePage_checks page size, composes_describeSelect .., rfl⟩
  | top n order =>
    exact ⟨_, _, v.limits.requireTop_checks n, composes_describeSelect .., rfl⟩
  | any | count => exact ⟨.done (), _, rfl, composes_compose .., rfl⟩
  | countByGroup key => exact ⟨.done (), _, rfl, (composes_compose ..).map _, rfl⟩
  | min | max | sum | average =>
    exact ⟨.done (), _, rfl, composes_describeReduction .., rfl⟩
  | distinct field order => exact ⟨.done (), _, rfl, (composes_describeSelect ..).map _, rfl⟩
  | first | firstFailed | last | lastFailed | all | allFailed =>
    exact ⟨.done (), _, rfl, composes_describeSelect .., rfl⟩

end Call

end RemoteEvaluator

/-! ## Obstacles -/

/-- **A run that is refused**: it ends in a fault, and the provider is asked for nothing. -/
structure Run.Refused {α : Type} (x : Run α) (fault : Fault) : Prop where
  /-- It ends in the fault. -/
  outcome : x.outcome = .error fault
  /-- No query is handed over. -/
  requests : x.requests = []

/-- Nothing follows a run that is refused. -/
theorem Run.Refused.bind {α β : Type} {x : Run α} {fault : Fault} (h : x.Refused fault)
    (f : α → Run β) : (x >>= f).Refused fault where
  outcome := Run.outcome_bind_error h.outcome f
  requests := (Run.requests_bind_error h.outcome f).trans h.requests

/-- An order with a key in the way gives up on it, if it is there. -/
theorem Table.sortFields_of_unnamed {order : Option (SortOrder T)} {i : ℕ}
    (h : order.bind SortOrder.unnamedKey? = some i) :
    sortFields order = Run.undescribed (SortOrder.keyWarning i) (SortOrder.keyLabel i) := by
  obtain ⟨o, rfl, ho⟩ := Option.bind_eq_some_iff.mp h
  exact SortOrder.describe_of_unnamed ho

/-- An order without a key in the way has its fields, and none if it is not there. -/
theorem Table.exists_sortFields {order : Option (SortOrder T)}
    (h : order.bind SortOrder.unnamedKey? = none) : ∃ fields, sortFields order = .done fields := by
  cases order with
  | none => exact ⟨[], rfl⟩
  | some o => exact ⟨_, SortOrder.describe_of_named h⟩

namespace RemoteEvaluator

section

variable {v : RemoteEvaluator T} {order : Option (SortOrder T)} {x : Run Query}

/-- A leaf without a description is in the way of a query. -/
theorem Composes.refused_of_native (h : v.Composes order x) {label : Text}
    (hnative : v.predicate.root.nativeLabel? = some label) :
    x.Refused (.notDescribable label) := by
  obtain ⟨negate, finish, rfl, -⟩ := h
  rw [Predicate.describe_of_native hnative, Run.undescribed_bind]
  exact ⟨rfl, rfl⟩

/-- If no leaf is, a key without a name is in the way of a query. -/
theorem Composes.refused_of_unnamed (h : v.Composes order x)
    (hnative : v.predicate.root.nativeLabel? = none) {i : ℕ}
    (hkey : order.bind SortOrder.unnamedKey? = some i) :
    x.Refused (.notDescribable (SortOrder.keyLabel i)) := by
  obtain ⟨negate, finish, rfl, -⟩ := h
  obtain ⟨d, hd⟩ := Predicate.exists_describe hnative negate
  rw [hd, Run.done_bind, Table.sortFields_of_unnamed hkey, Run.undescribed_bind]
  exact ⟨rfl, rfl⟩

/-- With nothing in the way there is a query. -/
theorem Composes.exists_query (h : v.Composes order x)
    (hnative : v.predicate.root.nativeLabel? = none)
    (hkey : order.bind SortOrder.unnamedKey? = none) :
    ∃ q, x.outcome = .ok q ∧ x.requests = [] := by
  obtain ⟨negate, finish, rfl, hfinish⟩ := h
  obtain ⟨d, hd⟩ := Predicate.exists_describe hnative negate
  obtain ⟨fields, hfields⟩ := Table.exists_sortFields hkey
  rw [hd, Run.done_bind, hfields, Run.done_bind]
  exact hfinish d fields

end

namespace Call

variable {α : Type} {v : RemoteEvaluator T} {c : Call T α}

/-- **The first obstacle refuses the query.** -/
theorem refused_query {fault : Fault} (h : c.obstacle? v = some fault) :
    (c.query v).Refused fault := by
  obtain ⟨check, x, hcheck, hx, hquery⟩ := c.exists_composes v
  rw [hquery]
  rw [obstacle?, Option.or_eq_some_iff, Option.or_eq_some_iff] at h
  rcases h with harguments | ⟨harguments, hnative | ⟨hnative, hkey⟩⟩
  · obtain ⟨cause, hcause, rfl⟩ := Option.map_eq_some_iff.mp harguments
    obtain ⟨text, hrejected⟩ := hcheck.bind_of_some hcause fun _ => x
    rw [hrejected]
    exact ⟨rfl, rfl⟩
  · obtain ⟨label, hlabel, rfl⟩ := Option.map_eq_some_iff.mp hnative
    rw [hcheck.bind_of_none (Option.map_eq_none_iff.mp harguments)]
    exact hx.refused_of_native hlabel
  · obtain ⟨i, hi, rfl⟩ := Option.map_eq_some_iff.mp hkey
    rw [hcheck.bind_of_none (Option.map_eq_none_iff.mp harguments)]
    exact hx.refused_of_unnamed (Option.map_eq_none_iff.mp hnative) hi

/-- **Without an obstacle there is a query.** -/
theorem exists_query (h : c.obstacle? v = none) :
    ∃ q, (c.query v).outcome = .ok q ∧ (c.query v).requests = [] := by
  obtain ⟨check, x, hcheck, hx, hquery⟩ := c.exists_composes v
  rw [obstacle?, Option.or_eq_none_iff, Option.or_eq_none_iff, Option.map_eq_none_iff,
    Option.map_eq_none_iff, Option.map_eq_none_iff] at h
  obtain ⟨harguments, hnative, hkey⟩ := h
  rw [hquery, hcheck.bind_of_none harguments]
  exact hx.exists_query hnative hkey

/-- Composing a query asks the provider for nothing. -/
theorem requests_query (v : RemoteEvaluator T) (c : Call T α) : (c.query v).requests = [] := by
  cases h : c.obstacle? v with
  | some fault => exact (refused_query h).requests
  | none =>
    obtain ⟨q, -, hrequests⟩ := exists_query h
    exact hrequests

/-- **An operation that asks its provider once, or not at all.** -/
structure AsksOnce (v : RemoteEvaluator T) (c : Call T α) : Prop where
  /-- Nothing is in the way exactly if the arguments are accepted and the predicate and
  the order can be described. -/
  clear : c.obstacle? v = none ↔
    c.fault? v.limits = none ∧ v.predicate.isDescribable = true ∧
      ∀ o ∈ c.order, o.isDescribable = true
  /-- Then the query is handed over once, and the outcome is what the provider answers.
  Further queries are those that the provider itself hands on. -/
  asks : c.obstacle? v = none → ∃ q, (c.query v).outcome = .ok q ∧
    (c.perform v).requests = q :: (c.answer v.provider q).requests ∧
    (c.perform v).outcome = (c.answer v.provider q).outcome
  /-- Otherwise the first obstacle is the fault, and the provider is not asked. -/
  refuses : ∀ fault, c.obstacle? v = some fault →
    (c.query v).Refused fault ∧ (c.perform v).Refused fault
  /-- Composing the query alone never asks the provider. -/
  silent : (c.query v).requests = []

theorem asksOnce (v : RemoteEvaluator T) (c : Call T α) : c.AsksOnce v where
  clear := obstacle?_eq_none_iff
  asks h := by
    obtain ⟨q, hq, hrequests⟩ := exists_query h
    refine ⟨q, hq, ?_, ?_⟩
    · rw [perform_eq, Run.requests_bind_ok hq, hrequests,
        Run.requests_bind_ok (Run.outcome_event _)]
      rfl
    · rw [perform_eq, Run.outcome_bind_ok hq, Run.outcome_bind_ok (Run.outcome_event _)]
  refuses fault h := by
    have hquery := refused_query h
    rw [perform_eq]
    exact ⟨hquery, hquery.bind _⟩
  silent := requests_query v c

end Call

/-! ## One operation after another -/

/-- **An attempt at an operation** by some evaluator. -/
structure Attempt (T : Type) where
  /-- The type of the result. -/
  Result : Type
  /-- The evaluator. -/
  evaluator : RemoteEvaluator T
  /-- The operation. -/
  call : Call T Result

namespace Attempt

/-- The fault that a performed operation ends in, if any. -/
def fault? (a : Attempt T) : Option Fault :=
  match (a.call.perform a.evaluator).outcome with
  | .ok _ => none
  | .error fault => some fault

/-- **Operations one after another.** A fault is caught and the next one follows. -/
def performAll : List (Attempt T) → Run (List (Option Fault))
  | [] => .done []
  | a :: rest => do
    let result ← (a.call.perform a.evaluator).attempt
    let faults ← performAll rest
    .done (match result with
      | .ok _ => none :: faults
      | .error fault => some fault :: faults)

/-- The query that an operation hands over, if it hands one over, and those that the
provider hands on while it answers. -/
def handed (a : Attempt T) : List Query :=
  match (a.call.query a.evaluator).outcome with
  | .ok q => q :: (a.call.answer a.evaluator.provider q).requests
  | .error _ => []

/-- Every operation hands over what it does by itself. -/
theorem requests_perform (a : Attempt T) :
    (a.call.perform a.evaluator).requests = a.handed := by
  have hasks := a.call.asksOnce a.evaluator
  unfold handed
  cases h : a.call.obstacle? a.evaluator with
  | none =>
    obtain ⟨q, hq, hrequests, -⟩ := hasks.asks h
    rw [hq]
    exact hrequests
  | some fault =>
    obtain ⟨hquery, hperform⟩ := hasks.refuses fault h
    rw [hquery.outcome]
    exact hperform.requests

/-- **A sequence of operations** goes on after every fault, and hands over the query of
each operation that has one, in order. -/
theorem performAll_eq (attempts : List (Attempt T)) :
    (performAll attempts).outcome = .ok (attempts.map fault?) ∧
      (performAll attempts).requests = attempts.flatMap handed := by
  induction attempts with
  | nil => exact ⟨rfl, rfl⟩
  | cons a rest ih =>
    obtain ⟨houtcome, hrequests⟩ := ih
    have hattempt : (a.call.perform a.evaluator).attempt.outcome
        = .ok (a.call.perform a.evaluator).outcome := rfl
    unfold performAll
    constructor
    · rw [Run.outcome_bind_ok hattempt, Run.outcome_bind_ok houtcome, List.map_cons, fault?]
      cases (a.call.perform a.evaluator).outcome <;> rfl
    · rw [Run.requests_bind_ok hattempt, Run.requests_bind_ok houtcome, hrequests,
        List.flatMap_cons, ← requests_perform, Run.requests_done, List.append_nil]
      rfl

end Attempt

/-- **Translation is all or nothing.**

* A predicate has a description, of either sign, exactly if every leaf has one; otherwise
  the fault has the label of the leftmost leaf without one.
* An order has a description exactly if every key is a field; otherwise the fault names
  the first key that is not.
* An operation whose arguments are accepted and whose predicate and order can be described
  asks its provider exactly once. Any other ends in a fault, that of the arguments before
  that of the predicate before that of the order, and does not ask.
* So it is in every sequence of operations, in which a fault does not end the others. -/
theorem all_or_nothing (p : Predicate T) (o : SortOrder T) (attempts : List (Attempt T)) :
    (∀ negate, AllOrNothing p.isDescribable (p.describe negate) p.root.nativeLabel?) ∧
      AllOrNothing o.isDescribable o.describe (o.unnamedKey?.map SortOrder.keyLabel) ∧
      (∀ a ∈ attempts, a.call.AsksOnce a.evaluator) ∧
      (Attempt.performAll attempts).outcome = .ok (attempts.map Attempt.fault?) ∧
      (Attempt.performAll attempts).requests = attempts.flatMap Attempt.handed := by
  obtain ⟨houtcome, hrequests⟩ := Attempt.performAll_eq attempts
  exact ⟨p.allOrNothing_describe, o.allOrNothing_describe,
    fun a _ => a.call.asksOnce a.evaluator, houtcome, hrequests⟩

end RemoteEvaluator

end Criteria
