import Criteria.Proofs.LoggerCalls
import Criteria.Proofs.Requests
import Criteria.Proofs.Writing

/-!
# Logging changes nothing

An operation leaves messages, and asks the logger once in a while whether a message would be
delivered at all before it composes it. Here the logger stands beside the operations: a
program (`Program`) mixes them with calls of the logger, goes on as their results tell it,
and is run from a logger in some state.

Two runs are alike to a logger if they have one outcome and the logger delivers the same of
both (`Run.Alike`). Asking first and not asking are alike (`logged_alike`), because what is
asked is what delivery asks. That is so for queries that can be written down
(`Call.IsWritten`): the text of any other is missed only if the message is wanted. So the
results of a program are those of the program without its calls of the logger
(`Program.quiet`), from whatever logger it is run; the messages that are delivered are those
that the threshold in force admits; and a higher threshold delivers a part of what a lower
one delivers.
-/

namespace Criteria

variable {T α β : Type}

/-! ## Alike to a logger -/

/-- **Two runs alike to a logger**: they have the same result or the same fault, and it
delivers the same of both. -/
def Run.Alike (l : Logger) (x y : Run α) : Prop :=
  x.outcome = y.outcome ∧ l.deliver x.events = l.deliver y.events

/-- What is delivered of one run after another. -/
theorem Logger.deliver_bind (l : Logger) (x : Run α) (f : α → Run β) :
    l.deliver (x >>= f).events
      = l.deliver x.events ++ match x.outcome with
        | .ok a => l.deliver (f a).events
        | .error _ => [] := by
  show l.deliver (x.andThen f).events = _
  unfold Run.andThen
  cases x.outcome with
  | ok a => exact deliver_append l _ _
  | error fault => exact (List.append_nil _).symm

/-- Putting runs together respects being alike. -/
theorem Run.congruence_alike (l : Logger) : Congruence fun x y => x.Alike l y where
  refl _ := ⟨rfl, rfl⟩
  bind {_ _ x y f g} h hf := by
    obtain ⟨houtcome, hdeliver⟩ := h
    refine ⟨?_, ?_⟩
    · rw [outcome_bind, outcome_bind, houtcome]
      exact congrArg (y.outcome.bind ·) (funext fun a => (hf a).1)
    · rw [Logger.deliver_bind, Logger.deliver_bind, houtcome, hdeliver]
      cases y.outcome with
      | ok a => exact congrArg (_ ++ ·) (hf a).2
      | error fault => rfl

/-- A run goes on alike if it goes on alike from what it has as a result. -/
theorem Run.alike_bind {l : Logger} (x : Run α) {f g : α → Run β}
    (h : ∀ a, x.outcome = .ok a → (f a).Alike l (g a)) : (x >>= f).Alike l (x >>= g) := by
  unfold Run.Alike
  rw [Logger.deliver_bind, Logger.deliver_bind]
  cases hx : x.outcome with
  | ok a =>
    obtain ⟨houtcome, hdeliver⟩ := h a hx
    rw [outcome_bind_ok hx, outcome_bind_ok hx]
    exact ⟨houtcome, congrArg (_ ++ ·) hdeliver⟩
  | error fault =>
    rw [outcome_bind_error hx, outcome_bind_error hx]
    exact ⟨rfl, rfl⟩

namespace RemoteEvaluator

/-! ## Asking before composing a message -/

/-- The query as it is, with a message if the logger would deliver it. The query is written down
for the message, and if it cannot be, that is a fault. -/
def loggedUnder (l : Logger) (q : Query) : Run Query :=
  if l.shouldLog .debug then do
    let text ← q.text
    Run.log .debug ("Composed query: " ++ text)
    .done q
  else .done q

/-- **Asking first is like not asking**, for a query that can be written down: the logger is asked
what delivery asks. -/
theorem logged_alike (l : Logger) {q : Query} (hportable : q.isPortable = true) :
    (loggedUnder l q).Alike l (logged q) := by
  obtain ⟨text, htext⟩ := q.exists_text_iff.mpr hportable
  have hevents : (logged q).events = [.message .debug ("Composed query: " ++ text)] := by
    show composedEvents q = _
    rw [composedEvents, htext]
  unfold loggedUnder
  cases h : l.shouldLog .debug with
  | true =>
    rw [htext]
    exact ⟨rfl, congrArg l.deliver hevents.symm⟩
  | false =>
    refine ⟨rfl, ?_⟩
    rw [hevents]
    show [] = l.deliver [.message .debug _]
    simp [Logger.deliver, h]

/-- The query for entities, by an evaluator that asks the logger. -/
def describeSelectUnder (l : Logger) (v : RemoteEvaluator T) (negate : Bool)
    (order : Option (SortOrder T)) (offset limit : Option UInt64) : Run Query := do
  let q ← v.compose .select negate
  let orderBy ← match order with
    | none => .done []
    | some order => order.describe
  loggedUnder l { q with orderBy := orderBy, offset := offset, limit := limit }

/-- The query for a reduction, by an evaluator that asks the logger. -/
def describeReductionUnder (l : Logger) (v : RemoteEvaluator T) (operation : Operation)
    (field : Text) : Run Query := do
  let q ← v.compose operation v.negate
  loggedUnder l { q with targetField := some field }

section

variable (l : Logger) (v : RemoteEvaluator T) {negate : Bool} {order : Option (SortOrder T)}
  {offset limit : Option UInt64}

theorem describeSelect_alike
    (written : ∀ q, (v.describeSelect negate order offset limit).outcome = .ok q →
      q.isPortable = true) :
    (v.describeSelectUnder l negate order offset limit).Alike l
      (v.describeSelect negate order offset limit) := by
  refine Run.alike_bind _ fun q hq => ?_
  cases order with
  | none => exact Run.alike_bind _ fun fields hfields =>
      logged_alike l (written _ ((Run.outcome_bind_ok hq _).trans (Run.outcome_bind_ok hfields _)))
  | some o => exact Run.alike_bind _ fun fields hfields =>
      logged_alike l (written _ ((Run.outcome_bind_ok hq _).trans (Run.outcome_bind_ok hfields _)))

theorem describeReduction_alike {operation : Operation} {field : Text}
    (written : ∀ q, (v.describeReduction operation field).outcome = .ok q →
      q.isPortable = true) :
    (v.describeReductionUnder l operation field).Alike l
      (v.describeReduction operation field) :=
  Run.alike_bind _ fun _ hq => logged_alike l (written _ (Run.outcome_bind_ok hq _))

end

/-- A query for entities has no distinct field. -/
theorem distinctBy_of_describeSelect {v : RemoteEvaluator T} {negate : Bool}
    {order : Option (SortOrder T)} {offset limit : Option UInt64} {q : Query}
    (h : (v.describeSelect negate order offset limit).outcome = .ok q) : q.distinctBy = none := by
  obtain ⟨composed, hcomposed, h⟩ := Run.bind_eq_ok_iff.mp h
  obtain ⟨d, -, hd⟩ := Run.bind_eq_ok_iff.mp hcomposed
  cases hd
  cases order with
  | none | some order =>
    obtain ⟨fields, -, hlogged⟩ := Run.bind_eq_ok_iff.mp h
    cases hlogged
    rfl

namespace Call

/-- **The query of an operation**, by an evaluator that asks the logger. -/
def queryUnder (l : Logger) (v : RemoteEvaluator T) : Call T α → Run Query
  | .any => v.describeAny
  | .count => v.describeCount
  | .first order => v.describeSelectUnder l v.negate order none (some 1)
  | .firstFailed order => v.describeSelectUnder l (!v.negate) order none (some 1)
  | .last order | .all order => v.describeSelectUnder l v.negate order none none
  | .lastFailed order | .allFailed order => v.describeSelectUnder l (!v.negate) order none none
  | .paged page size order => do
    v.limits.requirePage page size
    v.describeSelectUnder l v.negate order (some ((countWord page - 1) * countWord size))
      (some (countWord size))
  | .top n order => do
    v.limits.requireTop n
    v.describeSelectUnder l v.negate order none (some (countWord n))
  | .distinct field order => do
    let q ← v.describeSelectUnder l v.negate order none none
    .done { q with distinctBy := some field.name }
  | .min field => v.describeReductionUnder l .min field.name
  | .max field => v.describeReductionUnder l .max field.name
  | @Call.sum _ _ _ field => v.describeReductionUnder l .sum field.name
  | .average field => v.describeReductionUnder l .average field.name
  | .countByGroup key => v.describeCountByGroup key

/-- **Performing an operation**, by an evaluator that asks the logger. -/
def performUnder (l : Logger) (v : RemoteEvaluator T) (c : Call T α) : Run α := do
  let q ← c.queryUnder l v
  Run.event (.requested q)
  c.answer v.provider q

/-- **An operation whose query can be written down**, if there is one. -/
def IsWritten (v : RemoteEvaluator T) (c : Call T α) : Prop :=
  ∀ q, (c.query v).outcome = .ok q → q.isPortable = true

theorem query_alike (l : Logger) {v : RemoteEvaluator T} {c : Call T α}
    (written : c.IsWritten v) : (c.queryUnder l v).Alike l (c.query v) := by
  cases c with
  | any | count | countByGroup => exact (Run.congruence_alike l).refl _
  | first | firstFailed | last | lastFailed | all | allFailed =>
    exact describeSelect_alike l v written
  | paged | top =>
    exact Run.alike_bind _ fun _ hcheck => describeSelect_alike l v fun q hq =>
      written q ((Run.outcome_bind_ok hcheck _).trans hq)
  | distinct field order =>
    have hselect : ∀ q, (v.describeSelect v.negate order none none).outcome = .ok q →
        q.isPortable = true := fun q hq => by
      have hportable := Query.isPortable_of_distinctBy (written _ (Run.outcome_bind_ok hq _))
      rwa [← distinctBy_of_describeSelect hq] at hportable
    exact (Run.congruence_alike l).bind (describeSelect_alike l v hselect) fun _ =>
      (Run.congruence_alike l).refl _
  | min | max | sum | average => exact describeReduction_alike l v written

theorem perform_alike (l : Logger) {v : RemoteEvaluator T} {c : Call T α}
    (written : c.IsWritten v) : (c.performUnder l v).Alike l (c.perform v) := by
  rw [perform_eq]
  exact (Run.congruence_alike l).bind (query_alike l written) fun _ =>
    (Run.congruence_alike l).refl _

end Call

end RemoteEvaluator

/-! ## Operations -/

/-- **An operation**, with the type of its result. Those that never ask the logger are any
runs: building a predicate, describing it or an order, evaluating in memory, reading a
configuration. Those that ask compose queries that can be written down. -/
inductive Task : Type → Type 1
  /-- An operation that does not ask the logger. -/
  | plain {α : Type} (x : Run α) : Task α
  /-- The query of an operation by queries. -/
  | query {T α : Type} (v : RemoteEvaluator T) (c : RemoteEvaluator.Call T α)
    (written : c.IsWritten v) : Task Query
  /-- An operation by queries. -/
  | perform {T α : Type} (v : RemoteEvaluator T) (c : RemoteEvaluator.Call T α)
    (written : c.IsWritten v) : Task α

namespace Task

/-- **What an operation does**, when the logger is in a state. -/
def runUnder (l : Logger) : Task α → Run α
  | .plain x => x
  | .query v c _ => c.queryUnder l v
  | .perform v c _ => c.performUnder l v

/-- What an operation does, without a logger to ask: every message is composed. -/
def run : Task α → Run α
  | .plain x => x
  | .query v c _ => c.query v
  | .perform v c _ => c.perform v

/-- **An operation that asks is like one that does not.** -/
theorem run_alike (l : Logger) (t : Task α) : (t.runUnder l).Alike l t.run := by
  cases t with
  | plain x => exact (Run.congruence_alike l).refl x
  | query v c written => exact RemoteEvaluator.Call.query_alike l written
  | perform v c written => exact RemoteEvaluator.Call.perform_alike l written

end Task

/-! ## Programs -/

/-- **A program** of operations and calls of the logger. What it does after an operation may
depend on the result or the fault. -/
inductive Program (α : Type) : Type 1
  /-- Ends with a result. -/
  | done (a : α)
  /-- Calls the logger and goes on. -/
  | tell (c : Logger.Call) (next : Program α)
  /-- Performs an operation and goes on from its outcome. -/
  | operate {β : Type} (t : Task β) (next : Except Fault β → Program α)

namespace Program

/-- **What a run of a program leaves.** -/
structure Left (α : Type) where
  /-- The logger. -/
  logger : Logger
  /-- The messages that were delivered, in order. -/
  delivered : List Message
  /-- The result. -/
  result : α

/-- **A run of a program** from a logger. -/
def run (l : Logger) : Program α → Left α
  | .done a => ⟨l, [], a⟩
  | .tell c next =>
    let change := l.perform c
    let left := next.run change.logger
    ⟨left.logger, change.delivered ++ left.delivered, left.result⟩
  | .operate t next =>
    let x := t.runUnder l
    let change := l.attendAll x.events
    let left := (next x.outcome).run change.logger
    ⟨left.logger, change.delivered ++ left.delivered, left.result⟩

/-- **The program without its calls of the logger.** -/
def quiet : Program α → Program α
  | .done a => .done a
  | .tell _ next => next.quiet
  | .operate t next => .operate t fun outcome => (next outcome).quiet

/-- **The messages of a program**, those of its operations and those of its calls of the
logger, each with the threshold in force when it is logged. -/
def messages (past : List Logger.Call) : Program α → List (Option Severity × Message)
  | .done _ => []
  | .tell c next => c.messages (Logger.inForce? past) ++ next.messages (c :: past)
  | .operate t next =>
    t.run.messages.map (Logger.inForce? past, ·) ++ (next t.run.outcome).messages past

/-- A run of an operation: it leaves the logger as it is and goes on from the outcome that
it has without a logger. -/
theorem run_operate (l : Logger) (t : Task β) (next : Except Fault β → Program α) :
    (operate t next).run l
      = let left := (next t.run.outcome).run l
        ⟨left.logger, l.deliver t.run.events ++ left.delivered, left.result⟩ := by
  obtain ⟨houtcome, hdeliver⟩ := t.run_alike l
  rw [run]
  dsimp only
  rw [Logger.attendAll_eq, houtcome, hdeliver]

/-- **Results do not depend on the logger**, nor on the calls of it. -/
theorem result_run (p : Program α) (l l' : Logger) :
    (p.run l).result = (p.quiet.run l').result := by
  induction p generalizing l l' with
  | done a => rfl
  | tell c next ih => exact ih _ l'
  | operate t next ih =>
    rw [quiet, run_operate, run_operate]
    exact ih _ l l'

/-- **Operations leave the logger as it is.** -/
theorem logger_quiet (p : Program α) (l : Logger) : (p.quiet.run l).logger = l := by
  induction p with
  | done a => rfl
  | tell c next ih => exact ih
  | operate t next ih =>
    rw [quiet, run_operate]
    exact ih _

/-- **What is delivered** are the messages that the threshold in force admits. -/
theorem delivered_run (p : Program α) {l : Logger} {past : List Logger.Call}
    (h : l.threshold? = Logger.inForce? past) :
    (p.run l).delivered = Logger.admitted (p.messages past) := by
  induction p generalizing l past with
  | done a => rfl
  | tell c next ih =>
    rw [messages, Logger.admitted_append, ← ih (Logger.threshold?_perform h c), ← h,
      ← Logger.delivered_perform]
    rfl
  | operate t next ih =>
    rw [run_operate, messages, Logger.admitted_append, Logger.admitted_map, ← ih _ h, ← h]
    dsimp only
    rw [Logger.deliver_eq_filter]
    rfl

/-- Setting a threshold starts the logger, and the second message is not below it. -/
example (early late : Text) :
    (run .stopped (.operate (.plain (Run.log .error early)) fun _ =>
      .tell (.setThreshold .warning) (.operate (.plain (Run.log .error late)) .done))).delivered
      = [(.error, late)] := rfl

/-- Of a program without calls of the logger, what is delivered at one threshold. -/
theorem delivered_quiet (p : Program α) (l : Logger) :
    (p.quiet.run l).delivered
      = ((p.quiet.messages []).map Prod.snd).filter (Logger.admits l.threshold?) := by
  induction p with
  | done a => rfl
  | tell c next ih => exact ih
  | operate t next ih =>
    have hmessages : (t.run.messages.map (Logger.inForce? [], ·)).map Prod.snd
        = t.run.messages := by
      rw [List.map_map]
      exact List.map_id _
    rw [quiet, run_operate, messages, List.map_append, List.filter_append, hmessages]
    dsimp only
    rw [ih, Logger.deliver_eq_filter]
    rfl

/-- **A program that only logs** by its messages and its calls of the logger. -/
structure OnlyLogs (p : Program α) : Prop where
  /-- From any logger it has the result that it has without its calls of the logger, when
  the logger is off all the time. -/
  result : ∀ l, (p.run l).result = (p.quiet.run .stopped).result
  /-- Its operations leave the logger as it is. -/
  logger : ∀ l, (p.quiet.run l).logger = l
  /-- From the start, those messages are delivered that the threshold in force admits. -/
  delivered : (p.run .stopped).delivered = Logger.admitted (p.messages [])
  /-- Of what its operations deliver at a threshold, those are delivered at a higher one
  that are not below it. -/
  thresholds : ∀ low high : LoggerSettings, low.threshold.rank ≤ high.threshold.rank →
    (p.quiet.run ⟨some high⟩).delivered
      = (p.quiet.run ⟨some low⟩).delivered.filter fun m => high.threshold.rank ≤ m.1.rank

end Program

/-- **Logging changes nothing**: the results of a program are the same with and without a
logger, an operation does nothing to the logger, and what is delivered is decided by the
threshold in force and the severity of a message alone. -/
theorem logging_changes_nothing (p : Program α) (t : Task β) :
    p.OnlyLogs ∧ ∀ l : Logger, (l.attendAll (t.runUnder l).events).logger = l := by
  refine ⟨⟨fun l => p.result_run l _, p.logger_quiet, p.delivered_run rfl, ?_⟩, fun l => ?_⟩
  · intro low high h
    rw [Program.delivered_quiet, Program.delivered_quiet, List.filter_filter]
    refine List.filter_congr fun m _ => ?_
    -- what the higher threshold admits, the lower one admits as well
    simpa using h.trans
  · rw [Logger.attendAll_eq]

end Criteria
