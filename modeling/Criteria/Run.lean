import Criteria.Query

/-!
# Runs

What an operation does shows in more than its result: which fields it reads, in
which order it calls the functions of the caller, which queries it hands to a
provider, and which messages it has for a log. A `Run` is the list of these
events together with the result or the fault, and **events before a fault are
kept**.

A message is an event like the others. Whether it is delivered depends on the
logger alone (module `Criteria.Logger`), so that logging cannot change a result.
-/

namespace Criteria

/-- The severity of a message, least first. -/
inductive Severity
  | trace | debug | info | warning | error | critical
deriving DecidableEq

/-- **Something that an operation does.** -/
inductive Event
  /-- A field is read. -/
  | read (field : Text)
  /-- A condition of the caller is called. -/
  | called
  /-- A query is handed to a provider. -/
  | requested (query : Query)
  /-- There is a message for the log. -/
  | message (severity : Severity) (text : Text)

/-- **A run**: the events in order, and the result or the fault at the end. -/
structure Run (α : Type) where
  /-- What was done, first to last. -/
  events : List Event
  /-- What came out. -/
  outcome : Except Fault α

/-- **A function the caller may have left out.** -/
abbrev Callable (α β : Type) := Option (α → Run β)

namespace Run

variable {α β : Type}

/-- The run that does nothing and has a result. -/
def done (a : α) : Run α := ⟨[], .ok a⟩

/-- The run that ends in a fault at once. -/
def fail (fault : Fault) : Run α := ⟨[], .error fault⟩

/-- The run that rejects an argument. -/
def reject (cause : ArgumentFault) : Run α := fail (.argument cause)

/-- The run of one event. -/
def event (e : Event) : Run Unit := ⟨[e], .ok ()⟩

/-- The run of one message. -/
def log (severity : Severity) (text : Text) : Run Unit := event (.message severity text)

/-- **One run after another.** A fault of the first ends both. -/
def andThen (x : Run α) (f : α → Run β) : Run β :=
  match x.outcome with
  | .ok a => ⟨x.events ++ (f a).events, (f a).outcome⟩
  | .error fault => ⟨x.events, .error fault⟩

instance : Monad Run where
  pure := done
  bind := andThen

/-- A result or a fault, without events. -/
def ofExcept (x : Except Fault α) : Run α := ⟨[], x⟩

instance : MonadLift (Except Fault) Run := ⟨ofExcept⟩

/-- The run that has the outcome itself as its result, and so no fault. -/
def attempt (x : Run α) : Run (Except Fault α) := ⟨x.events, .ok x.outcome⟩

@[simp] theorem outcome_pure (a : α) : (pure a : Run α).outcome = .ok a := rfl

@[simp] theorem events_pure (a : α) : (pure a : Run α).events = [] := rfl

/-- The outcome of one run after another, from the outcomes. -/
theorem outcome_bind (x : Run α) (f : α → Run β) :
    (x >>= f).outcome = x.outcome.bind fun a => (f a).outcome := by
  show (andThen x f).outcome = _
  unfold andThen Except.bind
  cases x.outcome <;> rfl

/-! ## Lists -/

/-- The elements that pass a test, tested first to last. -/
def keep (test : α → Run Bool) : List α → Run (List α)
  | [] => done []
  | a :: rest => do
    let passed ← test a
    let kept ← keep test rest
    done (if passed then a :: kept else kept)

/-- Whether an element passes a test; those after the first that does are not
tested. -/
def exist (test : α → Run Bool) : List α → Run Bool
  | [] => done false
  | a :: rest => do
    if ← test a then done true else exist test rest

/-- The first element that passes a test; those after it are not tested. -/
def first? (test : α → Run Bool) : List α → Run (Option α)
  | [] => done none
  | a :: rest => do
    if ← test a then done (some a) else first? test rest

/-- A fold over the elements, first to last. -/
def fold (step : β → α → Run β) : β → List α → Run β
  | b, [] => done b
  | b, a :: rest => do
    let b ← step b a
    fold step b rest

/-- What a function gives for each element, first to last. -/
def each (f : α → Run β) : List α → Run (List β)
  | [] => done []
  | a :: rest => do
    let b ← f a
    let bs ← each f rest
    done (b :: bs)

/-! ## Functions of the caller -/

/-- Calling a function that is not there is a fault. -/
def call (f : Callable α β) (a : α) : Run β :=
  match f with
  | none => fail .emptyCall
  | some f => f a

/-- Rejects a function that is not there. -/
def requireCallable (role : Text) (f : Callable α β) : Run Unit :=
  if f.isNone then reject (.missingCallable role) else done ()

end Run

end Criteria
