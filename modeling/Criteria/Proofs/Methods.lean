import Criteria.Predicate.Builder

/-!
# Additions in place

The methods that add a condition to a builder do so in steps: what is to be added is checked or
made, then the list of conditions grows, then the connective is used up. A fault at one of these
steps leaves what the steps before it have done, so whether a failing addition changes the builder
is a matter of the order of its steps.

All of them come to the same order (`Builder.addition`): the checks and the work on other builders
are done before the builder is touched, and touching it does not fail. So an addition adds its
condition, or it fails and changes nothing (`Builder.run_addition`).
-/

namespace Criteria

namespace Builder

variable {T α β : Type}

/-! ## Checks -/

/-- A check of what is right goes on with it. -/
@[simp] theorem check_ok_bind (a : α) (f : α → Method T β) :
    Method.check (.ok a) >>= f = f a := rfl

/-- **A check that fails** ends the method, and leaves the builder as it is. -/
@[simp] theorem check_error_bind (fault : Fault) (f : α → Method T β) :
    Method.check (.error fault) >>= f = throw fault := rfl

/-- Two checks in a row are one. -/
theorem check_check (x : Except Fault α) (y : α → Except Fault β) (f : β → Method T Unit) :
    (Method.check x >>= fun a => Method.check (y a) >>= f) = Method.check (x >>= y) >>= f := by
  cases x <;> rfl

/-! ## Additions -/

/-- **The builder with one more condition.** -/
def appended (b : Builder T) (n : Node T) : Builder T where
  entries := b.entries ++ [(b.connective?, n)]
  pending := none

/-- **Appending does not fail.** -/
theorem run_append (n : Node T) (b : Builder T) :
    (append n).run b = .ok () (b.appended n) := rfl

/-- **The addition of what comes of a check.** -/
def addition (x : Except Fault (Node T)) : Method T Unit := do
  let n ← .check x
  append n

/-- **An addition adds, or it changes nothing.** -/
theorem run_addition (x : Except Fault (Node T)) (b : Builder T) :
    (addition x).run b = match x with
      | .ok n => .ok () (b.appended n)
      | .error fault => .error fault b := by
  unfold addition
  cases x with
  | ok n => rw [check_ok_bind, run_append]
  | error fault =>
    rw [check_error_bind]
    rfl

/-- An addition of a predicate that succeeds has added it. -/
theorem exists_of_run_addition {x : Except Fault (Predicate T)} {b added : Builder T}
    (h : (addition (x.map Predicate.root)).run b = .ok () added) :
    ∃ p, x = .ok p ∧ added = b.appended p.root := by
  rw [run_addition] at h
  cases x with
  | ok p =>
    cases h
    exact ⟨p, rfl, rfl⟩
  | error fault => cases h

/-- With the connective used up before the check, it would be lost by an addition that fails. -/
example : EStateM.run (do
      modify fun b => { b with pending := none }
      addition (.error (.argument .missingAddend)) : Method Unit Unit) { pending := some .or }
    = .error (.argument .missingAddend) {} := rfl

/-! ## The methods that add -/

/-- The predicate that a condition on a field comes to. -/
def conditionOn {t : FieldType} (f : Field T t) (c : Condition) : Except Fault (Predicate T) := do
  let description ← c.bindTo f.expr
  Predicate.ofDescription description (.bind {} f)

/-- The predicate that a group comes to, composed in a builder of its own. -/
def groupOf (compose : Method T Unit) : Except Fault (Predicate T) := do
  let child ← compose.on {}
  child.build

/-- A sub-group comes to the predicate that its child builds, -/
theorem groupOf_eq {compose : Method T Unit} {child : Builder T}
    (hchild : compose.run {} = .ok () child) : groupOf compose = child.build := by
  unfold groupOf Method.on
  rw [hchild]
  rfl

/-- and to nothing if composing it fails. -/
theorem groupOf_of_error {compose : Method T Unit} {child : Builder T} {fault : Fault}
    (hchild : compose.run {} = .error fault child) : groupOf compose = .error fault := by
  unfold groupOf Method.on
  rw [hchild]
  rfl

/-- Adding a predicate does not fail. -/
theorem run_addPredicate (p : Predicate T) (b : Builder T) :
    (addPredicate p).run b = .ok () (b.appended p.root) := rfl

theorem addPredicate_eq (p : Predicate T) : addPredicate p = addition (.ok p.root) := rfl

theorem addFunction_none (label : Text) :
    (addFunction none label : Method T Unit) = addition (.error (.argument .missingAddend)) := rfl

theorem addFunction_some (f : T → Run Bool) (label : Text) :
    addFunction (some f) label = addition (.ok (Predicate.nativeLeaf label f)) := rfl

theorem addCondition_eq_addition {t : FieldType} (f : Field T t) (c : Condition) :
    addCondition f c = addition ((conditionOn f c).map Predicate.root) := by
  unfold addCondition
  rw [check_check]
  show Method.check (conditionOn f c) >>= _ = _
  cases conditionOn f c <;> rfl

theorem addFieldTest_eq {t : FieldType} (f : Field T t) (test : t.Val → Run Bool) :
    addFieldTest f test
      = addition (.ok (selectedLeaf ("entity." ++ f.name ++ " <opaque>") f.getter test)) := rfl

theorem addSelectorTest_eq {V : Type} (selector : Callable T V) (test : V → Run Bool) :
    addSelectorTest selector test
      = addition (.ok (selectedLeaf "<opaque selector>" (Run.call selector) test)) := rfl

theorem addGroup_none :
    (addGroup none : Method T Unit) = addition (.error (.argument .missingCompose)) := rfl

theorem addGroup_some (compose : Method T Unit) :
    addGroup (some compose) = addition ((groupOf compose).map Predicate.root) := by
  show (Method.check (compose.on {}) >>= fun child => Method.check child.build >>= _) = _
  rw [check_check]
  show Method.check (groupOf compose) >>= _ = _
  cases groupOf compose <;> rfl

end Builder

end Criteria
