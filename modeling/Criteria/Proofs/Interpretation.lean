import Criteria.Proofs.Sequencing
import Criteria.Expr.Evaluation

/-!
# What the value of an expression depends on

An expression reads the fields that stand in it and nothing else of a resolver
(`Expr.fields`). So two resolvers that answer alike on those fields give it values that
are alike (`Expr.evaluate_related`), whether being alike is to be the same run, faults
and readings included, or only to have the same value where there is one: the relation
is a parameter, and what the induction needs of it is `Run.Congruence`.

Operators and calls are put together from the runs of their parts (`BinaryOp.runOn`,
`Expr.runCall`), which such a relation respects, so an induction over expressions has one
case for all operators and one for calls.

The truth value of a connective is that of its left operand, and after it that of the
right one if it is still demanded. The truth value of a negation is the opposite one.
-/

namespace Criteria

/-! ## Operators and calls over runs -/

/-- **An operator between the runs of its operands.** The connectives run the right one
under a condition. -/
def BinaryOp.runOn : BinaryOp → Run Value → Run Value → Run Value
  | .and, x, y => do
    let a ← x
    if a.truth then do
      let b ← y
      .done (.bool b.truth)
    else .done (.bool false)
  | .or, x, y => do
    let a ← x
    if a.truth then .done (.bool true)
    else do
      let b ← y
      .done (.bool b.truth)
  | op, x, y => do
    let a ← x
    let b ← y
    .done (.bool (op.compare a b))

/-- **A call over the run of its arguments**, which are not run if the function is unknown
or takes another number of them. -/
def Expr.runCall (name : Text) (count : Nat) (arguments : Run (List Value)) : Run Value :=
  match Builtin.ofName? name with
  | none => .reject (.unknownFunction name)
  | some f =>
    if count = f.arity then do
      let vs ← arguments
      .done (f.apply vs)
    else .reject (.arity name f.arity count)

namespace Run.Congruence

variable {R : {α : Type} → Run α → Run α → Prop}

theorem runOn (hR : Congruence R) (op : BinaryOp) {x x' y y' : Run Value} (hx : R x x')
    (hy : R y y') : R (op.runOn x y) (op.runOn x' y') := by
  have plain : R (x >>= fun a => y >>= fun b => Run.done (Value.bool (op.compare a b)))
      (x' >>= fun a => y' >>= fun b => Run.done (Value.bool (op.compare a b))) :=
    hR.bind hx fun _ => hR.bind hy fun _ => hR.refl _
  cases op with
  | and =>
    refine hR.bind hx fun a => ?_
    split
    · exact hR.bind hy fun _ => hR.refl _
    · exact hR.refl _
  | or =>
    refine hR.bind hx fun a => ?_
    split
    · exact hR.refl _
    · exact hR.bind hy fun _ => hR.refl _
  | eq | ne | lt | le | gt | ge | isIn => exact plain

theorem runCall (hR : Congruence R) (name : Text) (count : Nat) {x x' : Run (List Value)}
    (hx : R x x') : R (Expr.runCall name count x) (Expr.runCall name count x') := by
  unfold Expr.runCall
  split
  · exact hR.refl _
  · split
    · exact hR.bind hx fun _ => hR.refl _
    · exact hR.refl _

end Run.Congruence

namespace Expr

theorem evaluate_binary (r : Resolver) (value : Option Value) (op : BinaryOp) (a b : Expr) :
    evaluate r value (.binary op a b) = op.runOn (evaluate r value a) (evaluate r value b) := by
  cases op <;> rfl

theorem evaluate_call (r : Resolver) (value : Option Value) (name : Text) (args : List Expr) :
    evaluate r value (.call name args) = runCall name args.length (evaluateAll r value args) :=
  rfl

/-! ## Fields -/

mutual

/-- **The fields that stand in an expression**, from left to right. -/
def fields : Expr → List Text
  | .field name => [name]
  | .binary _ l r => fields l ++ fields r
  | .not e => fields e
  | .call _ args => allFields args
  | .array es => allFields es
  | _ => []

/-- The fields that stand in several expressions. -/
def allFields : List Expr → List Text
  | [] => []
  | e :: es => fields e ++ allFields es

end

variable {R : {α : Type} → Run α → Run α → Prop} {r s : Resolver}

mutual

/-- **Alike resolvers give alike values.** -/
theorem evaluate_related (hR : Run.Congruence R) (value : Option Value) (e : Expr)
    (h : ∀ name ∈ e.fields, R (resolve r name) (resolve s name)) :
    R (evaluate r value e) (evaluate s value e) := by
  match e with
  | .absent => exact hR.refl _
  | .literal v => exact hR.refl _
  | .valueRef => exact hR.refl _
  | .field name => exact h name (List.mem_singleton_self name)
  | .binary op a b =>
    rw [evaluate_binary, evaluate_binary]
    exact hR.runOn op
      (evaluate_related hR value a fun name hn => h name (List.mem_append_left _ hn))
      (evaluate_related hR value b fun name hn => h name (List.mem_append_right _ hn))
  | .not a => exact hR.bind (evaluate_related hR value a h) fun _ => hR.refl _
  | .call name args =>
    rw [evaluate_call, evaluate_call]
    exact hR.runCall name args.length (evaluateAll_related hR value args h)
  | .array es => exact hR.bind (evaluateAll_related hR value es h) fun _ => hR.refl _

/-- Alike resolvers give alike values of several expressions. -/
theorem evaluateAll_related (hR : Run.Congruence R) (value : Option Value) (es : List Expr)
    (h : ∀ name ∈ allFields es, R (resolve r name) (resolve s name)) :
    R (evaluateAll r value es) (evaluateAll s value es) := by
  match es with
  | [] => exact hR.refl _
  | e :: es =>
    have he := evaluate_related hR value e fun name hn => h name (List.mem_append_left _ hn)
    have hes := evaluateAll_related hR value es fun name hn =>
      h name (List.mem_append_right _ hn)
    exact hR.bind he fun _ => hR.bind hes fun _ => hR.refl _

end

/-- Alike resolvers give alike truth values. -/
theorem test_related (hR : Run.Congruence R) (value : Option Value) (e : Expr)
    (h : ∀ name ∈ e.fields, R (resolve r name) (resolve s name)) :
    R (e.test r value) (e.test s value) :=
  hR.bind (evaluate_related hR value e h) fun _ => hR.refl _

/-! ## Truth values of composed expressions -/

/-- **The truth value of a negation.** -/
theorem test_not (r : Resolver) (value : Option Value) (e : Expr) :
    (Expr.not e).test r value = (e.test r value >>= fun verdict => .done !verdict) := by
  rw [test, evaluate, test, Run.bind_bind, Run.bind_bind]
  rfl

/-- **The truth value of "and"**: the right operand counts only if the left one is
true. -/
theorem test_and (r : Resolver) (value : Option Value) (a b : Expr) :
    (Expr.binary .and a b).test r value
      = (a.test r value >>= fun verdict => if verdict then b.test r value else .done false) := by
  rw [test, evaluate, test, test, Run.bind_bind, Run.bind_bind]
  refine congrArg (evaluate r value a >>= ·) (funext fun x => ?_)
  rw [Run.done_bind]
  cases x.truth with
  | false => rfl
  | true => exact Run.bind_bind (evaluate r value b) _ _

/-- **The truth value of "or"**: the right operand counts only if the left one is
false. -/
theorem test_or (r : Resolver) (value : Option Value) (a b : Expr) :
    (Expr.binary .or a b).test r value
      = (a.test r value >>= fun verdict => if verdict then .done true else b.test r value) := by
  rw [test, evaluate, test, test, Run.bind_bind, Run.bind_bind]
  refine congrArg (evaluate r value a >>= ·) (funext fun x => ?_)
  rw [Run.done_bind]
  cases x.truth with
  | false => exact Run.bind_bind (evaluate r value b) _ _
  | true => rfl

end Expr

end Criteria
