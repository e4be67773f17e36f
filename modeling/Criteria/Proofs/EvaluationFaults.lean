import Criteria.Proofs.Interpretation

/-!
# The faults of evaluation

Evaluating an expression can go wrong in five ways, and each of them can be seen in the
expression: a field whose resolver fails, a field without a resolver, a reference without a
value, a call of an unknown function, and a call with a wrong number of arguments
(`Expr.Blamed`). Not all that can be seen is met, since a connective may not look at its right
operand; but nothing else is met, so an expression without any of them has a value.

The operators leave nothing over. The connectives are evaluated apart from the others, and
`BinaryOp.apply` has a value for every other operator and any two values
(`BinaryOp.apply_eq`), so its fault for an operator that is no comparison is never that of an
evaluation.
-/

namespace Criteria

/-! ## Operators and functions -/

/-- **Every operator that is no connective** has a value for any two values. -/
theorem BinaryOp.apply_eq {op : BinaryOp} (hand : op ≠ .and) (hor : op ≠ .or) (a b : Value) :
    op.apply a b = .ok (.bool (op.compare a b)) := by
  cases op with
  | and => exact absurd rfl hand
  | or => exact absurd rfl hor
  | eq | ne | lt | le | gt | ge | isIn => rfl

/-- A function that is found has the name that was looked for. -/
theorem Builtin.name_of_ofName? {name : Text} {f : Builtin} (h : ofName? name = some f) :
    f.name = name := by simpa using List.find?_some h

/-- No function has a name that is not found. -/
theorem Builtin.name_ne_of_ofName? {name : Text} (h : ofName? name = none) (f : Builtin) :
    f.name ≠ name := fun heq => by
  have hmem : f ∈ all := by cases f <;> decide
  exact List.find?_eq_none.mp h f hmem (decide_eq_true heq)

/-- A name is that of one function. -/
theorem Builtin.name_injective {f g : Builtin} (h : f.name = g.name) : f = g := by
  cases f <;> cases g <;> first | rfl | exact absurd h (by decide)

namespace Expr

/-! ## What can be blamed -/

mutual

/-- **The calls in an expression**, from left to right: the name of the function and how many
arguments it is given. -/
def calls : Expr → List (Text × Nat)
  | .binary _ l r => calls l ++ calls r
  | .not e => calls e
  | .call name args => (name, args.length) :: allCalls args
  | .array es => allCalls es
  | _ => []

/-- The calls in several expressions. -/
def allCalls : List Expr → List (Text × Nat)
  | [] => []
  | e :: es => calls e ++ allCalls es

end

/-- **A fault for which an expression can be blamed**, with a resolver and a value to refer
to. -/
inductive Blamed (r : Resolver) (value : Option Value) (e : Expr) : Fault → Prop
  /-- The resolver fails on a field, and its fault is passed on. -/
  | resolver {lookUp : Text → Run Value} {name : Text} {fault : Fault} :
    r = some lookUp → name ∈ e.fields → (lookUp name).outcome = .error fault →
    Blamed r value e fault
  /-- There is no resolver for a field. -/
  | noResolver {name : Text} : r = none → name ∈ e.fields →
    Blamed r value e (.argument (.noResolver name))
  /-- There is no value to refer to. -/
  | unboundValue : value = none → e.containsValueRef = true →
    Blamed r value e (.argument .unboundValue)
  /-- There is no function of a name that is called. -/
  | unknownFunction {name : Text} {count : Nat} : (name, count) ∈ e.calls →
    (∀ f : Builtin, f.name ≠ name) → Blamed r value e (.argument (.unknownFunction name))
  /-- A function takes another number of arguments than it is given. -/
  | arity {name : Text} {count : Nat} {f : Builtin} : (name, count) ∈ e.calls →
    f.name = name → count ≠ f.arity → Blamed r value e (.argument (.arity name f.arity count))

/-- **What stands in one expression stands in another.** -/
structure Within (a e : Expr) : Prop where
  /-- The fields do. -/
  fields : a.fields ⊆ e.fields
  /-- A reference does. -/
  refers : a.containsValueRef = true → e.containsValueRef = true
  /-- The calls do. -/
  calls : a.calls ⊆ e.calls

section

variable {r : Resolver} {value : Option Value} {fault : Fault}

/-- What a part is blamed for the whole is blamed for. -/
theorem Blamed.mono {a e : Expr} (ha : a.Within e) (h : Blamed r value a fault) :
    Blamed r value e fault := by
  cases h with
  | resolver hr hname hfault => exact .resolver hr (ha.fields hname) hfault
  | noResolver hr hname => exact .noResolver hr (ha.fields hname)
  | unboundValue hvalue hrefers => exact .unboundValue hvalue (ha.refers hrefers)
  | unknownFunction hcall hname => exact .unknownFunction (ha.calls hcall) hname
  | arity hcall hname hcount => exact .arity (ha.calls hcall) hname hcount

theorem within_left (op : BinaryOp) (a b : Expr) : a.Within (.binary op a b) where
  fields := List.subset_append_left _ _
  refers h := Bool.or_eq_true_iff.mpr (.inl h)
  calls := List.subset_append_left _ _

theorem within_right (op : BinaryOp) (a b : Expr) : b.Within (.binary op a b) where
  fields := List.subset_append_right _ _
  refers h := Bool.or_eq_true_iff.mpr (.inr h)
  calls := List.subset_append_right _ _

theorem within_operand (a : Expr) : a.Within (.not a) :=
  ⟨List.Subset.refl _, id, List.Subset.refl _⟩

theorem within_arguments (name : Text) (args : List Expr) :
    (array args).Within (.call name args) :=
  ⟨List.Subset.refl _, id, List.subset_cons_self _ _⟩

theorem within_head (e : Expr) (es : List Expr) : e.Within (.array (e :: es)) where
  fields := List.subset_append_left _ _
  refers h := Bool.or_eq_true_iff.mpr (.inl h)
  calls := List.subset_append_left _ _

theorem within_tail (e : Expr) (es : List Expr) : (array es).Within (.array (e :: es)) where
  fields := List.subset_append_right _ _
  refers h := Bool.or_eq_true_iff.mpr (.inr h)
  calls := List.subset_append_right _ _

/-! ## Evaluation -/

/-- A result that is made of others has no fault of its own. -/
theorem ends_made {α β : Type} {allowed : Fault → Prop} {x : Run α}
    (hx : x.Ends allowed fun _ => True) (make : α → β) :
    (x >>= fun a => .done (make a)).Ends allowed fun _ => True := hx.bind fun _ _ => trivial

/-- An operator adds no fault to those of its operands. -/
theorem ends_runOn (op : BinaryOp) {allowed : Fault → Prop} {x y : Run Value}
    (hx : x.Ends allowed fun _ => True) (hy : y.Ends allowed fun _ => True) :
    (op.runOn x y).Ends allowed fun _ => True := by
  cases op with
  | and =>
    refine hx.bind fun a _ => ?_
    split
    · exact ends_made hy _
    · trivial
  | or =>
    refine hx.bind fun a _ => ?_
    split
    · trivial
    · exact ends_made hy _
  | eq | ne | lt | le | gt | ge | isIn => exact hx.bind fun _ _ => ends_made hy _

mutual

/-- **Evaluation ends in a value**, or in a fault for which the expression can be blamed. -/
theorem ends_evaluate (e : Expr) :
    (evaluate r value e).Ends (Blamed r value e) fun _ => True := by
  match e with
  | .absent | .literal _ => trivial
  | .valueRef =>
    cases value with
    | none => exact .unboundValue rfl rfl
    | some v => trivial
  | .field name =>
    have hname : name ∈ (field name).fields := List.mem_singleton_self name
    cases r with
    | none => exact .noResolver rfl hname
    | some lookUp =>
      refine (Run.ends_of_ok (Run.outcome_event _) trivial).bind fun _ (_ : True) => ?_
      cases hx : (lookUp name).outcome with
      | ok v => exact Run.ends_of_ok hx trivial
      | error fault =>
        unfold Run.Ends
        rw [hx]
        exact .resolver rfl hname hx
  | .binary op a b =>
    rw [evaluate_binary]
    exact ends_runOn op
      ((ends_evaluate a).allow fun _ h => h.mono (within_left op a b))
      ((ends_evaluate b).allow fun _ h => h.mono (within_right op a b))
  | .not a => exact ends_made ((ends_evaluate a).allow fun _ h => h.mono (within_operand a)) _
  | .call name args =>
    have hcall : (name, args.length) ∈ (call name args).calls := List.mem_cons_self
    rw [evaluate_call, runCall]
    cases hf : Builtin.ofName? name with
    | none => exact .unknownFunction hcall (Builtin.name_ne_of_ofName? hf)
    | some f =>
      by_cases hcount : args.length = f.arity
      · simp only [hcount, if_true]
        have hargs := (ends_evaluateAll args).allow fun _ h => h.mono (within_arguments name args)
        exact ends_made hargs _
      · simp only [hcount, if_false]
        exact .arity hcall (Builtin.name_of_ofName? hf) hcount
  | .array es => exact ends_made (ends_evaluateAll es) _

/-- Evaluating several expressions ends in their values, or in a fault of one of them. -/
theorem ends_evaluateAll (es : List Expr) :
    (evaluateAll r value es).Ends (Blamed r value (.array es)) fun _ => True := by
  match es with
  | [] => trivial
  | e :: es =>
    have hhead := (ends_evaluate e).allow fun _ h => h.mono (within_head e es)
    have htail := (ends_evaluateAll es).allow fun _ h => h.mono (within_tail e es)
    exact hhead.bind fun _ _ => ends_made htail _

end

end

/-- **An expression that can be answered**, with a resolver and a value to refer to. -/
structure Answerable (r : Resolver) (value : Option Value) (e : Expr) : Prop where
  /-- Every call is of a known function, with as many arguments as it takes. -/
  calls : ∀ c ∈ e.calls, ∃ f : Builtin, f.name = c.1 ∧ f.arity = c.2
  /-- There is a value if there is a reference to it. -/
  value : e.containsValueRef = true → value.isSome = true
  /-- There is a resolver that answers for every field. -/
  fields : ∀ name ∈ e.fields, ∃ lookUp v, r = some lookUp ∧ (lookUp name).outcome = .ok v

/-- Nothing can be blamed on an expression that can be answered. -/
theorem Answerable.not_blamed {r : Resolver} {value : Option Value} {e : Expr}
    (h : e.Answerable r value) (fault : Fault) : ¬ Blamed r value e fault := by
  intro hblamed
  cases hblamed with
  | resolver hr hname hfault =>
    obtain ⟨lookUp, v, hlookUp, hv⟩ := h.fields _ hname
    cases hr.symm.trans hlookUp
    cases hfault.symm.trans hv
  | noResolver hr hname =>
    obtain ⟨lookUp, v, hlookUp, -⟩ := h.fields _ hname
    cases hr.symm.trans hlookUp
  | unboundValue hvalue hrefers =>
    have hsome := h.value hrefers
    rw [hvalue] at hsome
    cases hsome
  | unknownFunction hcall hname =>
    obtain ⟨f, hf, -⟩ := h.calls _ hcall
    exact hname f hf
  | arity hcall hname hcount =>
    obtain ⟨g, hg, harity⟩ := h.calls _ hcall
    rw [Builtin.name_injective (hname.trans hg.symm)] at hcount
    exact hcount harity.symm

/-- **The faults of evaluation.** An expression that can be answered has a value. Every fault
of an evaluation is one for which the expression can be blamed: it is a fault of the resolver,
passed on, or an argument that is rejected, a missing value, a missing resolver, an unknown
function or a wrong number of arguments. So the fault of an operator that is no comparison is
never raised, and shows only where the resolver itself raises it. -/
theorem evaluate_faults (r : Resolver) (value : Option Value) (e : Expr) :
    (e.Answerable r value → ∃ v, (evaluate r value e).outcome = .ok v) ∧
      (∀ fault, (evaluate r value e).outcome = .error fault → Blamed r value e fault) ∧
      ∀ symbol, (evaluate r value e).outcome = .error (.argument (.notComparison symbol)) →
        ∃ lookUp, r = some lookUp ∧ ∃ name ∈ e.fields,
          (lookUp name).outcome = .error (.argument (.notComparison symbol)) := by
  have hends : (evaluate r value e).Ends (Blamed r value e) fun _ => True := ends_evaluate e
  refine ⟨fun hanswerable => ?_, fun fault hfault => hends.of_error hfault, fun symbol hfault => ?_⟩
  · cases hv : (evaluate r value e).outcome with
    | ok v => exact ⟨v, rfl⟩
    | error fault => exact absurd (hends.of_error hv) (hanswerable.not_blamed fault)
  · cases hends.of_error hfault with
    | resolver hr hname hlookUp => exact ⟨_, hr, _, hname, hlookUp⟩

/-- The name is absent, or at least as long as asked for. -/
def absentOrLong : Expr :=
  .binary .or (.call "IS_NULL" [.field "name"])
    (.binary .ge (.call "LENGTH" [.field "name"]) .valueRef)

/-- It is answered for a name and a length; without the length that is what it is blamed
for. -/
theorem evaluate_faults_name :
    absentOrLong.Answerable (some fun _ => .done (.string "Ada")) (some (.uint 4)) ∧
      (∃ v, (evaluate (some fun _ => .done (.string "Ada")) (some (.uint 4))
        absentOrLong).outcome = .ok v) ∧
      Blamed (some fun _ => .done (.string "Ada")) none absentOrLong (.argument .unboundValue) := by
  have hanswerable :
      absentOrLong.Answerable (some fun _ => .done (.string "Ada")) (some (.uint 4)) := {
    calls := fun c hc => by
      have hcalls : absentOrLong.calls = [(Builtin.isNull.name, 1), (Builtin.length.name, 1)] :=
        rfl
      rw [hcalls] at hc
      simp only [List.mem_cons, List.not_mem_nil, or_false] at hc
      rcases hc with rfl | rfl
      · exact ⟨.isNull, rfl, rfl⟩
      · exact ⟨.length, rfl, rfl⟩
    value := fun _ => rfl
    fields := fun _ _ => ⟨_, _, rfl, rfl⟩ }
  exact ⟨hanswerable, (evaluate_faults _ _ _).1 hanswerable,
    (evaluate_faults _ none absentOrLong).2.1 _ rfl⟩

end Expr

end Criteria
