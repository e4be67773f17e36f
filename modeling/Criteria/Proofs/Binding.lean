import Criteria.Proofs.Substitution

/-!
# Binding a value is substitution

An expression that the checked constructors give (`Expr.Built`) has nothing missing where
binding looks for it, so binding a value never fails on it and is substitution. What is known of
substitution then holds of binding (`Expr.bindValue_substitutes`): where what is put in has a
value, the expression that is bound has the outcome of the unbound one for this value.

What is put in may refer to a value itself. So may the expression that is bound, then, and it
can be bound again. To bind one after the other is to bind once, by what the second binding
makes of the first replacement. The second replacement is not looked into, so it may be any
expression that is there.
-/

namespace Criteria

namespace Expr

/-! ## Expressions of the checked constructors -/

/-- **An expression that the checked constructors give**, or a missing one. A missing part may
be handed to any of them, and only an array is made with it. -/
inductive Built : Expr → Prop
  | absent : Built .absent
  | literal (v : Value) : Built (.literal v)
  | valueRef : Built .valueRef
  | field {name : Text} {e : Expr} (made : makeField name = .ok e) : Built e
  | binary {op : BinaryOp} {l r e : Expr} (left : Built l) (right : Built r)
      (made : makeBinary op l r = .ok e) : Built e
  | not {operand e : Expr} (built : Built operand) (made : makeNot operand = .ok e) : Built e
  | call {name : Text} {args : List Expr} {e : Expr} (built : ∀ a ∈ args, Built a)
      (made : makeCall name args = .ok e) : Built e
  | array {es : List Expr} (built : ∀ e ∈ es, Built e) : Built (.array es)

theorem allWhole_of_forall {es : List Expr} (h : ∀ e ∈ es, e.isWhole = true) :
    allWhole es = true := by
  induction es with
  | nil => rfl
  | cons e es ih =>
    rw [allWhole, h e List.mem_cons_self, ih fun a ha => h a (List.mem_cons_of_mem e ha)]
    rfl

/-- **Nothing is missing** below an expression that is built. -/
theorem Built.isWhole {e : Expr} (h : e.Built) : e.isWhole = true := by
  induction h with
  | absent | literal _ | valueRef => rfl
  | field made =>
    unfold makeField at made
    split at made
    · cases made
    · cases made
      rfl
  | binary _ _ made ihl ihr => exact isWhole_of_makeBinary ihl ihr made
  | not _ made ih => exact isWhole_of_makeNot ih made
  | call _ made ih => exact isWhole_of_makeCall (allWhole_of_forall ih) made
  | array _ ih => exact allWhole_of_forall ih

/-! ## Substituting twice -/

section

variable {r s : Expr}

mutual

/-- Nothing is missing after substitution. -/
theorem isWhole_substitute (present : r.isAbsent = false) (wholeReplacement : r.isWhole = true)
    (e : Expr) (whole : e.isWhole = true) : (e.substitute r).isWhole = true := by
  match e with
  | .absent | .literal _ | .field _ => rfl
  | .valueRef => exact wholeReplacement
  | .binary op a b =>
    simp only [isWhole, Bool.and_eq_true] at whole
    obtain ⟨⟨ha, wholeLeft⟩, hb, wholeRight⟩ := whole
    simp only [substitute, isWhole, isAbsent_substitute present, ha, hb,
      isWhole_substitute present wholeReplacement a wholeLeft,
      isWhole_substitute present wholeReplacement b wholeRight, Bool.and_self]
  | .not a =>
    obtain ⟨ha, wholeOperand⟩ := Bool.and_eq_true_iff.mp whole
    simp only [substitute, isWhole, isAbsent_substitute present, ha,
      isWhole_substitute present wholeReplacement a wholeOperand, Bool.and_self]
  | .call name args =>
    obtain ⟨hargs, wholeArgs⟩ := Bool.and_eq_true_iff.mp whole
    simp only [substitute, isWhole, any_isAbsent_substituteAll present, hargs,
      allWhole_substituteAll present wholeReplacement args wholeArgs, Bool.and_self]
  | .array es => exact allWhole_substituteAll present wholeReplacement es whole

theorem allWhole_substituteAll (present : r.isAbsent = false)
    (wholeReplacement : r.isWhole = true) (es : List Expr) (whole : allWhole es = true) :
    allWhole (substituteAll es r) = true := by
  match es with
  | [] => rfl
  | e :: es =>
    obtain ⟨wholeFirst, wholeRest⟩ := Bool.and_eq_true_iff.mp whole
    rw [substituteAll, allWhole, isWhole_substitute present wholeReplacement e wholeFirst,
      allWhole_substituteAll present wholeReplacement es wholeRest]
    rfl

end

mutual

/-- **Substituting one after the other** is substituting what the second substitution makes of
the first replacement. -/
theorem substitute_substitute (e : Expr) :
    (e.substitute r).substitute s = e.substitute (r.substitute s) := by
  match e with
  | .absent | .literal _ | .field _ | .valueRef => rfl
  | .binary op a b =>
    simp only [substitute, substitute_substitute a, substitute_substitute b]
  | .not a => simp only [substitute, substitute_substitute a]
  | .call name args => simp only [substitute, substituteAll_substituteAll args]
  | .array es => simp only [substitute, substituteAll_substituteAll es]

theorem substituteAll_substituteAll (es : List Expr) :
    substituteAll (substituteAll es r) s = substituteAll es (r.substitute s) := by
  match es with
  | [] => rfl
  | e :: es =>
    simp only [substituteAll, substitute_substitute e, substituteAll_substituteAll es]

end

end

/-! ## Binding -/

/-- **What binding gives**: `bound` is the expression `e` with `r` for its value. -/
structure Substituted (e r bound : Expr) : Prop where
  /-- Where what was put in has a value, the outcome is that of the unbound expression for this
  value, a fault as well as a result. -/
  outcome (resolver : Resolver) (value : Option Value) (v : Value) :
    (evaluate resolver value r).outcome = .ok v →
      (evaluate resolver value bound).outcome = (evaluate resolver (some v) e).outcome
  /-- It refers to a value if both do. -/
  refers : bound.containsValueRef = true ↔
    e.containsValueRef = true ∧ r.containsValueRef = true
  /-- An expression that refers to no value is left as it is. -/
  closed : e.containsValueRef = false → bound = e
  /-- To bind it again is to bind once, by the replacement that is bound. -/
  again (s : Expr) : s.isAbsent = false →
    ∃ inner twice, r.bindValue s = .ok inner ∧ bound.bindValue s = .ok twice ∧
      e.bindValue inner = .ok twice

/-- **Binding a value is substitution**, and never fails: of an expression that is built, by one
that is built and there. -/
theorem bindValue_substitutes {e r : Expr} (he : e.Built) (hr : r.Built)
    (present : r.isAbsent = false) :
    ∃ bound, e.bindValue r = .ok bound ∧ Substituted e r bound := by
  refine ⟨e.substitute r, bindValue_eq_substitute present e he.isWhole, ?_⟩
  exact {
    outcome := fun resolver value v hv =>
      evaluate_substitute Run.congruence_outcome (v := v) hv e
    refers := by rw [containsValueRef_substitute, Bool.and_eq_true]
    closed := substitute_of_closed e
    again := fun s hs => by
      have hinner : (r.substitute s).isAbsent = false := (isAbsent_substitute hs r).trans present
      have hwhole : (e.substitute r).isWhole = true :=
        isWhole_substitute present hr.isWhole e he.isWhole
      refine ⟨r.substitute s, e.substitute (r.substitute s),
        bindValue_eq_substitute hs r hr.isWhole, ?_,
        bindValue_eq_substitute hinner e he.isWhole⟩
      rw [← substitute_substitute]
      exact bindValue_eq_substitute hs _ hwhole }

theorem built_callOnValue (name : Text) : (call name [.valueRef]).Built := by
  have hargs : ∀ a ∈ [valueRef], a.Built := fun a ha => by
    rw [List.mem_singleton.mp ha]
    exact .valueRef
  exact .call hargs rfl

/-- The value is null or short, which is not looked at where it is null. -/
def nullOrShort : Expr :=
  .binary .or (.call "IS_NULL" [.valueRef])
    (.binary .le (.call "LENGTH" [.valueRef]) (.literal (.uint 2)))

theorem built_nullOrShort : nullOrShort.Built :=
  .binary (built_callOnValue _) (.binary (built_callOnValue _) (.literal _) rfl) rfl

/-- **A condition on a trimmed text**: bound to the text without its white space, it says of a
text what it says of that one. -/
theorem bindValue_substitutes_trim :
    nullOrShort.Built ∧ (call "TRIM" [.valueRef]).Built ∧
      (call "TRIM" [.valueRef]).isAbsent = false ∧
      ∃ bound, nullOrShort.bindValue (.call "TRIM" [.valueRef]) = .ok bound ∧
        bound.containsValueRef = true ∧
        (evaluate none (some (.string " ab ")) bound).outcome
          = (evaluate none (some (.string "ab")) nullOrShort).outcome := by
  obtain ⟨bound, hbound, hsubstituted⟩ :=
    bindValue_substitutes built_nullOrShort (built_callOnValue "TRIM") rfl
  refine ⟨built_nullOrShort, built_callOnValue "TRIM", rfl, bound, hbound,
    hsubstituted.refers.mpr ⟨rfl, rfl⟩, hsubstituted.outcome none (some (.string " ab ")) _ ?_⟩
  rfl

end Expr

end Criteria
