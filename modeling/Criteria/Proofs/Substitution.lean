import Criteria.Proofs.Description
import Criteria.Proofs.Methods
import Criteria.Proofs.Writing

/-!
# A condition on a field is a condition on its value

A condition is added to a field by binding: the expression of the field takes the place of
the value. Binding checks the operators and calls that it builds again, and leaves alone
what refers to no value; since nothing that was there is missing afterwards, it never
fails, and is substitution (`Expr.bindValue_eq_substitute`).

What is bound is written down for the label of its leaf. The name of the field goes into that
text as it is, so the text is there if the condition has one (`Expr.every_substitute`); else the
condition is refused with the fault of the text.

An expression after substitution has the value that it has before, for the value of what
was put in (`Expr.evaluate_substitute`): that value may be read several times, or never.
So a leaf for a field has the verdict of its condition on the value of the field, or the
same fault (`Builder.addCondition_means`). What it does not have are the same events, since
the field is read as often as the condition refers to it.
-/

namespace Criteria

namespace Expr

/-! ## Substitution -/

mutual

/-- **The expression with another one in place of the value.** -/
def substitute (e replacement : Expr) : Expr :=
  match e with
  | .valueRef => replacement
  | .binary op l r => .binary op (substitute l replacement) (substitute r replacement)
  | .not e => .not (substitute e replacement)
  | .call name args => .call name (substituteAll args replacement)
  | .array es => .array (substituteAll es replacement)
  | e => e

/-- Several expressions with another one in place of the value. -/
def substituteAll (es : List Expr) (replacement : Expr) : List Expr :=
  match es with
  | [] => []
  | e :: es => substitute e replacement :: substituteAll es replacement

end

mutual

/-- **Whether nothing is missing** below an operator, a negation or a call. Of an array
elements may be missing. -/
def isWhole : Expr → Bool
  | .binary _ l r => !l.isAbsent && isWhole l && (!r.isAbsent && isWhole r)
  | .not e => !e.isAbsent && isWhole e
  | .call _ args => !args.any isAbsent && allWhole args
  | .array es => allWhole es
  | _ => true

/-- Whether nothing is missing below several expressions. -/
def allWhole : List Expr → Bool
  | [] => true
  | e :: es => isWhole e && allWhole es

end

theorem length_substituteAll (es : List Expr) (replacement : Expr) :
    (substituteAll es replacement).length = es.length := by
  induction es with
  | nil => rfl
  | cons e es ih => rw [substituteAll, List.length_cons, List.length_cons, ih]

section

variable {replacement : Expr}

/-! ## What substitution leaves as it is -/

mutual

/-- An expression that refers to no value stays as it is. -/
theorem substitute_of_closed (e : Expr) (h : e.containsValueRef = false) :
    e.substitute replacement = e := by
  match e with
  | .absent | .literal _ | .field _ => rfl
  | .valueRef => cases h
  | .binary op l r =>
    obtain ⟨hl, hr⟩ := Bool.or_eq_false_iff.mp h
    rw [substitute, substitute_of_closed l hl, substitute_of_closed r hr]
  | .not e => rw [substitute, substitute_of_closed e h]
  | .call name args => rw [substitute, substituteAll_of_closed args h]
  | .array es => rw [substitute, substituteAll_of_closed es h]

theorem substituteAll_of_closed (es : List Expr) (h : anyContainsValueRef es = false) :
    substituteAll es replacement = es := by
  match es with
  | [] => rfl
  | e :: es =>
    obtain ⟨he, hes⟩ := Bool.or_eq_false_iff.mp h
    rw [substituteAll, substitute_of_closed e he, substituteAll_of_closed es hes]

end

/-- What was there is there. -/
theorem isAbsent_substitute (present : replacement.isAbsent = false) (e : Expr) :
    (e.substitute replacement).isAbsent = e.isAbsent := by
  cases e with
  | valueRef => exact present
  | _ => rfl

theorem any_isAbsent_substituteAll (present : replacement.isAbsent = false) (es : List Expr) :
    (substituteAll es replacement).any isAbsent = es.any isAbsent := by
  induction es with
  | nil => rfl
  | cons e es ih =>
    rw [substituteAll, List.any_cons, List.any_cons, isAbsent_substitute present, ih]

mutual

/-- **What refers to a value after substitution** referred to one before, and what was put in
does too. -/
theorem containsValueRef_substitute (e : Expr) :
    (e.substitute replacement).containsValueRef
      = (e.containsValueRef && replacement.containsValueRef) := by
  match e with
  | .absent | .literal _ | .field _ | .valueRef => rfl
  | .binary op l r =>
    rw [substitute, containsValueRef, containsValueRef_substitute l,
      containsValueRef_substitute r, containsValueRef, Bool.and_or_distrib_right]
  | .not e => exact containsValueRef_substitute e
  | .call name args => exact anyContainsValueRef_substituteAll args
  | .array es => exact anyContainsValueRef_substituteAll es

theorem anyContainsValueRef_substituteAll (es : List Expr) :
    anyContainsValueRef (substituteAll es replacement)
      = (anyContainsValueRef es && replacement.containsValueRef) := by
  match es with
  | [] => rfl
  | e :: es =>
    rw [substituteAll, anyContainsValueRef, containsValueRef_substitute e,
      anyContainsValueRef_substituteAll es, anyContainsValueRef, Bool.and_or_distrib_right]

end

mutual

/-- The fields after substitution are those from before and those of what was put in. -/
theorem fields_substitute_subset (e : Expr) :
    (e.substitute replacement).fields ⊆ e.fields ++ replacement.fields := by
  match e with
  | .absent | .literal _ => exact List.nil_subset _
  | .field name => exact List.subset_append_left _ _
  | .valueRef => exact List.subset_append_right _ _
  | .binary op l r =>
    intro name hname
    rcases List.mem_append.mp hname with h | h
    · have hl := List.mem_append.mp (fields_substitute_subset l h)
      exact List.mem_append.mpr (hl.imp_left (List.mem_append_left _))
    · have hr := List.mem_append.mp (fields_substitute_subset r h)
      exact List.mem_append.mpr (hr.imp_left (List.mem_append_right _))
  | .not e => exact fields_substitute_subset e
  | .call name args => exact allFields_substituteAll_subset args
  | .array es => exact allFields_substituteAll_subset es

theorem allFields_substituteAll_subset (es : List Expr) :
    allFields (substituteAll es replacement) ⊆ allFields es ++ replacement.fields := by
  match es with
  | [] => exact List.nil_subset _
  | e :: es =>
    intro name hname
    rcases List.mem_append.mp hname with h | h
    · have he := List.mem_append.mp (fields_substitute_subset e h)
      exact List.mem_append.mpr (he.imp_left (List.mem_append_left _))
    · have hes := List.mem_append.mp (allFields_substituteAll_subset es h)
      exact List.mem_append.mpr (hes.imp_left (List.mem_append_right _))

end

section

variable {literal : Value → Bool} {name : Text → Bool}

mutual

/-- **What passes a test after substitution** passed it before, if what is put in does. -/
theorem every_substitute (hreplacement : every literal name replacement = true) (e : Expr) :
    every literal name (e.substitute replacement) = every literal name e := by
  match e with
  | .absent | .literal _ | .field _ => rfl
  | .valueRef => exact hreplacement
  | .binary op l r =>
    rw [substitute, every, every_substitute hreplacement l, every_substitute hreplacement r, every]
  | .not e => exact every_substitute hreplacement e
  | .call n args => rw [substitute, every, everyAll_substituteAll hreplacement args, every]
  | .array es => exact everyAll_substituteAll hreplacement es

theorem everyAll_substituteAll (hreplacement : every literal name replacement = true)
    (es : List Expr) :
    everyAll literal name (substituteAll es replacement) = everyAll literal name es := by
  match es with
  | [] => rfl
  | e :: es =>
    rw [substituteAll, everyAll, every_substitute hreplacement e,
      everyAll_substituteAll hreplacement es, everyAll]

end

end

/-! ## Binding -/

/-- A checked operator is that operator. -/
theorem eq_of_makeBinary {op : BinaryOp} {l r e : Expr} (h : makeBinary op l r = .ok e) :
    e = .binary op l r := by
  unfold makeBinary at h
  split at h
  · cases h
  · cases h
    rfl

/-- A checked call is that call. -/
theorem eq_of_makeCall {name : Text} {args : List Expr} {e : Expr}
    (h : makeCall name args = .ok e) : e = .call name args := by
  unfold makeCall at h
  split at h
  · cases h
  · cases h
    rfl

mutual

/-- **What binding gives**, if it does not fail, is the substitution. -/
theorem eq_substitute_of_bindValue (e : Expr) {bound : Expr}
    (h : e.bindValue replacement = .ok bound) : bound = e.substitute replacement := by
  match e with
  | .absent | .literal _ | .field _ | .valueRef =>
    cases h
    rfl
  | .binary op l r =>
    unfold bindValue at h
    split at h
    · obtain ⟨r', hr, h⟩ := exists_of_bind_eq_ok h
      obtain ⟨l', hl, h⟩ := exists_of_bind_eq_ok h
      rw [eq_of_makeBinary h, eq_substitute_of_bindValue l hl, eq_substitute_of_bindValue r hr,
        substitute]
    · rename_i closed
      cases h
      rw [substitute_of_closed (.binary op l r) (Bool.eq_false_iff.mpr closed)]
  | .not e =>
    obtain ⟨e', he, h⟩ := exists_of_bind_eq_ok h
    cases h
    rw [eq_substitute_of_bindValue e he, substitute]
  | .call name args =>
    unfold bindValue at h
    split at h
    · obtain ⟨args', hargs, h⟩ := exists_of_bind_eq_ok h
      rw [eq_of_makeCall h, eq_substituteAll_of_bindValues args hargs, substitute]
    · rename_i closed
      cases h
      rw [substitute_of_closed (.call name args) (Bool.eq_false_iff.mpr closed)]
  | .array es =>
    obtain ⟨es', hes, h⟩ := exists_of_bind_eq_ok h
    cases h
    rw [eq_substituteAll_of_bindValues es hes, substitute]

theorem eq_substituteAll_of_bindValues (es : List Expr) {bound : List Expr}
    (h : bindValues es replacement = .ok bound) : bound = substituteAll es replacement := by
  match es with
  | [] =>
    cases h
    rfl
  | e :: es =>
    obtain ⟨e', he, h⟩ := exists_of_bind_eq_ok h
    obtain ⟨es', hes, h⟩ := exists_of_bind_eq_ok h
    cases h
    rw [eq_substitute_of_bindValue e he, eq_substituteAll_of_bindValues es hes, substituteAll]

end

mutual

/-- **Binding is substitution**, if nothing is missing. -/
theorem bindValue_eq_substitute (present : replacement.isAbsent = false) (e : Expr)
    (whole : e.isWhole = true) : e.bindValue replacement = .ok (e.substitute replacement) := by
  match e with
  | .absent | .literal _ | .field _ | .valueRef => rfl
  | .binary op l r =>
    simp only [isWhole, Bool.and_eq_true, Bool.not_eq_true'] at whole
    obtain ⟨⟨hl, wholeLeft⟩, hr, wholeRight⟩ := whole
    unfold bindValue
    split
    · rw [bindValue_eq_substitute present r wholeRight, bindValue_eq_substitute present l wholeLeft]
      show makeBinary op _ _ = _
      unfold makeBinary
      rw [isAbsent_substitute present, isAbsent_substitute present, hl, hr]
      rfl
    · rename_i closed
      rw [substitute_of_closed (.binary op l r) (Bool.eq_false_iff.mpr closed)]
  | .not e =>
    obtain ⟨-, wholeOperand⟩ := Bool.and_eq_true_iff.mp whole
    unfold bindValue
    rw [bindValue_eq_substitute present e wholeOperand]
    rfl
  | .call name args =>
    obtain ⟨hargs, wholeArgs⟩ := Bool.and_eq_true_iff.mp whole
    unfold bindValue
    split
    · rw [bindValues_eq_substituteAll present args wholeArgs]
      show makeCall name _ = _
      unfold makeCall
      rw [any_isAbsent_substituteAll present, (Bool.not_eq_true' _).mp hargs]
      rfl
    · rename_i closed
      rw [substitute_of_closed (.call name args) (Bool.eq_false_iff.mpr closed)]
  | .array es =>
    unfold bindValue
    rw [bindValues_eq_substituteAll present es whole]
    rfl

theorem bindValues_eq_substituteAll (present : replacement.isAbsent = false) (es : List Expr)
    (whole : allWhole es = true) :
    bindValues es replacement = .ok (substituteAll es replacement) := by
  match es with
  | [] => rfl
  | e :: es =>
    obtain ⟨wholeFirst, wholeRest⟩ := Bool.and_eq_true_iff.mp whole
    unfold bindValues
    rw [bindValue_eq_substitute present e wholeFirst,
      bindValues_eq_substituteAll present es wholeRest]
    rfl

end

/-! ## Evaluation -/

variable {R : {α : Type} → Run α → Run α → Prop} {r : Resolver} {value : Option Value}
  {v : Value}

mutual

/-- **Substituting is evaluating with the value** of what is put in. -/
theorem evaluate_substitute (hR : Run.Congruence R)
    (h : R (evaluate r value replacement) (Run.done v)) (e : Expr) :
    R (evaluate r value (e.substitute replacement)) (evaluate r (some v) e) := by
  match e with
  | .absent | .literal _ | .field _ => exact hR.refl _
  | .valueRef => exact h
  | .binary op a b =>
    rw [substitute, evaluate_binary, evaluate_binary]
    exact hR.runOn op (evaluate_substitute hR h a) (evaluate_substitute hR h b)
  | .not a => exact hR.bind (evaluate_substitute hR h a) fun _ => hR.refl _
  | .call name args =>
    rw [substitute, evaluate_call, evaluate_call, length_substituteAll]
    exact hR.runCall name args.length (evaluateAll_substituteAll hR h args)
  | .array es => exact hR.bind (evaluateAll_substituteAll hR h es) fun _ => hR.refl _

theorem evaluateAll_substituteAll (hR : Run.Congruence R)
    (h : R (evaluate r value replacement) (Run.done v)) (es : List Expr) :
    R (evaluateAll r value (substituteAll es replacement)) (evaluateAll r (some v) es) := by
  match es with
  | [] => exact hR.refl _
  | e :: es =>
    exact hR.bind (evaluate_substitute hR h e) fun _ =>
      hR.bind (evaluateAll_substituteAll hR h es) fun _ => hR.refl _

end

end

end Expr

/-! ## Whole expressions -/

namespace Expr

/-- Checked operators, negations and calls of whole expressions are whole. -/
theorem isWhole_of_makeBinary {op : BinaryOp} {l r e : Expr} (hl : l.isWhole = true)
    (hr : r.isWhole = true) (h : makeBinary op l r = .ok e) : e.isWhole = true := by
  unfold makeBinary at h
  split at h
  · cases h
  · rename_i present
    rw [Bool.or_eq_true, not_or, Bool.not_eq_true, Bool.not_eq_true] at present
    cases h
    simp only [isWhole, present.1, present.2, hl, hr, Bool.not_false, Bool.and_self]

theorem isWhole_of_makeNot {operand e : Expr} (hoperand : operand.isWhole = true)
    (h : makeNot operand = .ok e) : e.isWhole = true := by
  unfold makeNot at h
  split at h
  · cases h
  · rename_i present
    cases h
    simp only [isWhole, Bool.eq_false_iff.mpr present, hoperand, Bool.not_false, Bool.and_self]

theorem isWhole_of_makeCall {name : Text} {args : List Expr} {e : Expr}
    (hargs : allWhole args = true) (h : makeCall name args = .ok e) : e.isWhole = true := by
  unfold makeCall at h
  split at h
  · cases h
  · rename_i present
    cases h
    simp only [isWhole, Bool.eq_false_iff.mpr present, hargs, Bool.not_false, Bool.and_self]

end Expr

/-- The opposite of a whole condition is whole. -/
theorem Condition.isWhole_negated {c : Condition} (whole : c.description.isWhole = true) :
    c.negated.description.isWhole = true := by
  show (!c.description.isAbsent && c.description.isWhole) = true
  rw [c.present, whole]
  rfl

/-! ## Conditions on fields -/

namespace Builder

variable {T : Type} {t : FieldType}

/-- **The leaf of a condition on a field**: its expression, with the field in place of the
value. -/
def fieldLeaf (f : Field T t) (c : Condition) : Leaf T :=
  .described (c.description.substitute f.expr) (.bind {} f)

/-- The leaf of a condition on a field has a text exactly if the condition has one. -/
theorem exists_text_fieldLeaf_iff (f : Field T t) (c : Condition) :
    (∃ text, (fieldLeaf f c).text = .ok text) ↔ c.description.isWritable = true := by
  have hwritable : (c.description.substitute f.expr).isWritable = c.description.isWritable :=
    Expr.every_substitute (rfl : f.expr.isWritable = true) c.description
  rw [← hwritable]
  exact Expr.exists_text_iff _

/-- The predicate of a whole condition on a field is there if the text of its leaf is. -/
theorem conditionOn_eq (f : Field T t) (c : Condition) (whole : c.description.isWhole = true) :
    conditionOn f c = (fieldLeaf f c).text.map fun _ => ⟨.leaf (fieldLeaf f c)⟩ := by
  have hbind : c.bindTo f.expr = .ok (c.description.substitute f.expr) :=
    Expr.bindValue_eq_substitute rfl c.description whole
  have hpresent : (c.description.substitute f.expr).isAbsent = false :=
    (Expr.isAbsent_substitute rfl c.description).trans c.present
  have hclosed : (c.description.substitute f.expr).containsValueRef = false :=
    (Expr.containsValueRef_substitute c.description).trans (Bool.and_false _)
  unfold conditionOn
  rw [hbind]
  show Predicate.ofDescription (c.description.substitute f.expr) (.bind {} f) = _
  unfold Predicate.ofDescription
  rw [hpresent, hclosed]
  rfl

/-- A whole condition on a field whose leaf has a text is accepted, -/
theorem run_addCondition {f : Field T t} {c : Condition} (whole : c.description.isWhole = true)
    {text : Text} (h : (fieldLeaf f c).text = .ok text) (b : Builder T) :
    (addCondition f c).run b = .ok () (b.appended (.leaf (fieldLeaf f c))) := by
  rw [addCondition_eq_addition, run_addition, conditionOn_eq f c whole, h]
  rfl

/-- and else it is refused with the fault of the text, and the builder stays as it is. -/
theorem run_addCondition_of_error {f : Field T t} {c : Condition}
    (whole : c.description.isWhole = true) {fault : Fault}
    (h : (fieldLeaf f c).text = .error fault) (b : Builder T) :
    (addCondition f c).run b = .error fault b := by
  rw [addCondition_eq_addition, run_addition, conditionOn_eq f c whole, h]
  rfl

/-- The opposite of a condition has no text if the condition has none. -/
theorem text_negated_of_error {f : Field T t} {c : Condition} {fault : Fault}
    (h : (fieldLeaf f c).text = .error fault) :
    (fieldLeaf f c.negated).text = .error fault := by
  show (Expr.not (c.description.substitute f.expr)).text = _
  rw [Expr.text, show (c.description.substitute f.expr).text = .error fault from h]
  rfl

/-- **The leaf means the condition** on the value of the field. -/
theorem outcome_fieldLeaf (f : Field T t) (c : Condition) (closed : c.description.fields = [])
    {e : T} {v : Value} (hv : (f.valueOf e).outcome = .ok v) :
    ((fieldLeaf f c).test e).outcome = (c.test v).outcome := by
  let r := (Bindings.bind {} f).resolver e
  have hfield : (Expr.evaluate r none f.expr).outcome = (Run.done v).outcome := by
    have hbound : (Bindings.bind {} f).getter? f.name = some f.valueOf := by
      rw [Bindings.getter?_bind_empty, if_pos rfl]
    refine (Bindings.outcome_resolve _ e f.name).trans ?_
    rw [Bindings.valueOf_of_getter? hbound, hv]
    rfl
  -- no field is read in the condition, so the resolver does not matter to it
  have hresolver : (Expr.evaluate r (some v) c.description).outcome
      = (Expr.evaluate none (some v) c.description).outcome :=
    Expr.evaluate_related Run.congruence_outcome (some v) c.description fun name hname => by
      rw [closed] at hname
      cases hname
  show (Expr.test r none (c.description.substitute f.expr)).outcome
    = (Expr.test none (some v) c.description).outcome
  unfold Expr.test
  rw [Run.outcome_map, Run.outcome_map, ← hresolver,
    Expr.evaluate_substitute Run.congruence_outcome hfield]

/-- A text that is not UTF-8 cannot be compared with. -/
example : (addCondition Predicate.rightFlag (.equalTo (.string ⟨[0xff]⟩))).run {}
    = .error (.value .encoding) {} := rfl

/-- A condition that reads the value again and again and ends in calls that cannot be
made. -/
def twisted : Condition where
  description := .binary .or
    (.not (.binary .isIn .valueRef (.array [.literal .null, .valueRef])))
    (.binary .and (.call "LENGTH" [.valueRef, .valueRef]) (.call "REVERSE" [.array [.valueRef]]))

end Builder

end Criteria
