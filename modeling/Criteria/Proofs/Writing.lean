import Criteria.Proofs.Sequencing
import Criteria.Proofs.Utf8

/-!
# What can be written down

A query is written down twice over: as a value, for which all parts of its filter have to be
there, and as the text of that value, for which all strings in it have to be UTF-8. The query
itself says whether it can be (`Query.isPortable`, `Query.exists_text_iff`), and if not, what the
fault is (`Query.text_eq_error_iff`).

The text of an expression asks for less. Names go into it byte by byte, so only the literals have
to be UTF-8 (`Expr.isWritable`, `Expr.exists_text_iff`). A description may therefore be accepted as
a leaf of a predicate and still make queries that cannot be written down.

Who executes queries writes them down first, as a table does. Its answers are those of
`Query.reply`: what it would answer, after the fault of the text if there is none.
-/

namespace Criteria

/-! ## Values -/

namespace Value

/-- **A value has a text** exactly if its strings are UTF-8. -/
theorem dump_eq_ok_iff {v : Value} {t : Text} : v.dump = .ok t ↔ v.isUtf8 = true ∧ v.write = t := by
  unfold dump
  cases v.isUtf8 <;> simp

theorem dump_eq_error_iff {v : Value} {fault : Fault} :
    v.dump = .error fault ↔ v.isUtf8 = false ∧ fault = .value .encoding := by
  unfold dump
  cases v.isUtf8 <;> simp [eq_comm]

end Value

/-! ## Expressions -/

namespace Expr

section

variable (literal : Value → Bool) (name : Text → Bool)

mutual

/-- **Whether nothing is missing in an expression**, and its literals and the names of its fields
and functions pass a test. -/
def every : Expr → Bool
  | .absent => false
  | .literal v => literal v
  | .valueRef => true
  | .field n => name n
  | .binary _ l r => every l && every r
  | .not e => every e
  | .call n args => name n && everyAll args
  | .array es => everyAll es

/-- Whether nothing is missing in several expressions, and what is there passes. -/
def everyAll : List Expr → Bool
  | [] => true
  | e :: es => every e && everyAll es

end

end

/-- **Whether nothing is missing** in an expression. -/
abbrev isComplete : Expr → Bool := every (fun _ => true) (fun _ => true)

/-- **Whether an expression has a text**: nothing is missing, and its literals are UTF-8. -/
abbrev isWritable : Expr → Bool := every Value.isUtf8 fun _ => true

/-- **Whether the value of an expression has a text**: the names in it are UTF-8 as well. -/
abbrev isPortable : Expr → Bool := every Value.isUtf8 Text.isUtf8

mutual

/-- **An expression that has a text.** -/
theorem exists_text (e : Expr) (h : e.isWritable = true) : ∃ t, e.text = .ok t := by
  match e with
  | .literal v => exact ⟨v.write, Value.dump_eq_ok_iff.mpr ⟨h, rfl⟩⟩
  | .valueRef | .field name => exact ⟨_, rfl⟩
  | .binary op l r =>
    obtain ⟨hl, hr⟩ := Bool.and_eq_true_iff.mp h
    obtain ⟨left, hleft⟩ := exists_text l hl
    obtain ⟨right, hright⟩ := exists_text r hr
    exact ⟨_, by rw [text, hleft, hright]; rfl⟩
  | .not e =>
    obtain ⟨t, ht⟩ := exists_text e h
    exact ⟨_, by rw [text, ht]; rfl⟩
  | .call name args =>
    obtain ⟨ts, hts⟩ := exists_texts args (Bool.and_eq_true_iff.mp h).2
    exact ⟨_, by rw [text, hts]; rfl⟩
  | .array es =>
    obtain ⟨ts, hts⟩ := exists_texts es h
    exact ⟨_, by rw [text, hts]; rfl⟩

/-- Expressions that have texts. -/
theorem exists_texts (es : List Expr) (h : everyAll Value.isUtf8 (fun _ => true) es = true) :
    ∃ ts, texts es = .ok ts := by
  match es with
  | [] => exact ⟨[], rfl⟩
  | e :: es =>
    obtain ⟨he, hes⟩ := Bool.and_eq_true_iff.mp h
    obtain ⟨t, ht⟩ := exists_text e he
    obtain ⟨ts, hts⟩ := exists_texts es hes
    exact ⟨t :: ts, by rw [texts, ht, hts]; rfl⟩

end

mutual

/-- An expression with a text has one by right. -/
theorem isWritable_of_text (e : Expr) {t : Text} (h : e.text = .ok t) : e.isWritable = true := by
  match e with
  | .absent => cases h
  | .literal v => exact (Value.dump_eq_ok_iff.mp h).1
  | .valueRef | .field name => rfl
  | .binary op l r =>
    obtain ⟨left, hleft, h⟩ := exists_of_bind_eq_ok h
    obtain ⟨right, hright, -⟩ := exists_of_bind_eq_ok h
    exact Bool.and_eq_true_iff.mpr ⟨isWritable_of_text l hleft, isWritable_of_text r hright⟩
  | .not e =>
    obtain ⟨t, ht, -⟩ := exists_of_bind_eq_ok h
    exact isWritable_of_text e ht
  | .call name args =>
    obtain ⟨ts, hts, -⟩ := exists_of_bind_eq_ok h
    exact Bool.and_eq_true_iff.mpr ⟨rfl, allWritable_of_texts args hts⟩
  | .array es =>
    obtain ⟨ts, hts, -⟩ := exists_of_bind_eq_ok h
    exact allWritable_of_texts es hts

/-- Expressions with texts have them by right. -/
theorem allWritable_of_texts (es : List Expr) {ts : List Text} (h : texts es = .ok ts) :
    everyAll Value.isUtf8 (fun _ => true) es = true := by
  match es with
  | [] => rfl
  | e :: es =>
    obtain ⟨t, ht, h⟩ := exists_of_bind_eq_ok h
    obtain ⟨rest, hrest, -⟩ := exists_of_bind_eq_ok h
    exact Bool.and_eq_true_iff.mpr ⟨isWritable_of_text e ht, allWritable_of_texts es hrest⟩

end

/-- **An expression has a text** exactly if nothing in it is missing and its literals are UTF-8. -/
theorem exists_text_iff (e : Expr) : (∃ t, e.text = .ok t) ↔ e.isWritable = true :=
  ⟨fun ⟨_, ht⟩ => isWritable_of_text e ht, exists_text e⟩

mutual

/-- **An expression in which nothing is missing has a value**, whose strings are the literals and
the names. -/
theorem exists_toValue (e : Expr) (h : e.isComplete = true) :
    ∃ v, e.toValue = .ok v ∧ v.isUtf8 = e.isPortable := by
  match e with
  | .literal v =>
    exact ⟨_, rfl, by simp [Value.isUtf8, Value.membersUtf8, every]⟩
  | .valueRef => exact ⟨_, rfl, by simp [Value.isUtf8, Value.membersUtf8, every]⟩
  | .field name => exact ⟨_, rfl, by simp [Value.isUtf8, Value.membersUtf8, every]⟩
  | .binary op l r =>
    obtain ⟨hl, hr⟩ := Bool.and_eq_true_iff.mp h
    obtain ⟨left, hleft, hutf8⟩ := exists_toValue l hl
    obtain ⟨right, hright, hutf8'⟩ := exists_toValue r hr
    have hsymbol : op.symbol.isUtf8 = true := by cases op <;> exact Text.isUtf8_ofString _
    refine ⟨_, by rw [toValue, hleft, hright]; rfl, ?_⟩
    simp [Value.isUtf8, Value.membersUtf8, every, hutf8, hutf8', hsymbol]
  | .not e =>
    obtain ⟨v, hv, hutf8⟩ := exists_toValue e h
    refine ⟨_, by rw [toValue, hv]; rfl, ?_⟩
    simp [Value.isUtf8, Value.membersUtf8, every, hutf8]
  | .call name args =>
    obtain ⟨vs, hvs, hutf8⟩ := exists_toValues args (Bool.and_eq_true_iff.mp h).2
    refine ⟨_, by rw [toValue, hvs]; rfl, ?_⟩
    simp [Value.isUtf8, Value.membersUtf8, every, hutf8, Bool.and_comm]
  | .array es =>
    obtain ⟨vs, hvs, hutf8⟩ := exists_toValues es h
    refine ⟨_, by rw [toValue, hvs]; rfl, ?_⟩
    simp [Value.isUtf8, Value.membersUtf8, every, hutf8]

/-- Expressions in which nothing is missing have values. -/
theorem exists_toValues (es : List Expr)
    (h : everyAll (fun _ => true) (fun _ => true) es = true) :
    ∃ vs, toValues es = .ok vs ∧ Value.allUtf8 vs = everyAll Value.isUtf8 Text.isUtf8 es := by
  match es with
  | [] => exact ⟨[], rfl, rfl⟩
  | e :: es =>
    obtain ⟨he, hes⟩ := Bool.and_eq_true_iff.mp h
    obtain ⟨v, hv, hutf8⟩ := exists_toValue e he
    obtain ⟨vs, hvs, hutf8s⟩ := exists_toValues es hes
    refine ⟨v :: vs, by rw [toValues, hv, hvs]; rfl, ?_⟩
    rw [Value.allUtf8, everyAll, hutf8, hutf8s]

end

mutual

/-- **An expression in which something is missing has no value.** -/
theorem toValue_of_incomplete (e : Expr) (h : e.isComplete = false) :
    e.toValue = .error .undefined := by
  match e with
  | .absent => rfl
  | .literal v => cases h
  | .valueRef => cases h
  | .field name => cases h
  | .binary op l r =>
    cases hl : l.isComplete with
    | false => rw [toValue, toValue_of_incomplete l hl]; rfl
    | true =>
      obtain ⟨left, hleft, -⟩ := exists_toValue l hl
      have hr : r.isComplete = false := by
        rwa [isComplete, every, show every _ _ l = true from hl, Bool.true_and] at h
      rw [toValue, hleft, toValue_of_incomplete r hr]
      rfl
  | .not e => rw [toValue, toValue_of_incomplete e h]; rfl
  | .call name args => rw [toValue, toValues_of_incomplete args h]; rfl
  | .array es => rw [toValue, toValues_of_incomplete es h]; rfl

/-- Expressions in which something is missing have no values. -/
theorem toValues_of_incomplete (es : List Expr)
    (h : everyAll (fun _ => true) (fun _ => true) es = false) :
    toValues es = .error .undefined := by
  match es with
  | [] => cases h
  | e :: es =>
    cases he : e.isComplete with
    | false => rw [toValues, toValue_of_incomplete e he]; rfl
    | true =>
      obtain ⟨v, hv, -⟩ := exists_toValue e he
      have hes : everyAll (fun _ => true) (fun _ => true) es = false := by
        rwa [everyAll, show every _ _ e = true from he, Bool.true_and] at h
      rw [toValues, hv, toValues_of_incomplete es hes]
      rfl

end

/-- **An expression has a value** exactly if nothing in it is missing. -/
theorem exists_toValue_iff (e : Expr) : (∃ v, e.toValue = .ok v) ↔ e.isComplete = true := by
  constructor
  · rintro ⟨v, hv⟩
    by_contra hincomplete
    rw [e.toValue_of_incomplete (Bool.not_eq_true _ ▸ hincomplete)] at hv
    cases hv
  · intro h
    obtain ⟨v, hv, -⟩ := e.exists_toValue h
    exact ⟨v, hv⟩

mutual

/-- Tests that admit more admit more expressions. -/
theorem every_mono {literal literal' : Value → Bool} {name name' : Text → Bool}
    (hliteral : ∀ v, literal v = true → literal' v = true)
    (hname : ∀ n, name n = true → name' n = true) (e : Expr) (h : every literal name e = true) :
    every literal' name' e = true := by
  match e with
  | .literal v => exact hliteral v h
  | .valueRef => rfl
  | .field n => exact hname n h
  | .binary op l r =>
    obtain ⟨hl, hr⟩ := Bool.and_eq_true_iff.mp h
    exact Bool.and_eq_true_iff.mpr
      ⟨every_mono hliteral hname l hl, every_mono hliteral hname r hr⟩
  | .not e => exact every_mono hliteral hname e h
  | .call n args =>
    obtain ⟨hn, hargs⟩ := Bool.and_eq_true_iff.mp h
    exact Bool.and_eq_true_iff.mpr ⟨hname n hn, everyAll_mono hliteral hname args hargs⟩
  | .array es => exact everyAll_mono hliteral hname es h

/-- Tests that admit more admit more expressions together. -/
theorem everyAll_mono {literal literal' : Value → Bool} {name name' : Text → Bool}
    (hliteral : ∀ v, literal v = true → literal' v = true)
    (hname : ∀ n, name n = true → name' n = true) (es : List Expr)
    (h : everyAll literal name es = true) : everyAll literal' name' es = true := by
  match es with
  | [] => rfl
  | e :: es =>
    obtain ⟨he, hes⟩ := Bool.and_eq_true_iff.mp h
    exact Bool.and_eq_true_iff.mpr
      ⟨every_mono hliteral hname e he, everyAll_mono hliteral hname es hes⟩

end

/-- Nothing is missing in an expression whose value has a text. -/
theorem isComplete_of_isPortable {e : Expr} (h : e.isPortable = true) : e.isComplete = true :=
  every_mono (fun _ _ => rfl) (fun _ _ => rfl) e h

end Expr

/-! ## Queries -/

namespace Query

/-- **The names in a query**: where the entities are, and the fields by which they are told
apart, grouped, sorted and reduced. -/
def names (q : Query) : List Text :=
  q.distinctBy.toList ++ (q.groupBy.toList ++ (q.orderBy.map SortField.field
    ++ q.source :: q.targetField.toList))

/-- Whether nothing is missing in the filter of a query. -/
def isComplete (q : Query) : Bool := q.filter.all Expr.isComplete

/-- **Whether a query has a text**: nothing is missing in its filter, and the literals and all
names in it are UTF-8. -/
def isPortable (q : Query) : Bool := q.filter.all Expr.isPortable && q.names.all Text.isUtf8

/-- The members that are there are UTF-8 if their keys and contents are. -/
theorem membersUtf8_presentMembers (parts : List (Text × Option Value)) :
    Value.membersUtf8 (presentMembers parts)
      = parts.all fun part => part.2.all fun v => part.1.isUtf8 && v.isUtf8 := by
  induction parts with
  | nil => rfl
  | cons part rest ih =>
    obtain ⟨key, content⟩ := part
    cases content with
    | none => simpa [presentMembers] using ih
    | some v => simp [presentMembers, Value.membersUtf8, ih]

/-- The sort keys are UTF-8 if their fields are. -/
theorem allUtf8_orderBy (keys : List SortField) :
    Value.allUtf8 (keys.map SortField.toValue) = keys.all fun key => key.field.isUtf8 := by
  induction keys with
  | nil => rfl
  | cons key keys ih =>
    have hdirection : key.direction.name.isUtf8 = true := by
      cases key.direction <;> exact Text.isUtf8_ofString _
    simp [Value.allUtf8, SortField.toValue, Value.isUtf8, Value.membersUtf8, hdirection, ih]

/-- The filter of a query as a value, if nothing in it is missing. -/
theorem exists_filterValue {filter : Option Expr} (h : filter.all Expr.isComplete = true) :
    ∃ v, filterValue filter = .ok v ∧ v.isUtf8 = filter.all Expr.isPortable := by
  cases filter with
  | none => exact ⟨.null, rfl, rfl⟩
  | some e => exact e.exists_toValue h

/-- **A query whose filter is complete has a value**, whose strings are UTF-8 if those of the
query are. -/
theorem exists_toValue {q : Query} (h : q.isComplete = true) :
    ∃ v, q.toValue = .ok v ∧ v.isUtf8 = q.isPortable := by
  obtain ⟨filter, hfilter, hutf8⟩ := exists_filterValue h
  have hoperation : q.operation.name.isUtf8 = true := by
    cases q.operation <;> exact Text.isUtf8_ofString _
  refine ⟨.object (presentMembers (q.parts filter)), by rw [toValue, hfilter]; rfl, ?_⟩
  have htext (name : Option Text) :
      (name.map Value.string).all (fun v => v.isUtf8) = name.toList.all Text.isUtf8 := by
    cases name <;> simp [Value.isUtf8]
  have hword (n : Option UInt64) : (n.map Value.uint).all (fun v => v.isUtf8) = true := by
    cases n <;> rfl
  rw [Value.isUtf8, membersUtf8_presentMembers, isPortable, names, ← hutf8, Bool.eq_iff_iff]
  simp only [parts, List.all_cons, List.all_nil, List.all_append, List.all_map, Option.all_some,
    Text.isUtf8_ofString, Bool.true_and, Bool.and_true, htext, hword, Value.isUtf8, allUtf8_orderBy,
    hoperation, Bool.and_eq_true]
  exact and_left_comm

/-- **A query with something missing in its filter has no value.** -/
theorem toValue_of_incomplete {q : Query} (h : q.isComplete = false) :
    q.toValue = .error .undefined := by
  obtain ⟨e, he⟩ : ∃ e, q.filter = some e := Option.ne_none_iff_exists'.mp fun hnone => by
    rw [isComplete, hnone] at h
    cases h
  rw [isComplete, he] at h
  rw [toValue, he, filterValue, e.toValue_of_incomplete h]
  rfl

/-- **A query has a value** exactly if nothing in its filter is missing. -/
theorem exists_toValue_iff (q : Query) : (∃ v, q.toValue = .ok v) ↔ q.isComplete = true := by
  constructor
  · rintro ⟨v, hv⟩
    by_contra hincomplete
    rw [toValue_of_incomplete (Bool.not_eq_true _ ▸ hincomplete)] at hv
    cases hv
  · intro h
    obtain ⟨v, hv, -⟩ := exists_toValue h
    exact ⟨v, hv⟩

theorem isComplete_of_isPortable {q : Query} (h : q.isPortable = true) : q.isComplete = true := by
  have hfilter := (Bool.and_eq_true_iff.mp h).1
  rw [isComplete]
  cases hq : q.filter with
  | none => rfl
  | some e =>
    rw [hq] at hfilter
    exact Expr.isComplete_of_isPortable hfilter

/-- **A query has a text** exactly if nothing is missing in its filter and all that is text in it
is UTF-8. -/
theorem exists_text_iff (q : Query) : (∃ t, q.text = .ok t) ↔ q.isPortable = true := by
  constructor
  · rintro ⟨t, ht⟩
    obtain ⟨v, hv, hdump⟩ := exists_of_bind_eq_ok ht
    obtain ⟨w, hw, hutf8⟩ := exists_toValue (q.exists_toValue_iff.mp ⟨v, hv⟩)
    obtain rfl := Except.ok.inj (hv.symm.trans hw)
    exact hutf8 ▸ (Value.dump_eq_ok_iff.mp hdump).1
  · intro h
    obtain ⟨v, hv, hutf8⟩ := exists_toValue (isComplete_of_isPortable h)
    refine ⟨v.write, ?_⟩
    rw [text, hv]
    exact Value.dump_eq_ok_iff.mpr ⟨hutf8.trans h, rfl⟩

/-- A query that can be written down can be without its field for distinct entities. -/
theorem isPortable_of_distinctBy {q : Query} (h : q.isPortable = true) :
    Query.isPortable { q with distinctBy := none } = true := by
  simp only [isPortable, names, Option.toList_none, List.nil_append, List.all_append,
    Bool.and_eq_true] at h ⊢
  exact ⟨h.1, h.2.2⟩

/-- **Why a query has no text**: something is missing in its filter, or nothing is and there is
text that is not UTF-8. -/
theorem text_eq_error_iff (q : Query) (fault : Fault) :
    q.text = .error fault
      ↔ q.isComplete = false ∧ fault = .undefined ∨
        q.isComplete = true ∧ q.isPortable = false ∧ fault = .value .encoding := by
  cases hcomplete : q.isComplete with
  | false =>
    rw [text, toValue_of_incomplete hcomplete]
    show Except.error Fault.undefined = Except.error fault ↔ _
    rw [Except.error.injEq]
    exact ⟨fun h => .inl ⟨rfl, h.symm⟩, fun h => h.elim (fun h => h.2.symm) (fun h => nomatch h.1)⟩
  | true =>
    obtain ⟨v, hv, hutf8⟩ := exists_toValue hcomplete
    rw [text, hv]
    show v.dump = .error fault ↔ _
    rw [Value.dump_eq_error_iff, hutf8]
    simp

/-! ## Answers -/

variable {α : Type}

/-- **The reply to a query** by who has an answer: the query is written down before. -/
def reply (q : Query) (answer : Except Fault α) : Except Fault α := do
  let _ ← q.text
  answer

/-- A query that can be written down is answered. -/
theorem reply_of_isPortable {q : Query} (h : q.isPortable = true) (answer : Except Fault α) :
    q.reply answer = answer := by
  obtain ⟨t, ht⟩ := q.exists_text_iff.mpr h
  rw [reply, ht]
  rfl

/-- The fault of a query that cannot be written down comes before the answer. -/
theorem reply_of_error {q : Query} {fault : Fault} (h : q.text = .error fault)
    (answer : Except Fault α) : q.reply answer = .error fault := by
  rw [reply, h]
  rfl

/-- Whether there is a reply is a matter of what can be written down, and of nothing else in a
query. -/
theorem reply_congr {q q' : Query} (hcomplete : q.isComplete = q'.isComplete)
    (hportable : q.isPortable = q'.isPortable) (answer : Except Fault α) :
    q.reply answer = q'.reply answer := by
  cases htext : q.text with
  | ok t =>
    have h : q.isPortable = true := q.exists_text_iff.mp ⟨t, htext⟩
    rw [reply_of_isPortable h, reply_of_isPortable (hportable ▸ h)]
  | error fault =>
    have h := (q.text_eq_error_iff fault).mp htext
    rw [hcomplete, hportable] at h
    rw [reply_of_error htext, reply_of_error ((q'.text_eq_error_iff fault).mpr h)]

/-- A query that cannot be written down has a fault. -/
theorem exists_fault {q : Query} (h : q.isPortable = false) : ∃ fault, q.text = .error fault := by
  cases ht : q.text with
  | ok t =>
    rw [q.exists_text_iff.mp ⟨t, ht⟩] at h
    cases h
  | error fault => exact ⟨fault, rfl⟩

end Query

end Criteria
