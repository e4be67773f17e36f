import Criteria.Condition
import Criteria.Proofs.Comparisons
import Criteria.Proofs.Interpretation

/-!
# The usual conditions

Every usual condition is an expression of its own, of which the evaluation knows nothing. On all
values, also on those of kinds it is not made for, it says something and never fails
(`Condition.Usual.exists_says`): an expression without fields whose calls have their arguments
gives a value for each value (`Expr.Gives`), and a condition says the truth of that.

So two conditions are compared by what they say. "Between" is "at least" and "at most", "one of"
is "equal to one", "at least of length `n + 1`" is "not at most of length `n`" of what has a
length, and neither holds of what has none (`Condition.usual_laws`). "Empty" compares a length
with a signed zero and "of length zero" with an unsigned one, which is the same, as a word is
zero whether it is read with a sign or without. A text is equal to another one up to the case of
its letters if the texts have as many bytes and those at one place are the same or the same
letter; whichever of the two stands in the condition.
-/

namespace Criteria

/-! ## Expressions without fields -/

/-- Operators between values that are there. -/
theorem BinaryOp.runOn_done (op : BinaryOp) (a b : Value) :
    op.runOn (.done a) (.done b) = .done (.bool (op.compare a b)) := by
  cases op with
  | and =>
    rw [runOn, compare, Run.done_bind]
    cases a.truth <;> rfl
  | or =>
    rw [runOn, compare, Run.done_bind]
    cases a.truth <;> rfl
  | eq | ne | lt | le | gt | ge | isIn => rfl

/-- Every function is known by its name. -/
theorem Builtin.ofName?_name (f : Builtin) : Builtin.ofName? f.name = some f := by
  cases f <;> rfl

namespace Expr

/-- **An expression gives a value** for each value that it refers to, without a fault. -/
def Gives (e : Expr) (f : Value → Value) : Prop := ∀ v, evaluate none (some v) e = .done (f v)

theorem gives_valueRef : valueRef.Gives id := fun _ => rfl

theorem gives_literal (w : Value) : (literal w).Gives fun _ => w := fun _ => rfl

theorem evaluateAll_literals (r : Resolver) (value : Option Value) (ws : List Value) :
    evaluateAll r value (ws.map literal) = .done ws := by
  induction ws with
  | nil => rfl
  | cons w ws ih =>
    rw [List.map_cons, evaluateAll, ih]
    rfl

theorem gives_literals (ws : List Value) : (array (ws.map literal)).Gives fun _ => .array ws :=
  fun v => by
    rw [evaluate, evaluateAll_literals]
    rfl

variable {a b : Expr} {f g : Value → Value}

theorem Gives.binary (op : BinaryOp) (ha : a.Gives f) (hb : b.Gives g) :
    (binary op a b).Gives fun v => .bool (op.compare (f v) (g v)) := fun v => by
  rw [evaluate_binary, ha, hb, BinaryOp.runOn_done]

/-- A call on the value, with as many literals as the function takes. -/
theorem gives_callOn (f : Builtin) (ws : List Value) (h : ws.length + 1 = f.arity) :
    (Condition.callOn f (ws.map literal)).Gives fun v => f.apply (v :: ws) := fun v => by
  have hlength : (valueRef :: ws.map literal).length = f.arity := by
    rw [List.length_cons, List.length_map, h]
  have hargs : evaluateAll none (some v) (valueRef :: ws.map literal) = .done (v :: ws) := by
    rw [evaluateAll, evaluateAll_literals]
    rfl
  rw [Condition.callOn, evaluate_call, runCall, Builtin.ofName?_name, hargs]
  exact if_pos hlength

end Expr

namespace Condition

open Criteria.Expr (Gives gives_valueRef gives_literal gives_literals gives_callOn)

/-! ## What conditions say -/

/-- **What a condition says** of each value, without a fault. -/
def Says (c : Condition) (p : Value → Bool) : Prop := ∀ v, c.test v = .done (p v)

/-- Whether a condition holds of a value. -/
def Holds (c : Condition) (v : Value) : Prop := (c.test v).outcome = .ok true

variable {c : Condition} {p : Value → Bool}

theorem Says.holds_iff (h : c.Says p) (v : Value) : c.Holds v ↔ p v = true := by
  rw [Holds, h v, Run.outcome_done, Except.ok.injEq]

/-- A condition says the truth of what its description gives. -/
theorem says_truth {f : Value → Value} (h : c.description.Gives f) :
    c.Says fun v => (f v).truth := fun v => by
  rw [test, Expr.test, h, Run.done_bind]

theorem says_of_gives (h : c.description.Gives fun v => .bool (p v)) : c.Says p := says_truth h

/-- **The opposite condition says the opposite.** -/
theorem Says.negated (h : c.Says p) : c.negated.Says fun v => !p v := fun v => by
  rw [test, Condition.negated, Expr.test_not]
  show c.test v >>= _ = _
  rw [h v, Run.done_bind]

theorem says_compareWith (op : BinaryOp) (w : Value) :
    (compareWith op w).Says fun v => op.compare v w :=
  says_of_gives (gives_valueRef.binary op (gives_literal w))

theorem says_between (low high : Value) :
    (between low high).Says fun v =>
      BinaryOp.ge.compare v low && BinaryOp.le.compare v high :=
  says_of_gives ((gives_valueRef.binary .ge (gives_literal low)).binary .and
    (gives_valueRef.binary .le (gives_literal high)))

theorem says_isIn (candidates : List Value) :
    (isIn candidates).Says fun v => v.occurs candidates :=
  says_of_gives (gives_valueRef.binary .isIn (gives_literals candidates))

theorem says_isNull : isNull.Says Value.isNull :=
  says_of_gives (gives_callOn .isNull [] rfl)

/-- A test of the value together with a literal. -/
theorem says_callOn {f : Builtin} {w : Value} (h : f.arity = 2)
    (hc : c.description = callOn f [.literal w]) : c.Says fun v => (f.apply [v, w]).truth :=
  says_truth (hc ▸ gives_callOn f [w] h.symm)

theorem says_equalsIgnoreCase (t : Text) :
    (equalsIgnoreCase t).Says fun v =>
      (Builtin.onString Text.lower v).eq (.string t.lower) :=
  says_of_gives ((gives_callOn .lower [] rfl).binary .eq (gives_literal _))

theorem gives_lengthCompare (op : BinaryOp) (n : UInt64) :
    (lengthCompare op n).Gives fun v => .bool (op.compare (Builtin.lengthOf v) (.uint n)) :=
  (gives_callOn .length [] rfl).binary op (gives_literal _)

theorem says_minLength (n : UInt64) :
    (minLength n).Says fun v => BinaryOp.ge.compare (Builtin.lengthOf v) (.uint n) :=
  says_of_gives (gives_lengthCompare .ge n)

theorem says_maxLength (n : UInt64) :
    (maxLength n).Says fun v => BinaryOp.le.compare (Builtin.lengthOf v) (.uint n) :=
  says_of_gives (gives_lengthCompare .le n)

theorem says_countEquals (n : UInt64) :
    (countEquals n).Says fun v => (Builtin.lengthOf v).eq (.uint n) :=
  says_of_gives (gives_lengthCompare .eq n)

theorem says_isEmpty :
    isEmpty.Says fun v => v.isNull || (Builtin.lengthOf v).eq (.int 0) :=
  says_of_gives ((gives_callOn .isNull [] rfl).binary .or
    ((gives_callOn .length [] rfl).binary .eq (gives_literal _)))

/-- Bounds of a length that are in order make a condition, which says that both hold. -/
theorem exists_lengthBetween {low high : UInt64} (h : low ≤ high) :
    ∃ c, lengthBetween low high = .ok c ∧ c.Says fun v =>
      BinaryOp.ge.compare (Builtin.lengthOf v) (.uint low) &&
        BinaryOp.le.compare (Builtin.lengthOf v) (.uint high) := by
  refine ⟨_, if_neg (UInt64.not_lt.mpr h), ?_⟩
  exact says_of_gives ((gives_lengthCompare .ge low).binary .and (gives_lengthCompare .le high))

/-! ## Every usual condition -/

/-- **A usual condition**, or the opposite of one. -/
inductive Usual : Condition → Prop
  | equalTo (v : Value) : Usual (equalTo v)
  | notEqualTo (v : Value) : Usual (notEqualTo v)
  | greaterThan (v : Value) : Usual (greaterThan v)
  | greaterThanOrEqualTo (v : Value) : Usual (greaterThanOrEqualTo v)
  | lessThan (v : Value) : Usual (lessThan v)
  | lessThanOrEqualTo (v : Value) : Usual (lessThanOrEqualTo v)
  | between (low high : Value) : Usual (between low high)
  | isIn (candidates : List Value) : Usual (isIn candidates)
  | notIn (candidates : List Value) : Usual (notIn candidates)
  | isNull : Usual isNull
  | notNull : Usual notNull
  | isTrue : Usual isTrue
  | isFalse : Usual isFalse
  | startsWith (part : Text) : Usual (startsWith part)
  | endsWith (part : Text) : Usual (endsWith part)
  | contains (needle : Value) : Usual (contains needle)
  | equalsIgnoreCase (t : Text) : Usual (equalsIgnoreCase t)
  | minLength (n : UInt64) : Usual (minLength n)
  | maxLength (n : UInt64) : Usual (maxLength n)
  | lengthBetween {low high : UInt64} {c : Condition} (made : lengthBetween low high = .ok c) :
    Usual c
  | isEmpty : Usual isEmpty
  | notEmpty : Usual notEmpty
  | countEquals (n : UInt64) : Usual (countEquals n)
  | negated {c : Condition} (usual : Usual c) : Usual c.negated

/-- **A usual condition never fails**: it says something of every value. -/
theorem Usual.exists_says (h : Usual c) : ∃ p, c.Says p := by
  induction h with
  | equalTo v => exact ⟨_, says_compareWith .eq v⟩
  | notEqualTo v => exact ⟨_, says_compareWith .ne v⟩
  | greaterThan v => exact ⟨_, says_compareWith .gt v⟩
  | greaterThanOrEqualTo v => exact ⟨_, says_compareWith .ge v⟩
  | lessThan v => exact ⟨_, says_compareWith .lt v⟩
  | lessThanOrEqualTo v => exact ⟨_, says_compareWith .le v⟩
  | between low high => exact ⟨_, says_between low high⟩
  | isIn candidates => exact ⟨_, says_isIn candidates⟩
  | notIn candidates => exact ⟨_, (says_isIn candidates).negated⟩
  | isNull => exact ⟨_, says_isNull⟩
  | notNull => exact ⟨_, says_isNull.negated⟩
  | isTrue => exact ⟨_, says_compareWith .eq (.bool true)⟩
  | isFalse => exact ⟨_, says_compareWith .eq (.bool false)⟩
  | startsWith part => exact ⟨_, says_callOn (f := .startsWith) rfl rfl⟩
  | endsWith part => exact ⟨_, says_callOn (f := .endsWith) rfl rfl⟩
  | contains needle => exact ⟨_, says_callOn (f := .contains) rfl rfl⟩
  | equalsIgnoreCase t => exact ⟨_, says_equalsIgnoreCase t⟩
  | minLength n => exact ⟨_, says_minLength n⟩
  | maxLength n => exact ⟨_, says_maxLength n⟩
  | lengthBetween made =>
    rename_i low high c
    by_cases horder : low ≤ high
    · obtain ⟨c', hmade, hmeans⟩ := exists_lengthBetween horder
      obtain rfl : c = c' := Except.ok.inj (made.symm.trans hmade)
      exact ⟨_, hmeans⟩
    · rw [Condition.lengthBetween, if_pos (UInt64.not_le.mp horder)] at made
      cases made
  | isEmpty => exact ⟨_, says_isEmpty⟩
  | notEmpty => exact ⟨_, says_isEmpty.negated⟩
  | countEquals n => exact ⟨_, says_countEquals n⟩
  | negated _ ih =>
    obtain ⟨p, hp⟩ := ih
    exact ⟨_, hp.negated⟩

end Condition

/-! ## Lengths -/

namespace Value

/-- **The length of a value**, if it has one: the bytes of a string, the elements of an array,
the members of an object. -/
def length? : Value → Option ℕ
  | .string t => some t.size
  | .array xs => some xs.length
  | .object ms => some ms.length
  | _ => none

variable {v : Value} {k : ℕ}

theorem lengthOf_of_some (h : v.length? = some k) : Builtin.lengthOf v = .size k := by
  cases v <;> cases h <;> rfl

theorem lengthOf_of_none (h : v.length? = none) : Builtin.lengthOf v = .null := by
  cases v <;> first | rfl | cases h

end Value

namespace Condition

section

variable {v : Value} {k : ℕ}

/-- **At least of a length** is what has that length or a greater one. -/
theorem holds_minLength_iff (hk : v.length? = some k) (sized : k < 2 ^ 64) (n : UInt64) :
    (minLength n).Holds v ↔ n.toNat ≤ k := by
  rw [(says_minLength n).holds_iff, Value.lengthOf_of_some hk]
  show (!decide (UInt64.ofNat k < n)) = true ↔ _
  rw [Bool.not_eq_true', decide_eq_false_iff_not, UInt64.lt_iff_toNat_lt,
    UInt64.toNat_ofNat_of_lt' sized, not_lt]

/-- **At most of a length** is what has that length or a smaller one. -/
theorem holds_maxLength_iff (hk : v.length? = some k) (sized : k < 2 ^ 64) (n : UInt64) :
    (maxLength n).Holds v ↔ k ≤ n.toNat := by
  rw [(says_maxLength n).holds_iff, Value.lengthOf_of_some hk]
  show (!decide (n < UInt64.ofNat k)) = true ↔ _
  rw [Bool.not_eq_true', decide_eq_false_iff_not, UInt64.lt_iff_toNat_lt,
    UInt64.toNat_ofNat_of_lt' sized, not_lt]

/-- **What has no length** has none within bounds. -/
theorem not_holds_of_length?_none (h : v.length? = none) (n : UInt64) :
    ¬ (minLength n).Holds v ∧ ¬ (maxLength n).Holds v := by
  rw [(says_minLength n).holds_iff, (says_maxLength n).holds_iff, Value.lengthOf_of_none h]
  exact ⟨Bool.false_ne_true, Bool.false_ne_true⟩

/-- The zero that emptiness compares with may have a sign or none. -/
theorem lengthOf_eq_zero (v : Value) :
    (Builtin.lengthOf v).eq (.int 0) = (Builtin.lengthOf v).eq (.uint 0) := by
  have hzero (n : UInt64) : (n.toInt64 == 0) = (n == 0) := by
    rw [Bool.eq_iff_iff, beq_iff_eq, beq_iff_eq]
    exact ⟨fun h => congrArg Int64.toUInt64 h, fun h => congrArg UInt64.toInt64 h⟩
  cases v with
  | string t => exact hzero _
  | array xs => exact hzero _
  | object ms => exact hzero _
  | _ => rfl

end

/-! ## Letter case -/

/-- **Two bytes up to letter case**: the same byte, or a capital ASCII letter and the small
one. -/
def SameLetter (a b : UInt8) : Prop :=
  a = b ∨ (65 ≤ a ∧ a ≤ 90 ∧ b = a + 32) ∨ (65 ≤ b ∧ b ≤ 90 ∧ a = b + 32)

/-- Two texts up to letter case. -/
def SameLetters (s t : Text) : Prop := List.Forall₂ SameLetter s.bytes t.bytes

/-- A capital letter and the small one are 32 bytes apart. -/
theorem toNat_lowerByte (b : UInt8) :
    (Text.lowerByte b).toNat
      = if 65 ≤ b.toNat ∧ b.toNat ≤ 90 then b.toNat + 32 else b.toNat := by
  have hcapital : 65 ≤ b ∧ b ≤ 90 ↔ 65 ≤ b.toNat ∧ b.toNat ≤ 90 := by
    rw [UInt8.le_iff_toNat_le, UInt8.le_iff_toNat_le]
    rfl
  unfold Text.lowerByte
  split
  case isTrue h =>
    rw [if_pos (hcapital.mp h), UInt8.toNat_add]
    exact Nat.mod_eq_of_lt (show b.toNat + 32 < 256 by have := hcapital.mp h; omega)
  case isFalse h => rw [if_neg (mt hcapital.mpr h)]

theorem sameLetter_iff (a b : UInt8) :
    SameLetter a b ↔ a.toNat = b.toNat ∨
      (65 ≤ a.toNat ∧ a.toNat ≤ 90 ∧ b.toNat = a.toNat + 32) ∨
      (65 ≤ b.toNat ∧ b.toNat ≤ 90 ∧ a.toNat = b.toNat + 32) := by
  have hletter (a b : UInt8) : 65 ≤ a ∧ a ≤ 90 ∧ b = a + 32
      ↔ 65 ≤ a.toNat ∧ a.toNat ≤ 90 ∧ b.toNat = a.toNat + 32 := by
    rw [UInt8.le_iff_toNat_le, UInt8.le_iff_toNat_le, ← UInt8.toNat_inj, UInt8.toNat_add]
    show 65 ≤ a.toNat ∧ a.toNat ≤ 90 ∧ b.toNat = (a.toNat + 32) % 256 ↔ _
    omega
  rw [SameLetter, hletter a b, hletter b a, ← UInt8.toNat_inj]

theorem lowerByte_eq_iff (a b : UInt8) :
    Text.lowerByte a = Text.lowerByte b ↔ SameLetter a b := by
  rw [sameLetter_iff, ← UInt8.toNat_inj, toNat_lowerByte, toNat_lowerByte]
  split <;> split <;> omega

/-- **Texts become the same in small letters** exactly if they are the same up to letter case. -/
theorem lower_eq_iff (s t : Text) : s.lower = t.lower ↔ SameLetters s t := by
  unfold Text.lower SameLetters
  rw [Text.mk.injEq, ← List.forall₂_eq_eq_eq, List.forall₂_map_left_iff,
    List.forall₂_map_right_iff]
  simp only [lowerByte_eq_iff]

/-! ## The laws -/

/-- **The laws of the usual conditions** on a value. -/
structure Laws (v : Value) : Prop where
  /-- Every one answers, and its opposite has the opposite answer. -/
  answers (c : Condition) : Usual c → ∃ b, c.test v = .done b ∧ c.negated.test v = .done !b
  /-- Between is at least and at most. -/
  between (low high : Value) : (between low high).Holds v ↔
    (greaterThanOrEqualTo low).Holds v ∧ (lessThanOrEqualTo high).Holds v
  /-- One of some candidates is equal to one. -/
  isIn (candidates : List Value) :
    (isIn candidates).Holds v ↔ ∃ w ∈ candidates, (equalTo w).Holds v
  /-- None of some candidates is different from each. -/
  notIn (candidates : List Value) :
    (notIn candidates).Holds v ↔ ∀ w ∈ candidates, (notEqualTo w).Holds v
  /-- Bounds of a length that are in order make a condition, which is that of both. -/
  lengthBetween (low high : UInt64) : low ≤ high → ∃ c, lengthBetween low high = .ok c ∧
    (c.Holds v ↔ (minLength low).Holds v ∧ (maxLength high).Holds v)
  /-- A length is compared as it is. -/
  length (n : UInt64) (k : ℕ) : v.length? = some k →
    ((minLength n).Holds v ↔ n.toNat ≤ k) ∧ ((maxLength n).Holds v ↔ k ≤ n.toNat)
  /-- What has a length has at least one more than a number, or at most that number. -/
  complement (n : UInt64) : n.toNat < 2 ^ 64 - 1 → v.length?.isSome = true →
    ((minLength (n + 1)).Holds v ↔ ¬ (maxLength n).Holds v)
  /-- What has no length has none within bounds. -/
  noLength (n : UInt64) : v.length? = none → ¬ (minLength n).Holds v ∧ ¬ (maxLength n).Holds v
  /-- Empty is null or of length zero. -/
  isEmpty : isEmpty.Holds v ↔ v = .null ∨ (countEquals 0).Holds v
  /-- Equal up to case are the texts of the same letters. -/
  equalsIgnoreCase (s : Text) :
    (equalsIgnoreCase s).Holds v ↔ ∃ t, v = .string t ∧ SameLetters s t
  /-- Either of two texts may be the value. -/
  ignoreCase_symm (s t : Text) :
    (Condition.equalsIgnoreCase s).test (.string t)
      = (Condition.equalsIgnoreCase t).test (.string s)

section

variable {v : Value}

theorem holds_isIn_iff (candidates : List Value) :
    (isIn candidates).Holds v ↔ ∃ w ∈ candidates, (equalTo w).Holds v := by
  rw [(says_isIn candidates).holds_iff, Value.occurs, List.any_eq_true]
  refine exists_congr fun w => and_congr_right fun _ => ?_
  rw [equalTo, (says_compareWith .eq w).holds_iff, Value.eq_symm]
  rfl

theorem holds_notIn_iff (candidates : List Value) :
    (notIn candidates).Holds v ↔ ∀ w ∈ candidates, (notEqualTo w).Holds v := by
  rw [notIn, (says_isIn candidates).negated.holds_iff, Value.occurs, Bool.not_eq_true',
    List.any_eq_false]
  refine forall₂_congr fun w _ => ?_
  rw [notEqualTo, (says_compareWith .ne w).holds_iff, Value.eq_symm]
  show ¬ v.eq w = true ↔ (!v.eq w) = true
  rw [Bool.not_eq_true, Bool.not_eq_true']

theorem holds_isEmpty_iff : isEmpty.Holds v ↔ v = .null ∨ (countEquals 0).Holds v := by
  have hnull : v.isNull = true ↔ v = .null := by
    cases v <;> simp [Value.isNull]
  rw [says_isEmpty.holds_iff, (says_countEquals 0).holds_iff, Bool.or_eq_true, hnull,
    lengthOf_eq_zero]

theorem holds_equalsIgnoreCase_iff (s : Text) :
    (equalsIgnoreCase s).Holds v ↔ ∃ t, v = .string t ∧ SameLetters s t := by
  rw [(says_equalsIgnoreCase s).holds_iff]
  cases v with
  | string t =>
    show decide (t.lower = s.lower) = true ↔ _
    rw [decide_eq_true_iff, eq_comm, lower_eq_iff]
    simp
  | _ => simp [Builtin.onString, Value.eq]

/-- **The usual conditions are lawful** on every value whose length is a signed word. -/
theorem usual_laws (sized : ∀ k ∈ v.length?, k < 2 ^ 63) : Laws v where
  answers c hc := by
    obtain ⟨p, hp⟩ := hc.exists_says
    exact ⟨p v, hp v, hp.negated v⟩
  between low high := by
    rw [(says_between low high).holds_iff, greaterThanOrEqualTo, lessThanOrEqualTo,
      (says_compareWith .ge low).holds_iff, (says_compareWith .le high).holds_iff,
      Bool.and_eq_true]
  isIn := holds_isIn_iff
  notIn := holds_notIn_iff
  lengthBetween low high h := by
    obtain ⟨c, hmade, hmeans⟩ := exists_lengthBetween h
    refine ⟨c, hmade, ?_⟩
    rw [hmeans.holds_iff, (says_minLength low).holds_iff, (says_maxLength high).holds_iff,
      Bool.and_eq_true]
  length n k hk := by
    have hword : k < 2 ^ 64 := (sized k hk).trans (by decide)
    exact ⟨holds_minLength_iff hk hword n, holds_maxLength_iff hk hword n⟩
  complement n hn hsome := by
    obtain ⟨k, hk⟩ := Option.isSome_iff_exists.mp hsome
    have hword : k < 2 ^ 64 := (sized k hk).trans (by decide)
    have hsucc : (n + 1).toNat = n.toNat + 1 := by
      rw [UInt64.toNat_add]
      exact Nat.mod_eq_of_lt (show n.toNat + 1 < 2 ^ 64 by omega)
    rw [holds_minLength_iff hk hword, holds_maxLength_iff hk hword, hsucc, not_le,
      Nat.succ_le_iff]
  noLength n h := not_holds_of_length?_none h n
  isEmpty := holds_isEmpty_iff
  equalsIgnoreCase := holds_equalsIgnoreCase_iff
  ignoreCase_symm s t := by
    rw [says_equalsIgnoreCase s, says_equalsIgnoreCase t]
    exact congrArg Run.done (Value.eq_symm _ _)

end

/-- Two texts that differ in the case of one letter, of which one is the value. -/
theorem usual_laws_text :
    (∀ k ∈ (Value.string "Ab").length?, k < 2 ^ 63) ∧ (equalsIgnoreCase "aB").Holds (.string "Ab") ∧
      (lengthBetween 2 3).toOption.isSome = true ∧
      ((minLength 3).Holds (.string "Ab") ↔ ¬ (maxLength 2).Holds (.string "Ab")) := by
  have hsized : ∀ k ∈ (Value.string "Ab").length?, k < 2 ^ 63 := by decide
  have hlaws := usual_laws hsized
  refine ⟨hsized, (hlaws.equalsIgnoreCase "aB").mpr ⟨"Ab", rfl, ?_⟩, rfl,
    hlaws.complement 2 (by decide) rfl⟩
  exact .cons (.inr (.inr (by decide))) (.cons (.inr (.inl (by decide))) .nil)

end Condition

end Criteria
