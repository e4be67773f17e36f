import Criteria.Proofs.Conditions
import Mathlib.Data.List.DropRight

/-!
# Calls on strings

The functions of texts scan bytes: for a part from each position on, for white space from the
first byte on and from the last one back. What they find is said here without a position. A text
starts with a part if it is the part followed by something, ends with it if it is something
followed by the part, and contains it if it is both at once; none of this asks the part to be
shorter than the text, or to have a byte at all. A text is its trimmed form between two blank
ones, and the trimmed form starts and ends with a byte that is no white space, unless it is empty
(`Text.exists_trim`).

## Which bytes change

Changing the letter case replaces a letter by the other one of its pair and keeps every other
byte in its place. No letter is white space and no white space is a letter, so trimming and
changing the case commute (`Text.trim_lower`, `Text.trim_upper`), and the small letters do not
depend on the case that there was (`Text.lower_upper`).

Calls inherit these laws as laws of runs. An operand may be any expression, with the fields that
it reads and the fault that it ends in, since a call evaluates it once and transforms what it
gives (`Builtin.Transforms`).
-/

namespace Criteria

namespace Text

theorem eq_iff_bytes {s t : Text} : s = t ↔ s.bytes = t.bytes := by
  rw [← Text.mk.injEq]

/-! ## Parts -/

/-- **A text starts with a part** exactly if it is the part followed by something. -/
theorem startsWith_iff (s part : Text) : s.startsWith part = true ↔ ∃ t, s = part ++ t := by
  rw [startsWith, List.isPrefixOf_iff_prefix]
  constructor
  · rintro ⟨rest, h⟩
    exact ⟨⟨rest⟩, eq_iff_bytes.mpr h.symm⟩
  · rintro ⟨t, rfl⟩
    exact ⟨t.bytes, rfl⟩

/-- **A text ends with a part** exactly if it is something followed by the part. -/
theorem endsWith_iff (s part : Text) : s.endsWith part = true ↔ ∃ t, s = t ++ part := by
  rw [endsWith, List.isSuffixOf_iff_suffix]
  constructor
  · rintro ⟨before, h⟩
    exact ⟨⟨before⟩, eq_iff_bytes.mpr h.symm⟩
  · rintro ⟨t, rfl⟩
    exact ⟨t.bytes, rfl⟩

/-- The search from position to position finds the contiguous parts. -/
theorem occursIn_iff (part bytes : List UInt8) :
    occursIn part bytes = true ↔ part <:+: bytes := by
  induction bytes with
  | nil => rw [occursIn, List.isEmpty_iff, List.infix_nil]
  | cons b rest ih =>
    rw [occursIn, Bool.or_eq_true, List.isPrefixOf_iff_prefix, ih, List.infix_cons_iff]

/-- **A text contains a part** exactly if it is the part between two texts. -/
theorem contains_iff (s part : Text) : s.contains part = true ↔ ∃ t u, s = t ++ part ++ u := by
  rw [contains, occursIn_iff]
  constructor
  · rintro ⟨before, rest, h⟩
    exact ⟨⟨before⟩, ⟨rest⟩, eq_iff_bytes.mpr h.symm⟩
  · rintro ⟨t, u, rfl⟩
    exact ⟨t.bytes, u.bytes, rfl⟩

/-! ## White space -/

/-- The bytes of ASCII white space. -/
def blanks : List UInt8 := [9, 10, 11, 12, 13, 32]

/-- **A blank text** has no other bytes than white space. -/
def Blank (t : Text) : Prop := ∀ b ∈ t.bytes, b ∈ blanks

/-- **A bare text** is empty, or starts and ends with a byte that is no white space. -/
structure Bare (t : Text) : Prop where
  /-- The first byte, if there is one. -/
  first : ∀ b ∈ t.bytes.head?, b ∉ blanks
  /-- The last byte, if there is one. -/
  last : ∀ b ∈ t.bytes.getLast?, b ∉ blanks

theorem isSpace_iff_toNat (b : UInt8) :
    isSpace b = true ↔ b.toNat = 32 ∨ (9 ≤ b.toNat ∧ b.toNat ≤ 13) := by
  rw [isSpace, Bool.or_eq_true, Bool.and_eq_true, beq_iff_eq, decide_eq_true_iff,
    decide_eq_true_iff, ← UInt8.toNat_inj, UInt8.le_iff_toNat_le, UInt8.le_iff_toNat_le]
  rfl

theorem isSpace_iff (b : UInt8) : isSpace b = true ↔ b ∈ blanks := by
  rw [isSpace_iff_toNat]
  simp only [blanks, List.mem_cons, List.not_mem_nil, or_false, ← UInt8.toNat_inj]
  show _ ↔ b.toNat = 9 ∨ b.toNat = 10 ∨ b.toNat = 11 ∨ b.toNat = 12 ∨ b.toNat = 13 ∨ b.toNat = 32
  omega

theorem isSpace_eq_false_iff (b : UInt8) : isSpace b = false ↔ b ∉ blanks := by
  rw [← isSpace_iff, Bool.not_eq_true]

/-- Trimming drops white space from the left, then from the right. -/
theorem bytes_trim (t : Text) :
    t.trim.bytes = (t.bytes.dropWhile isSpace).rdropWhile isSpace := rfl

theorem bare_trim (t : Text) : t.trim.Bare where
  first b hb := by
    -- the second scan keeps the byte that the first one stopped at
    have hstop := t.bytes.head?_dropWhile_not isSpace
    rw [bytes_trim] at hb
    obtain ⟨rest, hrest⟩ := List.rdropWhile_prefix isSpace (t.bytes.dropWhile isSpace)
    rw [← hrest, List.head?_append, Option.mem_def.mp hb] at hstop
    exact (isSpace_eq_false_iff b).mp hstop
  last b hb := by
    rw [bytes_trim] at hb
    obtain ⟨hne, rfl⟩ := List.mem_getLast?_eq_getLast hb
    rw [← isSpace_iff]
    exact List.rdropWhile_last_not isSpace _ hne

/-- **A text is its trimmed form between two blank texts**, and nothing more can be trimmed. -/
theorem exists_trim (s : Text) :
    ∃ before after, s = before ++ s.trim ++ after ∧ before.Blank ∧ after.Blank ∧ s.trim.Bare := by
  refine ⟨⟨s.bytes.takeWhile isSpace⟩, ⟨(s.bytes.dropWhile isSpace).rtakeWhile isSpace⟩, ?_,
    fun b hb => (isSpace_iff b).mp (List.mem_takeWhile_imp hb),
    fun b hb => (isSpace_iff b).mp (List.mem_rtakeWhile_imp hb), bare_trim s⟩
  rw [eq_iff_bytes, bytes_append, bytes_append, bytes_trim, List.append_assoc,
    List.rdropWhile_append_rtakeWhile, List.takeWhile_append_dropWhile]

/-- There is nothing to trim of a bare text. -/
theorem Bare.trim_eq {t : Text} (h : t.Bare) : t.trim = t := by
  have hleft : t.bytes.dropWhile isSpace = t.bytes := by
    refine List.dropWhile_eq_self_iff.mpr fun hne => ?_
    rw [isSpace_iff]
    exact h.first _ (List.head?_eq_getElem? ▸ List.getElem?_eq_getElem hne)
  have hright : t.bytes.rdropWhile isSpace = t.bytes := by
    refine List.rdropWhile_eq_self_iff.mpr fun hne => ?_
    rw [isSpace_iff]
    exact h.last _ (List.getLast_mem_getLast? hne)
  rw [eq_iff_bytes, bytes_trim, hleft, hright]

theorem trim_trim (t : Text) : t.trim.trim = t.trim := (bare_trim t).trim_eq

/-! ## Letter case -/

/-- A small letter and the capital one are 32 bytes apart. -/
theorem toNat_upperByte (b : UInt8) :
    (upperByte b).toNat = if 97 ≤ b.toNat ∧ b.toNat ≤ 122 then b.toNat - 32 else b.toNat := by
  have hsmall : 97 ≤ b ∧ b ≤ 122 ↔ 97 ≤ b.toNat ∧ b.toNat ≤ 122 := by
    rw [UInt8.le_iff_toNat_le, UInt8.le_iff_toNat_le]
    rfl
  unfold upperByte
  split
  case isTrue h =>
    rw [if_pos (hsmall.mp h)]
    refine UInt8.toNat_sub_of_le b 32 (UInt8.le_iff_toNat_le.mpr ?_)
    show 32 ≤ b.toNat
    have := hsmall.mp h
    omega
  case isFalse h => rw [if_neg (mt hsmall.mpr h)]

open Condition (SameLetter SameLetters sameLetter_iff toNat_lowerByte lowerByte_eq_iff
  lower_eq_iff)

theorem sameLetter_lowerByte (b : UInt8) : SameLetter b (lowerByte b) := by
  rw [sameLetter_iff, toNat_lowerByte]
  split <;> omega

theorem sameLetter_upperByte (b : UInt8) : SameLetter b (upperByte b) := by
  rw [sameLetter_iff, toNat_upperByte]
  split <;> omega

/-- **Small letters change letters only**, and no byte is moved. -/
theorem sameLetters_lower (t : Text) : SameLetters t t.lower :=
  List.forall₂_map_right_iff.mpr (List.forall₂_same.mpr fun b _ => sameLetter_lowerByte b)

/-- **Capital letters change letters only**, and no byte is moved. -/
theorem sameLetters_upper (t : Text) : SameLetters t t.upper :=
  List.forall₂_map_right_iff.mpr (List.forall₂_same.mpr fun b _ => sameLetter_upperByte b)

theorem size_lower (t : Text) : t.lower.size = t.size := List.length_map _

theorem size_upper (t : Text) : t.upper.size = t.size := List.length_map _

/-- No capital is left among the small letters. -/
theorem not_capital_of_mem_lower {t : Text} {b : UInt8} (h : b ∈ t.lower.bytes) :
    ¬ (65 ≤ b.toNat ∧ b.toNat ≤ 90) := by
  obtain ⟨a, -, rfl⟩ := List.mem_map.mp h
  rw [toNat_lowerByte]
  split <;> omega

/-- No small letter is left among the capitals. -/
theorem not_small_of_mem_upper {t : Text} {b : UInt8} (h : b ∈ t.upper.bytes) :
    ¬ (97 ≤ b.toNat ∧ b.toNat ≤ 122) := by
  obtain ⟨a, -, rfl⟩ := List.mem_map.mp h
  rw [toNat_upperByte]
  split <;> omega

/-- **Small letters do not depend on the case that there was.** -/
theorem lower_of_sameLetters {s t : Text} (h : SameLetters s t) : t.lower = s.lower :=
  ((lower_eq_iff s t).mpr h).symm

theorem lower_upper (t : Text) : t.upper.lower = t.lower :=
  lower_of_sameLetters (sameLetters_upper t)

theorem lower_lower (t : Text) : t.lower.lower = t.lower :=
  lower_of_sameLetters (sameLetters_lower t)

theorem upper_upper (t : Text) : t.upper.upper = t.upper := by
  rw [eq_iff_bytes]
  refine (List.map_map ..).trans (List.map_congr_left fun b _ => ?_)
  rw [Function.comp_apply, ← UInt8.toNat_inj, toNat_upperByte (upperByte b), toNat_upperByte]
  split_ifs <;> omega

/-! ## White space and letter case -/

/-- **Trimming commutes with a change of bytes** that makes no white space and spoils none. -/
theorem trim_map {f : UInt8 → UInt8} (hf : ∀ b, isSpace (f b) = isSpace b) (t : Text) :
    trim ⟨t.bytes.map f⟩ = ⟨t.trim.bytes.map f⟩ := by
  have hcomp : isSpace ∘ f = isSpace := funext hf
  rw [eq_iff_bytes]
  show (((t.bytes.map f).dropWhile isSpace).reverse.dropWhile isSpace).reverse = _
  rw [List.dropWhile_map, hcomp, ← List.map_reverse, List.dropWhile_map, hcomp,
    ← List.map_reverse]
  rfl

theorem trim_lower (t : Text) : t.lower.trim = t.trim.lower := by
  refine trim_map (fun b => ?_) t
  rw [Bool.eq_iff_iff, isSpace_iff_toNat, isSpace_iff_toNat, toNat_lowerByte]
  split <;> omega

theorem trim_upper (t : Text) : t.upper.trim = t.trim.upper := by
  refine trim_map (fun b => ?_) t
  rw [Bool.eq_iff_iff, isSpace_iff_toNat, isSpace_iff_toNat, toNat_upperByte]
  split <;> omega

end Text

/-! ## Calls -/

namespace Builtin

/-- **A function transforms strings**: it takes one value, does to a string what it does to
texts, and gives null of what is no string. -/
structure Transforms (f : Builtin) (change : Text → Text) : Prop where
  /-- It takes one value. -/
  arity : f.arity = 1
  /-- What it gives. -/
  apply (v : Value) : f.apply [v] = onString change v

theorem transforms_lower : lower.Transforms Text.lower := ⟨rfl, fun _ => rfl⟩

theorem transforms_upper : upper.Transforms Text.upper := ⟨rfl, fun _ => rfl⟩

theorem transforms_trim : trim.Transforms Text.trim := ⟨rfl, fun _ => rfl⟩

theorem onString_onString (g h : Text → Text) (v : Value) :
    onString g (onString h v) = onString (g ∘ h) v := by
  cases v <;> rfl

theorem onString_of_ne_string {v : Value} (h : ∀ t, v ≠ .string t) (change : Text → Text) :
    onString change v = .null := by
  cases v with
  | string t => exact absurd rfl (h t)
  | _ => rfl

end Builtin

namespace Expr

variable {r : Resolver} {value : Option Value} {a b : Expr} {v w : Value}

/-- **An expression has a value**, whatever it reads for it. -/
def HasValue (r : Resolver) (value : Option Value) (e : Expr) (v : Value) : Prop :=
  (evaluate r value e).outcome = .ok v

/-- **An expression tells whether** something is the case: it has a truth value, that of the
statement. -/
def Tells (r : Resolver) (value : Option Value) (e : Expr) (statement : Prop) : Prop :=
  ∃ b, HasValue r value e (.bool b) ∧ (b = true ↔ statement)

/-- A call of one value evaluates it and applies the function. -/
theorem evaluate_call_one {f : Builtin} (h : f.arity = 1) (a : Expr) :
    evaluate r value (.call f.name [a])
      = (evaluate r value a >>= fun v => .done (f.apply [v])) := by
  rw [evaluate_call, runCall, Builtin.ofName?_name]
  refine (if_pos h.symm).trans ?_
  rw [evaluateAll, Run.bind_bind]
  exact congrArg _ (funext fun v => rfl)

/-- A call of two values has what the function gives for them. -/
theorem HasValue.call_two {f : Builtin} (h : f.arity = 2) (ha : HasValue r value a v)
    (hb : HasValue r value b w) : HasValue r value (.call f.name [a, b]) (f.apply [v, w]) := by
  rw [HasValue, evaluate_call, runCall, Builtin.ofName?_name]
  refine (congrArg Run.outcome (if_pos h.symm)).trans ?_
  have hargs : (evaluateAll r value [a, b]).outcome = .ok [v, w] := by
    rw [evaluateAll, Run.outcome_bind_ok ha, evaluateAll, Run.outcome_bind, Run.outcome_bind_ok hb]
    rfl
  rw [Run.outcome_bind_ok hargs]
  rfl

section

variable {f g h : Builtin} {F G H : Text → Text}

/-- **A call that transforms strings** transforms what its operand gives. -/
theorem evaluate_transform (hf : f.Transforms F) (a : Expr) :
    evaluate r value (.call f.name [a])
      = (evaluate r value a >>= fun v => .done (Builtin.onString F v)) := by
  rw [evaluate_call_one hf.arity]
  exact congrArg _ (funext fun v => congrArg Run.done (hf.apply v))

/-- One transformation after another is that of both. -/
theorem evaluate_transform_transform (hf : f.Transforms F) (hg : g.Transforms G) (a : Expr) :
    evaluate r value (.call f.name [.call g.name [a]])
      = (evaluate r value a >>= fun v => .done (Builtin.onString (F ∘ G) v)) := by
  rw [evaluate_transform hf, evaluate_transform hg, Run.bind_bind]
  exact congrArg _ (funext fun v => congrArg Run.done (Builtin.onString_onString F G v))

/-- **A law of texts is a law of calls**: two transformations that are one. -/
theorem evaluate_collapse (hf : f.Transforms F) (hg : g.Transforms G) (hh : h.Transforms H)
    (law : ∀ t, F (G t) = H t) (a : Expr) :
    evaluate r value (.call f.name [.call g.name [a]]) = evaluate r value (.call h.name [a]) := by
  rw [evaluate_transform_transform hf hg, evaluate_transform hh, show F ∘ G = H from funext law]

/-- A law of texts is a law of calls: two transformations in either order. -/
theorem evaluate_commute (hf : f.Transforms F) (hg : g.Transforms G)
    (law : ∀ t, F (G t) = G (F t)) (a : Expr) :
    evaluate r value (.call f.name [.call g.name [a]])
      = evaluate r value (.call g.name [.call f.name [a]]) := by
  rw [evaluate_transform_transform hf hg, evaluate_transform_transform hg hf,
    show F ∘ G = G ∘ F from funext law]

theorem HasValue.transform (hf : f.Transforms F) (ha : HasValue r value a v) :
    HasValue r value (.call f.name [a]) (Builtin.onString F v) := by
  rw [HasValue, evaluate_transform hf, Run.outcome_bind_ok ha]
  rfl

/-- A transformation that keeps the number of bytes keeps the length. -/
theorem HasValue.outcome_length_transform (hf : f.Transforms F) (size : ∀ t, (F t).size = t.size)
    {s : Text} (ha : HasValue r value a (.string s)) :
    (evaluate r value (.call Builtin.length.name [.call f.name [a]])).outcome
      = (evaluate r value (.call Builtin.length.name [a])).outcome := by
  have hone : Builtin.length.arity = 1 := rfl
  rw [evaluate_call_one hone, evaluate_call_one hone, Run.outcome_bind_ok (ha.transform hf),
    Run.outcome_bind_ok ha]
  exact congrArg (fun n => Except.ok (Value.size n)) (size s)

end

/-- **The laws of the calls on strings**, of any operands that have values. -/
structure StringLaws (r : Resolver) (value : Option Value) : Prop where
  /-- Starting with a string is being it followed by something. -/
  startsWith (a b : Expr) (v w : Value) : HasValue r value a v → HasValue r value b w →
    Tells r value (.call "STARTS_WITH" [a, b])
      (∃ s part, v = .string s ∧ w = .string part ∧ ∃ t, s = part ++ t)
  /-- Ending with a string is being it preceded by something. -/
  endsWith (a b : Expr) (v w : Value) : HasValue r value a v → HasValue r value b w →
    Tells r value (.call "ENDS_WITH" [a, b])
      (∃ s part, v = .string s ∧ w = .string part ∧ ∃ t, s = t ++ part)
  /-- Containing a string is having it between two strings. An array contains its elements. -/
  contains (a b : Expr) (v w : Value) : HasValue r value a v → HasValue r value b w →
    Tells r value (.call "CONTAINS" [a, b])
      ((∃ s part, v = .string s ∧ w = .string part ∧ ∃ t u, s = t ++ part ++ u) ∨
        ∃ xs, v = .array xs ∧ ∃ x ∈ xs, x.eq w = true)
  /-- Trimming takes the white space at the two ends and leaves a bare string. -/
  trim (a : Expr) (s : Text) : HasValue r value a (.string s) →
    ∃ before bare after, HasValue r value (.call "TRIM" [a]) (.string bare) ∧
      s = before ++ bare ++ after ∧ before.Blank ∧ after.Blank ∧ bare.Bare
  /-- Capitals become the small letters, other bytes stay. -/
  lower (a : Expr) (s : Text) : HasValue r value a (.string s) →
    ∃ t, HasValue r value (.call "LOWER" [a]) (.string t) ∧ Condition.SameLetters s t ∧
      ∀ b ∈ t.bytes, ¬ (65 ≤ b.toNat ∧ b.toNat ≤ 90)
  /-- Small letters become the capitals, other bytes stay. -/
  upper (a : Expr) (s : Text) : HasValue r value a (.string s) →
    ∃ t, HasValue r value (.call "UPPER" [a]) (.string t) ∧ Condition.SameLetters s t ∧
      ∀ b ∈ t.bytes, ¬ (97 ≤ b.toNat ∧ b.toNat ≤ 122)
  /-- Small letters keep the length. -/
  length_lower (a : Expr) (s : Text) : HasValue r value a (.string s) →
    (evaluate r value (.call "LENGTH" [.call "LOWER" [a]])).outcome
      = (evaluate r value (.call "LENGTH" [a])).outcome
  /-- Capitals keep the length. -/
  length_upper (a : Expr) (s : Text) : HasValue r value a (.string s) →
    (evaluate r value (.call "LENGTH" [.call "UPPER" [a]])).outcome
      = (evaluate r value (.call "LENGTH" [a])).outcome
  /-- What is no string is transformed into null. -/
  noString (a : Expr) (v : Value) : HasValue r value a v → (∀ s, v ≠ .string s) →
    HasValue r value (.call "TRIM" [a]) .null ∧ HasValue r value (.call "LOWER" [a]) .null ∧
      HasValue r value (.call "UPPER" [a]) .null
  /-- Trimming twice is trimming once. -/
  trim_trim (a : Expr) :
    evaluate r value (.call "TRIM" [.call "TRIM" [a]]) = evaluate r value (.call "TRIM" [a])
  /-- Small letters of small letters are the same. -/
  lower_lower (a : Expr) :
    evaluate r value (.call "LOWER" [.call "LOWER" [a]]) = evaluate r value (.call "LOWER" [a])
  /-- Capitals of capitals are the same. -/
  upper_upper (a : Expr) :
    evaluate r value (.call "UPPER" [.call "UPPER" [a]]) = evaluate r value (.call "UPPER" [a])
  /-- Small letters do not depend on the case that there was. -/
  lower_upper (a : Expr) :
    evaluate r value (.call "LOWER" [.call "UPPER" [a]]) = evaluate r value (.call "LOWER" [a])
  /-- Trimming and small letters may change places. -/
  trim_lower (a : Expr) : evaluate r value (.call "TRIM" [.call "LOWER" [a]])
    = evaluate r value (.call "LOWER" [.call "TRIM" [a]])
  /-- Trimming and capitals may change places. -/
  trim_upper (a : Expr) : evaluate r value (.call "TRIM" [.call "UPPER" [a]])
    = evaluate r value (.call "UPPER" [.call "TRIM" [a]])

/-- A test of two strings is false of other values. -/
theorem tells_onStrings {f : Builtin} {test : Text → Text → Bool} {P : Text → Text → Prop}
    (arity : f.arity = 2) (apply : ∀ v w, f.apply [v, w] = Builtin.onStrings test v w)
    (spec : ∀ s t, test s t = true ↔ P s t) (ha : HasValue r value a v)
    (hb : HasValue r value b w) :
    Tells r value (.call f.name [a, b]) (∃ s t, v = .string s ∧ w = .string t ∧ P s t) := by
  have hcall := ha.call_two arity hb
  rw [apply] at hcall
  cases v with
  | string s =>
    cases w with
    | string t => exact ⟨_, hcall, by simp [spec]⟩
    | _ => exact ⟨_, hcall, by simp⟩
  | _ => exact ⟨_, hcall, by simp⟩

/-- A string contains parts, an array contains elements, and no other value contains any. -/
theorem tells_contains (ha : HasValue r value a v) (hb : HasValue r value b w) :
    Tells r value (.call Builtin.contains.name [a, b])
      ((∃ s part, v = .string s ∧ w = .string part ∧ ∃ t u, s = t ++ part ++ u) ∨
        ∃ xs, v = .array xs ∧ ∃ x ∈ xs, x.eq w = true) := by
  have hcall : HasValue r value (.call Builtin.contains.name [a, b]) (Builtin.containsIn v w) :=
    ha.call_two rfl hb
  cases v with
  | string s =>
    cases w with
    | string t => exact ⟨_, hcall, by simp [Text.contains_iff]⟩
    | _ => exact ⟨_, hcall, by simp⟩
  | array xs => exact ⟨_, hcall, by simp [Value.occurs]⟩
  | _ => exact ⟨_, hcall, by simp⟩

open Builtin (transforms_trim transforms_lower transforms_upper onString_of_ne_string)

/-- **The functions of strings do what their names say**, to all strings of bytes, and leave
alone what is no string. -/
theorem string_laws (r : Resolver) (value : Option Value) : StringLaws r value where
  startsWith a b v w :=
    tells_onStrings (f := .startsWith) rfl (fun _ _ => rfl) Text.startsWith_iff
  endsWith a b v w :=
    tells_onStrings (f := .endsWith) rfl (fun _ _ => rfl) Text.endsWith_iff
  contains a b v w := tells_contains
  trim a s ha := by
    obtain ⟨before, after, hs, hbefore, hafter, hbare⟩ := s.exists_trim
    exact ⟨before, s.trim, after, ha.transform transforms_trim, hs, hbefore, hafter, hbare⟩
  lower a s ha :=
    ⟨s.lower, ha.transform transforms_lower, s.sameLetters_lower,
      fun b => Text.not_capital_of_mem_lower⟩
  upper a s ha :=
    ⟨s.upper, ha.transform transforms_upper, s.sameLetters_upper,
      fun b => Text.not_small_of_mem_upper⟩
  length_lower a s ha := ha.outcome_length_transform transforms_lower Text.size_lower
  length_upper a s ha := ha.outcome_length_transform transforms_upper Text.size_upper
  noString a v ha hv := by
    have hnull {f : Builtin} {F : Text → Text} (hf : f.Transforms F) :
        HasValue r value (.call f.name [a]) .null :=
      onString_of_ne_string hv F ▸ ha.transform hf
    exact ⟨hnull transforms_trim, hnull transforms_lower, hnull transforms_upper⟩
  trim_trim := evaluate_collapse transforms_trim transforms_trim transforms_trim Text.trim_trim
  lower_lower :=
    evaluate_collapse transforms_lower transforms_lower transforms_lower Text.lower_lower
  upper_upper :=
    evaluate_collapse transforms_upper transforms_upper transforms_upper Text.upper_upper
  lower_upper :=
    evaluate_collapse transforms_lower transforms_upper transforms_lower Text.lower_upper
  trim_lower := evaluate_commute transforms_trim transforms_lower Text.trim_lower
  trim_upper := evaluate_commute transforms_trim transforms_upper Text.trim_upper

end Expr

end Criteria
