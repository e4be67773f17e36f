import Criteria.Text
import Mathlib.Data.List.Forall2

/-!
# Texts that are UTF-8

Whether bytes are UTF-8 is asked of one byte after the other: the first byte of a character says
in which ranges the bytes after it have to be (`Text.rangesAfter`). What comes of it is meant by
the standard library's encoding of characters: a text is UTF-8 exactly if it is the text of a
string of characters (`Text.isUtf8_iff`). In particular every literal is.

The bytes of one character are those of `String.utf8EncodeChar`, in four lengths. From the first
byte on, ranges and encoding say the same (`Text.exists_char`, `Text.exists_ranges`); the rest is
an induction on the characters.
-/

namespace Criteria

namespace Text

/-- **Bytes in their ranges.** -/
abbrev InRanges (ranges : List ByteRange) (bytes : List UInt8) : Prop :=
  List.Forall₂ (fun range b => range.1 ≤ b ∧ b ≤ range.2) ranges bytes

/-- The bytes that are asked for are in their ranges, and characters follow. -/
theorem isUtf8After_iff (ranges : List ByteRange) (bytes : List UInt8) :
    isUtf8After ranges bytes = true
      ↔ ∃ tail rest, bytes = tail ++ rest ∧ InRanges ranges tail ∧ isUtf8After [] rest = true := by
  induction ranges generalizing bytes with
  | nil => simp
  | cons range ranges ih =>
    cases bytes with
    | nil => simp [isUtf8After]
    | cons b bytes =>
      rw [isUtf8After, Bool.and_eq_true, Bool.and_eq_true, decide_eq_true_eq, decide_eq_true_eq,
        ih]
      constructor
      · rintro ⟨hb, tail, rest, rfl, htail, hrest⟩
        exact ⟨b :: tail, rest, rfl, .cons hb htail, hrest⟩
      · rintro ⟨tail, rest, hbytes, htail, hrest⟩
        cases htail with
        | cons hb htail =>
          obtain ⟨rfl, rfl⟩ := List.cons.inj hbytes
          exact ⟨hb, _, rest, rfl, htail, hrest⟩

/-! ## One character -/

/-- The character of a number that can be one. -/
theorem exists_char_of_valid {n : ℕ} (h : n < 0xD800 ∨ 0xDFFF < n ∧ n < 0x110000) :
    ∃ c : Char, c.val.toNat = n := by
  refine ⟨⟨UInt32.ofNat n, ?_⟩, UInt32.toNat_ofNat_of_lt' ?_⟩
  · show (UInt32.ofNat n).toNat.isValidChar
    rw [UInt32.toNat_ofNat_of_lt' (show n < 2 ^ 32 by omega)]
    exact h
  · show n < 2 ^ 32
    omega

/-- A byte is the one of its number. -/
theorem ofNat_eq_of_toNat {b : UInt8} {n : ℕ} (h : n = b.toNat) : UInt8.ofNat n = b := by
  rw [h]
  exact UInt8.ofNat_toNat

theorem exists_char_of_one {b : UInt8} (hb : b.toNat < 0x80) :
    ∃ c, String.utf8EncodeChar c = [b] := by
  obtain ⟨c, hc⟩ := exists_char_of_valid (n := b.toNat) (by omega)
  refine ⟨c, ?_⟩
  rw [String.utf8EncodeChar, hc, if_pos (by omega), ofNat_eq_of_toNat rfl]

theorem exists_char_of_two {b x : UInt8} (hb : 0xC2 ≤ b.toNat ∧ b.toNat < 0xE0)
    (hx : 0x80 ≤ x.toNat ∧ x.toNat ≤ 0xBF) : ∃ c, String.utf8EncodeChar c = [b, x] := by
  obtain ⟨c, hc⟩ := exists_char_of_valid (n := (b.toNat - 0xC0) * 64 + (x.toNat - 0x80)) (by omega)
  refine ⟨c, ?_⟩
  rw [String.utf8EncodeChar, hc, if_neg (by omega), if_pos (by omega), ofNat_eq_of_toNat (b := b),
    ofNat_eq_of_toNat (b := x)] <;> omega

theorem exists_char_of_three {b x y : UInt8} (hb : 0xE0 ≤ b.toNat ∧ b.toNat < 0xF0)
    (hx : 0x80 ≤ x.toNat ∧ x.toNat ≤ 0xBF) (hy : 0x80 ≤ y.toNat ∧ y.toNat ≤ 0xBF)
    (hlong : b.toNat = 0xE0 → 0xA0 ≤ x.toNat) (hvalid : b.toNat = 0xED → x.toNat ≤ 0x9F) :
    ∃ c, String.utf8EncodeChar c = [b, x, y] := by
  obtain ⟨c, hc⟩ := exists_char_of_valid
    (n := (b.toNat - 0xE0) * 4096 + (x.toNat - 0x80) * 64 + (y.toNat - 0x80)) (by omega)
  refine ⟨c, ?_⟩
  rw [String.utf8EncodeChar, hc, if_neg (by omega), if_neg (by omega), if_pos (by omega),
    ofNat_eq_of_toNat (b := b), ofNat_eq_of_toNat (b := x), ofNat_eq_of_toNat (b := y)] <;> omega

theorem exists_char_of_four {b x y z : UInt8} (hb : 0xF0 ≤ b.toNat ∧ b.toNat ≤ 0xF4)
    (hx : 0x80 ≤ x.toNat ∧ x.toNat ≤ 0xBF) (hy : 0x80 ≤ y.toNat ∧ y.toNat ≤ 0xBF)
    (hz : 0x80 ≤ z.toNat ∧ z.toNat ≤ 0xBF) (hlong : b.toNat = 0xF0 → 0x90 ≤ x.toNat)
    (hvalid : b.toNat = 0xF4 → x.toNat ≤ 0x8F) :
    ∃ c, String.utf8EncodeChar c = [b, x, y, z] := by
  obtain ⟨c, hc⟩ := exists_char_of_valid (n := (b.toNat - 0xF0) * 262144
    + (x.toNat - 0x80) * 4096 + (y.toNat - 0x80) * 64 + (z.toNat - 0x80)) (by omega)
  refine ⟨c, ?_⟩
  rw [String.utf8EncodeChar, hc, if_neg (by omega), if_neg (by omega), if_neg (by omega),
    ofNat_eq_of_toNat (b := b), ofNat_eq_of_toNat (b := x), ofNat_eq_of_toNat (b := y),
    ofNat_eq_of_toNat (b := z)] <;> omega

/-- **A first byte and the bytes in its ranges** are the encoding of a character. -/
theorem exists_char {b : UInt8} {ranges : List ByteRange} {tail : List UInt8}
    (h : rangesAfter b = some ranges) (htail : InRanges ranges tail) :
    ∃ c, String.utf8EncodeChar c = b :: tail := by
  simp only [rangesAfter, tailRange, UInt8.lt_iff_toNat_lt, UInt8.toNat_inj.symm,
    UInt8.reduceToNat] at h
  split_ifs at h
  all_goals
    obtain rfl := Option.some.inj h
    simp only [InRanges, List.forall₂_cons_left_iff, List.forall₂_nil_left_iff,
      UInt8.le_iff_toNat_le, UInt8.reduceToNat] at htail
  case pos =>
    obtain rfl := htail
    exact exists_char_of_one ‹_›
  case pos =>
    obtain ⟨x, _, hx, rfl, rfl⟩ := htail
    exact exists_char_of_two (by omega) hx
  case pos | pos | pos =>
    obtain ⟨x, _, hx, ⟨y, _, hy, rfl, rfl⟩, rfl⟩ := htail
    exact exists_char_of_three (by omega) (by omega) hy (by omega) (by omega)
  case pos | pos | pos =>
    obtain ⟨x, _, hx, ⟨y, _, hy, ⟨z, _, hz, rfl, rfl⟩, rfl⟩, rfl⟩ := htail
    exact exists_char_of_four (by omega) (by omega) hy hz (by omega) (by omega)

/-- The number of a byte that is given by its number. -/
theorem toNat_byte {n : ℕ} (h : n < 256) : (UInt8.ofNat n).toNat = n :=
  UInt8.toNat_ofNat_of_lt' h

/-- The bytes that a character goes on with. -/
theorem tailRange_byte (n : ℕ) :
    tailRange.1 ≤ UInt8.ofNat (n % 64 + 128) ∧ UInt8.ofNat (n % 64 + 128) ≤ tailRange.2 := by
  simp only [tailRange, UInt8.le_iff_toNat_le, UInt8.reduceToNat, toNat_byte (n := n % 64 + 128)
    (by omega)]
  omega

theorem rangesAfter_of_one {b : UInt8} (hb : b.toNat < 0x80) : rangesAfter b = some [] :=
  if_pos hb

theorem rangesAfter_of_two {b : UInt8} (hb : 0xC2 ≤ b.toNat ∧ b.toNat < 0xE0) :
    rangesAfter b = some [tailRange] := by
  simp only [rangesAfter, UInt8.lt_iff_toNat_lt, UInt8.reduceToNat]
  rw [if_neg (by omega), if_neg (by omega), if_pos hb.2]

theorem rangesAfter_of_three {b : UInt8} (hb : 0xE0 ≤ b.toNat ∧ b.toNat < 0xF0) :
    rangesAfter b = some [if b.toNat = 0xE0 then (0xA0, 0xBF)
      else if b.toNat = 0xED then (0x80, 0x9F) else tailRange, tailRange] := by
  simp only [rangesAfter, UInt8.lt_iff_toNat_lt, UInt8.toNat_inj.symm, UInt8.reduceToNat]
  rw [if_neg (by omega), if_neg (by omega), if_neg (by omega), if_pos hb.2]
  split_ifs <;> rfl

theorem rangesAfter_of_four {b : UInt8} (hb : 0xF0 ≤ b.toNat ∧ b.toNat ≤ 0xF4) :
    rangesAfter b = some [if b.toNat = 0xF0 then (0x90, 0xBF)
      else if b.toNat = 0xF4 then (0x80, 0x8F) else tailRange, tailRange, tailRange] := by
  simp only [rangesAfter, UInt8.lt_iff_toNat_lt, UInt8.toNat_inj.symm, UInt8.reduceToNat]
  split_ifs <;> first | rfl | omega

/-- **The encoding of a character** is a first byte and bytes in its ranges. -/
theorem exists_ranges (c : Char) : ∃ b ranges tail, String.utf8EncodeChar c = b :: tail ∧
    rangesAfter b = some ranges ∧ InRanges ranges tail := by
  have hvalid : c.val.toNat < 0xD800 ∨ 0xDFFF < c.val.toNat ∧ c.val.toNat < 0x110000 := c.valid
  unfold String.utf8EncodeChar
  generalize c.val.toNat = n at hvalid
  dsimp only
  split_ifs with hone htwo hthree
  · refine ⟨_, _, _, rfl, rangesAfter_of_one ?_, .nil⟩
    rw [toNat_byte] <;> omega
  · refine ⟨_, _, _, rfl, rangesAfter_of_two ?_, .cons (tailRange_byte n) .nil⟩
    rw [toNat_byte] <;> omega
  · have hfirst : (UInt8.ofNat (n / 4096 % 16 + 224)).toNat = n / 4096 % 16 + 224 :=
      toNat_byte (by omega)
    have hsecond : (UInt8.ofNat (n / 64 % 64 + 128)).toNat = n / 64 % 64 + 128 :=
      toNat_byte (by omega)
    refine ⟨_, _, _, rfl, rangesAfter_of_three (by omega),
      .cons ?_ (.cons (tailRange_byte n) .nil)⟩
    rw [hfirst]
    split_ifs
    · simp only [UInt8.le_iff_toNat_le, UInt8.reduceToNat]
      omega
    · simp only [UInt8.le_iff_toNat_le, UInt8.reduceToNat]
      omega
    · exact tailRange_byte (n / 64)
  · have hfirst : (UInt8.ofNat (n / 262144 % 8 + 240)).toNat = n / 262144 % 8 + 240 :=
      toNat_byte (by omega)
    have hsecond : (UInt8.ofNat (n / 4096 % 64 + 128)).toNat = n / 4096 % 64 + 128 :=
      toNat_byte (by omega)
    refine ⟨_, _, _, rfl, rangesAfter_of_four (by omega),
      .cons ?_ (.cons (tailRange_byte (n / 64)) (.cons (tailRange_byte n) .nil))⟩
    rw [hfirst]
    split_ifs
    · simp only [UInt8.le_iff_toNat_le, UInt8.reduceToNat]
      omega
    · simp only [UInt8.le_iff_toNat_le, UInt8.reduceToNat]
      omega
    · exact tailRange_byte (n / 4096)

/-! ## Strings of characters -/

/-- **A character** may come first. -/
theorem isUtf8After_char (c : Char) (rest : List UInt8) :
    isUtf8After [] (String.utf8EncodeChar c ++ rest) = isUtf8After [] rest := by
  obtain ⟨b, ranges, tail, hc, hranges, htail⟩ := exists_ranges c
  rw [hc, List.cons_append, isUtf8After, hranges]
  dsimp only
  rw [Bool.eq_iff_iff, isUtf8After_iff]
  constructor
  · rintro ⟨tail', rest', heq, htail', hrest'⟩
    obtain ⟨-, rfl⟩ := List.append_inj heq (htail.length_eq.symm.trans htail'.length_eq)
    exact hrest'
  · exact fun hrest => ⟨tail, rest, rfl, htail, hrest⟩

/-- The text of characters is UTF-8, -/
theorem isUtf8After_flatMap (cs : List Char) :
    isUtf8After [] (cs.flatMap String.utf8EncodeChar) = true := by
  induction cs with
  | nil => rfl
  | cons c cs ih => rw [List.flatMap_cons, isUtf8After_char, ih]

/-- and what is UTF-8 is the text of characters. -/
theorem exists_chars {bytes : List UInt8} (h : isUtf8After [] bytes = true) :
    ∃ cs : List Char, bytes = cs.flatMap String.utf8EncodeChar := by
  induction hlength : bytes.length using Nat.strongRecOn generalizing bytes with
  | ind n ih =>
    cases bytes with
    | nil => exact ⟨[], rfl⟩
    | cons b bytes =>
      rw [isUtf8After] at h
      split at h
      · cases h
      · rename_i ranges hranges
        obtain ⟨tail, rest, rfl, htail, hrest⟩ := (isUtf8After_iff ranges bytes).mp h
        obtain ⟨c, hc⟩ := exists_char hranges htail
        obtain ⟨cs, rfl⟩ := ih rest.length
          (by rw [← hlength, List.length_cons, List.length_append]; omega) hrest rfl
        refine ⟨c :: cs, ?_⟩
        rw [List.flatMap_cons, hc, List.cons_append]

/-- **A text is UTF-8** exactly if it is the text of a string. -/
theorem isUtf8_iff (t : Text) : t.isUtf8 = true ↔ ∃ s : String, t = s := by
  constructor
  · intro h
    obtain ⟨cs, hcs⟩ := exists_chars h
    refine ⟨.ofList cs, ?_⟩
    rw [ofString, String.toList_ofList, ← hcs]
  · rintro ⟨s, rfl⟩
    exact isUtf8After_flatMap s.toList

/-- Every literal is UTF-8. -/
@[simp] theorem isUtf8_ofString (s : String) : (ofString s).isUtf8 = true :=
  (isUtf8_iff _).mpr ⟨s, rfl⟩

@[simp] theorem isUtf8_empty : empty.isUtf8 = true := rfl

/-- A byte that begins no character, a long form of a short one, and a surrogate. -/
example : isUtf8 ⟨[0xFF]⟩ = false ∧ isUtf8 ⟨[0xC0, 0x80]⟩ = false ∧
    isUtf8 ⟨[0xED, 0xA0, 0x80]⟩ = false := by decide

end Text

end Criteria
