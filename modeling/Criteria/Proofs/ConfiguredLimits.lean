import Criteria.Config
import Criteria.Proofs.BinaryOrder
import Criteria.Proofs.Integers
import Criteria.Proofs.Sequencing

/-!
# Limits from a configuration

A limit is read from a value by the conversion to a word, which takes every number and nothing
else. So an entry that is no number is the fault of a configuration, and an entry that is one
never is (`Config.loads_limits`). What becomes of a number depends on what it is. A natural
number below `2 ^ 64` is the limit that it says. A negative integer is wrapped around and becomes
an enormous limit; a fraction loses what is behind the point, and a fraction below one becomes
zero, which is no limit at all.

## Exactly which entries survive

The limit that is loaded is the number of the entry if and only if the entry is a natural number
below `2 ^ 64`, in whichever of the three kinds of numbers it is written. There is no reading of
an entry like `-1` under which a limit of `18446744073709551615` would be that number, and yet it
is what is loaded (`Config.not_limits_exact`).
-/

namespace Criteria

/-! ## Numbers and words -/

namespace Binary

theorem natAbs_signed (negative : Bool) (m : ℕ) : (signed negative m).natAbs = m := by
  cases negative <;> simp [signed]

theorem signed_mul (negative : Bool) (m n : ℕ) :
    signed negative (m * n) = signed negative m * n := by
  cases negative <;> simp [signed]

/-- **A power is its whole part** above the line, divided by the one below it. -/
theorem zpow_mul_power (e : ℤ) : (2 : ℚ) ^ e * (power 2 (-e) : ℕ) = (power 2 e : ℕ) := by
  have hone {d : ℤ} (hd : d ≤ 0) : power 2 d = 1 := by
    show 2 ^ d.toNat = 1
    rw [Int.toNat_of_nonpos hd, pow_zero]
  by_cases he : 0 ≤ e
  · rw [cast_power he, hone (Int.neg_nonpos_of_nonneg he), Nat.cast_one, mul_one]
  · have hneg : 0 ≤ -e := by omega
    rw [cast_power hneg, hone (by omega), Nat.cast_one, ← zpow_add₀ two_ne_zero, add_neg_cancel,
      zpow_zero]

/-- **A whole number is its integer part.** -/
theorem truncate?_of_toRat {x : Binary} (finite : x.stretch = 0) {n : ℤ} (h : x.toRat = n) :
    x.truncate? = some n := by
  cases x with
  | nan => cases finite
  | infinite negative => cases negative <;> cases finite
  | zero negative => exact congrArg some (Int.cast_injective (α := ℚ) h)
  | finite negative m e =>
    have hbelow : 0 < power 2 (-e) := Nat.pow_pos two_pos
    -- above the line stands what is below it, as many times as the number says
    have hline : signed negative (m * power 2 e) = n * (power 2 (-e) : ℕ) := by
      have hrat : (signed negative m : ℚ) * 2 ^ e = n := h
      have hcast : ((signed negative (m * power 2 e) : ℤ) : ℚ) = n * (power 2 (-e) : ℕ) := by
        rw [cast_signed, ← zpow_mul_power, ← mul_assoc, hrat]
      exact_mod_cast hcast
    have habs : m * power 2 e = n.natAbs * power 2 (-e) := by
      rw [← natAbs_signed negative (m * power 2 e), hline, Int.natAbs_mul, Int.natAbs_natCast]
    have hsign : signed negative n.natAbs = n := by
      rw [habs, signed_mul] at hline
      exact Int.eq_of_mul_eq_mul_right (Int.natCast_ne_zero.mpr hbelow.ne') hline
    show some (signed negative (m * power 2 e / power 2 (-e))) = some n
    rw [habs, Nat.mul_div_cancel _ hbelow, hsign]

end Binary

namespace Number

/-- **A number is a natural number**, in whichever kind it is written. -/
def IsNat : Number → ℕ → Prop
  | .int n, k => n.toInt = k
  | .uint n, k => n.toNat = k
  | .float x, k => x.val.stretch = 0 ∧ x.val.toRat = k

/-- The word that a number is converted to. -/
def word (n : Number) : UInt64 := ⟨(FixedInt.ofNumber ⟨false, .w64⟩ n).bits⟩

theorem cast_toNat_word (n : Number) :
    (n.word.toNat : ℤ) = (FixedInt.ofNumber ⟨false, .w64⟩ n).toInt := rfl

/-- **A signed integer is wrapped** around the words. -/
theorem toNat_word_int (n : Int64) : ((int n).word.toNat : ℤ) = n.toInt % 2 ^ 64 := by
  show ((BitVec.ofInt 64 n.toInt).toNat : ℤ) = _
  rw [BitVec.toNat_ofInt, Int.toNat_of_nonneg (Int.emod_nonneg _ (by decide))]
  rfl

/-- An unsigned integer is a word. -/
theorem word_uint (n : UInt64) : (uint n).word = n :=
  UInt64.toNat_inj.mp <| Int.natCast_inj.mp <|
    (cast_toNat_word (.uint n)).trans (FixedInt.toInt_wrap_word n.toNat_lt)

/-- **A floating-point number loses what is behind the point**, if what is left is a word. -/
theorem toNat_word_float {x : Double} {k : ℕ} (h : x.val.truncate? = some ↑k) (hk : k < 2 ^ 64) :
    (float x).word.toNat = k := by
  have hword : FixedInt.ofNumber ⟨false, .w64⟩ (.float x) = .wrap ⟨false, .w64⟩ k := by
    show FixedInt.ofBinary ⟨false, .w64⟩ x.val = _
    unfold FixedInt.ofBinary
    rw [h]
    show (if decide (0x8000000000000000 ≤ (k : ℤ)) = true
      then if (k : ℤ) < 0x10000000000000000 then FixedInt.wrap _ k else .wrap _ 0
      else if -0x8000000000000000 ≤ (k : ℤ) ∧ (k : ℤ) < 0x8000000000000000 then .wrap _ k
      else .wrap _ (-0x8000000000000000)) = _
    split
    case isTrue => exact if_pos (by omega)
    case isFalse hsmall =>
      rw [decide_eq_true_iff] at hsmall
      exact if_pos (by omega)
  have hint := cast_toNat_word (.float x)
  rw [hword, FixedInt.toInt_wrap_word hk] at hint
  exact_mod_cast hint

/-- **A number becomes itself** exactly if it is a natural number that is a word. -/
theorem isNat_word_iff (n : Number) : n.IsNat n.word.toNat ↔ ∃ k < 2 ^ 64, n.IsNat k := by
  refine ⟨fun h => ⟨_, n.word.toNat_lt, h⟩, ?_⟩
  rintro ⟨k, hk, h⟩
  suffices hword : n.word.toNat = k by rwa [hword]
  cases n with
  | int n =>
    have hmod := toNat_word_int n
    rw [show n.toInt = k from h] at hmod
    omega
  | uint n => rw [word_uint, show n.toNat = k from h]
  | float x => exact toNat_word_float (Binary.truncate?_of_toRat h.1 (by exact_mod_cast h.2)) hk

end Number

/-! ## Reading limits -/

namespace Config

/-- **The limits that a configuration has.** -/
inductive LimitName
  | pageSize | topCount

/-- The key of a limit in its section. -/
def LimitName.key : LimitName → Text
  | pageSize => "max_page_size"
  | topCount => "max_top_count"

/-- A limit among the limits. -/
def LimitName.of : LimitName → Limits → UInt64
  | pageSize => Limits.maxPageSize
  | topCount => Limits.maxTopCount

/-- **The entry of a limit** in a configuration, if there is one. -/
def given? (v : Value) (l : LimitName) : Option Value := (v.get? "limits").bind (·.get? l.key)

/-- **What a limit is loaded from**: no entry is no limit, and a number is its word. -/
def LoadedFrom : Option Value → UInt64 → Prop
  | none, limit => limit = 0
  | some v, limit => ∃ n, v = .number n ∧ limit = Number.word n

/-- **Every number is a word, and nothing else is.** -/
theorem word_eq_ok_iff (v : Value) (limit : UInt64) :
    (FieldType.countOfValue v).map (fun n => (⟨n.bits⟩ : UInt64)) = .ok limit
      ↔ ∃ n, v = .number n ∧ limit = n.word := by
  constructor
  · intro h
    cases v with
    | number n => exact ⟨n, rfl, (Except.ok.inj h).symm⟩
    | _ => cases h
  · rintro ⟨n, rfl, rfl⟩
    rfl

/-- **A setting is read from its section**, which is an object, and is the usual one if it has no
entry there. -/
theorem setting_eq_ok_iff {α : Type} (read : Value → Except Fault α) (part : Value) (key : Text)
    (usual a : α) :
    setting read part key usual = .ok a ↔ (∃ ms, part = .object ms) ∧
      match part.get? key with
      | none => a = usual
      | some v => read v = .ok a := by
  cases part with
  | object ms =>
    rw [and_iff_right ⟨ms, rfl⟩, setting, Value.get?]
    cases Value.member? key ms with
    | none => exact ⟨fun h => (Except.ok.inj h).symm, fun h => congrArg Except.ok h.symm⟩
    | some v => exact Iff.rfl
  | _ =>
    constructor
    · intro h
      cases h
    · rintro ⟨⟨ms, hms⟩, -⟩
      cases hms

theorem wordSetting_eq_ok_iff (part : Value) (key : Text) (limit : UInt64) :
    wordSetting part key = .ok limit
      ↔ (∃ ms, part = .object ms) ∧ LoadedFrom (part.get? key) limit := by
  rw [wordSetting, setting_eq_ok_iff]
  refine and_congr_right' ?_
  cases part.get? key with
  | none => exact Iff.rfl
  | some v => exact word_eq_ok_iff v limit

/-- **The limits are read** exactly if their section is an object and every entry a number. -/
theorem readLimits_eq_ok_iff (v : Value) (limits : Limits) :
    readLimits v = .ok limits ↔
      (∀ part ∈ v.get? "limits", ∃ ms, part = .object ms) ∧
        ∀ l : LimitName, LoadedFrom (given? v l) (l.of limits) := by
  unfold readLimits given?
  cases v.get? "limits" with
  | none =>
    constructor
    · rintro h
      cases h
      refine ⟨nofun, fun l => ?_⟩
      cases l <;> rfl
    · rintro ⟨-, h⟩
      obtain ⟨size, count⟩ := limits
      obtain rfl : size = 0 := h .pageSize
      obtain rfl : count = 0 := h .topCount
      rfl
  | some part =>
    constructor
    · intro h
      obtain ⟨size, hsize, h⟩ := exists_of_bind_eq_ok h
      obtain ⟨count, hcount, h⟩ := exists_of_bind_eq_ok h
      cases h
      obtain ⟨hobject, hsize⟩ := (wordSetting_eq_ok_iff ..).mp hsize
      obtain ⟨-, hcount⟩ := (wordSetting_eq_ok_iff ..).mp hcount
      refine ⟨fun _ hpart => Option.some.inj hpart ▸ hobject, fun l => ?_⟩
      cases l with
      | pageSize => exact hsize
      | topCount => exact hcount
    · rintro ⟨hobject, h⟩
      have hread (l : LimitName) : wordSetting part l.key = .ok (l.of limits) :=
        (wordSetting_eq_ok_iff ..).mpr ⟨hobject part rfl, h l⟩
      show (wordSetting part LimitName.pageSize.key >>= fun size =>
        wordSetting part LimitName.topCount.key >>= fun count => .ok (⟨size, count⟩ : Limits)) = _
      rw [hread, hread]
      rfl

/-! ## Reading configurations -/

/-- The two sections, one after the other. -/
def readSections (v : Value) : Except Fault Config := do
  let logging ← readLogging v
  let limits ← readLimits v
  .ok ⟨logging, limits⟩

/-- The outcome is that of the sections, with the fault of a configuration. -/
theorem outcome_ofValue (v : Value) :
    (ofValue v).outcome = (readSections v).mapError asConfigFault := by
  unfold ofValue readSections
  generalize (readLogging v >>= fun logging => readLimits v >>= fun limits =>
    Except.ok (⟨logging, limits⟩ : Config)) = sections
  cases sections <;> rfl

theorem outcome_ofValue_eq_ok_iff (v : Value) (c : Config) :
    (ofValue v).outcome = .ok c ↔ readLogging v = .ok c.logging ∧ readLimits v = .ok c.limits := by
  rw [outcome_ofValue]
  constructor
  · intro h
    cases hsections : readSections v with
    | error fault =>
      rw [hsections] at h
      cases h
    | ok config =>
      rw [hsections] at h
      cases h
      obtain ⟨logging, hlogging, hrest⟩ := exists_of_bind_eq_ok hsections
      obtain ⟨limits, hlimits, hrest⟩ := exists_of_bind_eq_ok hrest
      cases hrest
      exact ⟨hlogging, hlimits⟩
  · rintro ⟨hlogging, hlimits⟩
    rw [readSections, hlogging, hlimits]
    rfl

/-- **A reading that can only meet a value of another kind.** -/
def KindOnly {α : Type} (x : Except Fault α) : Prop :=
  ∀ fault, x = .error fault → fault = .value .kind

theorem KindOnly.bind {α β : Type} {x : Except Fault α} {f : α → Except Fault β} (hx : KindOnly x)
    (hf : ∀ a, KindOnly (f a)) : KindOnly (x >>= f) := by
  cases x with
  | error fault => exact fun fault' h => hx fault' (congrArg Except.error (Except.error.inj h))
  | ok a => exact hf a

theorem kindOnly_ok {α : Type} (a : α) : KindOnly (.ok a) := fun _ h => by cases h

theorem kindOnly_setting {α : Type} {read : Value → Except Fault α} (hread : ∀ v, KindOnly (read v))
    (part : Value) (key : Text) (usual : α) : KindOnly (setting read part key usual) := by
  cases part with
  | object ms =>
    rw [setting]
    cases Value.member? key ms with
    | none => exact kindOnly_ok usual
    | some v => exact hread v
  | _ =>
    intro fault h
    cases h
    rfl

theorem kindOnly_wordSetting (part : Value) (key : Text) : KindOnly (wordSetting part key) := by
  refine kindOnly_setting (fun v fault h => ?_) part key 0
  cases v <;> cases h <;> rfl

theorem kindOnly_textSetting (part : Value) (key usual : Text) :
    KindOnly (textSetting part key usual) := by
  refine kindOnly_setting (fun v fault h => ?_) part key usual
  cases v <;> cases h <;> rfl

/-- **Reading can only meet a value of another kind**, in either section. -/
theorem kindOnly_readSections (v : Value) : KindOnly (readSections v) := by
  have hlogging : KindOnly (readLogging v) := by
    unfold readLogging
    split
    · exact kindOnly_ok _
    · exact .bind (kindOnly_textSetting _ _ _) fun _ => .bind (kindOnly_textSetting _ _ _) fun _ =>
        .bind (kindOnly_textSetting _ _ _) fun _ => kindOnly_ok _
  have hlimits : KindOnly (readLimits v) := by
    unfold readLimits
    split
    · exact kindOnly_ok _
    · exact .bind (kindOnly_wordSetting _ _) fun _ => .bind (kindOnly_wordSetting _ _) fun _ =>
        kindOnly_ok _
  exact hlogging.bind fun _ => hlimits.bind fun _ => kindOnly_ok _

/-- **A configuration is read, or is at fault**: there is no other fault. -/
theorem exists_ok_or_fault (v : Value) :
    (∃ c, (ofValue v).outcome = .ok c) ∨ (ofValue v).outcome = .error (.configuration .kind) := by
  rw [outcome_ofValue]
  cases hsections : readSections v with
  | ok c => exact .inl ⟨c, rfl⟩
  | error fault =>
    rw [kindOnly_readSections v fault hsections]
    exact .inr rfl

/-! ## What becomes of an entry -/

/-- **How a configuration gets its limits.** -/
structure LoadsLimits (v : Value) : Prop where
  /-- An entry that is no number is the fault of a configuration. -/
  refused (l : LimitName) (w : Value) : given? v l = some w → (∀ n, w ≠ .number n) →
    (ofValue v).outcome = .error (.configuration .kind)
  /-- No number is: with entries that are numbers, there is a configuration, if the sections
  are there at all and the log can be read. -/
  accepted : (∃ log, readLogging v = .ok log) →
    (∀ part ∈ v.get? "limits", ∃ ms, part = .object ms) →
    (∀ l w, given? v l = some w → ∃ n, w = .number n) → ∃ c, (ofValue v).outcome = .ok c
  /-- Without an entry there is no limit. -/
  missing (c : Config) (l : LimitName) : (ofValue v).outcome = .ok c → given? v l = none →
    l.of c.limits = 0
  /-- The limit is the number of the entry exactly if that is a natural number below `2 ^ 64`. -/
  kept (c : Config) (l : LimitName) (n : Number) : (ofValue v).outcome = .ok c →
    given? v l = some (.number n) →
    (n.IsNat (l.of c.limits).toNat ↔ ∃ k < 2 ^ 64, n.IsNat k)
  /-- A negative integer is wrapped around. -/
  negative (c : Config) (l : LimitName) (n : Int64) : (ofValue v).outcome = .ok c →
    given? v l = some (.int n) → n.toInt < 0 → ((l.of c.limits).toNat : ℤ) = 2 ^ 64 + n.toInt
  /-- A floating-point number loses what is behind the point. -/
  fraction (c : Config) (l : LimitName) (x : Double) (k : ℕ) : (ofValue v).outcome = .ok c →
    given? v l = some (.float x) → x.val.truncate? = some ↑k → k < 2 ^ 64 →
    (l.of c.limits).toNat = k

/-- A limit that is loaded is the word of its entry. -/
theorem loadedFrom_of_ok {v : Value} {c : Config} (h : (ofValue v).outcome = .ok c)
    (l : LimitName) : LoadedFrom (given? v l) (l.of c.limits) :=
  ((readLimits_eq_ok_iff ..).mp ((outcome_ofValue_eq_ok_iff v c).mp h).2).2 l

/-- A limit with a number for its entry is the word of that. -/
theorem limit_eq_word {v : Value} {c : Config} (h : (ofValue v).outcome = .ok c) {l : LimitName}
    {n : Number} (hentry : given? v l = some (.number n)) : l.of c.limits = n.word := by
  have hloaded := loadedFrom_of_ok h l
  rw [hentry] at hloaded
  obtain ⟨m, hm, hlimit⟩ := hloaded
  cases hm
  exact hlimit

/-- **Limits are the words of their entries**, and exactly the entries that are no words are
altered. -/
theorem loads_limits (v : Value) : LoadsLimits v where
  refused l w hentry hw := by
    refine (exists_ok_or_fault v).resolve_left ?_
    rintro ⟨c, hc⟩
    have hloaded := loadedFrom_of_ok hc l
    rw [hentry] at hloaded
    obtain ⟨n, hn, -⟩ := hloaded
    exact hw n hn
  accepted hlog hobject hnumbers := by
    obtain ⟨log, hlog⟩ := hlog
    have hentry (l : LimitName) : ∃ limit, LoadedFrom (given? v l) limit := by
      cases hl : given? v l with
      | none => exact ⟨0, rfl⟩
      | some w =>
        obtain ⟨n, rfl⟩ := hnumbers l w hl
        exact ⟨n.word, n, rfl, rfl⟩
    obtain ⟨size, hsize⟩ := hentry .pageSize
    obtain ⟨count, hcount⟩ := hentry .topCount
    refine ⟨⟨log, size, count⟩, (outcome_ofValue_eq_ok_iff ..).mpr ⟨hlog, ?_⟩⟩
    refine (readLimits_eq_ok_iff ..).mpr ⟨hobject, fun l => ?_⟩
    cases l with
    | pageSize => exact hsize
    | topCount => exact hcount
  missing c l hc hentry := by
    have hloaded := loadedFrom_of_ok hc l
    rwa [hentry] at hloaded
  kept c l n hc hentry := by
    rw [limit_eq_word hc hentry]
    exact n.isNat_word_iff
  negative c l n hc hentry hn := by
    rw [limit_eq_word hc hentry, Number.toNat_word_int]
    have := n.le_toInt
    omega
  fraction c l x k hc hentry hx hk := by
    rw [limit_eq_word hc hentry]
    exact Number.toNat_word_float hx hk

/-- **A limit may be altered**: minus one is the largest word. -/
theorem not_limits_exact : ¬ ∀ (v : Value) (c : Config) (l : LimitName) (w : Value),
    (ofValue v).outcome = .ok c → given? v l = some w →
      ∃ n : Number, w = .number n ∧ n.isInteger = true ∧ n.IsNat (l.of c.limits).toNat := by
  intro h
  obtain ⟨n, hn, -, hnat⟩ := h (.object [("limits", .object [("max_page_size", .int (-1))])])
    { limits := { maxPageSize := 18446744073709551615 } } .pageSize (.int (-1)) rfl rfl
  cases hn
  cases hnat

end Config

end Criteria
