import Criteria.Proofs.Integers
import Criteria.Proofs.Refusing

/-!
# Sums in words

A table adds integers, signed or not, in a signed word. An integer is wrapped when it is taken
into the word, and so is every sum, so that what counts in the end is the exact sum alone: the
word agrees with it modulo `2 ^ 64` (`Table.foldl_add_integers`), whatever the sums on the way
have been. The result is the exact sum if that is a signed word, and only then
(`Table.sum_of_integers`).

A sum of unsigned integers from `2 ^ 63` on is not one, although it may be an unsigned word, as
its summands are. Its result is negative, and a single such integer is not its own sum
(`Table.not_sum_exact`).
-/

namespace Criteria

namespace Number

/-- The integer that a number is, and zero for a floating-point number. -/
def integer : Number → ℤ
  | .int n => n.toInt
  | .uint n => n.toNat
  | .float _ => 0

/-- **As a signed word an integer is wrapped.** -/
theorem signed_eq_ofInt {n : Number} (h : n.isInteger = true) : n.signed = .ofInt n.integer := by
  cases n with
  | int n => exact (Int64.ofInt_toInt n).symm
  | uint n =>
    refine Int64.toInt_inj.mp ?_
    show n.toInt64.toInt = (Int64.ofInt (n.toNat : ℤ)).toInt
    rw [Int64.toInt_ofInt]
    exact BitVec.toInt_eq_toNat_bmod n.toBitVec
  | float x => cases h

end Number

namespace Value

/-- What a value adds to a sum of integers; what is not a number adds nothing. -/
def addend : Value → ℤ
  | .number n => n.integer
  | _ => 0

/-- **A value that is no floating-point number.** -/
def IsExact (v : Value) : Prop := ∀ n, v = .number n → n.isInteger = true

/-- The exact sum of values. -/
def exactSum (vs : List Value) : ℤ := (vs.map addend).sum

end Value

namespace Table

open Value (exactSum)

/-! ## The running sum -/

/-- One more value adds to the word what it adds to the sum. -/
theorem add_exact {v : Value} (h : v.IsExact) (start : ℤ) :
    RunningSum.add (.whole (.ofInt start)) v = .whole (.ofInt (start + v.addend)) := by
  cases v with
  | number n =>
    have hinteger : n.isInteger = true := h n rfl
    show (if n.isInteger = true then RunningSum.whole (.ofInt start + n.signed) else _) = _
    rw [if_pos hinteger, Number.signed_eq_ofInt hinteger, ← Int64.ofInt_add]
    rfl
  | _ => exact congrArg (fun s => RunningSum.whole (.ofInt s)) (Int.add_zero start).symm

/-- **The running sum** is the exact sum, wrapped. -/
theorem foldl_add_integers {vs : List Value} (h : ∀ v ∈ vs, v.IsExact) :
    vs.foldl RunningSum.add (.whole 0) = .whole (.ofInt (exactSum vs)) := by
  have hfrom : ∀ start : ℤ, vs.foldl RunningSum.add (.whole (.ofInt start))
      = .whole (.ofInt (start + exactSum vs)) := by
    induction vs with
    | nil =>
      exact fun start => congrArg (fun s => RunningSum.whole (.ofInt s)) (Int.add_zero start).symm
    | cons v vs ih =>
      intro start
      rw [List.foldl_cons, add_exact (h v List.mem_cons_self),
        ih fun w hw => h w (List.mem_cons_of_mem v hw), Int.add_assoc]
      rfl
  have hall := hfrom 0
  rwa [Int.zero_add] at hall

/-! ## Sums of a table -/

variable {T : Type}

/-- **A field without floating-point numbers**, as a query sums it: its filter has a verdict on
every row, and every row that passes has a value in the field. -/
structure SumsExact (table : Table T) (q : Query) (keep : T → Bool) (val : T → Value) : Prop where
  /-- The query asks for a sum. -/
  operation : q.operation = .sum
  /-- The filter has a verdict. -/
  verdict : ∀ e ∈ table.rows, (passes table.bindings q.filter e).outcome = .ok (keep e)
  /-- The field has a value. -/
  value : ∃ field, q.targetField = some field ∧
    ∀ e ∈ table.rows, keep e = true → (table.bindings.valueOf e field).outcome = .ok (val e)
  /-- Every number among the values is an integer. -/
  exact : ∀ e ∈ table.rows, keep e = true → (val e).IsExact

/-- The values of the rows that pass. -/
def summed (table : Table T) (keep : T → Bool) (val : T → Value) : List Value :=
  (table.rows.filter keep).map val

/-- **A signed word for an integer**, which it is as far as a word can. -/
structure WordOf (w : Int64) (s : ℤ) : Prop where
  /-- It agrees with the integer modulo all that a word holds. -/
  modulo : w.toInt = s.bmod (2 ^ 64)
  /-- It is the integer exactly if that is a signed word. -/
  eq_iff : w.toInt = s ↔ -2 ^ 63 ≤ s ∧ s < 2 ^ 63
  /-- For what is only an unsigned word it is negative, -/
  negative : 2 ^ 63 ≤ s → s < 2 ^ 64 → w.toInt = s - 2 ^ 64
  /-- though the same bits without a sign are that. -/
  unsigned : 0 ≤ s → s < 2 ^ 64 → (w.toUInt64.toNat : ℤ) = s

theorem wordOf_ofInt (s : ℤ) : WordOf (.ofInt s) s := by
  have hmodulo : (Int64.ofInt s).toInt = s.bmod (2 ^ 64) := Int64.toInt_ofInt
  constructor
  case modulo => exact hmodulo
  case eq_iff =>
    rw [hmodulo, Int.bmod_def]
    omega
  case negative =>
    rw [hmodulo, Int.bmod_def]
    omega
  case unsigned =>
    intro hlower hupper
    have hbits : (Int64.ofInt s).toUInt64.toNat = (s % 2 ^ 64).toNat := BitVec.toNat_ofInt s
    rw [hbits, Int.emod_eq_of_lt hlower hupper, Int.toNat_of_nonneg hlower]

section

variable {table : Table T} {q : Query} {keep : T → Bool} {val : T → Value}
  (h : table.SumsExact q keep val)

include h

/-- The reply to a query for a sum is the running sum of the values. -/
theorem outcome_exactSum :
    (table.scalar q).outcome
      = q.reply (.ok (.int (.ofInt (exactSum (table.summed keep val))))) := by
  obtain ⟨field, hfield, hvalue⟩ := h.value
  have hrows : (table.filtered q).outcome = .ok (table.rows.filter keep) :=
    Run.outcome_keep h.verdict
  have htargets : (table.targets q (table.rows.filter keep)).outcome
      = .ok (table.summed keep val) := by
    unfold targets requireTarget
    rw [hfield]
    exact Run.outcome_each fun e he =>
      hvalue e (List.mem_filter.mp he).1 (List.mem_filter.mp he).2
  have hexact : ∀ v ∈ table.summed keep val, v.IsExact := List.forall_mem_map.mpr fun e he =>
    h.exact e (List.mem_filter.mp he).1 (List.mem_filter.mp he).2
  unfold scalar
  rw [outcome_announce_bind, Run.outcome_bind_ok hrows, h.operation]
  refine congrArg q.reply ((Run.outcome_bind_ok htargets _).trans ?_)
  rw [foldl_add_integers hexact]
  rfl

/-- **What a sum of integers is**: the exact sum of the integers that are there, wrapped in a
signed word. It is the exact sum if that is a signed word, and only then, and zero if nothing
passes. It is the reply to the query, which is there if that can be written down. -/
theorem sum_of_integers :
    ∃ w, (table.scalar q).outcome = q.reply (.ok (.int w)) ∧
      WordOf w (exactSum (table.summed keep val)) ∧ (table.rows.filter keep = [] → w = 0) := by
  refine ⟨_, outcome_exactSum h, wordOf_ofInt _, fun hnone => ?_⟩
  rw [summed, hnone]
  rfl

end

/-! ## A sample -/

/-- The type of unsigned words. -/
abbrev Quota : Type := FixedInt ⟨false, .w64⟩

/-- A quota, as a field. -/
def quotaField : Field Quota (.int ⟨false, .w64⟩) where
  name := "quota"
  getter e := .done e
  named := rfl

/-- One quota, which is no signed word. -/
def quotas : Table Quota where
  rows := [.wrap ⟨false, .w64⟩ (2 ^ 63)]
  bindings := .bind {} quotaField

/-- A query for the sum of all quotas. -/
def quotaQuery : Query where
  operation := .sum
  source := "quotas"
  filter := some (.literal (.bool true))
  targetField := some "quota"

theorem isPortable_quotaQuery : quotaQuery.isPortable = true := by
  simp [quotaQuery, Query.isPortable, Query.names, Expr.every, Value.isUtf8]

theorem quotas_sum : quotas.SumsExact quotaQuery (fun _ => true) (FieldType.int _).toValue where
  operation := rfl
  verdict _ _ := rfl
  value := ⟨"quota", rfl, fun _ _ _ => rfl⟩
  exact e _ _ n hn := by
    obtain rfl : e.toNumber = n := Value.number.inj hn
    exact e.isInteger_toNumber

/-- The sum of one quota that is no signed word is wrapped. -/
theorem sum_of_integers_quotas :
    quotas.SumsExact quotaQuery (fun _ => true) (FieldType.int _).toValue ∧
      ∃ w, (quotas.scalar quotaQuery).outcome = .ok (.int w) ∧ w.toInt = -2 ^ 63 := by
  obtain ⟨w, hsum, hword, -⟩ := sum_of_integers quotas_sum
  rw [Query.reply_of_isPortable isPortable_quotaQuery] at hsum
  exact ⟨quotas_sum, w, hsum, hword.modulo⟩

/-- **Values that can be summed in words**: every sum on the way is a signed word, or, of
unsigned integers alone, an unsigned one. -/
def FitWords (vs : List Value) : Prop :=
  (∀ part, part <+: vs → -2 ^ 63 ≤ exactSum part ∧ exactSum part < 2 ^ 63) ∨
    (∀ n, .number n ∈ vs → ∃ u, n = .uint u) ∧
      ∀ part, part <+: vs → 0 ≤ exactSum part ∧ exactSum part < 2 ^ 64

/-- **A sum that is not exact**: an unsigned integer is not the sum of itself. -/
theorem not_sum_exact :
    ¬ ∀ (table : Table Quota) (q : Query) (keep : Quota → Bool) (val : Quota → Value),
        table.SumsExact q keep val → q.isPortable = true → FitWords (table.summed keep val) →
        ∃ n, (table.scalar q).outcome = .ok (.number n) ∧ n.isInteger = true ∧
          n.integer = exactSum (table.summed keep val) := by
  intro exact
  have hsummed : quotas.summed (fun _ => true) (FieldType.int _).toValue
      = [.number (.uint 0x8000000000000000)] := rfl
  have hsum : exactSum [.number (.uint 0x8000000000000000)] = 2 ^ 63 := rfl
  have hfit : FitWords (quotas.summed (fun _ => true) (FieldType.int _).toValue) := by
    rw [hsummed]
    refine .inr ⟨fun n hn => ?_, fun part hpart => ?_⟩
    · cases List.mem_singleton.mp hn
      exact ⟨_, rfl⟩
    · rcases List.prefix_cons_iff.mp hpart with rfl | ⟨rest, rfl, hrest⟩
      · decide
      · rw [List.prefix_nil.mp hrest, hsum]
        decide
  have hreply := outcome_exactSum quotas_sum
  rw [Query.reply_of_isPortable isPortable_quotaQuery] at hreply
  obtain ⟨n, houtcome, -, hexact⟩ := exact _ _ _ _ quotas_sum isPortable_quotaQuery hfit
  obtain rfl : Number.int _ = n := Value.number.inj (Except.ok.inj (hreply.symm.trans houtcome))
  rw [hsummed, hsum] at hexact
  exact absurd ((wordOf_ofInt _).eq_iff.mp hexact).2 (lt_irrefl _)

end Table

end Criteria
