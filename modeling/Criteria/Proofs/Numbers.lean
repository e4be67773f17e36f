import Criteria.Proofs.BinaryOrder
import Criteria.Value

/-!
# Numbers that can be ordered

Numbers of one kind have positions on a line and are in the order of these
(`Number.lt_iff_position`). Numbers of two kinds are converted before they are compared, and to
what depends on both of them: an unsigned integer next to a signed one is wrapped, and an
integer next to a floating-point number is rounded. Among three numbers there may be three
conversions, so what each comparison says need not fit what the others say.

Where it does, the numbers are `Coherent`. That is so where one line serves for all conversions
(`coherent_of_position`), which we find for the numbers of one kind, for integers that wrapping
leaves alone, and for numbers of all kinds as long as no integer is too large to be rounded
without a loss.
-/

namespace Criteria

namespace Number

/-! ## Numbers of one kind -/

/-- The kinds of numbers. -/
inductive Kind
  | signed | unsigned | floating

/-- The kind of a number. -/
def kind : Number → Kind
  | .int _ => .signed
  | .uint _ => .unsigned
  | .float _ => .floating

/-- **A number of a kind** that is not not-a-number. -/
structure Ordinary (k : Kind) (n : Number) : Prop where
  /-- It is of the kind. -/
  kind_eq : n.kind = k
  /-- It is a number. -/
  not_nan : ∀ x, n = .float x → x.val ≠ .nan

/-- **The position of a number** on the line. -/
def position : Number → ℤ ×ₗ ℚ
  | .int n => toLex (n.toInt, 0)
  | .uint n => toLex (n.toNat, 0)
  | .float x => x.val.position

variable {k : Kind} {a b : Number}

/-- The order of numbers of one kind is that of their positions. -/
theorem lt_iff_position (ha : a.Ordinary k) (hb : b.Ordinary k) :
    a.lt b = true ↔ a.position < b.position := by
  have hkind : a.kind = b.kind := ha.kind_eq.trans hb.kind_eq.symm
  cases a with
  | int m =>
    cases b with
    | int n => simp [lt, signed, position, Prod.Lex.toLex_lt_toLex, Int64.lt_iff_toInt_lt]
    | _ => cases hkind
  | uint m =>
    cases b with
    | uint n => simp [lt, position, Prod.Lex.toLex_lt_toLex, UInt64.lt_iff_toNat_lt]
    | _ => cases hkind
  | float x =>
    cases b with
    | float y => exact Binary.lt_iff_position (ha.not_nan x rfl) (hb.not_nan y rfl)
    | _ => cases hkind

/-- Numbers of one kind are equal where their positions are. -/
theorem eq_iff_position (ha : a.Ordinary k) (hb : b.Ordinary k) :
    a.eq b = true ↔ a.position = b.position := by
  have hkind : a.kind = b.kind := ha.kind_eq.trans hb.kind_eq.symm
  cases a with
  | int m =>
    cases b with
    | int n => simp [eq, signed, position, Int64.toInt_inj]
    | _ => cases hkind
  | uint m =>
    cases b with
    | uint n => simp [eq, position, UInt64.toNat_inj]
    | _ => cases hkind
  | float x =>
    cases b with
    | float y =>
      exact Binary.eq_iff_position (ha.not_nan x rfl) (hb.not_nan y rfl) x.canonical y.canonical
    | _ => cases hkind

/-! ## Numbers of several kinds -/

/-- Next to a floating-point number both are floating-point. -/
theorem lt_float (x : Double) (n : Number) :
    (float x).lt n = Floating.lt x n.toDouble ∧ n.lt (float x) = Floating.lt n.toDouble x :=
  ⟨rfl, by cases n <;> rfl⟩

/-- **Of any two numbers at most one comes first**, whatever they are converted to. -/
theorem lt_asymm (a b : Number) (h : a.lt b = true) : b.lt a = false := by
  cases a with
  | float x =>
    rw [(lt_float x b).1] at h
    rw [(lt_float x b).2]
    exact Binary.lt_asymm h
  | int m =>
    cases b with
    | float y => exact Binary.lt_asymm h
    | int n => exact decide_eq_false (Int64.lt_asymm (of_decide_eq_true h))
    | uint n => exact decide_eq_false (Int64.lt_asymm (of_decide_eq_true h))
  | uint m =>
    cases b with
    | float y => exact Binary.lt_asymm h
    | int n => exact decide_eq_false (Int64.lt_asymm (of_decide_eq_true h))
    | uint n => exact decide_eq_false (UInt64.lt_asymm (of_decide_eq_true h))

/-- Rounding makes no not-a-number. -/
theorem toDouble_ne_nan {n : Number} (h : ∀ x, n = .float x → x.val ≠ .nan) :
    n.toDouble.val ≠ .nan := by
  cases n with
  | int n => exact Floating.ofInt_ne_nan _
  | uint n => exact Floating.ofInt_ne_nan _
  | float x => exact h x rfl

/-- Equality is symmetric, since both ways the numbers are converted alike. -/
theorem eq_symm (a b : Number) : a.eq b = b.eq a := by
  cases a <;> cases b <;> first | exact Binary.eq_symm _ _ | exact Bool.beq_comm

/-- **Two numbers are equal exactly if neither comes first**, whatever they are converted to. -/
theorem eq_iff_not_lt (ha : ∀ x, a = .float x → x.val ≠ .nan)
    (hb : ∀ x, b = .float x → x.val ≠ .nan) :
    a.eq b = true ↔ a.lt b = false ∧ b.lt a = false := by
  have hfloat : a.toDouble.eq b.toDouble = true
      ↔ a.toDouble.lt b.toDouble = false ∧ b.toDouble.lt a.toDouble = false := by
    rw [← Bool.not_eq_true, ← Bool.not_eq_true]
    unfold Floating.eq Floating.lt
    rw [Binary.eq_iff_position (toDouble_ne_nan ha) (toDouble_ne_nan hb) a.toDouble.canonical
        b.toDouble.canonical, Binary.lt_iff_position (toDouble_ne_nan ha) (toDouble_ne_nan hb),
      Binary.lt_iff_position (toDouble_ne_nan hb) (toDouble_ne_nan ha), not_lt, not_lt,
      and_comm, le_antisymm_iff]
  have hsigned : (a.signed == b.signed) = true
      ↔ decide (a.signed < b.signed) = false ∧ decide (b.signed < a.signed) = false := by
    rw [beq_iff_eq, decide_eq_false_iff_not, decide_eq_false_iff_not, ← Int64.toInt_inj,
      Int64.lt_iff_toInt_lt, Int64.lt_iff_toInt_lt]
    omega
  cases a with
  | float x => cases b <;> exact hfloat
  | int m =>
    cases b with
    | float y => exact hfloat
    | int n => exact hsigned
    | uint n => exact hsigned
  | uint m =>
    cases b with
    | float y => exact hfloat
    | int n => exact hsigned
    | uint n =>
      show (m == n) = true ↔ decide (m < n) = false ∧ decide (n < m) = false
      rw [beq_iff_eq, decide_eq_false_iff_not, decide_eq_false_iff_not, ← UInt64.toNat_inj,
        UInt64.lt_iff_toNat_lt, UInt64.lt_iff_toNat_lt]
      omega

/-- **Numbers that can be ordered**: among them, not to come before is transitive. -/
def Coherent (N : Number → Prop) : Prop :=
  ∀ a b d, N a → N b → N d → a.lt b = false → b.lt d = false → a.lt d = false

theorem Coherent.mono {M N : Number → Prop} (h : Coherent N) (hMN : ∀ n, M n → N n) : Coherent M :=
  fun a b d ha hb hd => h a b d (hMN a ha) (hMN b hb) (hMN d hd)

/-- Numbers can be ordered where the order is that of positions on one line. -/
theorem coherent_of_position {β : Type} [LinearOrder β] {N : Number → Prop} (position : Number → β)
    (h : ∀ a b, N a → N b → (a.lt b = true ↔ position a < position b)) : Coherent N := by
  intro a b d ha hb hd hab hbd
  rw [← Bool.not_eq_true, h a b ha hb, not_lt] at hab
  rw [← Bool.not_eq_true, h b d hb hd, not_lt] at hbd
  rw [← Bool.not_eq_true, h a d ha hd, not_lt]
  exact hbd.trans hab

/-- **Numbers of one kind** can be ordered. -/
theorem coherent_ordinary (k : Kind) : Coherent (Ordinary k) :=
  coherent_of_position position fun _ _ => lt_iff_position

/-- An integer that is a signed word. -/
def IsWord : Number → Prop
  | .int _ => True
  | .uint n => n.toNat < 2 ^ 63
  | .float _ => False

instance : DecidablePred IsWord
  | .int _ => inferInstanceAs (Decidable True)
  | .uint n => inferInstanceAs (Decidable (n.toNat < 2 ^ 63))
  | .float _ => inferInstanceAs (Decidable False)

/-- An unsigned integer below `2 ^ 63` is kept as a signed one. -/
theorem toInt_toInt64 {n : UInt64} (h : n.toNat < 2 ^ 63) : n.toInt64.toInt = n.toNat := by
  show n.toBitVec.toInt = (n.toBitVec.toNat : ℤ)
  have hbits : n.toBitVec.toNat < 2 ^ 63 := h
  exact BitVec.toInt_eq_toNat_of_lt (by omega)

/-- **Integers below `2 ^ 63`** can be ordered, signed or not. -/
theorem coherent_isWord : Coherent IsWord := by
  refine coherent_of_position (fun n => n.signed.toInt) fun a b ha hb => ?_
  have hsigned : decide (a.signed < b.signed) = true ↔ a.signed.toInt < b.signed.toInt := by
    rw [decide_eq_true_iff, Int64.lt_iff_toInt_lt]
  cases a with
  | float x => exact ha.elim
  | int m =>
    cases b with
    | float y => exact hb.elim
    | int n => exact hsigned
    | uint n => exact hsigned
  | uint m =>
    cases b with
    | float y => exact hb.elim
    | int n => exact hsigned
    | uint n =>
      show decide (m < n) = true ↔ m.toInt64.toInt < n.toInt64.toInt
      rw [decide_eq_true_iff, toInt_toInt64 ha, toInt_toInt64 hb, UInt64.lt_iff_toNat_lt,
        Nat.cast_lt]

/-- A number that floating-point numbers of 53 bits have room for. -/
def IsPrecise : Number → Prop
  | .int n => n.toInt.natAbs ≤ 2 ^ 53
  | .uint n => n.toNat ≤ 2 ^ 53
  | .float x => x.val ≠ .nan

instance : DecidablePred IsPrecise
  | .int n => inferInstanceAs (Decidable (n.toInt.natAbs ≤ 2 ^ 53))
  | .uint n => inferInstanceAs (Decidable (n.toNat ≤ 2 ^ 53))
  | .float x => inferInstanceAs (Decidable (x.val ≠ .nan))

/-- An integer that there is room for keeps its position. -/
theorem position_ofInt_double {n : ℤ} (h : n.natAbs ≤ 2 ^ 53) :
    (Floating.ofInt .double n).val.position = toLex (0, (n : ℚ)) := by
  have hfits : Format.double.Fits (.ofInt n) :=
    Format.fits_ofInt (by decide) (by decide) (by decide) h
  rw [Floating.ofInt_val hfits, Binary.position_ofInt]

theorem IsPrecise.toDouble_ne_nan {n : Number} (h : n.IsPrecise) : n.toDouble.val ≠ .nan := by
  refine Number.toDouble_ne_nan fun x hx => ?_
  rw [hx] at h
  exact h

/-- **Numbers that lose nothing in floating-point** can be ordered, of whatever kinds. -/
theorem coherent_isPrecise : Coherent IsPrecise := by
  refine coherent_of_position (fun n => n.toDouble.val.position) fun a b ha hb => ?_
  have hfloat := Binary.lt_iff_position ha.toDouble_ne_nan hb.toDouble_ne_nan
  -- integers compare as signed or as unsigned ones, and as their floating-point numbers do
  have hint {i j : ℤ} (hi : i.natAbs ≤ 2 ^ 53) (hj : j.natAbs ≤ 2 ^ 53) :
      (Floating.ofInt .double i).val.position < (Floating.ofInt .double j).val.position
        ↔ i < j := by
    rw [position_ofInt_double hi, position_ofInt_double hj, Prod.Lex.toLex_lt_toLex]
    simp
  have hword {n : UInt64} (hn : n.toNat ≤ 2 ^ 53) : n.toInt64.toInt = n.toNat :=
    toInt_toInt64 (by omega)
  cases a with
  | float x =>
    rw [(lt_float x b).1]
    exact hfloat
  | int m =>
    cases b with
    | float y => exact hfloat
    | int n =>
      exact (decide_eq_true_iff.trans Int64.lt_iff_toInt_lt).trans (hint ha hb).symm
    | uint n =>
      refine (decide_eq_true_iff.trans Int64.lt_iff_toInt_lt).trans ?_
      show m.toInt < n.toInt64.toInt ↔ _
      rw [hword hb]
      exact (hint (j := n.toNat) ha hb).symm
  | uint m =>
    cases b with
    | float y => exact hfloat
    | int n =>
      refine (decide_eq_true_iff.trans Int64.lt_iff_toInt_lt).trans ?_
      show m.toInt64.toInt < n.toInt ↔ _
      rw [hword ha]
      exact (hint (i := m.toNat) ha hb).symm
    | uint n =>
      refine (decide_eq_true_iff.trans UInt64.lt_iff_toNat_lt).trans ?_
      exact Nat.cast_lt.symm.trans (hint (i := m.toNat) (j := n.toNat) ha hb).symm

/-- Beyond the bound, two integers of which one comes first both tie with one number. -/
example :
    (uint (2 ^ 53)).lt (uint (2 ^ 53 + 1)) = true ∧
      (uint (2 ^ 53 + 1)).lt (float (.ofInt .double (2 ^ 53))) = false ∧
      (float (.ofInt .double (2 ^ 53))).lt (uint (2 ^ 53)) = false := by
  decide

end Number

end Criteria
