import Criteria.FieldType
import Criteria.Proofs.BinaryOrder
import Criteria.Proofs.Integers

/-!
# The order of data and the order of their values

A datum is compared in two ways: by the order of its type, and by the comparison of
the values that stand for it. For the types whose values keep apart what the type
keeps apart (`FieldType.isComparable`) the two are one (`FieldType.compareBy_toValue`),
under every ranking of the kinds that puts null first. An optional of an optional is
not such a type, since both kinds of absence are null, and neither is a value as such.

Among data without a not-a-number in them this order is a total preorder. To say so
without carrying the restriction along, `FieldType.compare` is a comparison that is a
total preorder everywhere, and agrees with the order of the type wherever there is no
not-a-number (`FieldType.threeWay_lt`).
-/

namespace Criteria

open Std (TransCmp OrientedCmp ReflCmp)

/-! ## Comparisons by strict orders -/

section

variable {α : Type} {less : α → α → Bool} {a b : α}

theorem threeWay_eq_lt_iff : threeWay less a b = .lt ↔ less a b = true := by
  unfold threeWay
  cases less a b <;> cases less b a <;> simp

theorem threeWay_eq_eq_iff : threeWay less a b = .eq ↔ less a b = false ∧ less b a = false := by
  unfold threeWay
  cases less a b <;> cases less b a <;> simp

theorem threeWay_eq_gt_iff (asymm : less a b = true → less b a = false) :
    threeWay less a b = .gt ↔ less b a = true := by
  unfold threeWay
  cases hab : less a b with
  | true => simp [asymm hab]
  | false => cases less b a <;> simp

end

/-- A comparison by a strict order is swapped with its arguments. -/
theorem threeWay_swap {α : Type} {less : α → α → Bool}
    (asymm : ∀ a b, less a b = true → less b a = false) (a b : α) :
    threeWay less b a = (threeWay less a b).swap := by
  unfold threeWay
  cases hab : less a b with
  | true =>
    rw [asymm a b hab]
    rfl
  | false => cases less b a <;> rfl

/-- Not to come after is to have nothing strictly the other way round. -/
theorem isLE_threeWay_iff {α : Type} {less : α → α → Bool}
    (asymm : ∀ a b, less a b = true → less b a = false) (a b : α) :
    (threeWay less a b).isLE = true ↔ less b a = false := by
  unfold threeWay
  cases hab : less a b with
  | true => simp [asymm a b hab]
  | false => cases less b a <;> simp

/-- A strict order whose negation is transitive gives a total preorder. -/
theorem transCmp_threeWay {α : Type} {less : α → α → Bool}
    (asymm : ∀ a b, less a b = true → less b a = false)
    (trans : ∀ a b d, less b a = false → less d b = false → less d a = false) :
    TransCmp (threeWay less) where
  eq_swap {a b} := threeWay_swap asymm b a
  isLE_trans {a b d} hab hbd := by
    rw [isLE_threeWay_iff asymm] at hab hbd ⊢
    exact trans a b d hab hbd

/-- A strict order by positions on a line gives a total preorder. -/
theorem transCmp_of_position {α β : Type} [LinearOrder β] {less : α → α → Bool}
    (position : α → β) (h : ∀ a b, less a b = true ↔ position a < position b) :
    TransCmp (threeWay less) := by
  have hnot : ∀ a b, less a b = false ↔ position b ≤ position a := fun a b => by
    rw [← Bool.not_eq_true, h, not_lt]
  refine transCmp_threeWay (fun a b hab => ?_) (fun a b d hba hdb => ?_)
  · exact (hnot b a).mpr ((h a b).mp hab).le
  · exact (hnot d a).mpr (((hnot b a).mp hba).trans ((hnot d b).mp hdb))

/-- Positions are the same exactly where neither comes first. -/
theorem threeWay_eq_iff_position {α β : Type} [LinearOrder β] {less : α → α → Bool}
    (position : α → β) (h : ∀ a b, less a b = true ↔ position a < position b) (a b : α) :
    threeWay less a b = .eq ↔ position a = position b := by
  rw [threeWay_eq_eq_iff, ← Bool.not_eq_true, ← Bool.not_eq_true, h, h, not_lt, not_lt, and_comm,
    le_antisymm_iff]

/-- Things are compared by what a function gives for them. -/
theorem transCmp_comap {α β : Type} {c : β → β → Ordering} (h : TransCmp c) (f : α → β) :
    TransCmp fun a b => c (f a) (f b) where
  eq_swap := OrientedCmp.eq_swap
  isLE_trans := TransCmp.isLE_trans

/-- The comparison by the lexicographic order of lists is lexicographic. -/
theorem threeWay_lexLess {α : Type} (less : α → α → Bool) (xs ys : List α) :
    threeWay (lexLess less) xs ys = xs.compareLex (threeWay less) ys := by
  induction xs generalizing ys with
  | nil => cases ys <;> rfl
  | cons x xs ih =>
    cases ys with
    | nil => rfl
    | cons y ys =>
      rw [List.compareLex_cons_cons, ← ih]
      simp only [threeWay, lexLess]
      by_cases hxy : less x y = true
      · simp [hxy]
      · by_cases hyx : less y x = true <;> simp [hxy, hyx]

/-- Pairs are compared by the key first, then by the datum. -/
def pairCompare {α : Type} (c : α → α → Ordering) (a b : Text × α) : Ordering :=
  (threeWay Text.lt a.1 b.1).then (c a.2 b.2)

theorem threeWay_pairLess {α : Type} (less : α → α → Bool) (a b : Text × α) :
    threeWay (FieldType.pairLess less) a b = pairCompare (threeWay less) a b := by
  unfold threeWay FieldType.pairLess pairCompare threeWay
  cases a.1.lt b.1 <;> cases b.1.lt a.1 <;> rfl

/-! ## Texts -/

theorem Text.lt_asymm {s t : Text} (h : s.lt t = true) : t.lt s = false :=
  decide_eq_false (List.lt_asymm (of_decide_eq_true h))

theorem Text.lt_eq_false_iff (s t : Text) : s.lt t = false ↔ t.bytes ≤ s.bytes := by
  rw [Text.lt, decide_eq_false_iff_not, List.not_lt]

instance transCmp_text : TransCmp (threeWay Text.lt) := by
  refine transCmp_threeWay (fun s t => Text.lt_asymm) (fun s t u hts hut => ?_)
  rw [Text.lt_eq_false_iff] at hts hut ⊢
  exact List.le_trans hts hut

/-- Texts neither of which comes first are the same. -/
theorem threeWay_text_eq_iff (s t : Text) : threeWay Text.lt s t = .eq ↔ s = t := by
  rw [threeWay_eq_eq_iff, Text.lt_eq_false_iff, Text.lt_eq_false_iff]
  constructor
  · rintro ⟨hts, hst⟩
    exact congrArg Text.mk (List.le_antisymm hst hts)
  · rintro rfl
    exact ⟨List.le_refl _, List.le_refl _⟩

theorem transCmp_pairCompare {α : Type} {c : α → α → Ordering} (h : TransCmp c) :
    TransCmp (pairCompare c) := by
  have hkey := transCmp_comap transCmp_text (Prod.fst : Text × α → Text)
  have hdatum := transCmp_comap h (Prod.snd : Text × α → α)
  exact inferInstanceAs (TransCmp (compareLex (fun a b : Text × α => threeWay Text.lt a.1 b.1)
    (fun a b : Text × α => c a.2 b.2)))

namespace FieldType

/-! ## Types whose values keep the order -/

/-- Whether absent data have a value of their own. -/
def isOptional : FieldType → Bool
  | .optional _ => true
  | _ => false

/-- **Whether values keep apart** what the order of the type keeps apart. -/
def isComparable : FieldType → Bool
  | .bool | .int _ | .single | .double | .text => true
  | .list t => t.isComparable
  | .dict t => t.isComparable
  | .optional t => t.isComparable && !t.isOptional
  | .value => false

/-- Whether the data of a type are single ones. -/
def isScalar : FieldType → Bool
  | .bool | .int _ | .single | .double | .text => true
  | _ => false

/-- Whether the data of a type can be the keys of a hash table. -/
def isKey : FieldType → Bool
  | .optional t => t.isScalar
  | t => t.isScalar

/-- **No not-a-number** is in a datum. -/
def NaNFree : (t : FieldType) → t.Val → Prop
  | .single, x => x.val ≠ .nan
  | .double, x => x.val ≠ .nan
  | .list t, xs => ∀ x ∈ xs, t.NaNFree x
  | .dict t, ms => ∀ m ∈ ms, t.NaNFree m.2
  | .optional t, some x => t.NaNFree x
  | .bool, _ | .int _, _ | .text, _ | .optional _, none | .value, _ => True

/-- Absent before present, and two present data by a comparison. -/
def optionCompare {α : Type} (c : α → α → Ordering) : Option α → Option α → Ordering
  | none, none => .eq
  | none, some _ => .lt
  | some _, none => .gt
  | some a, some b => c a b

/-- Whether a number stands to the left of another one on the line. -/
def leftOf (x y : Binary) : Bool := decide (x.position < y.position)

/-- **A comparison of all data of a type**, which is that of the type's order where
there is no not-a-number. -/
def compare : (t : FieldType) → t.Val → t.Val → Ordering
  | .bool => threeWay fun a b => !a && b
  | .int _ => threeWay FixedInt.lt
  | .single => fun x y => threeWay leftOf x.val y.val
  | .double => fun x y => threeWay leftOf x.val y.val
  | .text => threeWay Text.lt
  | .list t => List.compareLex t.compare
  | .dict t => List.compareLex (pairCompare t.compare)
  | .optional t => optionCompare t.compare
  | .value => fun _ _ => .eq

theorem transCmp_leftOf : TransCmp (threeWay leftOf) :=
  transCmp_of_position Binary.position fun _ _ => decide_eq_true_iff

theorem transCmp_optionCompare {α : Type} {c : α → α → Ordering} (h : TransCmp c) :
    TransCmp (optionCompare c) where
  eq_swap {a b} := by
    cases a with
    | none => cases b <;> rfl
    | some a =>
      cases b with
      | none => rfl
      | some b => exact h.toOrientedCmp.eq_swap
  isLE_trans {a b d} hab hbd := by
    cases a with
    | none => cases d <;> rfl
    | some a =>
      cases b with
      | none => cases hab
      | some b =>
        cases d with
        | none => cases hbd
        | some d => exact h.isLE_trans (b := b) hab hbd

/-- **The comparison of a type is a total preorder.** -/
theorem transCmp_compare (t : FieldType) : TransCmp t.compare := by
  induction t with
  | bool =>
    refine transCmp_of_position Bool.toNat fun a b => ?_
    cases a <;> cases b <;> decide
  | int t => exact transCmp_of_position FixedInt.toInt fun a b => decide_eq_true_iff
  | single => exact transCmp_comap transCmp_leftOf (Floating.val : Floating .single → Binary)
  | double => exact transCmp_comap transCmp_leftOf (Floating.val : Double → Binary)
  | text => exact transCmp_text
  | list t ih => exact inferInstanceAs (TransCmp (List.compareLex t.compare))
  | dict t ih =>
    have hpair := transCmp_pairCompare ih
    exact inferInstanceAs (TransCmp (List.compareLex (pairCompare t.compare)))
  | optional t ih => exact transCmp_optionCompare ih
  | value => exact { eq_swap := rfl, isLE_trans := fun _ _ => rfl }

/-! ## Agreement with the order of the type -/

theorem lt_eq_leftOf {a b : Binary} (ha : a ≠ .nan) (hb : b ≠ .nan) : a.lt b = leftOf a b :=
  Bool.eq_iff_iff.mpr ((Binary.lt_iff_position ha hb).trans decide_eq_true_iff.symm)

/-- Lists compare the same by comparisons that agree on their elements. -/
theorem compareLex_congr {α : Type} {c d : α → α → Ordering} {xs ys : List α}
    (h : ∀ x ∈ xs, ∀ y ∈ ys, c x y = d x y) : xs.compareLex c ys = xs.compareLex d ys := by
  induction xs generalizing ys with
  | nil => cases ys <;> rfl
  | cons x xs ih =>
    cases ys with
    | nil => rfl
    | cons y ys =>
      rw [List.compareLex_cons_cons, List.compareLex_cons_cons,
        h x List.mem_cons_self y List.mem_cons_self,
        ih fun u hu w hw => h u (List.mem_cons_of_mem x hu) w (List.mem_cons_of_mem y hw)]

/-- **Without a not-a-number the order of a type is the total one.** -/
theorem threeWay_lt {t : FieldType} (ht : t.isComparable = true) {a b : t.Val}
    (ha : t.NaNFree a) (hb : t.NaNFree b) : threeWay t.lt a b = t.compare a b := by
  induction t with
  | bool => rfl
  | int t => rfl
  | single =>
    show (if a.val.lt b.val then _ else if b.val.lt a.val then _ else _) = _
    rw [lt_eq_leftOf ha hb, lt_eq_leftOf hb ha]
    rfl
  | double =>
    show (if a.val.lt b.val then _ else if b.val.lt a.val then _ else _) = _
    rw [lt_eq_leftOf ha hb, lt_eq_leftOf hb ha]
    rfl
  | text => rfl
  | list t ih =>
    exact (threeWay_lexLess t.lt a b).trans
      (compareLex_congr fun x hx y hy => ih ht (ha x hx) (hb y hy))
  | dict t ih =>
    refine (threeWay_lexLess (pairLess t.lt) a b).trans (compareLex_congr fun x hx y hy => ?_)
    rw [threeWay_pairLess]
    show (threeWay Text.lt x.1 y.1).then _ = (threeWay Text.lt x.1 y.1).then _
    rw [ih ht (ha x hx) (hb y hy)]
  | optional t ih =>
    cases a with
    | none => cases b <;> rfl
    | some a =>
      cases b with
      | none => rfl
      | some b => exact ih (Bool.and_eq_true_iff.mp ht).1 ha hb
  | value => cases ht

/-! ## Agreement with the order of values -/

/-- A present datum is not null. -/
theorem toValue_kind_ne_null {t : FieldType} (ht : t.isComparable = true)
    (hopt : t.isOptional = false) (x : t.Val) : (t.toValue x).kind ≠ .null := by
  cases t with
  | optional t => cases hopt
  | value => cases ht
  | _ => exact fun h => by cases h

/-- Null comes before every other value where the ranking says so. -/
theorem compareBy_null_left {rank : Value.Kind → Nat} (hrank : ∀ k, k ≠ .null → rank .null < rank k)
    {v : Value} (hv : v.kind ≠ .null) :
    Value.compareBy rank .null v = .lt ∧ Value.compareBy rank v .null = .gt := by
  have hlt := hrank v.kind hv
  cases v with
  | null => exact absurd rfl hv
  | _ =>
    refine ⟨if_pos (decide_eq_true hlt), (if_neg ?_).trans (if_pos (decide_eq_true hlt))⟩
    rw [decide_eq_true_iff]
    exact hlt.asymm

/-- Arrays of values compare as the lists they were made from, element by element. -/
theorem compareElements_map {α : Type} {rank : Value.Kind → Nat} {f : α → Value}
    {c : α → α → Ordering} (h : ∀ x y, Value.compareBy rank (f x) (f y) = c x y)
    (xs ys : List α) :
    Value.compareElements rank (xs.map f) (ys.map f) = xs.compareLex c ys := by
  induction xs generalizing ys with
  | nil => cases ys <;> rfl
  | cons x xs ih =>
    cases ys with
    | nil => rfl
    | cons y ys =>
      rw [List.compareLex_cons_cons, ← h, ← ih]
      rfl

/-- Objects compare as the dictionaries they were made from, member by member. -/
theorem compareMembers_map {α : Type} {rank : Value.Kind → Nat} {f : α → Value}
    {c : α → α → Ordering} (h : ∀ x y, Value.compareBy rank (f x) (f y) = c x y)
    (ms ns : List (Text × α)) :
    Value.compareMembers rank (ms.map fun m => (m.1, f m.2)) (ns.map fun m => (m.1, f m.2))
      = ms.compareLex (pairCompare c) ns := by
  induction ms generalizing ns with
  | nil => cases ns <;> rfl
  | cons m ms ih =>
    cases ns with
    | nil => rfl
    | cons n ns =>
      rw [List.compareLex_cons_cons, ← ih]
      show (threeWay Text.lt m.1 n.1).then ((Value.compareBy rank (f m.2) (f n.2)).then _)
        = ((threeWay Text.lt m.1 n.1).then (c m.2 n.2)).then _
      rw [h, Ordering.then_assoc]

/-- **Values compare as the data that they stand for.** -/
theorem compareBy_toValue {rank : Value.Kind → Nat}
    (hrank : ∀ k, k ≠ .null → rank .null < rank k) {t : FieldType} (ht : t.isComparable = true)
    (a b : t.Val) : Value.compareBy rank (t.toValue a) (t.toValue b) = threeWay t.lt a b := by
  induction t with
  | bool => rfl
  | int t =>
    show (if a.toNumber.lt b.toNumber then _ else if b.toNumber.lt a.toNumber then _ else _) = _
    rw [FixedInt.lt_toNumber, FixedInt.lt_toNumber]
    rfl
  | single =>
    show (if (a.convert .double).val.lt (b.convert .double).val then _
      else if (b.convert .double).val.lt (a.convert .double).val then _ else _) = _
    rw [Floating.widen_val, Floating.widen_val]
    rfl
  | double => rfl
  | text => rfl
  | list t ih =>
    exact (compareElements_map (fun x y => ih ht x y) a b).trans (threeWay_lexLess t.lt a b).symm
  | dict t ih =>
    refine (compareMembers_map (fun x y => ih ht x y) a b).trans ?_
    refine Eq.trans ?_ (threeWay_lexLess (pairLess t.lt) a b).symm
    exact compareLex_congr fun x _ y _ => (threeWay_pairLess t.lt x y).symm
  | optional t ih =>
    obtain ⟨ht, hopt⟩ := Bool.and_eq_true_iff.mp ht
    -- only an absent datum is null, which is why optionals of optionals are left out
    have hnull := fun x => compareBy_null_left hrank
      (toValue_kind_ne_null ht (Bool.not_eq_true' _ |>.mp hopt) x)
    cases a with
    | none =>
      cases b with
      | none => rfl
      | some b => exact (hnull b).1
    | some a =>
      cases b with
      | none => exact (hnull a).2
      | some b => exact ih ht a b
  | value => cases ht

theorem describedRank_null_lt (k : Value.Kind) (hk : k ≠ .null) :
    Value.describedRank .null < Value.describedRank k := by
  cases k with
  | null => exact absurd rfl hk
  | _ => decide

theorem nativeRank_null_lt (k : Value.Kind) (hk : k ≠ .null) :
    Value.nativeRank .null < Value.nativeRank k := by
  cases k with
  | null => exact absurd rfl hk
  | _ => decide

/-- By the comparison of descriptions. -/
theorem compare_toValue {t : FieldType} (ht : t.isComparable = true) {a b : t.Val}
    (ha : t.NaNFree a) (hb : t.NaNFree b) :
    (t.toValue a).compare (t.toValue b) = t.compare a b :=
  (compareBy_toValue describedRank_null_lt ht a b).trans (threeWay_lt ht ha hb)

/-- By the order of values as such. -/
theorem lt_toValue {t : FieldType} (ht : t.isComparable = true) {a b : t.Val}
    (ha : t.NaNFree a) (hb : t.NaNFree b) :
    (t.toValue a).lt (t.toValue b) = (t.compare a b == .lt) :=
  congrArg (· == .lt) ((compareBy_toValue nativeRank_null_lt ht a b).trans (threeWay_lt ht ha hb))

/-! ## Equality of keys -/

theorem isComparable_of_isScalar {t : FieldType} (h : t.isScalar = true) :
    (t.isComparable && !t.isOptional) = true := by
  cases t with
  | list t => cases h
  | dict t => cases h
  | optional t => cases h
  | value => cases h
  | _ => rfl

theorem isComparable_of_isKey {t : FieldType} (h : t.isKey = true) : t.isComparable = true := by
  cases t with
  | optional t => exact isComparable_of_isScalar h
  | list t => cases h
  | dict t => cases h
  | value => cases h
  | _ => rfl

/-- **Single data are equal where neither comes first.** -/
theorem same_eq_of_isScalar {t : FieldType} (h : t.isScalar = true) {a b : t.Val}
    (ha : t.NaNFree a) (hb : t.NaNFree b) : t.same a b = (t.compare a b == .eq) := by
  have hnumber : ∀ {x y : Binary}, x ≠ .nan → y ≠ .nan → x.Canonical → y.Canonical →
      x.eq y = (threeWay leftOf x y == .eq) := fun hx hy hcx hcy => by
    rw [Bool.eq_iff_iff, Binary.eq_iff_position hx hy hcx hcy, beq_iff_eq]
    exact (threeWay_eq_iff_position Binary.position (fun _ _ => decide_eq_true_iff) _ _).symm
  cases t with
  | bool => cases a <;> cases b <;> rfl
  | int t =>
    show decide (a = b) = (threeWay FixedInt.lt a b == .eq)
    rw [Bool.eq_iff_iff, decide_eq_true_iff, beq_iff_eq, ← FixedInt.toInt_injective.eq_iff]
    exact (threeWay_eq_iff_position FixedInt.toInt (fun _ _ => decide_eq_true_iff) a b).symm
  | single => exact hnumber ha hb a.canonical b.canonical
  | double => exact hnumber ha hb a.canonical b.canonical
  | text =>
    show decide (a = b) = (threeWay Text.lt a b == .eq)
    rw [Bool.eq_iff_iff, decide_eq_true_iff, beq_iff_eq, threeWay_text_eq_iff]
  | list t => cases h
  | dict t => cases h
  | optional t => cases h
  | value => cases h

/-- **Keys are equal where neither comes first.** -/
theorem same_eq {t : FieldType} (h : t.isKey = true) {a b : t.Val} (ha : t.NaNFree a)
    (hb : t.NaNFree b) : t.same a b = (t.compare a b == .eq) := by
  cases t with
  | optional t =>
    cases a with
    | none => cases b <;> rfl
    | some a =>
      cases b with
      | none => rfl
      | some b => exact same_eq_of_isScalar h ha hb
  | _ =>
    refine same_eq_of_isScalar ?_ ha hb
    exact h

/-- Single data that are equal are none of them not-a-number. -/
theorem nanFree_of_isScalar {t : FieldType} (h : t.isScalar = true) {a b : t.Val}
    (hab : t.same a b = true) : t.NaNFree a ∧ t.NaNFree b := by
  have hnumber : ∀ {x y : Binary}, x.eq y = true → x ≠ .nan ∧ y ≠ .nan := by
    intro x y hxy
    constructor
    · rintro rfl
      cases hxy
    · rintro rfl
      cases x <;> cases hxy
  cases t with
  | single => exact hnumber hab
  | double => exact hnumber hab
  | bool | int | text => exact ⟨trivial, trivial⟩
  | list t | dict t | optional t | value => cases h

/-- Keys that are equal are none of them not-a-number. -/
theorem nanFree_of_same {t : FieldType} (h : t.isKey = true) {a b : t.Val}
    (hab : t.same a b = true) : t.NaNFree a ∧ t.NaNFree b := by
  cases t with
  | optional t =>
    cases a with
    | none =>
      cases b with
      | none => exact ⟨trivial, trivial⟩
      | some b => cases hab
    | some a =>
      cases b with
      | none => cases hab
      | some b => exact nanFree_of_isScalar (t := t) h hab
  | _ =>
    refine nanFree_of_isScalar ?_ hab
    exact h

/-- A key that is not not-a-number is equal to itself. -/
theorem same_self {t : FieldType} (h : t.isKey = true) {a : t.Val} (ha : t.NaNFree a) :
    t.same a a = true := by
  have := transCmp_compare t
  rw [same_eq h ha ha, beq_iff_eq]
  exact Std.ReflCmp.compare_self

/-- **The equality of keys** is symmetric and transitive. -/
theorem partialEquiv_keyEquality {t : FieldType} (h : t.isKey = true) :
    @PartialEquivBEq t.Val t.keyEquality :=
  let := t.keyEquality
  have := transCmp_compare t
  { symm := fun {a b} hab => by
      obtain ⟨ha, hb⟩ := nanFree_of_same h hab
      change t.same a b = true at hab
      show t.same b a = true
      rw [same_eq h ha hb, beq_iff_eq] at hab
      rw [same_eq h hb ha, beq_iff_eq]
      exact Std.OrientedCmp.eq_symm hab
    trans := fun {a b c} hab hbc => by
      obtain ⟨ha, hb⟩ := nanFree_of_same h hab
      obtain ⟨-, hc⟩ := nanFree_of_same h hbc
      change t.same a b = true at hab
      change t.same b c = true at hbc
      show t.same a c = true
      rw [same_eq h ha hb, beq_iff_eq] at hab
      rw [same_eq h hb hc, beq_iff_eq] at hbc
      rw [same_eq h ha hc, beq_iff_eq]
      exact Std.TransCmp.eq_trans hab hbc }

end FieldType

end Criteria
