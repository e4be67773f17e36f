import Criteria.Proofs.DatumOrder
import Criteria.Proofs.Groups
import Criteria.Remote.Table

/-!
# Reducing values is reducing data

A table reduces the values of a field, which have three kinds of numbers among them; an
evaluator in memory reduces the data themselves, by the operations of their type. Here
the two are compared on a list of data and the list of their values, for the types of
numbers (`NumberType`).

The least and the greatest agree because numbers order as the data do. A sum of integers
is kept in a signed word and wrapped at the end; in the type it is wrapped at every step,
which is the same since no type is wider than a word (`sum_values_int`). A sum of
floating-point numbers is added in the same order from zero. Counts of groups are found
by the equality of values, which for the types of keys considered here is equality.
-/

namespace Criteria

/-! ## Types of numbers -/

/-- **A type of numbers.** -/
inductive NumberType
  /-- Integers of a fixed width. -/
  | int (t : IntType)
  /-- Floating-point numbers of 24 bits. -/
  | single
  /-- Floating-point numbers of 53 bits. -/
  | double

namespace NumberType

/-- The type of fields that hold such numbers. -/
@[reducible] def type : NumberType → FieldType
  | .int t => .int t
  | .single => .single
  | .double => .double

instance (n : NumberType) : Numeric n.type.Val :=
  match n with
  | .int t => inferInstanceAs (Numeric (FixedInt t))
  | .single => inferInstanceAs (Numeric (Floating .single))
  | .double => inferInstanceAs (Numeric Double)

variable {n : NumberType}

/-- A number is a value that is not null. -/
theorem isNull_toValue (x : n.type.Val) : (n.type.toValue x).isNull = false := by
  cases n <;> rfl

/-- **The value of a number gives the number back.** -/
theorem ofValue_toValue (x : n.type.Val) : n.type.ofValue (n.type.toValue x) = .ok x := by
  cases n with
  | int t => exact congrArg Except.ok (FixedInt.ofNumber_toNumber x)
  | single =>
    refine congrArg Except.ok ?_
    show Floating.round .single (Floating.convert .double x).val = x
    rw [Floating.widen_val, Floating.round_val]
  | double => exact congrArg Except.ok (Floating.round_val x)

/-- Of two numbers at most one is smaller. -/
theorem less_asymm {x y : n.type.Val} (h : Numeric.less x y = true) :
    Numeric.less y x = false := by
  cases n with
  | int t => exact decide_eq_false (of_decide_eq_true h).asymm
  | single => exact Binary.lt_asymm h
  | double => exact Binary.lt_asymm h

/-- The values of two numbers compare as the numbers do. -/
theorem compare_toValue (x y : n.type.Val) :
    (n.type.toValue x).compare (n.type.toValue y) = threeWay Numeric.less x y := by
  cases n with
  | int t => exact FieldType.compareBy_toValue FieldType.describedRank_null_lt rfl x y
  | single => exact FieldType.compareBy_toValue FieldType.describedRank_null_lt rfl x y
  | double => exact FieldType.compareBy_toValue FieldType.describedRank_null_lt rfl x y

end NumberType

namespace Table

open Evaluator (Extreme Total)

variable {n : NumberType}

/-! ## The least and the greatest -/

/-- The value of a number that may be missing. -/
def optionValue (n : NumberType) : Option n.type.Val → Value
  | none => .null
  | some x => n.type.toValue x

/-- Whether the greatest number is wanted. -/
def isGreatest : Extreme → Bool
  | .least => false
  | .greatest => true

/-- Which of two numbers comes first, in either direction of the question. -/
theorem threeWay_less (x y : n.type.Val) :
    (threeWay Numeric.less x y == .lt) = Numeric.less x y ∧
      (threeWay Numeric.less x y == .gt) = Numeric.less y x := by
  unfold threeWay
  cases hxy : Numeric.less x y with
  | true =>
    rw [NumberType.less_asymm hxy]
    exact ⟨rfl, rfl⟩
  | false =>
    rw [if_neg Bool.false_ne_true]
    cases Numeric.less y x <;> exact ⟨rfl, rfl⟩

/-- One more value takes the place of the best one where the number does. -/
theorem chooseValue_toValue (extreme : Extreme) (best : Option n.type.Val) (x : n.type.Val) :
    chooseValue (isGreatest extreme) (optionValue n best) (n.type.toValue x)
      = optionValue n (extreme.choose best x) := by
  cases best with
  | none => rfl
  | some b =>
    unfold chooseValue optionValue
    rw [NumberType.isNull_toValue, if_neg Bool.false_ne_true, NumberType.compare_toValue]
    cases extreme with
    | least =>
      show (if (threeWay Numeric.less x b == .lt) = true then _ else _)
        = optionValue n (if Numeric.less x b = true then some x else some b)
      rw [(threeWay_less x b).1]
      split <;> rfl
    | greatest =>
      show (if (threeWay Numeric.less x b == .gt) = true then _ else _)
        = optionValue n (if Numeric.less b x = true then some x else some b)
      rw [(threeWay_less x b).2]
      split <;> rfl

/-- **The extreme of the values** is the value of the extreme. -/
theorem foldl_chooseValue (extreme : Extreme) (xs : List n.type.Val) :
    (xs.map n.type.toValue).foldl (chooseValue (isGreatest extreme)) .null
      = optionValue n (xs.foldl extreme.choose none) := by
  have hfrom : ∀ best, (xs.map n.type.toValue).foldl (chooseValue (isGreatest extreme))
      (optionValue n best) = optionValue n (xs.foldl extreme.choose best) := by
    induction xs with
    | nil => exact fun best => rfl
    | cons x xs ih =>
      intro best
      rw [List.map_cons, List.foldl_cons, List.foldl_cons, chooseValue_toValue, ih]
  exact hfrom none

/-! ## Sums -/

/-- **The sum of the values of integers**, kept in a word, wraps to their sum. -/
theorem sum_values_int {t : IntType} (xs : List (FixedInt t)) :
    ∃ total : Int64, (xs.map (FieldType.int t).toValue).foldl RunningSum.add (.whole 0)
        = .whole total ∧
      FixedInt.wrap t total.toInt = xs.foldl FixedInt.add (.wrap t 0) := by
  -- the two sums start alike wherever they start, one of them wrapped to the other
  have hfrom : ∀ start : Int64, ∃ total : Int64,
      (xs.map (FieldType.int t).toValue).foldl RunningSum.add (.whole start) = .whole total ∧
        FixedInt.wrap t total.toInt = xs.foldl FixedInt.add (.wrap t start.toInt) := by
    induction xs with
    | nil => exact fun start => ⟨start, rfl, rfl⟩
    | cons x xs ih =>
      intro start
      have hstep : RunningSum.add (.whole start) ((FieldType.int t).toValue x)
          = .whole (start + x.toNumber.signed) := by
        show (if x.toNumber.isInteger = true then _ else _) = _
        rw [if_pos x.isInteger_toNumber]
      obtain ⟨total, htotal, hwrap⟩ := ih (start + x.toNumber.signed)
      refine ⟨total, ?_, ?_⟩
      · rw [List.map_cons, List.foldl_cons, hstep, htotal]
      · rw [hwrap, FixedInt.wrap_add_signed, List.foldl_cons]
  exact hfrom 0

/-- **The sum of the values of floating-point numbers** is their sum, if there are any. -/
theorem sum_values_double (x : Double) (xs : List Double) :
    ((x :: xs).map FieldType.double.toValue).foldl RunningSum.add (.whole 0)
      = .floating ((x :: xs).foldl Floating.add .zero) := by
  have hfrom : ∀ total : Double, (xs.map FieldType.double.toValue).foldl RunningSum.add
      (.floating total) = .floating (xs.foldl Floating.add total) := by
    induction xs with
    | nil => exact fun total => rfl
    | cons x xs ih => exact fun total => ih (Floating.add total x)
  exact hfrom (Floating.add .zero x)

/-- A sum is a value that is not null. -/
theorem isNull_runningSum (sum : RunningSum) : sum.toValue.isNull = false := by
  cases sum <;> rfl

/-- **The reply of a sum converts to the sum**, also when nothing is added; numbers of 24
bits are added in 53, so that for these it is only so then. -/
theorem ofValue_sum {xs : List n.type.Val} (hn : n ≠ .single ∨ xs = []) :
    n.type.ofValue ((xs.map n.type.toValue).foldl RunningSum.add (.whole 0)).toValue
      = .ok (xs.foldl Numeric.add Numeric.zero) := by
  cases n with
  | single =>
    cases hn with
    | inl hne => exact absurd rfl hne
    | inr hnil =>
      subst hnil
      rfl
  | int t =>
    obtain ⟨total, htotal, hwrap⟩ := sum_values_int xs
    rw [htotal]
    exact congrArg Except.ok hwrap
  | double =>
    cases xs with
    | nil => rfl
    | cons x xs =>
      rw [sum_values_double]
      exact congrArg Except.ok (Floating.round_val _)

/-! ## Averages -/

/-- A wide number adds itself to a total. -/
theorem add_decimal (total : Total) (d : Decimal) :
    total.add d = ⟨Floating.add total.sum d, total.count + 1⟩ := by
  show (⟨Floating.add total.sum (d.convert .extended), total.count + 1⟩ : Total) = _
  rw [Floating.convert, Floating.round_val]

/-- One more value adds to a total what the number adds. -/
theorem addToTotal_toValue (total : Total) (x : n.type.Val) :
    addToTotal total (n.type.toValue x) = total.add x := by
  cases n with
  | int t =>
    show total.add (x.toNumber.toFloating .extended) = _
    rw [add_decimal, FixedInt.toFloating_toNumber]
    rfl
  | single =>
    show total.add ((x.convert .double).convert .extended) = _
    rw [add_decimal, Floating.convert, Floating.widen_val]
    rfl
  | double => exact add_decimal total (x.convert .extended)

/-- **The total of the values** is the total of the numbers. -/
theorem foldl_addToTotal (xs : List n.type.Val) :
    (xs.map n.type.toValue).foldl addToTotal {} = xs.foldl Total.add {} := by
  rw [List.foldl_map]
  exact congrArg (fun step => xs.foldl step {})
    (funext fun total => funext fun x => addToTotal_toValue total x)

/-! ## Groups -/

/-- Whether the data of a type can be the keys of counted groups. -/
def isGroupKey : FieldType → Bool
  | .bool | .int _ | .text => true
  | _ => false

/-- For such keys, the equality of values and that of the type are equality. -/
theorem eq_of_isGroupKey {t : FieldType} (h : isGroupKey t = true) (a b : t.Val) :
    (t.same a b = true ↔ a = b) ∧ ((t.toValue a).eq (t.toValue b) = true ↔ a = b) ∧
      t.ofValue (t.toValue a) = .ok a := by
  cases t with
  | bool => exact ⟨beq_iff_eq, beq_iff_eq, rfl⟩
  | int t =>
    refine ⟨decide_eq_true_iff, ?_, congrArg Except.ok (FixedInt.ofNumber_toNumber a)⟩
    show a.toNumber.eq b.toNumber = true ↔ _
    rw [FixedInt.eq_toNumber, decide_eq_true_iff]
  | text => exact ⟨decide_eq_true_iff, decide_eq_true_iff, rfl⟩
  | single => cases h
  | double => cases h
  | list t => cases h
  | dict t => cases h
  | optional t => cases h
  | value => cases h

/-- The counts of groups, with one more datum. -/
def countDatum (t : FieldType) (groups : Groups t.Val ℕ) (k : t.Val) : Groups t.Val ℕ :=
  @Groups.update _ _ t.keyEquality k 1 (· + 1) groups

variable {t : FieldType}

/-- The value of a group and its count. -/
def keyValue (t : FieldType) (group : t.Val × ℕ) : Value × ℕ := (t.toValue group.1, group.2)

/-- One more value is counted where the datum is. -/
theorem countValue_toValue (h : isGroupKey t = true) (groups : Groups t.Val ℕ) (k : t.Val) :
    countValue (t.toValue k) (groups.map (keyValue t))
      = (countDatum t groups k).map (keyValue t) := by
  induction groups with
  | nil => rfl
  | cons group rest ih =>
    obtain ⟨k', n⟩ := group
    have heq : (t.toValue k').eq (t.toValue k) = t.same k' k := by
      rw [Bool.eq_iff_iff, (eq_of_isGroupKey h k' k).1, (eq_of_isGroupKey h k' k).2.1]
    show (if (t.toValue k').eq (t.toValue k) = true then _ else _)
      = (if t.same k' k = true then _ else _ : Groups t.Val ℕ).map (keyValue t)
    rw [heq]
    split
    · rfl
    · exact congrArg (keyValue t (k', n) :: ·) ih

/-- **The counts of the values** are the counts of the data. -/
theorem foldl_countValue (h : isGroupKey t = true) (ks : List t.Val) :
    (ks.map t.toValue).foldl (fun groups v => countValue v groups) []
      = (ks.foldl (countDatum t) []).map (keyValue t) := by
  have hfrom : ∀ groups : Groups t.Val ℕ,
      (ks.map t.toValue).foldl (fun groups v => countValue v groups) (groups.map (keyValue t))
        = (ks.foldl (countDatum t) groups).map (keyValue t) := by
    induction ks with
    | nil => exact fun groups => rfl
    | cons k ks ih =>
      intro groups
      rw [List.map_cons, List.foldl_cons, List.foldl_cons, countValue_toValue h, ih]
  exact hfrom []

/-- Equality of keys is equality. -/
theorem lawful_of_isGroupKey (h : isGroupKey t = true) : @LawfulBEq t.Val t.keyEquality :=
  letI := t.keyEquality
  { rfl := fun {a} => (eq_of_isGroupKey h a a).1.mpr rfl
    eq_of_beq := fun {a b} hab => (eq_of_isGroupKey h a b).1.mp hab }

/-- Counting one more raises the total by one. -/
theorem sum_countUpdate {K : Type} [BEq K] (key : K) (groups : Groups K ℕ) :
    ((Groups.update key 1 (· + 1) groups).map Prod.snd).sum = (groups.map Prod.snd).sum + 1 := by
  induction groups with
  | nil => rfl
  | cons group rest ih =>
    obtain ⟨k, x⟩ := group
    unfold Groups.update
    split
    · simp only [List.map_cons, List.sum_cons]
      omega
    · simp only [List.map_cons, List.sum_cons, ih]
      omega

/-- **Counting keeps every key once, and every datum in one group.** -/
theorem foldl_countDatum (h : isGroupKey t = true) (ks : List t.Val) :
    ((ks.foldl (countDatum t) []).map Prod.fst).Nodup ∧
      ((ks.foldl (countDatum t) []).map Prod.snd).sum = ks.length := by
  let := t.keyEquality
  have := lawful_of_isGroupKey h
  have hdistinct := Groups.distinct_collect id (fun _ => 1) (fun n _ => n + 1) ks
  refine ⟨Groups.distinct_iff_nodup.mp hdistinct, ?_⟩
  induction ks using List.reverseRecOn with
  | nil => rfl
  | append_singleton ks k ih =>
    rw [List.foldl_append, List.length_append, List.length_singleton,
      ← ih (Groups.distinct_collect _ _ _ ks)]
    exact sum_countUpdate k _

/-- A group with its count as a word. -/
def wordCount (group : t.Val × ℕ) : t.Val × FixedInt ⟨false, .w64⟩ :=
  (group.1, .wrap ⟨false, .w64⟩ (UInt64.ofNat group.2).toNat)

/-- A count that is a word is the count of the group. -/
theorem toInt_wordCount {group : t.Val × ℕ} (h : group.2 < 2 ^ 64) :
    (wordCount group).2.toInt = group.2 := by
  show (FixedInt.wrap ⟨false, .w64⟩ (UInt64.ofNat group.2).toNat).toInt = _
  rw [UInt64.toNat_ofNat_of_lt' h, FixedInt.toInt_wrap_word h]

/-- The row of a group whose key is new adds the group. -/
theorem addGroupRow_groupValue (h : isGroupKey t = true)
    {groups : RemoteEvaluator.GroupCounts t} (group : t.Val × ℕ)
    (hnew : group.1 ∉ groups.map Prod.fst) :
    RemoteEvaluator.addGroupRow t groups (groupValue (keyValue t group))
      = .ok (groups ++ [wordCount group]) := by
  let := t.keyEquality
  have := lawful_of_isGroupKey h
  have hcount : (groupValue (keyValue t group)).at "count" = .ok (.size group.2) := rfl
  have hkey : (groupValue (keyValue t group)).at "key" = .ok (t.toValue group.1) := rfl
  unfold RemoteEvaluator.addGroupRow
  rw [hcount, hkey]
  show (t.ofValue (t.toValue group.1) >>= fun k => _) = _
  rw [(eq_of_isGroupKey h group.1 group.1).2.2]
  refine congrArg Except.ok (Groups.update_of_new _ _ ?_)
  rw [List.any_eq_false]
  exact fun key hkey heq => hnew (eq_of_beq heq ▸ hkey)

/-- **The groups are read back** from the rows that list them. -/
theorem groupCounts_array (h : isGroupKey t = true) {groups : Groups t.Val ℕ}
    (hnodup : (groups.map Prod.fst).Nodup) :
    RemoteEvaluator.groupCounts t (.array ((groups.map (keyValue t)).map groupValue))
      = .ok (groups.map wordCount) := by
  -- every row is the first one of its key, so none changes a group that is there
  have hfrom : ∀ done : RemoteEvaluator.GroupCounts t,
      (done.map Prod.fst ++ groups.map Prod.fst).Nodup →
        ((groups.map (keyValue t)).map groupValue).foldlM (RemoteEvaluator.addGroupRow t) done
          = .ok (done ++ groups.map wordCount) := by
    clear hnodup
    induction groups with
    | nil => exact fun done _ => congrArg Except.ok (List.append_nil done).symm
    | cons group rest ih =>
      intro done hnodup
      have hnew : group.1 ∉ done.map Prod.fst := fun hmem =>
        (List.nodup_append.mp hnodup).2.2 _ hmem _ List.mem_cons_self rfl
      rw [List.map_cons, List.map_cons, List.foldlM_cons, addGroupRow_groupValue h group hnew]
      show List.foldlM _ (done ++ [wordCount group]) _ = _
      rw [ih, List.append_assoc]
      · rfl
      · rw [List.map_append, List.append_assoc]
        exact hnodup
  exact hfrom [] hnodup

end Table

end Criteria
