import Mathlib.Data.List.DropRight
import Mathlib.Data.List.ReduceOption
import Criteria.Proofs.Numbers
import Criteria.Proofs.RemoteReduction

/-!
# Extremes of a field with absent values

An entity may have no number in a field, and the value of the field is null then. In a sum
and in an average such a value adds nothing. A table looks for the least and the greatest
value with one loop, which takes null for "nothing seen yet", and in which a null competes
like any value, below every number.

For the greatest value nothing is wrong with that, as a null never comes after a number: it
is the greatest of the numbers that are there. But in the search for the least value a null
takes the place of every number before it, and the next value takes the place of the null.
So what is found is the least of the numbers after the last absent one
(`Table.extremes_of_present`), and an entity without a number changes the result: after one
number it is null (`Table.least_not_of_present`).
-/

namespace Criteria

open Evaluator (Extreme)
open RemoteEvaluator (extremeOperation)

/-! ## Numbers of one kind -/

namespace Number

variable {k : Kind} {a b c : Number}

/-- Whether a number is better than another one, as the least or the greatest is wanted. -/
def beats (extreme : Extreme) (a b : Number) : Bool :=
  match extreme with
  | .least => a.lt b
  | .greatest => b.lt a

/-- Not to be beaten, by positions. -/
theorem beats_eq_false_iff (extreme : Extreme) (ha : a.Ordinary k) (hb : b.Ordinary k) :
    beats extreme a b = false ↔
      match extreme with
      | .least => b.position ≤ a.position
      | .greatest => a.position ≤ b.position := by
  cases extreme with
  | least =>
    show a.lt b = false ↔ b.position ≤ a.position
    rw [← Bool.not_eq_true, lt_iff_position ha hb, not_lt]
  | greatest =>
    show b.lt a = false ↔ a.position ≤ b.position
    rw [← Bool.not_eq_true, lt_iff_position hb ha, not_lt]

theorem beats_self (extreme : Extreme) (ha : a.Ordinary k) : beats extreme a a = false := by
  rw [beats_eq_false_iff extreme ha ha]
  cases extreme <;> exact le_rfl

/-- Of two numbers at most one beats the other. -/
theorem beats_asymm {extreme : Extreme} (ha : a.Ordinary k) (hb : b.Ordinary k)
    (h : beats extreme a b = true) : beats extreme b a = false := by
  rw [← Bool.not_eq_false, beats_eq_false_iff extreme ha hb] at h
  rw [beats_eq_false_iff extreme hb ha]
  cases extreme <;> exact (not_le.mp h).le

/-- Not to be beaten is transitive. -/
theorem beats_trans {extreme : Extreme} (ha : a.Ordinary k) (hb : b.Ordinary k)
    (hc : c.Ordinary k) (hab : beats extreme a b = false) (hbc : beats extreme b c = false) :
    beats extreme a c = false := by
  rw [beats_eq_false_iff extreme ha hb] at hab
  rw [beats_eq_false_iff extreme hb hc] at hbc
  rw [beats_eq_false_iff extreme ha hc]
  cases extreme with
  | least => exact le_trans hbc hab
  | greatest => exact le_trans hab hbc

end Number

/-! ## Extremes -/

/-- **An extreme of some numbers**: one of them that none of them beats, and there is none
only of no numbers. -/
def IsExtreme (extreme : Extreme) (ns : List Number) : Option Number → Prop
  | none => ns = []
  | some m => m ∈ ns ∧ ∀ n ∈ ns, n.beats extreme m = false

section

variable {k : Number.Kind} {extreme : Extreme} {ns : List Number}

/-- The better of the best number so far and one more. -/
def better (extreme : Extreme) (best : Option Number) (n : Number) : Number :=
  match best with
  | none => n
  | some m => if n.beats extreme m then n else m

/-- **One more number** takes the place of the extreme if it beats it. -/
theorem IsExtreme.concat {best : Option Number} (h : IsExtreme extreme ns best)
    (ordinary : ∀ n ∈ ns, n.Ordinary k) {n : Number} (hn : n.Ordinary k) :
    IsExtreme extreme (ns ++ [n]) (some (better extreme best n)) := by
  cases best with
  | none =>
    obtain rfl : ns = [] := h
    exact ⟨List.mem_singleton_self n, fun m hm => by
      rw [List.mem_singleton.mp hm]
      exact Number.beats_self extreme hn⟩
  | some m =>
    obtain ⟨hmem, hbest⟩ := h
    have hm := ordinary m hmem
    unfold better
    dsimp only
    split
    case isTrue hbeats =>
      refine ⟨List.mem_append_right _ (List.mem_singleton_self n), fun x hx => ?_⟩
      rcases List.mem_append.mp hx with hx | hx
      · exact Number.beats_trans (ordinary x hx) hm hn (hbest x hx)
          (Number.beats_asymm hn hm hbeats)
      · rw [List.mem_singleton.mp hx]
        exact Number.beats_self extreme hn
    case isFalse hbeats =>
      refine ⟨List.mem_append_left _ hmem, fun x hx => ?_⟩
      rcases List.mem_append.mp hx with hx | hx
      · exact hbest x hx
      · rw [List.mem_singleton.mp hx]
        exact Bool.eq_false_iff.mpr hbeats

/-- The value of a number that may be absent. -/
def Value.ofNumber? : Option Number → Value
  | none => .null
  | some n => .number n

/-- **Extremes are as good as one another**, in whatever order the numbers come. -/
theorem IsExtreme.eq_of_perm {ns' : List Number} {best best' : Option Number}
    (h : IsExtreme extreme ns best) (h' : IsExtreme extreme ns' best') (hperm : ns'.Perm ns)
    (ordinary : ∀ n ∈ ns, n.Ordinary k) :
    (Value.ofNumber? best).eq (Value.ofNumber? best') = true := by
  cases best with
  | none =>
    obtain rfl : ns = [] := h
    cases best' with
    | none => rfl
    | some m' => exact absurd (hperm.subset h'.1) List.not_mem_nil
  | some m =>
    cases best' with
    | none =>
      obtain rfl : ns' = [] := h'
      exact absurd (hperm.symm.subset h.1) List.not_mem_nil
    | some m' =>
      have hm := ordinary m h.1
      have hm' := ordinary m' (hperm.subset h'.1)
      have hle := (Number.beats_eq_false_iff extreme hm' hm).mp (h.2 m' (hperm.subset h'.1))
      have hge := (Number.beats_eq_false_iff extreme hm hm').mp (h'.2 m (hperm.symm.subset h.1))
      refine (Number.eq_iff_position hm hm').mpr ?_
      cases extreme with
      | least => exact le_antisymm hle hge
      | greatest => exact le_antisymm hge hle

/-- **An extreme of some numbers is one of more numbers** exactly if none of those beats all
of the fewer. -/
theorem IsExtreme.mono_iff {fewer : List Number} {best : Option Number}
    (h : IsExtreme extreme fewer best) (hsub : fewer ⊆ ns) (ordinary : ∀ n ∈ ns, n.Ordinary k) :
    IsExtreme extreme ns best ↔ ∀ n ∈ ns, ∃ m ∈ fewer, n.beats extreme m = false := by
  cases best with
  | none =>
    obtain rfl : fewer = [] := h
    simp [IsExtreme, List.eq_nil_iff_forall_not_mem]
  | some m =>
    obtain ⟨hmem, hbest⟩ := h
    constructor
    · exact fun hall n hn => ⟨m, hmem, hall.2 n hn⟩
    · refine fun hall => ⟨hsub hmem, fun n hn => ?_⟩
      obtain ⟨m', hm', hn'⟩ := hall n hn
      exact Number.beats_trans (ordinary n hn) (ordinary m' (hsub hm')) (ordinary m (hsub hmem))
        hn' (hbest m' hm')

end

/-! ## The loop -/

namespace Table

/-- **The numbers after the last absent one.** -/
def sinceAbsent (xs : List (Option Number)) : List Number :=
  (xs.rtakeWhile Option.isSome).reduceOption

theorem sinceAbsent_subset (xs : List (Option Number)) : sinceAbsent xs ⊆ xs.reduceOption :=
  fun _ hn => List.reduceOption_mem_iff.mpr
    ((List.rtakeWhile_suffix _ xs).subset (List.reduceOption_mem_iff.mp hn))

/-- A number beats another one if it compares as is wanted. -/
theorem threeWay_number {k : Number.Kind} {n m : Number} (hn : n.Ordinary k)
    (hm : m.Ordinary k) (extreme : Extreme) :
    (if isGreatest extreme then threeWay Number.lt n m == .gt
      else threeWay Number.lt n m == .lt) = n.beats extreme m := by
  unfold threeWay Number.beats isGreatest
  cases hlt : n.lt m with
  | true =>
    have hasymm : m.lt n = false := show m.beats .least n = false from
      Number.beats_asymm hn hm hlt
    cases extreme <;> simp [hasymm]
  | false => cases hgt : m.lt n <;> cases extreme <;> simp

/-- **A number** takes the place of the extreme so far if it beats it. -/
theorem choose_number {k : Number.Kind} {extreme : Extreme} {ns : List Number}
    {best : Option Number} (h : IsExtreme extreme ns best) (ordinary : ∀ n ∈ ns, n.Ordinary k)
    {n : Number} (hn : n.Ordinary k) :
    ∃ next, chooseValue (isGreatest extreme) (Value.ofNumber? best) (Value.ofNumber? (some n))
        = Value.ofNumber? next ∧
      IsExtreme extreme (ns ++ [n]) next := by
  refine ⟨some (better extreme best n), ?_, h.concat ordinary hn⟩
  cases best with
  | none => rfl
  | some m =>
    have hbeats := threeWay_number hn (ordinary m h.1) extreme
    unfold chooseValue better
    show (if (if isGreatest extreme then threeWay Number.lt n m == .gt
      else threeWay Number.lt n m == .lt) = true then _ else _) = _
    rw [hbeats]
    dsimp only
    split <;> rfl

/-- **The loop for the greatest value** finds the greatest of the numbers that are there. -/
theorem foldl_greatest {k : Number.Kind} {xs : List (Option Number)}
    (ordinary : ∀ n ∈ xs.reduceOption, n.Ordinary k) :
    ∃ best, (xs.map Value.ofNumber?).foldl (chooseValue (isGreatest .greatest)) .null
        = Value.ofNumber? best ∧
      IsExtreme .greatest xs.reduceOption best := by
  induction xs using List.reverseRecOn with
  | nil => exact ⟨none, rfl, rfl⟩
  | append_singleton xs x ih =>
    rw [List.reduceOption_append] at ordinary ⊢
    have hxs : ∀ n ∈ xs.reduceOption, n.Ordinary k := fun n hn =>
      ordinary n (List.mem_append_left _ hn)
    obtain ⟨best, hfold, hbest⟩ := ih hxs
    rw [List.map_append, List.foldl_append, hfold]
    cases x with
    | none =>
      -- a null is below a number, and replaces only another null
      refine ⟨best, ?_, by simpa using hbest⟩
      cases best <;> rfl
    | some n =>
      exact choose_number hbest hxs (ordinary n (List.mem_append_right _ List.mem_cons_self))

/-- **The loop for the least value** finds the least of the numbers after the last absent
one. -/
theorem foldl_least {k : Number.Kind} {xs : List (Option Number)}
    (ordinary : ∀ n ∈ xs.reduceOption, n.Ordinary k) :
    ∃ best, (xs.map Value.ofNumber?).foldl (chooseValue (isGreatest .least)) .null
        = Value.ofNumber? best ∧
      IsExtreme .least (sinceAbsent xs) best := by
  induction xs using List.reverseRecOn with
  | nil => exact ⟨none, rfl, rfl⟩
  | append_singleton xs x ih =>
    rw [List.reduceOption_append] at ordinary
    have hxs : ∀ n ∈ xs.reduceOption, n.Ordinary k := fun n hn =>
      ordinary n (List.mem_append_left _ hn)
    obtain ⟨best, hfold, hbest⟩ := ih hxs
    rw [List.map_append, List.foldl_append, hfold, sinceAbsent]
    cases x with
    | none =>
      -- a null replaces every number, and is replaced by whatever comes next
      rw [List.rtakeWhile_concat_neg _ _ _ Bool.false_ne_true]
      refine ⟨none, ?_, rfl⟩
      cases best <;> rfl
    | some n =>
      rw [List.rtakeWhile_concat_pos _ _ _ rfl, List.reduceOption_append]
      exact choose_number hbest (fun m hm => hxs m (sinceAbsent_subset xs hm))
        (ordinary n (List.mem_append_right _ List.mem_cons_self))

/-! ## Extremes of a table -/

variable {T : Type}

/-- **A field of numbers that may be absent**, as a query reduces it: its filter has a
verdict on every row, and every row has a number of one kind in the field, or null. -/
structure Measures (table : Table T) (q : Query) (keep : T → Bool) (num : T → Option Number)
    (k : Number.Kind) : Prop where
  /-- The filter has a verdict. -/
  verdict : ∀ e ∈ table.rows, (passes table.bindings q.filter e).outcome = .ok (keep e)
  /-- The value of the field is a number or null. -/
  value : ∃ field, q.targetField = some field ∧
    ∀ e ∈ table.rows, (table.bindings.valueOf e field).outcome = .ok (Value.ofNumber? (num e))
  /-- The numbers are of one kind, and none is not-a-number. -/
  ordinary : ∀ e ∈ table.rows, ∀ n ∈ num e, n.Ordinary k

/-- The numbers of the rows that pass, in order, and where there is none. -/
def measured (table : Table T) (keep : T → Bool) (num : T → Option Number) :
    List (Option Number) :=
  (table.rows.filter keep).map num

namespace Measures

variable {table : Table T} {q : Query} {keep : T → Bool} {num : T → Option Number}
  {k : Number.Kind}

/-- The numbers that are there are ordinary. -/
theorem ordinary_measured (h : table.Measures q keep num k) :
    ∀ n ∈ (table.measured keep num).reduceOption, n.Ordinary k := fun n hn => by
  obtain ⟨e, he, hnum⟩ := List.mem_map.mp (List.reduceOption_mem_iff.mp hn)
  exact h.ordinary e (List.mem_filter.mp he).1 n hnum

/-- The rows may come in any order. -/
theorem perm (h : table.Measures q keep num k) {rows : List T} (hrows : rows.Perm table.rows) :
    Measures { table with rows := rows } q keep num k where
  verdict e he := h.verdict e (hrows.subset he)
  value := by
    obtain ⟨field, hfield, hvalue⟩ := h.value
    exact ⟨field, hfield, fun e he => hvalue e (hrows.subset he)⟩
  ordinary e he := h.ordinary e (hrows.subset he)

/-- The values that the loop goes through, for any operation. -/
theorem outcome_targets (h : table.Measures q keep num k) (operation : Operation) :
    (table.targets { q with operation := operation } (table.rows.filter keep)).outcome
      = .ok ((table.measured keep num).map Value.ofNumber?) := by
  obtain ⟨field, hfield, hvalue⟩ := h.value
  unfold targets requireTarget measured
  rw [hfield, List.map_map]
  exact Run.outcome_each fun e he => hvalue e (List.mem_filter.mp he).1

/-- **The reply to a query for an extreme of the field** is the result of the loop. -/
theorem outcome_extreme (h : table.Measures q keep num k) (extreme : Extreme) :
    (table.scalar { q with operation := extremeOperation extreme }).outcome
      = q.reply (.ok (((table.measured keep num).map Value.ofNumber?).foldl
          (chooseValue (isGreatest extreme)) .null)) := by
  have hrows : (table.filtered { q with operation := extremeOperation extreme }).outcome
      = .ok (table.rows.filter keep) := Run.outcome_keep h.verdict
  have hloop : (table.targets { q with operation := extremeOperation extreme }
        (table.rows.filter keep) >>= fun vs =>
          .done (vs.foldl (chooseValue (isGreatest extreme)) .null)).outcome
      = .ok (((table.measured keep num).map Value.ofNumber?).foldl
          (chooseValue (isGreatest extreme)) .null) := Run.outcome_bind_ok (h.outcome_targets _) _
  have hreply (answer : Except Fault Value) :
      Query.reply { q with operation := extremeOperation extreme } answer = q.reply answer :=
    Query.reply_congr (by rfl) (by rfl) answer
  unfold scalar
  rw [outcome_announce_bind, hreply, Run.outcome_bind_ok hrows, ← hloop]
  cases extreme <;> rfl

end Measures

/-- **What the extremes of a field with absent values are.** The greatest value is the
greatest of the numbers that are there, null if there are none, and in any order of the rows
an equal one. The least value is the least of the numbers after the last absent one; it is
the least of all exactly if no number before is less than all of those. These are the replies to
the query, which are there if it can be written down. -/
theorem extremes_of_present {table : Table T} {q : Query} {keep : T → Bool}
    {num : T → Option Number} {k : Number.Kind} (h : table.Measures q keep num k) :
    (∃ best, (table.scalar { q with operation := .max }).outcome
          = q.reply (.ok (Value.ofNumber? best)) ∧
      IsExtreme .greatest (table.measured keep num).reduceOption best ∧
      ∀ rows : List T, rows.Perm table.rows →
        ∃ best', (scalar { table with rows := rows } { q with operation := .max }).outcome
            = q.reply (.ok (Value.ofNumber? best')) ∧
          (Value.ofNumber? best).eq (Value.ofNumber? best') = true) ∧
    ∃ best, (table.scalar { q with operation := .min }).outcome
          = q.reply (.ok (Value.ofNumber? best)) ∧
      IsExtreme .least (sinceAbsent (table.measured keep num)) best ∧
      (IsExtreme .least (table.measured keep num).reduceOption best ↔
        ∀ n ∈ (table.measured keep num).reduceOption,
          ∃ m ∈ sinceAbsent (table.measured keep num), n.lt m = false) := by
  have ordinary := h.ordinary_measured
  constructor
  · obtain ⟨best, hfold, hbest⟩ := foldl_greatest ordinary
    refine ⟨best, (h.outcome_extreme .greatest).trans (hfold ▸ rfl), hbest,
      fun rows hrows => ?_⟩
    have h' := h.perm hrows
    obtain ⟨best', hfold', hbest'⟩ := foldl_greatest h'.ordinary_measured
    refine ⟨best', (h'.outcome_extreme .greatest).trans (hfold' ▸ rfl), ?_⟩
    have hperm : (measured { table with rows := rows } keep num).reduceOption.Perm
        (table.measured keep num).reduceOption :=
      ((hrows.filter keep).map num).filterMap id
    exact hbest.eq_of_perm hbest' hperm ordinary
  · obtain ⟨best, hfold, hbest⟩ := foldl_least ordinary
    exact ⟨best, (h.outcome_extreme .least).trans (hfold ▸ rfl), hbest,
      hbest.mono_iff (sinceAbsent_subset _) ordinary⟩

/-! ## A sample -/

/-- A rating that may be absent. -/
def ratingField : Field (Option Double) (.optional .double) where
  name := "rating"
  getter e := .done e
  named := rfl

/-- One rating, and after it none. -/
def ratings : Table (Option Double) where
  rows := [some (.ofInt .double 5), none]
  bindings := .bind {} ratingField

/-- A query for all ratings. -/
def ratingQuery : Query where
  operation := .select
  source := "ratings"
  filter := some (.literal (.bool true))
  targetField := some "rating"

theorem isPortable_ratingQuery : ratingQuery.isPortable = true := by
  simp [ratingQuery, Query.isPortable, Query.names, Expr.every, Value.isUtf8]

theorem ratings_measures :
    ratings.Measures ratingQuery (fun _ => true) (Option.map .float) .floating where
  verdict _ _ := rfl
  value := ⟨"rating", rfl, fun e _ => by cases e <;> rfl⟩
  ordinary e he n hn := by
    have hfive : (Floating.ofInt .double 5).val ≠ .nan := by decide
    obtain ⟨x, rfl, rfl⟩ := Option.map_eq_some_iff.mp hn
    simp only [ratings, List.mem_cons, Option.some.injEq, List.not_mem_nil, or_false,
      reduceCtorEq] at he
    refine ⟨rfl, fun y hy => ?_⟩
    obtain rfl : x = y := Number.float.inj hy
    rwa [he]

/-- The extremes of ratings of which the last is absent. -/
theorem extremes_of_present_ratings :
    ratings.Measures ratingQuery (fun _ => true) (Option.map .float) .floating ∧
      (ratings.scalar { ratingQuery with operation := .max }).outcome
        = .ok (.float (.ofInt .double 5)) ∧
      ∃ best, (ratings.scalar { ratingQuery with operation := .min }).outcome
          = .ok (Value.ofNumber? best) ∧
        IsExtreme .least (sinceAbsent (ratings.measured (fun _ => true) (Option.map .float)))
          best := by
  obtain ⟨-, best, hmin, hbest, -⟩ := extremes_of_present ratings_measures
  rw [Query.reply_of_isPortable isPortable_ratingQuery] at hmin
  exact ⟨ratings_measures, rfl, best, hmin, hbest⟩

/-- **A least value that is not the least**: a rating is there, and the result is null. -/
theorem least_not_of_present :
    ¬ ∀ (table : Table (Option Double)) (q : Query) (keep : Option Double → Bool)
        (num : Option Double → Option Number) (k : Number.Kind), table.Measures q keep num k →
        q.isPortable = true → ∃ best, (table.scalar { q with operation := .min }).outcome
            = .ok (Value.ofNumber? best) ∧
          IsExtreme .least (table.measured keep num).reduceOption best := by
  intro ignored
  obtain ⟨best, hmin, hbest⟩ := ignored _ _ _ _ _ ratings_measures isPortable_ratingQuery
  have hnull : (ratings.scalar { ratingQuery with operation := .min }).outcome = .ok .null := rfl
  cases best with
  | none => cases hbest
  | some m => cases hnull.symm.trans hmin

end Table

end Criteria
