import Criteria.Proofs.Numbers
import Criteria.Proofs.Serving

/-!
# The comparison of values

Descriptions sort by one comparison of values of all kinds. It ranks the kinds, and arrays and
objects compare by what is in them. To exchange two values is to turn its answer round
(`Value.compareBy_swap`), and that is so for all values, a not-a-number among them.

Whether not to come after is transitive depends on the numbers in the values. If these can be
ordered (`Number.Coherent`) then so can the values, however deep the numbers are in them
(`Value.compareBy_isLE_trans`), and a table that sorts by such values sorts by a total preorder
(`Table.exists_comparison_of_values`). In general they cannot: three integers can each come
before the next one, and the last before the first (`Value.not_compare_isLE_trans`).

Transitivity is not what an induction on values carries. Where arrays compare by their first
elements, we need that the tie of two of them settles how each compares with a third. So we go
round the three instead: if none comes after the next one, all are tied (`Flat`). This passes to
a comparison by two things in turn, and from elements to lists.
-/

namespace Criteria

open Std (OrientedCmp TransCmp)

variable {T : Type}

/-! ## Exchanging lists and pairs -/

/-- Lists are exchanged where their elements are. -/
theorem compareLex_swap {α : Type} {c : α → α → Ordering} {xs ys : List α}
    (h : ∀ x ∈ xs, ∀ y ∈ ys, c y x = (c x y).swap) :
    ys.compareLex c xs = (xs.compareLex c ys).swap := by
  induction xs generalizing ys with
  | nil => cases ys <;> rfl
  | cons x xs ih =>
    cases ys with
    | nil => rfl
    | cons y ys =>
      rw [List.compareLex_cons_cons, List.compareLex_cons_cons, Ordering.swap_then,
        h x List.mem_cons_self y List.mem_cons_self,
        ih fun u hu w hw => h u (List.mem_cons_of_mem x hu) w (List.mem_cons_of_mem y hw)]

theorem pairCompare_swap {α : Type} {c : α → α → Ordering} {m n : Text × α}
    (h : c n.2 m.2 = (c m.2 n.2).swap) : pairCompare c n m = (pairCompare c m n).swap := by
  unfold pairCompare
  rw [Ordering.swap_then, h, ← transCmp_text.toOrientedCmp.eq_swap]

/-! ## Comparisons round a circle -/

/-- **Three comparisons that go round** are flat: if in none of them something comes after, all
are ties. -/
def Flat (p q r : Ordering) : Prop :=
  p.isLE = true → q.isLE = true → r.isLE = true → p = .eq ∧ q = .eq ∧ r = .eq

/-- A total preorder is flat. -/
theorem flat_of_transCmp {α : Type} {c : α → α → Ordering} (h : TransCmp c) (a b d : α) :
    Flat (c a b) (c b d) (c d a) := fun hab hbd hda =>
  ⟨OrientedCmp.isLE_antisymm hab (TransCmp.isLE_trans hbd hda),
    OrientedCmp.isLE_antisymm hbd (TransCmp.isLE_trans hda hab),
    OrientedCmp.isLE_antisymm hda (TransCmp.isLE_trans hab hbd)⟩

/-- What is flat is transitive. -/
theorem Flat.isLE {p q r : Ordering} (h : Flat p q r.swap) (hp : p.isLE = true)
    (hq : q.isLE = true) : r.isLE = true := by
  cases r with
  | lt => rfl
  | eq => rfl
  | gt => cases (h hp hq rfl).2.2

/-- **A second comparison** has to be flat only where the first one ties. -/
theorem Flat.andThen {p q r p' q' r' : Ordering} (h : Flat p q r)
    (h' : p = .eq → q = .eq → r = .eq → Flat p' q' r') :
    Flat (p.then p') (q.then q') (r.then r') := by
  intro hp hq hr
  obtain ⟨rfl, rfl, rfl⟩ := h (Ordering.isLE_left_of_isLE_then hp)
    (Ordering.isLE_left_of_isLE_then hq) (Ordering.isLE_left_of_isLE_then hr)
  exact h' rfl rfl rfl hp hq hr

theorem flat_pairCompare {α : Type} {c : α → α → Ordering} {l m n : Text × α}
    (h : Flat (c l.2 m.2) (c m.2 n.2) (c n.2 l.2)) :
    Flat (pairCompare c l m) (pairCompare c m n) (pairCompare c n l) :=
  (flat_of_transCmp transCmp_text l.1 m.1 n.1).andThen fun _ _ _ => h

/-- **Lists are flat** where their elements are. -/
theorem flat_compareLex {α : Type} {c : α → α → Ordering} {xs ys zs : List α}
    (h : ∀ x ∈ xs, ∀ y ∈ ys, ∀ z ∈ zs, Flat (c x y) (c y z) (c z x)) :
    Flat (xs.compareLex c ys) (ys.compareLex c zs) (zs.compareLex c xs) := by
  induction xs generalizing ys zs with
  | nil =>
    intro _ hyz hzx
    -- a list that does not come after the empty one is empty
    cases zs with
    | cons z zs => cases hzx
    | nil =>
      cases ys with
      | cons y ys => cases hyz
      | nil => exact ⟨rfl, rfl, rfl⟩
  | cons x xs ih =>
    cases ys with
    | nil => intro hxy; cases hxy
    | cons y ys =>
      cases zs with
      | nil => intro _ hyz; cases hyz
      | cons z zs =>
        simp only [List.compareLex_cons_cons]
        have hhead := h x List.mem_cons_self y List.mem_cons_self z List.mem_cons_self
        refine hhead.andThen fun _ _ _ => ih fun u hu v hv w hw => ?_
        exact h u (List.mem_cons_of_mem x hu) v (List.mem_cons_of_mem y hv) w
          (List.mem_cons_of_mem z hw)

/-! ## Numbers -/

theorem Number.threeWay_lt_swap (m n : Number) : threeWay lt n m = (threeWay lt m n).swap :=
  threeWay_swap lt_asymm m n

/-- Numbers that can be ordered are. -/
theorem Number.Coherent.transCmp {N : Number → Prop} (h : Coherent N) :
    TransCmp fun a b : {n // N n} => threeWay lt a b := by
  show TransCmp (threeWay fun a b : {n // N n} => lt a b)
  exact transCmp_threeWay (fun a b => lt_asymm a b) fun a b d hba hdb =>
    h d b a d.2 b.2 a.2 hdb hba

namespace Value

/-! ## Values by their numbers -/

/-- **A value whose numbers have a property**, as deep as they are. -/
inductive Over (N : Number → Prop) : Value → Prop
  | null : Over N .null
  | bool (b : Bool) : Over N (.bool b)
  | number {n : Number} (h : N n) : Over N (.number n)
  | string (t : Text) : Over N (.string t)
  | array {xs : List Value} (h : ∀ x ∈ xs, Over N x) : Over N (.array xs)
  | object {ms : List (Text × Value)} (h : ∀ m ∈ ms, Over N m.2) : Over N (.object ms)

mutual

/-- A value has whatever numbers it has, which gives an induction on values. -/
theorem over_true : ∀ v : Value, v.Over fun _ => True
  | .null => .null
  | .bool b => .bool b
  | .number _ => .number trivial
  | .string t => .string t
  | .array xs => .array (elements_over_true xs)
  | .object ms => .object (members_over_true ms)

theorem elements_over_true : ∀ xs : List Value, ∀ x ∈ xs, x.Over fun _ => True
  | [] => List.forall_mem_nil _
  | x :: xs => List.forall_mem_cons.mpr ⟨over_true x, elements_over_true xs⟩

theorem members_over_true : ∀ ms : List (Text × Value), ∀ m ∈ ms, m.2.Over fun _ => True
  | [] => List.forall_mem_nil _
  | (_, v) :: ms => List.forall_mem_cons.mpr ⟨over_true v, members_over_true ms⟩

end

/-! ## The comparison by kinds and by elements -/

section

variable {rank : Kind → Nat}

/-- Arrays compare lexicographically. -/
theorem compareElements_eq (xs ys : List Value) :
    compareElements rank xs ys = xs.compareLex (compareBy rank) ys := by
  have h := FieldType.compareElements_map (f := id)
    (fun x y => (rfl : compareBy rank x y = compareBy rank x y)) xs ys
  rwa [List.map_id, List.map_id] at h

/-- Objects compare lexicographically by their keys and values. -/
theorem compareMembers_eq (ms ns : List (Text × Value)) :
    compareMembers rank ms ns = ms.compareLex (pairCompare (compareBy rank)) ns := by
  have h := FieldType.compareMembers_map (f := id)
    (fun x y => (rfl : compareBy rank x y = compareBy rank x y)) ms ns
  rwa [show ms.map (fun m => (m.1, id m.2)) = ms from List.map_id ms,
    show ns.map (fun m => (m.1, id m.2)) = ns from List.map_id ns] at h

/-- Values of two kinds compare by the ranks of these. -/
theorem compareBy_of_kind_ne {a b : Value} (h : a.kind ≠ b.kind) :
    compareBy rank a b = threeWay (fun m n => decide (m < n)) (rank a.kind) (rank b.kind) := by
  cases a <;> cases b <;> first | rfl | exact absurd rfl h

theorem rank_asymm (m n : Nat) (h : decide (m < n) = true) : decide (n < m) = false :=
  decide_eq_false (of_decide_eq_true h).asymm

/-- What does not come after is not of a higher kind. -/
theorem rank_le_of_isLE {a b : Value} (h : (compareBy rank a b).isLE = true) :
    rank a.kind ≤ rank b.kind := by
  by_cases hkind : a.kind = b.kind
  · rw [hkind]
  · rw [compareBy_of_kind_ne hkind, isLE_threeWay_iff rank_asymm, decide_eq_false_iff_not] at h
    exact not_lt.mp h

/-- Two values need to be exchanged only if they are of one kind. -/
theorem swap_of_kind {a b : Value}
    (h : b.kind = a.kind → compareBy rank b a = (compareBy rank a b).swap) :
    compareBy rank b a = (compareBy rank a b).swap := by
  by_cases hkind : b.kind = a.kind
  · exact h hkind
  · rw [compareBy_of_kind_ne hkind, compareBy_of_kind_ne (Ne.symm hkind)]
    exact threeWay_swap rank_asymm _ _

/-- Three values need to be compared only if they are of one kind. -/
theorem flat_of_kind (hrank : Function.Injective rank) {a b d : Value}
    (h : b.kind = a.kind → d.kind = a.kind →
      Flat (compareBy rank a b) (compareBy rank b d) (compareBy rank d a)) :
    Flat (compareBy rank a b) (compareBy rank b d) (compareBy rank d a) := by
  intro hab hbd hda
  have hab' := rank_le_of_isLE hab
  have hbd' := rank_le_of_isLE hbd
  have hda' := rank_le_of_isLE hda
  exact h (hrank (by omega)) (hrank (by omega)) hab hbd hda

/-! ## Laws of the comparison -/

/-- **To exchange two values** is to turn their comparison round. -/
theorem compareBy_swap (a b : Value) : compareBy rank b a = (compareBy rank a b).swap := by
  induction over_true a generalizing b with
  | null =>
    refine swap_of_kind fun hkind => ?_
    cases b with
    | null => rfl
    | _ => cases hkind
  | bool x =>
    refine swap_of_kind fun hkind => ?_
    cases b with
    | bool y => exact (FieldType.transCmp_compare .bool).toOrientedCmp.eq_swap
    | _ => cases hkind
  | @number x =>
    refine swap_of_kind fun hkind => ?_
    cases b with
    | number y => exact Number.threeWay_lt_swap x y
    | _ => cases hkind
  | string x =>
    refine swap_of_kind fun hkind => ?_
    cases b with
    | string y => exact transCmp_text.toOrientedCmp.eq_swap
    | _ => cases hkind
  | array _ ih =>
    refine swap_of_kind fun hkind => ?_
    cases b with
    | array ys =>
      simp only [compareBy, compareElements_eq]
      exact compareLex_swap fun x hx y _ => ih x hx y
    | _ => cases hkind
  | object _ ih =>
    refine swap_of_kind fun hkind => ?_
    cases b with
    | object ns =>
      simp only [compareBy, compareMembers_eq]
      exact compareLex_swap fun m hm n _ => pairCompare_swap (ih m hm n.2)
    | _ => cases hkind

/-- **Values whose numbers can be ordered** are flat. -/
theorem flat_compareBy (hrank : Function.Injective rank) {N : Number → Prop}
    (hN : Number.Coherent N) {a b d : Value} (ha : a.Over N) (hb : b.Over N) (hd : d.Over N) :
    Flat (compareBy rank a b) (compareBy rank b d) (compareBy rank d a) := by
  induction ha generalizing b d with
  | null =>
    refine flat_of_kind hrank fun hkb hkd => ?_
    cases hb with
    | null =>
      cases hd with
      | null => exact fun _ _ _ => ⟨rfl, rfl, rfl⟩
      | _ => cases hkd
    | _ => cases hkb
  | bool x =>
    refine flat_of_kind hrank fun hkb hkd => ?_
    cases hb with
    | bool y =>
      cases hd with
      | bool z => exact flat_of_transCmp (FieldType.transCmp_compare .bool) x y z
      | _ => cases hkd
    | _ => cases hkb
  | number hx =>
    refine flat_of_kind hrank fun hkb hkd => ?_
    cases hb with
    | number hy =>
      cases hd with
      | number hz => exact flat_of_transCmp hN.transCmp ⟨_, hx⟩ ⟨_, hy⟩ ⟨_, hz⟩
      | _ => cases hkd
    | _ => cases hkb
  | string x =>
    refine flat_of_kind hrank fun hkb hkd => ?_
    cases hb with
    | string y =>
      cases hd with
      | string z => exact flat_of_transCmp transCmp_text x y z
      | _ => cases hkd
    | _ => cases hkb
  | array hxs ih =>
    refine flat_of_kind hrank fun hkb hkd => ?_
    cases hb with
    | array hys =>
      cases hd with
      | array hzs =>
        simp only [compareBy, compareElements_eq]
        exact flat_compareLex fun x hx y hy z hz => ih x hx (hys y hy) (hzs z hz)
      | _ => cases hkd
    | _ => cases hkb
  | object hms ih =>
    refine flat_of_kind hrank fun hkb hkd => ?_
    cases hb with
    | object hns =>
      cases hd with
      | object hls =>
        simp only [compareBy, compareMembers_eq]
        exact flat_compareLex fun m hm n hn l hl => flat_pairCompare (ih m hm (hns n hn) (hls l hl))
      | _ => cases hkd
    | _ => cases hkb

/-- **Not to come after is transitive** among values whose numbers can be ordered. -/
theorem compareBy_isLE_trans (hrank : Function.Injective rank) {N : Number → Prop}
    (hN : Number.Coherent N) {a b d : Value} (ha : a.Over N) (hb : b.Over N) (hd : d.Over N)
    (hab : (compareBy rank a b).isLE = true) (hbd : (compareBy rank b d).isLE = true) :
    (compareBy rank a d).isLE = true := by
  have hflat := flat_compareBy hrank hN ha hb hd
  rw [compareBy_swap a d] at hflat
  exact hflat.isLE hab hbd

/-- The comparison is a total preorder of such values. -/
theorem transCmp_compareBy (hrank : Function.Injective rank) {N : Number → Prop}
    (hN : Number.Coherent N) :
    TransCmp fun a b : {v : Value // v.Over N} => compareBy rank a b where
  eq_swap {a b} := compareBy_swap b.1 a.1
  isLE_trans {a b d} := compareBy_isLE_trans hrank hN a.2 b.2 d.2

end

theorem describedRank_injective : Function.Injective describedRank := by
  intro k l h
  cases k <;> cases l <;> first | rfl | cases h

/-- Two numbers compare as values do. -/
theorem isLE_compare_number (m n : Number) :
    ((Value.number m).compare (.number n)).isLE = true ↔ n.lt m = false :=
  isLE_threeWay_iff Number.lt_asymm m n

/-- **Values can be ordered exactly if their numbers can.** -/
theorem coherent_iff (N : Number → Prop) :
    Number.Coherent N ↔ ∀ a b d : Value, a.Over N → b.Over N → d.Over N →
      (a.compare b).isLE = true → (b.compare d).isLE = true → (a.compare d).isLE = true := by
  constructor
  · intro hN a b d ha hb hd
    exact compareBy_isLE_trans describedRank_injective hN ha hb hd
  · intro htrans l m n hl hm hn hlm hmn
    rw [← isLE_compare_number] at hlm hmn ⊢
    exact htrans _ _ _ (.number hn) (.number hm) (.number hl) hmn hlm

end Value

/-! ## Sorting by values -/

namespace Table

/-- **A field that has a value** for every entity, with numbers that have a property. -/
def HasValues (b : Bindings T) (rows : List T) (N : Number → Prop) (name : Text) : Prop :=
  ∀ e ∈ rows, ∃ v, (b.valueOf e name).outcome = .ok v ∧ v.Over N

/-- **A table sorts by a total preorder** where the numbers in the values of each field can be
ordered. -/
theorem exists_comparison_of_coherent {b : Bindings T} {rows : List T} (fields : List SortField)
    (values : ∀ field ∈ fields, ∃ N, Number.Coherent N ∧ HasValues b rows N field.field) :
    ∃ c, TransCmp c ∧ ∀ x ∈ rows, ∀ y ∈ rows, (compareBy b fields x y).outcome = .ok (c x y) := by
  induction fields with
  | nil =>
    exact ⟨fun _ _ => .eq, { eq_swap := rfl, isLE_trans := fun _ _ => rfl }, fun _ _ _ _ => rfl⟩
  | cons field fields ih =>
    obtain ⟨rest, hrest, hcompare⟩ := ih fun f hf => values f (List.mem_cons_of_mem field hf)
    obtain ⟨N, hN, hvalues⟩ := values field List.mem_cons_self
    obtain ⟨first, hfirst, hdata⟩ := SortOrder.exists_comparison_of_data
      (Value.transCmp_compareBy Value.describedRank_injective hN) hvalues
    have := SortOrder.transCmp_apply hfirst field.direction
    refine ⟨compareLex (fun x y => field.direction.apply (first x y)) rest, inferInstance,
      fun x hx y hy => ?_⟩
    obtain ⟨u, w, hu, hw, huw⟩ := hdata x hx y hy
    unfold compareBy
    rw [Run.outcome_bind_ok hu, Run.outcome_bind_ok hw, Value.compare, ← huw]
    exact SortOrder.outcome_then _ (hcompare x hx y hy)

/-- It does where the numbers of all fields can be ordered together. -/
theorem exists_comparison_of_values {b : Bindings T} {rows : List T} {N : Number → Prop}
    (hN : Number.Coherent N) (fields : List SortField)
    (values : ∀ field ∈ fields, HasValues b rows N field.field) :
    ∃ c, TransCmp c ∧ ∀ x ∈ rows, ∀ y ∈ rows, (compareBy b fields x y).outcome = .ok (c x y) :=
  exists_comparison_of_coherent fields fun field hf => ⟨N, hN, values field hf⟩

end Table

namespace Value

/-- **The comparison of values** is turned round with its arguments. It is transitive exactly
among values whose numbers can be ordered, as numbers of one kind can, integers below `2 ^ 63`,
and numbers that floating-point numbers hold; and by such values a table sorts by a total
preorder. -/
theorem compare_total (N : Number → Prop) :
    (∀ a b : Value, b.compare a = (a.compare b).swap) ∧
      (Number.Coherent N ↔ ∀ a b d : Value, a.Over N → b.Over N → d.Over N →
        (a.compare b).isLE = true → (b.compare d).isLE = true → (a.compare d).isLE = true) ∧
      (((∃ k, ∀ n, N n → n.Ordinary k) ∨ (∀ n, N n → n.IsWord) ∨ ∀ n, N n → n.IsPrecise) →
        Number.Coherent N) ∧
      (Number.Coherent N → ∀ (T : Type) (b : Bindings T) (rows : List T) (fields : List SortField),
        (∀ field ∈ fields, Table.HasValues b rows N field.field) →
          ∃ c, TransCmp c ∧
            ∀ x ∈ rows, ∀ y ∈ rows, (Table.compareBy b fields x y).outcome = .ok (c x y)) := by
  refine ⟨compareBy_swap, coherent_iff N, ?_, fun hN T b rows =>
    Table.exists_comparison_of_values hN⟩
  rintro (⟨k, hk⟩ | hword | hprecise)
  · exact (Number.coherent_ordinary k).mono hk
  · exact Number.coherent_isWord.mono hword
  · exact Number.coherent_isPrecise.mono hprecise

/-- A value as a field of itself. -/
def itself : Field Value .value := ⟨"itself", .done, rfl⟩

/-- Three kinds of numbers. -/
def mixedNumbers : List Value := [.uint 2, .int (-1), .float (.ofInt .double 1)]

/-- Sorting numbers of three kinds. -/
theorem compare_total_mixed :
    ∃ c, TransCmp c ∧ ∀ x ∈ mixedNumbers, ∀ y ∈ mixedNumbers,
      (Table.compareBy (.bind {} itself) [⟨"itself", .descending⟩] x y).outcome = .ok (c x y) := by
  obtain ⟨-, -, hcoherent, htable⟩ := compare_total Number.IsPrecise
  refine htable (hcoherent (.inr (.inr fun _ h => h))) Value _ mixedNumbers _ fun field hfield => ?_
  obtain rfl := List.mem_singleton.mp hfield
  intro e he
  refine ⟨e, rfl, ?_⟩
  simp only [mixedNumbers, List.mem_cons, List.not_mem_nil, or_false] at he
  rcases he with rfl | rfl | rfl <;> exact .number (by decide)

/-- A number, and not a not-a-number. -/
def IsNumeric (n : Number) : Prop := ∀ x, n = .float x → x.val ≠ .nan

/-- **Values without a not-a-number that cannot be ordered**: an unsigned integer that as a
signed one is negative comes before `-1`, which comes before zero, which comes before it. -/
theorem not_compare_isLE_trans :
    ¬ ∀ a b d : Value, a.Over IsNumeric → b.Over IsNumeric → d.Over IsNumeric →
      (a.compare b).isLE = true → (b.compare d).isLE = true → (a.compare d).isLE = true := by
  intro htrans
  have hcycle := htrans (.uint 18446744073709551614) (.int (-1)) (.uint 0)
    (.number fun _ h => nomatch h) (.number fun _ h => nomatch h) (.number fun _ h => nomatch h)
    (by decide) (by decide)
  revert hcycle
  decide

end Value

end Criteria
