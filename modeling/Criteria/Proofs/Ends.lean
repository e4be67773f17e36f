import Criteria.Proofs.Selecting

/-!
# The two ends of a selection

The list of all entities that pass is filtered and then sorted. The first and the last of them
are found in one pass that does neither: it keeps one entity, and gives it up for another one
that comes before it, or, on the way to the last, for one that does not. What the pass keeps at
the end is the front and the back of the list (`Evaluator.ends_of_all`).

For entities that the order ties this is a matter of where they stand in the source, since the
sort is stable. The entity at the front comes before every entity that passes and stands ahead
of it in the source, so none of those is tied with it: it is the earliest one. Read backwards,
a stable arrangement is one by the opposite comparison, and the entity at the back is the latest.
-/

namespace Criteria

open StableSort (ahead tied)
open Std (OrientedCmp ReflCmp TransCmp)

variable {T : Type}

namespace StableSort

variable {c : T → T → Ordering} [TransCmp c]

/-! ## The ends of an arrangement -/

/-- **The front of an arrangement** is the earliest of the least elements of the list. -/
theorem Arranges.exists_split_of_head? {xs s : List T} (hs : Arranges c xs s) {e : T}
    (he : s.head? = some e) :
    ∃ as bs, xs = as ++ e :: bs ∧ (∀ a ∈ as, c e a = .lt) ∧ ∀ b ∈ bs, (c e b).isLE = true := by
  obtain ⟨rest, rfl⟩ := List.head?_eq_some_iff.mp he
  have hahead : ∀ a ∈ xs, ahead c e a = true := by
    intro a ha
    rcases List.mem_cons.mp (hs.perm.mem_iff.mpr ha) with rfl | ha
    · exact ReflCmp.isLE_rfl
    · exact List.rel_of_pairwise_cons hs.sorted ha
  -- the elements tied with the front are in the order of the list, and it is their first one
  have hstable := hs.stable e
  rw [List.filter_cons_of_pos (tied_self e)] at hstable
  obtain ⟨as, bs, rfl, has, -, -⟩ := List.filter_eq_cons_iff.mp hstable.symm
  refine ⟨as, bs, rfl, fun a ha => ?_, fun b hb => hahead b (by simp [hb])⟩
  cases Ordering.isLE_iff_eq_lt_or_eq_eq.mp (hahead a (by simp [ha])) with
  | inl hlt => exact hlt
  | inr heq => exact absurd (beq_iff_eq.mpr heq) (has a ha)

/-- **The back of an arrangement** is the latest of the greatest elements of the list. -/
theorem Arranges.exists_split_of_getLast? {xs s : List T} (hs : Arranges c xs s) {e : T}
    (he : s.getLast? = some e) :
    ∃ as bs, xs = as ++ e :: bs ∧ (∀ a ∈ as, (c a e).isLE = true) ∧ ∀ b ∈ bs, c b e = .lt := by
  obtain ⟨bs, as, hsplit, hbs, has⟩ :=
    hs.opposite.exists_split_of_head? (e := e) (by rw [List.head?_reverse, he])
  refine ⟨as.reverse, bs.reverse, ?_, fun a ha => has a (List.mem_reverse.mp ha),
    fun b hb => hbs b (List.mem_reverse.mp hb)⟩
  rw [← List.reverse_reverse xs, hsplit]
  simp

end StableSort

/-- What a filter keeps around an element is what it keeps of the list around it. -/
theorem exists_split_of_filter {p : T → Bool} {xs as bs : List T} {e : T}
    (h : xs.filter p = as ++ e :: bs) :
    ∃ as' bs', xs = as' ++ e :: bs' ∧ p e = true ∧ as'.filter p = as ∧ bs'.filter p = bs := by
  obtain ⟨front, back, rfl, rfl, hback⟩ := List.filter_eq_append_iff.mp h
  obtain ⟨skipped, bs', rfl, hskipped, he, rfl⟩ := List.filter_eq_cons_iff.mp hback
  refine ⟨front ++ skipped, bs', by simp, he, ?_, rfl⟩
  rw [List.filter_append, List.filter_eq_nil_iff.mpr hskipped, List.append_nil]

/-! ## The ends of a list of entities -/

/-- Which of two entities comes first; without an order neither does. -/
def compareIn (order : Option (SortOrder T)) (a b : T) : Run Ordering :=
  match order with
  | none => .done .eq
  | some order => order.compare a b

theorem SortOrder.Ranks.outcome_compareIn {order : Option (SortOrder T)} {rows : List T}
    {c : T → T → Ordering} (h : Ranks order rows c) {a b : T} (ha : a ∈ rows) (hb : b ∈ rows) :
    (compareIn order a b).outcome = .ok (c a b) := by
  cases order with
  | none => rw [h.absent rfl]; rfl
  | some order => exact h.direct order rfl a ha b hb

namespace Evaluator

/-- **The earliest of the least**: a wanted entity that comes before the wanted ones ahead of it
in the source, and not after those behind it. -/
def Earliest (v : Evaluator T) (wanted : Bool) (source : List T) (order : Option (SortOrder T))
    (e : T) : Prop :=
  ∃ as bs, source = as ++ e :: bs ∧ (v.accepts wanted e).outcome = .ok true ∧
    (∀ a ∈ as, (v.accepts wanted a).outcome = .ok true →
      (compareIn order e a).outcome = .ok .lt) ∧
    ∀ b ∈ bs, (v.accepts wanted b).outcome = .ok true →
      ∃ o, (compareIn order e b).outcome = .ok o ∧ o.isLE = true

/-- **The latest of the greatest**: a wanted entity that the wanted ones behind it in the source
come before, and that those ahead of it do not come after. -/
def Latest (v : Evaluator T) (wanted : Bool) (source : List T) (order : Option (SortOrder T))
    (e : T) : Prop :=
  ∃ as bs, source = as ++ e :: bs ∧ (v.accepts wanted e).outcome = .ok true ∧
    (∀ a ∈ as, (v.accepts wanted a).outcome = .ok true →
      ∃ o, (compareIn order a e).outcome = .ok o ∧ o.isLE = true) ∧
    ∀ b ∈ bs, (v.accepts wanted b).outcome = .ok true →
      (compareIn order b e).outcome = .ok .lt

/-- **The ends of a list of wanted entities**, and where they stand in the source. -/
structure EndsOf (v : Evaluator T) (wanted : Bool) (source : List T)
    (order : Option (SortOrder T)) (xs : List T) (first last : Option T) : Prop where
  /-- The first one is the front of the list, -/
  head : first = xs.head?
  /-- and the last one is the back. -/
  getLast : last = xs.getLast?
  /-- There is none exactly if the list is empty. -/
  none_iff : (first = none ↔ xs = []) ∧ (last = none ↔ xs = [])
  /-- Of tied entities the first one is the earliest, -/
  earliest : ∀ e ∈ first, v.Earliest wanted source order e
  /-- and the last one is the latest. -/
  latest : ∀ e ∈ last, v.Latest wanted source order e

/-- **Around a chosen entity** of the source, what is wanted is what was chosen there. -/
theorem exists_split_of_chosen {p : Predicate T} {source as bs : List T} {e : T}
    (decides : p.Decides source) (negate : Bool) (limits : Limits) (wanted : Bool)
    (h : chosen p (negate == wanted) source = as ++ e :: bs) :
    ∃ as' bs', source = as' ++ e :: bs' ∧
      ((Evaluator.mk p negate limits).accepts wanted e).outcome = .ok true ∧
      (∀ a ∈ as', ((Evaluator.mk p negate limits).accepts wanted a).outcome = .ok true → a ∈ as) ∧
      ∀ b ∈ bs', ((Evaluator.mk p negate limits).accepts wanted b).outcome = .ok true → b ∈ bs := by
  -- what is accepted is what was filtered
  have haccepts : ∀ a ∈ source, ((Evaluator.mk p negate limits).accepts wanted a).outcome
      = .ok true ↔ (p.verdict a != (negate == wanted)) = true := fun a ha => by
    rw [outcome_accepts (decides a ha), Except.ok.injEq]
  obtain ⟨as', bs', rfl, hpasses, rfl, rfl⟩ := exists_split_of_filter h
  refine ⟨as', bs', rfl, (haccepts e (by simp)).mpr hpasses, fun a ha hwanted => ?_,
    fun b hb hwanted => ?_⟩
  · exact List.mem_filter.mpr ⟨ha, (haccepts a (by simp [ha])).mp hwanted⟩
  · exact List.mem_filter.mpr ⟨hb, (haccepts b (by simp [hb])).mp hwanted⟩

/-- **The passes find the ends** of the sorted list, for entities of either kind. -/
theorem exists_endsOf {v : Evaluator T} {source : List T} {order : Option (SortOrder T)}
    (decides : v.predicate.Decides source) (total : ∀ o ∈ order, o.TotalOn source)
    (wanted : Bool) :
    ∃ xs first last, (v.select source order wanted).outcome = .ok xs ∧
      (v.firstWhere source order wanted).outcome = .ok first ∧
      (v.lastWhere source order wanted).outcome = .ok last ∧
      v.EndsOf wanted source order xs first last := by
  obtain ⟨p, negate, limits⟩ := v
  obtain ⟨c, ho⟩ := SortOrder.exists_ranks total
  have := ho.total
  have harranges := StableSort.arranges_mergeSort (c := c) (chosen p (negate == wanted) source)
  refine ⟨_, _, _, outcome_select decides ho negate limits wanted,
    outcome_firstWhere decides ho negate limits wanted,
    outcome_lastWhere decides ho negate limits wanted, ?_⟩
  constructor
  case head => rfl
  case getLast => rfl
  case none_iff => exact ⟨List.head?_eq_none_iff, List.getLast?_eq_none_iff⟩
  case earliest =>
    intro e he
    obtain ⟨as, bs, hsplit, has, hbs⟩ := harranges.exists_split_of_head? he
    obtain ⟨as', bs', rfl, haccepted, has', hbs'⟩ :=
      exists_split_of_chosen decides negate limits wanted hsplit
    refine ⟨as', bs', rfl, haccepted, fun a ha hwanted => ?_, fun b hb hwanted => ?_⟩
    · rw [ho.outcome_compareIn (by simp) (by simp [ha]), has a (has' a ha hwanted)]
    · exact ⟨_, ho.outcome_compareIn (by simp) (by simp [hb]), hbs b (hbs' b hb hwanted)⟩
  case latest =>
    intro e he
    obtain ⟨as, bs, hsplit, has, hbs⟩ := harranges.exists_split_of_getLast? he
    obtain ⟨as', bs', rfl, haccepted, has', hbs'⟩ :=
      exists_split_of_chosen decides negate limits wanted hsplit
    refine ⟨as', bs', rfl, haccepted, fun a ha hwanted => ?_, fun b hb hwanted => ?_⟩
    · exact ⟨_, ho.outcome_compareIn (by simp [ha]) (by simp), has a (has' a ha hwanted)⟩
    · rw [ho.outcome_compareIn (by simp [hb]) (by simp), hbs b (hbs' b hb hwanted)]

/-- **The first and the last entity are the ends of the list** of all that pass, and of all that
do not, if the predicate decides the source and the order, if there is one, is total on it. -/
theorem ends_of_all (v : Evaluator T) (source : List T) (order : Option (SortOrder T))
    (decides : v.predicate.Decides source) (total : ∀ o ∈ order, o.TotalOn source) :
    (∃ xs first last, (v.all source order).outcome = .ok xs ∧
      (v.first source order).outcome = .ok first ∧ (v.last source order).outcome = .ok last ∧
      v.EndsOf true source order xs first last) ∧
    ∃ xs first last, (v.allFailed source order).outcome = .ok xs ∧
      (v.firstFailed source order).outcome = .ok first ∧
      (v.lastFailed source order).outcome = .ok last ∧
      v.EndsOf false source order xs first last :=
  ⟨exists_endsOf decides total true, exists_endsOf decides total false⟩

open Predicate (flags flagRows flags_decides)
open SortOrder (rightFirst rightFirst_totalOn)

/-- The ends of the pairs of flags that pass and of those that fail, in an order that ties many
of them. -/
theorem ends_of_all_flags :
    flags.Decides flagRows ∧ (∀ o ∈ some rightFirst, o.TotalOn flagRows) ∧
      (∃ xs first last, ((Evaluator.mk flags true {}).all flagRows (some rightFirst)).outcome
          = .ok xs ∧
        ((Evaluator.mk flags true {}).first flagRows (some rightFirst)).outcome = .ok first ∧
        ((Evaluator.mk flags true {}).last flagRows (some rightFirst)).outcome = .ok last ∧
        (Evaluator.mk flags true {}).EndsOf true flagRows (some rightFirst) xs first last) ∧
      ∃ xs first last, ((Evaluator.mk flags true {}).allFailed flagRows (some rightFirst)).outcome
          = .ok xs ∧
        ((Evaluator.mk flags true {}).firstFailed flagRows (some rightFirst)).outcome
          = .ok first ∧
        ((Evaluator.mk flags true {}).lastFailed flagRows (some rightFirst)).outcome = .ok last ∧
        (Evaluator.mk flags true {}).EndsOf false flagRows (some rightFirst) xs first last := by
  have htotal : ∀ o ∈ some rightFirst, o.TotalOn flagRows := by
    rintro o ⟨⟩
    exact rightFirst_totalOn flagRows
  exact ⟨flags_decides, htotal,
    ends_of_all (Evaluator.mk flags true {}) flagRows (some rightFirst) flags_decides htotal⟩

end Evaluator

end Criteria
