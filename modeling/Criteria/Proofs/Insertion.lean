import Criteria.Proofs.Ends
import Criteria.Proofs.Positions

/-!
# Positions after an insertion

Where an entity stands in the sorted source is a number that can be read off the source
(`StableSort.rank`): the entities that come before it are counted, and so are those tied with it
that stand ahead of it in the source. The sort is stable, so these are the entities ahead of it
when sorted (`StableSort.Arranges.exists_split_at`).

The first entity that passes comes before all others that pass and are ahead of it in the source,
and after none behind it. So nothing that passes is counted for it, and its rank is the position
that a search from the front ends at; for the last entity it is the same from the back
(`Evaluator.outcome_lastIndex_eq_rank`). One more entity that does not pass leaves both of them
what they are. It adds one to the rank if it comes before the entity, or is tied with it and
inserted ahead of it, and nothing otherwise (`Evaluator.insertion_shifts`).
-/

namespace Criteria

open StableSort (ahead tied)
open Std (OrientedCmp ReflCmp TransCmp)

variable {T : Type}

namespace StableSort

variable {c : T → T → Ordering}

/-! ## Ranks -/

/-- **The rank of an element** in a list: how many elements come before it, or are tied with it
and stand ahead of it. -/
def rank (c : T → T → Ordering) (as : List T) (e : T) (bs : List T) : ℕ :=
  as.countP (tied c e) + (as ++ e :: bs).countP fun a => c a e == .lt

variable [TransCmp c]

/-- Of elements that may stand ahead of another one some are tied with it, and the others come
before it. -/
theorem length_eq_of_ahead {e : T} {as : List T} (h : ∀ a ∈ as, ahead c a e = true) :
    as.length = as.countP (tied c e) + as.countP fun a => c a e == .lt := by
  rw [List.length_eq_countP_add_countP (tied c e)]
  refine congrArg (_ + ·) (List.countP_congr fun a ha => ?_)
  have hswap : c e a = (c a e).swap := OrientedCmp.eq_swap
  have hahead : (c a e).isLE = true := h a ha
  unfold tied
  rw [hswap]
  cases hae : c a e <;> simp_all

/-- **An arrangement around an element**: as many elements are ahead of it as its rank says, and
those tied with it are on the side where they are in the list. -/
theorem Arranges.exists_split_at {as bs s : List T} {e : T}
    (hs : Arranges c (as ++ e :: bs) s) :
    ∃ P Q, s = P ++ e :: Q ∧ P.length = rank c as e bs ∧
      (∀ a ∈ P, c a e = .lt ∨ c a e = .eq ∧ a ∈ as) ∧
      ∀ b ∈ Q, c e b = .lt ∨ c e b = .eq ∧ b ∈ bs := by
  have hstable := hs.stable e
  rw [List.filter_append, List.filter_cons_of_pos (tied_self e)] at hstable
  obtain ⟨P, Q, rfl, -, hP, hQ⟩ := exists_split_of_filter hstable
  obtain ⟨-, hsorted, hcross⟩ := List.pairwise_append.mp hs.sorted
  have hPahead : ∀ a ∈ P, ahead c a e = true := fun a ha => hcross a ha e List.mem_cons_self
  have hQahead : ∀ b ∈ e :: Q, ahead c e b = true := fun b hb => by
    rcases List.mem_cons.mp hb with rfl | hb
    · exact ReflCmp.isLE_rfl
    · exact List.rel_of_pairwise_cons hsorted hb
  refine ⟨P, Q, rfl, ?_, fun a ha => ?_, fun b hb => ?_⟩
  · have htied : P.countP (tied c e) = as.countP (tied c e) := by
      rw [List.countP_eq_length_filter, hP, ← List.countP_eq_length_filter]
    have hbehind : (e :: Q).countP (fun a => c a e == .lt) = 0 :=
      List.countP_eq_zero.mpr fun b hb => by
        rw [Bool.not_eq_true, ← Bool.not_eq_true', ← ahead_eq_not_lt]
        exact hQahead b hb
    rw [length_eq_of_ahead hPahead, rank, htied, ← hs.perm.countP_eq, List.countP_append, hbehind]
    rfl
  · refine (Ordering.isLE_iff_eq_lt_or_eq_eq.mp (hPahead a ha)).imp_right fun heq => ⟨heq, ?_⟩
    have hmem : a ∈ P.filter (tied c e) :=
      List.mem_filter.mpr ⟨ha, beq_iff_eq.mpr (OrientedCmp.eq_symm heq)⟩
    rw [hP] at hmem
    exact List.mem_of_mem_filter hmem
  · refine (Ordering.isLE_iff_eq_lt_or_eq_eq.mp (hQahead b (by simp [hb]))).imp_right
      fun heq => ⟨heq, ?_⟩
    have hmem : b ∈ Q.filter (tied c e) := List.mem_filter.mpr ⟨hb, beq_iff_eq.mpr heq⟩
    rw [hQ] at hmem
    exact List.mem_of_mem_filter hmem

/-- One more element ahead counts if it may stand ahead. -/
theorem rank_insert_ahead (front rest bs : List T) (x m : T) :
    rank c (front ++ x :: rest) m bs
      = rank c (front ++ rest) m bs + if (c x m).isLE then 1 else 0 := by
  have hswap : c m x = (c x m).swap := OrientedCmp.eq_swap
  simp only [rank, List.countP_append, List.countP_cons, tied, hswap]
  cases c x m <;> simp <;> omega

omit [TransCmp c] in
/-- One more element behind counts if it comes before. -/
theorem rank_insert_behind (as rest back : List T) (x m : T) :
    rank c as m (rest ++ x :: back)
      = rank c as m (rest ++ back) + if c x m == .lt then 1 else 0 := by
  simp only [rank, List.countP_append, List.countP_cons]
  omega

/-- **One more element adds one to a rank, or nothing.** -/
theorem exists_rank_insert {front back as bs : List T} {x m : T}
    (hsplit : front ++ back = as ++ m :: bs) :
    ∃ as' bs', front ++ x :: back = as' ++ m :: bs' ∧
      (∀ a ∈ as', a = x ∨ a ∈ as) ∧ (∀ b ∈ bs', b = x ∨ b ∈ bs) ∧
      (c x m = .lt ∨ c x m = .eq ∧ front.length ≤ as.length →
        rank c as' m bs' = rank c as m bs + 1) ∧
      (c m x = .lt ∨ c m x = .eq ∧ as.length < front.length →
        rank c as' m bs' = rank c as m bs) := by
  have hswap : c m x = (c x m).swap := OrientedCmp.eq_swap
  rcases Nat.lt_or_ge as.length front.length with hlt | hle
  · -- inserted behind it, the element counts only if it comes before
    have hm : as ++ [m] <+: front ++ back := ⟨bs, by rw [hsplit, List.append_assoc]; rfl⟩
    obtain ⟨rest, rfl⟩ : as ++ [m] <+: front := by
      refine List.prefix_of_prefix_length_le hm (List.prefix_append front back) ?_
      rw [List.length_append]
      exact hlt
    rw [List.append_assoc, List.append_assoc, List.singleton_append] at hsplit
    obtain ⟨-, rfl⟩ := List.cons.inj (List.append_cancel_left hsplit)
    refine ⟨as, rest ++ x :: back, by simp, fun _ ha => .inr ha,
      fun _ hb => List.mem_cons.mp (List.perm_middle.mem_iff.mp hb), ?_⟩
    rw [rank_insert_behind, hswap]
    cases c x m <;> simp
  · -- inserted ahead of it, it counts if it is tied with it as well
    have has : as <+: front ++ back := hsplit ▸ List.prefix_append as (m :: bs)
    obtain ⟨rest, rfl⟩ : front <+: as :=
      List.prefix_of_prefix_length_le (List.prefix_append front back) has hle
    rw [List.append_assoc] at hsplit
    obtain rfl := List.append_cancel_left hsplit
    refine ⟨front ++ x :: rest, bs, by simp,
      fun _ ha => List.mem_cons.mp (List.perm_middle.mem_iff.mp ha), fun _ hb => .inr hb, ?_⟩
    rw [rank_insert_ahead, hswap]
    cases c x m <;> simp

/-! ## The ends of what passes -/

/-- The front of what passes a test splits the list. -/
theorem exists_split_of_head?_filter {p : T → Bool} {xs : List T} {m : T}
    (hm : ((xs.filter p).mergeSort (StableSort.ahead c)).head? = some m) :
    ∃ as bs, xs = as ++ m :: bs ∧ p m = true ∧ (∀ a ∈ as, p a = true → c m a = .lt) ∧
      ∀ b ∈ bs, p b = true → (c m b).isLE = true := by
  obtain ⟨front, back, hsplit, hfront, hback⟩ :=
    (arranges_mergeSort (xs.filter p)).exists_split_of_head? hm
  obtain ⟨as, bs, rfl, hpasses, rfl, rfl⟩ := exists_split_of_filter hsplit
  exact ⟨as, bs, rfl, hpasses, fun a ha hp => hfront a (List.mem_filter.mpr ⟨ha, hp⟩),
    fun b hb hp => hback b (List.mem_filter.mpr ⟨hb, hp⟩)⟩

/-- The back of what passes a test splits the list. -/
theorem exists_split_of_getLast?_filter {p : T → Bool} {xs : List T} {m : T}
    (hm : ((xs.filter p).mergeSort (StableSort.ahead c)).getLast? = some m) :
    ∃ as bs, xs = as ++ m :: bs ∧ p m = true ∧ (∀ a ∈ as, p a = true → (c a m).isLE = true) ∧
      ∀ b ∈ bs, p b = true → c b m = .lt := by
  obtain ⟨front, back, hsplit, hfront, hback⟩ :=
    (arranges_mergeSort (xs.filter p)).exists_split_of_getLast? hm
  obtain ⟨as, bs, rfl, hpasses, rfl, rfl⟩ := exists_split_of_filter hsplit
  exact ⟨as, bs, rfl, hpasses, fun a ha hp => hfront a (List.mem_filter.mpr ⟨ha, hp⟩),
    fun b hb hp => hback b (List.mem_filter.mpr ⟨hb, hp⟩)⟩

end StableSort

/-- A search ends at the first element that passes. -/
theorem findIdx?_of_split {p : T → Bool} {as bs : List T} {e : T} (has : ∀ a ∈ as, p a = false)
    (he : p e = true) : (as ++ e :: bs).findIdx? p = some as.length := by
  rw [List.findIdx?_append, List.findIdx?_eq_none_iff.mpr has, List.findIdx?_cons, if_pos he]
  simp

/-- An order ranks a part of what it ranks. -/
theorem SortOrder.Ranks.mono {order : Option (SortOrder T)} {rows xs : List T}
    {c : T → T → Ordering} (h : Ranks order rows c) (hxs : xs ⊆ rows) : Ranks order xs c where
  total := h.total
  direct o ho a ha b hb := h.direct o ho a (hxs ha) b (hxs hb)
  absent := h.absent

namespace Evaluator

/-! ## Positions are ranks -/

/-- What stands ahead of the first element that passes does not pass. -/
theorem fails_of_ahead {c : T → T → Ordering} [TransCmp c] {p : T → Bool} {P as bs : List T}
    {m : T} (has : ∀ a ∈ as, p a = true → c m a = .lt)
    (hbs : ∀ b ∈ bs, p b = true → (c m b).isLE = true) (hmem : ∀ a ∈ P, a ∈ as ∨ a = m ∨ a ∈ bs)
    (hP : ∀ a ∈ P, c a m = .lt ∨ c a m = .eq ∧ a ∈ as) : ∀ a ∈ P, p a = false := by
  refine fun a ha => Bool.eq_false_iff.mpr fun hpasses => ?_
  rcases hP a ha with hlt | ⟨heq, ha'⟩
  · refine OrientedCmp.not_isLE_of_lt hlt ?_
    rcases hmem a ha with ha' | rfl | ha'
    · exact Ordering.isLE_of_eq_lt (has a ha' hpasses)
    · exact ReflCmp.isLE_rfl
    · exact hbs a ha' hpasses
  · exact Ordering.noConfusion ((OrientedCmp.eq_symm heq).symm.trans (has a ha' hpasses))

/-- Where nothing passes there is no position. -/
theorem outcome_index_of_none {v : Evaluator T} {order : Option (SortOrder T)} {source : List T}
    {c : T → T → Ordering} (ho : SortOrder.Ranks order source c)
    (h : ∀ e ∈ source, (v.evaluate e).outcome = .ok false) :
    (v.firstIndex source order).outcome = .ok none ∧
      (v.lastIndex source order).outcome = .ok none := by
  have harranged := ho.outcome_arrange (List.Subset.refl source)
  have hsorted : ∀ e ∈ source.mergeSort (StableSort.ahead c), (v.evaluate e).outcome = .ok false :=
    fun e he => h e (List.mem_mergeSort.mp he)
  have hnone (xs : List T) : xs.findIdx? (fun _ => false) = none :=
    List.findIdx?_eq_none_iff.mpr fun _ _ => rfl
  constructor
  · rw [outcome_firstIndex (p := fun _ => false) harranged hsorted, hnone]
  · rw [outcome_lastIndex (p := fun _ => false) harranged hsorted, hnone, Option.map_none]

section

variable {v : Evaluator T} {order : Option (SortOrder T)} {rows as bs : List T} {m : T}
  {c : T → T → Ordering} {p : T → Bool} (ho : SortOrder.Ranks order rows c)
  (hrows : as ++ m :: bs ⊆ rows) (hp : ∀ e ∈ as ++ m :: bs, (v.evaluate e).outcome = .ok (p e))
  (hm : p m = true)

include ho hrows hp

/-- **The sorted source around an entity.** -/
theorem exists_arranged_split :
    ∃ P Q, (arrange order (as ++ m :: bs)).outcome = .ok (P ++ m :: Q) ∧
      P.length = StableSort.rank c as m bs ∧
      (∀ e ∈ P ++ m :: Q, (v.evaluate e).outcome = .ok (p e) ∧ (e ∈ as ∨ e = m ∨ e ∈ bs)) ∧
      (∀ a ∈ P, c a m = .lt ∨ c a m = .eq ∧ a ∈ as) ∧
      ∀ b ∈ Q, c m b = .lt ∨ c m b = .eq ∧ b ∈ bs := by
  have := ho.total
  have harranges := StableSort.arranges_mergeSort (c := c) (as ++ m :: bs)
  obtain ⟨P, Q, hsorted, hlength, hP, hQ⟩ := harranges.exists_split_at
  refine ⟨P, Q, hsorted ▸ ho.outcome_arrange hrows, hlength, fun e he => ?_, hP, hQ⟩
  have hmem : e ∈ as ++ m :: bs := harranges.perm.mem_iff.mp (hsorted ▸ he)
  exact ⟨hp e hmem, by simpa using hmem⟩

include hm

/-- **The first position** is the rank of the first entity that passes. -/
theorem outcome_firstIndex_eq_rank (has : ∀ a ∈ as, p a = true → c m a = .lt)
    (hbs : ∀ b ∈ bs, p b = true → (c m b).isLE = true) :
    (v.firstIndex (as ++ m :: bs) order).outcome = .ok (some (StableSort.rank c as m bs)) := by
  have := ho.total
  obtain ⟨P, Q, harranged, hlength, hmem, hP, -⟩ := exists_arranged_split ho hrows hp
  have hfails : ∀ a ∈ P, p a = false :=
    fails_of_ahead has hbs (fun a ha => (hmem a (List.mem_append_left _ ha)).2) hP
  rw [outcome_firstIndex harranged fun e he => (hmem e he).1, findIdx?_of_split hfails hm, hlength]

/-- **The last position** is the rank of the last entity that passes. -/
theorem outcome_lastIndex_eq_rank (has : ∀ a ∈ as, p a = true → (c a m).isLE = true)
    (hbs : ∀ b ∈ bs, p b = true → c b m = .lt) :
    (v.lastIndex (as ++ m :: bs) order).outcome = .ok (some (StableSort.rank c as m bs)) := by
  have := ho.total
  obtain ⟨P, Q, harranged, hlength, hmem, -, hQ⟩ := exists_arranged_split ho hrows hp
  -- from the back the comparison is the opposite one, and the sides are exchanged
  have hfails : ∀ b ∈ Q, p b = false := by
    refine fails_of_ahead (c := fun a b => c b a) hbs has (fun b hb => ?_) hQ
    have hb' := (hmem b (by simp [hb])).2
    tauto
  have hposition : (P ++ m :: Q).length - 1 - Q.reverse.length = P.length := by
    rw [List.length_append, List.length_cons, List.length_reverse]
    omega
  rw [outcome_lastIndex harranged fun e he => (hmem e he).1, List.reverse_append,
    List.reverse_cons, List.append_assoc, List.singleton_append,
    findIdx?_of_split (fun b hb => hfails b (List.mem_reverse.mp hb)) hm, Option.map_some,
    hposition, hlength]

end

/-! ## Insertions -/

/-- **Whether an entity stands ahead of another one once sorted**: it comes before it, or the
order, if there is one, does not tell them apart and it stands ahead of it in the source. -/
def StandsAhead (order : Option (SortOrder T)) (a b : T) (isAhead : Prop) : Prop :=
  (compareIn order a b).outcome = .ok .lt ∨ (compareIn order a b).outcome = .ok .eq ∧ isAhead

/-- **The first entity that passes**, between the parts of the source around it. -/
structure FirstMatch (v : Evaluator T) (order : Option (SortOrder T)) (as : List T) (m : T)
    (bs : List T) : Prop where
  /-- It passes. -/
  passes : (v.evaluate m).outcome = .ok true
  /-- It comes before those that pass ahead of it. -/
  ahead : ∀ a ∈ as, (v.evaluate a).outcome = .ok true → (compareIn order m a).outcome = .ok .lt
  /-- It does not come after those that pass behind it. -/
  behind : ∀ b ∈ bs, (v.evaluate b).outcome = .ok true →
    ∃ o, (compareIn order m b).outcome = .ok o ∧ o.isLE = true

/-- **The last entity that passes**, between the parts of the source around it. -/
structure LastMatch (v : Evaluator T) (order : Option (SortOrder T)) (as : List T) (m : T)
    (bs : List T) : Prop where
  /-- It passes. -/
  passes : (v.evaluate m).outcome = .ok true
  /-- Those that pass ahead of it do not come after it. -/
  ahead : ∀ a ∈ as, (v.evaluate a).outcome = .ok true →
    ∃ o, (compareIn order a m).outcome = .ok o ∧ o.isLE = true
  /-- Those that pass behind it come before it. -/
  behind : ∀ b ∈ bs, (v.evaluate b).outcome = .ok true → (compareIn order b m).outcome = .ok .lt

/-- **What an insertion does to the position of an entity** that has `as` ahead of it in the
source. -/
structure Shifts (order : Option (SortOrder T)) (x : T) (front back as : List T) (m : T)
    (find : List T → Run (Option T)) (index : List T → Run (Option ℕ)) : Prop where
  /-- The entity is the one that is found, before and after. -/
  found : ∀ source ∈ [front ++ back, front ++ x :: back], (find source).outcome = .ok (some m)
  /-- Its position grows by one if the inserted entity stands ahead of it, and not if it stands
  behind it. -/
  position : ∃ i, (index (front ++ back)).outcome = .ok (some i) ∧
    (StandsAhead order x m (front.length ≤ as.length) →
      (index (front ++ x :: back)).outcome = .ok (some (i + 1))) ∧
    (StandsAhead order m x (as.length < front.length) →
      (index (front ++ x :: back)).outcome = .ok (some i))
  /-- One of both is the case. -/
  either : StandsAhead order x m (front.length ≤ as.length) ∨
    StandsAhead order m x (as.length < front.length)

/-- **Inserting an entity that does not pass** shifts the positions of those that do. -/
structure InsertionShifts (v : Evaluator T) (order : Option (SortOrder T)) (x : T)
    (front back : List T) : Prop where
  /-- Where nothing passes there is no position, before and after. -/
  none : (∀ e ∈ front ++ back, (v.evaluate e).outcome = .ok false) →
    ∀ source ∈ [front ++ back, front ++ x :: back],
      (v.firstIndex source order).outcome = .ok none ∧
        (v.lastIndex source order).outcome = .ok none
  /-- The position of the first entity that passes shifts with it, -/
  first : (∃ e ∈ front ++ back, (v.evaluate e).outcome = .ok true) →
    ∃ as m bs, front ++ back = as ++ m :: bs ∧ v.FirstMatch order as m bs ∧
      Shifts order x front back as m (fun source => v.first source order) fun source =>
        v.firstIndex source order
  /-- and so does that of the last one. -/
  last : (∃ e ∈ front ++ back, (v.evaluate e).outcome = .ok true) →
    ∃ as m bs, front ++ back = as ++ m :: bs ∧ v.LastMatch order as m bs ∧
      Shifts order x front back as m (fun source => v.last source order) fun source =>
        v.lastIndex source order

/-- The source is a part of what it becomes. -/
theorem subset_insert {x : T} {front back : List T} : front ++ back ⊆ front ++ x :: back :=
  ((List.sublist_cons_self x back).append_left front).subset

/-- A position that is a rank shifts as the rank does. -/
theorem shifts_of_rank {order : Option (SortOrder T)} {x m : T} {front back as bs : List T}
    {c : T → T → Ordering} (ho : SortOrder.Ranks order (front ++ x :: back) c)
    (hsplit : front ++ back = as ++ m :: bs) {find : List T → Run (Option T)}
    {index : List T → Run (Option ℕ)}
    (found : ∀ source ∈ [front ++ back, front ++ x :: back],
      (find source).outcome = .ok (some m))
    (hindex : ∀ as' bs', as' ++ m :: bs' ⊆ front ++ x :: back → (∀ a ∈ as', a = x ∨ a ∈ as) →
      (∀ b ∈ bs', b = x ∨ b ∈ bs) →
      (index (as' ++ m :: bs')).outcome = .ok (some (StableSort.rank c as' m bs'))) :
    Shifts order x front back as m find index := by
  have := ho.total
  have hx : x ∈ front ++ x :: back := by simp
  have hm : m ∈ front ++ x :: back := subset_insert (hsplit ▸ by simp)
  have hxm : (compareIn order x m).outcome = .ok (c x m) := ho.outcome_compareIn hx hm
  have hmx : (compareIn order m x).outcome = .ok (c m x) := ho.outcome_compareIn hm hx
  obtain ⟨as', bs', hext, has', hbs', hmore, hsame⟩ :=
    StableSort.exists_rank_insert (c := c) (x := x) hsplit
  have hafter := hindex as' bs' (hext ▸ List.Subset.refl _) has' hbs'
  have hbefore := hindex as bs (hsplit ▸ subset_insert) (fun a ha => .inr ha) fun b hb => .inr hb
  constructor
  case found => exact found
  case position =>
    refine ⟨_, hsplit ▸ hbefore, fun hahead => ?_, fun hahead => ?_⟩
    · unfold StandsAhead at hahead
      rw [hxm, Except.ok.injEq, Except.ok.injEq] at hahead
      rw [hext, hafter, hmore hahead]
    · unfold StandsAhead at hahead
      rw [hmx, Except.ok.injEq, Except.ok.injEq] at hahead
      rw [hext, hafter, hsame hahead]
  case either =>
    have hswap : c m x = (c x m).swap := OrientedCmp.eq_swap
    unfold StandsAhead
    rw [hxm, hmx, hswap]
    cases c x m with
    | lt => exact .inl (.inl rfl)
    | eq => exact (Nat.lt_or_ge as.length front.length).symm.imp (.inr ⟨rfl, ·⟩) (.inr ⟨rfl, ·⟩)
    | gt => exact .inr (.inl rfl)

section

variable {p : Predicate T} {negate : Bool} {limits : Limits} {order : Option (SortOrder T)}
  {x m : T} {front back : List T} {c : T → T → Ordering}
  (decides : p.Decides (front ++ x :: back)) (ho : SortOrder.Ranks order (front ++ x :: back) c)
  (fails : (p.verdict x != negate) = false)

/-- An entity that passes has the verdict for it. -/
theorem verdict_of_passes {e : T} (h : ∃ verdict, (p.test e).outcome = .ok verdict)
    (hpass : ((Evaluator.mk p negate limits).evaluate e).outcome = .ok true) :
    (p.verdict e != negate) = true :=
  Except.ok.inj ((outcome_evaluate h negate limits).symm.trans hpass)

include fails

/-- What passes is what passed before. -/
theorem chosen_insert : chosen p negate (front ++ x :: back) = chosen p negate (front ++ back) := by
  unfold chosen
  rw [List.filter_append, List.filter_append, List.filter_cons_of_neg (by simp [fails])]

/-- What follows from the entities that pass is so before and after. -/
theorem forall_before_after {P : List T → Prop}
    (h : ∀ source ⊆ front ++ x :: back,
      chosen p negate source = chosen p negate (front ++ back) → P source) :
    ∀ source ∈ [front ++ back, front ++ x :: back], P source :=
  List.forall_mem_cons.mpr ⟨h _ subset_insert rfl,
    List.forall_mem_singleton.mpr (h _ (List.Subset.refl _) (chosen_insert fails))⟩

/-- What is so for those that pass is so after the insertion. -/
theorem forall_insert {ys ys' : List T} {Q : T → Prop}
    (hys : ∀ a ∈ ys, (p.verdict a != negate) = true → Q a)
    (hys' : ∀ a ∈ ys', a = x ∨ a ∈ ys) : ∀ a ∈ ys', (p.verdict a != negate) = true → Q a := by
  intro a ha hpass
  rcases hys' a ha with rfl | ha
  · rw [fails] at hpass
    cases hpass
  · exact hys a ha hpass

include decides ho

/-- **The first entity that passes** stays the same, and its position shifts. -/
theorem exists_firstMatch_shifts
    (hm : ((chosen p negate (front ++ back)).mergeSort (StableSort.ahead c)).head? = some m) :
    ∃ as bs, front ++ back = as ++ m :: bs ∧
      (Evaluator.mk p negate limits).FirstMatch order as m bs ∧
      Shifts order x front back as m
        (fun source => (Evaluator.mk p negate limits).first source order) fun source =>
          (Evaluator.mk p negate limits).firstIndex source order := by
  have := ho.total
  have hpasses := fun e he => outcome_evaluate (decides e he) negate limits
  obtain ⟨as, bs, hsplit, hmpasses, has, hbs⟩ := StableSort.exists_split_of_head?_filter hm
  have hmem : ∀ e ∈ as ++ m :: bs, e ∈ front ++ x :: back := fun e he =>
    subset_insert (hsplit ▸ he)
  refine ⟨as, bs, hsplit, ?_, shifts_of_rank ho hsplit ?_ fun as' bs' hsub has' hbs' => ?_⟩
  · constructor
    case passes => rw [hpasses m (hmem m (by simp)), hmpasses]
    case ahead =>
      intro a ha hpass
      have ha' : a ∈ front ++ x :: back := hmem a (by simp [ha])
      rw [ho.outcome_compareIn (hmem m (by simp)) ha',
        has a ha (verdict_of_passes (decides a ha') hpass)]
    case behind =>
      intro b hb hpass
      have hb' : b ∈ front ++ x :: back := hmem b (by simp [hb])
      exact ⟨_, ho.outcome_compareIn (hmem m (by simp)) hb',
        hbs b hb (verdict_of_passes (decides b hb') hpass)⟩
  · refine forall_before_after fails fun source hsource hchosen => ?_
    refine (outcome_firstWhere (decides.mono hsource) (ho.mono hsource) negate limits true).trans ?_
    rw [beq_true, hchosen, hm]
  · exact outcome_firstIndex_eq_rank ho hsub (fun e he => hpasses e (hsub he)) hmpasses
      (forall_insert fails has has') (forall_insert fails hbs hbs')

/-- **The last entity that passes** stays the same, and its position shifts. -/
theorem exists_lastMatch_shifts
    (hm : ((chosen p negate (front ++ back)).mergeSort (StableSort.ahead c)).getLast? = some m) :
    ∃ as bs, front ++ back = as ++ m :: bs ∧
      (Evaluator.mk p negate limits).LastMatch order as m bs ∧
      Shifts order x front back as m
        (fun source => (Evaluator.mk p negate limits).last source order) fun source =>
          (Evaluator.mk p negate limits).lastIndex source order := by
  have := ho.total
  have hpasses := fun e he => outcome_evaluate (decides e he) negate limits
  obtain ⟨as, bs, hsplit, hmpasses, has, hbs⟩ := StableSort.exists_split_of_getLast?_filter hm
  have hmem : ∀ e ∈ as ++ m :: bs, e ∈ front ++ x :: back := fun e he =>
    subset_insert (hsplit ▸ he)
  refine ⟨as, bs, hsplit, ?_, shifts_of_rank ho hsplit ?_ fun as' bs' hsub has' hbs' => ?_⟩
  · constructor
    case passes => rw [hpasses m (hmem m (by simp)), hmpasses]
    case ahead =>
      intro a ha hpass
      have ha' : a ∈ front ++ x :: back := hmem a (by simp [ha])
      exact ⟨_, ho.outcome_compareIn ha' (hmem m (by simp)),
        has a ha (verdict_of_passes (decides a ha') hpass)⟩
    case behind =>
      intro b hb hpass
      have hb' : b ∈ front ++ x :: back := hmem b (by simp [hb])
      rw [ho.outcome_compareIn hb' (hmem m (by simp)),
        hbs b hb (verdict_of_passes (decides b hb') hpass)]
  · refine forall_before_after fails fun source hsource hchosen => ?_
    refine (outcome_lastWhere (decides.mono hsource) (ho.mono hsource) negate limits true).trans ?_
    rw [beq_true, hchosen, hm]
  · exact outcome_lastIndex_eq_rank ho hsub (fun e he => hpasses e (hsub he)) hmpasses
      (forall_insert fails has has') (forall_insert fails hbs hbs')

end

/-- **An insertion shifts positions by one or not at all**, if the predicate decides the source
and what is inserted, and the order, if there is one, is total on them. -/
theorem insertion_shifts (v : Evaluator T) (order : Option (SortOrder T)) {x : T}
    {front back : List T} (decides : v.predicate.Decides (front ++ x :: back))
    (fails : (v.evaluate x).outcome = .ok false)
    (total : ∀ o ∈ order, o.TotalOn (front ++ x :: back)) :
    v.InsertionShifts order x front back := by
  obtain ⟨p, negate, limits⟩ := v
  obtain ⟨c, ho⟩ := SortOrder.exists_ranks total
  have hx : (p.verdict x != negate) = false :=
    Except.ok.inj ((outcome_evaluate (decides x (by simp)) negate limits).symm.trans fails)
  have hne (h : ∃ e ∈ front ++ back,
      ((Evaluator.mk p negate limits).evaluate e).outcome = .ok true) :
      (chosen p negate (front ++ back)).mergeSort (StableSort.ahead c) ≠ [] := by
    obtain ⟨e, he, hpass⟩ := h
    have hverdict := verdict_of_passes (decides e (subset_insert he)) hpass
    exact List.ne_nil_of_mem (List.mem_mergeSort.mpr (List.mem_filter.mpr ⟨he, hverdict⟩))
  constructor
  case none =>
    intro hnone
    refine List.forall_mem_cons.mpr ⟨outcome_index_of_none (ho.mono subset_insert) hnone,
      List.forall_mem_singleton.mpr (outcome_index_of_none ho fun e he => ?_)⟩
    rcases List.mem_cons.mp (List.perm_middle.mem_iff.mp he) with rfl | he
    · exact fails
    · exact hnone e he
  case first =>
    intro h
    obtain ⟨m, hm⟩ := Option.ne_none_iff_exists'.mp (mt List.head?_eq_none_iff.mp (hne h))
    obtain ⟨as, bs, hmatch⟩ := exists_firstMatch_shifts decides ho hx hm
    exact ⟨as, m, bs, hmatch⟩
  case last =>
    intro h
    obtain ⟨m, hm⟩ := Option.ne_none_iff_exists'.mp (mt List.getLast?_eq_none_iff.mp (hne h))
    obtain ⟨as, bs, hmatch⟩ := exists_lastMatch_shifts decides ho hx hm
    exact ⟨as, m, bs, hmatch⟩

open Predicate (flags flagRows flags_decides)
open SortOrder (rightFirst rightFirst_totalOn)

/-- A pair of flags that fails, inserted among those of a sample, in an order that ties many of
them. -/
theorem insertion_shifts_flags :
    flags.Decides (flagRows.take 1 ++ (false, true) :: flagRows.drop 1) ∧
      ((Evaluator.mk flags false {}).evaluate (false, true)).outcome = .ok false ∧
      (∀ o ∈ some rightFirst,
        o.TotalOn (flagRows.take 1 ++ (false, true) :: flagRows.drop 1)) ∧
      (Evaluator.mk flags false {}).InsertionShifts (some rightFirst) (false, true)
        (flagRows.take 1) (flagRows.drop 1) := by
  have hdecides : flags.Decides (flagRows.take 1 ++ (false, true) :: flagRows.drop 1) :=
    flags_decides.mono (by decide)
  have htotal : ∀ o ∈ some rightFirst,
      o.TotalOn (flagRows.take 1 ++ (false, true) :: flagRows.drop 1) := by
    rintro o ⟨⟩
    exact rightFirst_totalOn _
  exact ⟨hdecides, rfl, htotal,
    insertion_shifts (Evaluator.mk flags false {}) (some rightFirst) hdecides rfl htotal⟩

end Evaluator

end Criteria
