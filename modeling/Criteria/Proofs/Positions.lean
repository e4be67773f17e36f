import Criteria.Proofs.Selecting

/-!
# Positions in the sorted source

A list of entities is filtered and then sorted. A position is looked for the other way
round, in the whole source, which is sorted and then tested, and the first and the last
entity are found without sorting at all. The three agree, since a stable sort commutes
with dropping elements: where an entity stands among those that pass does not depend on
those that do not (`Evaluator.exists_sorted`).

A search that tests a list from one end stops at an element that splits the list: it
passes, and no element up to it does (`exists_split_of_findIdx?`). Searching from the back
is searching the reversed list, where the element splits the same list.
-/

namespace Criteria

open StableSort (ahead)

variable {T : Type}

/-! ## Searches -/

/-- **A search stops at an element that splits the list.** -/
theorem exists_split_of_findIdx? {p : T → Bool} {xs : List T} {i : Nat}
    (h : xs.findIdx? p = some i) :
    ∃ as e bs, xs = as ++ e :: bs ∧ as.length = i ∧ xs.find? p = some e ∧
      p e = true ∧ ∀ a ∈ as, p a = false := by
  cases hfind : xs.find? p with
  | none =>
    have hnone : xs.findIdx? p = none := List.findIdx?_eq_none_iff.mpr fun e he =>
      Bool.eq_false_iff.mpr (List.find?_eq_none.mp hfind e he)
    rw [hnone] at h
    cases h
  | some e =>
    obtain ⟨he, as, bs, rfl, has⟩ := List.find?_eq_some_iff_append.mp hfind
    have has' : ∀ a ∈ as, p a = false := fun a ha => Bool.not_eq_true' _ |>.mp (has a ha)
    rw [List.findIdx?_append, List.findIdx?_eq_none_iff.mpr has', List.findIdx?_cons, if_pos he,
      Option.none_or, Option.map_some] at h
    exact ⟨as, e, bs, rfl, (Nat.zero_add _).symm.trans (Option.some.inj h), rfl, he, has'⟩

namespace Evaluator

/-- **What a position says** of a search in the sorted source: there is none if no entity
of the source passes, and otherwise it is that of the entity found, which passes, while
those that were tested before do not. -/
structure Locates (v : Evaluator T) (source sorted : List T) (before : Nat → List T)
    (position : Option Nat) (found : Option T) : Prop where
  /-- Without a position nothing passes, and only then. -/
  none_iff : position = none ↔ ∀ e ∈ source, (v.evaluate e).outcome = .ok false
  /-- At the position stands the entity found. -/
  at_position : ∀ i, position = some i → ∃ e, sorted[i]? = some e ∧ found = some e ∧
    (v.evaluate e).outcome = .ok true ∧ ∀ a ∈ before i, (v.evaluate a).outcome = .ok false

/-- **The sorted source answers**: all that an evaluator selects in an order can be read off
the whole source in that order. -/
structure ReadOff (v : Evaluator T) (source : List T) (order : Option (SortOrder T))
    (sorted : List T) : Prop where
  /-- This is the source in the order. -/
  arranged : (arrange order source).outcome = .ok sorted
  /-- The entities that pass are what is kept of it. -/
  all : ∃ xs, (Run.keep (v.accepts true) sorted).outcome = .ok xs ∧
    (v.all source order).outcome = .ok xs
  /-- So are the entities that do not pass. -/
  allFailed : ∃ xs, (Run.keep (v.accepts false) sorted).outcome = .ok xs ∧
    (v.allFailed source order).outcome = .ok xs
  /-- The first position is that of the first entity. -/
  first : ∃ i e, (v.firstIndex source order).outcome = .ok i ∧
    (v.first source order).outcome = .ok e ∧
    v.Locates source sorted (fun i => sorted.take i) i e
  /-- The last position is that of the last entity. -/
  last : ∃ i e, (v.lastIndex source order).outcome = .ok i ∧
    (v.last source order).outcome = .ok e ∧
    v.Locates source sorted (fun i => sorted.drop (i + 1)) i e

section

variable {v : Evaluator T} {p : T → Bool} {source sorted : List T}

/-- A search from a position on, where every entity has a verdict. -/
theorem outcome_positionFrom {xs : List T} (h : ∀ e ∈ xs, (v.evaluate e).outcome = .ok (p e))
    (i : Nat) : (v.positionFrom i xs).outcome = .ok ((xs.findIdx? p).map (· + i)) := by
  induction xs generalizing i with
  | nil => rfl
  | cons e rest ih =>
    have hrest := ih (fun a ha => h a (List.mem_cons_of_mem e ha)) (i + 1)
    unfold positionFrom
    rw [Run.outcome_bind_ok (h e List.mem_cons_self), List.findIdx?_cons]
    cases p e with
    | true => exact congrArg (fun n => Except.ok (some n)) (Nat.zero_add i).symm
    | false =>
      refine hrest.trans ?_
      rw [if_neg Bool.false_ne_true, Option.map_map]
      exact congrArg (fun f => Except.ok ((rest.findIdx? p).map f))
        (funext fun n => by show n + (i + 1) = n + 1 + i; omega)

/-- **The first position** is that of the first element of the sorted source that passes. -/
theorem outcome_firstIndex {order : Option (SortOrder T)}
    (harranged : (arrange order source).outcome = .ok sorted)
    (h : ∀ e ∈ sorted, (v.evaluate e).outcome = .ok (p e)) :
    (v.firstIndex source order).outcome = .ok (sorted.findIdx? p) := by
  have hsearch := outcome_positionFrom h 0
  refine (Run.outcome_bind_ok harranged _).trans (hsearch.trans ?_)
  exact congrArg Except.ok Option.map_id_apply

/-- **The last position** is found from the back, and counted from the front. -/
theorem outcome_lastIndex {order : Option (SortOrder T)}
    (harranged : (arrange order source).outcome = .ok sorted)
    (h : ∀ e ∈ sorted, (v.evaluate e).outcome = .ok (p e)) :
    (v.lastIndex source order).outcome
      = .ok ((sorted.reverse.findIdx? p).map (sorted.length - 1 - ·)) := by
  have hsearch := outcome_positionFrom (fun e he => h e (List.mem_reverse.mp he)) 0
  refine (Run.outcome_bind_ok harranged _).trans ((Run.outcome_bind_ok hsearch _).trans ?_)
  exact congrArg (fun i : Option Nat => Except.ok (i.map _)) Option.map_id_apply

variable (hperm : sorted.Perm source) (h : ∀ e ∈ source, (v.evaluate e).outcome = .ok (p e))

include hperm h

/-- Nothing of the source passes if nothing is found in it once sorted. -/
theorem findIdx?_eq_none_iff :
    sorted.findIdx? p = none ↔ ∀ e ∈ source, (v.evaluate e).outcome = .ok false := by
  rw [List.findIdx?_eq_none_iff]
  refine ⟨fun hnone e he => ?_, fun hnone e he => ?_⟩
  · rw [h e he, hnone e (hperm.mem_iff.mpr he)]
  · have he' := hperm.mem_iff.mp he
    exact Except.ok.inj ((h e he').symm.trans (hnone e he'))

/-- **From the front** a search stops at the first entity that passes. -/
theorem locates_first :
    v.Locates source sorted (fun i => sorted.take i) (sorted.findIdx? p) (sorted.find? p) where
  none_iff := findIdx?_eq_none_iff hperm h
  at_position i hi := by
    have hsorted := fun e he => h e (hperm.mem_iff.mp he)
    obtain ⟨as, e, bs, hsplit, rfl, hfind, he, has⟩ := exists_split_of_findIdx? hi
    rw [hsplit] at hsorted ⊢
    refine ⟨e, List.getElem?_append_right le_rfl |>.trans (by rw [Nat.sub_self]; rfl),
      hsplit ▸ hfind, ?_, fun a ha => ?_⟩
    · rw [hsorted e (by simp), he]
    · rw [List.take_left] at ha
      rw [hsorted a (List.mem_append_left _ ha), has a ha]

/-- **From the back** a search stops at the last entity that passes. -/
theorem locates_last :
    v.Locates source sorted (fun i => sorted.drop (i + 1))
      ((sorted.reverse.findIdx? p).map (sorted.length - 1 - ·)) (sorted.reverse.find? p) where
  none_iff := by
    rw [Option.map_eq_none_iff]
    exact findIdx?_eq_none_iff ((List.reverse_perm sorted).trans hperm) h
  at_position i hi := by
    have hsorted := fun e he => h e (hperm.mem_iff.mp he)
    obtain ⟨k, hk, rfl⟩ := Option.map_eq_some_iff.mp hi
    obtain ⟨as, e, bs, hsplit, rfl, hfind, he, has⟩ := exists_split_of_findIdx? hk
    -- seen from the front, what was tested before stands behind the entity
    have hfront : sorted = bs.reverse ++ e :: as.reverse := by
      rw [← List.reverse_reverse sorted, hsplit]
      simp
    have hposition : sorted.length - 1 - as.length = bs.reverse.length := by
      rw [hfront]
      simp only [List.length_append, List.length_cons, List.length_reverse]
      omega
    rw [hposition]
    rw [hfront] at hsorted
    refine ⟨e, ?_, hfind, ?_, fun a ha => ?_⟩
    · rw [hfront, List.getElem?_append_right le_rfl, Nat.sub_self]
      rfl
    · rw [hsorted e (by simp), he]
    · rw [hfront, List.drop_append, Nat.add_sub_cancel_left,
        List.drop_of_length_le (Nat.le_succ _)] at ha
      have ha' : a ∈ as := List.mem_reverse.mp ha
      rw [hsorted a (by simp [ha']), has a ha']

end

/-- **All selections can be read off the sorted source.** If the predicate decides the
source and the order, if there is one, is total on it, then keeping what passes of the
sorted source is selecting, for either sign, and the positions of the first and the last
entity that pass are those of the first and the last entity. -/
theorem exists_sorted (v : Evaluator T) (source : List T) (order : Option (SortOrder T))
    (decides : v.predicate.Decides source) (total : ∀ o ∈ order, o.TotalOn source) :
    ∃ sorted, v.ReadOff source order sorted := by
  obtain ⟨p, negate, limits⟩ := v
  obtain ⟨c, ho⟩ := SortOrder.exists_ranks total
  have := ho.total
  have harranged := ho.outcome_arrange (List.Subset.refl source)
  have hperm : (source.mergeSort (ahead c)).Perm source := List.mergeSort_perm source (ahead c)
  have hpasses : ∀ e ∈ source, ((Evaluator.mk p negate limits).evaluate e).outcome
      = .ok (p.verdict e != negate) := fun e he => outcome_evaluate (decides e he) negate limits
  have hsorted : p.Decides (source.mergeSort (ahead c)) := fun e he =>
    decides e (hperm.mem_iff.mp he)
  -- what is kept of the sorted source is the sorted list of what is wanted
  have hkeep (wanted : Bool) : ∃ xs,
      (Run.keep ((Evaluator.mk p negate limits).accepts wanted)
        (source.mergeSort (ahead c))).outcome = .ok xs ∧
      ((Evaluator.mk p negate limits).select source order wanted).outcome = .ok xs := by
    refine ⟨_, outcome_keep_accepts hsorted negate limits wanted, ?_⟩
    rw [outcome_select decides ho]
    exact congrArg Except.ok (StableSort.filter_mergeSort _ source).symm
  have hfirst : ((Evaluator.mk p negate limits).first source order).outcome
      = .ok ((source.mergeSort (ahead c)).find? fun e => p.verdict e != negate) := by
    refine (outcome_firstWhere decides ho negate limits true).trans ?_
    rw [beq_true, chosen, ← StableSort.filter_mergeSort, List.head?_filter]
  have hlast : ((Evaluator.mk p negate limits).last source order).outcome
      = .ok ((source.mergeSort (ahead c)).reverse.find? fun e => p.verdict e != negate) := by
    refine (outcome_lastWhere decides ho negate limits true).trans ?_
    rw [beq_true, chosen, ← StableSort.filter_mergeSort, List.getLast?_filter]
  have hranked := fun e he => hpasses e (hperm.mem_iff.mp he)
  exact ⟨_, harranged, hkeep true, hkeep false,
    ⟨_, _, outcome_firstIndex harranged hranked, hfirst, locates_first hperm hpasses⟩,
    ⟨_, _, outcome_lastIndex harranged hranked, hlast, locates_last hperm hpasses⟩⟩

open Predicate (flags flagRows flags_decides)
open SortOrder (rightFirst rightFirst_totalOn)

/-- Pairs of flags that fail a condition, by their second flag. -/
theorem exists_sorted_flags :
    flags.Decides flagRows ∧ (∀ o ∈ some rightFirst, o.TotalOn flagRows) ∧
      ∃ sorted, (Evaluator.mk flags true {}).ReadOff flagRows (some rightFirst) sorted := by
  have htotal : ∀ o ∈ some rightFirst, o.TotalOn flagRows := by
    rintro o ⟨⟩
    exact rightFirst_totalOn flagRows
  exact ⟨flags_decides, htotal,
    exists_sorted (Evaluator.mk flags true {}) flagRows (some rightFirst) flags_decides htotal⟩

end Evaluator

end Criteria
