import Criteria.Proofs.Tiling

/-!
# What passes and what does not

An evaluator tells the entities that pass from those that do not, by two signs: its own,
and whether passing is what an operation wants. The two cancel. The evaluator of the
opposite sign wants what the other one does not, so it is the same run that gives the
entities that pass for one of them and those that do not pass for the other, in whatever
order, and likewise for the first and the last of them (`Evaluator.accepts_negated`).

The two lists of one evaluator have every entity between them, as often as the source has
it. How many there are of either kind, and whether there are any, is counted and asked
without listing them, and agrees (`Evaluator.exists_complement`). Nothing is asked of the
order but that it compares any two entities of the source.
-/

namespace Criteria

namespace Evaluator

variable {T : Type}

/-! ## The opposite sign -/

/-- **Wanting the opposite of the opposite** is wanting. -/
theorem accepts_negated (v : Evaluator T) (wanted : Bool) :
    v.negated.accepts wanted = v.accepts (!wanted) := by
  funext e
  unfold accepts evaluate negated
  rw [Run.bind_bind, Run.bind_bind]
  refine congrArg (v.predicate.test e >>= ·) (funext fun verdict => ?_)
  show Run.done _ = Run.done _
  cases verdict <;> cases v.negate <;> cases wanted <;> rfl

theorem select_negated (v : Evaluator T) (source : List T) (order : Option (SortOrder T))
    (wanted : Bool) : v.negated.select source order wanted = v.select source order (!wanted) := by
  unfold select
  rw [accepts_negated]

theorem scan_negated (v : Evaluator T) (wanted : Bool)
    (choose : Option T → T → Run (Option T)) (source : List T) :
    v.negated.scan wanted choose source = v.scan (!wanted) choose source := by
  unfold scan
  rw [accepts_negated]

theorem firstWhere_negated (v : Evaluator T) (source : List T) (order : Option (SortOrder T))
    (wanted : Bool) :
    v.negated.firstWhere source order wanted = v.firstWhere source order (!wanted) := by
  unfold firstWhere
  rw [accepts_negated]
  cases order with
  | none => rfl
  | some order => exact v.scan_negated wanted (earlier order) source

theorem lastWhere_negated (v : Evaluator T) (source : List T) (order : Option (SortOrder T))
    (wanted : Bool) :
    v.negated.lastWhere source order wanted = v.lastWhere source order (!wanted) := by
  unfold lastWhere
  cases order with
  | none => exact v.scan_negated wanted (fun _ e => .done (some e)) source
  | some order => exact v.scan_negated wanted (later order) source

/-! ## The two lists -/

/-- **What passes and what does not**, and how the opposite evaluator sees it. -/
structure Complement (v : Evaluator T) (source : List T) (order : Option (SortOrder T))
    (passed failed : List T) : Prop where
  /-- These are the entities that pass, -/
  all : (v.all source order).outcome = .ok passed
  /-- and these are the others. -/
  allFailed : (v.allFailed source order).outcome = .ok failed
  /-- Together they are the source, each entity as often as it is there. -/
  perm : (passed ++ failed).Perm source
  /-- The ones pass, -/
  passes : ∀ e ∈ passed, (v.evaluate e).outcome = .ok true
  /-- and the others do not. -/
  fails : ∀ e ∈ failed, (v.evaluate e).outcome = .ok false
  /-- The opposite evaluator swaps the lists, -/
  all_negated : v.negated.all source order = v.allFailed source order
  allFailed_negated : v.negated.allFailed source order = v.all source order
  /-- their first entities, -/
  first_negated : v.negated.first source order = v.firstFailed source order
  firstFailed_negated : v.negated.firstFailed source order = v.first source order
  /-- and their last ones. -/
  last_negated : v.negated.last source order = v.lastFailed source order
  lastFailed_negated : v.negated.lastFailed source order = v.last source order
  /-- Counting is counting the entities that pass, by either evaluator. -/
  count : (v.count source).outcome = .ok passed.length
  count_negated : (v.negated.count source).outcome = .ok failed.length
  /-- The counts add up. -/
  counts : passed.length + failed.length = source.length
  /-- Some entity passes exactly if there are any to count. -/
  any : (v.any source).outcome = .ok (decide (0 < passed.length))

/-- **An evaluator and its opposite part a list** of entities that the predicate decides, in
any order that compares them. -/
theorem exists_complement (v : Evaluator T) (source : List T) (order : Option (SortOrder T))
    (decides : v.predicate.Decides source)
    (compares : ∀ o ∈ order, ∀ a ∈ source, ∀ b ∈ source, ∃ r, (o.compare a b).outcome = .ok r) :
    ∃ passed failed, v.Complement source order passed failed := by
  have hverdict : ∀ e ∈ source, (v.evaluate e).outcome
      = .ok (v.predicate.verdict e != v.negate) := fun e he =>
    outcome_evaluate (decides e he) v.negate v.limits
  have hswap (wanted : Bool) := v.select_negated source order wanted
  obtain ⟨passed, hall, hpassed⟩ := exists_all decides compares
  -- what does not pass is what passes for the opposite evaluator
  obtain ⟨failed, hfailed, hothers⟩ := exists_all (v := v.negated) decides compares
  have hsource : (passed ++ failed).Perm source := by
    have hopposite : chosen v.predicate (!v.negate) source
        = source.filter fun e => !(v.predicate.verdict e != v.negate) :=
      List.filter_congr fun e _ => by cases v.predicate.verdict e <;> cases v.negate <;> rfl
    refine (hpassed.append hothers).trans ?_
    show (chosen v.predicate v.negate source ++ chosen v.predicate (!v.negate) source).Perm source
    rw [hopposite]
    exact List.filter_append_perm _ source
  refine ⟨passed, failed, ?_⟩
  constructor
  case all => exact hall
  case allFailed => exact (congrArg Run.outcome (hswap true)).symm.trans hfailed
  case perm => exact hsource
  case passes =>
    intro e he
    obtain ⟨hmem, hpass⟩ := List.mem_filter.mp (hpassed.mem_iff.mp he)
    rw [hverdict e hmem, hpass]
  case fails =>
    intro e he
    obtain ⟨hmem, hpass⟩ := List.mem_filter.mp (hothers.mem_iff.mp he)
    rw [hverdict e hmem]
    refine congrArg Except.ok ?_
    revert hpass
    show (v.predicate.verdict e != !v.negate) = true → _
    cases v.predicate.verdict e <;> cases v.negate <;> decide
  case all_negated => exact hswap true
  case allFailed_negated => exact hswap false
  case first_negated => exact v.firstWhere_negated source order true
  case firstFailed_negated => exact v.firstWhere_negated source order false
  case last_negated => exact v.lastWhere_negated source order true
  case lastFailed_negated => exact v.lastWhere_negated source order false
  case count =>
    rw [hpassed.length_eq]
    exact outcome_count decides v.negate v.limits
  case count_negated =>
    rw [hothers.length_eq]
    exact outcome_count decides (!v.negate) v.limits
  case counts => rw [← List.length_append, hsource.length_eq]
  case any =>
    refine (outcome_any decides v.negate v.limits).trans (congrArg Except.ok ?_)
    rw [hpassed.length_eq, Bool.eq_iff_iff, decide_eq_true_iff, List.length_pos_iff]
    simp

open Predicate (flags flagRows flags_decides)
open SortOrder (rightFirst rightFirst_totalOn)

/-- Pairs of flags that fail a condition, and those that hold it. -/
theorem exists_complement_flags :
    flags.Decides flagRows ∧
      (∀ o ∈ some rightFirst, ∀ a ∈ flagRows, ∀ b ∈ flagRows,
        ∃ r, (o.compare a b).outcome = .ok r) ∧
      ∃ passed failed,
        (Evaluator.mk flags true {}).Complement flagRows (some rightFirst) passed failed := by
  have hcompares : ∀ o ∈ some rightFirst, ∀ a ∈ flagRows, ∀ b ∈ flagRows,
      ∃ r, (o.compare a b).outcome = .ok r := by
    rintro o ⟨⟩ a ha b hb
    obtain ⟨c, -, hc⟩ := rightFirst_totalOn flagRows
    exact ⟨c a b, hc a ha b hb⟩
  exact ⟨flags_decides, hcompares,
    exists_complement (Evaluator.mk flags true {}) flagRows (some rightFirst) flags_decides
      hcompares⟩

end Evaluator

end Criteria
