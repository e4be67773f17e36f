import Criteria.Proofs.Grouping

/-!
# Reductions of selected values

A reduction goes through the source once. It tests every entity, and takes a step with what a
selector gives for each that passes. So all that matters is the list of the selected values
(`Evaluator.selected`), if the predicate decides the source and the selector has a value for
every entity that passes; of the other entities it need not have one (`Evaluator.Selects`).

Extremes and folds of the caller begin with the first value and not with one of their own.
They are one fold, `combined`, which has no result for an empty list and only for that one
(`combined_eq_none_iff`).
-/

namespace Criteria

variable {T N : Type}

/-! ## Combining from the first element on -/

/-- **The elements of a list, combined** from the first one on, if there is one. -/
def combined (f : N → N → N) (ys : List N) : Option N :=
  ys.foldl (fun acc y => Option.merge f acc (some y)) none

theorem combined_cons (f : N → N → N) (y : N) (ys : List N) :
    combined f (y :: ys) = some (ys.foldl f y) :=
  List.foldl_hom some fun _ _ => rfl

theorem combined_eq_none_iff {f : N → N → N} {ys : List N} : combined f ys = none ↔ ys = [] := by
  cases ys with
  | nil => exact iff_of_true rfl rfl
  | cons y ys => simp [combined_cons]

/-- **An associative fold in two parts**, for an operation with an identity to begin with. -/
theorem foldl_append_of_assoc (op : N → N → N) (e : N) [Std.Associative op]
    [Std.LawfulRightIdentity op e] (xs ys : List N) :
    (xs ++ ys).foldl op e = op (xs.foldl op e) (ys.foldl op e) := by
  have hid : op (xs.foldl op e) e = xs.foldl op e := Std.LawfulRightIdentity.right_id _
  calc (xs ++ ys).foldl op e
    _ = ys.foldl op (xs.foldl op e) := List.foldl_append
    _ = ys.foldl op (op (xs.foldl op e) e) := by rw [hid]
    _ = op (xs.foldl op e) (ys.foldl op e) := List.foldl_assoc

/-- Elements combined by an associative function may be combined in two parts. -/
theorem combined_append (f : N → N → N) [Std.Associative f] (xs ys : List N) :
    combined f (xs ++ ys) = Option.merge f (combined f xs) (combined f ys) := by
  have hsome (zs : List N) : combined f zs = (zs.map some).foldl (Option.merge f) none :=
    List.foldl_map.symm
  rw [hsome, hsome, hsome, List.map_append, foldl_append_of_assoc (Option.merge f) none]

namespace Evaluator

/-- The better of two numbers, the first of equals. -/
def Extreme.better [Numeric N] (extreme : Extreme) (m n : N) : N :=
  if extreme.improves m n then n else m

/-- An extreme is chosen by combining. -/
theorem Extreme.choose_eq_merge [Numeric N] (extreme : Extreme) (best : Option N) (y : N) :
    extreme.choose best y = Option.merge extreme.better best (some y) := by
  cases best with
  | none => rfl
  | some b => exact (apply_ite some _ _ _).symm

/-! ## Selected values -/

/-- **A selector with a value for every entity that passes.** -/
structure Selects (v : Evaluator T) (value : T → Run N) (x : T → N) (source : List T) : Prop where
  /-- The predicate has a verdict on every entity. -/
  decides : v.predicate.Decides source
  /-- The selector has a value where an entity passes. -/
  values : ∀ e ∈ chosen v.predicate v.negate source, (value e).outcome = .ok (x e)

/-- **The values of the entities that pass**, in order. -/
def selected (v : Evaluator T) (x : T → N) (source : List T) : List N :=
  (chosen v.predicate v.negate source).map x

variable {v : Evaluator T} {value : T → Run N} {x : T → N} {source : List T}

theorem selected_append (v : Evaluator T) (x : T → N) (xs ys : List T) :
    v.selected x (xs ++ ys) = v.selected x xs ++ v.selected x ys := by
  unfold selected chosen
  rw [List.filter_append, List.map_append]

theorem selected_eq_nil_iff :
    v.selected x source = [] ↔ chosen v.predicate v.negate source = [] :=
  List.map_eq_nil_iff

namespace Selects

/-- A part of the source is selected from as the whole is. -/
theorem of_sublist {part : List T} (h : v.Selects value x source) (hpart : part.Sublist source) :
    v.Selects value x part where
  decides := h.decides.mono hpart.subset
  values e he := h.values e ((hpart.filter _).subset he)

variable (h : v.Selects value x source)

include h

/-- Counting is counting the selected values. -/
theorem outcome_count : (v.count source).outcome = .ok (v.selected x source).length := by
  rw [selected, List.length_map]
  exact Evaluator.outcome_count h.decides v.negate v.limits

/-- **A fold over what is selected** is the fold of the selected values. -/
theorem outcome_foldSelected {β : Type} {step : β → N → Run β} {f : β → N → β}
    (hstep : ∀ b y, (step b y).outcome = .ok (f b y)) (start : β) :
    (v.foldSelected (some value) step start source).outcome
      = .ok ((v.selected x source).foldl f start) := by
  refine (Run.outcome_fold_keep (fun b e => Run.call (some value) e >>= step b) start fun e he =>
    outcome_evaluate (h.decides e he) v.negate v.limits).trans ?_
  rw [selected, List.foldl_map]
  exact Run.outcome_fold (fun _ => True)
    (fun b _ e he => ⟨(Run.outcome_bind_ok (h.values e he) _).trans (hstep b (x e)), trivial⟩)
    trivial

/-- **An extreme** is the selected values, combined to the better one. -/
theorem outcome_extreme? [Numeric N] (extreme : Extreme) :
    (v.extreme? extreme source (some value)).outcome
      = .ok (combined extreme.better (v.selected x source)) := by
  refine (h.outcome_foldSelected (fun _ _ => rfl) none).trans (congrArg Except.ok ?_)
  exact congrArg (fun f => (v.selected x source).foldl f none)
    (funext fun best => funext fun y => extreme.choose_eq_merge best y)

/-- There is an extreme exactly if something passes. -/
theorem exists_extreme? [Numeric N] (extreme : Extreme) :
    ∃ best, (v.extreme? extreme source (some value)).outcome = .ok best ∧
      (best = none ↔ chosen v.predicate v.negate source = []) :=
  ⟨_, h.outcome_extreme? extreme, combined_eq_none_iff.trans selected_eq_nil_iff⟩

/-- **The sum** of the selected values, from zero. -/
theorem outcome_sum [Numeric N] :
    (v.sum source (some value)).outcome
      = .ok ((v.selected x source).foldl Numeric.add Numeric.zero) :=
  h.outcome_foldSelected (fun _ _ => rfl) Numeric.zero

/-- There is an average exactly if something passes. -/
theorem exists_average? [Numeric N] :
    ∃ mean, (v.average? source (some value)).outcome = .ok mean ∧
      (mean = none ↔ chosen v.predicate v.negate source = []) := by
  have htotal : (v.foldSelected (some value) (fun total y => .done (total.add y)) {}
      source).outcome = .ok ((v.selected x source).foldl Total.add {}) :=
    h.outcome_foldSelected (fun _ _ => rfl) ({} : Total)
  have hcount : ((v.selected x source).foldl Total.add {}).count
      = 0 + (v.selected x source).length := count_foldl_add (x := id) {} _
  refine ⟨_, Run.outcome_bind_ok htotal _, ?_⟩
  rw [ite_eq_left_iff, hcount, Nat.zero_add, List.length_eq_zero_iff, selected_eq_nil_iff]
  simp

/-- **A fold of the caller** is the selected values, combined by its function. -/
theorem outcome_aggregate {combine : N × N → Run N} {f : N → N → N}
    (hcombine : ∀ m n, (combine (m, n)).outcome = .ok (f m n)) :
    (v.aggregate source (some value) (some combine)).outcome
      = (orEmpty .aggregate (combined f (v.selected x source))).outcome := by
  refine Run.outcome_bind_ok (h.outcome_foldSelected (fun acc y => ?_) none) _
  cases acc with
  | none => rfl
  | some a => exact Run.outcome_bind_ok (hcombine a y) _

end Selects

end Evaluator

end Criteria
