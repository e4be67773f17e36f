import Criteria.Proofs.Pages

/-!
# Arguments

Pages, their sizes and top counts are checked by a sequence of steps, of which the first
that finds a fault ends the run with a message. Here the sequence is told as data: the
first fault of the arguments, if they have one (`Limits.pageFault?`, `Limits.topFault?`),
and that the steps find that one (`Run.Checks`). Whoever asks for a page or a top, in
memory or by a query, checks by the same steps, so its faults are these.
-/

namespace Criteria

/-! ## Faults of counts -/

/-- The fault of a count that is not positive. -/
def positiveFault? (name : Text) (n : Int32) : Option ArgumentFault :=
  if 1 ≤ n.toInt then none else some (.notPositive name n.toInt)

namespace Limits

/-- The fault of a count above a limit. -/
def excess? (fault : ℕ → ℕ → ArgumentFault) (limit : UInt64) (n : Int32) :
    Option ArgumentFault :=
  if limit = 0 ∨ n.toInt.toNat ≤ limit.toNat then none
  else some (fault n.toInt.toNat limit.toNat)

/-- **The first fault of a page and its size.** -/
def pageFault? (limits : Limits) (page size : Int32) : Option ArgumentFault :=
  (positiveFault? "page" page).or <|
    (positiveFault? "pageSize" size).or (excess? .pageSizeLimit limits.maxPageSize size)

/-- **The first fault of a top count**, which goes by a name. -/
def topFault? (limits : Limits) (name : Text) (count : Int32) : Option ArgumentFault :=
  (positiveFault? name count).or (excess? .topCountLimit limits.maxTopCount count)

end Limits

theorem positiveFault?_eq_none_iff {name : Text} {n : Int32} :
    positiveFault? name n = none ↔ 1 ≤ n.toInt := by
  simp [positiveFault?]

namespace Limits

theorem excess?_eq_none_iff {fault : ℕ → ℕ → ArgumentFault} {limit : UInt64} {n : Int32} :
    excess? fault limit n = none ↔ limit = 0 ∨ n.toInt.toNat ≤ limit.toNat := by
  unfold excess?
  split
  case isTrue h => exact iff_of_true rfl h
  case isFalse h => exact iff_of_false (Option.some_ne_none _) h

/-- **Accepted are the positive pages of an allowed size.** -/
theorem pageFault?_eq_none_iff {limits : Limits} {page size : Int32} :
    limits.pageFault? page size = none ↔ 1 ≤ page.toInt ∧ Allows limits.maxPageSize size := by
  rw [pageFault?, Option.or_eq_none_iff, Option.or_eq_none_iff, positiveFault?_eq_none_iff,
    positiveFault?_eq_none_iff, excess?_eq_none_iff, Allows]

/-- **Accepted are the allowed top counts.** -/
theorem topFault?_eq_none_iff {limits : Limits} {name : Text} {count : Int32} :
    limits.topFault? name count = none ↔ Allows limits.maxTopCount count := by
  rw [topFault?, Option.or_eq_none_iff, positiveFault?_eq_none_iff, excess?_eq_none_iff, Allows]

/-- A positive page of a positive size that is not allowed is above the limit. -/
theorem pageFault?_of_excess {limits : Limits} {page size : Int32} (hpage : 1 ≤ page.toInt)
    (hsize : 1 ≤ size.toInt) (h : ¬ Allows limits.maxPageSize size) :
    limits.pageFault? page size
      = some (.pageSizeLimit size.toInt.toNat limits.maxPageSize.toNat) := by
  have hexcess : ¬ (limits.maxPageSize = 0 ∨ size.toInt.toNat ≤ limits.maxPageSize.toNat) :=
    fun hle => h ⟨hsize, hle⟩
  rw [pageFault?, positiveFault?_eq_none_iff.mpr hpage, positiveFault?_eq_none_iff.mpr hsize,
    Option.none_or, Option.none_or, excess?, if_neg hexcess]

/-- The name of a positive top count does not matter. -/
theorem topFault?_of_pos {limits : Limits} {count : Int32} (h : 1 ≤ count.toInt) (name : Text) :
    limits.topFault? name count = excess? .topCountLimit limits.maxTopCount count := by
  rw [topFault?, positiveFault?_eq_none_iff.mpr h, Option.none_or]

end Limits

/-! ## Steps that check -/

namespace Run

variable {α : Type}

/-- **Steps that check for a fault**: they leave no trace if there is none, and otherwise
reject it with a message. -/
def Checks (x : Run Unit) : Option ArgumentFault → Prop
  | none => x = .done ()
  | some cause => ∃ text, x = (Run.log .debug text >>= fun _ => .reject cause)

/-- Checks of one thing after another find the first fault. -/
theorem Checks.andThen {x y : Run Unit} {f g : Option ArgumentFault} (hx : x.Checks f)
    (hy : f = none → y.Checks g) : (x >>= fun _ => y).Checks (f.or g) := by
  cases f with
  | none =>
    obtain rfl : x = .done () := hx
    exact hy rfl
  | some cause =>
    obtain ⟨text, rfl⟩ := hx
    exact ⟨text, rfl⟩

/-- What follows a check without a fault. -/
theorem Checks.bind_of_none {x : Run Unit} {f : Option ArgumentFault} (hx : x.Checks f)
    (hf : f = none) (k : Unit → Run α) : x >>= k = k () := by
  subst hf
  obtain rfl : x = .done () := hx
  rfl

/-- Nothing follows a check that finds a fault. -/
theorem Checks.bind_of_some {x : Run Unit} {f : Option ArgumentFault} (hx : x.Checks f)
    {cause : ArgumentFault} (hf : f = some cause) (k : Unit → Run α) :
    ∃ text, x >>= k = (Run.log .debug text >>= fun _ => .reject cause) := by
  subst hf
  obtain ⟨text, rfl⟩ := hx
  exact ⟨text, rfl⟩

/-- **A run behind a check**: a fault of the arguments is rejected with a message, and
without one the run goes on as if nothing had been checked. -/
structure Guarded (x : Run α) (fault? : Option ArgumentFault) (accepted : Run α) : Prop where
  /-- With a fault, nothing but the check is done. -/
  rejects : ∀ cause, fault? = some cause →
    ∃ text, x = (Run.log .debug text >>= fun _ => .reject cause)
  /-- Without a fault, the check leaves no trace. -/
  accepts : fault? = none → x = accepted

/-- What follows a check is behind it. -/
theorem Checks.guarded {check : Run Unit} {f : Option ArgumentFault} (h : check.Checks f)
    (x : Run α) : (check >>= fun _ => x).Guarded f x where
  rejects _ hf := h.bind_of_some hf _
  accepts hf := h.bind_of_none hf _

/-- **A check before a check**: the first one may find a fault that the later one would find
as well. -/
theorem Guarded.bind {β : Type} {x : Run α} {a : α} {k : α → Run β} {y : Run β}
    {f g : Option ArgumentFault} (hx : x.Guarded g (.done a)) (hk : g = none → (k a).Guarded f y)
    (hfirst : g ≠ none → f = g) : (x >>= k).Guarded f y := by
  cases hg : g with
  | none =>
    rw [hx.accepts hg, done_bind]
    exact hk hg
  | some cause =>
    have hf : f = some cause := (hfirst (by simp [hg])).trans hg
    obtain ⟨text, rfl⟩ := hx.rejects cause hg
    refine ⟨fun cause' hcause => ⟨text, ?_⟩, fun hnone => by simp [hf] at hnone⟩
    obtain rfl : cause = cause' := Option.some.inj (hf.symm.trans hcause)
    rfl

/-- What follows a run behind a check is behind it as well. -/
theorem Guarded.followed {β : Type} {x y : Run α} {f : Option ArgumentFault}
    (h : x.Guarded f y) (k : α → Run β) : (x >>= k).Guarded f (y >>= k) where
  rejects cause hf := by
    obtain ⟨text, rfl⟩ := h.rejects cause hf
    exact ⟨text, rfl⟩
  accepts hf := by rw [h.accepts hf]

/-- The outcome of what is rejected. -/
theorem Guarded.outcome_of_some {x y : Run α} {f : Option ArgumentFault} (h : x.Guarded f y)
    {cause : ArgumentFault} (hf : f = some cause) : x.outcome = .error (.argument cause) := by
  obtain ⟨text, rfl⟩ := h.rejects cause hf
  rfl

end Run

theorem requirePositive_checks (name : Text) (n : Int32) :
    (requirePositive name n).Checks (positiveFault? name n) := by
  unfold positiveFault?
  split
  case isTrue h => exact requirePositive_of_pos name h
  case isFalse h =>
    have hlt : n < 1 := by
      rw [Int32.lt_iff_toInt_lt, show (1 : Int32).toInt = 1 by decide]
      omega
    exact ⟨_, if_pos hlt⟩

namespace Limits

/-- A limit excludes the positive counts that are above it. -/
theorem excludes_eq (fault : ℕ → ℕ → ArgumentFault) (limit : UInt64) {n : Int32}
    (hn : 1 ≤ n.toInt) : excludes limit (countWord n) = (excess? fault limit n).isSome := by
  rw [Bool.eq_iff_iff, Option.isSome_iff_ne_none, ne_eq, excess?_eq_none_iff]
  simp [excludes, UInt64.lt_iff_toNat_lt, countWord_toNat hn]

theorem checkPageSize_checks (limits : Limits) {size : Int32} (hsize : 1 ≤ size.toInt) :
    (limits.checkPageSize (countWord size)).Checks
      (excess? .pageSizeLimit limits.maxPageSize size) := by
  have hexcludes := excludes_eq .pageSizeLimit limits.maxPageSize hsize
  unfold checkPageSize
  rw [hexcludes]
  unfold excess?
  split
  · rfl
  · exact ⟨_, by rw [countWord_toNat hsize]; rfl⟩

theorem checkTopCount_checks (limits : Limits) {count : Int32} (hcount : 1 ≤ count.toInt) :
    (limits.checkTopCount (countWord count)).Checks
      (excess? .topCountLimit limits.maxTopCount count) := by
  have hexcludes := excludes_eq .topCountLimit limits.maxTopCount hcount
  unfold checkTopCount
  rw [hexcludes]
  unfold excess?
  split
  · rfl
  · exact ⟨_, by rw [countWord_toNat hcount]; rfl⟩

/-- **The checks of a page find its first fault.** -/
theorem requirePage_checks (limits : Limits) (page size : Int32) :
    (limits.requirePage page size).Checks (limits.pageFault? page size) :=
  (requirePositive_checks "page" page).andThen fun _ =>
    (requirePositive_checks "pageSize" size).andThen fun hsize =>
      limits.checkPageSize_checks (positiveFault?_eq_none_iff.mp hsize)

/-- **The checks of a top count find its first fault.** -/
theorem requireTop_checks (limits : Limits) (count : Int32) :
    (limits.requireTop count).Checks (limits.topFault? "count" count) :=
  (requirePositive_checks "count" count).andThen fun hcount =>
    limits.checkTopCount_checks (positiveFault?_eq_none_iff.mp hcount)

end Limits

end Criteria
