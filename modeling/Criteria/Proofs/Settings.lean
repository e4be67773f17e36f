import Criteria.Proofs.Arguments
import Criteria.Proofs.Selecting
import Criteria.Specification

/-!
# Setting a specification

A specification is made by settings one after another (`Specification.Setting`), each of
which checks its numbers before it changes anything. A setting that is rejected leaves the
specification as it was, and the caller may go on (`Specification.setAll`).

So every number of a specification is positive, whatever was set and rejected on the way
(`Specification.Built.sound`), and to validate it is to ask whether a page has a size.
-/

namespace Criteria

variable {T : Type}

namespace Specification

/-! ## Settings -/

/-- **A setting**, with its arguments as the caller gives them. -/
inductive Setting (T : Type)
  /-- The condition. -/
  | filter (p : Predicate T)
  /-- The sign. -/
  | negation (negate : Bool)
  /-- The order. -/
  | order (o : SortOrder T)
  /-- The page and its size. -/
  | pagination (page size : Int32)
  /-- The page. -/
  | page (page : Int32)
  /-- The size of a page. -/
  | pageSize (size : Int32)
  /-- How many entities are wanted. -/
  | top (count : Int32)
  /-- How many pages make a block. -/
  | blockSize (size : Int32)

/-- **What a setting does.** -/
def set (s : Specification T) : Setting T → Run (Specification T)
  | .filter p => .done (s.withFilter p)
  | .negation negate => .done (s.withNegation negate)
  | .order o => .done (s.withOrder o)
  | .pagination page size => s.withPagination page size
  | .page n => s.withPage n
  | .pageSize size => s.withPageSize size
  | .top count => s.withTop count
  | .blockSize size => s.withBlockSize size

/-- **Settings one after another.** One that is rejected leaves the specification as it
was. -/
def setAll (s : Specification T) (settings : List (Setting T)) : Specification T :=
  settings.foldl (fun s setting => (s.set setting).resultD s) s

/-- **A specification that was made by settings.** -/
def Built (s : Specification T) : Prop := ∃ settings, s = setAll {} settings

namespace Setting

/-- The first fault of a setting's numbers. -/
def fault? : Setting T → Option ArgumentFault
  | .pagination n size => (positiveFault? "page" n).or (positiveFault? "pageSize" size)
  | .page n => positiveFault? "page" n
  | .pageSize size => positiveFault? "pageSize" size
  | .top count => positiveFault? "top" count
  | .blockSize size => positiveFault? "blockSize" size
  | _ => none

/-- The specification with an accepted setting. -/
def change (s : Specification T) : Setting T → Specification T
  | .filter p => { s with filter := p }
  | .negation negate => { s with negate := negate }
  | .order o => { s with order := some o }
  | .pagination n size => { s with page := some n, pageSize := some size }
  | .page n => { s with page := some n }
  | .pageSize size => { s with pageSize := some size }
  | .top count => { s with top := some count }
  | .blockSize size => { s with blockSize := some size }

end Setting

/-- **A setting checks its numbers first.** -/
theorem set_guarded (s : Specification T) (setting : Setting T) :
    (s.set setting).Guarded setting.fault? (.done (setting.change s)) := by
  have hnone {α : Type} (x : Run α) : x.Guarded none x :=
    (show (Run.done ()).Checks none from rfl).guarded x
  cases setting with
  | filter | negation | order => exact hnone _
  | page | pageSize | top | blockSize => exact (requirePositive_checks _ _).guarded _
  | pagination page size =>
    have hchecks := (requirePositive_checks "page" page).andThen fun _ =>
      requirePositive_checks "pageSize" size
    have hset := hchecks.guarded (Run.done ((Setting.pagination page size).change s))
    rwa [Run.bind_bind] at hset

/-- A setting is made, or it changes nothing. -/
theorem resultD_set (s : Specification T) (setting : Setting T) :
    (s.set setting).resultD s = if setting.fault? = none then setting.change s else s := by
  have hset := s.set_guarded setting
  unfold Run.resultD
  cases hfault : setting.fault? with
  | none => simp [hset.accepts hfault]
  | some cause => simp [hset.outcome_of_some hfault]

/-! ## What is set is positive -/

/-- **A specification whose numbers are positive.** -/
structure Sound (s : Specification T) : Prop where
  /-- The page is. -/
  page : ∀ n ∈ s.page, 1 ≤ n.toInt
  /-- The size of a page is. -/
  pageSize : ∀ n ∈ s.pageSize, 1 ≤ n.toInt
  /-- The top count is. -/
  top : ∀ n ∈ s.top, 1 ≤ n.toInt
  /-- The block size is. -/
  blockSize : ∀ n ∈ s.blockSize, 1 ≤ n.toInt

/-- Nothing is set at first. -/
theorem sound_empty : ({} : Specification T).Sound := ⟨nofun, nofun, nofun, nofun⟩

/-- **An accepted setting keeps the numbers positive.** -/
theorem Sound.change {s : Specification T} (h : s.Sound) {setting : Setting T}
    (hfault : setting.fault? = none) : (setting.change s).Sound := by
  have hset {m n : Int32} (hm : 1 ≤ m.toInt) (hn : n ∈ some m) : 1 ≤ n.toInt := by
    rwa [← Option.some.inj hn]
  cases setting with
  | filter | negation | order => exact ⟨h.page, h.pageSize, h.top, h.blockSize⟩
  | page => exact { h with page := fun _ => hset (positiveFault?_eq_none_iff.mp hfault) }
  | pageSize => exact { h with pageSize := fun _ => hset (positiveFault?_eq_none_iff.mp hfault) }
  | top => exact { h with top := fun _ => hset (positiveFault?_eq_none_iff.mp hfault) }
  | blockSize =>
    exact { h with blockSize := fun _ => hset (positiveFault?_eq_none_iff.mp hfault) }
  | pagination =>
    obtain ⟨hpage, hsize⟩ := Option.or_eq_none_iff.mp hfault
    exact { h with
      page := fun _ => hset (positiveFault?_eq_none_iff.mp hpage)
      pageSize := fun _ => hset (positiveFault?_eq_none_iff.mp hsize) }

/-- **Settings one after another keep the numbers positive**, rejected ones among them. -/
theorem Sound.setAll {s : Specification T} (h : s.Sound) (settings : List (Setting T)) :
    (s.setAll settings).Sound := by
  induction settings generalizing s with
  | nil => exact h
  | cons setting rest ih =>
    have hstep : ((s.set setting).resultD s).Sound := by
      rw [resultD_set]
      split
      case isTrue hfault => exact h.change hfault
      case isFalse => exact h
    exact ih hstep

theorem Built.sound {s : Specification T} (h : s.Built) : s.Sound := by
  obtain ⟨settings, rfl⟩ := h
  exact sound_empty.setAll settings

/-! ## Validation -/

/-- A positive number passes, and so does one that is not set. -/
theorem requireSet_of_pos (name : Text) {n : Option Int32} (h : ∀ m ∈ n, 1 ≤ m.toInt) :
    requireSet name n = .done () := by
  cases n with
  | none => rfl
  | some m => exact requirePositive_of_pos name (h m rfl)

/-- **All that validation asks** is that a page has a size. -/
theorem Sound.validate {s : Specification T} (h : s.Sound) :
    s.validate
      = if s.page.isSome && s.pageSize.isNone then .reject .pageWithoutSize else .done () := by
  unfold Specification.validate
  rw [requireSet_of_pos _ h.page, requireSet_of_pos _ h.pageSize, requireSet_of_pos _ h.top,
    requireSet_of_pos _ h.blockSize]
  rfl

end Specification

end Criteria
