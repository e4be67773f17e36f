import Criteria.Proofs.Reducing

/-!
# The first fault

Predicates and selectors are functions of the caller, and may fail on any entity. An operation
goes through the source in order, tests each entity and selects something of those that pass,
and the first call that fails ends it. So its fault is that of the earliest entity that has one,
the predicate's before the selector's (`Evaluator.offence?`), and what stands behind that entity
makes no difference to the run at all, not even to what it shows on the way (`Run.Surfaces`).

A search goes no further than the first entity that passes. It fails where an entity before that
one does, and is otherwise unaffected by faults (`Run.Searches`).

A reduction of nothing is a fault of the operation itself. It needs every entity to have been
tested, and so it never stands in for one of the caller's (`Evaluator.first_fault_surfaces`).
-/

namespace Criteria

namespace Run

variable {α β γ : Type}

/-! ## Faults of runs -/

/-- The fault that a run ends in, if it does. -/
def fault? (x : Run α) : Option Fault :=
  match x.outcome with
  | .ok _ => none
  | .error fault => some fault

theorem fault?_of_ok {x : Run α} {a : α} (h : x.outcome = .ok a) : x.fault? = none := by
  unfold fault?
  rw [h]

theorem fault?_of_error {x : Run α} {fault : Fault} (h : x.outcome = .error fault) :
    x.fault? = some fault := by
  unfold fault?
  rw [h]

theorem exists_ok_of_fault? {x : Run α} (h : x.fault? = none) : ∃ a, x.outcome = .ok a := by
  cases hx : x.outcome with
  | ok a => exact ⟨a, rfl⟩
  | error fault =>
    rw [fault?_of_error hx] at h
    cases h

/-- **One run after another** fails as the first one does, or else as the second. -/
theorem fault?_bind {x : Run α} {f : α → Run β} {next : Option Fault}
    (h : ∀ a, x.outcome = .ok a → (f a).fault? = next) : (x >>= f).fault? = x.fault?.or next := by
  cases hx : x.outcome with
  | ok a =>
    rw [fault?_of_ok hx, Option.none_or, ← h a hx]
    unfold fault?
    rw [outcome_bind_ok hx]
  | error fault => rw [fault?_of_error hx, fault?_of_error (outcome_bind_error hx f)]; rfl

/-- What a result is made into is no fault. -/
theorem fault?_map (x : Run α) (f : α → β) :
    (x >>= fun a => done (f a)).fault? = x.fault? := by
  have hbind : (x >>= fun a => done (f a)).fault? = x.fault?.or none :=
    fault?_bind fun _ _ => rfl
  rw [hbind, Option.or_none]

/-- What follows a run without results makes no difference. -/
theorem bind_eq_of_fault? {x : Run α} (h : x.fault? ≠ none) (f g : α → Run β) :
    x >>= f = x >>= g :=
  bind_congr_of_ok fun _ ha => absurd (fault?_of_ok ha) h

/-! ## Going through a list -/

/-- **The earliest fault surfaces**: an operation on a list fails as the earliest element does
that has a fault of its own, and goes no further; where none has, the operation may have a
fault. -/
structure Surfaces (operation : List α → Run β) (own : α → Option Fault)
    (otherwise : List α → Option Fault) : Prop where
  /-- The fault is the earliest one. -/
  fault? : ∀ xs, (operation xs).fault? = (xs.findSome? own).or (otherwise xs)
  /-- What stands behind it is not looked at. -/
  stops : ∀ xs ys, xs.findSome? own ≠ none → operation (xs ++ ys) = operation xs

/-- An operation without faults but those of the elements. -/
def OnlySurfaces (operation : List α → Run β) (own : α → Option Fault) : Prop :=
  Surfaces operation own fun _ => none

/-- An operation that can be taken up where it stopped goes no further than a fault. -/
theorem onlySurfaces_of_resumes {operation : List α → Run β} {own : α → Option Fault}
    (hfault : ∀ xs, (operation xs).fault? = xs.findSome? own)
    (resumes : ∀ xs ys, ∃ more, operation (xs ++ ys) = operation xs >>= more) :
    OnlySurfaces operation own where
  fault? xs := by rw [hfault, Option.or_none]
  stops xs ys h := by
    obtain ⟨more, hmore⟩ := resumes xs ys
    rw [hmore, bind_eq_of_fault? (by rwa [hfault]) more done, bind_done]

/-- What is made of the result may add a fault of the operation. -/
theorem OnlySurfaces.andThen {operation : List α → Run β} {own : α → Option Fault}
    (h : OnlySurfaces operation own) {finish : β → Run γ} {otherwise : List α → Option Fault}
    (hfinish : ∀ xs b, (operation xs).outcome = .ok b → (finish b).fault? = otherwise xs) :
    Surfaces (fun xs => operation xs >>= finish) own otherwise where
  fault? xs := by rw [fault?_bind (hfinish xs), h.fault?, Option.or_none]
  stops xs ys hfault := congrArg (· >>= finish) (h.stops xs ys hfault)

/-- What is made of the result adds no fault if it is made without one. -/
theorem OnlySurfaces.map {operation : List α → Run β} {own : α → Option Fault}
    (h : OnlySurfaces operation own) (f : β → γ) :
    OnlySurfaces (fun xs => operation xs >>= fun b => done (f b)) own :=
  h.andThen fun _ _ _ => rfl

theorem findSome?_cons_eq_or (own : α → Option Fault) (a : α) (rest : List α) :
    (a :: rest).findSome? own = (own a).or (rest.findSome? own) := by
  rw [List.findSome?_cons]
  cases own a <;> rfl

/-- **A fold** fails as the earliest step that does, if a step fails in every state alike. -/
theorem onlySurfaces_fold {step : β → α → Run β} {own : α → Option Fault}
    (h : ∀ b a, (step b a).fault? = own a) (start : β) : OnlySurfaces (fold step start) own := by
  refine onlySurfaces_of_resumes (fun xs => ?_) fun xs ys => ?_
  · induction xs generalizing start with
    | nil => rfl
    | cons a rest ih =>
      unfold fold
      rw [fault?_bind fun b _ => ih b, h, findSome?_cons_eq_or]
  · refine ⟨fun b => fold step b ys, ?_⟩
    induction xs generalizing start with
    | nil => rfl
    | cons a rest ih =>
      show (step start a >>= fun b => fold step b (rest ++ ys))
        = step start a >>= (fun b => fold step b rest) >>= fun b => fold step b ys
      rw [bind_bind, funext ih]

/-- **Keeping** what passes a test fails as the earliest test that does. -/
theorem onlySurfaces_keep {test : α → Run Bool} {own : α → Option Fault}
    (h : ∀ a, (test a).fault? = own a) : OnlySurfaces (keep test) own := by
  refine onlySurfaces_of_resumes (fun xs => ?_) fun xs ys => ?_
  · induction xs with
    | nil => rfl
    | cons a rest ih =>
      unfold keep
      rw [fault?_bind fun passed _ => fault?_map (keep test rest) _, ih, h, findSome?_cons_eq_or]
  · refine ⟨fun kept => keep test ys >>= fun others => done (kept ++ others), ?_⟩
    induction xs with
    | nil => exact (bind_done _).symm
    | cons a rest ih =>
      show (test a >>= fun passed => keep test (rest ++ ys) >>= fun kept =>
          done (if passed then a :: kept else kept))
        = test a >>= (fun passed => keep test rest >>= fun kept =>
          done (if passed then a :: kept else kept)) >>= _
      rw [ih, bind_bind]
      refine congrArg (test a >>= ·) (funext fun passed => ?_)
      rw [bind_bind, bind_bind]
      refine congrArg (keep test rest >>= ·) (funext fun kept => ?_)
      rw [bind_bind, done_bind]
      cases passed <;> rfl

/-! ## Searching a list -/

/-- **A search** fails as the earliest element does among those before the first that passes,
and otherwise answers, whatever the elements behind that one would do. -/
structure Searches (search : List α → Run β) (passes : α → Bool) (own : α → Option Fault)
    (answer : List α → β) : Prop where
  /-- The fault is the earliest one before an element that passes. -/
  fault? : ∀ xs, (search xs).fault? = (xs.takeWhile fun a => !passes a).findSome? own
  /-- Without one there is an answer. -/
  answers : ∀ xs, (xs.takeWhile fun a => !passes a).findSome? own = none →
    (search xs).outcome = .ok (answer xs)
  /-- What stands behind either is not looked at. -/
  stops : ∀ xs ys, (∃ a ∈ xs, passes a = true ∨ own a ≠ none) → search (xs ++ ys) = search xs

/-- Whether an element passes a test; one that the test fails on does not. -/
def passes (test : α → Run Bool) (a : α) : Bool := (test a).resultD false

section

variable {test : α → Run Bool}

theorem passes_of_ok {a : α} {passed : Bool} (h : (test a).outcome = .ok passed) :
    passes test a = passed := by
  unfold passes resultD
  rw [h]

theorem passes_of_error {a : α} {fault : Fault} (h : (test a).outcome = .error fault) :
    passes test a = false := by
  unfold passes resultD
  rw [h]

/-- Asking for an element is finding one. -/
theorem exist_eq_first? (xs : List α) :
    exist test xs = first? test xs >>= fun found => done found.isSome := by
  induction xs with
  | nil => rfl
  | cons a rest ih =>
    unfold exist first?
    rw [ih, bind_bind]
    refine congrArg (test a >>= ·) (funext fun passed => ?_)
    cases passed <;> rfl

/-- A search can be taken up where nothing has been found. -/
theorem first?_append (xs ys : List α) :
    first? test (xs ++ ys)
      = first? test xs >>= fun found => found.elim (first? test ys) fun a => done (some a) := by
  induction xs with
  | nil => rfl
  | cons a rest ih =>
    show (test a >>= fun passed => if passed then done (some a) else first? test (rest ++ ys))
      = test a >>= (fun passed => if passed then done (some a) else first? test rest) >>= _
    rw [ih, bind_bind]
    refine congrArg (test a >>= ·) (funext fun passed => ?_)
    cases passed <;> rfl

/-- Nothing is found only where every element has been tested and does not pass. -/
theorem outcome_of_first?_none {xs : List α} (h : (first? test xs).outcome = .ok none) :
    ∀ a ∈ xs, (test a).outcome = .ok false := by
  induction xs with
  | nil => exact fun a ha => absurd ha List.not_mem_nil
  | cons a rest ih =>
    obtain ⟨passed, ha, hrest⟩ := bind_eq_ok_iff.mp h
    cases passed with
    | true => cases hrest
    | false => exact List.forall_mem_cons.mpr ⟨ha, ih hrest⟩

variable {own : α → Option Fault} (h : ∀ a, (test a).fault? = own a)

include h

/-- **What a search ends in**, from the elements before the first that passes. -/
theorem outcome_first?_eq (xs : List α) :
    (first? test xs).outcome
      = ((xs.takeWhile fun a => !passes test a).findSome? own).elim
          (.ok (xs.find? (passes test))) .error := by
  induction xs with
  | nil => rfl
  | cons a rest ih =>
    unfold first?
    rw [List.takeWhile_cons, List.find?_cons]
    cases ha : (test a).outcome with
    | error fault =>
      rw [passes_of_error ha, outcome_bind_error ha, Bool.not_false, if_pos rfl,
        findSome?_cons_eq_or, ← h, fault?_of_error ha]
      rfl
    | ok passed =>
      rw [passes_of_ok ha, outcome_bind_ok ha]
      cases passed with
      | true => rfl
      | false =>
        rw [Bool.not_false, if_pos rfl, findSome?_cons_eq_or, ← h, fault?_of_ok ha,
          Option.none_or]
        exact ih

/-- **Finding the first element that passes** is a search. -/
theorem searches_first? :
    Searches (first? test) (passes test) own (List.find? (passes test)) := by
  constructor
  case fault? =>
    intro xs
    unfold fault?
    rw [outcome_first?_eq h]
    cases (xs.takeWhile _).findSome? own <;> rfl
  case answers =>
    intro xs hnone
    rw [outcome_first?_eq h, hnone]
    rfl
  case stops =>
    intro xs ys ⟨a, ha, hstop⟩
    rw [first?_append]
    refine (bind_congr_of_ok fun found hfound => ?_).trans (bind_done (first? test xs))
    cases found with
    | some b => rfl
    | none =>
      have hfails := outcome_of_first?_none hfound a ha
      rw [passes_of_ok hfails, ← h, fault?_of_ok hfails] at hstop
      simp at hstop

/-- **Asking whether an element passes** is a search. -/
theorem searches_exist : Searches (exist test) (passes test) own (List.any · (passes test)) := by
  have hfirst := searches_first? h
  constructor
  case fault? =>
    intro xs
    rw [exist_eq_first?, fault?_map, hfirst.fault?]
  case answers =>
    intro xs hnone
    rw [exist_eq_first?, outcome_bind_ok (hfirst.answers xs hnone), outcome_done,
      List.isSome_find?]
  case stops =>
    intro xs ys hstop
    rw [exist_eq_first?, exist_eq_first?, hfirst.stops xs ys hstop]

end

end Run

namespace Evaluator

variable {T N K : Type} {v : Evaluator T}

/-! ## Faults of entities -/

/-- The fault of the predicate on an entity. -/
def predicateFault? (v : Evaluator T) (e : T) : Option Fault := (v.predicate.test e).fault?

/-- **The fault of an entity**: that of the predicate, or, if the entity passes, that of a
selector. -/
def offence? (v : Evaluator T) (select : T → Run N) (e : T) : Option Fault :=
  match (v.predicate.test e).outcome with
  | .error fault => some fault
  | .ok verdict => if verdict != v.negate then (select e).fault? else none

/-- The fault of a reduction over nothing, if nothing passes. -/
def emptyFault? (v : Evaluator T) (reduction : Reduction) (source : List T) : Option Fault :=
  if chosen v.predicate v.negate source = [] then some (.emptyResult reduction) else none

theorem fault?_evaluate (v : Evaluator T) (e : T) :
    (v.evaluate e).fault? = v.predicateFault? e := by
  unfold evaluate
  rw [Run.fault?_map]
  rfl

theorem fault?_accepts (v : Evaluator T) (wanted : Bool) (e : T) :
    (v.accepts wanted e).fault? = v.predicateFault? e := by
  unfold accepts
  rw [Run.fault?_map, fault?_evaluate]

/-- To be accepted as wanted is to pass. -/
theorem accepts_true (v : Evaluator T) : v.accepts true = v.evaluate := by
  funext e
  unfold accepts
  simp only [beq_true]
  exact Run.bind_done (v.evaluate e)

/-- **A visit** to an entity fails as the entity does: it is tested before something is selected
of it. -/
theorem fault?_visit {β : Type} {select : T → Run N} {step : N → Run β}
    (hstep : ∀ y, (step y).fault? = none) (skipped : β) (e : T) :
    (v.evaluate e >>= fun passed =>
        if passed then Run.call (some select) e >>= step else .done skipped).fault?
      = v.offence? select e := by
  unfold offence? evaluate
  rw [Run.bind_bind]
  cases htest : (v.predicate.test e).outcome with
  | error fault => exact Run.fault?_of_error (Run.outcome_bind_error htest _)
  | ok verdict =>
    unfold Run.fault?
    rw [Run.outcome_bind_ok htest, Run.done_bind]
    dsimp only
    cases verdict != v.negate with
    | false => rfl
    | true =>
      have hcall : (select e >>= step).fault? = (select e).fault? := by
        rw [Run.fault?_bind fun y _ => hstep y, Option.or_none]
      exact hcall

/-- Where no entity has a fault, the selector has a value for every one that passes. -/
theorem selects_of_offence? {select : T → Run N} {source : List T}
    (h : source.findSome? (v.offence? select) = none) (fallback : N) :
    v.Selects select (fun e => (select e).resultD fallback) source := by
  have hnone : ∀ e ∈ source, v.offence? select e = none := List.findSome?_eq_none_iff.mp h
  have hverdict : v.predicate.Decides source := fun e he => by
    have hoffence := hnone e he
    unfold offence? at hoffence
    cases htest : (v.predicate.test e).outcome with
    | ok verdict => exact ⟨verdict, rfl⟩
    | error fault => rw [htest] at hoffence; cases hoffence
  refine ⟨hverdict, fun e he => ?_⟩
  obtain ⟨hmem, hpasses⟩ := List.mem_filter.mp he
  have hoffence := hnone e hmem
  unfold offence? at hoffence
  rw [Run.outcome_eq_resultD (hverdict e hmem) false] at hoffence
  exact Run.outcome_eq_resultD (Run.exists_ok_of_fault? ((if_pos hpasses).symm.trans hoffence)) _

/-! ## The operations -/

section

variable {select : T → Run N}

/-- Folds over what is selected fail as the entities do. -/
theorem foldSelected_surfaces {β : Type} {step : β → N → Run β}
    (hstep : ∀ b y, (step b y).fault? = none) (start : β) :
    Run.OnlySurfaces (v.foldSelected (some select) step start) (v.offence? select) :=
  Run.onlySurfaces_fold (fun b e => fault?_visit (hstep b) b e) start

variable [Numeric N]

theorem extreme?_surfaces (extreme : Extreme) :
    Run.OnlySurfaces (fun source => v.extreme? extreme source (some select))
      (v.offence? select) :=
  foldSelected_surfaces (fun _ _ => rfl) none

theorem average?_surfaces :
    Run.OnlySurfaces (fun source => v.average? source (some select)) (v.offence? select) :=
  (foldSelected_surfaces (fun _ _ => rfl) ({} : Total)).map _

/-- **A result that has to be there** is missing where nothing passes, and only there. -/
theorem fault?_orEmpty {β : Type} {reduction : Reduction} {source : List T} {result : Option β}
    (h : result = none ↔ chosen v.predicate v.negate source = []) :
    (orEmpty reduction result).fault? = v.emptyFault? reduction source := by
  unfold emptyFault?
  cases result with
  | none => rw [if_pos (h.mp rfl)]; rfl
  | some y => rw [if_neg fun hnil => Option.some_ne_none y (h.mpr hnil)]; rfl

/-- **A reduction that may have no result** adds a fault of its own only where nothing passes,
if it has a result wherever something does. -/
theorem surfaces_orEmpty {β : Type} {operation : List T → Run (Option β)}
    (h : Run.OnlySurfaces operation (v.offence? select))
    (hresult : ∀ source x, v.Selects select x source → ∃ result,
      (operation source).outcome = .ok result ∧
        (result = none ↔ chosen v.predicate v.negate source = [])) (reduction : Reduction) :
    Run.Surfaces (fun source => operation source >>= orEmpty reduction) (v.offence? select)
      (v.emptyFault? reduction) := by
  refine h.andThen fun source result houtcome => fault?_orEmpty ?_
  have hfault := h.fault? source
  rw [Run.fault?_of_ok houtcome, Option.or_none] at hfault
  obtain ⟨result', hresult', hnone⟩ :=
    hresult source _ (selects_of_offence? hfault.symm (Numeric.zero : N))
  obtain rfl := Except.ok.inj (houtcome.symm.trans hresult')
  exact hnone

end

variable [BEq K] [Numeric N]

/-- **Faults of the caller surface unchanged**, each the first one there is. -/
structure SurfacesFaults (v : Evaluator T) (select : T → Run N) (key : T → Run K) : Prop where
  /-- Counting and listing call the predicate alone. -/
  count : Run.OnlySurfaces v.count v.predicateFault?
  all : Run.OnlySurfaces (fun source => v.all source) v.predicateFault?
  allFailed : Run.OnlySurfaces (fun source => v.allFailed source) v.predicateFault?
  /-- Reductions call the selector for what passes, -/
  sum : Run.OnlySurfaces (fun source => v.sum source (some select)) (v.offence? select)
  /-- and where nothing fails those without a value for nothing may fail for want of one, -/
  min : Run.Surfaces (fun source => v.min source (some select)) (v.offence? select)
    (v.emptyFault? .min)
  max : Run.Surfaces (fun source => v.max source (some select)) (v.offence? select)
    (v.emptyFault? .max)
  average : Run.Surfaces (fun source => v.average source (some select)) (v.offence? select)
    (v.emptyFault? .average)
  /-- but not with a fallback. -/
  minOr (fallback : N) :
    Run.OnlySurfaces (fun source => v.minOr source (some select) fallback) (v.offence? select)
  maxOr (fallback : N) :
    Run.OnlySurfaces (fun source => v.maxOr source (some select) fallback) (v.offence? select)
  averageOr (fallback : Decimal) :
    Run.OnlySurfaces (fun source => v.averageOr source (some select) fallback)
      (v.offence? select)
  /-- Groups call a selector of keys for what passes. -/
  grouped : Run.OnlySurfaces (fun source => v.grouped source (some key)) (v.offence? key)
  countByGroup : Run.OnlySurfaces (fun source => v.countByGroup source (some key))
    (v.offence? key)
  /-- Searches end at the first entity that passes. -/
  any : Run.Searches v.any (Run.passes v.evaluate) v.predicateFault? fun source =>
    source.any (Run.passes v.evaluate)
  first : Run.Searches (fun source => v.first source) (Run.passes v.evaluate) v.predicateFault?
    fun source => source.find? (Run.passes v.evaluate)

/-- **The first fault surfaces**, whatever the predicate and the selectors do: an operation fails
as the earliest entity does, untouched by what stands behind it. -/
theorem first_fault_surfaces (v : Evaluator T) (select : T → Run N) (key : T → Run K) :
    v.SurfacesFaults select key := by
  have hkeep (wanted : Bool) :
      Run.OnlySurfaces (fun source => v.select source none wanted) v.predicateFault? :=
    (Run.onlySurfaces_keep (fault?_accepts v wanted)).andThen fun _ _ _ => rfl
  have hextreme (extreme : Extreme) (reduction : Reduction) :
      Run.Surfaces (fun source => v.extreme? extreme source (some select) >>= orEmpty reduction)
        (v.offence? select) (v.emptyFault? reduction) :=
    surfaces_orEmpty (extreme?_surfaces extreme)
      (fun _ _ hselects => hselects.exists_extreme? extreme) reduction
  constructor
  case count => exact (Run.onlySurfaces_keep (fault?_evaluate v)).map List.length
  case all => exact hkeep true
  case allFailed => exact hkeep false
  case sum => exact foldSelected_surfaces (fun _ _ => rfl) Numeric.zero
  case min => exact hextreme .least .min
  case max => exact hextreme .greatest .max
  case average =>
    exact surfaces_orEmpty average?_surfaces (fun _ _ hselects => hselects.exists_average?) _
  case minOr => exact fun fallback => (extreme?_surfaces .least).map (·.getD fallback)
  case maxOr => exact fun fallback => (extreme?_surfaces .greatest).map (·.getD fallback)
  case averageOr => exact fun fallback => average?_surfaces.map (·.getD fallback)
  case grouped => exact Run.onlySurfaces_fold (fun _ e => fault?_visit (fun _ => rfl) _ e) []
  case countByGroup => exact Run.onlySurfaces_fold (fun _ e => fault?_visit (fun _ => rfl) _ e) []
  case any => exact Run.searches_exist (fault?_evaluate v)
  case first =>
    show Run.Searches (Run.first? (v.accepts true)) _ _ _
    rw [accepts_true]
    exact Run.searches_first? (fault?_evaluate v)

end Evaluator

end Criteria
