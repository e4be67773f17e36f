import Criteria.Proofs.Limiting

/-!
# Calls on a specification

A specification is one object, and the methods that set its members change it in place. A
method that fails has done what its statements before the failing one did, so whether a
rejected call changes nothing is a matter of the order of its statements. Here they are
listed (`Setting.body`) and executed one by one (`Specification.execute`). The method with
two numbers checks both before it assigns the first member. That is what all methods have in
common (`Setting.body_eq`), and so a call either checks and changes nothing, or changes all
that it should, which is what `Specification.set` gives.

What a sequence of calls comes to can then be said without executing any: each member has the
argument of the last accepted call that sets it (`Specification.lastAccepted`), and a query is
answered by an evaluator that is made of these.
-/

namespace Criteria

variable {T : Type}

namespace Specification

/-! ## Methods in place -/

/-- **A statement of a method.** -/
inductive Statement (T : Type)
  /-- A number is checked. -/
  | require (name : Text) (n : Int32)
  /-- A member is assigned. -/
  | assign (change : Specification T → Specification T)

/-- What a statement does, and the specification after it. -/
def Statement.run (s : Specification T) : Statement T → Run Unit × Specification T
  | .require name n => (requirePositive name n, s)
  | .assign change => (.done (), change s)

/-- **Statements one after another**, up to one that fails. What was assigned before it
stays. -/
def execute (s : Specification T) : List (Statement T) → Run Unit × Specification T
  | [] => (.done (), s)
  | statement :: rest =>
    match (statement.run s).1.outcome with
    | .ok _ =>
      ((statement.run s).1 >>= fun _ => (execute (statement.run s).2 rest).1,
        (execute (statement.run s).2 rest).2)
    | .error _ => statement.run s

namespace Setting

/-- **The statements of a method**, in sequence. -/
def body : Setting T → List (Statement T)
  | .filter p => [.assign fun s => { s with filter := p }]
  | .negation negate => [.assign fun s => { s with negate := negate }]
  | .order o => [.assign fun s => { s with order := some o }]
  | .pagination n size =>
    [.require "page" n, .require "pageSize" size, .assign fun s => { s with page := some n },
      .assign fun s => { s with pageSize := some size }]
  | .page n => [.require "page" n, .assign fun s => { s with page := some n }]
  | .pageSize size =>
    [.require "pageSize" size, .assign fun s => { s with pageSize := some size }]
  | .top count => [.require "top" count, .assign fun s => { s with top := some count }]
  | .blockSize size =>
    [.require "blockSize" size, .assign fun s => { s with blockSize := some size }]

/-- The numbers among the arguments, with their names. -/
def numbers : Setting T → List (Text × Int32)
  | .filter _ | .negation _ | .order _ => []
  | .pagination n size => [("page", n), ("pageSize", size)]
  | .page n => [("page", n)]
  | .pageSize size => [("pageSize", size)]
  | .top count => [("top", count)]
  | .blockSize size => [("blockSize", size)]

/-- **Accepted** is a call whose numbers are all positive. -/
def Accepted (call : Setting T) : Prop := ∀ number ∈ call.numbers, 1 ≤ number.2.toInt

instance (call : Setting T) : Decidable call.Accepted :=
  inferInstanceAs (Decidable (∀ number ∈ call.numbers, 1 ≤ number.2.toInt))

end Setting

/-- **A call**: the statements of the method, on the specification as it is. -/
def call (s : Specification T) (setting : Setting T) : Run Unit × Specification T :=
  s.execute setting.body

/-- **Calls one after another.** The caller goes on after one that fails. -/
def callAll (s : Specification T) (calls : List (Setting T)) : Specification T :=
  calls.foldl (fun s setting => (s.call setting).2) s

/-! ## Checks come first -/

/-- Numbers checked one after another. -/
def requireAll : List (Text × Int32) → Run Unit
  | [] => .done ()
  | number :: rest => do
    requirePositive number.1 number.2
    requireAll rest

/-- The fault of the first number that is not positive. -/
def firstFault? (numbers : List (Text × Int32)) : Option ArgumentFault :=
  numbers.findSome? fun number => positiveFault? number.1 number.2

theorem firstFault?_nil : firstFault? [] = none := rfl

theorem firstFault?_cons (number : Text × Int32) (rest : List (Text × Int32)) :
    firstFault? (number :: rest)
      = (positiveFault? number.1 number.2).or (firstFault? rest) := by
  rw [firstFault?, List.findSome?_cons]
  cases positiveFault? number.1 number.2 <;> rfl

/-- **The checks find the first fault.** -/
theorem requireAll_checks (numbers : List (Text × Int32)) :
    (requireAll numbers).Checks (firstFault? numbers) := by
  induction numbers with
  | nil => rfl
  | cons number rest ih =>
    rw [firstFault?_cons]
    exact (requirePositive_checks number.1 number.2).andThen fun _ => ih

/-- What a check does with a number that does not pass. -/
theorem requirePositive_of_fault {name : Text} {n : Int32} {cause : ArgumentFault}
    (h : positiveFault? name n = some cause) :
    ∃ text, requirePositive name n = (Run.log .debug text >>= fun _ => .reject cause) := by
  have hchecks := requirePositive_checks name n
  rwa [h] at hchecks

/-- A number that passes its check. -/
theorem execute_require_of_none {name : Text} {n : Int32} (h : positiveFault? name n = none)
    (s : Specification T) (rest : List (Statement T)) :
    s.execute (.require name n :: rest) = s.execute rest := by
  have hrun : (Statement.run s (.require name n)).1 = .done () :=
    requirePositive_of_pos name (positiveFault?_eq_none_iff.mp h)
  rw [execute, hrun]
  rfl

/-- **A number that does not pass** ends the method. -/
theorem execute_require_of_some {name : Text} {n : Int32} {cause : ArgumentFault}
    (h : positiveFault? name n = some cause) (s : Specification T)
    (rest : List (Statement T)) :
    s.execute (.require name n :: rest) = (requirePositive name n, s) := by
  obtain ⟨text, hrejects⟩ := requirePositive_of_fault h
  rw [execute, Statement.run, hrejects]
  rfl

/-- Assignments do not fail. -/
theorem execute_assign (s : Specification T)
    (changes : List (Specification T → Specification T)) :
    s.execute (changes.map .assign)
      = (.done (), changes.foldl (fun s change => change s) s) := by
  induction changes generalizing s with
  | nil => rfl
  | cons change rest ih => exact ih (change s)

/-- **Checks that come first** decide whether anything is done after them. -/
theorem execute_require_append (s : Specification T) (numbers : List (Text × Int32))
    (rest : List (Statement T)) :
    s.execute (numbers.map (fun number => .require number.1 number.2) ++ rest)
      = if firstFault? numbers = none then s.execute rest else (requireAll numbers, s) := by
  induction numbers with
  | nil => rfl
  | cons number numbers ih =>
    have hchecks := requirePositive_checks number.1 number.2
    rw [List.map_cons, List.cons_append, firstFault?_cons, requireAll]
    cases hfault : positiveFault? number.1 number.2 with
    | none =>
      rw [execute_require_of_none hfault, hchecks.bind_of_none hfault, Option.none_or]
      exact ih
    | some cause =>
      obtain ⟨text, hrejects⟩ := requirePositive_of_fault hfault
      rw [execute_require_of_some hfault, hrejects]
      rfl

/-- **All methods check before they assign**, and assign what the setting changes. -/
theorem Setting.body_eq (setting : Setting T) :
    ∃ changes : List (Specification T → Specification T),
      setting.body
          = setting.numbers.map (fun number => .require number.1 number.2)
            ++ changes.map .assign ∧
        ∀ s, changes.foldl (fun s change => change s) s = setting.change s := by
  cases setting with
  | filter p => exact ⟨[fun s => { s with filter := p }], rfl, fun _ => rfl⟩
  | negation negate => exact ⟨[fun s => { s with negate := negate }], rfl, fun _ => rfl⟩
  | order o => exact ⟨[fun s => { s with order := some o }], rfl, fun _ => rfl⟩
  | pagination n size =>
    exact ⟨[fun s => { s with page := some n }, fun s => { s with pageSize := some size }],
      rfl, fun _ => rfl⟩
  | page n => exact ⟨[fun s => { s with page := some n }], rfl, fun _ => rfl⟩
  | pageSize size => exact ⟨[fun s => { s with pageSize := some size }], rfl, fun _ => rfl⟩
  | top count => exact ⟨[fun s => { s with top := some count }], rfl, fun _ => rfl⟩
  | blockSize size => exact ⟨[fun s => { s with blockSize := some size }], rfl, fun _ => rfl⟩

/-- With an assignment between the checks, a page would be left behind without its size. -/
example : (({} : Specification Unit).execute
    [.require "page" 2, .assign fun s => { s with page := some 2 },
      .require "pageSize" 0, .assign fun s => { s with pageSize := some 0 }]).2.page
    = some 2 := by decide

theorem Setting.fault?_eq (setting : Setting T) :
    setting.fault? = firstFault? setting.numbers := by
  cases setting <;> simp [fault?, numbers, firstFault?_cons, firstFault?_nil]

theorem Setting.accepted_iff {setting : Setting T} :
    setting.Accepted ↔ setting.fault? = none := by
  rw [fault?_eq, firstFault?, List.findSome?_eq_none_iff]
  exact forall₂_congr fun _ _ => positiveFault?_eq_none_iff.symm

/-- **A call makes the change, or it only checks.** -/
theorem call_eq (s : Specification T) (setting : Setting T) :
    s.call setting
      = if setting.Accepted then (.done (), setting.change s)
        else (requireAll setting.numbers, s) := by
  obtain ⟨changes, hbody, hchange⟩ := setting.body_eq
  rw [call, hbody, execute_require_append, execute_assign, hchange, ← Setting.fault?_eq]
  exact if_congr Setting.accepted_iff.symm rfl rfl

/-- The setting, with its checks as one. -/
theorem set_eq (s : Specification T) (setting : Setting T) :
    s.set setting = (requireAll setting.numbers >>= fun _ => .done (setting.change s)) := by
  cases setting with
  | filter | negation | order => rfl
  | page | pageSize | top | blockSize =>
    rw [Setting.numbers, requireAll, Run.bind_bind]
    rfl
  | pagination =>
    rw [Setting.numbers, requireAll, requireAll, Run.bind_bind, Run.bind_bind]
    rfl

/-- **In place, a method does what the setting gives**: the same checks, and the specification
of the setting or else the one that was there. -/
theorem call_eq_set (s : Specification T) (setting : Setting T) :
    s.call setting
      = (s.set setting >>= fun _ => .done (), (s.set setting).resultD s) := by
  have hrun : s.set setting >>= (fun _ => Run.done ()) = requireAll setting.numbers := by
    rw [set_eq, Run.bind_bind]
    exact Run.bind_done _
  have hchecks := requireAll_checks setting.numbers
  rw [call_eq, hrun, resultD_set]
  by_cases haccepted : setting.Accepted
  · have hfault := Setting.accepted_iff.mp haccepted
    rw [← Setting.fault?_eq, hfault] at hchecks
    rw [if_pos haccepted, if_pos hfault, show requireAll setting.numbers = .done () from hchecks]
  · rw [if_neg haccepted, if_neg fun hfault => haccepted (Setting.accepted_iff.mpr hfault)]

/-- A call that is rejected names the first number that is not positive. -/
theorem outcome_call_of_fault (s : Specification T) {setting : Setting T} {cause : ArgumentFault}
    (h : setting.fault? = some cause) :
    (s.call setting).1.outcome = .error (.argument cause) := by
  rw [call_eq_set]
  exact Run.outcome_bind_error ((s.set_guarded setting).outcome_of_some h) _

/-- **Accepted are the calls that return.** -/
theorem outcome_call_eq_ok_iff (s : Specification T) (setting : Setting T) :
    (s.call setting).1.outcome = .ok () ↔ setting.Accepted := by
  rw [Setting.accepted_iff]
  cases hfault : setting.fault? with
  | none =>
    rw [call_eq, if_pos (Setting.accepted_iff.mpr hfault)]
    exact iff_of_true rfl rfl
  | some cause =>
    rw [s.outcome_call_of_fault hfault]
    exact iff_of_false nofun nofun

/-- **A call that fails changes nothing**, and names the first number that is not positive. -/
theorem rejected_call {s : Specification T} {setting : Setting T} {fault : Fault}
    (h : (s.call setting).1.outcome = .error fault) :
    (∃ cause, firstFault? setting.numbers = some cause ∧ fault = .argument cause) ∧
      (s.call setting).2 = s := by
  have hrejected : ¬ setting.Accepted := fun haccepted => by
    rw [(s.outcome_call_eq_ok_iff setting).mpr haccepted] at h
    cases h
  obtain ⟨cause, hcause⟩ := Option.ne_none_iff_exists'.mp (mt Setting.accepted_iff.mpr hrejected)
  rw [s.outcome_call_of_fault hcause] at h
  obtain rfl := Except.error.inj h
  exact ⟨⟨cause, by rw [← Setting.fault?_eq, hcause], rfl⟩, by rw [call_eq, if_neg hrejected]⟩

/-- **A page and its size** are set together. -/
theorem call_pagination (s : Specification T) (page size : Int32) :
    (s.call (.pagination page size)).2
      = if 1 ≤ page.toInt ∧ 1 ≤ size.toInt then
          { s with page := some page, pageSize := some size }
        else s := by
  have haccepted : (Setting.pagination page size : Setting T).Accepted
      ↔ 1 ≤ page.toInt ∧ 1 ≤ size.toInt := by
    simp [Setting.Accepted, Setting.numbers]
  rw [call_eq, apply_ite Prod.snd]
  exact if_congr haccepted rfl rfl

/-- Calls in place are settings one after another. -/
theorem callAll_eq_setAll (s : Specification T) (calls : List (Setting T)) :
    s.callAll calls = s.setAll calls := by
  have hstep (s : Specification T) (setting : Setting T) :
      (s.call setting).2 = (s.set setting).resultD s := by rw [call_eq_set]
  simp only [callAll, setAll, hstep]

/-! ## The last accepted values -/

namespace Setting

/-- The condition that is set. -/
def filter? : Setting T → Option (Predicate T)
  | .filter p => some p
  | _ => none

/-- The sign that is set. -/
def negation? : Setting T → Option Bool
  | .negation negate => some negate
  | _ => none

/-- The order that is set. -/
def order? : Setting T → Option (SortOrder T)
  | .order o => some o
  | _ => none

/-- The page that is set, with its size or alone. -/
def page? : Setting T → Option Int32
  | .pagination n _ | .page n => some n
  | _ => none

/-- The size of a page that is set, with the page or alone. -/
def pageSize? : Setting T → Option Int32
  | .pagination _ size | .pageSize size => some size
  | _ => none

/-- The top count that is set. -/
def top? : Setting T → Option Int32
  | .top count => some count
  | _ => none

/-- The block size that is set. -/
def blockSize? : Setting T → Option Int32
  | .blockSize size => some size
  | _ => none

end Setting

section

variable {α : Type}

/-- **The last accepted value** of those that calls give. -/
def lastGiven (given? : Setting T → Option α) (calls : List (Setting T)) : Option α :=
  ((calls.filter fun call => call.Accepted).filterMap given?).getLast?

theorem lastGiven_cons (given? : Setting T → Option α) (call : Setting T)
    (rest : List (Setting T)) :
    lastGiven given? (call :: rest)
      = (lastGiven given? rest).or (if call.Accepted then given? call else none) := by
  unfold lastGiven
  by_cases haccepted : call.Accepted
  · rw [List.filter_cons_of_pos (by simpa using haccepted), if_pos haccepted,
      List.filterMap_cons]
    cases given? call with
    | none => rw [Option.or_none]
    | some a =>
      rw [List.getLast?_cons]
      cases List.getLast? _ <;> rfl
  · rw [List.filter_cons_of_neg (by simpa using haccepted), if_neg haccepted, Option.or_none]

/-- **What one call does to a member**, if that is what an accepted one does. -/
theorem read_call {read : Specification T → Option α} {given? : Setting T → Option α}
    (h : ∀ s setting, read (setting.change s) = (given? setting).or (read s))
    (s : Specification T) (call : Setting T) :
    read (s.call call).2 = (if call.Accepted then given? call else none).or (read s) := by
  rw [call_eq]
  split
  · exact h s call
  · rfl

/-- **A member after calls** has the last accepted value, or the one that it had. -/
theorem read_callAll {read : Specification T → Option α} {given? : Setting T → Option α}
    (h : ∀ s setting, read (setting.change s) = (given? setting).or (read s))
    (s : Specification T) (calls : List (Setting T)) :
    read (s.callAll calls) = (lastGiven given? calls).or (read s) := by
  induction calls generalizing s with
  | nil => rfl
  | cons call rest ih =>
    rw [lastGiven_cons, Option.or_assoc, ← read_call h]
    exact ih (s.call call).2

end

variable (p : Predicate T) (negate : Bool) (calls : List (Setting T))

/-- **A specification that was constructed and then called.** It is constructed with a
condition and a sign, or with those of the empty one. -/
def called : Specification T := ({ filter := p, negate := negate } : Specification T).callAll calls

/-- **The specification of the last accepted values.** -/
def lastAccepted : Specification T where
  filter := (lastGiven Setting.filter? calls).getD p
  negate := (lastGiven Setting.negation? calls).getD negate
  order := lastGiven Setting.order? calls
  page := lastGiven Setting.page? calls
  pageSize := lastGiven Setting.pageSize? calls
  top := lastGiven Setting.top? calls
  blockSize := lastGiven Setting.blockSize? calls

/-- **Every member has the last accepted value.** -/
theorem called_eq : called p negate calls = lastAccepted p negate calls := by
  have hread {α : Type} (read : Specification T → Option α) (given? : Setting T → Option α)
      (h : ∀ s setting, read (setting.change s) = (given? setting).or (read s)) :
      read (called p negate calls)
        = (lastGiven given? calls).or (read { filter := p, negate := negate }) :=
    read_callAll h _ calls
  have hfilter := hread (fun s => some s.filter) Setting.filter?
    fun _ setting => by cases setting <;> rfl
  have hnegate := hread (fun s => some s.negate) Setting.negation?
    fun _ setting => by cases setting <;> rfl
  have horder := hread Specification.order Setting.order?
    fun _ setting => by cases setting <;> rfl
  have hpage := hread Specification.page Setting.page?
    fun _ setting => by cases setting <;> rfl
  have hsize := hread Specification.pageSize Setting.pageSize?
    fun _ setting => by cases setting <;> rfl
  have htop := hread Specification.top Setting.top?
    fun _ setting => by cases setting <;> rfl
  have hblock := hread Specification.blockSize Setting.blockSize?
    fun _ setting => by cases setting <;> rfl
  rw [Option.or_some, Option.some.injEq] at hfilter hnegate
  rw [Option.or_none] at horder hpage hsize htop hblock
  exact Specification.ext hfilter hnegate horder hpage hsize htop hblock

/-- Rejected calls have no part in it. -/
example :
    let s : Specification Unit :=
      called .always false [.pagination 2 25, .pagination 3 0, .top 7, .page 0]
    (s.page, s.pageSize, s.top) = (some 2, some 25, some 7) := by decide

/-- **What is stored is positive.** -/
theorem called_sound : (called p negate calls).Sound := by
  have hsound : ({ filter := p, negate := negate } : Specification T).Sound :=
    ⟨nofun, nofun, nofun, nofun⟩
  rw [called, callAll_eq_setAll]
  exact hsound.setAll calls

/-! ## Queries -/

/-- A query for everything, by a specification without a page and without a top. -/
theorem Sound.query_of_neither {s : Specification T} (h : s.Sound) (hpage : s.page = none)
    (htop : s.top = none) (source : List T) (limits : Limits) :
    s.query source limits = (s.evaluator limits).all source s.order := by
  unfold query
  rw [h.validate, hpage, htop]
  rfl

/-- **Validation fails for a page without a size**, and for nothing else. -/
theorem Sound.validate_outcome {s : Specification T} (h : s.Sound) :
    s.validate.outcome
      = if s.page.isSome ∧ s.pageSize = none then .error (.argument .pageWithoutSize)
        else .ok () := by
  rw [h.validate]
  cases s.page <;> cases s.pageSize <;> rfl

/-- The evaluator of the last accepted condition and sign. -/
def lastEvaluator (limits : Limits) : Evaluator T where
  predicate := (lastGiven Setting.filter? calls).getD p
  negate := (lastGiven Setting.negation? calls).getD negate
  limits := limits

/-- **What calls make of a specification** that is constructed with a condition and a sign:
what any further call does to it, and what validation and queries give. -/
structure Specified (s : Specification T) : Prop where
  /-- A method does in place what the setting gives. -/
  inPlace : ∀ next, s.call next
    = (s.set next >>= fun _ => .done (), (s.set next).resultD s)
  /-- A call returns exactly if its numbers are positive. -/
  accepts : ∀ next, (s.call next).1.outcome = .ok () ↔ next.Accepted
  /-- Otherwise its fault is that of the first number that is not, and nothing changes. -/
  rejects : ∀ next fault, (s.call next).1.outcome = .error fault →
    (∃ cause, firstFault? next.numbers = some cause ∧ fault = .argument cause) ∧
      (s.call next).2 = s
  /-- A page and its size are both set, or neither is. -/
  pagination : ∀ page size, (s.call (.pagination page size)).2
    = if 1 ≤ page.toInt ∧ 1 ≤ size.toInt then { s with page := some page, pageSize := some size }
      else s
  /-- Every member has the last accepted value. -/
  members : s = lastAccepted p negate calls
  /-- Every number that is stored is positive. -/
  positive : s.Sound
  /-- Validation fails exactly if there is a page without a size. -/
  validates : (∃ fault, s.validate.outcome = .error fault) ↔ s.page.isSome ∧ s.pageSize = none
  /-- If it does not fail, a page that is set has a size, and a query is for that page. -/
  page : s.validate.outcome = .ok () → ∀ page, lastGiven Setting.page? calls = some page →
    ∃ size, lastGiven Setting.pageSize? calls = some size ∧
      ∀ source limits, s.query source limits
        = (lastEvaluator p negate calls limits).paged source page size
            (lastGiven Setting.order? calls)
  /-- Without a page, a query is for the top that is set. -/
  top : lastGiven Setting.page? calls = none →
    ∀ count, lastGiven Setting.top? calls = some count →
      ∀ source limits, s.query source limits
        = (lastEvaluator p negate calls limits).top source count (lastGiven Setting.order? calls)
  /-- With neither, a query is for everything. -/
  everything : lastGiven Setting.page? calls = none → lastGiven Setting.top? calls = none →
    ∀ source limits, s.query source limits
      = (lastEvaluator p negate calls limits).all source (lastGiven Setting.order? calls)

/-- **Any sequence of calls**, rejected ones among them, makes a specification whose members
and queries are told by the last accepted calls. -/
theorem called_specified : Specified p negate calls (called p negate calls) := by
  have hmembers := called_eq p negate calls
  have hsound := called_sound p negate calls
  have hvalidate := hsound.validate_outcome
  refine {
    inPlace := call_eq_set _
    accepts := outcome_call_eq_ok_iff _
    rejects := fun next fault hfault => ?_
    pagination := call_pagination _
    members := hmembers
    positive := hsound
    validates := ?_
    page := fun hvalid page hpage => ?_
    top := fun hpage count htop source limits => ?_
    everything := fun hpage htop source limits => ?_ }
  · exact rejected_call hfault
  · rw [hvalidate]
    split
    case isTrue h => exact iff_of_true ⟨_, rfl⟩ h
    case isFalse h => exact iff_of_false (by rintro ⟨_, ⟨⟩⟩) h
  · rw [hvalidate, hmembers] at hvalid
    rw [hmembers] at hsound ⊢
    cases hsize : lastGiven Setting.pageSize? calls with
    | none =>
      rw [if_pos ⟨Option.isSome_iff_exists.mpr ⟨page, hpage⟩, hsize⟩] at hvalid
      cases hvalid
    | some size =>
      exact ⟨size, rfl, fun source limits => query_of_page hsound source limits hpage hsize⟩
  · rw [hmembers] at hsound ⊢
    exact query_of_top hsound source limits hpage htop
  · rw [hmembers] at hsound ⊢
    exact hsound.query_of_neither hpage htop source limits

end Specification

end Criteria
