import Criteria.Run

/-!
# The laws of runs

One run after another is associative, and the run that does nothing is neutral
(`LawfulMonad Run`), so a run of several steps may be cut anywhere.

Two runs are often compared step by step. What such a comparison needs of the
relation it is about is the same for all of them: the relation holds of a run and
itself, and of two runs put together from related parts (`Run.Congruence`). Two
relations are used: to be the same run, and to have the result of the first if it
has one.

When the functions that a list is run through succeed on its elements, the outcome
is that of a pure function of the list. The lemmas on `keep`, `exist`, `first?`,
`fold` and `each` say of which.
-/

namespace Criteria

/-- A result of two steps that may fail is one of the second, after a result of the first. -/
theorem exists_of_bind_eq_ok {α β : Type} {x : Except Fault α} {f : α → Except Fault β} {b : β}
    (h : x >>= f = .ok b) : ∃ a, x = .ok a ∧ f a = .ok b := by
  cases x with
  | error fault => cases h
  | ok a => exact ⟨a, rfl, h⟩

namespace Run

variable {α β γ : Type}

/-! ## The monad -/

@[simp] theorem done_bind (a : α) (f : α → Run β) : Run.done a >>= f = f a := rfl

@[simp] theorem bind_done (x : Run α) : x >>= Run.done = x := by
  obtain ⟨events, outcome⟩ := x
  cases outcome with
  | error fault => rfl
  | ok a =>
    show (⟨events ++ [], .ok a⟩ : Run α) = ⟨events, .ok a⟩
    rw [List.append_nil]

@[simp] theorem fail_bind (fault : Fault) (f : α → Run β) :
    Run.fail fault >>= f = Run.fail fault := rfl

@[simp] theorem reject_bind (cause : ArgumentFault) (f : α → Run β) :
    Run.reject cause >>= f = Run.reject cause := rfl

/-- **Cutting a run anywhere gives the same run.** -/
theorem bind_bind (x : Run α) (f : α → Run β) (g : β → Run γ) :
    x >>= f >>= g = x >>= fun a => f a >>= g := by
  obtain ⟨events, outcome⟩ := x
  cases outcome with
  | error fault => rfl
  | ok a =>
    show andThen ⟨events ++ (f a).events, (f a).outcome⟩ g
      = ⟨events ++ (andThen (f a) g).events, (andThen (f a) g).outcome⟩
    unfold andThen
    cases (f a).outcome with
    | error fault => rfl
    | ok b => simp only [List.append_assoc]

instance : LawfulMonad Run :=
  LawfulMonad.mk' Run (fun x => bind_done x) (fun a f => done_bind a f)
    (fun x f g => bind_bind x f g)

/-! ## Outcomes -/

@[simp] theorem outcome_done (a : α) : (Run.done a).outcome = .ok a := rfl

@[simp] theorem outcome_fail (fault : Fault) :
    (Run.fail fault : Run α).outcome = .error fault := rfl

@[simp] theorem outcome_event (e : Event) : (Run.event e).outcome = .ok () := rfl

@[simp] theorem outcome_log (severity : Severity) (text : Text) :
    (Run.log severity text).outcome = .ok () := rfl

@[simp] theorem outcome_ofExcept (x : Except Fault α) : (Run.ofExcept x).outcome = x := rfl

/-- After a run with a result, the outcome is that of what follows. -/
theorem outcome_bind_ok {x : Run α} {a : α} (h : x.outcome = .ok a) (f : α → Run β) :
    (x >>= f).outcome = (f a).outcome := by
  rw [outcome_bind, h]
  rfl

/-- After a run that fails, nothing follows. -/
theorem outcome_bind_error {x : Run α} {fault : Fault} (h : x.outcome = .error fault)
    (f : α → Run β) : (x >>= f).outcome = .error fault := by
  rw [outcome_bind, h]
  rfl

/-- A run with a result has parts with results. -/
theorem bind_eq_ok_iff {x : Run α} {f : α → Run β} {b : β} :
    (x >>= f).outcome = .ok b ↔ ∃ a, x.outcome = .ok a ∧ (f a).outcome = .ok b := by
  cases hx : x.outcome with
  | error fault =>
    rw [outcome_bind_error hx]
    simp
  | ok a =>
    rw [outcome_bind_ok hx]
    simp

/-- A result that something is made of. -/
theorem outcome_map (x : Run α) (h : α → β) :
    (x >>= fun a => done (h a)).outcome = x.outcome.map h := by
  rw [outcome_bind]
  cases x.outcome <;> rfl

/-- **Going on from one reading**: two runs whose results are made of one run's result
have the same outcome if they go on alike from every such result. -/
theorem outcome_bind_of_common {δ : Type} {r : Run α} {x : Run β} {y : Run γ} {a : α → β}
    {b : α → γ} {f : β → Run δ} {g : γ → Run δ}
    (hx : x.outcome = (r >>= fun s => done (a s)).outcome)
    (hy : y.outcome = (r >>= fun s => done (b s)).outcome)
    (hfg : ∀ s, r.outcome = .ok s → (f (a s)).outcome = (g (b s)).outcome) :
    (x >>= f).outcome = (y >>= g).outcome := by
  rw [outcome_map] at hx hy
  cases hr : r.outcome with
  | error fault =>
    rw [hr] at hx hy
    rw [outcome_bind_error hx, outcome_bind_error hy]
  | ok s =>
    rw [hr] at hx hy
    rw [outcome_bind_ok hx, outcome_bind_ok hy, hfg s hr]

/-- Going on alike from every result is going on alike. -/
theorem bind_congr_of_ok {x : Run α} {f g : α → Run β}
    (h : ∀ a, x.outcome = .ok a → f a = g a) : x >>= f = x >>= g := by
  show andThen x f = andThen x g
  unfold andThen
  cases hx : x.outcome with
  | error fault => rfl
  | ok a => simp only [h a hx]

/-! ## What a run ends in -/

/-- **What a run ends in**: a result with a property, or a fault that is allowed. If no
fault is allowed there is a result, and if every fault is, nothing is said of whether
there is one. -/
def Ends (x : Run α) (allowed : Fault → Prop) (P : α → Prop) : Prop :=
  match x.outcome with
  | .ok a => P a
  | .error fault => allowed fault

section

variable {allowed : Fault → Prop} {P : α → Prop} {Q : β → Prop} {x : Run α}

theorem Ends.of_ok (h : x.Ends allowed P) {a : α} (ha : x.outcome = .ok a) : P a := by
  unfold Ends at h
  rwa [ha] at h

theorem Ends.of_error (h : x.Ends allowed P) {fault : Fault} (hx : x.outcome = .error fault) :
    allowed fault := by
  unfold Ends at h
  rwa [hx] at h

theorem Ends.exists_ok (h : x.Ends (fun _ => False) P) : ∃ a, x.outcome = .ok a ∧ P a := by
  cases ha : x.outcome with
  | ok a => exact ⟨a, rfl, h.of_ok ha⟩
  | error fault =>
    unfold Ends at h
    rw [ha] at h
    exact h.elim

/-- A run with a result that has the property. -/
theorem ends_of_ok {a : α} (ha : x.outcome = .ok a) (hP : P a) : x.Ends allowed P := by
  unfold Ends
  rwa [ha]

/-- Nothing is asked of a run that may end in any way. -/
theorem ends_anyhow (x : Run α) : x.Ends (fun _ => True) fun _ => True := by
  unfold Ends
  cases x.outcome <;> trivial

theorem Ends.mono {P' : α → Prop} (h : x.Ends allowed P) (hP : ∀ a, P a → P' a) :
    x.Ends allowed P' := by
  unfold Ends at *
  cases hx : x.outcome with
  | ok a =>
    rw [hx] at h
    exact hP a h
  | error fault =>
    rw [hx] at h
    exact h

/-- More faults may be allowed. -/
theorem Ends.allow {allowed' : Fault → Prop} (h : x.Ends allowed P)
    (hallowed : ∀ fault, allowed fault → allowed' fault) : x.Ends allowed' P := by
  cases hx : x.outcome with
  | ok a => exact ends_of_ok hx (h.of_ok hx)
  | error fault =>
    unfold Ends
    rw [hx]
    exact hallowed fault (h.of_error hx)

/-- **One run after another** ends as what follows does, from every result that the first
one can have. -/
theorem Ends.bind {f : α → Run β} (h : x.Ends allowed P)
    (hf : ∀ a, P a → (f a).Ends allowed Q) : (x >>= f).Ends allowed Q := by
  cases hx : x.outcome with
  | ok a =>
    have ha := hf a (h.of_ok hx)
    unfold Ends at *
    rwa [outcome_bind_ok hx]
  | error fault =>
    unfold Ends at *
    rw [hx] at h
    rw [outcome_bind_error hx]
    exact h

end

/-! ## Comparing runs -/

/-- **A relation between runs that putting runs together respects.** -/
structure Congruence (R : {α : Type} → Run α → Run α → Prop) : Prop where
  /-- A run is related to itself. -/
  refl {α : Type} (x : Run α) : R x x
  /-- Related runs followed by related runs are related. -/
  bind {α β : Type} {x y : Run α} {f g : α → Run β} :
    R x y → (∀ a, R (f a) (g a)) → R (x >>= f) (y >>= g)

/-- Being the same run. -/
theorem congruence_eq : Congruence (fun x y => x = y) where
  refl _ := rfl
  bind h hf := by rw [h, funext hf]

/-- Having the same result or the same fault. -/
theorem congruence_outcome : Congruence fun x y => x.outcome = y.outcome where
  refl _ := rfl
  bind h hf := by rw [outcome_bind, outcome_bind, h, funext hf]

/-- Having the result of the first run, if it has one. -/
theorem congruence_ok : Congruence fun x y => ∀ a, x.outcome = .ok a → y.outcome = .ok a where
  refl _ _ h := h
  bind {_ _ x y f g} h hf b hb := by
    obtain ⟨a, ha, hfa⟩ := bind_eq_ok_iff.mp hb
    exact bind_eq_ok_iff.mpr ⟨a, h a ha, hf a b hfa⟩

/-! ## Lists -/

/-- Keeping what passes a test that has a verdict on every element. -/
theorem outcome_keep {test : α → Run Bool} {p : α → Bool} {xs : List α}
    (h : ∀ a ∈ xs, (test a).outcome = .ok (p a)) :
    (keep test xs).outcome = .ok (xs.filter p) := by
  induction xs with
  | nil => rfl
  | cons a rest ih =>
    have htail := ih fun b hb => h b (List.mem_cons_of_mem a hb)
    unfold keep
    rw [outcome_bind_ok (h a List.mem_cons_self), outcome_bind_ok htail, List.filter_cons]
    rfl

/-- What is kept is a part of the list, whatever the test does. -/
theorem ends_keep (test : α → Run Bool) (xs : List α) :
    (keep test xs).Ends (fun _ => True) (·.Sublist xs) := by
  induction xs with
  | nil => exact List.Sublist.slnil
  | cons a rest ih =>
    unfold keep
    refine (ends_anyhow (test a)).bind fun passed _ => ih.bind fun kept hkept => ?_
    cases passed with
    | true => exact hkept.cons_cons a
    | false => exact hkept.cons a

/-- Asking for an element that passes a test that has a verdict on every element. -/
theorem outcome_exist {test : α → Run Bool} {p : α → Bool} {xs : List α}
    (h : ∀ a ∈ xs, (test a).outcome = .ok (p a)) :
    (exist test xs).outcome = .ok (xs.any p) := by
  induction xs with
  | nil => rfl
  | cons a rest ih =>
    have htail := ih fun b hb => h b (List.mem_cons_of_mem a hb)
    unfold exist
    rw [outcome_bind_ok (h a List.mem_cons_self), List.any_cons]
    cases p a with
    | true => rfl
    | false => exact htail

/-- The first element that passes a test that has a verdict on every element. -/
theorem outcome_first? {test : α → Run Bool} {p : α → Bool} {xs : List α}
    (h : ∀ a ∈ xs, (test a).outcome = .ok (p a)) :
    (first? test xs).outcome = .ok (xs.find? p) := by
  induction xs with
  | nil => rfl
  | cons a rest ih =>
    have htail := ih fun b hb => h b (List.mem_cons_of_mem a hb)
    unfold first?
    rw [outcome_bind_ok (h a List.mem_cons_self), List.find?_cons]
    cases p a with
    | true => rfl
    | false => exact htail

/-- What a function gives for each element, if it gives something for every one. -/
theorem outcome_each {f : α → Run β} {g : α → β} {xs : List α}
    (h : ∀ a ∈ xs, (f a).outcome = .ok (g a)) : (each f xs).outcome = .ok (xs.map g) := by
  induction xs with
  | nil => rfl
  | cons a rest ih =>
    have htail := ih fun b hb => h b (List.mem_cons_of_mem a hb)
    unfold each
    rw [outcome_bind_ok (h a List.mem_cons_self), outcome_bind_ok htail, List.map_cons]
    rfl

/-- A function gives as many results as there are elements. -/
theorem length_of_each {f : α → Run β} {xs : List α} {bs : List β}
    (h : (each f xs).outcome = .ok bs) : bs.length = xs.length := by
  induction xs generalizing bs with
  | nil => cases h; rfl
  | cons a rest ih =>
    obtain ⟨b, _, htail⟩ := bind_eq_ok_iff.mp h
    obtain ⟨tail, hrest, hbs⟩ := bind_eq_ok_iff.mp htail
    cases hbs
    exact congrArg (· + 1) (ih hrest)

/-- What is made of what a function gives for each element. -/
theorem each_map (f : α → Run β) (h : β → γ) (xs : List α) :
    each (fun a => f a >>= fun b => done (h b)) xs
      = each f xs >>= fun bs => done (bs.map h) := by
  induction xs with
  | nil => rfl
  | cons a rest ih =>
    unfold each
    rw [ih, bind_bind, bind_bind]
    refine congrArg (f a >>= ·) (funext fun b => ?_)
    rw [done_bind, bind_bind, bind_bind]
    rfl

/-- Folding what a function gives for each element is folding the list of it. -/
theorem fold_each (f : α → Run β) (g : γ → β → γ) (start : γ) (xs : List α) :
    fold (fun c a => f a >>= fun b => done (g c b)) start xs
      = each f xs >>= fun bs => done (bs.foldl g start) := by
  induction xs generalizing start with
  | nil => rfl
  | cons a rest ih =>
    unfold fold each
    rw [bind_bind, bind_bind]
    refine congrArg (f a >>= ·) (funext fun b => ?_)
    rw [done_bind, bind_bind]
    exact ih (g start b)

/-- A fold over the elements that pass a test is the fold over those that were kept. -/
theorem outcome_fold_keep {test : α → Run Bool} {p : α → Bool} (step : β → α → Run β)
    (start : β) {xs : List α} (h : ∀ a ∈ xs, (test a).outcome = .ok (p a)) :
    (fold (fun b a => test a >>= fun passed => if passed then step b a else done b)
      start xs).outcome = (fold step start (xs.filter p)).outcome := by
  induction xs generalizing start with
  | nil => rfl
  | cons a rest ih =>
    have htail := fun b => ih b fun c hc => h c (List.mem_cons_of_mem a hc)
    show (test a >>= _ >>= fun b => fold _ b rest).outcome = _
    rw [bind_bind, outcome_bind_ok (h a List.mem_cons_self), List.filter_cons]
    cases p a with
    | false => exact htail start
    | true =>
      show (step start a >>= _).outcome = (step start a >>= _).outcome
      rw [outcome_bind, outcome_bind, funext htail]

/-- **A fold whose steps have results** is the fold of the results. What a step needs of
the state it is taken in is an invariant. -/
theorem outcome_fold {step : β → α → Run β} {f : β → α → β} (I : β → Prop) {xs : List α}
    (h : ∀ b, I b → ∀ a ∈ xs, (step b a).outcome = .ok (f b a) ∧ I (f b a)) {start : β}
    (hstart : I start) : (fold step start xs).outcome = .ok (xs.foldl f start) := by
  induction xs generalizing start with
  | nil => rfl
  | cons a rest ih =>
    obtain ⟨hstep, hnext⟩ := h start hstart a List.mem_cons_self
    unfold fold
    rw [outcome_bind_ok hstep]
    exact ih (fun b hb c hc => h b hb c (List.mem_cons_of_mem a hc)) hnext

end Run

end Criteria
