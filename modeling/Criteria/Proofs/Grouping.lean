import Criteria.Evaluator.Grouping
import Criteria.Proofs.Groups
import Criteria.Proofs.Selecting

/-!
# Reductions by key

A reduction by key goes through the source once, with all its groups at hand; the plain
reduction of the entities of one key has to do with that key alone. Both begin with the
first entity of the key that passes and go on alike, so that what a group holds in the end
is the plain reduction of the entities of its key (`Evaluator.Restricts`). Where the plain
reduction begins without an entity, it is the first step of it that begins the group: a sum
begins with zero and the first number, added in this order.

Nothing is asked of numbers, so that the order in which they are added matters, and is the
same. Of keys it is asked that their equality is symmetric and transitive, and that every
key selected is equal to itself.
-/

namespace Criteria

namespace Evaluator

variable {T K N V W : Type}

/-! ## Reductions of what is chosen -/

section

variable {p : Predicate T} {source : List T} (decides : p.Decides source) (negate : Bool)
  (limits : Limits)

include decides

/-- Without an order, all entities that pass are those chosen. -/
theorem outcome_all :
    ((Evaluator.mk p negate limits).all source).outcome = .ok (chosen p negate source) :=
  Run.outcome_bind_ok (outcome_keep_passed decides negate limits) _

/-- A fold over the entities that pass, whose steps have results. -/
theorem outcome_foldChosen {β : Type} {step : β → T → Run β} {f : β → T → β}
    (hstep : ∀ b, ∀ e ∈ source, (step b e).outcome = .ok (f b e)) (start : β) :
    ((Evaluator.mk p negate limits).foldPassed step start source).outcome
      = .ok ((chosen p negate source).foldl f start) := by
  refine (Run.outcome_fold_keep step start fun e he =>
    outcome_evaluate (decides e he) negate limits).trans ?_
  exact Run.outcome_fold (fun _ => True)
    (fun b _ e he => ⟨hstep b e (List.mem_of_mem_filter he), trivial⟩) trivial

variable {value : T → Run N} {x : T → N} (values : ∀ e ∈ source, (value e).outcome = .ok (x e))

include values

/-- A fold over what a selector gives. -/
theorem outcome_foldValues {β : Type} (f : β → N → β) (start : β) :
    ((Evaluator.mk p negate limits).foldSelected (some value) (fun b y => .done (f b y)) start
        source).outcome
      = .ok ((chosen p negate source).foldl (fun b e => f b (x e)) start) :=
  outcome_foldChosen decides negate limits
    (fun _ e he => Run.outcome_bind_ok (values e he) _) start

end

/-! ## Groups of one and of more -/

theorem loneMember_eq_some_iff {group : K × List T} {one : K × T} :
    loneMember group = some one ↔ group = (one.1, [one.2]) := by
  obtain ⟨key, members⟩ := group
  obtain ⟨key', e⟩ := one
  rcases members with _ | ⟨e', _ | ⟨e'', others⟩⟩ <;> simp [loneMember]

/-- An entity that has its group alone. -/
theorem mem_loneMember_iff {groups : Groups K (List T)} {one : K × T} :
    one ∈ groups.filterMap loneMember ↔ (one.1, [one.2]) ∈ groups := by
  rw [List.mem_filterMap]
  constructor
  · rintro ⟨group, hgroup, hone⟩
    rwa [← loneMember_eq_some_iff.mp hone]
  · exact fun hgroup => ⟨_, hgroup, loneMember_eq_some_iff.mpr rfl⟩

/-- The groups of one entity are those that it has alone. -/
theorem map_loneMember (groups : Groups K (List T)) :
    (groups.filterMap loneMember).map (fun group => (group.1, [group.2]))
      = groups.filter fun group => decide (group.2.length = 1) := by
  induction groups with
  | nil => rfl
  | cons group rest ih =>
    obtain ⟨key, members⟩ := group
    rcases members with _ | ⟨e, _ | ⟨e', others⟩⟩
    · exact ih
    · exact congrArg ((key, [e]) :: ·) ih
    · exact ih

/-- The keys of groups of one are keys of groups. -/
theorem lone_keys_sublist (groups : Groups K (List T)) :
    ((groups.filterMap loneMember).map Prod.fst).Sublist (groups.map Prod.fst) := by
  have hfst : (groups.filterMap loneMember).map Prod.fst
      = (groups.filter fun group => decide (group.2.length = 1)).map Prod.fst := by
    rw [← map_loneMember, List.map_map]
    rfl
  rw [hfst]
  exact List.filter_sublist.map Prod.fst

/-- Where no group is empty, there are those of one entity and those of more. -/
theorem filter_length_perm {groups : Groups K (List T)}
    (h : ∀ group ∈ groups, group.2 ≠ []) :
    ((groups.filter fun group => decide (1 < group.2.length))
      ++ groups.filter fun group => decide (group.2.length = 1)).Perm groups := by
  have hone : groups.filter (fun group => decide (group.2.length = 1))
      = groups.filter fun group => !decide (1 < group.2.length) := by
    refine List.filter_congr fun group hgroup => ?_
    have hpos := List.length_pos_iff.mpr (h group hgroup)
    rw [Bool.eq_iff_iff, Bool.not_eq_true', decide_eq_true_iff, decide_eq_false_iff_not]
    omega
  rw [hone]
  exact List.filter_append_perm _ groups

/-! ## By key -/

variable [BEq K]

/-- **A selector that gives every entity of a list its key**, which is equal to itself. -/
structure SelectsKeys (key : T → Run K) (k : T → K) (source : List T) : Prop where
  /-- It gives the key. -/
  outcome : ∀ e ∈ source, (key e).outcome = .ok (k e)
  /-- No key is like not-a-number. -/
  reflexive : ∀ e ∈ source, (k e == k e) = true

/-- **A reduction restricted to a key**: groups by the keys of what passes, that hold for
each key what the reduction of the entities of that key gives. -/
structure Restricts (groups : Groups K V) (k : T → K) (source passed : List T)
    (reduce : List T → Run V) : Prop extends groups.HasKeys k passed where
  /-- A group holds the reduction of the entities of its key. -/
  value : ∀ group ∈ groups, ∀ key, (group.1 == key) = true →
    (reduce (withKey k key source)).outcome = .ok group.2

/-- Choosing among the entities of a key. -/
theorem chosen_withKey (p : Predicate T) (negate : Bool) (k : T → K) (key : K) (source : List T) :
    chosen p negate (withKey k key source) = withKey k key (chosen p negate source) :=
  List.filter_comm _ _ source

section

variable [PartialEquivBEq K] {p : Predicate T} {negate : Bool} {k : T → K} {source : List T}
  (reflexive : ∀ e ∈ source, (k e == k e) = true) {fresh : T → V} {change : V → T → V}

include reflexive

/-- **Collecting restricts a reduction** that goes on alike from the first entity that
passes, and makes its result of what it ends with. -/
theorem restricts_collect_map (result : V → W) {reduce : List T → Run W}
    (hreduce : ∀ part ⊆ source, ∀ e rest, chosen p negate part = e :: rest →
      (reduce part).outcome = .ok (result (rest.foldl change (fresh e)))) :
    Restricts ((Groups.collect k fresh change (chosen p negate source)).map fun group =>
      (group.1, result group.2)) k source (chosen p negate source) reduce := by
  have hpassed : ∀ e ∈ chosen p negate source, (k e == k e) = true := fun e he =>
    reflexive e (List.mem_of_mem_filter he)
  refine ⟨(Groups.hasKeys_collect fresh change hpassed).of_keys (List.map_map ..), ?_⟩
  intro group hgroup key hkey
  obtain ⟨collected, hcollected, rfl⟩ := List.mem_map.mp hgroup
  obtain ⟨e, rest, hfirst, hvalue⟩ :=
    Groups.exists_of_mem_collect k fresh change hcollected hkey
  rw [← chosen_withKey] at hfirst
  rw [hreduce _ withKey_subset e rest hfirst, hvalue]

theorem restricts_collect {reduce : List T → Run V}
    (hreduce : ∀ part ⊆ source, ∀ e rest, chosen p negate part = e :: rest →
      (reduce part).outcome = .ok (rest.foldl change (fresh e))) :
    Restricts (Groups.collect k fresh change (chosen p negate source)) k source
      (chosen p negate source) reduce := by
  have hrestricts := restricts_collect_map reflexive id hreduce
  rwa [show (fun group : K × V => (group.1, id group.2)) = id from rfl, List.map_id] at hrestricts

end

/-! ## The six reductions -/

section

variable {p : Predicate T} {negate : Bool} {limits : Limits} {key : T → Run K} {k : T → K}
  {source : List T} (decides : p.Decides source) (keys : SelectsKeys key k source)

include decides keys

omit keys in
/-- Groups that every entity that passes changes are collected. -/
theorem outcome_collect (fresh : T → V) (change : V → T → V)
    {step : Groups K V → T → Run (Groups K V)}
    (hstep : ∀ groups, ∀ e ∈ source, (step groups e).outcome
      = .ok (Groups.update (k e) (fresh e) (change · e) groups)) :
    ((Evaluator.mk p negate limits).foldPassed step [] source).outcome
      = .ok (Groups.collect k fresh change (chosen p negate source)) :=
  outcome_foldChosen decides negate limits hstep []

/-- The entities of each key, collected. -/
theorem outcome_grouped :
    ((Evaluator.mk p negate limits).grouped source (some key)).outcome
      = .ok (Groups.members k (chosen p negate source)) :=
  outcome_collect decides _ _ fun _ e he => Run.outcome_bind_ok (keys.outcome e he) _

variable [PartialEquivBEq K]

/-- **The entities of each key** are all that pass of it. -/
theorem members_restricts :
    Restricts (Groups.members k (chosen p negate source)) k source (chosen p negate source)
      fun part => (Evaluator.mk p negate limits).all part := by
  have hpassed : ∀ e ∈ chosen p negate source, (k e == k e) = true := fun e he =>
    keys.reflexive e (List.mem_of_mem_filter he)
  refine ⟨Groups.hasKeys_members hpassed, fun group hgroup key hkey => ?_⟩
  rw [outcome_all (decides.mono withKey_subset), chosen_withKey,
    Groups.members_eq hgroup hkey]

/-- **Counts by key** count what passes of each. -/
theorem countByGroup_restricts :
    ∃ groups, ((Evaluator.mk p negate limits).countByGroup source (some key)).outcome
        = .ok groups ∧
      Restricts groups k source (chosen p negate source) fun part =>
        (Evaluator.mk p negate limits).count part := by
  refine ⟨_, outcome_collect decides (fun _ => 1) (fun n _ => n + 1)
    fun _ e he => Run.outcome_bind_ok (keys.outcome e he) _, restricts_collect keys.reflexive ?_⟩
  intro part hpart e rest hfirst
  rw [outcome_count (decides.mono hpart), hfirst, List.foldl_add_const,
    List.length_cons, Nat.one_mul, Nat.add_comm]

variable [Numeric N] {value : T → Run N} {x : T → N}
  (values : ∀ e ∈ source, (value e).outcome = .ok (x e))

include values

/-- **Sums by key** are the sums of what passes of each. -/
theorem sumByGroup_restricts :
    ∃ groups, ((Evaluator.mk p negate limits).sumByGroup source (some key) (some value)).outcome
        = .ok groups ∧
      Restricts groups k source (chosen p negate source) fun part =>
        (Evaluator.mk p negate limits).sum part (some value) := by
  refine ⟨_, outcome_collect decides (fun e => Numeric.add Numeric.zero (x e))
    (fun total e => Numeric.add total (x e)) fun _ e he =>
      (Run.outcome_bind_ok (keys.outcome e he) _).trans (Run.outcome_bind_ok (values e he) _),
    restricts_collect keys.reflexive ?_⟩
  intro part hpart e rest hfirst
  have hplain := outcome_foldValues (decides.mono hpart) negate limits
    (fun e he => values e (hpart he)) Numeric.add Numeric.zero
  rw [hfirst, List.foldl_cons] at hplain
  exact hplain

/-- **Extremes by key** are the extremes of what passes of each. -/
theorem extremeByGroup_restricts (extreme : Extreme) (reduction : Reduction) :
    ∃ groups, ((Evaluator.mk p negate limits).extremeByGroup extreme source (some key)
        (some value)).outcome = .ok groups ∧
      Restricts groups k source (chosen p negate source) fun part =>
        (Evaluator.mk p negate limits).extreme? extreme part (some value) >>=
          orEmpty reduction := by
  refine ⟨_, outcome_collect decides x
    (fun best e => if extreme.improves best (x e) then x e else best) fun _ e he =>
      (Run.outcome_bind_ok (values e he) _).trans (Run.outcome_bind_ok (keys.outcome e he) _),
    restricts_collect keys.reflexive ?_⟩
  intro part hpart e rest hfirst
  have hplain := outcome_foldValues (decides.mono hpart) negate limits
    (fun e he => values e (hpart he)) extreme.choose none
  have hbest : ∀ (b : N) (e : T), extreme.choose (some b) (x e)
      = some (if extreme.improves b (x e) then x e else b) := fun b e =>
    (apply_ite some _ _ _).symm
  rw [hfirst, List.foldl_cons] at hplain
  refine (Run.outcome_bind_ok hplain _).trans ?_
  show (orEmpty reduction (rest.foldl _ (some (x e)))).outcome = _
  rw [List.foldl_hom some hbest]
  rfl

omit decides keys values in
/-- Every number that is added is counted. -/
theorem count_foldl_add (total : Total) (xs : List T) :
    (xs.foldl (fun total e => total.add (x e)) total).count = total.count + xs.length := by
  induction xs generalizing total with
  | nil => rfl
  | cons e rest ih =>
    rw [List.foldl_cons, ih, List.length_cons]
    show total.count + 1 + rest.length = _
    omega

/-- **Averages by key** are the averages of what passes of each. -/
theorem averageByGroup_restricts :
    ∃ groups, ((Evaluator.mk p negate limits).averageByGroup source (some key)
        (some value)).outcome = .ok groups ∧
      Restricts groups k source (chosen p negate source) fun part =>
        (Evaluator.mk p negate limits).average part (some value) := by
  refine ⟨_, Run.outcome_bind_ok (outcome_collect decides (fun e => Total.add {} (x e))
    (fun total e => total.add (x e)) fun _ e he =>
      (Run.outcome_bind_ok (keys.outcome e he) _).trans (Run.outcome_bind_ok (values e he) _)) _,
    restricts_collect_map keys.reflexive Total.mean ?_⟩
  intro part hpart e rest hfirst
  have hplain := outcome_foldValues (decides.mono hpart) negate limits
    (fun e he => values e (hpart he)) Total.add {}
  rw [hfirst, List.foldl_cons] at hplain
  have hsome : (rest.foldl (fun total e => total.add (x e)) (Total.add {} (x e))).count ≠ 0 := by
    rw [count_foldl_add]
    show 0 + 1 + rest.length ≠ 0
    omega
  refine (Run.outcome_bind_ok (Run.outcome_bind_ok hplain _) _).trans ?_
  rw [if_neg hsome]
  rfl

end

/-! ## All reductions by key -/

/-- **Grouping and reducing by key.** The entities that pass are grouped, and every
reduction by key is the plain one restricted to the entities of each key. -/
structure ReducesByKey [Numeric N] (v : Evaluator T) (key : T → Run K) (value : T → Run N)
    (k : T → K) (source passed : List T) (groups : Groups K (List T)) (lone : Groups K T) :
    Prop where
  /-- These entities pass. -/
  all : (v.all source).outcome = .ok passed
  /-- These are the groups, each with all the entities that pass of its key. -/
  grouped : (v.grouped source (some key)).outcome = .ok groups
  members : Restricts groups k source passed fun part => v.all part
  /-- Counts, -/
  countByGroup : ∃ counts, (v.countByGroup source (some key)).outcome = .ok counts ∧
    Restricts counts k source passed fun part => v.count part
  /-- sums, -/
  sumByGroup : ∃ sums, (v.sumByGroup source (some key) (some value)).outcome = .ok sums ∧
    Restricts sums k source passed fun part => v.sum part (some value)
  /-- the least, -/
  minByGroup : ∃ least, (v.minByGroup source (some key) (some value)).outcome = .ok least ∧
    Restricts least k source passed fun part => v.min part (some value)
  /-- the greatest, -/
  maxByGroup : ∃ greatest, (v.maxByGroup source (some key) (some value)).outcome = .ok greatest ∧
    Restricts greatest k source passed fun part => v.max part (some value)
  /-- and averages are those of each key. -/
  averageByGroup : ∃ means, (v.averageByGroup source (some key) (some value)).outcome = .ok means ∧
    Restricts means k source passed fun part => v.average part (some value)
  /-- The groups of more than one entity are kept apart, -/
  duplicatesByGroup : (v.duplicatesByGroup source (some key)).outcome
    = .ok (groups.filter fun group => decide (1 < group.2.length))
  /-- and so are the entities of those of one, -/
  uniquesByGroup : (v.uniquesByGroup source (some key)).outcome = .ok lone
  lone_eq : lone.map (fun group => (group.1, [group.2]))
    = groups.filter fun group => decide (group.2.length = 1)
  /-- and together these are all groups. -/
  split : ((groups.filter fun group => decide (1 < group.2.length))
    ++ lone.map fun group => (group.1, [group.2])).Perm groups

/-- **Every reduction by key is the plain reduction restricted to a key**, for a predicate
that decides the source and selectors that do not fail on it. -/
theorem reduces_by_key [PartialEquivBEq K] [Numeric N] (v : Evaluator T) (source : List T)
    (key : T → Run K) (value : T → Run N) {k : T → K} {x : T → N}
    (decides : v.predicate.Decides source) (keys : SelectsKeys key k source)
    (values : ∀ e ∈ source, (value e).outcome = .ok (x e)) :
    ∃ passed groups lone, v.ReducesByKey key value k source passed groups lone := by
  obtain ⟨p, negate, limits⟩ := v
  have hgrouped : ((Evaluator.mk p negate limits).grouped source (some key)).outcome
      = .ok (Groups.members k (chosen p negate source)) := outcome_grouped decides keys
  have hmembers : ∀ group ∈ Groups.members k (chosen p negate source), group.2 ≠ [] :=
    fun group hgroup => Groups.members_ne_nil (fun e he =>
      keys.reflexive e (List.mem_of_mem_filter he)) hgroup
  refine ⟨chosen p negate source, Groups.members k (chosen p negate source),
    (Groups.members k (chosen p negate source)).filterMap loneMember, ?_⟩
  constructor
  case all => exact outcome_all decides negate limits
  case grouped => exact hgrouped
  case members => exact members_restricts decides keys
  case countByGroup => exact countByGroup_restricts decides keys
  case sumByGroup => exact sumByGroup_restricts decides keys values
  case minByGroup => exact extremeByGroup_restricts decides keys values .least .min
  case maxByGroup => exact extremeByGroup_restricts decides keys values .greatest .max
  case averageByGroup => exact averageByGroup_restricts decides keys values
  case duplicatesByGroup => exact Run.outcome_bind_ok hgrouped _
  case uniquesByGroup => exact Run.outcome_bind_ok hgrouped _
  case lone_eq => exact map_loneMember _
  case split =>
    rw [map_loneMember]
    exact filter_length_perm hmembers

/-! ## A sample -/

section

open Predicate (flags flagRows flags_decides)

/-- A key of two flags: one, or zero with the sign of the second flag. -/
def signedZero : Bool × Bool → Double
  | (true, _) => .ofInt .double 1
  | (false, negative) => ⟨.zero negative, trivial⟩

/-- The key as a selector. -/
def zeroKey (e : Bool × Bool) : Run Double := .done (signedZero e)

/-- Numbers of eight bits, whose sum wraps. -/
def largeByte (e : Bool × Bool) : FixedInt ⟨true, .w8⟩ := .wrap _ (if e.2 then 100 else 60)

theorem signedZero_ne_nan (e : Bool × Bool) : (signedZero e).val ≠ .nan := by
  obtain ⟨left, right⟩ := e
  cases left <;> cases right <;> decide

theorem zeroKey_selects :
    @SelectsKeys _ _ FieldType.double.keyEquality zeroKey signedZero flagRows :=
  let := FieldType.double.keyEquality
  ⟨fun _ _ => rfl, fun e _ => FieldType.same_self (t := .double) rfl (signedZero_ne_nan e)⟩

/-- The entities that fail the condition all have the key zero, of either sign. -/
theorem reduces_by_key_flags :
    flags.Decides flagRows ∧
      @SelectsKeys _ _ FieldType.double.keyEquality zeroKey signedZero flagRows ∧
      (∀ e ∈ flagRows, (Run.done (largeByte e)).outcome = .ok (largeByte e)) ∧
      ∃ passed groups lone, @ReducesByKey _ _ _ FieldType.double.keyEquality _
        (Evaluator.mk flags true {}) zeroKey (fun e => .done (largeByte e)) signedZero flagRows
        passed groups lone :=
  let := FieldType.double.keyEquality
  have := FieldType.partialEquiv_keyEquality (t := .double) rfl
  ⟨flags_decides, zeroKey_selects, fun _ _ => rfl,
    reduces_by_key (Evaluator.mk flags true {}) flagRows zeroKey (fun e => .done (largeByte e))
      flags_decides zeroKey_selects fun _ _ => rfl⟩

end

end Evaluator

end Criteria
