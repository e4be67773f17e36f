import Criteria.Proofs.Grouping
import Criteria.Proofs.Pages

/-!
# One list, selected by key

Three operations select entities by their keys in three ways. The distinct entities are
found by going through the ordered list and keeping what has a new key; the top of each
key is cut from groups that are collected first and put in order one by one; the repeated
entities are those whose key is counted more than once. All of them are parts of one list,
the entities that pass in their order (`Evaluator.selects_by_key`).

The distinct ones are its leaders: the elements with no element of their key before them
(`leaders`). Putting a group in order gives the elements of its key as the whole list has
them, since the order is stable, and so the first of every group are the leaders again.
-/

namespace Criteria

open StableSort (ahead)

variable {T K V : Type} [BEq K]

/-! ## Leaders -/

/-- **The leaders of a list**: the elements before which none has their key. -/
def leaders (k : T → K) (xs : List T) : List T :=
  (xs.zipIdx.filter fun entry => !(xs.take entry.2).any fun a => k a == k entry.1).map Prod.fst

/-- The leaders among the elements that come after others. -/
def leadersAfter (k : T → K) (before xs : List T) : List T :=
  ((xs.zipIdx before.length).filter fun entry =>
    !((before ++ xs).take entry.2).any fun a => k a == k entry.1).map Prod.fst

/-- The next element leads if none before it has its key. -/
theorem leadersAfter_cons (k : T → K) (before : List T) (e : T) (rest : List T) :
    leadersAfter k before (e :: rest)
      = if before.any fun a => k a == k e then leadersAfter k (before ++ [e]) rest
        else e :: leadersAfter k (before ++ [e]) rest := by
  unfold leadersAfter
  rw [List.zipIdx_cons, List.filter_cons, List.take_left, List.length_append,
    List.length_singleton, List.append_assoc]
  cases before.any fun a => k a == k e <;> rfl

/-- A list and one more element, which leads if its key is new. -/
theorem leaders_concat (k : T → K) (xs : List T) (e : T) :
    leaders k (xs ++ [e])
      = leaders k xs ++ if xs.any fun a => k a == k e then [] else [e] := by
  have hbefore : xs.zipIdx.filter (fun entry =>
        !((xs ++ [e]).take entry.2).any fun a => k a == k entry.1)
      = xs.zipIdx.filter fun entry => !(xs.take entry.2).any fun a => k a == k entry.1 := by
    refine List.filter_congr fun entry hentry => ?_
    have hlt : entry.2 < xs.length := by
      have := (List.mem_zipIdx hentry).2.1
      omega
    rw [List.take_append_of_le_length hlt.le]
  unfold leaders
  rw [List.zipIdx_append, List.filter_append, hbefore, List.map_append]
  refine congrArg (_ ++ ·) ?_
  rw [List.zipIdx_singleton, List.filter_cons, Nat.zero_add, List.take_left]
  cases xs.any fun a => k a == k e <;> rfl

/-- Keys that are the same in two ways lead in two ways alike. -/
theorem leaders_congr {L : Type} [BEq L] {k : T → K} {l : T → L} {xs : List T}
    (h : ∀ a ∈ xs, ∀ b ∈ xs, (k a == k b) = (l a == l b)) : leaders k xs = leaders l xs := by
  refine congrArg (List.map Prod.fst) (List.filter_congr fun entry hentry => ?_)
  refine congrArg (! ·) ?_
  rw [Bool.eq_iff_iff, List.any_eq_true, List.any_eq_true]
  refine exists_congr fun a => and_congr_right fun ha => ?_
  rw [h a (List.mem_of_mem_take ha) entry.1 (List.fst_mem_of_mem_zipIdx hentry)]

/-- The leaders stand in the list in their order. -/
theorem leaders_sublist (k : T → K) (xs : List T) : (leaders k xs).Sublist xs := by
  have hsub := (List.filter_sublist (p := fun entry : T × ℕ =>
    !(xs.take entry.2).any fun a => k a == k entry.1) (l := xs.zipIdx)).map Prod.fst
  rwa [List.zipIdx_map_fst] at hsub

/-- **No two leaders have one key.** -/
theorem leaders_distinct (k : T → K) (xs : List T) :
    (leaders k xs).Pairwise fun a b => (k a == k b) = false := by
  induction xs using List.reverseRecOn with
  | nil => exact List.Pairwise.nil
  | append_singleton xs e ih =>
    rw [leaders_concat]
    split
    · rwa [List.append_nil]
    · rename_i hnew
      rw [Bool.not_eq_true, List.any_eq_false] at hnew
      refine List.pairwise_append.mpr ⟨ih, List.pairwise_singleton _ _, fun a ha b hb => ?_⟩
      rw [List.mem_singleton.mp hb]
      exact Bool.eq_false_iff.mpr (hnew a ((leaders_sublist k xs).subset ha))

section

variable [PartialEquivBEq K]

/-- **The leader of a key** is the first element of it. -/
theorem withKey_leaders (k : T → K) (key : K) (xs : List T) :
    withKey k key (leaders k xs) = (withKey k key xs).take 1 := by
  induction xs using List.reverseRecOn with
  | nil => rfl
  | append_singleton xs e ih =>
    rw [leaders_concat, withKey_append, withKey_append, ih]
    by_cases hkey : (k e == key) = true
    · have hsame : ∀ a, (k a == k e) = (k a == key) := fun a => BEq.congr_right hkey
      have hself : withKey k key [e] = [e] := by rw [withKey_singleton, if_pos hkey]
      simp only [hsame]
      cases hfirst : withKey k key xs with
      | nil =>
        have hnew : (xs.any fun a => k a == key) = false := by
          rw [List.any_eq_false]
          exact List.filter_eq_nil_iff.mp hfirst
        rw [hnew, if_neg Bool.false_ne_true, hself]
        rfl
      | cons first rest =>
        have hold : (xs.any fun a => k a == key) = true := by
          obtain ⟨hmem, hkeyOf⟩ := List.mem_filter.mp (hfirst ▸ List.mem_cons_self)
          exact List.any_eq_true.mpr ⟨first, hmem, hkeyOf⟩
        rw [hold, if_pos rfl]
        rfl
    · have hnone : withKey k key [e] = [] := by rw [withKey_singleton, if_neg hkey]
      rw [hnone, List.append_nil]
      split
      · exact List.append_nil _
      · rw [hnone, List.append_nil]

/-- **Every key has a leader.** -/
theorem exists_leader {k : T → K} {xs : List T} {e : T} (hmem : e ∈ xs)
    (hself : (k e == k e) = true) : ∃ d ∈ leaders k xs, (k d == k e) = true := by
  obtain ⟨first, rest, hfirst⟩ := List.exists_cons_of_ne_nil
    (List.ne_nil_of_mem (mem_withKey_self hmem hself))
  have hleader : first ∈ withKey k (k e) (leaders k xs) := by
    rw [withKey_leaders, hfirst]
    exact List.mem_cons_self
  exact ⟨first, List.mem_filter.mp hleader⟩

/-! ## One key after the other -/

/-- **A list, one key after the other**, is the list in another order. -/
theorem flatMap_withKey_perm {k : T → K} {keys : List K} {xs : List T}
    (distinct : keys.Pairwise fun a b => (a == b) = false)
    (covered : ∀ e ∈ xs, ∃ key ∈ keys, (key == k e) = true) :
    (keys.flatMap fun key => withKey k key xs).Perm xs := by
  induction keys generalizing xs with
  | nil =>
    have hnil : xs = [] := List.eq_nil_iff_forall_not_mem.mpr fun e he => by
      obtain ⟨key, hkey, -⟩ := covered e he
      cases hkey
    rw [hnil]
    exact List.Perm.nil
  | cons key keys ih =>
    obtain ⟨hfirst, hrest⟩ := List.pairwise_cons.mp distinct
    let others := xs.filter fun e => !(k e == key)
    have hothers : ∀ other ∈ keys, withKey k other xs = withKey k other others := by
      intro other hother
      unfold withKey
      rw [List.filter_filter]
      refine List.filter_congr fun e _ => ?_
      cases he : k e == other with
      | false => rfl
      | true =>
        have hne : ¬ (k e == key) = true := fun hkey =>
          Bool.false_ne_true ((hfirst other hother).symm.trans
            (PartialEquivBEq.trans (PartialEquivBEq.symm hkey) he))
        rw [Bool.not_eq_true] at hne
        rw [hne]
        rfl
    have hcovered : ∀ e ∈ others, ∃ other ∈ keys, (other == k e) = true := by
      intro e he
      obtain ⟨hmem, hne⟩ := List.mem_filter.mp he
      obtain ⟨other, hother, hkey⟩ := covered e hmem
      rcases List.mem_cons.mp hother with rfl | hother
      · rw [PartialEquivBEq.symm hkey] at hne
        cases hne
      · exact ⟨other, hother, hkey⟩
    rw [List.flatMap_cons, List.flatMap_congr hothers]
    exact ((ih hrest hcovered).append_left _).trans (List.filter_append_perm _ xs)

/-- A list is made of the groups that have its keys. -/
theorem Groups.HasKeys.flatMap_perm {groups : Groups K V} {k : T → K} {xs ys : List T}
    (h : groups.HasKeys k xs) (hys : ys ⊆ xs) :
    (groups.flatMap fun group => withKey k group.1 ys).Perm ys := by
  have hcovered : ∀ e ∈ ys, ∃ key ∈ groups.map Prod.fst, (key == k e) = true := fun e he => by
    obtain ⟨group, hgroup, hkey⟩ := h.has_key e (hys he)
    exact ⟨group.1, List.mem_map_of_mem hgroup, hkey⟩
  have hperm := flatMap_withKey_perm h.distinct hcovered
  rwa [List.flatMap_map] at hperm

end

/-! ## Shared keys -/

/-- **The elements whose key others share.** -/
def repeated (k : T → K) (xs : List T) : List T :=
  xs.filter fun e => decide (1 < (withKey k (k e) xs).length)

/-- **The elements that have their key alone.** -/
def alone (k : T → K) (xs : List T) : List T :=
  xs.filter fun e => !decide (1 < (withKey k (k e) xs).length)

/-- A key is shared or not. -/
theorem repeated_append_alone_perm (k : T → K) (xs : List T) :
    (repeated k xs ++ alone k xs).Perm xs :=
  List.filter_append_perm _ xs

/-- Which keys are shared does not depend on the order. -/
theorem alone_perm (k : T → K) {xs ys : List T} (h : xs.Perm ys) :
    (alone k xs).Perm (alone k ys) := by
  have hlength : ∀ key, (withKey k key xs).length = (withKey k key ys).length := fun key =>
    (h.filter _).length_eq
  unfold alone
  simp only [hlength]
  exact h.filter _

/-- An element that is alone with its key is still so among those that are. -/
theorem withKey_alone [PartialEquivBEq K] {k : T → K} {key : K} {xs : List T} {e : T}
    (h : withKey k key xs = [e]) : withKey k key (alone k xs) = [e] := by
  have hkey : (k e == key) = true := by
    have hmem : e ∈ withKey k key xs := by
      rw [h]
      exact List.mem_cons_self
    exact (List.mem_filter.mp hmem).2
  have hfew : (!decide (1 < (withKey k (k e) xs).length)) = true := by
    rw [withKey_congr k hkey, h]
    rfl
  rw [alone, withKey, List.filter_comm]
  show (withKey k key xs).filter _ = _
  rw [h, List.filter_cons, if_pos hfew]
  rfl

open Evaluator (loneMember lone_keys_sublist mem_loneMember_iff)

/-- **The entities of groups of one** are those that have their key alone. -/
theorem lone_perm [PartialEquivBEq K] {k : T → K} {xs : List T}
    (reflexive : ∀ e ∈ xs, (k e == k e) = true) :
    (((Groups.members k xs).filterMap loneMember).map Prod.snd).Perm (alone k xs) := by
  have hkeys := Groups.hasKeys_members reflexive
  have hdistinct := hkeys.distinct.sublist (lone_keys_sublist (Groups.members k xs))
  have hcovered : ∀ e ∈ alone k xs,
      ∃ key ∈ ((Groups.members k xs).filterMap loneMember).map Prod.fst, (key == k e) = true := by
    intro e he
    obtain ⟨hmem, hfew⟩ := List.mem_filter.mp he
    obtain ⟨group, hgroup, hkey⟩ := hkeys.has_key e hmem
    rw [← Groups.members_eq hgroup hkey, Bool.not_eq_true', decide_eq_false_iff_not] at hfew
    -- the group has a member, and no other one
    obtain ⟨e', others, hfirst⟩ := List.exists_cons_of_ne_nil
      (Groups.members_ne_nil reflexive hgroup)
    have hothers : others = [] := by
      rw [hfirst, List.length_cons] at hfew
      exact List.eq_nil_of_length_eq_zero (by omega)
    have hlone : (group.1, e') ∈ (Groups.members k xs).filterMap loneMember := by
      rw [mem_loneMember_iff, ← hothers, ← hfirst]
      exact hgroup
    exact ⟨group.1, List.mem_map_of_mem hlone, hkey⟩
  have hvalue : ∀ one ∈ (Groups.members k xs).filterMap loneMember,
      withKey k one.1 (alone k xs) = [one.2] := by
    intro one hone
    have hgroup := mem_loneMember_iff.mp hone
    exact withKey_alone (Groups.members_eq hgroup (hkeys.key_self reflexive hgroup)).symm
  have hperm := flatMap_withKey_perm hdistinct hcovered
  rw [List.flatMap_map, List.flatMap_congr hvalue] at hperm
  rwa [List.map_eq_flatMap]

namespace Evaluator

/-! ## The three operations -/

variable {key : T → Run K} {k : T → K}

/-- Keeping what has a new key keeps the leaders. -/
theorem outcome_firstOfKeys [PartialEquivBEq K] {xs : List T}
    (hkeys : ∀ e ∈ xs, (key e).outcome = .ok (k e)) :
    (firstOfKeys (some key) [] xs).outcome = .ok (leaders k xs) := by
  -- the keys seen are those of the elements before, of those too that are not kept
  have hfrom : ∀ (before : List T) (seen : List K),
      (∀ key, seen.any (· == key) = before.any fun a => k a == key) →
      (firstOfKeys (some key) seen xs).outcome = .ok (leadersAfter k before xs) := by
    induction xs with
    | nil => exact fun _ _ _ => rfl
    | cons e rest ih =>
      intro before seen hseen
      have hrest := ih fun a ha => hkeys a (List.mem_cons_of_mem e ha)
      have hafter : ∀ key, ((before ++ [e]).any fun a => k a == key)
          = (seen.any (· == key) || k e == key) := fun key => by
        rw [List.any_append, List.any_cons, List.any_nil, Bool.or_false, hseen]
      refine (Run.outcome_bind_ok (hkeys e List.mem_cons_self) _).trans ?_
      show (if seen.any (· == k e) = true then _ else _ : Run (List T)).outcome = _
      rw [leadersAfter_cons, ← hseen]
      cases hold : seen.any (· == k e) with
      | true =>
        refine hrest (before ++ [e]) seen fun key => ?_
        rw [hafter]
        cases hkey : k e == key with
        | false => rw [Bool.or_false]
        | true =>
          obtain ⟨a, ha, hae⟩ := List.any_eq_true.mp hold
          rw [Bool.or_true]
          exact List.any_eq_true.mpr ⟨a, ha, PartialEquivBEq.trans hae hkey⟩
      | false =>
        have hkept := hrest (before ++ [e]) (seen ++ [k e]) fun key => by
          rw [hafter, List.any_append, List.any_cons, List.any_nil, Bool.or_false]
        exact Run.outcome_bind_ok hkept _
  exact hfrom [] [] fun _ => rfl

/-- **Repeated keys are counted.** -/
theorem outcome_repeated {xs : List T} (hkeys : ∀ e ∈ xs, (key e).outcome = .ok (k e)) :
    (Run.each (Run.call (some key)) xs >>= fun keys =>
        .done (((xs.zip keys).filter fun entry =>
          decide (1 < (keys.filter (· == entry.2)).length)).map (·.1))).outcome
      = .ok (repeated k xs) := by
  refine (Run.outcome_bind_ok (Run.outcome_each hkeys) _).trans (congrArg Except.ok ?_)
  have hcount : ∀ key, ((xs.map k).filter (· == key)).length = (withKey k key xs).length :=
    fun key => by
      rw [List.filter_map, List.length_map]
      rfl
  simp only [hcount]
  rw [← List.map_prod_left_eq_zip, List.filter_map, List.map_map]
  exact List.map_id _

section

variable [PartialEquivBEq K] {p : Predicate T} {negate : Bool} {limits : Limits}
  {source : List T} {order : Option (SortOrder T)} {c : T → T → Ordering}
  (decides : p.Decides source) (keys : SelectsKeys key k source)
  (ranks : SortOrder.Ranks order source c)

include decides keys ranks

/-- **The top of each key** is cut from its group, put in order. -/
theorem outcome_topByGroup {count : Int32} (hcount : Limits.Allows limits.maxTopCount count) :
    ((Evaluator.mk p negate limits).topByGroup source (some key) count order).outcome
      = .ok ((Groups.members k (chosen p negate source)).map fun group =>
          (group.1, (group.2.mergeSort (ahead c)).take count.toInt.toNat)) := by
  have hpassed : ∀ e ∈ chosen p negate source, (k e == k e) = true := fun e he =>
    keys.reflexive e (List.mem_of_mem_filter he)
  have hmembers : ∀ group ∈ (Groups.members k (chosen p negate source)).reverse,
      (arrange order group.2 >>= fun members =>
          .done (group.1, members.take (countWord count).toNat)).outcome
        = .ok (group.1, (group.2.mergeSort (ahead c)).take count.toInt.toNat) := by
    intro group hgroup
    have hgroup' := List.mem_reverse.mp hgroup
    have hself := (Groups.hasKeys_members hpassed).key_self hpassed hgroup'
    have hsub : group.2 ⊆ source := by
      rw [Groups.members_eq hgroup' hself]
      exact List.Subset.trans withKey_subset List.filter_sublist.subset
    refine (Run.outcome_bind_ok (ranks.outcome_arrange hsub) _).trans ?_
    rw [countWord_toNat hcount.1]
    rfl
  unfold topByGroup
  rw [Limits.requireTop_of_allows hcount, Run.done_bind]
  refine (Run.outcome_bind_ok (outcome_grouped decides keys) _).trans ?_
  refine (Run.outcome_bind_ok (Run.outcome_each hmembers) _).trans (congrArg Except.ok ?_)
  rw [List.map_reverse, List.reverse_reverse]

/-- The top of each key is the beginning of what the arranged entities have of it. -/
theorem exists_topByGroup {count : Int32} (hcount : Limits.Allows limits.maxTopCount count) :
    ∃ tops, ((Evaluator.mk p negate limits).topByGroup source (some key) count order).outcome
        = .ok tops ∧
      tops.HasKeys k ((chosen p negate source).mergeSort (ahead c)) ∧
      ∀ group ∈ tops, ∀ key, (group.1 == key) = true → group.2
        = (withKey k key ((chosen p negate source).mergeSort (ahead c))).take
            count.toInt.toNat := by
  have := ranks.total
  have hpassed : ∀ e ∈ chosen p negate source, (k e == k e) = true := fun e he =>
    keys.reflexive e (List.mem_of_mem_filter he)
  refine ⟨_, outcome_topByGroup decides keys ranks hcount, ?_, fun group hgroup key hkey => ?_⟩
  · refine ((Groups.hasKeys_members hpassed).of_keys ?_).of_mem_iff fun e => List.mem_mergeSort
    exact List.map_map
  · obtain ⟨members, hmembers, rfl⟩ := List.mem_map.mp hgroup
    show (members.2.mergeSort (ahead c)).take _ = _
    rw [Groups.members_eq hmembers hkey, withKey, ← StableSort.filter_mergeSort]
    rfl

end

/-! ## One list -/

/-- **What is selected by key**, of the entities that pass in their order. -/
structure SelectsByKey (v : Evaluator T) (key : T → Run K) (k : T → K) (source : List T)
    (order : Option (SortOrder T)) (passed : List T) (lone : Groups K T) : Prop where
  /-- These entities pass, in their order. -/
  all : (v.all source order).outcome = .ok passed
  /-- The distinct ones are the leaders of it: -/
  distinct : (v.distinct source (some key) order).outcome = .ok (leaders k passed)
  /-- they stand in it as it has them, -/
  distinct_sublist : (leaders k passed).Sublist passed
  /-- no two of them have one key, -/
  distinct_keys : (leaders k passed).Pairwise fun a b => (k a == k b) = false
  /-- and every key is there. -/
  distinct_present : ∀ e ∈ passed, ∃ d ∈ leaders k passed, (k d == k e) = true
  /-- The top of each key is the beginning of what the list has of the key. -/
  top : ∀ count, Limits.Allows v.limits.maxTopCount count →
    ∃ tops, (v.topByGroup source (some key) count order).outcome = .ok tops ∧
      tops.HasKeys k passed ∧ ∀ group ∈ tops, ∀ key, (group.1 == key) = true →
        group.2 = (withKey k key passed).take count.toInt.toNat
  /-- The tops of one are the distinct entities. -/
  heads : Limits.Allows v.limits.maxTopCount 1 →
    ∃ tops, (v.topByGroup source (some key) 1 order).outcome = .ok tops ∧
      (tops.flatMap Prod.snd).Perm (leaders k passed)
  /-- The duplicates are those whose key others share, -/
  duplicates : (v.duplicates source (some key) order).outcome = .ok (repeated k passed)
  /-- and there are those that have their key alone. -/
  uniques : (v.uniquesByGroup source (some key)).outcome = .ok lone
  split : (repeated k passed ++ lone.map Prod.snd).Perm passed

/-- **Selections by key are parts of one list**, for a predicate that decides the source, a
selector that does not fail on it, and an order that is total on it. -/
theorem selects_by_key [PartialEquivBEq K] (v : Evaluator T) (source : List T)
    (key : T → Run K) {k : T → K} (order : Option (SortOrder T))
    (decides : v.predicate.Decides source) (keys : SelectsKeys key k source)
    (total : ∀ o ∈ order, o.TotalOn source) :
    ∃ passed lone, v.SelectsByKey key k source order passed lone := by
  obtain ⟨p, negate, limits⟩ := v
  obtain ⟨c, ranks⟩ := SortOrder.exists_ranks total
  have := ranks.total
  have hreflexive : ∀ e ∈ chosen p negate source, (k e == k e) = true := fun e he =>
    keys.reflexive e (List.mem_of_mem_filter he)
  have hselect := outcome_select_passed decides ranks negate limits
  have hperm : ((chosen p negate source).mergeSort (ahead c)).Perm (chosen p negate source) :=
    List.mergeSort_perm _ _
  have hkeys : ∀ e ∈ (chosen p negate source).mergeSort (ahead c), (key e).outcome = .ok (k e) :=
    fun e he => keys.outcome e (List.mem_of_mem_filter (hperm.mem_iff.mp he))
  refine ⟨(chosen p negate source).mergeSort (ahead c),
    (Groups.members k (chosen p negate source)).filterMap loneMember, ?_⟩
  constructor
  case all => exact hselect
  case distinct => exact (Run.outcome_bind_ok hselect _).trans (outcome_firstOfKeys hkeys)
  case distinct_sublist => exact leaders_sublist k _
  case distinct_keys => exact leaders_distinct k _
  case distinct_present =>
    exact fun e he => exists_leader he (hreflexive e (hperm.mem_iff.mp he))
  case top => exact fun count hcount => exists_topByGroup decides keys ranks hcount
  case heads =>
    intro hone
    obtain ⟨tops, htops, htopKeys, hvalue⟩ := exists_topByGroup decides keys ranks hone
    refine ⟨tops, htops, ?_⟩
    have hleaders : ∀ group ∈ tops, group.2
        = withKey k group.1 (leaders k ((chosen p negate source).mergeSort (ahead c))) := by
      intro group hgroup
      have hself := htopKeys.key_self
        (fun e he => hreflexive e (hperm.mem_iff.mp he)) hgroup
      rw [hvalue group hgroup group.1 hself, withKey_leaders]
      rfl
    rw [List.flatMap_congr hleaders]
    exact htopKeys.flatMap_perm (leaders_sublist k _).subset
  case duplicates => exact (Run.outcome_bind_ok hselect _).trans (outcome_repeated hkeys)
  case uniques => exact Run.outcome_bind_ok (outcome_grouped decides keys) _
  case split =>
    refine .trans ?_ (repeated_append_alone_perm k _)
    exact .append_left _ ((lone_perm hreflexive).trans (alone_perm k hperm.symm))

section

open Predicate (flags flagRows flags_decides)
open SortOrder (rightFirst rightFirst_totalOn)

/-- Pairs of flags that fail a condition, selected by the second flag. -/
theorem selects_by_key_flags :
    flags.Decides flagRows ∧
      SelectsKeys (fun e : Bool × Bool => .done e.2) Prod.snd flagRows ∧
      (∀ o ∈ some rightFirst, o.TotalOn flagRows) ∧
      ∃ passed lone, (Evaluator.mk flags true (.mk 0 2)).SelectsByKey
        (fun e : Bool × Bool => .done e.2) Prod.snd flagRows (some rightFirst) passed lone := by
  have hkeys : SelectsKeys (fun e : Bool × Bool => .done e.2) Prod.snd flagRows :=
    ⟨fun _ _ => rfl, fun _ _ => beq_self_eq_true _⟩
  have htotal : ∀ o ∈ some rightFirst, o.TotalOn flagRows := by
    rintro o ⟨⟩
    exact rightFirst_totalOn flagRows
  exact ⟨flags_decides, hkeys, htotal,
    selects_by_key (Evaluator.mk flags true (.mk 0 2)) flagRows
      (fun e : Bool × Bool => .done e.2) (some rightFirst) flags_decides hkeys htotal⟩

end

end Evaluator

end Criteria
