import Mathlib.Data.List.Induction
import Criteria.Evaluator.Grouping

/-!
# Groups by key

Groups are collected by going through a list once: an element changes the group of its
key, or begins a new one at the end (`Groups.collect`). The keys are then those of the
elements, every key once (`Groups.hasKeys_collect`), and what belongs to a key has gone
through the elements of that key alone, in their order (`Groups.get?_collect`). Both are
proved by adding one more element at the end of the list.

The equality of keys is symmetric and transitive, but a key need not be equal to itself:
not-a-number is not, and every element with such a key would have a group of its own. So
where a group is looked up by the key of an element, that key has to be equal to itself.
-/

namespace Criteria

variable {T K V : Type} [BEq K]

/-! ## The elements of a key -/

/-- **The elements of a key**, in order. -/
def withKey (k : T → K) (key : K) (xs : List T) : List T := xs.filter fun e => k e == key

theorem withKey_subset {k : T → K} {key : K} {xs : List T} : withKey k key xs ⊆ xs :=
  List.filter_sublist.subset

theorem withKey_append (k : T → K) (key : K) (xs ys : List T) :
    withKey k key (xs ++ ys) = withKey k key xs ++ withKey k key ys :=
  List.filter_append xs ys

theorem withKey_singleton (k : T → K) (key : K) (e : T) :
    withKey k key [e] = if k e == key then [e] else [] :=
  List.filter_cons

/-- Equal keys have the same elements. -/
theorem withKey_congr [PartialEquivBEq K] (k : T → K) {key key' : K}
    (h : (key == key') = true) (xs : List T) : withKey k key xs = withKey k key' xs :=
  List.filter_congr fun _ _ => BEq.congr_right h

/-- An element of a list is among those of its key. -/
theorem mem_withKey_self {k : T → K} {xs : List T} {e : T} (hmem : e ∈ xs)
    (hself : (k e == k e) = true) : e ∈ withKey k (k e) xs :=
  List.mem_filter.mpr ⟨hmem, hself⟩

namespace Groups

/-! ## Keys -/

/-- **Every key once.** -/
def Distinct (groups : Groups K V) : Prop :=
  (groups.map Prod.fst).Pairwise fun a b => (a == b) = false

/-- **A key is found or it is new**: changing a group keeps the keys, and a key that is
not there comes last. -/
theorem keys_update (key : K) (fresh : V) (change : V → V) (groups : Groups K V) :
    (update key fresh change groups).map Prod.fst
      = if (groups.map Prod.fst).any (· == key) then groups.map Prod.fst
        else groups.map Prod.fst ++ [key] := by
  induction groups with
  | nil => rfl
  | cons group rest ih =>
    obtain ⟨k, x⟩ := group
    unfold update
    by_cases hk : (k == key) = true
    · simp [hk]
    · rw [if_neg hk, List.map_cons, ih]
      by_cases hrest : (rest.map Prod.fst).any (· == key) = true
      · simp [hk, hrest]
      · simp only [List.map_cons, List.any_cons, hk, hrest, Bool.or_self, if_false,
          Bool.false_eq_true, List.cons_append]

/-- A new key gets a group at the end. -/
theorem update_of_new {key : K} (fresh : V) (change : V → V) {groups : Groups K V}
    (h : (groups.map Prod.fst).any (· == key) = false) :
    update key fresh change groups = groups ++ [(key, fresh)] := by
  induction groups with
  | nil => rfl
  | cons group rest ih =>
    obtain ⟨k, x⟩ := group
    rw [List.map_cons, List.any_cons, Bool.or_eq_false_iff] at h
    unfold update
    rw [h.1, if_neg Bool.false_ne_true, ih h.2]
    rfl

/-- Every key stays once. -/
theorem Distinct.update {groups : Groups K V} (h : groups.Distinct) (key : K) (fresh : V)
    (change : V → V) : (groups.update key fresh change).Distinct := by
  unfold Distinct
  rw [keys_update]
  split
  · exact h
  · rename_i hnew
    rw [Bool.not_eq_true, List.any_eq_false] at hnew
    refine List.pairwise_append.mpr ⟨h, List.pairwise_singleton _ _, fun a ha b hb => ?_⟩
    rw [List.mem_singleton.mp hb]
    exact Bool.eq_false_iff.mpr (hnew a ha)

/-- Where the equality of keys is equality, the keys are different. -/
theorem distinct_iff_nodup [LawfulBEq K] {groups : Groups K V} :
    groups.Distinct ↔ (groups.map Prod.fst).Nodup := by
  unfold Distinct List.Nodup
  simp only [beq_eq_false_iff_ne]

/-! ## Collecting -/

/-- **The groups of a list**, one element after the other. -/
def collect (k : T → K) (fresh : T → V) (change : V → T → V) (xs : List T) : Groups K V :=
  xs.foldl (fun groups e => update (k e) (fresh e) (change · e) groups) []

/-- **The groups of a list's elements.** -/
def members (k : T → K) (xs : List T) : Groups K (List T) :=
  collect k (fun e => [e]) (fun group e => group ++ [e]) xs

/-- **The keys of a list**: those of its elements, every key once. -/
structure HasKeys (groups : Groups K V) (k : T → K) (xs : List T) : Prop where
  /-- No key is there twice. -/
  distinct : groups.Distinct
  /-- Every key is that of an element. -/
  key_of : ∀ group ∈ groups, ∃ e ∈ xs, k e = group.1
  /-- Every element has its key there. -/
  has_key : ∀ e ∈ xs, ∃ group ∈ groups, (group.1 == k e) = true

theorem HasKeys.of_mem_iff {groups : Groups K V} {k : T → K} {xs ys : List T}
    (h : groups.HasKeys k xs) (hys : ∀ e, e ∈ ys ↔ e ∈ xs) : groups.HasKeys k ys where
  distinct := h.distinct
  key_of group hgroup := by
    obtain ⟨e, he, hke⟩ := h.key_of group hgroup
    exact ⟨e, (hys e).mpr he, hke⟩
  has_key e he := h.has_key e ((hys e).mp he)

/-- Where the elements have keys equal to themselves, so have the groups. -/
theorem HasKeys.key_self {groups : Groups K V} {k : T → K} {xs : List T}
    (h : groups.HasKeys k xs) (reflexive : ∀ e ∈ xs, (k e == k e) = true) {group : K × V}
    (hgroup : group ∈ groups) : (group.1 == group.1) = true := by
  obtain ⟨e, he, hke⟩ := h.key_of group hgroup
  rw [← hke]
  exact reflexive e he

/-- Which keys there are does not depend on what belongs to them. -/
theorem HasKeys.of_keys {W : Type} {groups : Groups K V} {others : Groups K W} {k : T → K}
    {xs : List T} (h : groups.HasKeys k xs)
    (hkeys : others.map Prod.fst = groups.map Prod.fst) : others.HasKeys k xs where
  distinct := by
    unfold Distinct
    rw [hkeys]
    exact h.distinct
  key_of other hother := by
    have hmem := List.mem_map_of_mem (f := Prod.fst) hother
    rw [hkeys] at hmem
    obtain ⟨group, hgroup, heq⟩ := List.mem_map.mp hmem
    rw [← heq]
    exact h.key_of group hgroup
  has_key e he := by
    obtain ⟨group, hgroup, hkey⟩ := h.has_key e he
    have hmem := List.mem_map_of_mem (f := Prod.fst) hgroup
    rw [← hkeys] at hmem
    obtain ⟨other, hother, heq⟩ := List.mem_map.mp hmem
    exact ⟨other, hother, by rw [heq]; exact hkey⟩

section

variable (k : T → K) (fresh : T → V) (change : V → T → V)

/-- A list and one more element. -/
theorem collect_concat (xs : List T) (e : T) :
    collect k fresh change (xs ++ [e])
      = update (k e) (fresh e) (change · e) (collect k fresh change xs) :=
  List.foldl_append

/-- Every key of a collected group is that of an element. -/
theorem key_of_collect {xs : List T} {key : K}
    (h : key ∈ (collect k fresh change xs).map Prod.fst) : ∃ e ∈ xs, k e = key := by
  induction xs using List.reverseRecOn with
  | nil => cases h
  | append_singleton xs e ih =>
    have hold : key ∈ (collect k fresh change xs).map Prod.fst → ∃ a ∈ xs ++ [e], k a = key :=
      fun hmem =>
        have ⟨a, ha, hka⟩ := ih hmem
        ⟨a, List.mem_append_left _ ha, hka⟩
    rw [collect_concat, keys_update] at h
    split at h
    · exact hold h
    · rcases List.mem_append.mp h with h | h
      · exact hold h
      · exact ⟨e, List.mem_concat_self, (List.mem_singleton.mp h).symm⟩

theorem distinct_collect (xs : List T) : (collect k fresh change xs).Distinct := by
  induction xs using List.reverseRecOn with
  | nil => exact List.Pairwise.nil
  | append_singleton xs e ih =>
    rw [collect_concat]
    exact ih.update _ _ _

end

/-! ## What belongs to a key -/

/-- What belongs to a key. -/
def get? (key : K) (groups : Groups K V) : Option V :=
  (groups.find? fun group => group.1 == key).map Prod.snd

theorem get?_cons (key : K) (group : K × V) (groups : Groups K V) :
    get? key (group :: groups) = if group.1 == key then some group.2 else get? key groups := by
  unfold get?
  rw [List.find?_cons]
  cases group.1 == key <;> rfl

/-- A key that belongs to a group is one of the keys. -/
theorem exists_of_get? {key : K} {groups : Groups K V} {x : V} (h : get? key groups = some x) :
    ∃ group ∈ groups, (group.1 == key) = true ∧ group.2 = x := by
  obtain ⟨group, hgroup, hx⟩ := Option.map_eq_some_iff.mp h
  have hkey := List.find?_some (p := fun group : K × V => group.1 == key) hgroup
  exact ⟨group, List.mem_of_find?_eq_some hgroup, hkey, hx⟩

variable [PartialEquivBEq K]

/-- **Changing a group** changes what belongs to its key, and nothing else. -/
theorem get?_update (other key : K) (fresh : V) (change : V → V) (groups : Groups K V) :
    get? other (update key fresh change groups)
      = if key == other then some ((get? other groups).elim fresh change)
        else get? other groups := by
  induction groups with
  | nil =>
    unfold update
    rw [get?_cons]
    rfl
  | cons group rest ih =>
    obtain ⟨k, x⟩ := group
    unfold update
    by_cases hk : (k == key) = true
    · rw [if_pos hk, get?_cons, get?_cons]
      show (if (k == other) = true then _ else _) = _
      rw [BEq.congr_left hk]
      split <;> rfl
    · rw [if_neg hk, get?_cons, get?_cons, ih]
      by_cases hother : (k == other) = true
      · have hne : ¬ (key == other) = true := fun h =>
          hk (PartialEquivBEq.trans hother (PartialEquivBEq.symm h))
        simp [hother, hne]
      · simp [hother]

/-- A group has what belongs to its key. -/
theorem Distinct.get?_of_mem {groups : Groups K V} (h : groups.Distinct) {group : K × V}
    (hmem : group ∈ groups) {key : K} (hkey : (group.1 == key) = true) :
    get? key groups = some group.2 := by
  induction groups with
  | nil => cases hmem
  | cons first rest ih =>
    obtain ⟨hfirst, hrest⟩ := List.pairwise_cons.mp h
    rw [get?_cons]
    cases hmem with
    | head => rw [if_pos hkey]
    | tail _ hmem =>
      have hne : (first.1 == key) = false := by
        rw [← BEq.congr_right hkey]
        exact hfirst _ (List.mem_map_of_mem hmem)
      rw [hne, if_neg Bool.false_ne_true]
      exact ih hrest hmem

/-! ## What belongs to a key of a list -/

section

variable (k : T → K) (fresh : T → V) (change : V → T → V) {xs : List T}

/-- **What belongs to a key** has gone through the elements of that key. -/
theorem get?_collect (key : K) (xs : List T) :
    get? key (collect k fresh change xs)
      = (withKey k key xs).foldl (fun x e => some (x.elim (fresh e) (change · e))) none := by
  induction xs using List.reverseRecOn with
  | nil => rfl
  | append_singleton xs e ih =>
    rw [collect_concat, get?_update, ih, withKey_append, List.foldl_append, withKey_singleton]
    split <;> rfl

/-- The first element of a key begins its group. -/
theorem get?_collect_of_cons {key : K} {e : T} {rest : List T}
    (h : withKey k key xs = e :: rest) :
    get? key (collect k fresh change xs) = some (rest.foldl change (fresh e)) := by
  rw [get?_collect, h]
  exact List.foldl_hom some fun _ _ => rfl

/-- **A collected group** has gone through the elements of its key, of which there are
some. -/
theorem exists_of_mem_collect {group : K × V} (hgroup : group ∈ collect k fresh change xs)
    {key : K} (hkey : (group.1 == key) = true) :
    ∃ e rest, withKey k key xs = e :: rest ∧ group.2 = rest.foldl change (fresh e) := by
  obtain ⟨e, he, hke⟩ := key_of_collect k fresh change (List.mem_map_of_mem hgroup)
  have hmem : e ∈ withKey k key xs := List.mem_filter.mpr ⟨he, by rw [hke]; exact hkey⟩
  obtain ⟨first, rest, hfirst⟩ := List.exists_cons_of_ne_nil (List.ne_nil_of_mem hmem)
  have hvalue := (distinct_collect k fresh change xs).get?_of_mem hgroup hkey
  rw [get?_collect_of_cons k fresh change hfirst] at hvalue
  exact ⟨first, rest, hfirst, (Option.some.inj hvalue).symm⟩

/-- **Collecting a list keeps its keys**, if they are equal to themselves. -/
theorem hasKeys_collect {k : T → K} (reflexive : ∀ e ∈ xs, (k e == k e) = true) :
    (collect k fresh change xs).HasKeys k xs where
  distinct := distinct_collect k fresh change xs
  key_of group hgroup := key_of_collect k fresh change (List.mem_map_of_mem hgroup)
  has_key e he := by
    obtain ⟨first, rest, hfirst⟩ := List.exists_cons_of_ne_nil
      (List.ne_nil_of_mem (mem_withKey_self he (reflexive e he)))
    obtain ⟨group, hgroup, hkey, -⟩ :=
      exists_of_get? (get?_collect_of_cons k fresh change hfirst)
    exact ⟨group, hgroup, hkey⟩

end

/-! ## Members -/

section

variable {k : T → K} {xs : List T} {group : K × List T}

/-- **The members of a group** are the elements of its key. -/
theorem members_eq (hgroup : group ∈ members k xs) {key : K} (hkey : (group.1 == key) = true) :
    group.2 = withKey k key xs := by
  obtain ⟨e, rest, hfirst, hmembers⟩ := exists_of_mem_collect _ _ _ hgroup hkey
  rw [List.foldl_append_eq_append, ← List.flatMap_def, List.flatMap_singleton'] at hmembers
  rw [hfirst, hmembers]
  rfl

variable (reflexive : ∀ e ∈ xs, (k e == k e) = true)

include reflexive

theorem hasKeys_members : (members k xs).HasKeys k xs := hasKeys_collect _ _ reflexive

/-- Every group has a member. -/
theorem members_ne_nil (hgroup : group ∈ members k xs) : group.2 ≠ [] := by
  obtain ⟨e, he, hke⟩ := (hasKeys_members reflexive).key_of group hgroup
  have hself := (hasKeys_members reflexive).key_self reflexive hgroup
  rw [members_eq hgroup hself, ← hke]
  exact List.ne_nil_of_mem (mem_withKey_self he (reflexive e he))

end

end Groups

end Criteria
