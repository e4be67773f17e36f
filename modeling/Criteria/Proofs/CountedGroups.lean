import Criteria.Proofs.Fetching

/-!
# Groups of values, counted

A table counts the rows of every value of a field. It keeps a list of the values so far, and a
row is counted with the first one that is equal to its own, or added to the list with a count of
one. The values are told apart by equality, and equality of numbers of several kinds is not
transitive. A value may be equal to two that are not equal to each other, so the groups are no
classes, and which rows are counted together depends on their order.

Nothing is lost or counted twice for all that (`Table.counts_groups`). The first value takes all
values that equal it, and the rest is counted without them (`Table.groupsOf_cons`). This is how
the list is gone through below, and it makes no use of an equivalence: a value belongs to the first
group that takes it. Only where the numbers are of one kind does it belong to the group of every
key that is equal to it.
-/

namespace Criteria

namespace Value

/-- **A value is equal to itself**, if there is no not-a-number in it. -/
theorem eq_self {v : Value} (h : v.Over IsNumeric) : v.eq v = true := by
  have hself : compareBy nativeRank v v = .eq := by
    have hswap : compareBy nativeRank v v = (compareBy nativeRank v v).swap := compareBy_swap v v
    cases ho : compareBy nativeRank v v <;> rw [ho] at hswap <;> first | rfl | cases hswap
  exact (compareBy_eq_iff nativeRank_injective h h).mp hself

end Value

namespace Table

/-! ## Groups of values -/

/-- **The groups of values**, one value after another. -/
def groupsOf (values : List Value) : List (Value × ℕ) :=
  values.foldl (fun groups v => countValue v groups) []

/-- The first group takes what is equal to its key, and the rest goes on to the others. -/
theorem foldl_countValue_cons (group : Value × ℕ) (rest : List (Value × ℕ)) (vs : List Value) :
    vs.foldl (fun groups v => countValue v groups) (group :: rest)
      = (group.1, group.2 + vs.countP group.1.eq) ::
          (vs.filter fun v => !group.1.eq v).foldl (fun groups v => countValue v groups) rest := by
  induction vs generalizing group rest with
  | nil => rfl
  | cons v vs ih =>
    rw [List.foldl_cons, countValue]
    by_cases hv : group.1.eq v = true
    · rw [if_pos hv, ih, List.countP_cons_of_pos hv, List.filter_cons_of_neg (by simp [hv])]
      simp only [Nat.add_assoc, Nat.add_comm 1]
    · rw [if_neg hv, ih, List.countP_cons_of_neg hv, List.filter_cons_of_pos (by simp [hv])]
      rfl

/-- **The first value takes all that equal it**, and the rest is counted without them. -/
theorem groupsOf_cons (v : Value) (vs : List Value) :
    groupsOf (v :: vs) = (v, 1 + vs.countP v.eq) :: groupsOf (vs.filter fun w => !v.eq w) :=
  foldl_countValue_cons (v, 1) [] vs

/-- **Going through values** by what is left of them without the first one's group. -/
@[elab_as_elim]
theorem groupsOf_induction {motive : List Value → Prop} (nil : motive [])
    (cons : ∀ v vs, motive (vs.filter fun w => !v.eq w) → motive (v :: vs))
    (values : List Value) : motive values := by
  induction hlength : values.length using Nat.strong_induction_on generalizing values with
  | _ n ih =>
    cases values with
    | nil => exact nil
    | cons v vs =>
      have hlt : (vs.filter fun w => !v.eq w).length < n :=
        hlength ▸ Nat.lt_succ_of_le (List.length_filter_le _ _)
      exact cons v vs (ih _ hlt _ rfl)

/-- **How values are counted in groups.** -/
structure CountsGroups (values : List Value) (groups : List (Value × ℕ)) : Prop where
  /-- No two keys are equal, whichever comes first. -/
  distinct : groups.Pairwise fun g h => g.1.eq h.1 = false ∧ h.1.eq g.1 = false
  /-- The keys are listed as they first appear: the next key is the first value that none of the
  keys before it is equal to. -/
  appearance : ∀ earlier g later, groups = earlier ++ g :: later →
    ∃ before after, values = before ++ g.1 :: after ∧ (∀ h ∈ earlier, h.1.eq g.1 = false) ∧
      ∀ v ∈ before, ∃ h ∈ earlier, h.1.eq v = true
  /-- Every value is equal to some key. -/
  present : ∀ v ∈ values, ∃ g ∈ groups, g.1.eq v = true
  /-- A count is the number of values that the key is equal to, and none before it is. -/
  counted : ∀ earlier g later, groups = earlier ++ g :: later →
    g.2 = values.countP fun v => g.1.eq v && !earlier.any fun h => h.1.eq v
  /-- Every count is at least one, -/
  positive : ∀ g ∈ groups, 1 ≤ g.2
  /-- and they add up to the number of values. -/
  total : (groups.map Prod.snd).sum = values.length
  /-- If the numbers are of one kind, a count is the number of values that the key is equal to. -/
  one_kind : ∀ k, (∀ v ∈ values, v.Over (Number.Ordinary k)) →
    ∀ g ∈ groups, g.2 = values.countP g.1.eq

variable {values : List Value}

/-- What is left without the first one's group is among the values. -/
theorem forall_rest {P : Value → Prop} {v : Value} {vs : List Value} (h : ∀ w ∈ v :: vs, P w) :
    ∀ w ∈ vs.filter fun w => !v.eq w, P w :=
  fun w hw => h w (List.mem_cons_of_mem v (List.mem_filter.mp hw).1)

/-- Every key is one of the values. -/
theorem key_mem_of_groupsOf {g : Value × ℕ} (hg : g ∈ groupsOf values) : g.1 ∈ values := by
  induction values using groupsOf_induction with
  | nil => cases hg
  | cons v vs ih =>
    rw [groupsOf_cons] at hg
    rcases List.mem_cons.mp hg with rfl | hg
    · exact List.mem_cons_self
    · exact List.mem_cons_of_mem v (List.mem_filter.mp (ih hg)).1

theorem groupsOf_distinct (values : List Value) :
    (groupsOf values).Pairwise fun g h => g.1.eq h.1 = false := by
  induction values using groupsOf_induction with
  | nil => exact List.Pairwise.nil
  | cons v vs ih =>
    rw [groupsOf_cons, List.pairwise_cons]
    refine ⟨fun h hh => ?_, ih⟩
    simpa using (List.mem_filter.mp (key_mem_of_groupsOf hh)).2

theorem groupsOf_total (values : List Value) :
    ((groupsOf values).map Prod.snd).sum = values.length := by
  induction values using groupsOf_induction with
  | nil => rfl
  | cons v vs ih =>
    have hsplit := List.length_eq_countP_add_countP v.eq (l := vs)
    rw [groupsOf_cons, List.map_cons, List.sum_cons, ih, List.length_cons,
      ← List.countP_eq_length_filter]
    simp only [Bool.not_eq_true, Bool.decide_eq_false] at hsplit
    omega

theorem groupsOf_positive {g : Value × ℕ} (hg : g ∈ groupsOf values) : 1 ≤ g.2 := by
  induction values using groupsOf_induction with
  | nil => cases hg
  | cons v vs ih =>
    rw [groupsOf_cons] at hg
    rcases List.mem_cons.mp hg with rfl | hg
    · exact Nat.le_add_right 1 _
    · exact ih hg

section

variable (reflexive : ∀ v ∈ values, v.eq v = true)

include reflexive

theorem groupsOf_present {v : Value} (hv : v ∈ values) :
    ∃ g ∈ groupsOf values, g.1.eq v = true := by
  induction values using groupsOf_induction with
  | nil => cases hv
  | cons w ws ih =>
    rw [groupsOf_cons]
    by_cases hw : w.eq v = true
    · exact ⟨_, List.mem_cons_self, hw⟩
    · -- the first group does not take it, so it is among the rest
      have hmem : v ∈ ws := (List.mem_cons.mp hv).resolve_left fun h =>
        hw (h ▸ reflexive v hv)
      obtain ⟨g, hg, heq⟩ := ih (forall_rest reflexive)
        (List.mem_filter.mpr ⟨hmem, by simp [hw]⟩)
      exact ⟨g, List.mem_cons_of_mem _ hg, heq⟩

theorem groupsOf_appearance {earlier later : List (Value × ℕ)} {g : Value × ℕ}
    (h : groupsOf values = earlier ++ g :: later) :
    ∃ before after, values = before ++ g.1 :: after ∧
      ∀ v ∈ before, ∃ h ∈ earlier, h.1.eq v = true := by
  induction values using groupsOf_induction generalizing earlier with
  | nil => simp [groupsOf] at h
  | cons w ws ih =>
    rw [groupsOf_cons] at h
    cases earlier with
    | nil =>
      obtain rfl : _ = g := (List.cons.inj h).1
      exact ⟨[], ws, rfl, nofun⟩
    | cons first earlier =>
      obtain ⟨rfl, hrest⟩ := List.cons.inj h
      obtain ⟨before, after, hsplit, hbefore⟩ := ih (forall_rest reflexive) hrest
      -- what stands before the key is taken by the first group, or stands before it in the rest
      obtain ⟨front, back, rfl, hfront, hback⟩ := List.filter_eq_append_iff.mp hsplit
      obtain ⟨skipped, after', rfl, hskipped, -, -⟩ := List.filter_eq_cons_iff.mp hback
      refine ⟨w :: (front ++ skipped), after', by simp, fun v hv => ?_⟩
      by_cases hw : w.eq v = true
      · exact ⟨_, List.mem_cons_self, hw⟩
      · have hback : v ∉ skipped := fun hmem => hskipped v hmem (by simp [hw])
        have hmem : v ∈ front :=
          (List.mem_append.mp ((List.mem_cons.mp hv).resolve_left fun h =>
            hw (h ▸ reflexive w List.mem_cons_self))).resolve_right hback
        obtain ⟨h, hh, heq⟩ := hbefore v (hfront ▸ List.mem_filter.mpr ⟨hmem, by simp [hw]⟩)
        exact ⟨h, List.mem_cons_of_mem _ hh, heq⟩

theorem groupsOf_counted {earlier later : List (Value × ℕ)} {g : Value × ℕ}
    (h : groupsOf values = earlier ++ g :: later) :
    g.2 = values.countP fun v => g.1.eq v && !earlier.any fun h => h.1.eq v := by
  induction values using groupsOf_induction generalizing earlier with
  | nil => simp [groupsOf] at h
  | cons w ws ih =>
    have hself := reflexive w List.mem_cons_self
    rw [groupsOf_cons] at h
    cases earlier with
    | nil =>
      obtain rfl : _ = g := (List.cons.inj h).1
      simp [hself, Nat.add_comm]
    | cons first earlier =>
      obtain ⟨rfl, hrest⟩ := List.cons.inj h
      rw [ih (forall_rest reflexive) hrest, List.countP_filter,
        List.countP_cons_of_neg (by simp [hself])]
      refine List.countP_congr fun v _ => ?_
      simp only [List.any_cons, Bool.and_eq_true, Bool.not_eq_true', Bool.or_eq_false_iff]
      tauto

end

/-- **Values of one kind are counted with every key that is equal to them.** -/
theorem groupsOf_one_kind {k : Number.Kind} (h : ∀ v ∈ values, v.Over (Number.Ordinary k))
    {g : Value × ℕ} (hg : g ∈ groupsOf values) : g.2 = values.countP g.1.eq := by
  have hequiv := Value.partialEquiv_among (N := Number.Ordinary k) (fun _ hn => hn.not_nan)
    (Number.coherent_ordinary k)
  obtain ⟨earlier, later, hsplit⟩ := List.append_of_mem hg
  rw [groupsOf_counted (fun v hv => Value.eq_self ((h v hv).mono fun _ hn => hn.not_nan)) hsplit]
  refine List.countP_congr fun v hv => ?_
  suffices hnone : g.1.eq v = true → (earlier.any fun e => e.1.eq v) = false by
    simpa using hnone
  intro heq
  rw [List.any_eq_false]
  intro e he hother
  -- a key before it that is equal to the value would be equal to the key
  have hkey : ∀ f ∈ groupsOf values, f.1.Over (Number.Ordinary k) := fun f hf =>
    h f.1 (key_mem_of_groupsOf hf)
  have hmem : e ∈ groupsOf values := hsplit ▸ List.mem_append_left _ he
  have hdistinct := groupsOf_distinct values
  rw [hsplit] at hdistinct
  have hne : e.1.eq g.1 = false :=
    (List.pairwise_append.mp hdistinct).2.2 e he g List.mem_cons_self
  have hsame := hequiv.trans (a := ⟨e.1, hkey e hmem⟩) (b := ⟨v, h v hv⟩) (c := ⟨g.1, hkey g hg⟩)
    hother (hequiv.symm heq)
  exact Bool.false_ne_true (hne.symm.trans hsame)

/-- **Values without a not-a-number are counted in groups**, of whatever kinds the numbers are. -/
theorem countsGroups_groupsOf (h : ∀ v ∈ values, v.Over Value.IsNumeric) :
    CountsGroups values (groupsOf values) where
  distinct := (groupsOf_distinct values).imp fun hne => ⟨hne, by rwa [Value.eq_symm]⟩
  appearance earlier g later hsplit := by
    have hdistinct := groupsOf_distinct values
    obtain ⟨before, after, hvalues, hbefore⟩ :=
      groupsOf_appearance (fun v hv => Value.eq_self (h v hv)) hsplit
    rw [hsplit] at hdistinct
    exact ⟨before, after, hvalues, fun e he =>
      (List.pairwise_append.mp hdistinct).2.2 e he g List.mem_cons_self, hbefore⟩
  present v hv := groupsOf_present (fun v hv => Value.eq_self (h v hv)) hv
  counted earlier g later hsplit := groupsOf_counted (fun v hv => Value.eq_self (h v hv)) hsplit
  positive g hg := groupsOf_positive hg
  total := groupsOf_total values
  one_kind k hk g hg := groupsOf_one_kind hk hg

/-! ## The query -/

variable {T : Type} {table : Table T} {q : Query} {field : Text}

/-- **A query that can count by a field**: its filter has a verdict on every row, and every row
that passes has a value in the field, without a not-a-number. -/
structure CanCount (table : Table T) (q : Query) (field : Text) : Prop where
  /-- The query asks for the counts of groups. -/
  operation : q.operation = .countByGroup
  /-- It groups by the field. -/
  groupBy : q.groupBy = some field
  /-- The filter has a verdict. -/
  verdict : ∀ e ∈ table.rows, ∃ verdict, (passes table.bindings q.filter e).outcome = .ok verdict
  /-- The field has a value. -/
  values : HasValues table.bindings (table.wanted q.filter) Value.IsNumeric field
  /-- The number of rows is a word. -/
  words : table.rows.length < 2 ^ 64

/-- **How the rows of a table are counted in groups** by a field. -/
structure CountsRows (table : Table T) (q : Query) (field : Text) (groups : List (Value × ℕ)) :
    Prop where
  /-- The answer lists the groups, each as an object with its key and its count. -/
  answer : (table.scalar q).outcome = .ok (.array (groups.map groupValue))
  /-- The values of the rows that pass are counted in them. -/
  counts : CountsGroups ((table.wanted q.filter).map (valueAt table.bindings field)) groups
  /-- A query how many rows pass the same filter answers the sum of the counts, -/
  count : ∀ c : Query, c.operation = .count → c.filter = q.filter → c.isPortable = true →
    (table.scalar c).outcome = .ok (.size (groups.map Prod.snd).sum)
  /-- which is a word, so that all of them are answered as they are. -/
  words : (groups.map Prod.snd).sum < 2 ^ 64

/-- A filter with a verdict on every row keeps the rows that are wanted. -/
theorem outcome_filtered {c : Query}
    (verdict : ∀ e ∈ table.rows, ∃ verdict,
      (passes table.bindings c.filter e).outcome = .ok verdict) :
    (table.filtered c).outcome = .ok (table.wanted c.filter) :=
  Run.outcome_keep fun e he => Run.outcome_eq_resultD (verdict e he) false

/-- The groups are those of the values of the rows that pass. -/
theorem CanCount.outcome_scalar (h : table.CanCount q field) :
    let values := (table.wanted q.filter).map (valueAt table.bindings field)
    (table.scalar q).outcome = q.reply (.ok (.array ((groupsOf values).map groupValue))) := by
  have hcolumn : (column table.bindings field (table.wanted q.filter)).outcome
      = .ok ((table.wanted q.filter).map (valueAt table.bindings field)) :=
    Run.outcome_each fun e he => h.values.outcome_valueOf he
  unfold scalar
  rw [outcome_announce_bind, Run.outcome_bind_ok (outcome_filtered h.verdict), h.operation]
  unfold requireGroupBy
  rw [h.groupBy]
  exact congrArg q.reply (Run.outcome_bind_ok hcolumn _)

/-- The answer to a query that can be written down counts the rows that pass. -/
theorem CanCount.exists_groups (h : table.CanCount q field) (hportable : q.isPortable = true) :
    ∃ groups, table.CountsRows q field groups := by
  have hcounts := countsGroups_groupsOf (List.forall_mem_map.mpr fun e he => h.values.over he)
  have hlength : ((groupsOf ((table.wanted q.filter).map
      (valueAt table.bindings field))).map Prod.snd).sum = (table.wanted q.filter).length := by
    rw [hcounts.total, List.length_map]
  refine ⟨_, h.outcome_scalar.trans (Query.reply_of_isPortable hportable _), hcounts,
    fun c hoperation hfilter hc => ?_, ?_⟩
  · unfold scalar
    rw [outcome_announce_filtered hc (outcome_filtered (hfilter ▸ h.verdict)), hoperation, hlength,
      hfilter]
    rfl
  · rw [hlength]
    exact (List.length_filter_le _ _).trans_lt h.words

/-- Three whole numbers, of which the one in the middle, a floating-point number, equals both
others. -/
def neighbours : Table Value where
  rows := [.int 9007199254740993, .float (.ofInt .double 9007199254740992),
    .int 9007199254740992]
  bindings := .bind {} Value.itself

/-- A query that groups values by themselves. -/
def neighbourQuery : Query where
  operation := .countByGroup
  groupBy := some Value.itself.name

end Table

end Criteria
