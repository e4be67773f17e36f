import Criteria.Proofs.RemoteSelection
import Criteria.Proofs.ValueOrder

/-!
# Values as sort keys

A field may hold values as such. In memory they are compared by the order of values, and a
table compares them by the comparison of descriptions. The two take numbers, strings and what is
in arrays and objects alike, but rank three of the kinds in opposite ways: the order of values
has objects before arrays and those before strings, and descriptions have strings first.

So two values compare alike up to the place that tells them apart. If they have two of these
three kinds there, they `clash`, and the one comparison is the other turned round
(`Value.threeWay_lt_eq`). Where no two of the values in question clash, a query that sorts by
them gives the list that sorting in memory gives (`RemoteEvaluator.all_eq_of_unopposed`). A
string and an array are enough to see that it does not in general.
-/

namespace Criteria

variable {T : Type}

namespace Value

/-! ## Clashes -/

/-- The kinds that are ranked in two ways. -/
def Kind.isLate : Kind → Bool
  | .null | .bool | .number => false
  | .string | .array | .object => true

/-- Whether two kinds are ranked in opposite ways. -/
def Kind.clashes (k l : Kind) : Bool := decide (k ≠ l) && k.isLate && l.isLate

mutual

/-- **Whether two values clash**: at the first place that tells them apart they are of two kinds
that are ranked in opposite ways. -/
def clashes : Value → Value → Bool
  | .array xs, .array ys => clashElements xs ys
  | .object ms, .object ns => clashMembers ms ns
  | a, b => a.kind.clashes b.kind

/-- Whether the first elements that differ clash. -/
def clashElements : List Value → List Value → Bool
  | x :: xs, y :: ys => if x.compare y = .eq then clashElements xs ys else clashes x y
  | _, _ => false

/-- Whether the first members that differ clash. -/
def clashMembers : List (Text × Value) → List (Text × Value) → Bool
  | (k, x) :: ms, (l, y) :: ns =>
    decide (k = l) && if x.compare y = .eq then clashMembers ms ns else clashes x y
  | _, _ => false

end

/-- **Two answers to one question** agree, or else they differ and are opposite. -/
def Agree (opposite : Bool) (p q : Ordering) : Prop :=
  p = (if opposite then q.swap else q) ∧ (opposite = true → q ≠ .eq)

theorem agree_self (p : Ordering) : Agree false p p := ⟨rfl, fun h => nomatch h⟩

/-- Of two questions the second one is asked where the first one ties. -/
theorem Agree.andThen {s t : Bool} {p q p' q' : Ordering} (h : Agree s p q) (h' : Agree t p' q') :
    Agree (if q = .eq then t else s) (p.then p') (q.then q') := by
  obtain ⟨rfl, hs⟩ := h
  by_cases hq : q = .eq
  · subst hq
    have hfalse : s = false := Bool.eq_false_iff.mpr fun hs' => hs hs' rfl
    rw [hfalse]
    exact h'
  · rw [if_neg hq]
    have hthen : q.then q' = q := by
      cases q with
      | eq => exact absurd rfl hq
      | _ => rfl
    have hswap : ∀ r : Ordering, (if s then q.swap else q).then r = if s then q.swap else q := by
      intro r
      cases q with
      | eq => exact absurd rfl hq
      | _ => cases s <;> rfl
    rw [hthen, hswap]
    exact ⟨rfl, hs⟩

/-- The ranks of two kinds agree unless these clash. -/
theorem agree_rank (k l : Kind) :
    Agree (k.clashes l)
      (threeWay (fun m n => decide (m < n)) (nativeRank k) (nativeRank l))
      (threeWay (fun m n => decide (m < n)) (describedRank k) (describedRank l)) := by
  cases k <;> cases l <;> exact ⟨rfl, by decide⟩

/-- Arrays agree as their elements do. -/
theorem agree_compareElements {xs ys : List Value}
    (h : ∀ x ∈ xs, ∀ y, Agree (x.clashes y) (compareBy nativeRank x y) (x.compare y)) :
    Agree (clashElements xs ys) (compareElements nativeRank xs ys)
      (compareElements describedRank xs ys) := by
  induction xs generalizing ys with
  | nil => cases ys <;> exact agree_self _
  | cons x xs ih =>
    cases ys with
    | nil => exact agree_self _
    | cons y ys =>
      exact (h x List.mem_cons_self y).andThen (ih fun u hu => h u (List.mem_cons_of_mem x hu))

/-- Objects agree as their members do, which clash only under one key. -/
theorem agree_compareMembers {ms ns : List (Text × Value)}
    (h : ∀ m ∈ ms, ∀ y, Agree (m.2.clashes y) (compareBy nativeRank m.2 y) (m.2.compare y)) :
    Agree (clashMembers ms ns) (compareMembers nativeRank ms ns)
      (compareMembers describedRank ms ns) := by
  induction ms generalizing ns with
  | nil => cases ns <;> exact agree_self _
  | cons m ms ih =>
    cases ns with
    | nil => exact agree_self _
    | cons n ns =>
      obtain ⟨k, x⟩ := m
      obtain ⟨l, y⟩ := n
      have hrest : Agree (clashMembers ms ns) _ _ :=
        ih fun u hu => h u (List.mem_cons_of_mem (k, x) hu)
      have hagree := (agree_self (threeWay Text.lt k l)).andThen
        ((h (k, x) List.mem_cons_self y).andThen hrest)
      have hclash : clashMembers ((k, x) :: ms) ((l, y) :: ns)
          = if threeWay Text.lt k l = .eq then
              if x.compare y = .eq then clashMembers ms ns else x.clashes y
            else false := by
        show (decide (k = l) && _) = _
        by_cases hkl : k = l
        · rw [decide_eq_true hkl, Bool.true_and, if_pos ((threeWay_text_eq_iff k l).mpr hkl)]
        · rw [decide_eq_false hkl, Bool.false_and,
            if_neg fun heq => hkl ((threeWay_text_eq_iff k l).mp heq)]
      rw [hclash]
      exact hagree

/-- Values of two kinds agree unless these clash. -/
theorem agree_of_kind_ne {a b : Value} (h : a.kind ≠ b.kind) :
    Agree (a.clashes b) (compareBy nativeRank a b) (a.compare b) := by
  have hclash : a.clashes b = a.kind.clashes b.kind := by
    cases a <;> cases b <;> first | rfl | exact absurd rfl h
  rw [hclash, Value.compare, compareBy_of_kind_ne h, compareBy_of_kind_ne h]
  exact agree_rank a.kind b.kind

/-- **The two comparisons of values** agree, or are opposite where the values clash. -/
theorem agree_compareBy (a b : Value) :
    Agree (a.clashes b) (compareBy nativeRank a b) (a.compare b) := by
  induction over_true a generalizing b with
  | array _ ih =>
    cases b with
    | array ys => exact agree_compareElements ih
    | _ => exact agree_of_kind_ne fun h => nomatch h
  | object _ ih =>
    cases b with
    | object ns => exact agree_compareMembers ih
    | _ => exact agree_of_kind_ne fun h => nomatch h
  | null =>
    cases b with
    | null => exact agree_self _
    | _ => exact agree_of_kind_ne fun h => nomatch h
  | bool x =>
    cases b with
    | bool y => exact agree_self _
    | _ => exact agree_of_kind_ne fun h => nomatch h
  | @number m =>
    cases b with
    | number n => exact agree_self _
    | _ => exact agree_of_kind_ne fun h => nomatch h
  | string s =>
    cases b with
    | string t => exact agree_self _
    | _ => exact agree_of_kind_ne fun h => nomatch h

/-- **As sort keys** values compare as by their comparison, unless they clash. -/
theorem threeWay_lt_eq (a b : Value) :
    threeWay lt a b = (if a.clashes b then (a.compare b).swap else a.compare b) ∧
      (a.clashes b = true → a.compare b ≠ .eq) := by
  have hnative : threeWay lt a b = compareBy nativeRank a b := by
    unfold threeWay lt
    rw [compareBy_swap a b]
    cases compareBy nativeRank a b <;> rfl
  rw [hnative]
  exact agree_compareBy a b

example : clashes (.array [.int 1, .string "b"]) (.array [.int 1, .array []]) = true := by decide

end Value

/-! ## Sorting by a field of values -/

namespace Table

variable {table : Table T} {f : Field T .value}

/-- **A field of values that a table sorts by**: it is bound, and every row has a value, with
numbers that have a property. -/
structure KeyedByValue (table : Table T) (f : Field T .value) (N : Number → Prop) : Prop where
  /-- The table binds the field. -/
  binds : table.Binds f
  /-- Every row has a value. -/
  value : ∀ e ∈ table.rows, ∃ v, (f.getter e).outcome = .ok v ∧ v.Over N

/-- **No two rows clash** in a field. -/
def Unopposed (table : Table T) (f : Field T .value) : Prop :=
  ∀ a ∈ table.rows, ∀ b ∈ table.rows, ∀ u w, (f.getter a).outcome = .ok u →
    (f.getter b).outcome = .ok w → u.clashes w = false

/-- In memory the values are compared by the order of values. -/
theorem outcome_compare_ofField {a b : T} {u w : Value} (hu : (f.getter a).outcome = .ok u)
    (hw : (f.getter b).outcome = .ok w) (direction : Direction) :
    ((SortKey.ofField f direction).compare a b).outcome
      = .ok (direction.apply (threeWay Value.lt u w)) :=
  Run.outcome_bind_ok (SortKey.outcome_compareVia hu hw) _

/-- A table reads the values themselves, -/
theorem Binds.outcome_valueOf (hf : table.Binds f) {e : T} {v : Value}
    (hv : (f.getter e).outcome = .ok v) :
    (table.bindings.valueOf e f.name).outcome = .ok v := by
  rw [hf.valueOf]
  exact Run.outcome_bind_ok hv _

/-- and compares them by the comparison of descriptions. -/
theorem Binds.outcome_compareBy (hf : table.Binds f) {a b : T} {u w : Value}
    (hu : (f.getter a).outcome = .ok u) (hw : (f.getter b).outcome = .ok w)
    (direction : Direction) :
    (compareBy table.bindings [⟨f.name, direction⟩] a b).outcome
      = .ok (direction.apply (u.compare w)) := by
  unfold compareBy
  rw [Run.outcome_bind_ok (hf.outcome_valueOf hu), Run.outcome_bind_ok (hf.outcome_valueOf hw)]
  show (if direction.apply (u.compare w) = .eq then _ else _ : Run Ordering).outcome = _
  rw [SortOrder.outcome_then _ rfl, Ordering.then_eq]

/-- **Rows that do not clash** are arranged in one way. -/
theorem KeyedByValue.exists_arrangement {N : Number → Prop} (h : table.KeyedByValue f N)
    (hN : Number.Coherent N) (hf : table.Unopposed f) (direction : Direction) :
    ∃ c, table.Arrangement (some (SortOrder.unordered.thenBy f direction))
      [⟨f.name, direction⟩] c := by
  have hvalues : ∀ field ∈ [SortField.mk f.name direction],
      HasValues table.bindings table.rows N field.field := by
    intro field hfield e he
    obtain rfl := List.mem_singleton.mp hfield
    obtain ⟨v, hv, hover⟩ := h.value e he
    exact ⟨v, h.binds.outcome_valueOf hv, hover⟩
  obtain ⟨c, htotal, hnamed⟩ := exists_comparison_of_values hN _ hvalues
  refine ⟨c, htotal, rfl, fun o ho a ha b hb => ?_, (fun hnone => nomatch hnone), hnamed⟩
  cases ho
  obtain ⟨u, hu, -⟩ := h.value a ha
  obtain ⟨w, hw, -⟩ := h.value b hb
  -- the comparison by name tells what the comparison is
  have hc := (hnamed a ha b hb).symm.trans (h.binds.outcome_compareBy hu hw direction)
  rw [hc]
  refine SortOrder.outcome_compareByKeys_single ?_
  have hagree := (Value.threeWay_lt_eq u w).1
  rw [hf a ha b hb u w hu hw] at hagree
  rw [outcome_compare_ofField hu hw, hagree]
  rfl

end Table

namespace RemoteEvaluator

/-- **Sorting by values** in memory and by a query. For any two values the one comparison is the
other, or it is the other turned round and they differ, which is the case exactly for values
that clash. If no two rows clash, both ways give the same list: the one that is sorted in memory
is the reply to the query. -/
theorem all_eq_of_unopposed {table : Table T} {p : Predicate T} {f : Field T .value}
    {k : Number.Kind} (serves : table.Serves p)
    (keyed : table.KeyedByValue f (Number.Ordinary k)) (direction : Direction) :
    (∀ a b u w, (f.getter a).outcome = .ok u → (f.getter b).outcome = .ok w →
      ∃ native described,
        ((SortKey.ofField f direction).compare a b).outcome = .ok native ∧
        (Table.compareBy table.bindings [⟨f.name, direction⟩] a b).outcome = .ok described ∧
        (native = described ↔ u.clashes w = false) ∧
        (u.clashes w = true → native = described.swap)) ∧
    (table.Unopposed f → ∀ (source : Text) (negate : Bool) (limits : Limits), ∃ q : Query,
      ((querying table source p negate limits).describeAll
          (some (SortOrder.unordered.thenBy f direction))).outcome = .ok q ∧
      (source.isUtf8 = true → p.IsPortable → f.name.isUtf8 = true → q.isPortable = true) ∧
      ((querying table source p negate limits).all
          (some (SortOrder.unordered.thenBy f direction))).outcome
        = q.reply ((Evaluator.mk p negate limits).all table.rows
            (some (SortOrder.unordered.thenBy f direction))).outcome) := by
  constructor
  · intro a b u w hu hw
    refine ⟨_, _, Table.outcome_compare_ofField hu hw direction,
      keyed.binds.outcome_compareBy hu hw direction, ?_⟩
    obtain ⟨hagree, hne⟩ := Value.threeWay_lt_eq u w
    rw [hagree]
    cases hclash : u.clashes w with
    | false => exact ⟨iff_of_true rfl rfl, fun h => nomatch h⟩
    | true =>
      have hne := hne hclash
      rw [if_pos rfl]
      cases ho : u.compare w with
      | eq => exact absurd ho hne
      | _ => cases direction <;> decide
  · intro unopposed source negate limits
    obtain ⟨c, ho⟩ :=
      keyed.exists_arrangement (Number.coherent_ordinary k) unopposed direction
    obtain ⟨q, hquery, hportable, hreply⟩ :=
      exists_reply serves ho source negate limits negate none none
    refine ⟨q, hquery, fun hsource hp hname => hportable hsource hp ?_, hreply.trans ?_⟩
    · exact List.forall_mem_singleton.mpr hname
    · exact congrArg q.reply
        (Evaluator.outcome_select_passed serves.decides ho.ranks negate limits).symm

/-- A table of values, sorted by these. -/
abbrev valueTable (rows : List Value) : Table Value := ⟨rows, .bind {} Value.itself⟩

/-- Every predicate without conditions is served. -/
theorem serves_always (rows : List Value) : (valueTable rows).Serves .always where
  described := rfl
  decides _ _ := ⟨true, rfl⟩
  shares _ _ h := nomatch h

/-- The predicate without conditions can be written down. -/
theorem isPortable_always : (Predicate.always : Predicate Value).IsPortable :=
  fun _ _ h => nomatch h

/-- Values whose numbers are signed integers. -/
def nestedValues : List Value :=
  [.array [.string "b"], .null, .array [.int 1], .int 7]

theorem nestedValues_keyed :
    (valueTable nestedValues).KeyedByValue Value.itself (Number.Ordinary .signed) where
  binds := rfl
  value e he := by
    have hint (n : Int64) : (Value.int n).Over (Number.Ordinary .signed) :=
      .number ⟨rfl, fun _ h => nomatch h⟩
    refine ⟨e, rfl, ?_⟩
    simp only [nestedValues, List.mem_cons, List.not_mem_nil, or_false] at he
    rcases he with rfl | rfl | rfl | rfl
    · exact .array (List.forall_mem_singleton.mpr (.string "b"))
    · exact .null
    · exact .array (List.forall_mem_singleton.mpr (hint 1))
    · exact hint 7

theorem nestedValues_unopposed : (valueTable nestedValues).Unopposed Value.itself := by
  have hclash : ∀ a ∈ nestedValues, ∀ b ∈ nestedValues, a.clashes b = false := by decide
  rintro a ha b hb u w ⟨⟩ ⟨⟩
  exact hclash a ha b hb

/-- Sorting nested values in memory and by a query. -/
theorem all_eq_of_unopposed_nested :
    (valueTable nestedValues).Serves .always ∧
      (valueTable nestedValues).KeyedByValue Value.itself (Number.Ordinary .signed) ∧
      (valueTable nestedValues).Unopposed Value.itself ∧
      ((querying (valueTable nestedValues) "values" .always false {}).all
          (some (SortOrder.unordered.thenBy Value.itself .descending))).outcome
        = ((Evaluator.mk .always false {}).all nestedValues
            (some (SortOrder.unordered.thenBy Value.itself .descending))).outcome := by
  obtain ⟨q, -, hportable, hreply⟩ :=
    (all_eq_of_unopposed (serves_always _) nestedValues_keyed .descending).2
      nestedValues_unopposed "values" false {}
  rw [Query.reply_of_isPortable (hportable (Text.isUtf8_ofString _) isPortable_always
    (Text.isUtf8_ofString _))] at hreply
  exact ⟨serves_always _, nestedValues_keyed, nestedValues_unopposed, hreply⟩

/-- **A string and an array** are sorted in two ways. -/
theorem not_all_eq_of_keyed :
    ¬ ∀ (table : Table Value) (p : Predicate Value) (f : Field Value .value) (k : Number.Kind),
        table.Serves p → table.KeyedByValue f (Number.Ordinary k) → p.IsPortable →
        f.name.isUtf8 = true →
        ((querying table "values" p false {}).all
            (some (SortOrder.unordered.thenBy f .ascending))).outcome
          = ((Evaluator.mk p false {}).all table.rows
              (some (SortOrder.unordered.thenBy f .ascending))).outcome := by
  intro same
  have hkeyed : (valueTable [.string "a", .array []]).KeyedByValue Value.itself
      (Number.Ordinary .signed) := by
    refine ⟨rfl, fun e he => ⟨e, rfl, ?_⟩⟩
    rcases List.mem_pair.mp he with rfl | rfl
    · exact .string "a"
    · exact .array (List.forall_mem_nil _)
  have hsame := same _ .always Value.itself .signed (serves_always _) hkeyed isPortable_always
    (Text.isUtf8_ofString _)
  have hquery : ((querying (valueTable [.string "a", .array []]) "values" .always false {}).all
      (some (SortOrder.unordered.thenBy Value.itself .ascending))).outcome
        = .ok [.string "a", .array []] := rfl
  have hmemory : ((Evaluator.mk .always false {}).all [.string "a", .array []]
      (some (SortOrder.unordered.thenBy Value.itself .ascending))).outcome
        = .ok [.array [], .string "a"] := rfl
  cases (hquery.symm.trans hsame).trans hmemory

end RemoteEvaluator

end Criteria
