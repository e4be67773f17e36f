import Criteria.Proofs.Description

/-!
# Only demanded leaves run

Testing a tree invokes some of its leaves and not others. The run of a test does not say
which, since a leaf may run without an event, so the question is put to the tree with a mark
before every leaf (`Node.marked`): whatever the marks are, those that the run shows are the
marks of the leaves in `Node.invoked`, each before the events of its leaf.

A leaf is there known by its position among the leaves in written order, since one leaf may
stand in a tree more than once. Which positions are invoked is said by `Node.Reached`, without
going through the tree: the first entry of a group is reached with the group, and a later one
if its connective is "and" and the group of the entries before it is true, or "or" and that
group is false.

What is not invoked does not matter, so any leaf there may be replaced by any other one. A
leaf that fails is the last one invoked. Both are about leaves deep inside nested groups, and
both follow from one induction that exchanges the leaves of a tree for others with the same
outcomes where it matters (`Node.test_mapLeaves`).
-/

namespace Criteria

variable {T : Type}

namespace Connective

/-- **Whether a connective asks for the next entry** of a group, after what the entries before
it came to. After a fault nothing is asked for. -/
def asks (c : Connective) : Except Fault Bool → Bool
  | .ok verdict => c.demands verdict
  | .error _ => false

theorem asks_iff {c : Connective} {before : Except Fault Bool} :
    c.asks before = true ↔ c = .and ∧ before = .ok true ∨ c = .or ∧ before = .ok false := by
  cases before with
  | error fault => simp [asks]
  | ok verdict => cases c <;> cases verdict <;> simp [asks, demands]

end Connective

namespace Node

/-! ## Exchanging leaves -/

mutual

/-- **The tree with other leaves**, from the leaf in each place and its position in written
order, the first one being at `i`. -/
def mapLeaves (f : Nat → Leaf T → Leaf T) (i : Nat) : Node T → Node T
  | .leaf l => .leaf (f i l)
  | .empty => .empty
  | .group first rest => .group (mapLeaves f i first) (mapRest f (i + first.leaves.length) rest)

/-- The later nodes of a group with other leaves. -/
def mapRest (f : Nat → Leaf T → Leaf T) (i : Nat) :
    List (Connective × Node T) → List (Connective × Node T)
  | [] => []
  | (c, n) :: rest => (c, mapLeaves f i n) :: mapRest f (i + n.leaves.length) rest

end

/-- **The tree with a leaf replaced**, by its position. -/
def replaceLeaf (n : Node T) (position : Nat) (l : Leaf T) : Node T :=
  n.mapLeaves (fun i old => if i = position then l else old) 0

mutual

/-- The leaves are exchanged one by one. -/
theorem leaves_mapLeaves (f : Nat → Leaf T → Leaf T) (i : Nat) (n : Node T) :
    (n.mapLeaves f i).leaves = (n.leaves.zipIdx i).map fun x => f x.2 x.1 := by
  match n with
  | .leaf l => rfl
  | .empty => rfl
  | .group first rest =>
    rw [mapLeaves, leaves, leaves, List.zipIdx_append, List.map_append, leaves_mapLeaves,
      restLeaves_mapRest]

theorem restLeaves_mapRest (f : Nat → Leaf T → Leaf T) (i : Nat)
    (rest : List (Connective × Node T)) :
    restLeaves (mapRest f i rest) = ((restLeaves rest).zipIdx i).map fun x => f x.2 x.1 := by
  match rest with
  | [] => rfl
  | (c, n) :: rest =>
    rw [mapRest, restLeaves, restLeaves, List.zipIdx_append, List.map_append, leaves_mapLeaves,
      restLeaves_mapRest]

end

theorem length_leaves_mapLeaves (f : Nat → Leaf T → Leaf T) (i : Nat) (n : Node T) :
    (n.mapLeaves f i).leaves.length = n.leaves.length := by
  rw [leaves_mapLeaves, List.length_map, List.length_zipIdx]

/-- Replacing a leaf replaces it among the leaves. -/
theorem leaves_replaceLeaf (n : Node T) (position : Nat) (l : Leaf T) :
    (n.replaceLeaf position l).leaves = n.leaves.set position l := by
  rw [replaceLeaf, leaves_mapLeaves]
  refine List.ext_getElem? fun i => ?_
  rw [List.getElem?_map, List.getElem?_zipIdx, List.getElem?_set]
  cases hi : n.leaves[i]? with
  | none =>
    have hlength := List.getElem?_eq_none_iff.mp hi
    split
    · rename_i heq
      rw [if_neg (by omega)]
      rfl
    · rfl
  | some old =>
    have hlength : i < n.leaves.length := (List.getElem?_eq_some_iff.mp hi).1
    by_cases heq : position = i
    · simp [heq, hlength]
    · simp [heq, Ne.symm heq]

mutual

theorem mapLeaves_self (i : Nat) (n : Node T) : n.mapLeaves (fun _ l => l) i = n := by
  match n with
  | .leaf l => rfl
  | .empty => rfl
  | .group first rest => rw [mapLeaves, mapLeaves_self, mapRest_self]

theorem mapRest_self (i : Nat) (rest : List (Connective × Node T)) :
    mapRest (fun _ l => l) i rest = rest := by
  match rest with
  | [] => rfl
  | (c, n) :: rest => rw [mapRest, mapLeaves_self, mapRest_self]

end

/-! ## The leaves that are invoked -/

mutual

/-- **The leaves that testing invokes**, in sequence, each with its position, the first leaf of
the node being at `i`. -/
def invokedFrom (i : Nat) (n : Node T) (e : T) : List (Leaf T × Nat) :=
  match n with
  | .leaf l => [(l, i)]
  | .empty => []
  | .group first rest =>
    invokedFrom i first e
      ++ invokedRest (i + first.leaves.length) rest e (first.test e).outcome

/-- The leaves of the later nodes of a group that testing invokes, after what the nodes before
came to. -/
def invokedRest (i : Nat) (rest : List (Connective × Node T)) (e : T)
    (before : Except Fault Bool) : List (Leaf T × Nat) :=
  match rest with
  | [] => []
  | (c, n) :: rest =>
    if c.asks before then
      invokedFrom i n e ++ invokedRest (i + n.leaves.length) rest e (n.test e).outcome
    else invokedRest (i + n.leaves.length) rest e before

end

/-- **The leaves that testing invokes**, in sequence, each with its position among the leaves
of the tree. -/
def invoked (n : Node T) (e : T) : List (Leaf T × Nat) := n.invokedFrom 0 e

mutual

/-- Leaves are invoked once at most, and in written order. -/
theorem invokedFrom_sublist (i : Nat) (n : Node T) (e : T) :
    (n.invokedFrom i e).Sublist (n.leaves.zipIdx i) := by
  match n with
  | .leaf l => exact List.Sublist.refl _
  | .empty => exact List.Sublist.refl _
  | .group first rest =>
    rw [invokedFrom, leaves, List.zipIdx_append]
    exact (invokedFrom_sublist i first e).append (invokedRest_sublist _ rest e _)

theorem invokedRest_sublist (i : Nat) (rest : List (Connective × Node T)) (e : T)
    (before : Except Fault Bool) :
    (invokedRest i rest e before).Sublist ((restLeaves rest).zipIdx i) := by
  match rest with
  | [] => exact List.Sublist.refl _
  | (c, n) :: rest =>
    rw [invokedRest, restLeaves, List.zipIdx_append]
    split
    · exact (invokedFrom_sublist i n e).append (invokedRest_sublist _ rest e _)
    · exact (invokedRest_sublist _ rest e before).trans (List.sublist_append_right _ _)

end

/-- After a fault no leaf is invoked. -/
theorem invokedRest_error (i : Nat) (rest : List (Connective × Node T)) (e : T) (fault : Fault) :
    invokedRest i rest e (.error fault) = [] := by
  induction rest generalizing i with
  | nil => rfl
  | cons entry rest ih => exact ih _

/-! ## What one more entry comes to -/

/-- The run of a group after one more entry, which is tested if it is asked for. -/
def extend (x : Run Bool) (c : Connective) (n : Node T) (e : T) : Run Bool :=
  x >>= fun verdict => if c.demands verdict then n.test e else .done verdict

theorem extend_of_asks {x : Run Bool} {c : Connective} (h : c.asks x.outcome = true)
    (n : Node T) (e : T) :
    extend x c n e = ⟨x.events ++ (n.test e).events, (n.test e).outcome⟩ := by
  show Run.andThen x _ = _
  unfold Run.andThen
  cases hx : x.outcome with
  | error fault =>
    rw [hx] at h
    cases h
  | ok verdict =>
    rw [hx] at h
    have hdemands : c.demands verdict = true := h
    simp only [hdemands, if_true]

theorem extend_of_not_asks {x : Run Bool} {c : Connective} (h : ¬ c.asks x.outcome = true)
    (n : Node T) (e : T) : extend x c n e = x := by
  have hskip : extend x c n e = x >>= Run.done := Run.bind_congr_of_ok fun verdict hx => by
    rw [hx] at h
    exact if_neg h
  rw [hskip, Run.bind_done]

theorem outcome_extend (x : Run Bool) (c : Connective) (n : Node T) (e : T) :
    (extend x c n e).outcome = if c.asks x.outcome then (n.test e).outcome else x.outcome := by
  split
  · rename_i h
    rw [extend_of_asks h]
  · rename_i h
    rw [extend_of_not_asks h]

/-- The later nodes of a group are invoked as after what the next entry comes to. -/
theorem invokedRest_cons (i : Nat) (c : Connective) (n : Node T)
    (rest : List (Connective × Node T)) (e : T) (x : Run Bool) :
    invokedRest i ((c, n) :: rest) e x.outcome
      = (if c.asks x.outcome then invokedFrom i n e else [])
        ++ invokedRest (i + n.leaves.length) rest e (extend x c n e).outcome := by
  rw [invokedRest, outcome_extend]
  split <;> rfl

/-- A group with one more entry. -/
theorem test_group_concat (first : Node T) (before : List (Connective × Node T))
    (c : Connective) (n : Node T) (e : T) :
    (group first (before ++ [(c, n)])).test e = extend ((group first before).test e) c n e := by
  have hrest (x : Run Bool) : x >>= testRest (before ++ [(c, n)]) e
      = extend (x >>= testRest before e) c n e := by
    induction before generalizing x with
    | nil =>
      rw [List.nil_append, bind_testRest_cons, bind_testRest_nil, bind_testRest_nil]
      rfl
    | cons entry before ih => rw [List.cons_append, bind_testRest_cons, ih, bind_testRest_cons]
  exact hrest (first.test e)

/-! ## Which leaves are invoked -/

/-- **A leaf that evaluation comes to**, by its position, the first leaf of the node being at
`i`. -/
inductive Reached (e : T) : Nat → Node T → Leaf T → Nat → Prop
  /-- A leaf is reached with itself. -/
  | leaf (i : Nat) (l : Leaf T) : Reached e i (.leaf l) l i
  /-- The first entry of a group is evaluated with the group. -/
  | first {i j : Nat} {first : Node T} {rest : List (Connective × Node T)} {l : Leaf T} :
    Reached e i first l j → Reached e i (.group first rest) l j
  /-- A later entry is evaluated if it is joined by "and" and the entries before it are true so
  far, or by "or" and they are false. -/
  | later {i j : Nat} {first n : Node T} {before after : List (Connective × Node T)}
    {c : Connective} {l : Leaf T} :
    (c = .and ∧ ((group first before).test e).outcome = .ok true ∨
      c = .or ∧ ((group first before).test e).outcome = .ok false) →
    Reached e (i + (group first before).leaves.length) n l j →
    Reached e i (.group first (before ++ (c, n) :: after)) l j

theorem length_leaves_group_concat (first : Node T) (before : List (Connective × Node T))
    (c : Connective) (n : Node T) :
    (group first (before ++ [(c, n)])).leaves.length
      = (group first before).leaves.length + n.leaves.length := by
  have hrest : restLeaves (before ++ [(c, n)]) = restLeaves before ++ n.leaves := by
    induction before with
    | nil => exact List.append_nil _
    | cons entry before ih =>
      rw [List.cons_append, restLeaves, ih, restLeaves, List.append_assoc]
  rw [leaves, hrest, leaves, List.length_append, List.length_append, List.length_append,
    Nat.add_assoc]

mutual

/-- What is invoked is reached. -/
theorem reached_of_mem {e : T} {i j : Nat} {l : Leaf T} (n : Node T)
    (h : (l, j) ∈ n.invokedFrom i e) : Reached e i n l j := by
  match n with
  | .leaf m =>
    cases List.mem_singleton.mp h
    exact .leaf i l
  | .empty => cases h
  | .group first rest =>
    rcases List.mem_append.mp h with h | h
    · exact .first (reached_of_mem first h)
    · refine reached_of_mem_rest first [] rest ?_
      have hfirst : (group first []).test e = first.test e := Run.bind_done _
      rw [hfirst, leaves, restLeaves, List.append_nil]
      exact h

/-- What is invoked of the later nodes of a group is reached, after those before. -/
theorem reached_of_mem_rest {e : T} {i j : Nat} {l : Leaf T} (first : Node T)
    (before rest : List (Connective × Node T))
    (h : (l, j) ∈ invokedRest (i + (group first before).leaves.length) rest e
      ((group first before).test e).outcome) :
    Reached e i (.group first (before ++ rest)) l j := by
  match rest with
  | [] => cases h
  | (c, n) :: rest =>
    rw [invokedRest_cons, List.mem_append] at h
    rcases h with h | h
    · split at h
      · rename_i hasks
        exact .later (Connective.asks_iff.mp hasks) (reached_of_mem n h)
      · cases h
    · rw [List.append_cons]
      refine reached_of_mem_rest first (before ++ [(c, n)]) rest ?_
      rwa [test_group_concat, length_leaves_group_concat, ← Nat.add_assoc]

end

/-- The later nodes of a group are invoked from the left. -/
theorem invokedRest_append (i : Nat) (before rest : List (Connective × Node T)) (e : T)
    (x : Run Bool) :
    invokedRest i (before ++ rest) e x.outcome
      = invokedRest i before e x.outcome
        ++ invokedRest (i + (restLeaves before).length) rest e
          (x >>= testRest before e).outcome := by
  induction before generalizing i x with
  | nil =>
    rw [bind_testRest_nil]
    rfl
  | cons entry before ih =>
    rw [List.cons_append, invokedRest_cons, ih, invokedRest_cons, bind_testRest_cons, restLeaves,
      List.length_append, List.append_assoc, Nat.add_assoc]
    rfl

/-- **What is invoked is what is reached.** -/
theorem mem_invokedFrom_iff {e : T} {i j : Nat} {n : Node T} {l : Leaf T} :
    (l, j) ∈ n.invokedFrom i e ↔ Reached e i n l j := by
  refine ⟨reached_of_mem n, fun h => ?_⟩
  induction h with
  | leaf i l => exact List.mem_singleton_self _
  | first _ ih => exact List.mem_append_left _ ih
  | @later i j first n before after c l hasked _ ih =>
    rw [invokedFrom, invokedRest_append]
    refine List.mem_append_right _ (List.mem_append_right _ ?_)
    have hasks : c.asks (first.test e >>= testRest before e).outcome = true :=
      Connective.asks_iff.mpr hasked
    rw [invokedRest_cons, if_pos hasks, Nat.add_assoc, ← List.length_append]
    exact List.mem_append_left _ ih

/-! ## What is not invoked does not matter -/

section

variable {f : Nat → Leaf T → Leaf T} {e : T}

/-- The events of leaves, in sequence, after they are exchanged. -/
def eventsOf (f : Nat → Leaf T → Leaf T) (e : T) (ls : List (Leaf T × Nat)) : List Event :=
  ls.flatMap fun x => ((f x.2 x.1).test e).events

theorem eventsOf_append (ls ms : List (Leaf T × Nat)) :
    eventsOf f e (ls ++ ms) = eventsOf f e ls ++ eventsOf f e ms := List.flatMap_append

mutual

/-- **Exchanging the leaves** of a tree for others that come to the same, as far as they are
invoked, keeps what the tree comes to; its run consists of the runs of the new leaves in the
places of those that were invoked. -/
theorem test_mapLeaves (i : Nat) (n : Node T)
    (h : ∀ x ∈ n.invokedFrom i e, ((f x.2 x.1).test e).outcome = (x.1.test e).outcome) :
    (n.mapLeaves f i).test e = ⟨eventsOf f e (n.invokedFrom i e), (n.test e).outcome⟩ := by
  match n with
  | .leaf l =>
    have hl : ((f i l).test e).outcome = (l.test e).outcome := h (l, i) (List.mem_singleton_self _)
    show (f i l).test e = ⟨((f i l).test e).events ++ [], (l.test e).outcome⟩
    rw [List.append_nil, ← hl]
  | .empty => rfl
  | .group first rest =>
    have hfirst := test_mapLeaves i first fun x hx => h x (List.mem_append_left _ hx)
    have hrest := bind_testRest_mapRest (i + first.leaves.length) rest
      ((first.mapLeaves f i).test e) (first.test e) (by rw [hfirst])
      fun x hx => h x (List.mem_append_right _ hx)
    show (first.mapLeaves f i).test e >>= testRest _ e = _
    rw [hrest, hfirst, invokedFrom, eventsOf_append]
    rfl

/-- The same for going on through the later nodes of a group, after runs that came to the
same. -/
theorem bind_testRest_mapRest (i : Nat) (rest : List (Connective × Node T)) (y x : Run Bool)
    (hyx : y.outcome = x.outcome)
    (h : ∀ a ∈ invokedRest i rest e x.outcome,
      ((f a.2 a.1).test e).outcome = (a.1.test e).outcome) :
    y >>= testRest (mapRest f i rest) e
      = ⟨y.events ++ eventsOf f e (invokedRest i rest e x.outcome),
          (x >>= testRest rest e).outcome⟩ := by
  match rest with
  | [] =>
    rw [mapRest, bind_testRest_nil, bind_testRest_nil, ← hyx, invokedRest,
      show eventsOf f e [] = [] from rfl, List.append_nil]
  | (c, n) :: rest =>
    rw [mapRest, bind_testRest_cons, bind_testRest_cons]
    show extend y c (n.mapLeaves f i) e >>= _ = ⟨_, (extend x c n e >>= _).outcome⟩
    rw [invokedRest_cons] at h ⊢
    by_cases hasks : c.asks x.outcome = true
    · -- the entry is asked for on both sides, and its leaves are exchanged
      rw [if_pos hasks] at h ⊢
      have hn := test_mapLeaves i n fun a ha => h a (List.mem_append_left _ ha)
      have hnext : extend y c (n.mapLeaves f i) e
          = ⟨y.events ++ eventsOf f e (n.invokedFrom i e), (n.test e).outcome⟩ := by
        rw [extend_of_asks (by rw [hyx, hasks]), hn]
      have hcame : (extend x c n e).outcome = (n.test e).outcome := by
        rw [outcome_extend, if_pos hasks]
      rw [bind_testRest_mapRest _ rest _ (extend x c n e) (by rw [hnext, hcame])
        fun a ha => h a (List.mem_append_right _ ha), hnext, eventsOf_append, List.append_assoc]
    · rw [if_neg hasks, List.nil_append] at h ⊢
      have hskip : extend y c (n.mapLeaves f i) e = y :=
        extend_of_not_asks (by rw [hyx]; exact hasks) _ e
      have hsame : extend x c n e = x := extend_of_not_asks hasks n e
      rw [hsame] at h ⊢
      rw [hskip]
      exact bind_testRest_mapRest _ rest y x hyx h

end

/-- **The run of a tree** consists of the runs of the leaves that are invoked. -/
theorem test_eq (n : Node T) (e : T) :
    n.test e = ⟨(n.invoked e).flatMap fun x => (x.1.test e).events, (n.test e).outcome⟩ := by
  have h := test_mapLeaves (f := fun _ l => l) (e := e) 0 n fun _ _ => rfl
  rwa [mapLeaves_self] at h

mutual

/-- The new leaves are invoked in the places of the old ones. -/
theorem invokedFrom_mapLeaves (i : Nat) (n : Node T)
    (h : ∀ x ∈ n.invokedFrom i e, ((f x.2 x.1).test e).outcome = (x.1.test e).outcome) :
    (n.mapLeaves f i).invokedFrom i e
      = (n.invokedFrom i e).map fun x => (f x.2 x.1, x.2) := by
  match n with
  | .leaf l => rfl
  | .empty => rfl
  | .group first rest =>
    have hfirst := fun x hx => h x (List.mem_append_left _ hx)
    rw [mapLeaves, invokedFrom, invokedFrom, List.map_append, invokedFrom_mapLeaves i first hfirst,
      length_leaves_mapLeaves, test_mapLeaves i first hfirst,
      invokedRest_mapRest _ rest _ fun x hx => h x (List.mem_append_right _ hx)]

theorem invokedRest_mapRest (i : Nat) (rest : List (Connective × Node T))
    (before : Except Fault Bool)
    (h : ∀ x ∈ invokedRest i rest e before,
      ((f x.2 x.1).test e).outcome = (x.1.test e).outcome) :
    invokedRest i (mapRest f i rest) e before
      = (invokedRest i rest e before).map fun x => (f x.2 x.1, x.2) := by
  match rest with
  | [] => rfl
  | (c, n) :: rest =>
    rw [mapRest, invokedRest, invokedRest, length_leaves_mapLeaves]
    rw [invokedRest] at h
    split
    · rename_i hasks
      rw [if_pos hasks] at h
      have hn := fun x hx => h x (List.mem_append_left _ hx)
      rw [List.map_append, invokedFrom_mapLeaves i n hn, test_mapLeaves i n hn,
        invokedRest_mapRest _ rest _ fun x hx => h x (List.mem_append_right _ hx)]
    · rename_i hasks
      rw [if_neg hasks] at h
      exact invokedRest_mapRest _ rest before h

end

end

/-- Other leaves where none is invoked change nothing. -/
theorem mapLeaves_of_not_invoked {f : Nat → Leaf T → Leaf T} {n : Node T} {e : T}
    (h : ∀ x ∈ n.invoked e, f x.2 x.1 = x.1) :
    (n.mapLeaves f 0).test e = n.test e ∧ (n.mapLeaves f 0).invoked e = n.invoked e := by
  have hsame : ∀ x ∈ n.invoked e, ((f x.2 x.1).test e).outcome = (x.1.test e).outcome :=
    fun x hx => by rw [h x hx]
  have hevents : eventsOf f e (n.invoked e)
      = (n.invoked e).flatMap fun x => (x.1.test e).events := by
    rw [eventsOf, List.flatMap_def, List.flatMap_def]
    exact congrArg List.flatten (List.map_congr_left fun x hx => by rw [h x hx])
  have hleaves : (n.invoked e).map (fun x => (f x.2 x.1, x.2)) = (n.invoked e).map id :=
    List.map_congr_left fun x hx => by rw [h x hx, id]
  refine ⟨(test_mapLeaves 0 n hsame).trans ?_, (invokedFrom_mapLeaves 0 n hsame).trans ?_⟩
  · rw [test_eq n e, ← hevents]
    rfl
  · exact hleaves.trans (List.map_id _)

/-! ## A leaf that fails is the last one -/

section

variable {e : T} {l : Leaf T} {j : Nat} {fault : Fault}

mutual

/-- **The fault of a leaf that is invoked** is that of the tree, and nothing is invoked after
it. -/
theorem outcome_of_invoked (hfault : (l.test e).outcome = .error fault) (i : Nat) (n : Node T)
    (h : (l, j) ∈ n.invokedFrom i e) :
    (n.test e).outcome = .error fault ∧ (n.invokedFrom i e).getLast? = some (l, j) := by
  match n with
  | .leaf m =>
    cases List.mem_singleton.mp h
    exact ⟨hfault, rfl⟩
  | .empty => cases h
  | .group first rest =>
    rw [invokedFrom, List.getLast?_append]
    rcases List.mem_append.mp h with h | h
    · obtain ⟨hfirst, hlast⟩ := outcome_of_invoked hfault i first h
      rw [hfirst, invokedRest_error, hlast]
      exact ⟨Run.outcome_bind_error hfirst _, rfl⟩
    · obtain ⟨hrest, hlast⟩ := outcome_of_invokedRest hfault _ rest (first.test e) h
      rw [hlast]
      exact ⟨hrest, rfl⟩

theorem outcome_of_invokedRest (hfault : (l.test e).outcome = .error fault) (i : Nat)
    (rest : List (Connective × Node T)) (x : Run Bool)
    (h : (l, j) ∈ invokedRest i rest e x.outcome) :
    (x >>= testRest rest e).outcome = .error fault ∧
      (invokedRest i rest e x.outcome).getLast? = some (l, j) := by
  match rest with
  | [] => cases h
  | (c, n) :: rest =>
    rw [invokedRest_cons, List.mem_append] at h
    rw [bind_testRest_cons, invokedRest_cons, List.getLast?_append]
    rcases h with h | h
    · split at h
      · rename_i hasks
        obtain ⟨hn, hlast⟩ := outcome_of_invoked hfault i n h
        have hextend : (extend x c n e).outcome = .error fault := by
          rw [outcome_extend, if_pos hasks, hn]
        rw [hextend, invokedRest_error, if_pos hasks, hlast]
        exact ⟨Run.outcome_bind_error hextend _, rfl⟩
      · cases h
    · obtain ⟨hrest, hlast⟩ := outcome_of_invokedRest hfault _ rest (extend x c n e) h
      rw [hlast]
      exact ⟨hrest, rfl⟩

end

end

end Node

/-! ## Marks -/

/-- **A leaf with a mark**, an event before everything that the leaf does. -/
def Leaf.marked (mark : Event) (l : Leaf T) : Leaf T :=
  .native .empty fun e => Run.event mark >>= fun _ => l.test e

namespace Node

/-- **The tree with a mark before every leaf**, from the position of the leaf. -/
def marked (mark : Nat → Event) (n : Node T) : Node T :=
  n.mapLeaves (fun i l => l.marked (mark i)) 0

/-- **What testing a tree invokes.** -/
structure Invocation (n : Node T) (e : T) : Prop where
  /-- Whatever marks the leaves are given, the run shows those of the leaves that are invoked,
  each before the events of its leaf, and comes to the same. -/
  shown : ∀ mark : Nat → Event, (n.marked mark).test e
    = ⟨(n.invoked e).flatMap fun x => mark x.2 :: (x.1.test e).events, (n.test e).outcome⟩
  /-- Every leaf is invoked once at most, and in written order. -/
  ordered : (n.invoked e).Sublist n.leaves.zipIdx
  /-- Invoked are the leaves that evaluation comes to. -/
  demanded : ∀ l position, (l, position) ∈ n.invoked e ↔ Reached e 0 n l position
  /-- In the place of a leaf that is not invoked any other leaf may stand: the run is the same,
  and so are the leaves that are invoked. -/
  replaced : ∀ position, position ∉ (n.invoked e).map Prod.snd → ∀ l : Leaf T,
    (n.replaceLeaf position l).leaves = n.leaves.set position l ∧
      (n.replaceLeaf position l).test e = n.test e ∧
      (n.replaceLeaf position l).invoked e = n.invoked e
  /-- The fault of a leaf that is invoked is the outcome, and no leaf is invoked after it. -/
  raised : ∀ l position fault, (l, position) ∈ n.invoked e → (l.test e).outcome = .error fault →
    (n.test e).outcome = .error fault ∧ (n.invoked e).getLast? = some (l, position)

/-- **Only demanded leaves run**, in every tree and for every entity. -/
theorem test_invokes (n : Node T) (e : T) : n.Invocation e where
  shown mark := test_mapLeaves 0 n fun _ _ => rfl
  ordered := invokedFrom_sublist 0 n e
  demanded _ _ := mem_invokedFrom_iff
  replaced position hposition l := by
    refine ⟨leaves_replaceLeaf n position l, mapLeaves_of_not_invoked fun x hx => ?_⟩
    have hne : x.2 ≠ position := fun heq => hposition (heq ▸ List.mem_map_of_mem hx)
    exact if_neg hne
  raised _ _ _ h hfault := outcome_of_invoked hfault 0 n h

/-- An entry after a group that was skipped is still asked for: of "left or (right and left)
and right", the group is skipped where the left flag is set, and the right one is tested. -/
example :
    ((group (.leaf (Predicate.flagLeaf Predicate.leftFlag))
      [(.or, .group (.leaf (Predicate.flagLeaf Predicate.rightFlag))
          [(.and, .leaf (Predicate.flagLeaf Predicate.leftFlag))]),
        (.and, .leaf (Predicate.flagLeaf Predicate.rightFlag))]).invoked (true, false)).map
      Prod.snd = [0, 3] := rfl

end Node

end Criteria
