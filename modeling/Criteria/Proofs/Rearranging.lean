import Criteria.Proofs.Sorting
import Criteria.SortOrder

/-!
# Sorting loses nothing

Where comparisons are those of a total preorder, sorting is the library's stable sort
(module `Criteria.Proofs.Sorting`). A comparison may be none: an extractor can give a
not-a-number, or what it gives can depend on the pair. Of such a sort only two things are
left, and they hold of every comparison (`StableSort.ends_sort`): the result has the
elements of the list, each as often as the list has it, and a fault is one of the
comparisons.

Both are one statement on what a run ends in, `Run.Ends`. With no fault allowed it says
that there is a result; with every fault allowed nothing is asked of the comparisons.
-/

namespace Criteria

namespace StableSort

variable {T : Type}

/-- **A test that ends as allowed** between any two elements of a kind. -/
def Asks (before : T → T → Run Bool) (allowed : Fault → Prop) (E : T → Prop) : Prop :=
  ∀ a b, E a → E b → (before a b).Ends allowed fun _ => True

variable {before : T → T → Run Bool} {allowed : Fault → Prop} {E : T → Prop}

theorem Asks.opposite (h : Asks before allowed E) :
    Asks (fun a b => before b a) allowed E :=
  fun a b ha hb => h b a hb ha

/-! ## Merging and inserting -/

/-- An element finds a place among those of a list, and what follows it is a
rearrangement of `as` and what it was not put behind. -/
theorem ends_place (h : Asks before allowed E) {a : T} (ha : E a)
    {next : List T → Run (List T)} {as : List T}
    (hnext : ∀ bs, (∀ b ∈ bs, E b) → (next bs).Ends allowed (·.Perm (as ++ bs)))
    {bs : List T} (hbs : ∀ b ∈ bs, E b) :
    (place before a next bs).Ends allowed (·.Perm (a :: as ++ bs)) := by
  induction bs with
  | nil => exact (hnext [] hbs).bind fun rest hrest => hrest.cons a
  | cons b bs ih =>
    have hbs' : ∀ x ∈ bs, E x := fun x hx => hbs x (List.mem_cons_of_mem b hx)
    unfold place
    refine (h b a (hbs b List.mem_cons_self) ha).bind fun first _ => ?_
    cases first with
    | true =>
      refine (ih hbs').bind fun rest hrest => ?_
      exact (hrest.cons b).trans List.perm_middle.symm
    | false => exact (hnext (b :: bs) hbs).bind fun rest hrest => hrest.cons a

/-- **Merging** loses nothing. -/
theorem ends_merge (h : Asks before allowed E) {as : List T} (has : ∀ a ∈ as, E a)
    {bs : List T} (hbs : ∀ b ∈ bs, E b) :
    (merge before as bs).Ends allowed (·.Perm (as ++ bs)) := by
  induction as generalizing bs with
  | nil => exact List.Perm.refl bs
  | cons a as ih =>
    have has' : ∀ x ∈ as, E x := fun x hx => has x (List.mem_cons_of_mem a hx)
    exact ends_place h (has a List.mem_cons_self) (fun _ hbs => ih has' hbs) hbs

/-- Merging from the back loses nothing. -/
theorem ends_mergeFromBack (h : Asks before allowed E) {as bs : List T}
    (has : ∀ a ∈ as, E a) (hbs : ∀ b ∈ bs, E b) :
    (mergeFromBack before as bs).Ends allowed (·.Perm (as ++ bs)) := by
  have hback := ends_merge h.opposite (fun b hb => hbs b (List.mem_reverse.mp hb))
    (fun a ha => has a (List.mem_reverse.mp ha))
  refine hback.bind fun fromBack hperm => ?_
  rw [← List.reverse_append] at hperm
  exact (List.reverse_perm fromBack).trans (hperm.trans (List.reverse_perm (as ++ bs)))

/-- **Insertion** puts one more element in. -/
theorem ends_insert (h : Asks before allowed E) {a : T} (ha : E a) {fromBack : List T}
    (hE : ∀ b ∈ fromBack, E b) :
    (insert before fromBack a).Ends allowed (·.Perm (a :: fromBack)) := by
  unfold insert
  cases hlast : fromBack.getLast? with
  | none =>
    rw [List.getLast?_eq_none_iff.mp hlast]
    exact List.Perm.refl [a]
  | some first =>
    refine (h a first ha (hE first (List.mem_of_getLast? hlast))).bind fun behind _ => ?_
    cases behind with
    | true => exact List.perm_append_singleton a fromBack
    | false =>
      show (insertFromBack before a fromBack).Ends allowed _
      rw [insertFromBack_eq]
      exact ends_merge h.opposite (fun x hx => List.mem_singleton.mp hx ▸ ha) hE

/-! ## Chunks and halves -/

/-- A chunk keeps its elements. -/
theorem ends_sortChunk (h : Asks before allowed E) {chunk : List T} (hE : ∀ a ∈ chunk, E a) :
    (sortChunk before chunk).Ends allowed (·.Perm chunk) := by
  -- what has been inserted so far and what is still to come make up the chunk
  have hfold : ∀ (todo done : List T), (∀ a ∈ todo, E a) → (∀ a ∈ done, E a) →
      (Run.fold (insert before) done todo).Ends allowed (·.Perm (todo ++ done)) := by
    intro todo
    induction todo with
    | nil => exact fun done _ _ => List.Perm.refl done
    | cons a todo ih =>
      intro done htodo hdone
      have ha := htodo a List.mem_cons_self
      unfold Run.fold
      refine (ends_insert h ha hdone).bind fun done' hperm => ?_
      have hdone' : ∀ b ∈ done', E b := fun b hb =>
        (List.mem_cons.mp (hperm.mem_iff.mp hb)).elim (fun heq => heq ▸ ha) (hdone b)
      have htodo' : ∀ b ∈ todo, E b := fun b hb => htodo b (List.mem_cons_of_mem a hb)
      refine (ih done' htodo' hdone').mono fun s hs => ?_
      exact hs.trans ((hperm.append_left todo).trans List.perm_middle)
  refine (hfold chunk [] hE fun a ha => absurd ha List.not_mem_nil).bind fun fromBack hperm => ?_
  rw [List.append_nil] at hperm
  exact (List.reverse_perm fromBack).trans hperm

/-- All chunks keep their elements. -/
theorem ends_sortChunks (h : Asks before allowed E) {chunks : List (List T)}
    (hE : ∀ a ∈ chunks.flatten, E a) :
    (Run.each (sortChunk before) chunks).Ends allowed (·.flatten.Perm chunks.flatten) := by
  induction chunks with
  | nil => exact List.Perm.refl []
  | cons chunk rest ih =>
    rw [List.flatten_cons] at hE
    have hchunk := ends_sortChunk h fun a ha => hE a (List.mem_append_left _ ha)
    have hrest := ih fun a ha => hE a (List.mem_append_right _ ha)
    exact hchunk.bind fun sorted hsorted => hrest.bind fun others hothers =>
      hsorted.append hothers

/-- A round of merging loses nothing. -/
theorem ends_mergePairs (h : Asks before allowed E) {chunks : List (List T)}
    (hE : ∀ a ∈ chunks.flatten, E a) :
    (mergePairs before chunks).Ends allowed (·.flatten.Perm chunks.flatten) := by
  fun_induction mergePairs before chunks with
  | case1 as bs rest ih =>
    rw [List.flatten_cons, List.flatten_cons] at hE ⊢
    have has := fun a ha => hE a (List.mem_append_left _ ha)
    have hbs := fun a ha => hE a (List.mem_append_right _ (List.mem_append_left _ ha))
    have hrest := ih fun a ha => hE a (List.mem_append_right _ (List.mem_append_right _ ha))
    refine (ends_merge h has hbs).bind fun merged hmerged => hrest.bind fun others hothers => ?_
    rw [← List.append_assoc]
    exact hmerged.append hothers
  | case2 chunks _ => exact List.Perm.refl _

/-- All rounds of merging lose nothing. -/
theorem ends_mergeChunks (h : Asks before allowed E) (rounds : Nat) {chunks : List (List T)}
    (hE : ∀ a ∈ chunks.flatten, E a) :
    (mergeChunks before rounds chunks).Ends allowed (·.Perm chunks.flatten) := by
  induction rounds generalizing chunks with
  | zero => exact List.Perm.refl _
  | succ rounds ih =>
    refine (ends_mergePairs h hE).bind fun merged hperm => ?_
    exact (ih fun a ha => hE a (hperm.mem_iff.mp ha)).mono fun s hs => hs.trans hperm

/-- A half keeps its elements. -/
theorem ends_sortHalf (h : Asks before allowed E) {xs : List T} (hE : ∀ a ∈ xs, E a) :
    (sortHalf before xs).Ends allowed (·.Perm xs) := by
  have hchunks : ∀ a ∈ (chunks xs).flatten, E a := by rwa [flatten_chunks]
  refine (ends_sortChunks h hchunks).bind fun sorted hperm => ?_
  refine (ends_mergeChunks h _ fun a ha => hchunks a (hperm.mem_iff.mp ha)).mono fun s hs => ?_
  have := hs.trans hperm
  rwa [flatten_chunks] at this

/-- **Sorting loses nothing**: whatever the test says, the result has the elements of the
list, and a fault is one of the test between two of them. -/
theorem ends_sort (h : Asks before allowed E) {xs : List T} (hE : ∀ a ∈ xs, E a) :
    (sort before xs).Ends allowed (·.Perm xs) := by
  have hfirst := fun a ha => hE a (List.mem_of_mem_take (i := (xs.length + 1) / 2) ha)
  have hsecond := fun a ha => hE a (List.mem_of_mem_drop (i := (xs.length + 1) / 2) ha)
  refine (ends_sortHalf h hfirst).bind fun as has => (ends_sortHalf h hsecond).bind
    fun bs hbs => ?_
  have has' : ∀ a ∈ as, E a := fun a ha => hfirst a (has.mem_iff.mp ha)
  have hbs' : ∀ b ∈ bs, E b := fun b hb => hsecond b (hbs.mem_iff.mp hb)
  have hmerged : (mergeHalves before as bs).Ends allowed (·.Perm (as ++ bs)) := by
    unfold mergeHalves
    split
    · exact ends_merge h has' hbs'
    · exact ends_mergeFromBack h has' hbs'
  refine hmerged.mono fun s hs => hs.trans ?_
  have := has.append hbs
  rwa [List.take_append_drop] at this

end StableSort

/-! ## By an order -/

variable {T : Type} {allowed : Fault → Prop} {order : Option (SortOrder T)} {xs : List T}

/-- **Arranging loses nothing**, with or without an order. -/
theorem ends_arrange
    (h : ∀ o ∈ order, ∀ a ∈ xs, ∀ b ∈ xs, (o.compare a b).Ends allowed fun _ => True) :
    (arrange order xs).Ends allowed (·.Perm xs) := by
  cases order with
  | none => exact List.Perm.refl xs
  | some o =>
    have hasks : StableSort.Asks (fun a b => o.compare a b >>= fun r => .done (r == .lt))
        allowed (· ∈ xs) := fun a b ha hb => (h o rfl a ha b hb).bind fun _ _ => trivial
    exact StableSort.ends_sort hasks fun _ ha => ha

end Criteria
