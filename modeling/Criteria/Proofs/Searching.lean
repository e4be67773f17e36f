import Mathlib.Data.List.Basic
import Criteria.SearchTree

/-!
# Searching an ordered tree

A search tree is searched by an order of its own elements, which may compare well
only some of them: the values that data of one type have. So a tree is related to
the data that it holds (`SearchTree.Holds`), from left to right and each before those
behind it, and searching it answers whether a datum is tied with one of them
(`Holds.contains_iff`). Adding one that is not keeps the relation (`Holds.add`).
-/

namespace Criteria

namespace SearchTree

open Std (TransCmp OrientedCmp ReflCmp)

variable {α β : Type} {less : α → α → Bool} {f : β → α} {c : β → β → Ordering}

/-- **What a tree holds**: data whose images are the elements, in strict order. -/
structure Holds (f : β → α) (c : β → β → Ordering) (t : SearchTree α) (xs : List β) :
    Prop where
  /-- The elements are the images, from left to right. -/
  elements : t.toList = xs.map f
  /-- Each comes before those behind it. -/
  ordered : xs.Pairwise fun x y => c x y = .lt

/-- The empty tree holds nothing. -/
theorem Holds.leaf : Holds f c leaf [] := ⟨rfl, .nil⟩

variable [TransCmp c]

/-- **The place of a datum** divides what the tree holds. What is behind comes after
the datum. Of what is ahead only the last one can be tied with it, which is what the
search asks; if that is not, all of it comes before. -/
theorem Holds.exists_place {t : SearchTree α} {xs : List β} (h : Holds f c t xs) {y : β}
    (hless : ∀ x ∈ xs, less (f y) (f x) = (c y x == .lt) ∧ less (f x) (f y) = (c x y == .lt)) :
    ∃ front back, xs = front ++ back ∧
      (t.add less (f y)).toList = (front ++ y :: back).map f ∧
      (∀ x ∈ back, c y x = .lt) ∧
      (t.contains less (f y) = true ∧ (∃ x ∈ front, c x y = .eq) ∨
        t.contains less (f y) = false ∧ ∀ x ∈ front, c x y = .lt) := by
  obtain ⟨as, bs, hlist, hadd, hlast, hbefore, hafter⟩ := exists_split less (f y) t
  obtain ⟨front, back, rfl, rfl, rfl⟩ :=
    List.map_eq_append_iff.mp (h.elements.symm.trans hlist)
  obtain ⟨hfront, hback, -⟩ := List.pairwise_append.mp h.ordered
  refine ⟨front, back, rfl, by rw [hadd, List.map_append, List.map_cons], ?_, ?_⟩
  · cases back with
    | nil => exact fun x hx => absurd hx List.not_mem_nil
    | cons b back =>
      have hyb : c y b = .lt := by
        have hb := hafter (f b) rfl
        rw [(hless b (by simp)).1] at hb
        exact eq_of_beq hb
      intro x hx
      cases List.mem_cons.mp hx with
      | inl hx => rw [hx, hyb]
      | inr hx => exact TransCmp.lt_trans hyb ((List.pairwise_cons.mp hback).1 x hx)
  · -- the search ends by asking the last one ahead of the datum
    unfold contains
    rw [hlast]
    rw [List.getLast?_map] at hbefore ⊢
    cases hl : front.getLast? with
    | none =>
      refine Or.inr ⟨rfl, fun x hx => ?_⟩
      rw [List.getLast?_eq_none_iff.mp hl] at hx
      exact absurd hx List.not_mem_nil
    | some l =>
      obtain ⟨init, rfl⟩ := List.getLast?_eq_some_iff.mp hl
      rw [hl] at hbefore
      have hly : (c l y).isLE = true := by
        have hb := hbefore (f l) rfl
        rw [(hless l (by simp)).1] at hb
        have hne : ¬ c y l = .lt := beq_eq_false_iff_ne.mp hb
        rw [Ordering.isLE_iff_ne_gt]
        exact fun hgt => hne (OrientedCmp.gt_iff_lt.mp hgt)
      show (!less (f l) (f y)) = true ∧ _ ∨ (!less (f l) (f y)) = false ∧ _
      rw [(hless l (by simp)).2]
      cases Ordering.isLE_iff_eq_lt_or_eq_eq.mp hly with
      | inl hlt =>
        refine Or.inr ⟨by rw [hlt]; rfl, fun x hx => ?_⟩
        cases List.mem_append.mp hx with
        | inl hx =>
          have hxl := (List.pairwise_append.mp hfront).2.2 x hx l (List.mem_singleton.mpr rfl)
          exact TransCmp.lt_trans hxl hlt
        | inr hx => rw [List.mem_singleton.mp hx, hlt]
      | inr heq => exact Or.inl ⟨by rw [heq]; rfl, l, by simp, heq⟩

/-- **Searching finds what is tied** with a datum that the tree holds. -/
theorem Holds.contains_iff {t : SearchTree α} {xs : List β} (h : Holds f c t xs) {y : β}
    (hless : ∀ x ∈ xs, less (f y) (f x) = (c y x == .lt) ∧ less (f x) (f y) = (c x y == .lt)) :
    t.contains less (f y) = true ↔ ∃ x ∈ xs, c x y = .eq := by
  obtain ⟨front, back, rfl, -, hback, hsearch⟩ := h.exists_place hless
  cases hsearch with
  | inl hfound =>
    obtain ⟨hcontains, x, hx, heq⟩ := hfound
    exact iff_of_true hcontains ⟨x, List.mem_append_left back hx, heq⟩
  | inr hnot =>
    refine iff_of_false (by rw [hnot.1]; exact Bool.false_ne_true) ?_
    rintro ⟨x, hx, heq⟩
    cases List.mem_append.mp hx with
    | inl hx => exact absurd ((hnot.2 x hx).symm.trans heq) (by decide)
    | inr hx => exact absurd ((hback x hx).symm.trans (OrientedCmp.eq_symm heq)) (by decide)

/-- **Adding a datum** that is not there. -/
theorem Holds.add {t : SearchTree α} {xs : List β} (h : Holds f c t xs) {y : β}
    (hless : ∀ x ∈ xs, less (f y) (f x) = (c y x == .lt) ∧ less (f x) (f y) = (c x y == .lt))
    (hnot : t.contains less (f y) = false) :
    ∃ ys, Holds f c (t.add less (f y)) ys ∧ ys.Perm (y :: xs) := by
  obtain ⟨front, back, rfl, hadd, hback, hsearch⟩ := h.exists_place hless
  obtain ⟨hfront, hbehind, hacross⟩ := List.pairwise_append.mp h.ordered
  rw [hnot] at hsearch
  cases hsearch with
  | inl hfound => cases hfound.1
  | inr hahead =>
    refine ⟨front ++ y :: back, ⟨hadd, ?_⟩, List.perm_middle⟩
    refine List.pairwise_append.mpr ⟨hfront, List.pairwise_cons.mpr ⟨hback, hbehind⟩, ?_⟩
    intro x hx z hz
    cases List.mem_cons.mp hz with
    | inl hz => rw [hz, hahead.2 x hx]
    | inr hz => exact hacross x hx z hz

end SearchTree

end Criteria
