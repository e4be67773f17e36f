import Criteria.Proofs.Writing
import Mathlib.Data.List.Basic
import Mathlib.Data.Set.Function

/-!
# What a rendered query still says

A provider that is handed a query as a value can tell every two queries apart by it: operation,
source, filter, sort keys, positions and fields are all to be read from the tree
(`Query.toValue_lossless`). Nothing has to be known of the names and the literals that are in
it. A literal may be an object that looks like the rendering of an operator, and is still a
literal, since it stands under a key of its own. All that is asked for is that no part of the
filter is missing, for else there is no tree at all.

## What the trees keep

An expression that has a tree has one of seven shapes, and its tree says which under the key
`type`. So expressions of one tree have one shape (`Expr.shape_eq_of_toValue_eq`), and the rest is
an induction on the parts.

A query leaves out what is absent. That is no loss, because every part has a key of its own, and
a key that is missing cannot be filled by another part (`Query.eq_of_presentMembers_eq`). The
filter is the exception, in which an absent one is null: no expression is rendered as null.
-/

namespace Criteria

/-! ## Names -/

theorem BinaryOp.symbol_injective : Function.Injective BinaryOp.symbol := fun a b h => by
  cases a <;> cases b <;> first | rfl | exact absurd h (by decide)

theorem Direction.name_injective : Function.Injective Direction.name := fun a b h => by
  cases a <;> cases b <;> first | rfl | exact absurd h (by decide)

theorem Operation.name_injective : Function.Injective Operation.name := fun a b h => by
  cases a <;> cases b <;> first | rfl | exact absurd h (by decide)

/-- **A sort key is read off its rendering.** -/
theorem SortField.toValue_injective : Function.Injective SortField.toValue := fun k l h => by
  simp only [toValue, Value.object.injEq, List.cons.injEq, Prod.mk.injEq, Value.string.injEq,
    true_and, and_true] at h
  obtain ⟨hdirection, hfield⟩ := h
  cases k
  cases l
  rw [SortField.mk.injEq]
  exact ⟨hfield, Direction.name_injective hdirection⟩

/-! ## Expressions -/

namespace Expr

/-- The shapes of expressions. -/
inductive Shape
  | absent | literal | valueRef | field | binary | not | call | array

/-- The shape of an expression. -/
def shape : Expr → Shape
  | .absent => .absent
  | .literal _ => .literal
  | .valueRef => .valueRef
  | .field _ => .field
  | .binary .. => .binary
  | .not _ => .not
  | .call .. => .call
  | .array _ => .array

/-- What the tree of a shape has for a `type`. -/
def Shape.type? : Shape → Option Text
  | .absent => none
  | .literal => some "literal"
  | .valueRef => some "value"
  | .field => some "field_access"
  | .binary => some "binary_op"
  | .not => some "unary_op"
  | .call => some "function_call"
  | .array => some "array_literal"

theorem Shape.type?_injective : Function.Injective Shape.type? := fun a b h => by
  cases a <;> cases b <;> first | rfl | exact absurd h (by decide)

/-! The tree of every shape with parts, from the trees of the parts. -/

section

variable {v : Value}

theorem toValue_binary {op : BinaryOp} {a b : Expr} (h : (binary op a b).toValue = .ok v) :
    ∃ left right, a.toValue = .ok left ∧ b.toValue = .ok right ∧
      v = .object [("left", left), ("operator", .string op.symbol), ("right", right),
        ("type", .string "binary_op")] := by
  obtain ⟨left, hleft, h⟩ := exists_of_bind_eq_ok h
  obtain ⟨right, hright, h⟩ := exists_of_bind_eq_ok h
  exact ⟨left, right, hleft, hright, (Except.ok.inj h).symm⟩

theorem toValue_not {a : Expr} (h : (Expr.not a).toValue = .ok v) :
    ∃ operand, a.toValue = .ok operand ∧
      v = .object [("operand", operand), ("operator", .string "NOT"),
        ("type", .string "unary_op")] := by
  obtain ⟨operand, hoperand, h⟩ := exists_of_bind_eq_ok h
  exact ⟨operand, hoperand, (Except.ok.inj h).symm⟩

theorem toValue_call {name : Text} {args : List Expr} (h : (call name args).toValue = .ok v) :
    ∃ arguments, toValues args = .ok arguments ∧
      v = .object [("arguments", .array arguments), ("name", .string name),
        ("type", .string "function_call")] := by
  obtain ⟨arguments, harguments, h⟩ := exists_of_bind_eq_ok h
  exact ⟨arguments, harguments, (Except.ok.inj h).symm⟩

theorem toValue_array {es : List Expr} (h : (array es).toValue = .ok v) :
    ∃ elements, toValues es = .ok elements ∧
      v = .object [("elements", .array elements), ("type", .string "array_literal")] := by
  obtain ⟨elements, helements, h⟩ := exists_of_bind_eq_ok h
  exact ⟨elements, helements, (Except.ok.inj h).symm⟩

/-- **A tree says its shape** under the key `type`. -/
theorem get?_type_of_toValue {e : Expr} (h : e.toValue = .ok v) :
    v.get? "type" = e.shape.type?.map .string := by
  cases e with
  | absent => cases h
  | literal w =>
    obtain rfl := Except.ok.inj h
    rfl
  | valueRef =>
    obtain rfl := Except.ok.inj h
    rfl
  | field name =>
    obtain rfl := Except.ok.inj h
    rfl
  | binary op a b =>
    obtain ⟨left, right, -, -, rfl⟩ := toValue_binary h
    rfl
  | not a =>
    obtain ⟨operand, -, rfl⟩ := toValue_not h
    rfl
  | call name args =>
    obtain ⟨arguments, -, rfl⟩ := toValue_call h
    rfl
  | array es =>
    obtain ⟨elements, -, rfl⟩ := toValue_array h
    rfl

/-- **Expressions of one tree have one shape.** -/
theorem shape_eq_of_toValue_eq {e e' : Expr} (h : e.toValue = .ok v) (h' : e'.toValue = .ok v) :
    e.shape = e'.shape := by
  have htype : e.shape.type?.map Value.string = e'.shape.type?.map .string := by
    rw [← get?_type_of_toValue h, get?_type_of_toValue h']
  exact Shape.type?_injective (Option.map_injective (fun _ _ => Value.string.inj) htype)

end

mutual

/-- **A tree is that of one expression**, part by part. -/
theorem eq_of_toValue_eq (e e' : Expr) {v : Value} (h : e.toValue = .ok v)
    (h' : e'.toValue = .ok v) : e = e' := by
  have hshape := shape_eq_of_toValue_eq h h'
  match e with
  | .absent => cases h
  | .literal u =>
    cases e' with
    | literal w =>
      have htree := Except.ok.inj (h.trans h'.symm)
      simp only [Value.object.injEq, List.cons.injEq, Prod.mk.injEq, true_and,
        and_true] at htree
      rw [htree]
    | _ => cases hshape
  | .valueRef =>
    cases e' with
    | valueRef => rfl
    | _ => cases hshape
  | .field name =>
    cases e' with
    | field name' =>
      have htree := Except.ok.inj (h.trans h'.symm)
      simp only [Value.object.injEq, List.cons.injEq, Prod.mk.injEq,
        Value.string.injEq, true_and, and_true] at htree
      rw [htree]
    | _ => cases hshape
  | .binary op a b =>
    cases e' with
    | binary op' a' b' =>
      obtain ⟨left, right, ha, hb, rfl⟩ := toValue_binary h
      obtain ⟨left', right', ha', hb', htree⟩ := toValue_binary h'
      simp only [Value.object.injEq, List.cons.injEq, Prod.mk.injEq,
        Value.string.injEq, true_and, and_true] at htree
      obtain ⟨rfl, hop, rfl⟩ := htree
      rw [eq_of_toValue_eq a a' ha ha', BinaryOp.symbol_injective hop,
        eq_of_toValue_eq b b' hb hb']
    | _ => cases hshape
  | .not a =>
    cases e' with
    | not a' =>
      obtain ⟨operand, ha, rfl⟩ := toValue_not h
      obtain ⟨operand', ha', htree⟩ := toValue_not h'
      simp only [Value.object.injEq, List.cons.injEq, Prod.mk.injEq, true_and,
        and_true] at htree
      obtain rfl := htree
      rw [eq_of_toValue_eq a a' ha ha']
    | _ => cases hshape
  | .call name args =>
    cases e' with
    | call name' args' =>
      obtain ⟨arguments, hargs, rfl⟩ := toValue_call h
      obtain ⟨arguments', hargs', htree⟩ := toValue_call h'
      simp only [Value.object.injEq, List.cons.injEq, Prod.mk.injEq,
        Value.array.injEq, Value.string.injEq, true_and, and_true] at htree
      obtain ⟨rfl, rfl⟩ := htree
      rw [eq_of_toValues_eq args args' hargs hargs']
    | _ => cases hshape
  | .array es =>
    cases e' with
    | array es' =>
      obtain ⟨elements, hes, rfl⟩ := toValue_array h
      obtain ⟨elements', hes', htree⟩ := toValue_array h'
      simp only [Value.object.injEq, List.cons.injEq, Prod.mk.injEq,
        Value.array.injEq, true_and, and_true] at htree
      obtain rfl := htree
      rw [eq_of_toValues_eq es es' hes hes']
    | _ => cases hshape

/-- Trees are those of one list of expressions. -/
theorem eq_of_toValues_eq (es es' : List Expr) {vs : List Value} (h : toValues es = .ok vs)
    (h' : toValues es' = .ok vs) : es = es' := by
  match es, es' with
  | [], [] => rfl
  | [], _ :: _ =>
    obtain rfl := Except.ok.inj h
    obtain ⟨v, -, h'⟩ := exists_of_bind_eq_ok h'
    obtain ⟨vs, -, h'⟩ := exists_of_bind_eq_ok h'
    cases h'
  | _ :: _, [] =>
    obtain rfl := Except.ok.inj h'
    obtain ⟨v, -, h⟩ := exists_of_bind_eq_ok h
    obtain ⟨vs, -, h⟩ := exists_of_bind_eq_ok h
    cases h
  | e :: es, e' :: es' =>
    obtain ⟨v, hv, h⟩ := exists_of_bind_eq_ok h
    obtain ⟨vs, hvs, h⟩ := exists_of_bind_eq_ok h
    obtain rfl := Except.ok.inj h
    obtain ⟨v', hv', h'⟩ := exists_of_bind_eq_ok h'
    obtain ⟨vs', hvs', h'⟩ := exists_of_bind_eq_ok h'
    obtain ⟨rfl, rfl⟩ := List.cons.inj (Except.ok.inj h')
    rw [eq_of_toValue_eq e e' hv hv', eq_of_toValues_eq es es' hvs hvs']

end

/-- No expression is rendered as null. -/
theorem toValue_ne_null (e : Expr) : e.toValue ≠ .ok .null := fun h => by
  have htype := get?_type_of_toValue h
  cases e <;> cases htype
  cases h

end Expr

/-! ## Queries -/

namespace Query

/-- A part that is rendered has its key among all keys. -/
theorem keys_presentMembers (parts : List (Text × Option Value)) :
    (presentMembers parts).map Prod.fst ⊆ parts.map Prod.fst := by
  induction parts with
  | nil => exact List.Subset.refl []
  | cons part rest ih =>
    obtain ⟨key, content⟩ := part
    cases content with
    | none => exact List.subset_cons_of_subset _ ih
    | some v => exact List.cons_subset_cons _ ih

/-- **What is left out is known** from what is there, when no key stands twice. -/
theorem eq_of_presentMembers_eq {parts parts' : List (Text × Option Value)}
    (nodup : (parts.map Prod.fst).Nodup) (keys : parts.map Prod.fst = parts'.map Prod.fst)
    (h : presentMembers parts = presentMembers parts') : parts = parts' := by
  induction parts generalizing parts' with
  | nil => exact (List.map_eq_nil_iff.mp keys.symm).symm
  | cons part rest ih =>
    obtain ⟨key, content⟩ := part
    obtain ⟨⟨key', content'⟩, rest', rfl⟩ : ∃ part' rest', parts' = part' :: rest' :=
      List.exists_cons_of_ne_nil (by rintro rfl; cases keys)
    obtain ⟨rfl, hkeys⟩ : key = key' ∧ rest.map Prod.fst = rest'.map Prod.fst :=
      List.cons.inj keys
    obtain ⟨hfresh, hnodup⟩ := List.nodup_cons.mp nodup
    -- the key of a part is not found among the later ones
    have fresh {v : Value} {tail : List (Text × Option Value)}
        (htail : rest.map Prod.fst = tail.map Prod.fst) {ms : List (Text × Value)}
        (hms : (key, v) :: ms = presentMembers tail) : False :=
      hfresh (htail ▸ keys_presentMembers tail (hms ▸ List.mem_cons_self))
    cases content with
    | none =>
      cases content' with
      | none => rw [ih hnodup hkeys h]
      | some w => exact (fresh rfl h.symm).elim
    | some v =>
      cases content' with
      | none => exact (fresh hkeys h).elim
      | some w =>
        obtain ⟨hmember, hrest⟩ := List.cons.inj h
        rw [ih hnodup hkeys hrest, (Prod.mk.inj hmember).2]

/-- **A query has the parts that its rendering has.** -/
theorem parts_eq {q q' : Query} {filter filter' : Value}
    (h : presentMembers (q.parts filter) = presentMembers (q'.parts filter')) :
    q.parts filter = q'.parts filter' := by
  have hnodup : ((q.parts filter).map Prod.fst).Nodup := by
    show List.Nodup (α := Text) ["distinct_by", "filter", "group_by", "limit", "offset",
      "operation", "order_by", "source", "target_field"]
    decide
  exact eq_of_presentMembers_eq hnodup rfl h

/-- Filters are rendered without loss, and unlike one that is not there. -/
theorem filter_eq_of_filterValue_eq {f g : Option Expr} {v : Value} (hf : filterValue f = .ok v)
    (hg : filterValue g = .ok v) : f = g := by
  cases f with
  | none =>
    obtain rfl := Except.ok.inj hf
    cases g with
    | none => rfl
    | some e => exact (e.toValue_ne_null hg).elim
  | some e =>
    cases g with
    | none =>
      obtain rfl := Except.ok.inj hg
      exact (e.toValue_ne_null hf).elim
    | some e' => exact congrArg some (Expr.eq_of_toValue_eq e e' hf hg)

/-- **A tree is that of one query.** -/
theorem eq_of_toValue_eq {q q' : Query} {v : Value} (h : q.toValue = .ok v)
    (h' : q'.toValue = .ok v) : q = q' := by
  obtain ⟨filter, hf, h⟩ := exists_of_bind_eq_ok h
  obtain ⟨filter', hf', h'⟩ := exists_of_bind_eq_ok h'
  have hparts := parts_eq (Value.object.inj (Except.ok.inj (h.trans h'.symm)))
  simp only [parts, List.cons.injEq, Prod.mk.injEq, Option.some.injEq, Value.string.injEq,
    Value.array.injEq, true_and, and_true] at hparts
  obtain ⟨hdistinct, rfl, hgroup, hlimit, hoffset, hoperation, horder, hsource, htarget⟩ :=
    hparts
  have text : Function.Injective (Option.map Value.string) :=
    Option.map_injective fun _ _ => Value.string.inj
  have word : Function.Injective (Option.map Value.uint) :=
    Option.map_injective fun _ _ hmn => Number.uint.inj (Value.number.inj hmn)
  cases q
  cases q'
  rw [Query.mk.injEq]
  exact ⟨Operation.name_injective hoperation, hsource, filter_eq_of_filterValue_eq hf hf',
    List.map_injective_iff.mpr SortField.toValue_injective horder, word hoffset, word hlimit,
    text hdistinct, text htarget, text hgroup⟩

/-- **Rendering loses nothing**: neither of an expression nor of a query in which nothing is
missing, and these are the ones that are rendered. -/
theorem toValue_lossless :
    ((∀ q : Query, (∃ v, q.toValue = .ok v) ↔ q.isComplete = true) ∧
      Set.InjOn toValue {q | q.isComplete = true}) ∧
    (∀ e : Expr, (∃ v, e.toValue = .ok v) ↔ e.isComplete = true) ∧
      Set.InjOn Expr.toValue {e | e.isComplete = true} := by
  refine ⟨⟨exists_toValue_iff, fun q hq q' _ h => ?_⟩, Expr.exists_toValue_iff,
    fun e he e' _ h => ?_⟩
  · obtain ⟨v, hv⟩ := q.exists_toValue_iff.mpr hq
    exact eq_of_toValue_eq hv (h.symm.trans hv)
  · obtain ⟨v, hv⟩ := e.exists_toValue_iff.mpr he
    exact Expr.eq_of_toValue_eq e e' hv (h.symm.trans hv)

/-- A condition on the value, and one on the literal that is the tree of this condition. -/
theorem toValue_ne_of_lookalike :
    toValue { filter := some .valueRef, limit := some 3 }
      ≠ toValue { filter := some (.literal (.object [("type", .string "value")])),
                  limit := some 3 } := by
  intro h
  have hfilter := congrArg Query.filter (toValue_lossless.1.2 rfl rfl h)
  cases hfilter

end Query

end Criteria
