import Criteria.Proofs.Lookup
import Criteria.Proofs.Writing
import Criteria.Remote.Table

/-!
# Queries that a table refuses

A table has a message for every query, and makes the text of the query for it whether or not the
message is delivered. So it answers what can be written down, and refuses the rest with the fault
of writing (`Table.outcome_announce_bind`). An evaluator that composes a query without a text gets
that fault for an answer (`RemoteEvaluator.refuses`).

An evaluator composes its queries from a source, a predicate, a sort order and fields. All of them
can be written down if their names and literals are UTF-8 and nothing is missing: the description
of a predicate has no other parts than those of its leaves (`Predicate.isPortable_of_describe`).
-/

namespace Criteria

variable {T : Type}

namespace Table

variable {q : Query}

/-- **What follows the message of a query** is the reply to it. -/
theorem outcome_announce_bind {α : Type} (method : Text) (q : Query) (f : Unit → Run α) :
    (announce method q >>= f).outcome = q.reply (f ()).outcome := by
  cases htext : q.text with
  | ok text =>
    have hannounce : (announce method q).outcome = .ok () := by
      unfold announce
      rw [htext]
      rfl
    rw [Run.outcome_bind_ok hannounce, Query.reply, htext]
    rfl
  | error fault =>
    have hannounce : (announce method q).outcome = .error fault := by
      unfold announce
      rw [htext]
      rfl
    rw [Run.outcome_bind_error hannounce, Query.reply_of_error htext]

/-- The answer to a query that can be written down is made of the rows that pass its filter. -/
theorem outcome_announce_filtered {α : Type} {table : Table T} {rows : List T}
    (hportable : q.isPortable = true) (hrows : (table.filtered q).outcome = .ok rows)
    (method : Text) (f : List T → Run α) :
    (announce method q >>= fun _ => table.filtered q >>= f).outcome = (f rows).outcome := by
  rw [outcome_announce_bind, Query.reply_of_isPortable hportable, Run.outcome_bind_ok hrows]

/-- A query that cannot be written down selects nothing, -/
theorem exists_fault_fetch (table : Table T) (h : q.isPortable = false) :
    ∃ fault, q.text = .error fault ∧ (table.fetch q).outcome = .error fault := by
  obtain ⟨fault, hfault⟩ := Query.exists_fault h
  refine ⟨fault, hfault, ?_⟩
  unfold fetch
  rw [outcome_announce_bind, Query.reply_of_error hfault]

/-- and has no value. -/
theorem exists_fault_scalar (table : Table T) (h : q.isPortable = false) :
    ∃ fault, q.text = .error fault ∧ (table.scalar q).outcome = .error fault := by
  obtain ⟨fault, hfault⟩ := Query.exists_fault h
  refine ⟨fault, hfault, ?_⟩
  unfold scalar
  rw [outcome_announce_bind, Query.reply_of_error hfault]

end Table

/-! ## What a query is composed of -/

namespace Node

mutual

/-- **A description whose leaves can be written down** can be written down. -/
theorem isPortable_of_describe (n : Node T)
    (h : ∀ c b, .described c b ∈ n.leaves → c.isPortable = true) {d : Expr}
    (hd : n.describe.outcome = .ok d) : d.isPortable = true := by
  match n with
  | .leaf (.described c b) =>
    cases hd
    exact h d b (List.mem_singleton_self _)
  | .leaf (.native label f) => cases hd
  | .empty =>
    cases hd
    rfl
  | .group first rest =>
    obtain ⟨before, hfirst, hrest⟩ := Run.bind_eq_ok_iff.mp hd
    exact isPortable_of_describeRest rest (fun c b hc => h c b (List.mem_append_right _ hc))
      (isPortable_of_describe first (fun c b hc => h c b (List.mem_append_left _ hc)) hfirst) hrest

/-- Later nodes of a group that can be written down extend what can be written down. -/
theorem isPortable_of_describeRest (rest : List (Connective × Node T))
    (h : ∀ c b, .described c b ∈ restLeaves rest → c.isPortable = true) {before d : Expr}
    (hbefore : before.isPortable = true) (hd : (describeRest before rest).outcome = .ok d) :
    d.isPortable = true := by
  match rest with
  | [] =>
    cases hd
    exact hbefore
  | (c, n) :: rest =>
    obtain ⟨e, hn, hrest⟩ := Run.bind_eq_ok_iff.mp hd
    have he := isPortable_of_describe n (fun c b hc => h c b (List.mem_append_left _ hc)) hn
    have hjoined : (Expr.binary c.op before e).isPortable = true :=
      Bool.and_eq_true_iff.mpr ⟨hbefore, he⟩
    exact isPortable_of_describeRest rest (fun c b hc => h c b (List.mem_append_right _ hc))
      hjoined hrest

end

end Node

/-- **A predicate that can be written down**: the description of every leaf can. -/
def Predicate.IsPortable (p : Predicate T) : Prop :=
  ∀ c b, .described c b ∈ p.root.leaves → c.isPortable = true

/-- Of either sign. -/
theorem Predicate.isPortable_of_describe {p : Predicate T} (h : p.IsPortable) {negate : Bool}
    {d : Expr} (hd : p.describe negate = .done d) : d.isPortable = true := by
  obtain ⟨e, he, hd⟩ := Run.bind_eq_ok_iff.mp (congrArg Run.outcome hd)
  have hportable := p.root.isPortable_of_describe h he
  cases hd
  cases negate <;> exact hportable

/-- **A sort order that can be written down**: the names of its fields are UTF-8. -/
def SortOrder.IsPortable (o : SortOrder T) : Prop :=
  ∀ key ∈ o.keys, ∀ name ∈ key.field, name.isUtf8 = true

/-- The fields of a sort order that can be written down are UTF-8. -/
theorem SortOrder.isUtf8_of_describeKeys {keys : List (SortKey T)}
    (h : ∀ key ∈ keys, ∀ name ∈ key.field, name.isUtf8 = true) {i : Nat} {fields : List SortField}
    (hd : (describeKeys i keys).outcome = .ok fields) :
    ∀ key ∈ fields, key.field.isUtf8 = true := by
  induction keys generalizing i fields with
  | nil =>
    cases hd
    exact fun key hkey => nomatch hkey
  | cons key keys ih =>
    obtain ⟨hkey, hkeys⟩ := List.forall_mem_cons.mp h
    unfold describeKeys at hd
    cases hname : key.field with
    | none =>
      rw [hname] at hd
      cases hd
    | some name =>
      rw [hname] at hd
      obtain ⟨rest, hrest, hd⟩ := Run.bind_eq_ok_iff.mp hd
      cases hd
      exact List.forall_mem_cons.mpr ⟨hkey name hname, ih hkeys hrest⟩

/-! ## Refusals -/

namespace RemoteEvaluator

/-- **An evaluator whose queries are refused if they have no text**: a composed query that cannot
be written down has the fault of writing it for an answer, whatever it asks for. -/
structure Refuses (w : RemoteEvaluator T) : Prop where
  /-- Queries for entities. -/
  entities {query : Run Query} {q : Query} : query.outcome = .ok q → q.isPortable = false →
    ∃ fault, q.text = .error fault ∧ (w.entities query).outcome = .error fault
  /-- Queries for a value. -/
  value {query : Run Query} {q : Query} : query.outcome = .ok q → q.isPortable = false →
    ∃ fault, q.text = .error fault ∧ (w.value query).outcome = .error fault

/-- **Every evaluator over a table** is one. -/
theorem refuses (table : Table T) (source : Text) (p : Predicate T) (negate : Bool)
    (limits : Limits) : Refuses ⟨table.provider, source, p, negate, limits⟩ where
  entities {query q} hq hportable := by
    obtain ⟨fault, hfault, hfetch⟩ := table.exists_fault_fetch hportable
    refine ⟨fault, hfault, ?_⟩
    unfold entities
    rw [Run.outcome_bind_ok hq]
    exact (Run.outcome_bind_ok (Run.outcome_event _) _).trans hfetch
  value {query q} hq hportable := by
    obtain ⟨fault, hfault, hscalar⟩ := table.exists_fault_scalar hportable
    refine ⟨fault, hfault, ?_⟩
    unfold value
    rw [Run.outcome_bind_ok hq]
    exact (Run.outcome_bind_ok (Run.outcome_event _) _).trans hscalar

end RemoteEvaluator

end Criteria
