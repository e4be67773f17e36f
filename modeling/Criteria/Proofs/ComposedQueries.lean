import Criteria.Proofs.Logging

/-!
# What is logged of a composed query

A query that is composed leaves a message with its text, so a log at `debug` or below should show
what the provider was asked. The message is left by the two steps that compose queries for
entities and for reductions, and not by whoever asks for them. What is logged is therefore the
query as it is in these steps (`RemoteEvaluator.Call.announced`); it has a text, for without one
composing it would have failed at these thresholds (`RemoteEvaluator.loggedUnder_ok`).

For most operations that is the query itself. There are two kinds of exceptions. The query for
distinct entities gets the field that they are told apart by after the message was left, so the
text lacks that field and is the text of the query for all entities
(`RemoteEvaluator.deliver_distinct`). And the queries for existence, for a count and for the
counts of groups go through neither step, so nothing is logged of them at all. For these four, and
for no others, the log does not show the query that is handed over
(`RemoteEvaluator.logs_composed`).
-/

namespace Criteria

variable {T α β : Type}

/-! ## Runs that leave a trace only if they fail -/

namespace Run

/-- **A run that leaves a trace only if it fails**: a result is all that there is of it. -/
def Tacit (x : Run α) : Prop := ∀ a, x.outcome = .ok a → x = .done a

theorem tacit_done (a : α) : (done a).Tacit := fun _ h => congrArg done (Except.ok.inj h)

/-- What follows such a run is the whole run, if that has a result. -/
theorem Tacit.exists_eq {x : Run α} (hx : x.Tacit) {f : α → Run β} {b : β}
    (h : (x >>= f).outcome = .ok b) : ∃ a, x = .done a ∧ x >>= f = f a := by
  obtain ⟨a, ha, -⟩ := bind_eq_ok_iff.mp h
  refine ⟨a, hx a ha, ?_⟩
  rw [hx a ha, done_bind]

/-- A result made of another is made without a message. -/
theorem messages_map (x : Run α) (g : α → β) :
    (x >>= fun a => done (g a)).messages = x.messages := by
  show (andThen x _).events.filterMap _ = _
  unfold andThen
  cases hx : x.outcome with
  | error fault => rfl
  | ok a => exact congrArg (List.filterMap _) (List.append_nil _)

theorem Checks.tacit {x : Run Unit} {fault? : Option ArgumentFault} (h : x.Checks fault?) :
    x.Tacit := fun _ hx => by
  cases fault? with
  | none => exact h
  | some cause =>
    obtain ⟨text, rfl⟩ := h
    cases hx

end Run

theorem Predicate.tacit_describe (p : Predicate T) (negate : Bool) :
    (p.describe negate).Tacit := by
  cases hnative : p.root.nativeLabel? with
  | none =>
    obtain ⟨d, hd⟩ := exists_describe hnative negate
    rw [hd]
    exact Run.tacit_done d
  | some label =>
    rw [describe_of_native hnative]
    exact nofun

theorem SortOrder.tacit_describe (o : SortOrder T) : o.describe.Tacit := by
  cases hkey : o.unnamedKey? with
  | none =>
    rw [describe_of_named hkey]
    exact Run.tacit_done _
  | some i =>
    rw [describe_of_unnamed hkey]
    exact nofun

/-! ## Texts of queries -/

/-- The text of an object begins with its first key. -/
theorem Value.write_object_cons (key : Text) (v : Value) (ms : List (Text × Value)) :
    ∃ rest, (Value.object ((key, v) :: ms)).write.bytes = 123 :: (key.quote.bytes ++ rest) := by
  cases ms <;> exact ⟨_, by
    simp only [write, writeMembers, Text.intercalate, Text.bytes_append, List.append_assoc]
    rfl⟩

/-- The text of a query begins with the first key that is there. -/
theorem Query.exists_rest_of_text {q : Query} {t : Text} (h : q.text = .ok t) :
    ∃ rest, t.bytes = 123 :: ((if q.distinctBy.isSome then ("distinct_by" : Text)
      else "filter").quote.bytes ++ rest) := by
  obtain ⟨v, hv, hdump⟩ := exists_of_bind_eq_ok h
  obtain ⟨filter, -, hv⟩ := exists_of_bind_eq_ok hv
  cases hv
  obtain ⟨-, rfl⟩ := Value.dump_eq_ok_iff.mp hdump
  cases hdistinct : q.distinctBy with
  | none =>
    rw [parts, hdistinct]
    exact Value.write_object_cons ..
  | some field =>
    rw [parts, hdistinct]
    exact Value.write_object_cons ..

/-- **Without the field for distinct entities a query has another text.** -/
theorem Query.text_ne_of_distinctBy {q : Query} {field : Text} (h : q.distinctBy = some field)
    {t t' : Text} (ht : q.text = .ok t)
    (ht' : ({ q with distinctBy := none } : Query).text = .ok t') : t' ≠ t := by
  intro heq
  obtain ⟨rest, hwith⟩ := exists_rest_of_text ht
  obtain ⟨rest', hwithout⟩ := exists_rest_of_text ht'
  rw [h] at hwith
  have hthird : some (102 : UInt8) = some 100 := by
    have hbytes := congrArg (fun t : Text => t.bytes[2]?) heq
    rwa [hwith, hwithout] at hbytes
  exact absurd hthird (by decide)

/-! ## Messages of operations -/

namespace RemoteEvaluator

/-- **The message of a composed query**, from its text. -/
def composedMessage (text : Text) : Message := (.debug, "Composed query: " ++ text)

/-- Different texts have different messages. -/
theorem composedMessage_inj {t t' : Text} (h : composedMessage t = composedMessage t') : t = t' :=
  congrArg Text.mk (List.append_cancel_left (congrArg (fun m : Message => m.2.bytes) h))

/-- The run that leaves the messages of some texts and has a query. -/
def leaving (texts : List Text) (q : Query) : Run Query where
  events := texts.map fun text => .message .debug ("Composed query: " ++ text)
  outcome := .ok q

/-- It hands over nothing. -/
theorem requests_leaving (texts : List Text) (q : Query) : (leaving texts q).requests = [] := by
  show List.filterMap _ (texts.map _) = []
  rw [List.filterMap_map]
  exact List.filterMap_eq_nil_iff.mpr fun _ _ => rfl

/-- A logger that admits its messages delivers all of them. -/
theorem deliver_leaving {l : Logger} (hl : l.shouldLog .debug = true) (texts : List Text)
    (q : Query) : l.deliver (leaving texts q).events = texts.map composedMessage := by
  show List.filterMap _ (texts.map _) = _
  rw [List.filterMap_map, ← List.filterMap_eq_map]
  refine congrArg (List.filterMap · texts) (funext fun text => ?_)
  show (if l.shouldLog .debug then _ else _) = _
  rw [if_pos hl]
  rfl

section

variable {v : RemoteEvaluator T} {q : Query}

/-- Composing a query leaves no trace, and the query has no field for distinct entities. -/
theorem compose_ok {operation : Operation} {negate : Bool}
    (h : (v.compose operation negate).outcome = .ok q) :
    v.compose operation negate = .done q ∧ q.distinctBy = none := by
  obtain ⟨d, -, heq⟩ := (v.predicate.tacit_describe negate).exists_eq h
  rw [compose] at h ⊢
  rw [heq] at h ⊢
  cases h
  exact ⟨rfl, rfl⟩

/-- **A query that is logged has a text**, or logging it would have failed. -/
theorem loggedUnder_ok {l : Logger} (hl : l.shouldLog .debug = true) {p : Query}
    (h : (loggedUnder l p).outcome = .ok q) :
    p = q ∧ ∃ text, q.text = .ok text ∧ loggedUnder l p = leaving [text] q := by
  rw [loggedUnder, if_pos hl] at h ⊢
  cases htext : p.text with
  | ok text =>
    rw [htext] at h
    cases h
    exact ⟨rfl, text, htext, rfl⟩
  | error fault =>
    rw [htext] at h
    cases h

/-- **The query for entities is logged as it is**, without a field for distinct ones. -/
theorem describeSelectUnder_ok {l : Logger} (hl : l.shouldLog .debug = true) {negate : Bool}
    {order : Option (SortOrder T)} {offset limit : Option UInt64}
    (h : (v.describeSelectUnder l negate order offset limit).outcome = .ok q) :
    q.distinctBy = none ∧ ∃ text, q.text = .ok text ∧
      v.describeSelectUnder l negate order offset limit = leaving [text] q := by
  rw [describeSelectUnder] at h ⊢
  obtain ⟨c, hc, -⟩ := Run.bind_eq_ok_iff.mp h
  obtain ⟨hcompose, hdistinct⟩ := compose_ok hc
  rw [hcompose, Run.done_bind] at h ⊢
  cases order with
  | none =>
    obtain ⟨rfl, htext⟩ := loggedUnder_ok hl h
    exact ⟨hdistinct, htext⟩
  | some o =>
    obtain ⟨fields, -, heq⟩ := o.tacit_describe.exists_eq h
    dsimp only at h ⊢
    rw [heq] at h ⊢
    obtain ⟨rfl, htext⟩ := loggedUnder_ok hl h
    exact ⟨hdistinct, htext⟩

/-- **The query for a reduction is logged as it is.** -/
theorem describeReductionUnder_ok {l : Logger} (hl : l.shouldLog .debug = true)
    {operation : Operation} {field : Text}
    (h : (v.describeReductionUnder l operation field).outcome = .ok q) :
    ∃ text, q.text = .ok text ∧ v.describeReductionUnder l operation field = leaving [text] q := by
  rw [describeReductionUnder] at h ⊢
  obtain ⟨c, hc, -⟩ := Run.bind_eq_ok_iff.mp h
  rw [(compose_ok hc).1, Run.done_bind] at h ⊢
  exact (loggedUnder_ok hl h).2

end

namespace Call

/-- **The queries that are logged** of an operation whose query is composed: none, the query
without the field for distinct entities, or the query itself. -/
def announced (c : Call T α) (q : Query) : List Query :=
  match c with
  | .any | .count | .countByGroup _ => []
  | .distinct .. => [{ q with distinctBy := none }]
  | _ => [q]

/-- **Whether the query of an operation is logged as it is.** -/
def isLogged : Call T α → Bool
  | .any | .count | .countByGroup _ | .distinct .. => false
  | _ => true

variable {v : RemoteEvaluator T} {c : Call T α} {q : Query} {l : Logger}

/-- **What an operation leaves** whose query is composed: the messages of what is announced, all
of which has a text. -/
theorem exists_texts (hl : l.shouldLog .debug = true) (h : (c.queryUnder l v).outcome = .ok q) :
    ∃ texts : List Text, (c.announced q).map Query.text = texts.map .ok ∧
      c.queryUnder l v = leaving texts q := by
  -- most operations announce their query
  have hself {x : Run Query} (hx : ∃ text, q.text = .ok text ∧ x = leaving [text] q) :
      ∃ texts : List Text, [q].map Query.text = texts.map .ok ∧ x = leaving texts q := by
    obtain ⟨text, htext, rfl⟩ := hx
    exact ⟨[text], by rw [List.map_singleton, htext]; rfl, rfl⟩
  cases c with
  | any | count => exact ⟨[], rfl, (compose_ok h).1⟩
  | countByGroup key =>
    obtain ⟨p, hp, hq⟩ := Run.bind_eq_ok_iff.mp h
    cases hq
    refine ⟨[], rfl, ?_⟩
    show v.compose .countByGroup v.negate >>= _ = _
    rw [(compose_ok hp).1]
    rfl
  | first | firstFailed | last | lastFailed | all | allFailed =>
    exact hself (describeSelectUnder_ok hl h).2
  | min | max | sum | average => exact hself (describeReductionUnder_ok hl h)
  | paged page size order =>
    obtain ⟨_, -, heq⟩ := (v.limits.requirePage_checks page size).tacit.exists_eq h
    exact hself ((describeSelectUnder_ok hl (heq ▸ h)).2.imp fun _ ht => ⟨ht.1, heq.trans ht.2⟩)
  | top n order =>
    obtain ⟨_, -, heq⟩ := (v.limits.requireTop_checks n).tacit.exists_eq h
    exact hself ((describeSelectUnder_ok hl (heq ▸ h)).2.imp fun _ ht => ⟨ht.1, heq.trans ht.2⟩)
  | distinct field order =>
    obtain ⟨p, hp, hq⟩ := Run.bind_eq_ok_iff.mp h
    obtain ⟨hdistinct, text, htext, hleaving⟩ := describeSelectUnder_ok hl hp
    cases hq
    refine ⟨[text], ?_, ?_⟩
    · -- the field is added to a query that has none and that was logged without it
      show [Query.text { p with distinctBy := none }] = [.ok text]
      rw [← hdistinct, htext]
    · show v.describeSelectUnder l v.negate order none none >>= _ = _
      rw [hleaving]
      rfl

/-- **The query of an operation is logged as it is** exactly if the operation is none of the
four. -/
theorem announced_iff {texts : List Text} (h : (c.queryUnder l v).outcome = .ok q)
    (htexts : (c.announced q).map Query.text = texts.map .ok) :
    (∃ text, q.text = .ok text ∧ texts.map composedMessage = [composedMessage text])
      ↔ c.isLogged = true := by
  cases c with
  | any | count | countByGroup =>
    obtain rfl := List.map_eq_nil_iff.mp htexts.symm
    exact iff_of_false nofun Bool.false_ne_true
  | distinct field order =>
    obtain ⟨p, -, hq⟩ := Run.bind_eq_ok_iff.mp h
    cases hq
    obtain ⟨text', rfl, htext'⟩ := List.map_eq_singleton_iff.mp htexts.symm
    refine iff_of_false ?_ Bool.false_ne_true
    rintro ⟨text, htext, heq⟩
    exact Query.text_ne_of_distinctBy rfl htext htext'.symm
      (composedMessage_inj (List.cons.inj heq).1)
  | _ =>
    obtain ⟨text, rfl, htext⟩ := List.map_eq_singleton_iff.mp htexts.symm
    exact iff_of_true ⟨text, htext.symm, rfl⟩ rfl

end Call

/-- **The log does not tell distinct entities from all of them.** -/
theorem deliver_distinct (l : Logger) (v : RemoteEvaluator T) {t : FieldType} (field : Field T t)
    (order : Option (SortOrder T)) :
    l.deliver ((Call.distinct field order).queryUnder l v).events
      = l.deliver ((Call.all order).queryUnder l v).events := by
  rw [Logger.deliver_eq_filter, Logger.deliver_eq_filter]
  exact congrArg _ (Run.messages_map ..)

/-- **What a log says of an operation** and of the query that it hands over. -/
structure LogsComposed (l : Logger) (v : RemoteEvaluator T) (c : Call T α) (q : Query) : Prop where
  /-- The query is handed over first. -/
  handed : (c.performUnder l v).requests = q :: (c.answer v.provider q).requests
  /-- When it is composed, the messages of what is announced are delivered and no others. -/
  delivered : ∃ texts : List Text, (c.announced q).map Query.text = texts.map .ok ∧
    l.deliver (c.queryUnder l v).events = texts.map composedMessage
  /-- These are the message of the query, once, exactly if the operation is neither one for
  existence, a count or the counts of groups, nor one for distinct entities. -/
  whole : (∃ text, q.text = .ok text ∧
    l.deliver (c.queryUnder l v).events = [composedMessage text]) ↔ c.isLogged = true

/-- **The log shows the query that is handed over** for all operations but four. -/
theorem logs_composed {l : Logger} {v : RemoteEvaluator T} {c : Call T α} {q : Query}
    (hl : l.threshold? = some .debug ∨ l.threshold? = some .trace)
    (hq : (c.queryUnder l v).outcome = .ok q) : LogsComposed l v c q := by
  have hshould : l.shouldLog .debug = true := by
    refine (l.shouldLog_eq_admits (composedMessage .empty)).trans ?_
    rcases hl with h | h <;> rw [h] <;> rfl
  obtain ⟨texts, htexts, hleaving⟩ := Call.exists_texts hshould hq
  have hdelivered : l.deliver (c.queryUnder l v).events = texts.map composedMessage := by
    rw [hleaving, deliver_leaving hshould]
  refine ⟨?_, ⟨texts, htexts, hdelivered⟩, ?_⟩
  · rw [Call.performUnder, Run.requests_bind_ok hq, hleaving, requests_leaving,
      Run.requests_bind_ok (Run.outcome_event _)]
    rfl
  · rw [hdelivered]
    exact Call.announced_iff hq htexts

/-- Selecting pairs of flags, by queries. -/
def flagEvaluator : RemoteEvaluator (Bool × Bool) :=
  ⟨flagTable.provider, "pairs", Predicate.flags, true, ⟨2, 0⟩⟩

/-- The pairs with different left flags. -/
def distinctFlags : Call (Bool × Bool) (List (Bool × Bool)) :=
  .distinct Predicate.leftFlag (some flagOrder)

/-- Pairs by their left flag: the name of the flag is handed over and not logged. -/
theorem logs_composed_flags :
    let l : Logger := (Logger.start .empty .debug).logger
    l.threshold? = some .debug ∧
      ∃ q, (distinctFlags.queryUnder l flagEvaluator).outcome = .ok q ∧
        q.distinctBy = some Predicate.leftFlag.name ∧
        LogsComposed l flagEvaluator distinctFlags q :=
  ⟨rfl, _, rfl, rfl, logs_composed (.inl rfl) rfl⟩

/-- **A query that is handed over may be missing from the log.** -/
theorem not_logged_as_composed : ¬ ∀ (l : Logger) (v : RemoteEvaluator (Bool × Bool))
    (c : Call (Bool × Bool) (List (Bool × Bool))) (q : Query), l.threshold? = some .debug →
      (c.queryUnder l v).outcome = .ok q → ∃ text, q.text = .ok text ∧
        l.deliver (c.queryUnder l v).events = [composedMessage text] := by
  intro h
  let l : Logger := (Logger.start .empty .debug).logger
  have hq : (distinctFlags.queryUnder l flagEvaluator).outcome = .ok _ := rfl
  obtain ⟨texts, htexts, hleaving⟩ := Call.exists_texts rfl hq
  have hmessage := h l flagEvaluator distinctFlags _ rfl hq
  rw [hleaving, deliver_leaving rfl] at hmessage
  exact Bool.false_ne_true ((Call.announced_iff hq htexts).mp hmessage)

end RemoteEvaluator

end Criteria
