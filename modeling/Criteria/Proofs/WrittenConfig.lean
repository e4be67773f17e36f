import Criteria.Proofs.ConfiguredLimits

/-!
# A configuration that is written and read again

Reading is not the inverse of writing: many values hold one configuration, since what is missing
has its usual setting and what is not known is skipped. Which configuration a value holds can be
said without reading it (`Config.Held`): the sections that are there are objects, and each of the
five settings is what its entry says, or the usual one if there is no entry.

A value is read as a configuration if and only if it holds it (`Config.outcome_eq_ok_iff_held`).
The value that is written of a configuration holds it, the file included, which is left out only
if it is the usual one (`Config.held_toValue`). So whatever value is read, what is written of the
result is read as the result again (`Config.survives_writing`). Nothing of the value is left by
then but the five entries: any other value with the same entries does as well.
-/

namespace Criteria

namespace Config

/-! ## The settings of the log -/

/-- **The texts that the log has.** -/
inductive LogName
  | level | pattern | file

/-- The key of a text in its section. -/
def LogName.key : LogName → Text
  | level => "level"
  | pattern => "pattern"
  | file => "file"

/-- A text among the settings. -/
def LogName.of : LogName → LogConfig → Text
  | level => LogConfig.level
  | pattern => LogConfig.pattern
  | file => LogConfig.file

/-- **The entry of a text** in a value, if there is one. -/
def text? (v : Value) (s : LogName) : Option Value := (v.get? "logging").bind (·.get? s.key)

/-- **What a text is loaded from**: no entry is the usual text, and a string is itself. -/
def TextFrom (usual : Text) : Option Value → Text → Prop
  | none, t => t = usual
  | some v, t => v = .string t

theorem text_eq_ok_iff (v : Value) (t : Text) :
    FieldType.text.ofValue v = .ok t ↔ v = .string t := by
  constructor
  · intro h
    cases v with
    | string s => exact congrArg Value.string (Except.ok.inj h)
    | _ => cases h
  · rintro rfl
    rfl

theorem textSetting_eq_ok_iff (part : Value) (key usual t : Text) :
    textSetting part key usual = .ok t
      ↔ (∃ ms, part = .object ms) ∧ TextFrom usual (part.get? key) t := by
  rw [textSetting, setting_eq_ok_iff]
  refine and_congr_right' ?_
  cases part.get? key with
  | none => exact Iff.rfl
  | some v => exact text_eq_ok_iff v t

/-- **The settings of the log are read** exactly if their section is an object and every entry a
string. -/
theorem readLogging_eq_ok_iff (v : Value) (c : LogConfig) :
    readLogging v = .ok c ↔
      (∀ part ∈ v.get? "logging", ∃ ms, part = .object ms) ∧
        ∀ s : LogName, TextFrom (s.of {}) (text? v s) (s.of c) := by
  unfold readLogging text?
  cases v.get? "logging" with
  | none =>
    constructor
    · intro h
      cases h
      exact ⟨nofun, fun _ => rfl⟩
    · rintro ⟨-, h⟩
      obtain ⟨level, pattern, file⟩ := c
      obtain rfl : level = ({} : LogConfig).level := h .level
      obtain rfl : pattern = ({} : LogConfig).pattern := h .pattern
      obtain rfl : file = .empty := h .file
      rfl
  | some part =>
    constructor
    · intro h
      obtain ⟨level, hlevel, h⟩ := exists_of_bind_eq_ok h
      obtain ⟨pattern, hpattern, h⟩ := exists_of_bind_eq_ok h
      obtain ⟨file, hfile, h⟩ := exists_of_bind_eq_ok h
      cases h
      obtain ⟨hobject, hlevel⟩ := (textSetting_eq_ok_iff ..).mp hlevel
      obtain ⟨-, hpattern⟩ := (textSetting_eq_ok_iff ..).mp hpattern
      obtain ⟨-, hfile⟩ := (textSetting_eq_ok_iff ..).mp hfile
      refine ⟨fun _ hpart => Option.some.inj hpart ▸ hobject, fun s => ?_⟩
      cases s with
      | level => exact hlevel
      | pattern => exact hpattern
      | file => exact hfile
    · rintro ⟨hobject, h⟩
      have hread (s : LogName) : textSetting part s.key (s.of {}) = .ok (s.of c) :=
        (textSetting_eq_ok_iff ..).mpr ⟨hobject part rfl, h s⟩
      show (textSetting part LogName.level.key (LogName.level.of {}) >>= fun level =>
        textSetting part LogName.pattern.key (LogName.pattern.of {}) >>= fun pattern =>
        textSetting part LogName.file.key (LogName.file.of {}) >>= fun file =>
          .ok (⟨level, pattern, file⟩ : LogConfig)) = _
      rw [hread, hread, hread]
      rfl

/-! ## What a value holds -/

/-- **A value in sections**: those of the two that are there are objects. -/
def Sectioned (v : Value) : Prop :=
  ∀ key : Text, key = "logging" ∨ key = "limits" → ∀ part ∈ v.get? key, ∃ ms, part = .object ms

/-- **A value holds a configuration.** -/
structure Held (v : Value) (c : Config) : Prop where
  /-- The sections are objects. -/
  sections : Sectioned v
  /-- The texts of the log are the strings of their entries, or the usual ones. -/
  texts (s : LogName) : TextFrom (s.of {}) (text? v s) (s.of c.logging)
  /-- The limits are the words of their entries, or zero. -/
  limits (l : LimitName) : LoadedFrom (given? v l) (l.of c.limits)

/-- **Reading is to find what is held.** -/
theorem outcome_eq_ok_iff_held (v : Value) (c : Config) :
    (ofValue v).outcome = .ok c ↔ Held v c := by
  rw [outcome_ofValue_eq_ok_iff, readLogging_eq_ok_iff, readLimits_eq_ok_iff]
  constructor
  · rintro ⟨⟨hlogging, htexts⟩, hlimits, hwords⟩
    refine ⟨?_, htexts, hwords⟩
    rintro key (rfl | rfl)
    · exact hlogging
    · exact hlimits
  · intro h
    exact ⟨⟨h.sections _ (.inl rfl), h.texts⟩, h.sections _ (.inr rfl), h.limits⟩

/-- **A configuration that is read leaves no message.** -/
theorem ofValue_eq_done {v : Value} {c : Config} (h : (ofValue v).outcome = .ok c) :
    ofValue v = .done c := by
  obtain ⟨hlogging, hlimits⟩ := (outcome_ofValue_eq_ok_iff v c).mp h
  rw [ofValue, hlogging, hlimits]
  rfl

/-! ## What is written -/

/-- The entry of a text in what is written: the file has none if it is empty. -/
theorem get?_logValue (c : LogConfig) (s : LogName) : TextFrom (s.of {})
    ((logValue c).get? s.key) (s.of c) := by
  unfold logValue
  cases hfile : c.file.isEmpty with
  | true =>
    have hempty : c.file = .empty := congrArg Text.mk (List.isEmpty_iff.mp hfile)
    cases s with
    | level | pattern => rfl
    | file => exact hempty
  | false => cases s <;> rfl

/-- **What is written of a configuration holds it.** -/
theorem held_toValue (c : Config) : Held c.toValue c where
  sections := by
    rintro key (rfl | rfl) part hpart <;> exact ⟨_, (Option.some.inj hpart).symm⟩
  texts := get?_logValue c.logging
  limits l := by
    cases l with
    | pageSize => exact ⟨_, rfl, (Number.word_uint c.limits.maxPageSize).symm⟩
    | topCount => exact ⟨_, rfl, (Number.word_uint c.limits.maxTopCount).symm⟩

/-- **What is written is read as it was**, without a message. -/
theorem ofValue_toValue (c : Config) : ofValue c.toValue = .done c :=
  ofValue_eq_done ((outcome_eq_ok_iff_held ..).mpr (held_toValue c))

/-- **A value that is read as a configuration.** -/
structure ReadAs (v : Value) (c : Config) : Prop where
  /-- It holds the configuration, -/
  held : Held v c
  /-- and is read without a message. -/
  read : ofValue v = .done c
  /-- What is written of the configuration is read as it again. -/
  again : ofValue c.toValue = .done c
  /-- Nothing but the five entries matters: a value with the same ones, and objects for
  sections, is read as the same configuration, whatever else it has. -/
  entries (w : Value) : Sectioned w → (∀ s, text? w s = text? v s) →
    (∀ l, given? w l = given? v l) → ofValue w = .done c

/-- **A configuration survives writing**: what is written of it is read as it, and so is what is
written after a value was read, whatever the value has left out or has besides. -/
theorem survives_writing (c : Config) (v : Value) :
    ofValue c.toValue = .done c ∧ ∀ d, (ofValue v).outcome = .ok d → ReadAs v d := by
  refine ⟨ofValue_toValue c, fun d hd => ?_⟩
  have hheld := (outcome_eq_ok_iff_held v d).mp hd
  refine ⟨hheld, ofValue_eq_done hd, ofValue_toValue d, fun w hsections htexts hlimits => ?_⟩
  refine ofValue_eq_done ((outcome_eq_ok_iff_held w d).mpr ⟨hsections, fun s => ?_, fun l => ?_⟩)
  · rw [htexts]
    exact hheld.texts s
  · rw [hlimits]
    exact hheld.limits l

/-- A value with a section of its own and a key of its own, and without a pattern, a file and one
of the limits. The other limit is negative. -/
theorem survives_writing_partial :
    let v : Value := .object [("cache", .bool true),
      ("limits", .object [("max_rows", .null), ("max_top_count", .int (-1))]),
      ("logging", .object [("level", .string "debug")])]
    let d : Config := { logging := { level := "debug" },
                        limits := { maxTopCount := 18446744073709551615 } }
    (ofValue v).outcome = .ok d ∧ ReadAs v d := by
  intro v d
  have hd : (ofValue v).outcome = .ok d := rfl
  exact ⟨hd, (survives_writing d v).2 d hd⟩

end Config

end Criteria
