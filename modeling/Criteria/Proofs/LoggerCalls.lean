import Criteria.Config
import Criteria.Proofs.Sequencing

/-!
# Calls of the logger

A logger is driven by calls (`Logger.Call`): it is started and stopped, obtained, its
threshold and its pattern are set, and messages are logged. Some calls start a logger that
is off before they do anything else, and a start logs a message of its own, so what is
delivered depends on more than the call at hand.

It depends on the calls before it through one thing only, the threshold in force: that of
the latest call that set one, `info` if the logger was started by a call that sets none, and
none if the logger is off (`Logger.inForce?`). The threshold of a logger is the one in force
(`Logger.threshold?_perform`), and of the messages that a call logs, those that it admits are
delivered (`Logger.delivered_perform`). A message by itself never starts a logger.
-/

namespace Criteria

/-! ## Messages -/

/-- The message of an event. -/
def Event.message? : Event → Option Message
  | .message s t => some (s, t)
  | _ => none

namespace Run

variable {α β : Type}

/-- **The messages of a run**, in order. -/
def messages (x : Run α) : List Message := x.events.filterMap Event.message?

end Run

namespace Logger

/-- The threshold of a logger, if it is on. -/
def threshold? (l : Logger) : Option Severity := l.settings.map LoggerSettings.threshold

/-- **Whether a threshold admits a message**; without a threshold none is admitted. -/
def admits (threshold : Option Severity) (m : Message) : Bool :=
  threshold.any fun t => t.rank ≤ m.1.rank

@[simp] theorem threshold?_on (settings : LoggerSettings) :
    threshold? ⟨some settings⟩ = some settings.threshold := rfl

@[simp] theorem admits_some (t : Severity) (m : Message) :
    admits (some t) m = decide (t.rank ≤ m.1.rank) := rfl

theorem shouldLog_eq_admits (l : Logger) (m : Message) :
    l.shouldLog m.1 = admits l.threshold? m := by
  unfold shouldLog threshold?
  cases l.settings <;> rfl

/-- **What is delivered** of some events are the messages that the threshold admits. -/
theorem deliver_eq_filter (l : Logger) (events : List Event) :
    l.deliver events = (events.filterMap Event.message?).filter (admits l.threshold?) := by
  unfold deliver
  rw [List.filter_filterMap]
  refine congrArg (List.filterMap · events) (funext fun e => ?_)
  cases e with
  | message s t => simp [Event.message?, Option.filter, ← shouldLog_eq_admits]
  | _ => rfl

theorem deliver_append (l : Logger) (events later : List Event) :
    l.deliver (events ++ later) = l.deliver events ++ l.deliver later :=
  List.filterMap_append

/-! ## Attending to events -/

/-- **What a logger makes of an event.** It delivers a message if it is on and the message
is not below its threshold; it does not start for one. -/
def attend (l : Logger) : Event → Change
  | .message s t => ⟨l, if l.shouldLog s then [(s, t)] else []⟩
  | _ => ⟨l, []⟩

/-- What a logger makes of events one after another. -/
def attendAll (l : Logger) : List Event → Change
  | [] => ⟨l, []⟩
  | e :: rest =>
    let now := l.attend e
    let after := attendAll now.logger rest
    ⟨after.logger, now.delivered ++ after.delivered⟩

/-- **An event leaves the logger as it is.** -/
theorem attend_eq (l : Logger) (e : Event) : l.attend e = ⟨l, l.deliver [e]⟩ := by
  cases e with
  | message s t => cases h : l.shouldLog s <;> simp [attend, deliver, h]
  | _ => rfl

/-- So do events one after another, and what is delivered of them is what is delivered of
each. -/
theorem attendAll_eq (l : Logger) (events : List Event) :
    l.attendAll events = ⟨l, l.deliver events⟩ := by
  induction events with
  | nil => rfl
  | cons e rest ih =>
    rw [attendAll, attend_eq]
    dsimp only
    rw [ih, ← deliver_append, List.singleton_append]

/-! ## Calls -/

/-- **A call of the logger.** No log file is given. -/
inductive Call
  /-- Starts the logger. -/
  | start (threshold : Severity)
  /-- Stops it. -/
  | stop
  /-- Obtains it. -/
  | obtain
  /-- Sets the threshold. -/
  | setThreshold (threshold : Severity)
  /-- Sets the pattern. -/
  | setPattern (pattern : Text)
  /-- Applies the settings of a configuration. -/
  | apply (level pattern : Text)
  /-- Logs a text with an argument. -/
  | log (severity : Severity) (text argument : Text)

/-- **What a call does.** -/
def perform (l : Logger) : Call → Change
  | .start threshold => start .empty threshold
  | .stop => ⟨stopped, []⟩
  | .obtain => l.obtain
  | .setThreshold threshold => l.setThreshold threshold
  | .setPattern pattern => l.setPattern pattern
  | .apply level pattern => Config.applyLogging { logging := ⟨level, pattern, .empty⟩ } l
  | .log severity text argument => l.attend (compose severity text argument)

/-- **The threshold in force after some calls**, the latest of them first. -/
def inForce? : List Call → Option Severity
  | [] => none
  | .stop :: _ => none
  | .start threshold :: _ => some threshold
  | .setThreshold threshold :: _ => some threshold
  | .apply level _ :: _ => some (Severity.ofName level)
  | .obtain :: earlier => some ((inForce? earlier).getD .info)
  | .setPattern _ :: earlier => some ((inForce? earlier).getD .info)
  | .log .. :: earlier => inForce? earlier

/-- The message of a logger that is started. -/
def startMessage (threshold : Severity) : Message :=
  (.debug, "Logger initialized (level=" ++ threshold.name ++ ", file='" ++ .empty ++ "')")

/-- **The messages of a call**, each with the threshold in force when it is logged: that of
a start is the new one already. -/
def Call.messages (before : Option Severity) : Call → List (Option Severity × Message)
  | .start threshold => [(some threshold, startMessage threshold)]
  | .stop => []
  | .obtain | .setThreshold _ | .setPattern _ =>
    if before = none then [(some .info, startMessage .info)] else []
  | .apply level _ =>
    if before = none then
      [(some (Severity.ofName level), startMessage (Severity.ofName level))]
    else []
  | .log severity text argument =>
    ((compose severity text argument).message?.map (before, ·)).toList

/-- Of messages with their thresholds, those that are admitted. -/
def admitted (logged : List (Option Severity × Message)) : List Message :=
  (logged.filter fun entry => admits entry.1 entry.2).map Prod.snd

theorem admitted_append (logged later : List (Option Severity × Message)) :
    admitted (logged ++ later) = admitted logged ++ admitted later := by
  simp [admitted]

/-- Of messages under one threshold, those that it admits. -/
theorem admitted_map (threshold : Option Severity) (ms : List Message) :
    admitted (ms.map (threshold, ·)) = ms.filter (admits threshold) := by
  rw [admitted, List.filter_map, List.map_map]
  exact List.map_id _

theorem delivered_start (threshold : Severity) :
    (start .empty threshold).delivered = admitted [(some threshold, startMessage threshold)] := by
  refine (deliver_eq_filter _ _).trans ?_
  exact (admitted_map (some threshold) [startMessage threshold]).symm

/-- **A call sets the threshold in force.** -/
theorem threshold?_perform {l : Logger} {past : List Call} (h : l.threshold? = inForce? past)
    (c : Call) : (l.perform c).logger.threshold? = inForce? (c :: past) := by
  cases c with
  | start | stop => rfl
  | log => exact h
  | obtain | setPattern =>
    rw [inForce?, ← h]
    obtain ⟨_ | settings⟩ := l <;> rfl
  | setThreshold | apply => obtain ⟨_ | settings⟩ := l <;> rfl

/-- **Of the messages that a call logs, those that are admitted are delivered.** -/
theorem delivered_perform (l : Logger) (c : Call) :
    (l.perform c).delivered = admitted (c.messages l.threshold?) := by
  cases c with
  | start threshold => exact delivered_start threshold
  | stop => rfl
  | log severity text argument =>
    show (l.attend (compose severity text argument)).delivered = _
    rw [attend_eq]
    dsimp only
    rw [deliver_eq_filter]
    exact (admitted_map l.threshold? _).symm
  | obtain | setThreshold | setPattern =>
    obtain ⟨_ | settings⟩ := l <;> rfl
  | apply level pattern =>
    obtain ⟨_ | settings⟩ := l
    · -- the start logs a message, and the pattern is set of a logger that is on
      show (start .empty (Severity.ofName level)).delivered ++ [] = _
      rw [List.append_nil, delivered_start]
      rfl
    · rfl

end Logger

end Criteria
