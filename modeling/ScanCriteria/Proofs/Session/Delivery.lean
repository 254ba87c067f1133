import ScanCriteria.Proofs.Log.Window
import ScanCriteria.Proofs.Session.Deeds

/-!
# What is seen of events

Whoever looks at a session sees of its events what the logger has made of them: those that are kept
in memory, or the lines and records that have been put out. `Logs s es t` says that from `s` to `t`
this is just what is to be seen of the events `es`. The events that an action hands to the service
are logged in this sense if their level is admitted, with their messages clamped.
-/
namespace ScanCriteria

theorem rtake_of_length_le {α : Type} {n : Nat} {l : List α} (h : l.length ≤ n) :
    l.rtake n = l := by
  rw [List.rtake, Nat.sub_eq_zero_of_le h, List.drop_zero]

theorem rtake_rtake_append {α : Type} (n : Nat) (l m : List α) :
    (l.rtake n ++ m).rtake n = (l ++ m).rtake n := by
  have hle : l.length - n ≤ l.length := Nat.sub_le _ _
  simp only [List.rtake, List.length_append, List.length_drop]
  rw [← List.drop_append_of_le_length hle, List.drop_drop]
  congr 1
  omega

/-- The event as loggers get it. -/
def Event.clamped (e : Event) : Event := { e with message := clampMessage e.message }

/-- Nothing but the context of an event depends on what is put into it. -/
theorem Event.withContexts_eq (entries : List (String × String)) (e : Event) :
    e.withContexts entries = { e with context := (e.withContexts entries).context } := by
  induction entries generalizing e with
  | nil => rfl
  | cons entry entries ih => exact ih (e.withContext entry.1 entry.2)

def Emission.report? : Emission → Option String
  | .report text => some text
  | _ => none

namespace Logger

/-- A line for an event, on standard error if it is an error. -/
def lines (minimum : Level) (e : Event) (text : String) : List Emission :=
  if e.level.rank ≤ minimum.rank then
    if e.level = .error then [.stderr text] else [.stdout text]
  else []

/-- What a logger puts out for an event. -/
def output (e : Event) : Logger → List Emission
  | facade minimum => if e.level.rank ≤ minimum.rank then [.record e.level e.recordText] else []
  | console minimum => lines minimum e e.format
  | structured minimum => lines minimum e e.formatJson
  | memory _ => []

theorem line_eq (minimum : Level) (e : Event) (text : String) :
    (if minimum.admits e.level then [line e text] else []) = lines minimum e text := by
  simp only [Level.admits, decide_eq_true_eq, line, Event.isError, beq_iff_eq, lines]
  split
  · split <;> rfl
  · rfl

theorem log_output (e : Event) (l : Logger) : (l.log e).2 = l.output e := by
  cases l with
  | facade minimum => simp only [log, Level.admits, decide_eq_true_eq, output]
  | console minimum => exact line_eq minimum e _
  | structured minimum => exact line_eq minimum e _
  | memory b => rfl

theorem log_of_unremembering (e : Event) {l : Logger} (h : l.buffer? = none) :
    (l.log e).1 = l := by
  cases l with
  | memory b => cases h
  | facade | console | structured => rfl

/-- Events do not get into the report. -/
theorem report?_of_mem_output {e : Event} {l : Logger} {x : Emission} (hx : x ∈ l.output e) :
    x.report? = none := by
  cases l <;> simp only [output, lines] at hx
  all_goals grind [Emission.report?]

end Logger

theorem Service.log_taken {v : Service} {e : Event} (h : v.admits e.level = true) :
    v.log e = ({ v with logger := (v.logger.log e.clamped).1 }, v.logger.output e.clamped) := by
  rw [Service.log, if_pos h, ← Logger.log_output]
  rfl

theorem Service.log_heldBack {v : Service} {e : Event} (h : v.admits e.level = false) :
    v.log e = (v, []) := by
  rw [Service.log, h]
  rfl

namespace Session

/-- What has been put out, but for the report. -/
def putOut (s : Session) : List Emission := s.emitted.toList.filter (·.report?.isNone)

/-- What the logger puts out for an event. -/
def shown (s : Session) (e : Event) : List Emission :=
  (s.service.map (·.logger.output e)).getD []

theorem putOut_of_emitted {s t : Session} {out : List Emission}
    (h : t.emitted.toList = s.emitted.toList ++ out) (hout : ∀ x ∈ out, x.report? = none) :
    t.putOut = s.putOut ++ out := by
  rw [putOut, h, List.filter_append, putOut]
  congr 1
  exact List.filter_eq_self.mpr fun x hx => by rw [hout x hx]; rfl

theorem perform_of_not_admits {s : Session} {e : Event}
    (h : s.outlook.admits e.level = false) : s.perform (.log e) = s := by
  rw [outlook_admits] at h
  obtain ⟨environment, clock, preferences, service, input, room, emitted⟩ := s
  cases service with
  | none => rfl
  | some v =>
    change Session.mk environment clock preferences (some (v.log e).1) input room
      (emitted ++ (v.log e).2) = _
    rw [Service.log_heldBack h]
    simp

end Session

/-- From `s` to `t` the events `es` have been logged: where events are kept in memory they are the
newest ones there, and otherwise they have been put out. -/
structure Logs (s : Session) (es : List Event) (t : Session) : Prop where
  unserved : s.service = none → es = [] ∧ t.service = none
  remembered {b : Buffer} {minLevel : Level} {kind : Option LoggerKind} :
    s.service = some ⟨.memory b, minLevel, kind⟩ →
      ∃ b', t.service = some ⟨.memory b', minLevel, kind⟩ ∧
        (b.size ≤ Limits.bufferedEvents →
          b'.toList = (b.toList ++ es).rtake Limits.bufferedEvents)
  unremembered {v : Service} : s.service = some v → v.logger.buffer? = none → t.service = some v
  putOut : t.putOut = s.putOut ++ es.flatMap s.shown

namespace Logs

variable {s t u : Session} {es fs : List Event}

theorem of_same (hservice : t.service = s.service) (hout : t.putOut = s.putOut) :
    Logs s [] t where
  unserved h := ⟨rfl, hservice.trans h⟩
  remembered {b _ _} h := by
    refine ⟨b, hservice.trans h, fun hb => ?_⟩
    rw [List.append_nil, rtake_of_length_le (b.length_toList.trans_le hb)]
  unremembered h _ := hservice.trans h
  putOut := hout.trans (List.append_nil _).symm

/-- The logger is of the same sort afterwards. -/
theorem shown_eq (h : Logs s es t) : t.shown = s.shown := by
  funext e
  cases hs : s.service with
  | none => rw [Session.shown, Session.shown, hs, (h.unserved hs).2]
  | some v =>
    cases hv : v.logger.buffer? with
    | none => rw [Session.shown, Session.shown, hs, h.unremembered hs hv]
    | some b =>
      obtain ⟨_ | _ | _ | _, minLevel, kind⟩ := v <;> cases hv
      obtain ⟨b', ht, -⟩ := h.remembered hs
      rw [Session.shown, Session.shown, hs, ht]
      rfl

theorem trans (h : Logs s es t) (h' : Logs t fs u) : Logs s (es ++ fs) u where
  unserved hs := by
    obtain ⟨rfl, ht⟩ := h.unserved hs
    exact h'.unserved ht
  remembered hs := by
    obtain ⟨b', ht, hb'⟩ := h.remembered hs
    obtain ⟨b'', hu, hb''⟩ := h'.remembered ht
    refine ⟨b'', hu, fun hb => ?_⟩
    have hsize : b'.size ≤ Limits.bufferedEvents := by
      rw [← b'.length_toList, hb' hb, List.rtake, List.length_drop]
      omega
    rw [hb'' hsize, hb' hb, rtake_rtake_append, List.append_assoc]
  unremembered hs hv := h'.unremembered (h.unremembered hs hv) hv
  putOut := by rw [h'.putOut, h.putOut, h.shown_eq, List.flatMap_append, List.append_assoc]

end Logs

def Deed.event? : Deed → Option Event
  | log e => some e
  | write _ | work _ | prefer _ => none

namespace Outlook

/-- What the logger gets of the events that are handed to the service. -/
def received (o : Outlook) (es : List Event) : List Event :=
  (es.filter fun e => o.admits e.level).map Event.clamped

theorem received_append (o : Outlook) (es fs : List Event) :
    o.received (es ++ fs) = o.received es ++ o.received fs := by
  rw [received, List.filter_append, List.map_append, received, received]

/-- Deeds do not change what is admitted. -/
theorem received_after (o : Outlook) (d : Deed) (es : List Event) :
    (o.after d).received es = o.received es := by
  cases d <;> rfl

theorem received_afterAll (o : Outlook) (ds : List Deed) (es : List Event) :
    (o.afterAll ds).received es = o.received es := by
  induction ds generalizing o with
  | nil => rfl
  | cons d ds ih => rw [afterAll_cons, ih, received_after]

theorem attach_withContexts_eq (o : Outlook) (entries : List (String × String)) (e : Event) :
    ∃ context, o.attach (e.withContexts entries) = { e with context := context } := by
  cases h : o.input with
  | none => exact ⟨_, by rw [attach, h, Option.map_none, Option.getD_none, Event.withContexts_eq]⟩
  | some c =>
    exact ⟨_, by
      rw [attach, h, Option.map_some, Option.getD_some, Event.withContexts_eq c.entries,
        Event.withContexts_eq entries]⟩

/-- An event that is dispatched may as well be handed over before its level is looked at. -/
theorem received_dispatched (o : Outlook) (e : Event) (entries : List (String × String)) :
    o.received ((o.dispatched e entries).filterMap Deed.event?) =
      o.received [o.attach (e.withContexts entries)] := by
  rw [dispatched]
  split
  · rfl
  · next h =>
    obtain ⟨context, hattach⟩ := o.attach_withContexts_eq entries e
    rw [hattach]
    simp [received, h]

end Outlook

namespace Logs
open Session

/-- An event that the service admits reaches its logger. -/
theorem of_admits {s : Session} {v : Service} {e : Event} (hs : s.service = some v)
    (h : v.admits e.level = true) : Logs s [e.clamped] (s.perform (.log e)) := by
  obtain ⟨environment, clock, preferences, service, input, room, emitted⟩ := s
  obtain rfl : service = some v := hs
  have hlog : Session.perform ⟨environment, clock, preferences, some v, input, room, emitted⟩
      (.log e) = ⟨environment, clock, preferences,
        some { v with logger := (v.logger.log e.clamped).1 }, input, room,
        emitted ++ v.logger.output e.clamped⟩ := by
    rw [Session.perform, Session.logEvent]
    change Session.mk environment clock preferences (some (v.log e).1) input room
      (emitted ++ (v.log e).2) = _
    rw [Service.log_taken h]
  rw [hlog]
  constructor
  · intro h
    cases h
  · rintro b minLevel kind ⟨⟩
    refine ⟨b.push e.clamped, rfl, fun hb => ?_⟩
    exact Buffer.toList_push_of_rtake
      (rtake_of_length_le (b.length_toList.trans_le hb)).symm e.clamped
  · rintro v' ⟨⟩ hv
    rw [Logger.log_of_unremembering _ hv]
  · rw [List.flatMap_singleton]
    exact Session.putOut_of_emitted Array.toList_appendList
      fun x hx => Logger.report?_of_mem_output hx

theorem perform (s : Session) (d : Deed) :
    Logs s (s.outlook.received d.event?.toList) (s.perform d) := by
  cases d with
  | log e =>
    cases h : s.outlook.admits e.level with
    | false =>
      have hreceived : s.outlook.received [e] = [] := by simp [Outlook.received, h]
      rw [perform_of_not_admits h]
      exact hreceived ▸ .of_same rfl rfl
    | true =>
      have hreceived : s.outlook.received [e] = [e.clamped] := by simp [Outlook.received, h]
      rw [outlook_admits] at h
      cases hs : s.service with
      | none => simp [hs] at h
      | some v =>
        rw [hs] at h
        exact hreceived ▸ .of_admits hs h
  | write text =>
    rw [Session.perform, write_eq]
    refine .of_same rfl ?_
    rw [Session.putOut, Array.toList_push, List.filter_append]
    exact List.append_nil _
  | work c => exact .of_same rfl rfl
  | prefer p => exact .of_same rfl rfl

theorem replay (s : Session) (ds : List Deed) :
    Logs s (s.outlook.received (ds.filterMap Deed.event?)) (s.replay ds) := by
  induction ds generalizing s with
  | nil => exact .of_same rfl rfl
  | cons d ds ih =>
    have hrest := ih (s.perform d)
    rw [outlook_perform, Outlook.received_after] at hrest
    have hevents : (d :: ds).filterMap Deed.event? =
        d.event?.toList ++ ds.filterMap Deed.event? := by
      cases h : d.event? <;> simp [h]
    rw [hevents, Outlook.received_append]
    exact (perform s d).trans hrest

end Logs

/-- What an action hands to the service is logged, as far as it is admitted. -/
theorem Does.logs {α : Type} {x : SessionM α} {s : Session} {a : α} {ds : List Deed}
    (h : Does x s.outlook a ds) :
    Logs s (s.outlook.received (ds.filterMap Deed.event?)) (x s).2 := by
  rw [h s rfl]
  exact .replay s ds

end ScanCriteria
