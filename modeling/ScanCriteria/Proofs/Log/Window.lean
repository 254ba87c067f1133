import Mathlib.Data.List.DropRight
import ScanCriteria.Log.Service

/-!
# The window of the event buffer

A service that keeps its events in memory is called to log an event or to forget what it has. After
any calls its buffer is a window on the events that it admitted since it last forgot: the newest of
them, up to the limit, in the order in which they came.
-/
namespace ScanCriteria

namespace Buffer

variable {limit : Nat} {b : Buffer} {history : List Event}

/-- A buffer within the limit shows the newest events of a history. -/
theorem toList_pushWithin_of_rtake (bound : 0 < limit) (h : b.toList = history.rtake limit)
    (e : Event) : (b.pushWithin limit e).toList = (history ++ [e]).rtake limit := by
  have hsize : b.size = history.length - (history.length - limit) := by
    rw [← length_toList, h, List.rtake, List.length_drop]
  rw [toList_pushWithin bound, h, hsize]
  simp only [List.rtake, List.length_append, List.length_singleton]
  by_cases hfull : limit ≤ history.length
  · have hover : history.length - (history.length - limit) + 1 - limit = 1 := by omega
    have hnext : history.length + 1 - limit = history.length - limit + 1 := by omega
    have hroom : history.length - limit ≤ history.length := by omega
    rw [hover, hnext, ← List.drop_append_of_le_length hroom, List.drop_drop]
  · have hover : history.length - (history.length - limit) + 1 - limit = 0 := by omega
    have hall : history.length - limit = 0 := by omega
    have hnext : history.length + 1 - limit = 0 := by omega
    rw [hover, hall, hnext, List.drop_zero, List.drop_zero, List.drop_zero]

theorem toList_push_of_rtake (h : b.toList = history.rtake Limits.bufferedEvents) (e : Event) :
    (b.push e).toList = (history ++ [e]).rtake Limits.bufferedEvents :=
  toList_pushWithin_of_rtake (by decide) h e

theorem length_eq_countP_levels (es : List Event) :
    es.countP (·.isError) + es.countP (·.isWarning) + es.countP (·.isInfo) + es.countP (·.isDebug)
      = es.length := by
  induction es with
  | nil => rfl
  | cons e es ih =>
    simp only [List.countP_cons, List.length_cons, ← ih]
    cases h : e.level <;> simp [Event.isError, Event.isWarning, Event.isInfo, Event.isDebug, h] <;>
      omega

theorem summary_levels (b : Buffer) :
    b.summary.errors + b.summary.warnings + b.summary.infos + b.summary.debugs = b.size := by
  rw [← length_toList]
  exact length_eq_countP_levels b.toList

theorem summary_criticals_le (b : Buffer) : b.summary.criticals ≤ b.summary.errors :=
  List.countP_mono_left fun _ _ h => (Bool.and_eq_true_iff.mp h).1

end Buffer

/-- A call on a service that keeps its events in memory. -/
inductive LogCall where
  | log (e : Event)
  | clear

namespace LogCall

def event? : LogCall → Option Event
  | log e => some e
  | clear => none

def isLog (c : LogCall) : Bool := c.event?.isSome

def apply (s : Service) : LogCall → Service
  | log e => (s.log e).1
  | clear => s.clear

/-- The service after some calls. -/
def run (s : Service) (calls : List LogCall) : Service := calls.foldl apply s

/-- The events logged since the last call to forget, oldest first. -/
def sinceClear (calls : List LogCall) : List Event :=
  (calls.rtakeWhile isLog).filterMap event?

/-- Of these, what a service with a minimum level hands to its logger: the events at this level or
graver, with their messages clamped. -/
def admitted (minimum : Level) (calls : List LogCall) : List Event :=
  ((sinceClear calls).filter fun e => e.level.rank ≤ minimum.rank).map
    fun e => { e with message := clampMessage e.message }

theorem run_concat (s : Service) (calls : List LogCall) (c : LogCall) :
    run s (calls ++ [c]) = apply (run s calls) c := by
  rw [run, List.foldl_concat, run]

theorem sinceClear_nil : sinceClear [] = [] := by
  rw [sinceClear, List.rtakeWhile_nil, List.filterMap_nil]

theorem sinceClear_log (calls : List LogCall) (e : Event) :
    sinceClear (calls ++ [.log e]) = sinceClear calls ++ [e] := by
  rw [sinceClear, List.rtakeWhile_concat_pos _ _ _ rfl, List.filterMap_append]
  rfl

theorem sinceClear_clear (calls : List LogCall) : sinceClear (calls ++ [.clear]) = [] := by
  have hstop : ¬LogCall.clear.isLog = true := by decide
  rw [sinceClear, List.rtakeWhile_concat_neg _ _ _ hstop, List.filterMap_nil]

variable {minimum : Level} {calls : List LogCall} {b : Buffer}

/-- What a service in front of a buffer looks like after some calls. -/
structure Shows (minimum : Level) (calls : List LogCall) (b : Buffer) : Prop where
  service : run (.ofLogger (.memory .empty) minimum) calls = .ofLogger (.memory b) minimum
  window : b.toList = (admitted minimum calls).rtake Limits.bufferedEvents

theorem shows_nil : Shows minimum [] .empty := by
  constructor
  · rfl
  · simp only [admitted, sinceClear_nil, List.filter_nil, List.map_nil, List.rtake_nil,
      Buffer.toList_empty]

theorem Shows.clear (h : Shows minimum calls b) : Shows minimum (calls ++ [.clear]) .empty := by
  constructor
  · rw [run_concat, h.service]
    rfl
  · simp only [admitted, sinceClear_clear, List.filter_nil, List.map_nil, List.rtake_nil,
      Buffer.toList_empty]

theorem Shows.log (h : Shows minimum calls b) (e : Event) :
    ∃ b, Shows minimum (calls ++ [.log e]) b := by
  have hadmits : (Service.ofLogger (.memory b) minimum).admits e.level =
      decide (e.level.rank ≤ minimum.rank) := rfl
  by_cases hlevel : e.level.rank ≤ minimum.rank
  · refine ⟨b.push { e with message := clampMessage e.message }, ?_, ?_⟩
    · rw [run_concat, h.service, apply, Service.log, hadmits, decide_eq_true hlevel]
      rfl
    · rw [Buffer.toList_push_of_rtake h.window, admitted, admitted, sinceClear_log,
        List.filter_append, List.map_append]
      simp [hlevel]
  · refine ⟨b, ?_, ?_⟩
    · rw [run_concat, h.service, apply, Service.log, hadmits, decide_eq_false hlevel]
      rfl
    · rw [h.window, admitted, admitted, sinceClear_log, List.filter_append, List.map_append]
      simp [hlevel]

theorem exists_shows (minimum : Level) (calls : List LogCall) : ∃ b, Shows minimum calls b := by
  induction calls using List.reverseRecOn with
  | nil => exact ⟨.empty, shows_nil⟩
  | append_singleton calls c ih =>
    obtain ⟨b, h⟩ := ih
    cases c with
    | log e => exact h.log e
    | clear => exact ⟨.empty, h.clear⟩

/-- After any calls the buffer holds the newest of the admitted events, queries filter them in their
order, and the counts of the levels add up. -/
theorem buffer_after_calls (minimum : Level) (calls : List LogCall) :
    ∃ b : Buffer,
      run (.ofLogger (.memory .empty) minimum) calls = .ofLogger (.memory b) minimum ∧
      b.toList = (admitted minimum calls).rtake Limits.bufferedEvents ∧
      b.size = min (admitted minimum calls).length Limits.bufferedEvents ∧
      b.size ≤ Limits.bufferedEvents ∧
      b.errors = b.toList.filter (·.level = .error) ∧
      b.warnings = b.toList.filter (·.level = .warning) ∧
      (∀ c, b.withCode c = b.toList.filter (·.code = c)) ∧
      (∀ category, b.inCategory category =
        b.toList.filter fun e => (Code.entry e.code).category = category) ∧
      b.summary.errors + b.summary.warnings + b.summary.infos + b.summary.debugs =
        b.summary.total ∧
      b.summary.total = b.size ∧ b.summary.criticals ≤ b.summary.errors := by
  obtain ⟨b, h⟩ := exists_shows minimum calls
  have hsize : b.size = min (admitted minimum calls).length Limits.bufferedEvents := by
    rw [← Buffer.length_toList, h.window, List.rtake, List.length_drop]
    omega
  have hbound : b.size ≤ Limits.bufferedEvents := hsize ▸ Nat.min_le_right _ _
  exact ⟨b, h.service, h.window, hsize, hbound, rfl, rfl, fun _ => rfl, fun _ => rfl,
    b.summary_levels, rfl, b.summary_criticals_le⟩

end LogCall
end ScanCriteria
