import ScanCriteria.Command.Run

/-!
# What actions do to a session

All that an action of a run can see of a session is its outlook: neither the logger nor what was put
out before. So its deeds can be listed beforehand: the events that it hands to the service, the
pieces of report that it writes, the inputs that it sets to work. Replaying them on any session with
that outlook, whatever its logger, gives the session after the action.
-/
namespace ScanCriteria

inductive Deed where
  /-- Hands an event to the service. -/
  | log (e : Event)
  /-- Offers a piece of report to its reader, who may take only a part of it. -/
  | write (text : String)
  /-- Sets an input to work, or none. -/
  | work (c : Option InputContext)
  /-- Brings preferences into force. -/
  | prefer (p : Preferences)

/-- What an action can see of a session. -/
structure Outlook where
  environment : Environment
  clock : Int
  preferences : Option Preferences
  /-- The minimum level of the service, if there is one. -/
  level : Option Level
  input : Option InputContext
  room : Option Nat

namespace Session

def outlook (s : Session) : Outlook :=
  ⟨s.environment, s.clock, s.preferences, s.service.map (·.minLevel), s.input, s.room⟩

def perform (s : Session) : Deed → Session
  | .log e => (logEvent e s).2
  | .write text => (Command.write text s).2
  | .work c => { s with input := c }
  | .prefer p => { s with preferences := some p }

def replay (s : Session) (ds : List Deed) : Session := ds.foldl perform s

theorem replay_append (s : Session) (ds es : List Deed) :
    s.replay (ds ++ es) = (s.replay ds).replay es := List.foldl_append

end Session

namespace Outlook

def after (o : Outlook) : Deed → Outlook
  | .log _ => o
  | .write text => { o with room := o.room.map (· - text.utf8ByteSize) }
  | .work c => { o with input := c }
  | .prefer p => { o with preferences := some p }

def afterAll (o : Outlook) (ds : List Deed) : Outlook := ds.foldl after o

@[simp] theorem afterAll_nil (o : Outlook) : o.afterAll [] = o := rfl

@[simp] theorem afterAll_cons (o : Outlook) (d : Deed) (ds : List Deed) :
    o.afterAll (d :: ds) = (o.after d).afterAll ds := rfl

@[simp] theorem afterAll_append (o : Outlook) (ds es : List Deed) :
    o.afterAll (ds ++ es) = (o.afterAll ds).afterAll es := List.foldl_append

theorem afterAll_writes {o : Outlook} {ds : List Deed} (h : ∀ d ∈ ds, ∃ text, d = .write text) :
    (o.afterAll ds).input = o.input := by
  induction ds generalizing o with
  | nil => rfl
  | cons d ds ih =>
    rw [List.forall_mem_cons] at h
    obtain ⟨⟨text, rfl⟩, hds⟩ := h
    exact ih hds

theorem after_room {o : Outlook} (h : o.room = none) (d : Deed) : (o.after d).room = none := by
  cases d with
  | write text => exact congrArg (Option.map _) h
  | log e => exact h
  | work c => exact h
  | prefer p => exact h

/-- A reader who takes everything goes on doing so. -/
theorem afterAll_room {o : Outlook} (h : o.room = none) (ds : List Deed) :
    (o.afterAll ds).room = none := by
  induction ds generalizing o with
  | nil => exact h
  | cons d ds ih => exact ih (after_room h d)

/-- The preferences in force. -/
def current (o : Outlook) : Preferences :=
  o.preferences.getD (Preferences.ofEnvironment o.environment)

/-- Looking up the preferences brings them into force. -/
def recalled (o : Outlook) : List Deed := if o.preferences.isSome then [] else [.prefer o.current]

def admits (o : Outlook) (l : Level) : Bool := (o.level.map (·.admits l)).getD false

/-- An event with the input at work attached. -/
def attach (o : Outlook) (e : Event) : Event :=
  (o.input.map fun c => e.withContexts c.entries).getD e

/-- An event is handed to the service if its level is admitted. -/
def dispatched (o : Outlook) (e : Event) (context : List (String × String)) : List Deed :=
  if o.admits e.level then [.log (o.attach (e.withContexts context))] else []

/-- Whether the reader takes the whole of a text. -/
def takes (o : Outlook) (text : String) : Bool := o.room.all (text.utf8ByteSize ≤ ·)

theorem takes_of_room {o : Outlook} (h : o.room = none) (text : String) : o.takes text = true := by
  rw [takes, h]
  rfl

/-- What the reader sees of a text. -/
def taken (o : Outlook) (text : String) : String :=
  if o.takes text then text else Command.shownPrefix (o.room.getD 0) text

end Outlook

namespace Session

theorem minLevel_log (e : Event) (v : Service) : (v.log e).1.minLevel = v.minLevel := by
  rw [Service.log]
  split <;> rfl

theorem write_eq (s : Session) (text : String) :
    Command.write text s = (s.outlook.takes text,
      { s with
        emitted := s.emitted.push (.report (s.outlook.taken text))
        room := s.room.map (· - text.utf8ByteSize) }) := by
  obtain ⟨environment, clock, preferences, service, input, room, emitted⟩ := s
  cases room with
  | none => rfl
  | some n =>
    change (if text.utf8ByteSize ≤ n then _ else _ : SessionM Bool) _ = _
    by_cases h : text.utf8ByteSize ≤ n
    · simp only [outlook, Outlook.taken, Outlook.takes, Option.all_some, h, decide_true, if_true]
      rfl
    · have hspent : n - text.utf8ByteSize = 0 := by omega
      simp only [outlook, Outlook.taken, Outlook.takes, Option.all_some, h, decide_false, if_false,
        Bool.false_eq_true, Option.map_some, hspent]
      rfl

theorem outlook_perform (s : Session) (d : Deed) : (s.perform d).outlook = s.outlook.after d := by
  cases d with
  | log e =>
    obtain ⟨environment, clock, preferences, service, input, room, emitted⟩ := s
    cases service with
    | none => rfl
    | some v =>
      have hlevel : some (v.log e).1.minLevel = some v.minLevel := congrArg some (minLevel_log e v)
      exact congrArg (fun l => Outlook.mk environment clock preferences l input room) hlevel
  | write text => rw [perform, write_eq]; rfl
  | work c => rfl
  | prefer p => rfl

theorem outlook_replay (s : Session) (ds : List Deed) :
    (s.replay ds).outlook = s.outlook.afterAll ds := by
  induction ds generalizing s with
  | nil => rfl
  | cons d ds ih =>
    rw [Outlook.afterAll_cons, ← outlook_perform]
    exact ih (s.perform d)

theorem outlook_admits (s : Session) (l : Level) :
    s.outlook.admits l = (s.service.map (·.admits l)).getD false := by
  rw [Outlook.admits, outlook, Option.map_map]
  rfl

theorem outlook_attach (s : Session) (e : Event) : s.outlook.attach e = (attachInput e s).1 := by
  obtain ⟨environment, clock, preferences, service, input, room, emitted⟩ := s
  cases input <;> rfl

end Session

/-- From every session with the outlook `o` the action `x` returns `a` and does `ds`. -/
def Does {α : Type} (x : SessionM α) (o : Outlook) (a : α) (ds : List Deed) : Prop :=
  ∀ s : Session, s.outlook = o → x s = (a, s.replay ds)

namespace Does
open Session

section Laws

variable {α β : Type} {x : SessionM α} {f : α → SessionM β} {o : Outlook} {a : α} {b : β}
  {ds es : List Deed}

theorem pure (a : α) (o : Outlook) : Does (Pure.pure a) o a [] := fun _ _ => rfl

theorem bind (hx : Does x o a ds) (hf : Does (f a) (o.afterAll ds) b es) :
    Does (x >>= f) o b (ds ++ es) := by
  intro s hs
  have hrest := hf (s.replay ds) (hs ▸ s.outlook_replay ds)
  calc (x >>= f) s = f (x s).1 (x s).2 := rfl
    _ = f a (s.replay ds) := by rw [hx s hs]
    _ = (b, s.replay (ds ++ es)) := by rw [hrest, replay_append]

theorem withInput {c : InputContext} (hx : Does x (o.after (.work (some c))) a ds) :
    Does (Session.withInput c x) o a (.work (some c) :: (ds ++ [.work none])) := by
  intro s hs
  have hbody := hx (s.perform (.work (some c))) (hs ▸ s.outlook_perform _)
  calc Session.withInput c x s
      = ((x (s.perform (.work (some c)))).1,
          (x (s.perform (.work (some c)))).2.perform (.work none)) := rfl
    _ = (a, s.replay (.work (some c) :: (ds ++ [.work none]))) := by
        rw [hbody, ← List.cons_append, replay_append]
        rfl

end Laws

variable (o : Outlook)

theorem currentPreferences : Does Session.currentPreferences o o.current o.recalled := by
  intro s hs
  subst hs
  obtain ⟨environment, clock, preferences, service, input, room, emitted⟩ := s
  cases preferences <;> rfl

theorem write (text : String) : Does (Command.write text) o (o.takes text) [.write text] := by
  intro s hs
  subst hs
  have h := write_eq s text
  exact h.trans (congrArg (Prod.mk _) (congrArg Prod.snd h).symm)

theorem dispatch (e : Event) (context : List (String × String)) :
    Does (Session.dispatch e context) o () (o.dispatched e context) := by
  intro s hs
  subst hs
  change (if (s.service.map (·.admits e.level)).getD false
    then attachInput (e.withContexts context) >>= logEvent else Pure.pure () : SessionM Unit) s = _
  rw [Outlook.dispatched, outlook_admits]
  split
  · rw [outlook_attach]
    rfl
  · rfl

/-- An event that is stamped with the time when it is dispatched. -/
theorem dispatchNow (e : Int → Event) (context : List (String × String)) :
    Does (do Session.dispatch (e (← get).clock) context) o () (o.dispatched (e o.clock) context) := by
  intro s hs
  subst hs
  exact dispatch _ (e s.clock) context s rfl

end Does
end ScanCriteria
