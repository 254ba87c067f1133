import ScanCriteria.Proofs.Command.RoundTrip
import ScanCriteria.Proofs.Session.Recall

/-!
# What is installed, and calls that fail to install

Preferences and service are each installed once, by the first call that does so. Whether a call
fails, and what it leaves to be seen, can be told from the outlook of the session before it. A call
that fails leaves the session as it is, but for one: the service that the preferences ask for is not
known before they are looked up, and so they are in force afterwards even if there is a service.
-/
namespace ScanCriteria
open Json Session

/-- A call on the interface of a session that installs something or converts. -/
inductive SessionCall where
  | installPreferences (p : Preferences)
  | readPreferences
  | initLogging
  | installService (v : Service)
  | parse (v : Value)
  | serialize (c : Criterion)
  /-- The conversion of an input by a command. -/
  | convert (i : Invocation) (index : Nat) (v : Value)

namespace SessionCall

/-- Only what installs something can fail to. -/
def run : SessionCall → SessionM (Except InstallFault Unit)
  | installPreferences p => Session.installPreferences p
  | readPreferences => do
    let _ ← currentPreferences
    return .ok ()
  | initLogging => Session.initLogging
  | installService v => Session.installService v
  | parse v => do
    let _ ← Session.parse v
    return .ok ()
  | serialize c => do
    let _ ← Session.serialize c
    return .ok ()
  | convert i index v => do
    let _ ← Command.conversion i index v
    return .ok ()

/-- Whether the preferences are looked up. -/
def reads : SessionCall → Bool
  | installPreferences _ | installService _ => false
  | readPreferences | initLogging | parse _ | convert _ _ _ => true
  | serialize c => c.nodes.all (·.node.InRole)

def installsPreferences : SessionCall → Bool
  | installPreferences _ => true
  | _ => false

def installsService : SessionCall → Bool
  | initLogging | installService _ => true
  | _ => false

/-- Whether preferences are in force afterwards, whatever was before. -/
def fixesPreferences (call : SessionCall) : Bool := call.installsPreferences || call.reads

/-- What a call returns. -/
def verdict (o : Outlook) (call : SessionCall) : Except InstallFault Unit :=
  if call.installsPreferences && o.preferences.isSome then .error .preferencesInstalled
  else if call.installsService && o.level.isSome then .error .serviceInstalled
  else .ok ()

/-- The outlook after a call. -/
def after (o : Outlook) : SessionCall → Outlook
  | installPreferences p => { o with preferences := some (o.preferences.getD p) }
  | initLogging => { o.recalling true with
      level := some (o.level.getD o.current.logging.effectiveLevel) }
  | installService v => { o with level := some (o.level.getD v.minLevel) }
  | call => o.recalling call.reads

end SessionCall

namespace Session

theorem installPreferences_of_some {s : Session} {q : Preferences} (h : s.preferences = some q)
    (p : Preferences) : installPreferences p s = (.error .preferencesInstalled, s) := by
  obtain ⟨environment, clock, preferences, service, input, room, emitted⟩ := s
  cases h
  rfl

theorem installPreferences_of_none {s : Session} (h : s.preferences = none) (p : Preferences) :
    installPreferences p s = (.ok (), { s with preferences := some p }) := by
  obtain ⟨environment, clock, preferences, service, input, room, emitted⟩ := s
  cases h
  rfl

theorem installService_of_isSome {s : Session} (h : s.service.isSome = true) (v : Service) :
    installService v s = (.error .serviceInstalled, s) := by
  change (if s.service.isSome then _ else _ : SessionM _) s = _
  rw [if_pos h]
  rfl

/-- All codes that are looked up have a description. -/
theorem installService_of_none {s : Session} (h : s.service.isSome = false) (v : Service) :
    installService v s = (.ok (),
      ({ s with service := some v }.perform (.log (.success s.clock .loggingReady
        "Global logging system initialized")))) := by
  change (if s.service.isSome then _ else _ : SessionM _) s = _
  rw [h, Code.undescribed?_eq_none]
  rfl

/-- The limits of the log can be kept to. The preferences are looked up before anything else. -/
theorem initLogging_eq (s : Session) :
    initLogging s = installService (.ofPreferences s.outlook.current.logging)
      { s with preferences := some s.outlook.current } := by
  obtain ⟨environment, clock, preferences, service, input, room, emitted⟩ := s
  rw [initLogging, Limits.logFault?_eq_none]
  cases preferences <;> rfl

theorem level_outlook (s : Session) : s.outlook.level.isSome = s.service.isSome :=
  Option.isSome_map

/-- A service is installed just if there is none. -/
theorem installService_outlook (v : Service) (s : Session) :
    (installService v s).1 = (if s.service.isSome then .error .serviceInstalled else .ok ()) ∧
      (installService v s).2.outlook =
        { s.outlook with level := some (s.outlook.level.getD v.minLevel) } := by
  cases h : s.service with
  | some u =>
    rw [installService_of_isSome (h ▸ rfl)]
    refine ⟨rfl, ?_⟩
    rw [outlook, h]
    rfl
  | none =>
    rw [installService_of_none (h ▸ rfl)]
    refine ⟨rfl, ?_⟩
    rw [outlook_perform, outlook, outlook, h]
    rfl

end Session

namespace SessionCall

/-- What a call returns and what can be seen afterwards depend on what could be seen before. -/
theorem run_outlook (call : SessionCall) (s : Session) :
    returned call.run s = call.verdict s.outlook ∧
      (call.run s).2.outlook = call.after s.outlook := by
  cases call with
  | installPreferences p =>
    change (Session.installPreferences p s).1 = _ ∧ (Session.installPreferences p s).2.outlook = _
    cases h : s.preferences with
    | some q =>
      rw [installPreferences_of_some h, outlook, h]
      exact ⟨rfl, rfl⟩
    | none =>
      rw [installPreferences_of_none h, outlook, outlook, h]
      exact ⟨rfl, rfl⟩
  | installService v =>
    have h := installService_outlook v s
    rw [← level_outlook] at h
    exact h
  | initLogging =>
    have h := installService_outlook (.ofPreferences s.outlook.current.logging)
      { s with preferences := some s.outlook.current }
    rw [← initLogging_eq, ← level_outlook] at h
    exact h
  | readPreferences => exact ⟨rfl, (Recalls.currentPreferences.bind fun _ => .pure _) s⟩
  | parse v => exact ⟨rfl, ((Recalls.parse v).bind fun _ => .pure _) s⟩
  | serialize c =>
    have h := ((Recalls.serialize c).bind fun _ => .pure (.ok () : Except InstallFault Unit)) s
    rw [Bool.or_false] at h
    exact ⟨rfl, h⟩
  | convert i index v => exact ⟨rfl, ((Recalls.conversion i index v).bind fun _ => .pure _) s⟩

theorem preferences_after (o : Outlook) (call : SessionCall) :
    (call.after o).preferences.isSome = (o.preferences.isSome || call.fixesPreferences) := by
  cases call with
  | installPreferences p => exact (Bool.or_true _).symm
  | installService v => exact (Bool.or_false _).symm
  | _ => exact o.preferences_recalling _

theorem level_after (o : Outlook) (call : SessionCall) :
    (call.after o).level.isSome = (o.level.isSome || call.installsService) := by
  cases call with
  | initLogging | installService v => exact (Bool.or_true _).symm
  | installPreferences p => exact (Bool.or_false _).symm
  | _ => exact (congrArg Option.isSome (o.level_recalling _)).trans (Bool.or_false _).symm

end SessionCall

namespace Session

/-- The session after some calls, whether they fail or not. -/
def afterCalls (s : Session) (calls : List SessionCall) : Session :=
  calls.foldl (fun t call => (call.run t).2) s

theorem preferences_afterCalls (s : Session) (calls : List SessionCall) :
    (s.afterCalls calls).preferences.isSome =
      (s.preferences.isSome || calls.any (·.fixesPreferences)) := by
  induction calls generalizing s with
  | nil => exact (Bool.or_false _).symm
  | cons call calls ih =>
    have hstep : (call.run s).2.preferences.isSome =
        (s.preferences.isSome || call.fixesPreferences) :=
      (congrArg (·.preferences.isSome) (call.run_outlook s).2).trans (call.preferences_after s.outlook)
    rw [List.any_cons, ← Bool.or_assoc, ← hstep]
    exact ih (call.run s).2

theorem service_afterCalls (s : Session) (calls : List SessionCall) :
    (s.afterCalls calls).service.isSome =
      (s.service.isSome || calls.any (·.installsService)) := by
  induction calls generalizing s with
  | nil => exact (Bool.or_false _).symm
  | cons call calls ih =>
    have hstep : (call.run s).2.service.isSome = (s.service.isSome || call.installsService) := by
      rw [← level_outlook, ← level_outlook, (call.run_outlook s).2, call.level_after]
    rw [List.any_cons, ← Bool.or_assoc, ← hstep]
    exact ih (call.run s).2

/-- Preferences fail to be installed if some are in force, and a service if there is one. -/
theorem run_eq_error_iff (s : Session) (calls : List SessionCall) (call : SessionCall)
    (f : InstallFault) :
    returned call.run (s.afterCalls calls) = .error f ↔
      f = .preferencesInstalled ∧ call.installsPreferences = true ∧
          (s.preferences.isSome || calls.any (·.fixesPreferences)) = true ∨
        f = .serviceInstalled ∧ call.installsService = true ∧
          (s.service.isSome || calls.any (·.installsService)) = true := by
  rw [(call.run_outlook _).1, SessionCall.verdict, level_outlook, ← preferences_afterCalls,
    ← service_afterCalls]
  change (if call.installsPreferences && (s.afterCalls calls).preferences.isSome then _ else _) = _ ↔ _
  -- No call installs both, so it does not matter which of the two is checked first.
  generalize (s.afterCalls calls).preferences.isSome = hasPreferences
  generalize (s.afterCalls calls).service.isSome = hasService
  cases call with
  | installPreferences p =>
    cases hasPreferences <;>
      simp [SessionCall.installsPreferences, SessionCall.installsService, eq_comm]
  | initLogging | installService v =>
    cases hasService <;>
      simp [SessionCall.installsPreferences, SessionCall.installsService, eq_comm]
  | _ => simp [SessionCall.installsPreferences, SessionCall.installsService]

theorem run_of_error {t : Session} (call : SessionCall) {f : InstallFault}
    (hf : returned call.run t = .error f) (hcall : call ≠ .initLogging) : (call.run t).2 = t := by
  cases call with
  | initLogging => exact absurd rfl hcall
  | installPreferences p =>
    cases h : t.preferences with
    | none =>
      have hok := congrArg Prod.fst (installPreferences_of_none h p)
      cases hf.symm.trans hok
    | some q => exact congrArg Prod.snd (installPreferences_of_some h p)
  | installService v =>
    cases h : t.service.isSome with
    | false =>
      have hok := congrArg Prod.fst (installService_of_none h v)
      cases hf.symm.trans hok
    | true => exact congrArg Prod.snd (installService_of_isSome h v)
  | readPreferences | parse v | serialize c | convert i index v =>
    cases (show Except.ok () = Except.error f from hf)

/-- That there is a service is found out when the preferences have been looked up. -/
theorem initLogging_of_error {t : Session} {f : InstallFault}
    (hf : returned initLogging t = .error f) :
    (initLogging t).2 = { t with preferences := some t.outlook.current } := by
  rw [returned, initLogging_eq] at hf
  rw [initLogging_eq]
  exact run_of_error (.installService _) hf nofun

theorem preferences_eq_none_iff {s t : Session} {calls : List SessionCall}
    (ht : s.afterCalls calls = t) :
    t.preferences = none ↔
      s.preferences = none ∧ ∀ call ∈ calls, call.fixesPreferences = false := by
  rw [← Option.isNone_iff_eq_none, ← Option.not_isSome, ← ht, preferences_afterCalls]
  simp

/-- Preferences that are in force stay, so no others can be installed. -/
theorem installPreferences_afterCalls {t : Session} (h : t.preferences.isSome = true)
    (more : List SessionCall) (p : Preferences) :
    returned (installPreferences p) (t.afterCalls more) = .error .preferencesInstalled := by
  have hsome : (t.afterCalls more).preferences.isSome = true := by
    rw [preferences_afterCalls, h, Bool.true_or]
  obtain ⟨q, hq⟩ := Option.isSome_iff_exists.mp hsome
  exact congrArg Prod.fst (installPreferences_of_some hq p)

/-- After any calls, one that installs something fails if what it installs is there already, and for
no other reason. It leaves the session as it is then: what is installed, the events that the service
keeps, the input at work and what has been put out. The only exception is the call for the service
that the preferences ask for, while none have been installed or looked up: it brings those of the
environment into force, and none can be installed from then on. -/
theorem failed_call {s t : Session} {calls : List SessionCall} (ht : s.afterCalls calls = t)
    (call : SessionCall) :
    (∀ f, returned call.run t = .error f ↔
      f = .preferencesInstalled ∧ call.installsPreferences = true ∧
          (s.preferences.isSome || calls.any (·.fixesPreferences)) = true ∨
        f = .serviceInstalled ∧ call.installsService = true ∧
          (s.service.isSome || calls.any (·.installsService)) = true) ∧
      (∀ f, returned call.run t = .error f →
        (¬(call = .initLogging ∧ t.preferences = none) → (call.run t).2 = t) ∧
          (call = .initLogging ∧ t.preferences = none →
            (call.run t).2 = { t with preferences := some (.ofEnvironment t.environment) } ∧
              ∀ more p, returned (installPreferences p) ((call.run t).2.afterCalls more) =
                .error .preferencesInstalled)) ∧
      (t.preferences = none ↔
        s.preferences = none ∧ ∀ call ∈ calls, call.fixesPreferences = false) := by
  refine ⟨ht ▸ run_eq_error_iff s calls call, fun f hf => ⟨fun h => ?_, ?_⟩,
    preferences_eq_none_iff ht⟩
  · by_cases hcall : call = .initLogging
    · subst hcall
      obtain ⟨q, hq⟩ := Option.ne_none_iff_exists'.mp fun hnone => h ⟨rfl, hnone⟩
      refine (initLogging_of_error hf).trans ?_
      rw [Outlook.current, outlook, hq, Option.getD_some, ← hq]
    · exact run_of_error call hf hcall
  · rintro ⟨rfl, hnone⟩
    have hafter : (SessionCall.initLogging.run t).2 =
        { t with preferences := some (.ofEnvironment t.environment) } := by
      refine (initLogging_of_error hf).trans ?_
      rw [Outlook.current, outlook, hnone, Option.getD_none]
    exact ⟨hafter, installPreferences_afterCalls (hafter ▸ rfl)⟩

/-- A service that keeps its events, and was not chosen by preferences. -/
def keeper : Service := .ofLogger (.memory .empty) .info

/-- Errors only, and these to the console. -/
def consoleErrors : Preferences := ⟨⟨false, false, false⟩, ⟨false, true, false, .error⟩⟩

/-- The first session has not looked up its preferences, the second has. -/
theorem failed_call_initLogging :
    let t := (start [] 0).afterCalls [.installService keeper]
    let u := (start [] 0).afterCalls [.installService keeper, .readPreferences]
    returned initLogging t = .error .serviceInstalled ∧
      (initLogging t).2 = { t with preferences := some (.ofEnvironment []) } ∧
      returned initLogging u = .error .serviceInstalled ∧ (initLogging u).2 = u := by
  intro t u
  have ht : returned SessionCall.initLogging.run t = .error .serviceInstalled := rfl
  have hu : returned SessionCall.initLogging.run u = .error .serviceInstalled := rfl
  have hunread := (failed_call (s := start [] 0) (t := t) rfl .initLogging).2.1 _ ht
  have hread := (failed_call (s := start [] 0) (t := u) rfl .initLogging).2.1 _ hu
  exact ⟨ht, (hunread.2 ⟨rfl, rfl⟩).1, hu, hread.1 nofun⟩

/-- The call fails, and preferences that could be installed before it cannot be afterwards. -/
theorem initLogging_fixes_preferences :
    let t := (start [] 0).afterCalls [.installService keeper]
    returned initLogging t = .error .serviceInstalled ∧
      t.preferences = none ∧
      (initLogging t).2.preferences = some (.ofEnvironment []) ∧
      returned (installPreferences consoleErrors) t = .ok () ∧
      returned (installPreferences consoleErrors) (initLogging t).2 = .error .preferencesInstalled :=
  ⟨rfl, rfl, rfl, rfl, rfl⟩

end Session
end ScanCriteria
