import ScanCriteria.Proofs.Session.Deeds
import ScanCriteria.Proofs.Wire.Serializing

/-!
# Actions that look up the preferences

Preferences that are asked for before they are installed come into force then. Of all that can be
seen of a session this is the only thing that a conversion changes, and every conversion does but
for one: a tree that is refused breaks off before anyone looks.
-/
namespace ScanCriteria
open Json Wire Session

namespace Outlook

/-- With the preferences in force, if they are looked up. -/
def recalling (reads : Bool) (o : Outlook) : Outlook :=
  if reads then { o with preferences := some o.current } else o

@[simp] theorem recalling_recalling (a b : Bool) (o : Outlook) :
    (o.recalling a).recalling b = o.recalling (a || b) := by
  cases a <;> cases b <;> rfl

@[simp] theorem level_recalling (reads : Bool) (o : Outlook) :
    (o.recalling reads).level = o.level := by
  cases reads <;> rfl

theorem preferences_recalling (reads : Bool) (o : Outlook) :
    (o.recalling reads).preferences.isSome = (o.preferences.isSome || reads) := by
  cases reads <;> simp [recalling]

theorem afterAll_recalled (o : Outlook) : o.afterAll o.recalled = o.recalling true := by
  obtain ⟨environment, clock, preferences, level, input, room⟩ := o
  cases preferences <;> rfl

theorem afterAll_dispatched (o : Outlook) (e : Event) (context : List (String × String)) :
    o.afterAll (o.dispatched e context) = o := by
  rw [dispatched]
  split <;> rfl

end Outlook

/-- Wherever it starts, the action changes nothing that can be seen but the preferences in force,
and these just if it looks them up. -/
def Recalls {α : Type} (reads : Bool) (x : SessionM α) : Prop :=
  ∀ s : Session, (x s).2.outlook = s.outlook.recalling reads

/-- The same, where it depends on the session whether the action looks them up. -/
def MayRecall {α : Type} (x : SessionM α) : Prop :=
  ∀ s : Session, ∃ reads, (x s).2.outlook = s.outlook.recalling reads

theorem Recalls.mayRecall {α : Type} {x : SessionM α} {reads : Bool} (h : Recalls reads x) :
    MayRecall x := fun s => ⟨reads, h s⟩

theorem MayRecall.bind {α β : Type} {x : SessionM α} {f : α → SessionM β} (hx : MayRecall x)
    (hf : ∀ r, MayRecall (f r)) : MayRecall (x >>= f) := by
  intro s
  obtain ⟨a, ha⟩ := hx s
  obtain ⟨b, hb⟩ := hf (x s).1 (x s).2
  refine ⟨a || b, ?_⟩
  calc ((x >>= f) s).2.outlook = (f (x s).1 (x s).2).2.outlook := rfl
    _ = s.outlook.recalling (a || b) := by rw [hb, ha, Outlook.recalling_recalling]

namespace Recalls

section Laws

variable {α β : Type} {x : SessionM α} {f : α → SessionM β} {a b : Bool}

theorem pure (r : α) : Recalls false (Pure.pure r : SessionM α) := fun _ => rfl

theorem bind (hx : Recalls a x) (hf : ∀ r, Recalls b (f r)) : Recalls (a || b) (x >>= f) := by
  intro s
  calc ((x >>= f) s).2.outlook = (f (x s).1 (x s).2).2.outlook := rfl
    _ = s.outlook.recalling (a || b) := by rw [hf, hx, Outlook.recalling_recalling]

/-- Once the preferences are in force it does not matter who looks them up again. -/
theorem bindAny (hx : Recalls true x) (hf : ∀ r, MayRecall (f r)) : Recalls true (x >>= f) := by
  intro s
  obtain ⟨b, hb⟩ := hf (x s).1 (x s).2
  calc ((x >>= f) s).2.outlook = (f (x s).1 (x s).2).2.outlook := rfl
    _ = s.outlook.recalling true := by rw [hb, hx, Outlook.recalling_recalling, Bool.true_or]

theorem whenThen {x : SessionM Unit} {y : SessionM α} (c : Bool) (hx : Recalls false x)
    (hy : Recalls b y) : Recalls b (if c then x >>= fun _ => y else y) := by
  cases c with
  | false => exact hy
  | true => exact hx.bind fun _ => hy

theorem forM {γ : Type} {g : γ → SessionM Unit} (l : List γ) (h : ∀ c, Recalls false (g c)) :
    Recalls false (l.forM g) := by
  induction l with
  | nil => exact pure ()
  | cons c l ih => exact (h c).bind fun _ => ih

theorem of_does (h : ∀ o, ∃ r ds, Does x o r ds ∧ o.afterAll ds = o.recalling a) :
    Recalls a x := by
  intro s
  obtain ⟨r, ds, hdoes, hafter⟩ := h s.outlook
  rw [hdoes s rfl, outlook_replay, hafter]

end Laws

theorem currentPreferences : Recalls true Session.currentPreferences :=
  of_does fun o => ⟨_, _, .currentPreferences o, o.afterAll_recalled⟩

theorem dispatchNow (e : Int → Event) (context : List (String × String)) :
    Recalls false (do Session.dispatch (e (← get).clock) context) :=
  of_does fun o => ⟨_, _, .dispatchNow o e context, o.afterAll_dispatched _ _⟩

theorem safeCritical (code : Code) (message : String) :
    Recalls false (Session.safeCritical code message) := fun s =>
  outlook_perform s (.log (.error s.clock code message))

theorem logParse (r : Except Failure Parsed) : Recalls false (Session.logParse r) := by
  cases r with
  | ok p => exact dispatchNow (fun t => .success t .parseComplete _) _
  | error f => exact dispatchNow (fun t => .error t _ _) _

theorem logTrail (p : Progress) : Recalls false (Session.logTrail p) :=
  forM _ fun n => dispatchNow (fun t => .debug t _) (nodeContext n)

theorem parse (v : Value) : Recalls true (Session.parse v) :=
  currentPreferences.bind fun _ =>
    whenThen _ (logParse _) (whenThen _ (logTrail _) (.pure _))

theorem warnLost (x : Double) : Recalls false (Session.warnLost x) :=
  dispatchNow (fun t => .warning t (some .nonFiniteLiteral) _) _

/-- The preferences are looked up when a tree is written, so not at all if it is refused. -/
theorem serialize (c : Criterion) :
    Recalls (c.nodes.all (·.node.InRole)) (Session.serialize c) := by
  refine (forM _ warnLost).bind fun _ => ?_
  rw [serialize_eq, all_inRole]
  cases c.nodes.findSome? (·.node.misplaced?) with
  | some m => exact (safeCritical _ _).bind fun _ => .pure _
  | none =>
    exact currentPreferences.bind fun _ =>
      whenThen _ (dispatchNow (fun t => .success t .serializeComplete _) _) (.pure _)

theorem advice (f : Failure) : Recalls true (Session.advice f) :=
  currentPreferences.bind fun _ => .pure _

theorem ofCheck (index : Nat) (v : Value) : Recalls true (Report.ofCheck index v) := by
  refine (parse v).bindAny fun r => ?_
  cases r with
  | ok p => exact (pure _).mayRecall
  | error f => exact ((advice f).bind fun _ => .pure _).mayRecall

theorem compare (c : Criterion) (wire : Value) : Recalls true (Report.compare c wire) := by
  refine (parse wire).bindAny fun r => ?_
  cases r with
  | ok p => exact (pure _).mayRecall
  | error f => exact ((advice f).bind fun _ => .pure _).mayRecall

theorem logVerdict (index : Nat) (same : Bool) : Recalls false (Report.logVerdict index same) := by
  cases same with
  | true => exact dispatchNow (fun t => .success t .roundTripVerified _) _
  | false => exact dispatchNow (fun t => .error t .roundTripMismatch _) _

theorem ofRoundTrip (index : Nat) (v : Value) : Recalls true (Report.ofRoundTrip index v) := by
  refine (ofCheck index v).bindAny fun r => ?_
  obtain ⟨index', ok, criterion, wire, roundTrip, trail, error⟩ := r
  cases criterion with
  | none => exact (pure _).mayRecall
  | some c =>
    refine (serialize c).mayRecall.bind fun result => ?_
    cases result with
    | error m => exact (pure _).mayRecall
    | ok wire =>
      refine (compare c wire).mayRecall.bind fun _ => ?_
      exact ((logVerdict index _).bind fun _ => .pure _).mayRecall

theorem conversion (i : Invocation) (index : Nat) (v : Value) :
    Recalls true (Command.conversion i index v) := by
  rw [Command.conversion]
  cases i.command with
  | check => exact ofCheck index v
  | roundTrip => exact ofRoundTrip index v

end Recalls

end ScanCriteria
