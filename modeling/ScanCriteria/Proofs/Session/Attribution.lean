import ScanCriteria.Proofs.Command.RoundTrip
import ScanCriteria.Proofs.Session.Deeds

/-!
# The input that an event names

The input at work has the last word on its two keys in the context of an event. No event of a
conversion uses these keys itself, so an event names the input at work and nothing else: its source,
and its index if there is one.
-/
namespace ScanCriteria

namespace InputContext

def sourceKey : String := "input"

def indexKey : String := "input_index"

end InputContext

open InputContext

namespace Event

/-- The event names `c` as the input at work, or no input. -/
def Carries (c : Option InputContext) (e : Event) : Prop :=
  Entries.find? sourceKey e.context = c.map (·.source) ∧
    Entries.find? indexKey e.context = (c.bind (·.index)).map toString

theorem find?_withContexts {key : String} {entries : List (String × String)}
    (h : ∀ entry ∈ entries, key ≠ entry.1) (e : Event) :
    Entries.find? key (e.withContexts entries).context = Entries.find? key e.context := by
  induction entries generalizing e with
  | nil => rfl
  | cons entry entries ih =>
    rw [List.forall_mem_cons] at h
    exact (ih h.2 (e.withContext entry.1 entry.2)).trans (Entries.find?_put_of_ne h.1 _ _)

theorem find?_source_attached (e : Event) (c : InputContext) :
    Entries.find? sourceKey (e.withContexts c.entries).context = some c.source := by
  obtain ⟨source, index⟩ := c
  cases index with
  | none => exact Entries.find?_put_self _ _ _
  | some i =>
    have hne : sourceKey ≠ indexKey := by decide
    exact (Entries.find?_put_of_ne hne _ _).trans (Entries.find?_put_self _ _ _)

/-- Without an index the event keeps what it had under that key. -/
theorem find?_index_attached (e : Event) (c : InputContext) :
    Entries.find? indexKey (e.withContexts c.entries).context =
      (c.index.map toString).or (Entries.find? indexKey e.context) := by
  obtain ⟨source, index⟩ := c
  cases index with
  | none =>
    have hne : indexKey ≠ sourceKey := by decide
    exact Entries.find?_put_of_ne hne _ _
  | some i => exact Entries.find?_put_self _ _ _

/-- All other keys are left alone. -/
theorem find?_attached {key : String} (hsource : key ≠ sourceKey) (hindex : key ≠ indexKey)
    (e : Event) (c : InputContext) :
    Entries.find? key (e.withContexts c.entries).context = Entries.find? key e.context := by
  refine find?_withContexts (fun entry hentry => ?_) e
  obtain rfl | hentry := List.mem_cons.mp hentry
  · exact hsource
  · obtain ⟨index, -, rfl⟩ := Option.map_eq_some_iff.mp (Option.mem_toList.mp hentry)
    exact hindex

/-- The event names `c` as the input at work, whatever else is in its context. -/
def Names (c : InputContext) (e : Event) : Prop :=
  Entries.find? sourceKey e.context = some c.source ∧
    ∀ index ∈ c.index, Entries.find? indexKey e.context = some (toString index)

theorem names_attached (e : Event) (c : InputContext) : (e.withContexts c.entries).Names c := by
  refine ⟨find?_source_attached e c, fun index hindex => ?_⟩
  rw [find?_index_attached, Option.mem_def.mp hindex]
  rfl

theorem attach_of_input {o : Outlook} {c : InputContext} (h : o.input = some c) (e : Event) :
    o.attach e = e.withContexts c.entries := by
  rw [Outlook.attach, h]
  rfl

/-- An event that has neither key names the input at work once it is attached. -/
theorem carries_attach {o : Outlook} {e : Event} (h : e.Carries none) :
    (o.attach e).Carries o.input := by
  obtain ⟨hsource, hindex⟩ := h
  cases hc : o.input with
  | none =>
    have hattach : o.attach e = e := by rw [Outlook.attach, hc]; rfl
    rw [hattach]
    exact ⟨hsource, hindex⟩
  | some c =>
    rw [attach_of_input hc]
    refine ⟨find?_source_attached e c, (find?_index_attached e c).trans ?_⟩
    rw [hindex]
    exact Option.or_none

end Event

/-- A deed of an action at work on `c`: an event that carries `c`, or preferences. -/
def Deed.Attributed (c : Option InputContext) : Deed → Prop
  | .log e => e.Carries c
  | .prefer _ => True
  | .write _ | .work _ => False

/-- Such deeds leave the input at work, and do not concern the reader of the report. -/
theorem Outlook.afterAll_attributed {o : Outlook} {ds : List Deed} {c : Option InputContext}
    (h : ∀ d ∈ ds, d.Attributed c) :
    (o.afterAll ds).input = o.input ∧ (o.afterAll ds).room = o.room := by
  induction ds generalizing o with
  | nil => exact ⟨rfl, rfl⟩
  | cons d ds ih =>
    rw [List.forall_mem_cons] at h
    obtain ⟨hd, hds⟩ := h
    have hrest := ih (o := o.after d) hds
    cases d with
    | log e => exact hrest
    | prefer p => exact hrest
    | write text => exact hd.elim
    | work c => exact hd.elim

/-- Wherever it starts, the action returns a value with the property `P`, and each of its events
carries the input that was at work. -/
def Attributes {α : Type} (x : SessionM α) (P : α → Prop) : Prop :=
  ∀ o : Outlook, ∃ a ds, Does x o a ds ∧ P a ∧ ∀ d ∈ ds, d.Attributed o.input

namespace Attributes

variable {α β : Type} {x : SessionM α} {f : α → SessionM β} {P : α → Prop} {Q : β → Prop} {a : α}

theorem pure (h : P a) : Attributes (Pure.pure a) P :=
  fun o => ⟨a, [], .pure a o, h, by simp⟩

theorem bind (hx : Attributes x P) (hf : ∀ a, P a → Attributes (f a) Q) :
    Attributes (x >>= f) Q := by
  intro o
  obtain ⟨a, ds, hdoes, ha, hds⟩ := hx o
  obtain ⟨b, es, hdoes', hb, hes⟩ := hf a ha (o.afterAll ds)
  rw [(Outlook.afterAll_attributed hds).1] at hes
  refine ⟨b, ds ++ es, hdoes.bind hdoes', hb, fun d hd => ?_⟩
  rcases List.mem_append.mp hd with hd | hd
  · exact hds d hd
  · exact hes d hd

theorem mono {Q : α → Prop} (hx : Attributes x P) (h : ∀ a, P a → Q a) : Attributes x Q := by
  intro o
  obtain ⟨a, ds, hdoes, ha, hds⟩ := hx o
  exact ⟨a, ds, hdoes, h a ha, hds⟩

abbrev Always (_ : α) : Prop := True

theorem whenThen {x : SessionM Unit} {y : SessionM α} (b : Bool) (hx : Attributes x Always)
    (hy : Attributes y P) : Attributes (if b then x >>= fun _ => y else y) P := by
  cases b with
  | false => exact hy
  | true => exact hx.bind fun _ _ => hy

theorem forM {γ : Type} {g : γ → SessionM Unit} (l : List γ) (h : ∀ c, Attributes (g c) Always) :
    Attributes (l.forM g) Always := by
  induction l with
  | nil => exact pure trivial
  | cons c l ih => exact (h c).bind fun _ _ => ih

theorem currentPreferences : Attributes Session.currentPreferences Always := by
  intro o
  refine ⟨o.current, o.recalled, .currentPreferences o, trivial, fun d hd => ?_⟩
  rw [Outlook.recalled] at hd
  split at hd
  · cases hd
  · rw [List.mem_singleton.mp hd]
    trivial

/-- Whatever is logged with a context that uses none of the two keys. -/
theorem dispatchNow {e : Int → Event} {context : List (String × String)}
    (he : ∀ t, (e t).context = [])
    (hkeys : ∀ entry ∈ context, sourceKey ≠ entry.1 ∧ indexKey ≠ entry.1) :
    Attributes (do Session.dispatch (e (← get).clock) context) Always := by
  intro o
  have hcarries : ((e o.clock).withContexts context).Carries none := by
    constructor
    · rw [Event.find?_withContexts fun entry hentry => (hkeys entry hentry).1, he]
      rfl
    · rw [Event.find?_withContexts fun entry hentry => (hkeys entry hentry).2, he]
      rfl
  refine ⟨(), _, .dispatchNow o e context, trivial, fun d hd => ?_⟩
  rw [Outlook.dispatched] at hd
  split at hd
  · rw [List.mem_singleton.mp hd]
    exact Event.carries_attach hcarries
  · cases hd

end Attributes

namespace Session
open Json Wire Attributes

theorem attributes_logParse (r : Except Failure Parsed) : Attributes (logParse r) Always := by
  cases r with
  | ok p =>
    exact dispatchNow (e := fun t => .success t .parseComplete _) (fun _ => rfl)
      (by simp [sourceKey, indexKey])
  | error f =>
    exact dispatchNow (e := fun t => .error t _ _) (fun _ => rfl) (by simp [sourceKey, indexKey])

theorem attributes_logTrail (p : Progress) : Attributes (logTrail p) Always :=
  forM _ fun n => dispatchNow (e := fun t => .debug t _) (fun _ => rfl)
    (by simp [nodeContext, sourceKey, indexKey])

theorem attributes_parse (v : Value) : Attributes (Session.parse v) (· = Wire.parse v) :=
  Attributes.currentPreferences.bind fun _ _ =>
    whenThen _ (attributes_logParse _) (whenThen _ (attributes_logTrail _) (.pure rfl))

theorem attributes_warnLost (x : Double) : Attributes (warnLost x) Always :=
  dispatchNow (e := fun t => .warning t (some .nonFiniteLiteral) _) (fun _ => rfl)
    (by simp [sourceKey, indexKey])

/-- A criterion whose fields are in their roles is serialized without an alarm. -/
theorem attributes_serialize {c : Criterion} (h : ∀ n ∈ c.nodes, n.node.InRole) :
    Attributes (Session.serialize c) (· = .ok c.wire) := by
  refine (forM _ attributes_warnLost).bind fun _ _ => ?_
  rw [serialize_result h]
  exact Attributes.currentPreferences.bind fun _ _ =>
    whenThen _ (dispatchNow (e := fun t => .success t .serializeComplete _) (fun _ => rfl)
      (by simp [sourceKey, indexKey])) (.pure rfl)

theorem attributes_advice (f : Failure) : Attributes (Session.advice f) Always :=
  Attributes.currentPreferences.bind fun _ _ => .pure trivial

end Session

namespace Report
open Json Wire Attributes

/-- A criterion that a report shows has its fields in their roles, so it can be serialized. -/
theorem attributes_ofCheck (index : Nat) (v : Value) :
    Attributes (ofCheck index v) fun r =>
      r.index = index ∧ ∀ c ∈ r.criterion, ∀ n ∈ c.nodes, n.node.InRole := by
  refine (Session.attributes_parse v).bind fun result hresult => ?_
  cases result with
  | ok p =>
    have hrole (c : Criterion) (hc : c ∈ some p.criterion) (n : Placed) (hn : n ∈ c.nodes) :
        n.node.InRole := by
      cases hc
      exact ((parsed_of_parse hresult.symm).1 n hn).inRole
    exact .pure ⟨rfl, hrole⟩
  | error f => exact (Session.attributes_advice f).bind fun _ _ => .pure ⟨rfl, nofun⟩

theorem attributes_compare (c : Criterion) (wire : Value) :
    Attributes (compare c wire) Always := by
  refine (Session.attributes_parse wire).bind fun r _ => ?_
  cases r with
  | ok p => exact .pure trivial
  | error f => exact (Session.attributes_advice f).bind fun _ _ => .pure trivial

theorem attributes_logVerdict (index : Nat) (same : Bool) :
    Attributes (logVerdict index same) Always := by
  cases same with
  | true =>
    exact dispatchNow (e := fun t => .success t .roundTripVerified _) (fun _ => rfl)
      (by simp [sourceKey, indexKey])
  | false =>
    exact dispatchNow (e := fun t => .error t .roundTripMismatch _) (fun _ => rfl)
      (by simp [sourceKey, indexKey])

theorem attributes_ofRoundTrip (index : Nat) (v : Value) :
    Attributes (ofRoundTrip index v) fun r => r.index = index := by
  refine (attributes_ofCheck index v).bind fun r hr => ?_
  obtain ⟨index', ok, criterion, wire, roundTrip, trail, error⟩ := r
  obtain ⟨hindex, hrole⟩ := hr
  cases criterion with
  | none => exact .pure hindex
  | some c =>
    refine (Session.attributes_serialize (hrole c rfl)).bind fun result hresult => ?_
    subst hresult
    exact (attributes_compare c c.wire).bind fun verdict _ =>
      (attributes_logVerdict index verdict.1).bind fun _ _ => .pure hindex

end Report

theorem Command.attributes_conversion (i : Invocation) (index : Nat) (v : Json.Value) :
    Attributes (conversion i index v) fun r => r.index = index := by
  rw [conversion]
  cases i.command with
  | check => exact (Report.attributes_ofCheck index v).mono fun _ h => h.1
  | roundTrip => exact Report.attributes_ofRoundTrip index v

end ScanCriteria
