import ScanCriteria.Proofs.Session.Losses

/-!
# Scopes of inputs

Code that is run on an input is a scope, and a scope may hold others. A session remembers one input
only: when a scope is left none is at work, whatever was before. So an event carries the input of
the innermost scope around it, unless a scope within that one has been left before.
-/
namespace ScanCriteria
open Session

/-- Code that logs events and runs code on inputs. -/
inductive Script where
  | done
  | dispatch (e : Event) (entries : List (String × String)) (rest : Script)
  /-- Runs `body` on an input, and goes on with `rest`. -/
  | within (c : InputContext) (body rest : Script)

/-- A script, and then any number of times an input that is set to work, or none, and a script. -/
structure Routine where
  opening : Script
  stages : List (Option InputContext × Script)

/-- An event as it stands in a routine. -/
structure Occurrence where
  event : Event
  entries : List (String × String)
  /-- The input of the innermost scope around it; outside of all scopes, what was set last. -/
  enclosing : Option InputContext
  /-- Whether a scope within the innermost one around it has been left before. -/
  afterScope : Bool

namespace Occurrence

/-- The input that is at work. -/
def atWork (o : Occurrence) : Option InputContext := if o.afterScope then none else o.enclosing

/-- What the service gets. -/
def handed (o : Occurrence) : Event :=
  match o.atWork with
  | some c => (o.event.withContexts o.entries).withContexts c.entries
  | none => o.event.withContexts o.entries

theorem handed_of_atWork {n : Occurrence} {c : InputContext} (h : n.atWork = some c) :
    n.handed = (n.event.withContexts n.entries).withContexts c.entries := by
  rw [handed, h]

theorem handed_of_not_atWork {n : Occurrence} (h : n.atWork = none) :
    n.handed = n.event.withContexts n.entries := by
  rw [handed, h]

end Occurrence

namespace Script

def run : Script → SessionM Unit
  | done => pure ()
  | dispatch e entries rest => do
    Session.dispatch e entries
    rest.run
  | within c body rest => do
    withInput c body.run
    rest.run

/-- The events of a script whose own scope has the input `c`. -/
def occurrences (c : Option InputContext) (afterScope : Bool) : Script → List Occurrence
  | done => []
  | dispatch e entries rest => ⟨e, entries, c, afterScope⟩ :: rest.occurrences c afterScope
  | within c' body rest => body.occurrences (some c') false ++ rest.occurrences c true

end Script

namespace Routine

def run (p : Routine) : SessionM Unit := do
  p.opening.run
  p.stages.forM fun (c, script) => do
    setInput c
    script.run

/-- The events of a routine that starts with the input `c` at work. -/
def occurrences (c : Option InputContext) (p : Routine) : List Occurrence :=
  p.opening.occurrences c false ++ p.stages.flatMap fun (c, script) => script.occurrences c false

end Routine

/-- From the outlook `o` the action hands `es` to the service and leaves `c` at work. -/
def Hands (x : SessionM Unit) (o : Outlook) (es : List Event) (c : Option InputContext) : Prop :=
  ∃ ds, Does x o () ds ∧ o.afterAll ds = { o with input := c } ∧ ds.filterMap Deed.event? = es

namespace Hands

variable {x y : SessionM Unit} {o : Outlook} {es fs : List Event} {c d : Option InputContext}

theorem done (o : Outlook) : Hands (pure ()) o [] o.input := ⟨[], .pure () o, rfl, rfl⟩

theorem seq (hx : Hands x o es c) (hy : Hands y { o with input := c } fs d) :
    Hands (do x; y) o (es ++ fs) d := by
  obtain ⟨ds, hdoes, hafter, rfl⟩ := hx
  obtain ⟨ds', hdoes', hafter', rfl⟩ := hy
  rw [← hafter] at hdoes'
  refine ⟨ds ++ ds', hdoes.bind hdoes', ?_, List.filterMap_append⟩
  rw [Outlook.afterAll_append, hafter, hafter']

theorem set (o : Outlook) (c : Option InputContext) : Hands (setInput c) o [] c :=
  ⟨[.work c], fun _ _ => rfl, rfl, rfl⟩

theorem within {i : InputContext} (h : Hands x { o with input := some i } es c) :
    Hands (withInput i x) o es none := by
  obtain ⟨ds, hdoes, hafter, rfl⟩ := h
  refine ⟨_, .withInput hdoes, ?_, ?_⟩
  · have hbody : (o.after (.work (some i))).afterAll ds = { o with input := c } := hafter
    rw [Outlook.afterAll_cons, Outlook.afterAll_append, hbody]
    rfl
  · rw [List.filterMap_cons_none rfl, List.filterMap_append]
    exact List.append_nil _

end Hands

/-- The events among some occurrences that are admitted, as the service gets them. -/
def Outlook.admitted (o : Outlook) (os : List Occurrence) : List Event :=
  (os.filter fun n => o.admits n.event.level).map Occurrence.handed

theorem Outlook.attach_occurrence {o : Outlook} {n : Occurrence} (h : o.input = n.atWork) :
    o.attach (n.event.withContexts n.entries) = n.handed := by
  rw [attach, h, Occurrence.handed]
  cases n.atWork <;> rfl

theorem Hands.dispatch {o : Outlook} {n : Occurrence} (h : o.input = n.atWork) :
    Hands (Session.dispatch n.event n.entries) o (o.admitted [n]) o.input := by
  refine ⟨_, .dispatch o n.event n.entries, ?_, ?_⟩
  · rw [Outlook.dispatched]
    split <;> rfl
  · rw [Outlook.dispatched, Outlook.attach_occurrence h, Outlook.admitted, List.filter_singleton]
    cases o.admits n.event.level <;> rfl

theorem Outlook.admitted_append (o : Outlook) (ms ns : List Occurrence) :
    o.admitted (ms ++ ns) = o.admitted ms ++ o.admitted ns := by
  rw [admitted, List.filter_append, List.map_append, admitted, admitted]

/-- A script hands over its events. What is at work when it starts is known from its scope. -/
theorem Script.hands (script : Script) (o : Outlook) (c : Option InputContext) (afterScope : Bool)
    (h : o.input = if afterScope then none else c) :
    ∃ d, Hands script.run o (o.admitted (script.occurrences c afterScope)) d := by
  induction script generalizing o c afterScope with
  | done => exact ⟨_, .done o⟩
  | dispatch e entries rest ih =>
    obtain ⟨d, hrest⟩ := ih o c afterScope h
    rw [occurrences, ← List.singleton_append, Outlook.admitted_append]
    exact ⟨d, (Hands.dispatch (n := ⟨e, entries, c, afterScope⟩) h).seq hrest⟩
  | within i body rest ihbody ihrest =>
    obtain ⟨c', hbody⟩ := ihbody { o with input := some i } (some i) false rfl
    obtain ⟨d, hrest⟩ := ihrest { o with input := none } c true rfl
    rw [occurrences, Outlook.admitted_append]
    exact ⟨d, hbody.within.seq hrest⟩

theorem Routine.hands_stages (stages : List (Option InputContext × Script)) (o : Outlook) :
    ∃ d, Hands (stages.forM fun (c, script) => do setInput c; script.run) o
      (o.admitted (stages.flatMap fun (c, script) => script.occurrences c false)) d := by
  induction stages generalizing o with
  | nil => exact ⟨_, .done o⟩
  | cons stage stages ih =>
    obtain ⟨c, script⟩ := stage
    obtain ⟨d, hscript⟩ := script.hands { o with input := c } c false rfl
    obtain ⟨d', hstages⟩ := ih { o with input := d }
    rw [List.flatMap_cons, Outlook.admitted_append]
    exact ⟨d', ((Hands.set o c).seq hscript).seq hstages⟩

theorem Routine.hands (p : Routine) (o : Outlook) :
    ∃ d, Hands p.run o (o.admitted (p.occurrences o.input)) d := by
  obtain ⟨d, hopening⟩ := p.opening.hands o o.input false rfl
  obtain ⟨d', hstages⟩ := hands_stages p.stages { o with input := d }
  rw [occurrences, Outlook.admitted_append]
  exact ⟨d', hopening.seq hstages⟩

theorem Occurrence.handed_level (n : Occurrence) : n.handed.level = n.event.level := by
  have hlevel (entries : List (String × String)) (e : Event) :
      (e.withContexts entries).level = e.level := by rw [Event.withContexts_eq]
  rw [handed]
  split
  · rw [hlevel, hlevel]
  · rw [hlevel]

/-- The logger gets all of them. -/
theorem Outlook.received_admitted (o : Outlook) (os : List Occurrence) :
    o.received (o.admitted os) = (o.admitted os).map Event.clamped := by
  have hall : ∀ e ∈ o.admitted os, o.admits e.level = true := by
    intro e he
    obtain ⟨n, hn, rfl⟩ := List.mem_map.mp he
    rw [n.handed_level]
    exact (List.mem_filter.mp hn).2
  rw [received, List.filter_eq_self.mpr hall]

/-- The service gets the admitted events of a routine, one after the other, and its logger gets them
with their messages clamped. Each names the input of the innermost scope around it, unless a scope
within that one has been left before; then no input is attached. When a scope is left none is at
work, which is as before only if none was then. -/
theorem Routine.events_scoped (p : Routine) (s : Session) :
    (∃ ds, Does p.run s.outlook () ds ∧
        ds.filterMap Deed.event? = s.outlook.admitted (p.occurrences s.input)) ∧
      Logs s ((s.outlook.admitted (p.occurrences s.input)).map Event.clamped) (p.run s).2 ∧
      (∀ n : Occurrence, n.afterScope = false → ∀ c ∈ n.enclosing, n.handed.Names c) ∧
      (∀ n : Occurrence, n.afterScope = true ∨ n.enclosing = none →
        n.handed = n.event.withContexts n.entries) ∧
      ∀ {α : Type} (c : InputContext) (x : SessionM α) (t : Session),
        (withInput c x t).2.input = none ∧
          ((withInput c x t).2.input = t.input ↔ t.input = none) := by
  obtain ⟨_, ds, hdoes, -, hevents⟩ := p.hands s.outlook
  refine ⟨⟨ds, hdoes, hevents⟩, ?_, fun n hn c hc => ?_, fun n hn => ?_,
    fun c x t => ⟨rfl, eq_comm⟩⟩
  · have hlogs := hdoes.logs
    rwa [hevents, Outlook.received_admitted] at hlogs
  · have hwork : n.atWork = some c := by
      rw [Occurrence.atWork, hn]
      exact hc
    rw [Occurrence.handed_of_atWork hwork]
    exact Event.names_attached _ c
  · apply Occurrence.handed_of_not_atWork
    obtain hn | hn := hn
    · rw [Occurrence.atWork, hn, if_pos rfl]
    · rw [Occurrence.atWork, hn, ite_self]

def outerInput : InputContext := ⟨"outer.json", none⟩

def innerInput : InputContext := ⟨"inner.json", none⟩

/-- An event in a scope within another one, and an event after it. -/
def nestedScopes : Routine where
  opening := .within outerInput
    (.within innerInput (.dispatch (.info 0 "inside") [] .done)
      (.dispatch (.info 0 "after") [] .done))
    .done
  stages := []

/-- The second event does not name the scope around it, and the inner scope does not give the outer
input back. -/
theorem events_scoped_nestedScopes :
    ((nestedScopes.occurrences none).map fun n => (n.event.message, n.enclosing)) =
        [("inside", some innerInput), ("after", some outerInput)] ∧
      (((nestedScopes.run remembering).2.service.bind (·.logger.buffer?)).map fun b =>
        b.toList.map fun e => (e.message, e.context)) =
          some [("inside", [("input", "inner.json")]), ("after", [])] ∧
      (withInput innerInput (Session.dispatch (.info 0 "inside") [])
        { remembering with input := some outerInput }).2.input ≠ some outerInput :=
  ⟨rfl, rfl, by decide⟩

end ScanCriteria
