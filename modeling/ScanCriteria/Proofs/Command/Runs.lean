import ScanCriteria.Proofs.Session.Attribution
import ScanCriteria.Proofs.Session.Delivery
import ScanCriteria.Proofs.Wire.Steps

/-!
# The deeds of a run

A run takes its inputs in order. Each is set to work, converted, and taken from work again before
its report is offered to the reader; the run goes on while the reader takes the reports. So the
deeds of a run fall into stretches, and the events of a stretch carry one input, or none.
`HandlesAll` says the same of the sessions that the run goes through, and of what is logged there.
-/
namespace ScanCriteria.Command
open Json

/-- The deeds while an input is at work, of which `es` are those of its conversion. -/
def workDeeds (i : Invocation) (index : Nat) (es : List Deed) : List Deed :=
  .work (some (context i index)) :: (es ++ [.work none])

/-- The deeds on one input: it is converted, then the report on it is written. -/
def inputDeeds (i : Invocation) (index : Nat) (es : List Deed) (r : Report) : List Deed :=
  workDeeds i index es ++ [.write (reportText i r)]

/-- At work, the conversion of `v` gives the report `r` on it and does `es`. -/
structure Converts (i : Invocation) (o : Outlook) (index : Nat) (v : Value) (r : Report)
    (es : List Deed) : Prop where
  does : Does (conversion i index v) (o.after (.work (some (context i index)))) r es
  index_eq : r.index = index
  attributed : ∀ d ∈ es, d.Attributed (some (context i index))

/-- The reports on inputs, counted from an index, and the deeds up to the first report that the
reader does not take. -/
inductive ConvertsAll (i : Invocation) :
    Outlook → Nat → List Value → List Report → List Deed → Prop where
  | done (o : Outlook) (index : Nat) : ConvertsAll i o index [] [] []
  | refused {o : Outlook} {index : Nat} {v : Value} {vs : List Value} {r : Report}
      {es : List Deed} (head : Converts i o index v r es)
      (refused : o.takes (reportText i r) = false) :
      ConvertsAll i o index (v :: vs) [r] (inputDeeds i index es r)
  | next {o : Outlook} {index : Nat} {v : Value} {vs : List Value} {r : Report} {rs : List Report}
      {es ds : List Deed} (head : Converts i o index v r es)
      (taken : o.takes (reportText i r) = true)
      (tail : ConvertsAll i (o.afterAll (inputDeeds i index es r)) (index + 1) vs rs ds) :
      ConvertsAll i o index (v :: vs) (r :: rs) (inputDeeds i index es r ++ ds)

variable {i : Invocation} {o : Outlook} {index : Nat} {v : Value} {vs : List Value} {r : Report}
  {rs : List Report} {es ds : List Deed}

theorem exists_converts (i : Invocation) (o : Outlook) (index : Nat) (v : Value) :
    ∃ r es, Converts i o index v r es := by
  obtain ⟨r, es, hdoes, hindex, hes⟩ :=
    attributes_conversion i index v (o.after (.work (some (context i index))))
  exact ⟨r, es, hdoes, hindex, hes⟩

/-- Afterwards no input is at work. -/
theorem afterAll_inputDeeds_input (i : Invocation) (o : Outlook) (index : Nat) (es : List Deed)
    (r : Report) : (o.afterAll (inputDeeds i index es r)).input = none := by
  simp only [inputDeeds, workDeeds, Outlook.afterAll_append, Outlook.afterAll_cons,
    Outlook.afterAll_nil, Outlook.after]

namespace Converts

theorem does_report (h : Converts i o index v r es) :
    Does (report i index v) o r (workDeeds i index es) :=
  .withInput h.does

/-- The conversion leaves the reader alone, so he takes what he would have taken before it. -/
theorem takes_eq (h : Converts i o index v r es) (text : String) :
    (o.afterAll (workDeeds i index es)).takes text = o.takes text := by
  have hroom : (o.afterAll (workDeeds i index es)).room = o.room := by
    rw [workDeeds, Outlook.afterAll_cons, Outlook.afterAll_append]
    exact (Outlook.afterAll_attributed h.attributed).2
  rw [Outlook.takes, hroom]
  rfl

theorem does_write (h : Converts i o index v r es) :
    Does (write (reportText i r)) (o.afterAll (workDeeds i index es)) (o.takes (reportText i r))
      [.write (reportText i r)] := by
  rw [← h.takes_eq]
  exact .write _ _

theorem does_reports_of_refused (h : Converts i o index v r es)
    (hrefused : o.takes (reportText i r) = false) (sum : RunSummary) (vs : List Value) :
    Does (reports i index sum (v :: vs)) o (.error closed) (inputDeeds i index es r) := by
  have hwrite := h.does_write
  rw [hrefused] at hwrite
  rw [← List.append_nil (inputDeeds i index es r), inputDeeds, List.append_assoc]
  exact h.does_report.bind (hwrite.bind (.pure _ _))

theorem does_reports_of_taken (h : Converts i o index v r es)
    (htaken : o.takes (reportText i r) = true) {sum : RunSummary}
    {result : Except RunFault RunSummary}
    (hrest : Does (reports i (index + 1) (sum.add r) vs) (o.afterAll (inputDeeds i index es r))
      result ds) :
    Does (reports i index sum (v :: vs)) o result (inputDeeds i index es r ++ ds) := by
  have hwrite := h.does_write
  rw [htaken] at hwrite
  rw [inputDeeds, Outlook.afterAll_append] at hrest
  rw [inputDeeds, List.append_assoc]
  exact h.does_report.bind (hwrite.bind hrest)

end Converts

/-- For a reader who takes everything the run counts all reports. -/
theorem does_reports (h : ConvertsAll i o index vs rs ds) (sum : RunSummary) :
    ∃ result, Does (reports i index sum vs) o result ds ∧
      (o.room = none →
        result = .ok ⟨sum.total + rs.length, sum.failed + rs.countP fun r => !r.ok⟩) := by
  induction h generalizing sum with
  | done o index => exact ⟨.ok sum, .pure _ _, fun _ => rfl⟩
  | refused head refused =>
    refine ⟨.error closed, head.does_reports_of_refused refused _ _, fun hroom => ?_⟩
    exact absurd refused (by simp [Outlook.takes_of_room hroom])
  | @next o index v vs r rs es ds head taken tail ih =>
    obtain ⟨result, hdoes, hfull⟩ := ih (sum.add r)
    refine ⟨result, head.does_reports_of_taken taken hdoes, fun hroom => ?_⟩
    refine (hfull (Outlook.afterAll_room hroom _)).trans ?_
    cases hok : r.ok <;> simp [RunSummary.add, hok] <;> omega

theorem exists_convertsAll (i : Invocation) (o : Outlook) (index : Nat) (vs : List Value) :
    ∃ rs ds, ConvertsAll i o index vs rs ds := by
  induction vs generalizing o index with
  | nil => exact ⟨[], [], .done o index⟩
  | cons v vs ih =>
    obtain ⟨r, es, head⟩ := exists_converts i o index v
    cases htakes : o.takes (reportText i r) with
    | false => exact ⟨_, _, .refused head htakes⟩
    | true =>
      obtain ⟨rs, ds, tail⟩ := ih (o.afterAll (inputDeeds i index es r)) (index + 1)
      exact ⟨_, _, .next head htakes tail⟩

theorem ConvertsAll.afterAll_input (h : ConvertsAll i o index vs rs ds) (ho : o.input = none) :
    (o.afterAll ds).input = none := by
  induction h with
  | done o index => exact ho
  | refused => exact afterAll_inputDeeds_input ..
  | next _ _ _ ih =>
    rw [Outlook.afterAll_append]
    exact ih (afterAll_inputDeeds_input ..)

/-- The counts of reports. -/
def summaryOf (rs : List Report) : RunSummary := ⟨rs.length, rs.countP fun r => !r.ok⟩

/-- After the inputs only the line of counts is offered to the reader, if at all. -/
theorem does_convert (h : ConvertsAll i o 0 vs rs ds) :
    ∃ result tail, Does (convert i vs) o result (ds ++ tail) ∧
      (∀ d ∈ tail, ∃ text, d = .write text) ∧
      (o.room = none → result = .ok (summaryOf rs) ∧
        tail = if i.json then [] else [.write (summaryOf rs).text]) := by
  obtain ⟨result, hdoes, hfull⟩ := does_reports h .empty
  cases result with
  | error f =>
    refine ⟨.error f, [], hdoes.bind (.pure _ _), by simp, fun hroom => ?_⟩
    cases hfull hroom
  | ok sum =>
    have hsum (hroom : o.room = none) : sum = summaryOf rs := by
      simpa [RunSummary.empty, summaryOf] using hfull hroom
    cases hjson : i.json with
    | true =>
      refine ⟨.ok sum, [], hdoes.bind ?_, by simp, fun hroom => ?_⟩
      · simp only [hjson, if_true]
        exact .pure _ _
      · rw [hsum hroom]
        exact ⟨rfl, rfl⟩
    | false =>
      have hwrite := Does.write (o.afterAll ds) sum.text
      refine ⟨if (o.afterAll ds).takes sum.text then .ok sum else .error closed, [.write sum.text],
        hdoes.bind ?_, by simp, fun hroom => ?_⟩
      · simp only [hjson, Bool.false_eq_true, if_false]
        rw [← List.append_nil [Deed.write sum.text]]
        refine hwrite.bind ?_
        split <;> exact .pure _ _
      · rw [if_pos (Outlook.takes_of_room (Outlook.afterAll_room hroom ds) _), hsum hroom]
        exact ⟨rfl, rfl⟩

/-- In the session `s` the report on the input `v` is `r`, and the events `es` are logged. -/
structure Handles (i : Invocation) (index : Nat) (s : Session) (v : Value) (r : Report)
    (es : List Event) : Prop where
  report_eq : (report i index v s).1 = r
  index_eq : r.index = index
  logs : Logs s es (report i index v s).2

/-- From the session `s` on, the inputs `vs` are reported on, each in the session that the one
before has left, up to the first report that the reader does not take. The reports are `rs`, of the
events each list of `ess` is logged while one of these reports is made, and the session is `t` in
the end. -/
inductive HandlesAll (i : Invocation) :
    Nat → Session → List Value → List Report → List (List Event) → Session → Prop where
  | done (index : Nat) (s : Session) : HandlesAll i index s [] [] [] s
  | refused {index : Nat} {s t : Session} {v : Value} {vs : List Value} {r : Report}
      {es : List Event} : Handles i index s v r es →
      write (reportText i r) (report i index v s).2 = (false, t) →
      HandlesAll i index s (v :: vs) [r] [es] t
  | next {index : Nat} {s t u : Session} {v : Value} {vs : List Value} {r : Report}
      {rs : List Report} {es : List Event} {ess : List (List Event)} : Handles i index s v r es →
      write (reportText i r) (report i index v s).2 = (true, t) →
      HandlesAll i (index + 1) t vs rs ess u → HandlesAll i index s (v :: vs) (r :: rs) (es :: ess) u

theorem received_attributed {c : Option InputContext} (h : ∀ d ∈ es, d.Attributed c)
    (o : Outlook) : ∀ e ∈ o.received (es.filterMap Deed.event?), e.Carries c := by
  intro e he
  obtain ⟨e', he', rfl⟩ := List.mem_map.mp he
  obtain ⟨d, hd, hevent⟩ := List.mem_filterMap.mp (List.mem_filter.mp he').1
  cases d with
  | log e => exact Option.some.inj hevent ▸ h _ hd
  | write text | work c | prefer p => cases hevent

theorem event?_workDeeds (i : Invocation) (index : Nat) (es : List Deed) :
    (workDeeds i index es).filterMap Deed.event? = es.filterMap Deed.event? := by
  rw [workDeeds, List.filterMap_cons_none rfl, List.filterMap_append]
  exact List.append_nil _

theorem event?_inputDeeds (i : Invocation) (index : Nat) (es : List Deed) (r : Report) :
    (inputDeeds i index es r).filterMap Deed.event? = es.filterMap Deed.event? := by
  rw [inputDeeds, List.filterMap_append, event?_workDeeds]
  exact List.append_nil _

theorem Converts.handles {s : Session} (h : Converts i s.outlook index v r es) :
    Handles i index s v r (s.outlook.received (es.filterMap Deed.event?)) ∧
      write (reportText i r) (report i index v s).2 =
        (s.outlook.takes (reportText i r), s.replay (inputDeeds i index es r)) := by
  have hreport := h.does_report s rfl
  refine ⟨⟨congrArg Prod.fst hreport, h.index_eq, ?_⟩, ?_⟩
  · rw [← event?_workDeeds i index es]
    exact h.does_report.logs
  · rw [hreport, h.does_write _ (s.outlook_replay _), inputDeeds, Session.replay_append]

/-- What is done from an outlook is what happens in each session that has it. -/
theorem ConvertsAll.handles (h : ConvertsAll i o index vs rs ds) {s : Session}
    (hs : s.outlook = o) :
    ∃ ess, HandlesAll i index s vs rs ess (s.replay ds) ∧
      ess.flatten = s.outlook.received (ds.filterMap Deed.event?) ∧
      ∀ (k : Nat) (es : List Event), ess[k]? = some es →
        ∀ e ∈ es, e.Carries (some (context i (index + k))) := by
  induction h generalizing s with
  | done o index => exact ⟨[], .done index s, rfl, nofun⟩
  | @refused o index v vs r es head refused =>
    subst hs
    obtain ⟨hhead, hwrite⟩ := head.handles
    rw [refused] at hwrite
    refine ⟨[_], .refused hhead hwrite, ?_, fun k es' hk => ?_⟩
    · rw [event?_inputDeeds, List.flatten_singleton]
    · cases k with
      | zero => exact Option.some.inj hk ▸ received_attributed head.attributed _
      | succ k => cases hk
  | @next o index v vs r rs es ds head taken tail ih =>
    subst hs
    obtain ⟨hhead, hwrite⟩ := head.handles
    rw [taken] at hwrite
    obtain ⟨ess, hrest, hflatten, hcarries⟩ := ih (s.outlook_replay _)
    rw [← Session.replay_append] at hrest
    refine ⟨_ :: ess, .next hhead hwrite hrest, ?_, fun k es' hk => ?_⟩
    · rw [List.flatten_cons, hflatten, List.filterMap_append, event?_inputDeeds,
        Outlook.received_append, Session.outlook_replay, Outlook.received_afterAll]
    · cases k with
      | zero => exact Option.some.inj hk ▸ received_attributed head.attributed _
      | succ k =>
        rw [← Nat.add_assoc, Nat.add_right_comm]
        exact hcarries k es' hk

/-- The inputs of a run; there are none when they cannot be loaded. -/
def loaded (i : Invocation) (contents : Contents) : List Value :=
  (inputs i.file i.batch contents).toOption.getD []

/-- A text is read as a batch when its value is an array. -/
theorem inputs_toUTF8 (file : String) {text : String} {cs : List Char}
    (hchars : Reader.skipSpace text.toList = cs)
    (hvalue : Reader.value fileDepth cs = some (.array vs, [])) :
    inputs file true (.ok text.toUTF8) = .ok vs := by
  have hutf : String.fromUTF8? text.toUTF8 = some text := dif_pos text.isValidUTF8
  have hread : Value.read? fileDepth text = some (.array vs) := by
    rw [Value.read?, hchars, hvalue]
    rfl
  simp only [inputs, hutf, hread]

/-- The message at the beginning and, if the inputs cannot be loaded, the reason. -/
def loading (i : Invocation) (contents : Contents) : SessionM Unit := do
  Session.logInfo "Loading criteria" [("file", i.file), ("batch", Event.boolText i.batch)]
  match inputs i.file i.batch contents with
  | .error f => Session.logError f.code f.message []
  | .ok _ => return ()

theorem attributes_loading (i : Invocation) (contents : Contents) :
    Attributes (loading i contents) Attributes.Always := by
  have hfirst : Attributes (Session.logInfo "Loading criteria"
      [("file", i.file), ("batch", Event.boolText i.batch)]) Attributes.Always :=
    .dispatchNow (e := fun t => .info t _) (fun _ => rfl)
      (by simp [InputContext.sourceKey, InputContext.indexKey])
  refine hfirst.bind fun _ _ => ?_
  cases inputs i.file i.batch contents with
  | error f => exact .dispatchNow (e := fun t => .error t _ _) (fun _ => rfl) (by simp)
  | ok vs => exact .pure trivial

theorem run_eq (i : Invocation) (contents : Contents) :
    run i contents = (do
      loading i contents
      match inputs i.file i.batch contents with
      | .error f => return .error f
      | .ok vs => convert i vs) := by
  rw [run, loading, bind_assoc]
  congr 1
  funext _
  cases inputs i.file i.batch contents <;> rfl

theorem exists_does_run (i : Invocation) (contents : Contents) (o : Outlook) :
    ∃ result before rs ds tail, Does (loading i contents) o () before ∧
      Does (run i contents) o result (before ++ (ds ++ tail)) ∧
      (∀ d ∈ before, d.Attributed o.input) ∧
      ConvertsAll i (o.afterAll before) 0 (loaded i contents) rs ds ∧
      ∀ d ∈ tail, ∃ text, d = .write text := by
  obtain ⟨_, before, hloading, _, hbefore⟩ := attributes_loading i contents o
  rw [run_eq, loaded]
  cases inputs i.file i.batch contents with
  | error f =>
    exact ⟨.error f, before, [], [], [], hloading, hloading.bind (.pure _ _), hbefore, .done _ _,
      by simp⟩
  | ok vs =>
    obtain ⟨rs, ds, hall⟩ := exists_convertsAll i (o.afterAll before) 0 vs
    obtain ⟨result, tail, hdoes, htail, _⟩ := does_convert hall
    exact ⟨result, before, rs, ds, tail, hloading, hloading.bind hdoes, hbefore, hall, htail⟩

/-- The source is named in any case, the index in a batch only. -/
theorem find?_of_carries {e : Event} (h : e.Carries (some (context i index))) :
    Entries.find? "input" e.context = some i.file ∧
      Entries.find? "input_index" e.context = if i.batch then some (toString index) else none := by
  refine ⟨h.1, h.2.trans ?_⟩
  rw [context]
  cases i.batch <;> rfl

theorem event?_writes {tail : List Deed} (h : ∀ d ∈ tail, ∃ text, d = .write text) :
    tail.filterMap Deed.event? = [] := by
  rw [List.filterMap_eq_nil_iff]
  intro d hd
  obtain ⟨text, rfl⟩ := h d hd
  rfl

section Attributed

variable {s : Session}

/-- What is logged of a run: first what is about the file, then what is about each input. -/
theorem exists_logged (i : Invocation) (contents : Contents) (hs : s.input = none) :
    ∃ early rs late t,
      Logs s early (loading i contents s).2 ∧
      (∀ e ∈ early, e.Carries none) ∧
      HandlesAll i 0 (loading i contents s).2 (loaded i contents) rs late t ∧
      (∀ (index : Nat) (es : List Event), late[index]? = some es →
        ∀ e ∈ es, e.Carries (some (context i index))) ∧
      Logs s (early ++ late.flatten) (run i contents s).2 := by
  have ho : s.outlook.input = none := hs
  obtain ⟨result, before, rs, ds, tail, hloading, hdoes, hbefore, hall, htail⟩ :=
    exists_does_run i contents s.outlook
  obtain ⟨late, hhandles, hflatten, hcarries⟩ := hall.handles (s.outlook_replay before)
  have hreached : (loading i contents s).2 = s.replay before := congrArg Prod.snd (hloading s rfl)
  rw [ho] at hbefore
  rw [← hreached] at hhandles
  refine ⟨_, rs, late, _, hloading.logs, received_attributed hbefore s.outlook, hhandles, ?_, ?_⟩
  · simpa only [Nat.zero_add] using hcarries
  · have hlogs := hdoes.logs
    rw [List.filterMap_append, List.filterMap_append, event?_writes htail, List.append_nil,
      Outlook.received_append] at hlogs
    rwa [hflatten, Session.outlook_replay, Outlook.received_afterAll]

/-- No input is at work after a run. -/
theorem run_input (i : Invocation) (contents : Contents) (hs : s.input = none) :
    (run i contents s).2.input = none := by
  have ho : s.outlook.input = none := hs
  obtain ⟨result, before, rs, ds, tail, -, hdoes, hbefore, hall, htail⟩ :=
    exists_does_run i contents s.outlook
  have hstart : (s.outlook.afterAll before).input = none :=
    (Outlook.afterAll_attributed hbefore).1.trans ho
  calc (run i contents s).2.input = (s.replay (before ++ (ds ++ tail))).outlook.input := by
        rw [hdoes s rfl]; rfl
    _ = (s.outlook.afterAll (before ++ (ds ++ tail))).input := by rw [Session.outlook_replay]
    _ = ((s.outlook.afterAll before).afterAll ds).input := by
        rw [Outlook.afterAll_append, Outlook.afterAll_append, Outlook.afterAll_writes htail]
    _ = none := hall.afterAll_input hstart

/-- The input at work takes its keys in every event that is dispatched, and no other keys. -/
theorem dispatch_overrides {c : InputContext} (hs : s.input = some c) (e : Event)
    (entries : List (String × String)) : ∃ context,
      Logs s (s.outlook.received [{ e with context := context }])
        (Session.dispatch e entries s).2 ∧
      Entries.find? "input" context = some c.source ∧
      (∀ index ∈ c.index, Entries.find? "input_index" context = some (toString index)) ∧
      ∀ key, key ≠ "input" → key ≠ "input_index" →
        Entries.find? key context = Entries.find? key (e.withContexts entries).context := by
  have hlogs := (Does.dispatch s.outlook e entries).logs
  rw [Outlook.received_dispatched, Event.attach_of_input hs, Event.withContexts_eq c.entries,
    Event.withContexts_eq entries] at hlogs
  refine ⟨_, hlogs, ?_⟩
  rw [← Event.withContexts_eq]
  exact ⟨Event.find?_source_attached _ c, (Event.names_attached _ c).2,
    fun key hsource hindex => Event.find?_attached hsource hindex _ c⟩

end Attributed

/-- Every event of a run names the input at work, or none. What is logged before the first input
names no input. While an input is reported on, each event names the source and, in a batch only, the
index of that input; and nothing else is logged. However the run ends, no input is at work any more.
An event that is dispatched while an input is at work loses what it has under the two keys to the
input, and keeps everything else. -/
theorem run_attributed (i : Invocation) (contents : Contents) {s : Session}
    (hs : s.input = none) :
    (∃ early rs late t,
      Logs s early (loading i contents s).2 ∧
      (∀ e ∈ early, Entries.find? "input" e.context = none ∧
        Entries.find? "input_index" e.context = none) ∧
      HandlesAll i 0 (loading i contents s).2 (loaded i contents) rs late t ∧
      (∀ (index : Nat) (es : List Event), late[index]? = some es → ∀ e ∈ es,
        Entries.find? "input" e.context = some i.file ∧
        Entries.find? "input_index" e.context = if i.batch then some (toString index) else none) ∧
      Logs s (early ++ late.flatten) (run i contents s).2) ∧
    (run i contents s).2.input = none ∧
    ∀ (t : Session) (c : InputContext) (e : Event) (entries : List (String × String)),
      t.input = some c → ∃ context,
        Logs t (t.outlook.received [{ e with context := context }])
          (Session.dispatch e entries t).2 ∧
        Entries.find? "input" context = some c.source ∧
        (∀ index ∈ c.index, Entries.find? "input_index" context = some (toString index)) ∧
        ∀ key, key ≠ "input" → key ≠ "input_index" →
          Entries.find? key context = Entries.find? key (e.withContexts entries).context := by
  obtain ⟨early, rs, late, t, hearly, hnone, hhandles, hcarries, hlogs⟩ :=
    exists_logged i contents hs
  have hattributed (index : Nat) (es : List Event) (hes : late[index]? = some es) :
      ∀ e ∈ es, Entries.find? "input" e.context = some i.file ∧
        Entries.find? "input_index" e.context = if i.batch then some (toString index) else none :=
    fun e he => find?_of_carries (hcarries index es hes e he)
  exact ⟨⟨early, rs, late, t, hearly, hnone, hhandles, hattributed, hlogs⟩,
    run_input i contents hs, fun _ _ e entries hc => dispatch_overrides hc e entries⟩

/-- A session whose reader takes the first 200 bytes; its events are kept in memory. -/
def impatient : Session :=
  { Session.start [] 0 with
    service := some (.ofLogger (.memory .empty) .debug)
    room := some 200 }

/-- A check of a batch, with reports as text. -/
def checkBatch : Invocation := ⟨.check, "criteria.json", true, false, 0⟩

theorem inputs_emptyTuples :
    inputs checkBatch.file checkBatch.batch (.ok "[[],[]]".toUTF8) =
      .ok [.array [], .array []] := by
  have hchars : Reader.skipSpace "[[],[]]".toList = ['[', '[', ']', ',', '[', ']', ']'] := by
    decide
  refine inputs_toUTF8 _ hchars ?_
  with_unfolding_all rfl

/-- What the events in memory have under the two keys. -/
def rememberedKeys (s : Session) : Option (List (Option String × Option String)) :=
  (s.service.bind (·.logger.buffer?)).map (·.toList.map fun e =>
    (Entries.find? "input" e.context, Entries.find? "input_index" e.context))

/-- The reader takes the report on the first tuple and not the report on the second. -/
theorem run_impatient :
    (run checkBatch (.ok "[[],[]]".toUTF8) impatient).1 = .error closed ∧
      rememberedKeys (run checkBatch (.ok "[[],[]]".toUTF8) impatient).2 = some
        [(none, none), (some "criteria.json", some "0"), (some "criteria.json", some "1")] := by
  have hempty : Wire.stateAt (.array []) 1 = .stopped ⟨.tupleArrayIsZeroLength, ""⟩ .start := rfl
  have hparse := Wire.parse_eq_error_of_stateAt hempty
  have hinputs : inputs "criteria.json" true (.ok "[[],[]]".toUTF8) =
    .ok [.array [], .array []] := inputs_emptyTuples
  rw [run]
  simp only [checkBatch, hinputs, convert, reports, report, conversion, Report.ofCheck,
    Session.parse, hparse]
  decide +kernel

theorem run_attributed_impatient :
    impatient.input = none ∧ ∃ early rs late t b,
      HandlesAll checkBatch 0 (loading checkBatch (.ok "[[],[]]".toUTF8) impatient).2
        (loaded checkBatch (.ok "[[],[]]".toUTF8)) rs late t ∧
      (run checkBatch (.ok "[[],[]]".toUTF8) impatient).1 = .error closed ∧
      (run checkBatch (.ok "[[],[]]".toUTF8) impatient).2.input = none ∧
      (run checkBatch (.ok "[[],[]]".toUTF8) impatient).2.service =
        some (.ofLogger (.memory b) .debug) ∧
      b.toList = (early ++ late.flatten).rtake Limits.bufferedEvents ∧
      (b.toList.map fun e =>
        (Entries.find? "input" e.context, Entries.find? "input_index" e.context)) =
        [(none, none), (some "criteria.json", some "0"), (some "criteria.json", some "1")] := by
  have hinput : impatient.input = none := rfl
  obtain ⟨⟨early, rs, late, t, -, -, hhandles, -, hlogs⟩, hafter, -⟩ :=
    run_attributed checkBatch (.ok "[[],[]]".toUTF8) hinput
  obtain ⟨b, hservice, hb⟩ := hlogs.remembered rfl
  obtain ⟨hresult, hkeys⟩ := run_impatient
  rw [rememberedKeys, hservice] at hkeys
  exact ⟨hinput, early, rs, late, t, b, hhandles, hresult, hafter, hservice, hb (by decide),
    Option.some.inj hkeys⟩

end ScanCriteria.Command
