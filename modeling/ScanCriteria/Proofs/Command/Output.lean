import ScanCriteria.Proofs.Command.ReportLines
import ScanCriteria.Proofs.Command.RoundTrip
import ScanCriteria.Proofs.Command.Runs
import ScanCriteria.Proofs.Session.Delivery
import Mathlib.Data.List.Forall2

/-!
# What a reader gets

A reader who takes everything gets one report for each input, in order, and the counts at the end
unless the reports are JSON. What an input holds cannot change that: a JSON report is a single line,
and of the other lines only the status lines and the counts are not indented.
-/
namespace ScanCriteria

/-- The report so far, as its reader has it. -/
def Session.reported (s : Session) : String :=
  String.join (s.emitted.toList.filterMap Emission.report?)

def Deed.offered? : Deed → Option String
  | .write text => some text
  | _ => none

theorem Deed.offered?_of_attributed {c : Option InputContext} {ds : List Deed}
    (h : ∀ d ∈ ds, d.Attributed c) : ds.filterMap offered? = [] := by
  rw [List.filterMap_eq_nil_iff]
  intro d hd
  cases d with
  | write text => exact (h _ hd).elim
  | log e => rfl
  | work c => rfl
  | prefer p => rfl

namespace Session

/-- Events do not get into the report. -/
theorem filterMap_report?_log (e : Event) (v : Service) :
    (v.log e).2.filterMap Emission.report? = [] := by
  cases h : v.admits e.level with
  | false => rw [Service.log_heldBack h, List.filterMap_nil]
  | true =>
    rw [Service.log_taken h, List.filterMap_eq_nil_iff]
    exact fun x hx => Logger.report?_of_mem_output hx

theorem reported_perform {s : Session} (hs : s.room = none) (d : Deed) :
    (s.perform d).reported = s.reported ++ String.join d.offered?.toList := by
  cases d with
  | log e =>
    obtain ⟨environment, clock, preferences, service, input, room, emitted⟩ := s
    cases service with
    | none => exact String.append_empty.symm
    | some v =>
      change String.join ((emitted ++ (v.log e).2).toList.filterMap Emission.report?) =
        String.join (emitted.toList.filterMap Emission.report?) ++ ""
      rw [Array.toList_appendList, List.filterMap_append, filterMap_report?_log, List.append_nil,
        String.append_empty]
  | write text =>
    have htakes : s.outlook.takes text = true := Outlook.takes_of_room hs text
    rw [perform, write_eq, Outlook.taken, if_pos htakes]
    simp [reported, Emission.report?, Deed.offered?]
  | work c => simp [perform, Deed.offered?, reported]
  | prefer p => simp [perform, Deed.offered?, reported]

theorem reported_replay {s : Session} (hs : s.room = none) (ds : List Deed) :
    (s.replay ds).reported = s.reported ++ String.join (ds.filterMap Deed.offered?) := by
  induction ds generalizing s with
  | nil => simp [replay]
  | cons d ds ih =>
    have hroom : (s.perform d).room = none := by
      have houtlook := congrArg Outlook.room (s.outlook_perform d)
      exact houtlook.trans (Outlook.after_room hs d)
    calc (s.replay (d :: ds)).reported
        = (s.perform d).reported ++ String.join (ds.filterMap Deed.offered?) := ih hroom
      _ = s.reported ++ String.join ((d :: ds).filterMap Deed.offered?) := by
        rw [reported_perform hs, String.append_assoc]
        cases h : d.offered? <;> simp [h]

theorem reported_of_does {α : Type} {x : SessionM α} {s : Session} {a : α} {ds : List Deed}
    (h : Does x s.outlook a ds) (hs : s.room = none) :
    (x s).1 = a ∧ (x s).2.reported = s.reported ++ String.join (ds.filterMap Deed.offered?) := by
  rw [h s rfl]
  exact ⟨rfl, reported_replay hs ds⟩

end Session

namespace Command
open Json

variable {i : Invocation} {o : Outlook} {index : Nat} {v : Value} {vs : List Value} {r : Report}
  {rs : List Report} {es ds : List Deed}

theorem Converts.offered (h : Converts i o index v r es) :
    (inputDeeds i index es r).filterMap Deed.offered? = [reportText i r] := by
  have hes : es.filterMap Deed.offered? = [] := Deed.offered?_of_attributed h.attributed
  rw [inputDeeds, workDeeds, List.filterMap_append, List.filterMap_cons_none rfl,
    List.filterMap_append, hes]
  rfl

/-- Only the reports are offered to the reader. -/
theorem ConvertsAll.offered (h : ConvertsAll i o index vs rs ds) :
    ds.filterMap Deed.offered? = rs.map (reportText i) := by
  induction h with
  | done o index => rfl
  | refused head _ => exact head.offered
  | next head _ _ ih => rw [List.filterMap_append, head.offered, ih]; rfl

/-- A reader who takes everything gets a report on each input, in their order. -/
theorem ConvertsAll.indices (h : ConvertsAll i o index vs rs ds) (ho : o.room = none) :
    rs.map (·.index) = List.range' index vs.length := by
  induction h with
  | done o index => rfl
  | refused head refused => exact absurd refused (by simp [Outlook.takes_of_room ho])
  | next head _ _ ih =>
    rw [List.map_cons, head.index_eq, ih (Outlook.afterAll_room ho _)]
    rfl

/-- The lines that a reader gets in all. -/
def outputLines (i : Invocation) (rs : List Report) (sum : RunSummary) : List String :=
  if i.json then rs.map fun r => r.document.text
  else (rs.flatMap fun r => r.status :: r.detailLines) ++ [sum.counts]

theorem written_flatMap {α : Type} (f : α → List String) (l : List α) :
    written (l.flatMap f) = String.join (l.map fun a => written (f a)) := by
  induction l with
  | nil => rfl
  | cons a l ih => simp [ih]

theorem written_outputLines (i : Invocation) (rs : List Report) (sum : RunSummary) :
    written (outputLines i rs sum) =
      String.join (rs.map (reportText i) ++ if i.json then [] else [sum.text]) := by
  rw [outputLines]
  cases hjson : i.json with
  | true =>
    have htext : reportText i = fun r => Report.line r.document.text := by
      funext r
      simp [reportText, hjson, Report.jsonLine]
    simp [written, htext, Function.comp_def]
  | false =>
    have htext : reportText i = fun r => written (r.status :: r.detailLines) := by
      funext r
      simp [reportText, hjson, Report.text_eq]
    simp only [Bool.false_eq_true, if_false, written_append, written_flatMap, htext,
      String.join_append, RunSummary.text_eq]
    simp

theorem oneLine_outputLines (i : Invocation) (rs : List Report) (sum : RunSummary) :
    ∀ l ∈ outputLines i rs sum, OneLine l := by
  rw [outputLines]
  split
  · simp only [List.mem_map]
    rintro _ ⟨r, _, rfl⟩
    exact r.document.oneLine_text
  · simp only [List.mem_append, List.mem_flatMap, List.mem_cons, List.not_mem_nil,
      or_false]
    rintro _ (⟨r, _, rfl | hl⟩ | rfl)
    · exact r.oneLine_status
    · exact (r.detail_detailLines _ hl).oneLine
    · exact sum.oneLine_counts

theorem filter_report (r : Report) :
    (r.status :: r.detailLines).filter (fun l => ¬ Indented l) = [r.status] := by
  have hdetails : r.detailLines.filter (fun l => ¬ Indented l) = [] := by
    rw [List.filter_eq_nil_iff]
    intro l hl
    simpa using (r.detail_detailLines l hl).indented
  rw [List.filter_cons_of_pos (by simpa using r.not_indented_status), hdetails]

theorem filter_outputLines {i : Invocation} (hjson : i.json = false) (rs : List Report)
    (sum : RunSummary) :
    (outputLines i rs sum).filter (fun l => ¬ Indented l) = rs.map (·.status) ++ [sum.counts] := by
  have hcounts : [sum.counts].filter (fun l => ¬ Indented l) = [sum.counts] :=
    List.filter_cons_of_pos (by simpa using sum.not_indented_counts)
  rw [outputLines, hjson, if_neg Bool.false_ne_true, List.filter_append, hcounts,
    List.filter_flatMap]
  simp only [filter_report, List.map_eq_flatMap]

theorem exitCode_summaryOf (rs : List Report) :
    (summaryOf rs).exitCode = 0 ↔ ∀ r ∈ rs, r.ok = true := by
  have hzero : (summaryOf rs).exitCode = 0 ↔ (summaryOf rs).failed = 0 := by
    rw [RunSummary.exitCode]
    split <;> simp_all
  rw [hzero, summaryOf, List.countP_eq_zero]
  simp

/-- Each report is what the conversion of an input returns. -/
theorem HandlesAll.exists_conversion {s t : Session} {ess : List (List Event)}
    (h : HandlesAll i index s vs rs ess t) :
    ∀ r ∈ rs, ∃ v ∈ vs, ∃ k u, r = returned (conversion i k v) u := by
  induction h with
  | done index s => simp
  | refused head _ =>
    rw [List.forall_mem_singleton]
    exact ⟨_, List.mem_cons_self, _, _, head.report_eq.symm⟩
  | next head _ _ ih =>
    refine List.forall_mem_cons.mpr ⟨⟨_, List.mem_cons_self, _, _, head.report_eq.symm⟩, ?_⟩
    intro r hr
    obtain ⟨v, hv, hr⟩ := ih r hr
    exact ⟨v, List.mem_cons_of_mem _ hv, hr⟩

/-- In the session `s` the action `x` returns the counts `sum` and gives its reader the reports `rs`
on the inputs `vs`, as the lines `lines` and nothing else. The first input is reported on in the
session `start`. -/
structure Reported (i : Invocation) (vs : List Value)
    (x : SessionM (Except RunFault RunSummary)) (s start : Session) (sum : RunSummary)
    (rs : List Report) (lines : List String) : Prop where
  handled : ∃ ess t, HandlesAll i 0 start vs rs ess t
  indices : rs.map (·.index) = List.range vs.length
  output : (x s).2.reported = s.reported ++ written lines
  inOrder : written lines =
    String.join (rs.map (reportText i) ++ if i.json then [] else [sum.text])
  oneLine : ∀ l ∈ lines, OneLine l
  splitOn : (written lines).toList.splitOn '\n' = lines.map String.toList ++ [[]]
  json : i.json = true → List.Forall₂ Report.ShownBy rs lines
  text : i.json = false →
    lines.filter (fun l => ¬ Indented l) = rs.map (·.status) ++ [sum.counts]
  result : (x s).1 = .ok sum
  total : sum.total = vs.length
  failed : sum.failed = rs.countP fun r => !r.ok
  failed_le : sum.failed ≤ sum.total
  exitCode : sum.exitCode = 0 ↔ ∀ r ∈ rs, r.ok = true

/-- As JSON each report is a line of its own. -/
theorem shownBy_outputLines {i : Invocation} (hjson : i.json = true) (rs : List Report)
    (sum : RunSummary) : List.Forall₂ Report.ShownBy rs (outputLines i rs sum) := by
  rw [outputLines, if_pos hjson, List.forall₂_map_right_iff, List.forall₂_same]
  exact fun r _ => r.shownBy_document

/-- The deeds `before` are not for the reader. -/
theorem reported_of_convertsAll {s : Session} (hs : s.room = none) {before : List Deed}
    (hbefore : ∀ d ∈ before, d.Attributed s.input) {x : SessionM (Except RunFault RunSummary)}
    (h : ConvertsAll i (s.outlook.afterAll before) 0 vs rs ds)
    (hx : ∀ {result es}, Does (convert i vs) (s.outlook.afterAll before) result es →
      Does x s.outlook result (before ++ es)) :
    Reported i vs x s (s.replay before) (summaryOf rs) rs (outputLines i rs (summaryOf rs)) := by
  have hroom : (s.outlook.afterAll before).room = none := Outlook.afterAll_room hs before
  obtain ⟨result, tail, hdoes, _, hfull⟩ := does_convert h
  obtain ⟨hresult, htail⟩ := hfull hroom
  obtain ⟨hvalue, houtput⟩ := Session.reported_of_does (hx hdoes) hs
  obtain ⟨ess, hhandled, _⟩ := h.handles (s.outlook_replay before)
  have hindices : rs.map (·.index) = List.range vs.length :=
    (h.indices hroom).trans List.range_eq_range'.symm
  have hoffered : (before ++ (ds ++ tail)).filterMap Deed.offered? =
      rs.map (reportText i) ++ if i.json then [] else [(summaryOf rs).text] := by
    rw [List.filterMap_append, List.filterMap_append, Deed.offered?_of_attributed hbefore,
      h.offered, htail]
    split <;> rfl
  exact {
    handled := ⟨ess, _, hhandled⟩
    indices := hindices
    output := by rw [houtput, hoffered, written_outputLines]
    inOrder := written_outputLines i rs _
    oneLine := oneLine_outputLines i rs _
    splitOn := splitOn_written (oneLine_outputLines i rs _)
    json := fun hjson => shownBy_outputLines hjson rs _
    text := fun hjson => filter_outputLines hjson rs _
    result := hvalue.trans hresult
    total := by simpa [summaryOf] using congrArg List.length hindices
    failed := rfl
    failed_le := List.countP_le_length
    exitCode := exitCode_summaryOf rs }

/-- Whatever the inputs hold, a reader who takes everything gets a report on each, in order. As JSON
each report is one line, an object that says what the report says. As text the lines that are not
indented are one status line for each input and at last the counts. The counts are those of the
reports, and the exit code is zero exactly if all of them are good. -/
theorem run_reported (i : Invocation) (vs : List Value) {s : Session} (hs : s.room = none) :
    (∃ sum rs lines, Reported i vs (convert i vs) s s sum rs lines) ∧
      ∀ contents, inputs i.file i.batch contents = .ok vs → ∃ sum rs lines,
        Reported i vs (run i contents) s (loading i contents s).2 sum rs lines := by
  constructor
  · obtain ⟨rs, ds, h⟩ := exists_convertsAll i s.outlook 0 vs
    have hnone : ∀ d ∈ ([] : List Deed), d.Attributed s.input := by simp
    exact ⟨_, rs, _, reported_of_convertsAll hs hnone h fun hdoes => hdoes⟩
  · intro contents hcontents
    obtain ⟨_, before, hloading, _, hbefore⟩ := attributes_loading i contents s.outlook
    obtain ⟨rs, ds, h⟩ := exists_convertsAll i (s.outlook.afterAll before) 0 vs
    have hstart : (loading i contents s).2 = s.replay before := congrArg Prod.snd (hloading s rfl)
    rw [hstart]
    refine ⟨_, rs, _, reported_of_convertsAll hs hbefore h fun hdoes => ?_⟩
    rw [run_eq, hcontents]
    exact hloading.bind hdoes

/-- A tag that passes itself off as the status line of another input, and something that is no
tuple. -/
def forged : List Value := [.array [.string "x\n[OK] input 1"], .null]

def forgedText : String := "[[\"x\\n[OK] input 1\"],null]"

/-- A check of the file with this text, as JSON or as text. -/
def checkForged (json : Bool) : Invocation := ⟨.check, "criteria.json", true, json, 0⟩

theorem inputs_forgedText (json : Bool) :
    inputs (checkForged json).file (checkForged json).batch (.ok forgedText.toUTF8) =
      .ok forged := by
  have hchars : Reader.skipSpace forgedText.toList = ['[', '[', '"', 'x', '\\', 'n', '[', 'O', 'K',
    ']', ' ', 'i', 'n', 'p', 'u', 't', ' ', '1', '"', ']', ',', 'n', 'u', 'l', 'l', ']'] := by
    decide
  refine inputs_toUTF8 _ hchars ?_
  with_unfolding_all rfl

theorem parse_forged : ∀ v ∈ forged, ∃ f, Wire.parse v = .error f := by
  have htag : Wire.stateAt (.array [.string "x\n[OK] input 1"]) 1 =
      .stopped ⟨.unknownBooleanTupleNodeType, "x\n[OK] input 1"⟩
        ⟨1, 1, #[⟨1, "x\n[OK] input 1", none⟩]⟩ := rfl
  have hnull : Wire.stateAt .null 1 = .stopped ⟨.booleanTupleNotAnArray, "null"⟩ .start := rfl
  intro v hv
  rw [forged, List.mem_cons, List.mem_singleton] at hv
  obtain rfl | rfl := hv
  · exact ⟨_, Wire.parse_eq_error_of_stateAt htag⟩
  · exact ⟨_, Wire.parse_eq_error_of_stateAt hnull⟩

/-- Neither passes as good, and each is told apart by its own index. -/
theorem exists_forged_reports {json : Bool} {x : SessionM (Except RunFault RunSummary)}
    {s start : Session} {sum : RunSummary} {lines : List String}
    (h : Reported (checkForged json) forged x s start sum rs lines) :
    ∃ r r', rs = [r, r'] ∧ r.index = 0 ∧ r.ok = false ∧ r'.index = 1 ∧ r'.ok = false := by
  obtain ⟨ess, t, hhandled⟩ := h.handled
  have hbad : ∀ r ∈ rs, r.ok = false := by
    intro r hr
    obtain ⟨v, hv, index, u, rfl⟩ := hhandled.exists_conversion r hr
    obtain ⟨f, hf⟩ := parse_forged v hv
    obtain ⟨advice, hreport⟩ := Report.returned_ofCheck_error hf index u
    exact congrArg Report.ok hreport
  have hindices : rs.map (·.index) = [0, 1] := h.indices
  obtain ⟨r, r', rfl⟩ := List.length_eq_two.mp (by simpa using congrArg List.length hindices)
  obtain ⟨hr, hr'⟩ : r.index = 0 ∧ r'.index = 1 := by simpa using hindices
  exact ⟨r, r', rfl, hr, hbad r (by simp), hr', hbad r' (by simp)⟩

theorem run_reported_forged :
    (Session.start [] 0).room = none ∧
      (∃ sum rs lines a b, Reported (checkForged true) forged
          (run (checkForged true) (.ok forgedText.toUTF8)) (Session.start [] 0)
          (loading (checkForged true) (.ok forgedText.toUTF8) (Session.start [] 0)).2 sum rs lines ∧
        lines = ["\x7b\"index\":0,\"ok\":false," ++ a, "\x7b\"index\":1,\"ok\":false," ++ b]) ∧
      ∃ sum rs lines, Reported (checkForged false) forged
          (run (checkForged false) (.ok forgedText.toUTF8)) (Session.start [] 0)
          (loading (checkForged false) (.ok forgedText.toUTF8) (Session.start [] 0)).2 sum rs
          lines ∧
        lines.filter (fun l => ¬ Indented l) =
          ["[FAILED] input 0", "[FAILED] input 1", "0 of 2 inputs passed"] := by
  have hroom : (Session.start [] 0).room = none := rfl
  refine ⟨hroom, ?_, ?_⟩
  · obtain ⟨sum, rs, lines, h⟩ :=
      (run_reported (checkForged true) forged hroom).2 _ (inputs_forgedText true)
    obtain ⟨r, r', rfl, hindex, hok, hindex', hok'⟩ := exists_forged_reports h
    obtain ⟨l, tail, hl, htail, rfl⟩ := List.forall₂_cons_left_iff.mp (h.json rfl)
    obtain ⟨l', rest, hl', hrest, rfl⟩ := List.forall₂_cons_left_iff.mp htail
    obtain rfl := List.forall₂_nil_left_iff.mp hrest
    obtain ⟨a, ha⟩ := hl.begins (by rw [hindex]; decide)
    obtain ⟨b, hb⟩ := hl'.begins (by rw [hindex']; decide)
    refine ⟨sum, _, _, a, b, h, ?_⟩
    rw [ha, hb, hindex, hok, hindex', hok']
    rfl
  · obtain ⟨sum, rs, lines, h⟩ :=
      (run_reported (checkForged false) forged hroom).2 _ (inputs_forgedText false)
    obtain ⟨r, r', rfl, hindex, hok, hindex', hok'⟩ := exists_forged_reports h
    refine ⟨sum, _, lines, h, (h.text rfl).trans ?_⟩
    have htotal : sum.total = 2 := h.total
    have hfailed : sum.failed = 2 := by simp [h.failed, hok, hok']
    simp only [List.map_cons, List.map_nil, Report.status, RunSummary.counts, hindex, hok, hindex',
      hok', htotal, hfailed]
    rfl

end Command
end ScanCriteria
