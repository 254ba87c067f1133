import ScanCriteria.Proofs.Json.Text
import ScanCriteria.Command.Run

/-!
# The lines of a report

As text a report is its status line and some indented ones. Whatever the inputs put into errors and
trails is cut into lines and indented, so none of it can stand where a status line stands. As JSON a
report is an object that begins with its index and whether it is good.
-/
namespace ScanCriteria
open Json

/-- The text of some lines. -/
def written (lines : List String) : String := String.join (lines.map Report.line)

@[simp] theorem written_nil : written [] = "" := rfl

@[simp] theorem written_cons (l : String) (ls : List String) :
    written (l :: ls) = Report.line l ++ written ls := by
  simp [written]

@[simp] theorem written_append (ls ms : List String) :
    written (ls ++ ms) = written ls ++ written ms := by
  simp [written]

/-- Between its line feeds the text has just these lines, and nothing follows the last. -/
theorem splitOn_written {ls : List String} (h : ∀ l ∈ ls, OneLine l) :
    (written ls).toList.splitOn '\n' = ls.map String.toList ++ [[]] := by
  induction ls with
  | nil => exact List.splitOn_nil _
  | cons l ls ih =>
    rw [List.forall_mem_cons] at h
    obtain ⟨hl, hls⟩ := h
    have htext : (written (l :: ls)).toList = l.toList ++ '\n' :: (written ls).toList := by
      simp [Report.line]
    rw [htext, List.splitOn_append_cons_self, List.splitOn_eq_singleton hl, ih hls]
    rfl

/-- A line that begins with two spaces. -/
def Indented (s : String) : Prop := [' ', ' '] <+: s.toList

instance (s : String) : Decidable (Indented s) := inferInstanceAs (Decidable ([' ', ' '] <+: _))

theorem Indented.append {s : String} (h : Indented s) (t : String) : Indented (s ++ t) := by
  rw [Indented, String.toList_append]
  exact h.trans (List.prefix_append _ _)

theorem not_indented_of_head? {s : String} {c : Char} (h : s.toList.head? = some c)
    (hc : c ≠ ' ') : ¬ Indented s := by
  rintro ⟨rest, hrest⟩
  rw [← hrest] at h
  exact hc (Option.some.inj h).symm

/-- A line that stands under a status line. -/
structure Detail (l : String) : Prop where
  oneLine : OneLine l
  indented : Indented l

theorem Detail.append {s t : String} (hs : Detail s) (ht : OneLine t) : Detail (s ++ t) :=
  ⟨(OneLine.append_iff s t).mpr ⟨hs.oneLine, ht⟩, hs.indented.append t⟩

namespace Report

theorem not_mem_dropReturn {cs : List Char} (h : '\n' ∉ cs) : '\n' ∉ dropReturn cs := by
  fun_cases dropReturn cs with
  | case1 cs => exact fun hc => h (List.mem_cons_of_mem _ hc)
  | case2 => exact h

/-- Lines hold no break, as long as the characters before the first break hold none. -/
theorem oneLine_linesFrom {current : List Char} (h : '\n' ∉ current) (cs : List Char) :
    ∀ l ∈ linesFrom current cs, OneLine l := by
  fun_induction linesFrom current cs with
  | case1 current hempty => simp
  | case2 current hnonempty => simpa using h
  | case3 current cs ih =>
    have hline : OneLine (String.ofList (dropReturn current).reverse) := by
      simpa using not_mem_dropReturn h
    simpa only [List.forall_mem_cons] using ⟨hline, ih (by simp)⟩
  | case4 current c cs hc ih =>
    have hne : '\n' ≠ c := fun heq => hc heq.symm
    exact ih (by simp [hne, h])

theorem oneLine_lines (s : String) : ∀ l ∈ lines s, OneLine l :=
  oneLine_linesFrom (by simp) s.toList

/-- The status line, without its end. -/
def status (r : Report) : String :=
  "[" ++ (if r.ok then "OK" else "FAILED") ++ "] input " ++ toString r.index

/-- The lines that tell why a report is as it is. -/
def explanationLines (r : Report) : List String :=
  match r.error with
  | some e => (lines e).map ("  " ++ ·)
  | none => if r.trail.isEmpty then [] else "  trail:" :: (lines r.trail).map ("    " ++ ·)

def detailLines (r : Report) : List String :=
  (r.criterion.map fun c => "  node: " ++ c.kind.label).toList
    ++ (r.wire.map fun w => "  wire: " ++ w.text).toList ++ r.explanationLines

theorem indented_eq (indent s : String) :
    indented indent s = written ((lines s).map (indent ++ ·)) := by
  rw [indented, written, List.map_map]
  rfl

theorem optionText_line {α : Type} (f : α → String) (x : Option α) :
    optionText (fun a => line (f a)) x = written (x.map f).toList := by
  cases x with
  | none => rfl
  | some a => simp [optionText]

theorem explanation_eq (r : Report) : r.explanation = written r.explanationLines := by
  rw [explanation, explanationLines]
  cases r.error with
  | some e => exact indented_eq "  " e
  | none =>
    dsimp only
    split
    · rfl
    · rw [written_cons, indented_eq]

theorem text_eq (r : Report) : r.text = written (r.status :: r.detailLines) := by
  rw [text, optionText_line fun c : Criterion => "  node: " ++ c.kind.label,
    optionText_line fun w => "  wire: " ++ Json.Value.text w, explanation_eq, detailLines,
    written_cons, written_append, written_append, ← String.append_assoc, ← String.append_assoc]
  rfl

theorem detail_map {indent : String} (h : Detail indent) (s : String) :
    ∀ l ∈ (lines s).map (indent ++ ·), Detail l := by
  simp only [List.mem_map]
  rintro _ ⟨l, hl, rfl⟩
  exact h.append (oneLine_lines s l hl)

theorem detail_explanationLines (r : Report) : ∀ l ∈ r.explanationLines, Detail l := by
  rw [explanationLines]
  cases r.error with
  | some e => exact detail_map ⟨by decide, by decide⟩ e
  | none =>
    dsimp only
    split
    · simp
    · have htitle : Detail "  trail:" := ⟨by decide, by decide⟩
      exact List.forall_mem_cons.mpr ⟨htitle, detail_map ⟨by decide, by decide⟩ r.trail⟩

theorem oneLine_label (k : Kind) : OneLine k.label := by
  cases k <;> decide +kernel

/-- Everything under the status line is indented. -/
theorem detail_detailLines (r : Report) : ∀ l ∈ r.detailLines, Detail l := by
  have hnode : Detail "  node: " := ⟨by decide, by decide⟩
  have hwire : Detail "  wire: " := ⟨by decide, by decide⟩
  rw [detailLines]
  simp only [List.mem_append, Option.mem_toList, Option.map_eq_some_iff]
  rintro _ ((⟨c, _, rfl⟩ | ⟨w, _, rfl⟩) | hl)
  · exact hnode.append (oneLine_label _)
  · exact hwire.append w.oneLine_text
  · exact detail_explanationLines r _ hl

/-- An error that holds a status line of its own. -/
example : (Report.mk 0 false none none none "" (some "x\n[OK] input 1")).detailLines =
    ["  x", "  [OK] input 1"] := by
  rfl

theorem oneLine_status (r : Report) : OneLine r.status := by
  have hverdict : OneLine (if r.ok then "OK" else "FAILED") := .ite (by decide) (by decide)
  have hopen : OneLine "[" := by decide
  have hinput : OneLine "] input " := by decide
  simpa only [status, OneLine.append_iff] using ⟨⟨⟨hopen, hverdict⟩, hinput⟩, .natText _⟩

theorem not_indented_status (r : Report) : ¬ Indented r.status := by
  have hhead : r.status.toList.head? = some '[' := by simp [status]
  exact not_indented_of_head? hhead (by decide)

/-- What a report has to say of its input, each part with its name and its text as JSON; what it does
not have is left out. -/
def jsonDetails (r : Report) : List (String × String) :=
  (r.criterion.map fun c => ("node", c.document.text)).toList
    ++ (r.wire.map fun w => ("wire", w.text)).toList
    ++ (r.roundTrip.map fun same => ("round_trip", Event.boolText same)).toList
    ++ [("trail", (Value.string r.trail).text)]
    ++ (r.error.map fun e => ("error", (Value.string e).text)).toList

/-- The parts of a report as JSON: the index of the input and the verdict on it come first. -/
def jsonParts (r : Report) : List (String × String) :=
  ("index", (Value.ofNat r.index).text) :: ("ok", Event.boolText r.ok) :: r.jsonDetails

/-- The line is the report as JSON: an object of its parts, of which the first are the index of the
input and the verdict on it. -/
structure ShownBy (r : Report) (l : String) : Prop where
  object : l = "\x7b"
    ++ String.intercalate "," (r.jsonParts.map fun part => "\"" ++ part.1 ++ "\":" ++ part.2)
    ++ "\x7d"
  begins : r.index < (1 <<< 64 : Nat) → ∃ rest, l = "\x7b\"index\":" ++ toString r.index
    ++ (if r.ok then ",\"ok\":true," else ",\"ok\":false,") ++ rest

/-- The names of the parts are written as they are. -/
theorem entryText_of_mem {name : String}
    (h : name ∈ ["index", "ok", "node", "wire", "round_trip", "trail", "error"]) (v : Value) :
    Value.entryText (name, v) = "\"" ++ name ++ "\":" ++ v.text := by
  have hname : ∀ name ∈ ["index", "ok", "node", "wire", "round_trip", "trail", "error"],
      (Value.string name).text = "\"" ++ name ++ "\"" := by decide
  simp only [Value.entryText, hname name h, String.append_assoc]
  rfl

theorem map_entryText_optional {α : Type} {name : String}
    (h : name ∈ ["index", "ok", "node", "wire", "round_trip", "trail", "error"]) (f : α → Value)
    (x : Option α) :
    (optional name f x).map Value.entryText =
      (x.map fun a => (name, (f a).text)).toList.map
        fun part => "\"" ++ part.1 ++ "\":" ++ part.2 := by
  cases x with
  | none => rfl
  | some a => exact congrArg ([·]) (entryText_of_mem h (f a))

theorem text_bool (b : Bool) : (Value.bool b).text = Event.boolText b := by
  cases b <;> rfl

theorem document_text (r : Report) : r.document.text = "\x7b"
    ++ String.intercalate "," (r.jsonParts.map fun part => "\"" ++ part.1 ++ "\":" ++ part.2)
    ++ "\x7d" := by
  rw [document, Value.text_object]
  congr 3
  simp only [jsonParts, jsonDetails, List.map_append, List.map_cons, List.map_nil]
  simp only [map_entryText_optional, entryText_of_mem, text_bool, List.mem_cons, true_or, or_true]
  rfl

theorem jsonDetails_ne_nil (r : Report) : r.jsonDetails ≠ [] := by simp [jsonDetails]

theorem shownBy_document (r : Report) : r.ShownBy r.document.text := by
  refine ⟨r.document_text, fun h => ?_⟩
  rw [document_text, jsonParts, Value.text_ofNat h, List.map_cons, List.map_cons,
    String.intercalate_cons_cons,
    String.intercalate_cons_of_ne_nil (by simpa using r.jsonDetails_ne_nil)]
  refine ⟨String.intercalate ","
    (r.jsonDetails.map fun part => "\"" ++ part.1 ++ "\":" ++ part.2) ++ "\x7d", ?_⟩
  generalize toString r.index = index
  apply String.toList_injective
  cases r.ok <;> simp [Event.boolText]

end Report

namespace RunSummary

/-- The last line of a run, without its end. -/
def counts (s : RunSummary) : String :=
  toString (s.total - s.failed) ++ " of " ++ toString s.total ++ " inputs passed"

theorem text_eq (s : RunSummary) : s.text = written [s.counts] := by
  simp [text, counts]

theorem oneLine_counts (s : RunSummary) : OneLine s.counts := by
  have hof : OneLine " of " := by decide
  have hpassed : OneLine " inputs passed" := by decide
  simpa only [counts, OneLine.append_iff] using ⟨⟨⟨.natText _, hof⟩, .natText _⟩, hpassed⟩

theorem not_indented_counts (s : RunSummary) : ¬ Indented s.counts := by
  obtain ⟨c, cs, hdigits⟩ := List.exists_cons_of_ne_nil
    (Nat.toDigits_ne_nil (b := 10) (n := s.total - s.failed))
  have hdigit : c.isDigit = true :=
    Nat.isDigit_of_mem_toDigits (by decide) (by decide) (hdigits ▸ List.mem_cons_self)
  have hhead : s.counts.toList.head? = some c := by simp [counts, hdigits]
  refine not_indented_of_head? hhead fun hspace => ?_
  subst hspace
  exact absurd hdigit (by decide)

end RunSummary
end ScanCriteria
