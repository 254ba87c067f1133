import ScanCriteria.Proofs.Command.ReportLines
import ScanCriteria.Proofs.Wire.FailFast

/-!
# Lines of a trail

The trail of a parse has a line for each entry, with the tag as the input has it. All tags but that
of the last entry are known ones, since nothing within a tuple is looked at before its tag is known.
So the trail can be read line by line, and the entries told from it, unless the tag of the last one
holds a line feed.
-/
namespace ScanCriteria
open Json Wire

/-- The number of line feeds in a text. -/
def lineEnds (s : String) : Nat := s.toList.count '\n'

theorem lineEnds_append (s t : String) : lineEnds (s ++ t) = lineEnds s + lineEnds t := by
  rw [lineEnds, String.toList_append, List.count_append, lineEnds, lineEnds]

theorem lineEnds_eq_zero_iff {s : String} : lineEnds s = 0 ↔ OneLine s := List.count_eq_zero

theorem lineEnds_written (ls : List String) :
    lineEnds (written ls) = ls.length + (ls.map lineEnds).sum := by
  induction ls with
  | nil => rfl
  | cons l ls ih =>
    have hend : lineEnds "\n" = 1 := by decide
    rw [written_cons, Report.line, lineEnds_append, lineEnds_append, hend, ih, List.map_cons,
      List.sum_cons, List.length_cons]
    omega

theorem length_splitOn_lineFeed (cs : List Char) :
    (cs.splitOn '\n').length = cs.count '\n' + 1 := by
  induction cs with
  | nil => simp
  | cons c cs ih =>
    rw [List.splitOn_cons_eq_if_modifyHead, List.count_cons]
    split <;> simp [ih]

/-- Only texts of one line each can be read back from the text of them all. -/
theorem splitOn_written_iff {ls : List String} :
    (written ls).toList.splitOn '\n' = ls.map String.toList ++ [[]] ↔ ∀ l ∈ ls, OneLine l := by
  refine ⟨fun h l hl => ?_, splitOn_written⟩
  have hlength := length_splitOn_lineFeed (written ls).toList
  rw [h, ← lineEnds, lineEnds_written, List.length_append, List.length_map,
    List.length_singleton] at hlength
  have hsum : (ls.map lineEnds).sum = 0 := by omega
  have hall := List.sum_eq_zero_iff_forall_eq_nat.mp hsum
  exact lineEnds_eq_zero_iff.mp (hall _ (List.mem_map_of_mem hl))

namespace Wire

namespace ParsedNode

/-- The blanks in front of an entry. -/
def indent (n : ParsedNode) : String := "".pushn ' ' (2 * (n.depth - 1))

/-- The line of an entry, without its end. -/
def line (n : ParsedNode) : String :=
  n.indent ++ n.tag ++ " -> " ++ Progress.resolvedText n.resolved

theorem toList_indent (n : ParsedNode) :
    n.indent.toList = List.replicate (2 * (n.depth - 1)) ' ' := by
  rw [indent, String.pushn_eq_repeat_push]
  generalize 2 * (n.depth - 1) = k
  induction k with
  | zero => rfl
  | succ k ih => rw [Nat.repeat, String.toList_push, ih, List.replicate_succ']

end ParsedNode

namespace Progress

theorem trail_eq (p : Progress) : p.trail = written (p.nodes.toList.map ParsedNode.line) := by
  rw [trail, ← Array.foldl_toList, written, List.map_map, String.join, List.foldl_map]
  rfl

theorem ofLabel?_resolvedText (k : Option Kind) : Kind.ofLabel? (resolvedText k) = k := by
  cases k with
  | none => decide
  | some k => exact k.ofLabel?_label

theorem resolvedText_inj {k l : Option Kind} (h : resolvedText k = resolvedText l) : k = l := by
  rw [← ofLabel?_resolvedText k, h, ofLabel?_resolvedText]

theorem oneLine_resolvedText (k : Option Kind) : OneLine (resolvedText k) := by
  cases k with
  | none => decide
  | some k => exact Report.oneLine_label k

theorem no_blank_resolvedText (k : Option Kind) : ' ' ∉ (resolvedText k).toList := by
  cases k with
  | none => decide
  | some k => cases k <;> decide

end Progress

namespace ParsedNode

theorem lineEnds_line (n : ParsedNode) : lineEnds n.line = lineEnds n.tag := by
  have hindent : OneLine n.indent := .pushn .empty (by decide) _
  have hkind := Progress.oneLine_resolvedText n.resolved
  have harrow : OneLine " -> " := by decide
  rw [line, lineEnds_append, lineEnds_append, lineEnds_append, lineEnds_eq_zero_iff.mpr hindent,
    lineEnds_eq_zero_iff.mpr hkind, lineEnds_eq_zero_iff.mpr harrow]
  omega

theorem oneLine_line_iff (n : ParsedNode) : OneLine n.line ↔ OneLine n.tag := by
  rw [← lineEnds_eq_zero_iff, lineEnds_line, lineEnds_eq_zero_iff]

end ParsedNode

/-- The tags of tuples that are known. -/
def knownTags : List String :=
  CriterionTag.all.map CriterionTag.text ++ OperandTag.all.map OperandTag.text
    ++ Field.all.map Field.tag

/-- A tag of one line that does not begin with a blank. -/
def Legible (tag : String) : Prop := OneLine tag ∧ tag.toList.head? ≠ some ' '

instance (tag : String) : Decidable (Legible tag) := inferInstanceAs (Decidable (_ ∧ _))

theorem legible_field (f : Field) : Legible f.tag := by cases f <;> decide

theorem legible_of_known : ∀ tag ∈ knownTags, Legible tag := by
  have hcriteria : ∀ t ∈ CriterionTag.all, Legible t.text := by decide
  have hoperands : ∀ t ∈ OperandTag.all, Legible t.text := by decide
  simp only [knownTags, List.forall_mem_append, List.forall_mem_map]
  exact ⟨⟨hcriteria, hoperands⟩, fun f _ => legible_field f⟩

theorem known_of_criterionBody {tag : String} {params : List Value} {b : Body}
    (h : criterionBody tag params = .ok b) : tag ∈ knownTags := by
  rw [knownTags, List.append_assoc]
  cases ht : CriterionTag.ofText? tag with
  | none =>
    unfold criterionBody at h
    rw [ht] at h
    obtain ⟨t, htest, -⟩ := map_eq_ok.mp h
    obtain ⟨f, rfl, -⟩ := fieldTest_eq_ok_iff.mp htest
    exact List.mem_append_right _ (List.mem_append_right _ (List.mem_map_of_mem f.mem_all))
  | some t =>
    rw [← CriterionTag.text_of_ofText? ht]
    exact List.mem_append_left _ (List.mem_map_of_mem (List.mem_of_find?_eq_some ht))

theorem known_of_operandBody {tag : String} {params : List Value} {b : Body}
    (h : operandBody tag params = .ok b) : tag ∈ knownTags := by
  rw [knownTags, List.append_assoc]
  cases ht : OperandTag.ofText? tag with
  | none =>
    unfold operandBody at h
    rw [ht] at h
    cases h
  | some t =>
    rw [← OperandTag.text_of_ofText? ht]
    exact List.mem_append_right _
      (List.mem_append_left _ (List.mem_map_of_mem (List.mem_of_find?_eq_some ht)))

theorem Part.known {x : Part} {tag : String} {params : List Value} {b : Body}
    (h : x.form = .tuple tag params (.ok b)) : tag ∈ knownTags := by
  obtain ⟨-, hb⟩ | ⟨-, hb⟩ := form_eq_tuple_iff.mp h
  · exact known_of_criterionBody hb
  · exact known_of_operandBody hb

/-- From `p` to `q` entries with known tags have been logged and then perhaps a last one, which is
still open. -/
def LogsKnown (p q : Progress) (last : Option ParsedNode) : Prop :=
  ∃ es, Appends p q (es ++ last.toList) ∧ (∀ n ∈ es, n.tag ∈ knownTags) ∧
    ∀ n ∈ last, n.resolved = none

namespace LogsKnown

variable {p q r : Progress} {tag : String} {last : Option ParsedNode}

theorem refl (p : Progress) : LogsKnown p p none := ⟨[], .refl p, nofun, nofun⟩

theorem trans (h : LogsKnown p q none) (h' : LogsKnown q r last) : LogsKnown p r last := by
  obtain ⟨es, hes, hknown, -⟩ := h
  obtain ⟨fs, hfs, hknown', hlast⟩ := h'
  rw [Option.toList_none, List.append_nil] at hes
  refine ⟨es ++ fs, ?_, List.forall_mem_append.mpr ⟨hknown, hknown'⟩, hlast⟩
  rw [List.append_assoc]
  exact hes.trans hfs

theorem enter (h : LogsKnown (p.enter.add tag) q last) (htag : tag ∈ knownTags) :
    LogsKnown p q last := by
  obtain ⟨es, hes, hknown, hlast⟩ := h
  exact ⟨_ :: es, (Appends.enter p tag).trans hes, List.forall_mem_cons.mpr ⟨htag, hknown⟩, hlast⟩

theorem exit (h : LogsKnown (p.enter.add tag) q none) (htag : tag ∈ knownTags) (k : Kind) :
    LogsKnown p (q.exit ((p.enter.add tag).nodes.size - 1) k) none := by
  obtain ⟨es, hes, hknown, hlast⟩ := h
  exact ⟨_ :: es, hes.exit k, List.forall_mem_cons.mpr ⟨htag, hknown⟩, hlast⟩

end LogsKnown

/-- All tags of a part that is parsed are known. -/
theorem kept_logsKnown : Kept fun p q => LogsKnown p q none where
  refl := .refl
  trans := .trans
  tuple hx h := h.exit (Part.known hx) _

/-- The tag of a tuple that fails itself need not be known. -/
theorem FailsItself.logsKnown {x : Part} {f : Fault} {p q : Progress} {tags : List String}
    (h : FailsItself x p f q tags) : ∃ last, LogsKnown p q last := by
  have hown (tag : String) : LogsKnown p (p.enter.add tag) (some ⟨p.depth + 1, tag, none⟩) :=
    ⟨[], .enter p tag, nofun, by rintro _ ⟨⟩; rfl⟩
  cases h with
  | refused _ => exact ⟨none, .refl p⟩
  | limit _ _ => exact ⟨_, hown _⟩
  | body _ _ => exact ⟨_, hown _⟩

/-- The tags on the way into a part are known, and so are those of the parts before. -/
theorem Descends.logsKnown {x y : Part} {p q r : Progress} {way : Way} {last : Option ParsedNode}
    (h : Descends x p way y q) (hr : LogsKnown q r last) : LogsKnown p r last := by
  induction h with
  | here x p => exact hr
  | within hx _ _ hys _ ih =>
    exact ((kept_logsKnown.runs_all hys).trans (ih hr)).enter (Part.known hx)

/-- A text can be cut at its last blank. -/
theorem append_blank_inj {as bs cs ds : List Char} (hb : ' ' ∉ bs) (hd : ' ' ∉ ds)
    (h : as ++ ' ' :: bs = cs ++ ' ' :: ds) : as = cs ∧ bs = ds := by
  have hshort {xs ys zs : List Char} (hy : ' ' ∉ ys) (hcut : ' ' :: ys = xs ++ ' ' :: zs) :
      xs = [] := by
    cases xs with
    | nil => rfl
    | cons x xs =>
      rw [(List.cons.inj hcut).2] at hy
      simp at hy
  obtain ⟨xs, rfl, hcut⟩ | ⟨xs, rfl, hcut⟩ := List.append_eq_append_iff.mp h
  · obtain rfl := hshort hb hcut
    exact ⟨(List.append_nil as).symm, (List.cons.inj hcut).2⟩
  · obtain rfl := hshort hd hcut
    exact ⟨List.append_nil cs, (List.cons.inj hcut).2.symm⟩

/-- Blanks in front of what does not begin with one can be counted. -/
theorem replicate_blank_inj {i j : Nat} {as bs : List Char} (ha : as.head? ≠ some ' ')
    (hb : bs.head? ≠ some ' ')
    (h : List.replicate i ' ' ++ as = List.replicate j ' ' ++ bs) : i = j := by
  have hblanks (k : Nat) {cs : List Char} (hc : cs.head? ≠ some ' ') :
      (List.replicate k ' ' ++ cs).takeWhile (· == ' ') = List.replicate k ' ' := by
    rw [List.takeWhile_append_of_pos (by simp)]
    cases cs with
    | nil => exact List.append_nil _
    | cons c cs =>
      rw [List.takeWhile_cons_of_neg (by simpa using hc), List.append_nil]
  have htake := congrArg (List.takeWhile (· == ' ')) h
  rw [hblanks i ha, hblanks j hb] at htake
  simpa using congrArg List.length htake

namespace ParsedNode

variable {m n : ParsedNode}

theorem line_inj (h : m.line = n.line) :
    m.resolved = n.resolved ∧ m.indent ++ m.tag = n.indent ++ n.tag := by
  have hcut (n : ParsedNode) : n.line.toList =
      ((n.indent ++ n.tag).toList ++ [' ', '-', '>']) ++
        ' ' :: (Progress.resolvedText n.resolved).toList := by
    simp [line]
  have hlines := congrArg String.toList h
  rw [hcut, hcut] at hlines
  obtain ⟨hfront, hkind⟩ := append_blank_inj (Progress.no_blank_resolvedText _)
    (Progress.no_blank_resolvedText _) hlines
  exact ⟨Progress.resolvedText_inj (String.toList_inj.mp hkind),
    String.toList_inj.mp (List.append_cancel_right hfront)⟩

theorem tag_eq_of_depth (hdepth : m.depth = n.depth) (h : m.indent ++ m.tag = n.indent ++ n.tag) :
    m.tag = n.tag := by
  rw [indent, indent, hdepth] at h
  exact (String.append_right_inj _).mp h

theorem depth_eq_of_known (hm : m.tag ∈ knownTags) (hn : n.tag ∈ knownTags) (hm' : 1 ≤ m.depth)
    (hn' : 1 ≤ n.depth) (h : m.indent ++ m.tag = n.indent ++ n.tag) : m.depth = n.depth := by
  have hlists := congrArg String.toList h
  rw [String.toList_append, String.toList_append, toList_indent, toList_indent] at hlists
  have hcount := replicate_blank_inj (legible_of_known _ hm).2 (legible_of_known _ hn).2
    hlists
  omega

end ParsedNode

/-- What is known of the entries of a log from depth `d` on, of which `tags` are open: the depths of
those that are open, and the tags of the others. -/
structure Told (d : Nat) (tags : List String) (es : List ParsedNode) : Prop where
  unresolved : es.filter (·.resolved.isNone) = openEntries d tags
  depth_pos : ∀ n ∈ es, 1 ≤ n.depth
  known : ∀ n ∈ es, n.resolved ≠ none → n.tag ∈ knownTags

namespace Told

variable {d : Nat} {tags : List String} {n : ParsedNode} {es : List ParsedNode}

theorem tail_of_resolved (h : Told d tags (n :: es)) (hn : n.resolved ≠ none) : Told d tags es where
  unresolved := by
    rw [← h.unresolved, List.filter_cons_of_neg (by simpa using hn)]
  depth_pos := (List.forall_mem_cons.mp h.depth_pos).2
  known := (List.forall_mem_cons.mp h.known).2

theorem tail_of_open (h : Told d tags (n :: es)) (hn : n.resolved = none) :
    n.depth = d ∧ ∃ rest, Told (d + 1) rest es := by
  have hopen := h.unresolved
  rw [List.filter_cons_of_pos (by simp [hn])] at hopen
  cases tags with
  | nil => cases hopen
  | cons tag rest =>
    obtain ⟨rfl, hrest⟩ := List.cons.inj hopen
    exact ⟨rfl, rest, hrest, (List.forall_mem_cons.mp h.depth_pos).2,
      (List.forall_mem_cons.mp h.known).2⟩

/-- Logs with the same lines are the same. -/
theorem eq_of_lines {tags' : List String} {es' : List ParsedNode} (h : Told d tags es)
    (h' : Told d tags' es') (hlines : es.map ParsedNode.line = es'.map ParsedNode.line) :
    es = es' := by
  induction es generalizing d tags tags' es' with
  | nil =>
    rw [List.map_nil, eq_comm, List.map_eq_nil_iff] at hlines
    exact hlines.symm
  | cons n es ih =>
    cases es' with
    | nil => cases hlines
    | cons n' es' =>
      obtain ⟨hline, hlines⟩ := List.cons.inj hlines
      obtain ⟨hkind, hfront⟩ := ParsedNode.line_inj hline
      have hhead (hdepth : n.depth = n'.depth) : n = n' := by
        have htag := ParsedNode.tag_eq_of_depth hdepth hfront
        obtain ⟨depth, tag, resolved⟩ := n
        obtain rfl : depth = n'.depth := hdepth
        obtain rfl : tag = n'.tag := htag
        obtain rfl : resolved = n'.resolved := hkind
        rfl
      by_cases hn : n.resolved = none
      · obtain ⟨hdepth, _, hes⟩ := h.tail_of_open hn
        obtain ⟨hdepth', _, hes'⟩ := h'.tail_of_open (hkind ▸ hn)
        rw [hhead (hdepth.trans hdepth'.symm), ih hes hes' hlines]
      · have hn' : n'.resolved ≠ none := hkind ▸ hn
        have hdepth := ParsedNode.depth_eq_of_known (h.known n List.mem_cons_self hn)
          (h'.known n' List.mem_cons_self hn') (h.depth_pos n List.mem_cons_self)
          (h'.depth_pos n' List.mem_cons_self) hfront
        rw [hhead hdepth, ih (h.tail_of_resolved hn) (h'.tail_of_resolved hn') hlines]

end Told

/-- The progress of the parse of a value, whatever comes of it. -/
def progress (v : Value) : Progress := Session.progressOf (parse v)

theorem exists_logsKnown (v : Value) : ∃ last, LogsKnown .start (progress v) last := by
  rw [progress]
  cases h : parse v with
  | ok p => exact ⟨none, kept_logsKnown.runs _ _ _ (runs_of_parse h)⟩
  | error f =>
    obtain ⟨way, y, q, tags, hdescends, hfails⟩ := exists_descends _ _ (parse_eq_error.mp h)
    obtain ⟨last, hlast⟩ := hfails.logsKnown
    exact ⟨last, hdescends.logsKnown hlast⟩

theorem exists_opens (v : Value) : ∃ tags, Opens .start (progress v) tags := by
  rw [progress]
  cases h : parse v with
  | ok p => exact ⟨[], kept_opens.runs _ _ _ (runs_of_parse h)⟩
  | error f =>
    obtain ⟨way, y, q, tags, hdescends, hfails⟩ := exists_descends _ _ (parse_eq_error.mp h)
    exact ⟨_, hdescends.opens hfails.opens⟩

/-- All entries but the last have known tags, and so does the last if its tuple has been left. -/
theorem known_of_progress (v : Value) :
    (∀ n ∈ (progress v).nodes.toList.dropLast, n.tag ∈ knownTags) ∧
      ∀ n ∈ (progress v).nodes.toList, n.resolved ≠ none → n.tag ∈ knownTags := by
  obtain ⟨last, es, hes, hknown, hlast⟩ := exists_logsKnown v
  have hnodes : (progress v).nodes.toList = es ++ last.toList := hes.nodes_eq
  rw [hnodes]
  cases last with
  | none =>
    rw [Option.toList_none, List.append_nil]
    exact ⟨fun n hn => hknown n (List.dropLast_subset es hn), fun n hn _ => hknown n hn⟩
  | some m =>
    rw [Option.toList_some, List.dropLast_concat]
    refine ⟨hknown, fun n hn hresolved => ?_⟩
    obtain hn | hn := List.mem_append.mp hn
    · exact hknown n hn
    · exact absurd (hlast n (List.mem_singleton.mp hn ▸ rfl)) hresolved

theorem exists_told (v : Value) : ∃ tags, Told 1 tags (progress v).nodes.toList ∧
    (progress v).depth = tags.length ∧ (progress v).nodeCount = (progress v).nodes.size := by
  obtain ⟨tags, hdepth, es, hes, hshape⟩ := exists_opens v
  have hnodes : (progress v).nodes.toList = es := hes.nodes_eq
  refine ⟨tags, ⟨?_, ?_, (known_of_progress v).2⟩, ?_, ?_⟩
  · rw [hnodes]
    exact hshape.unresolved
  · rw [hnodes]
    exact hshape.depth_le
  · rw [hdepth]
    exact Nat.zero_add _
  · rw [hes.nodeCount_eq, ← Array.length_toList, hnodes]
    exact Nat.zero_add _

/-- Between its line feeds the trail has one line for each entry, and nothing follows the last. -/
def Progress.OneLineEach (p : Progress) : Prop :=
  p.trail.toList.splitOn '\n' = p.nodes.toList.map (·.line.toList) ++ [[]]

theorem Progress.oneLineEach_iff (p : Progress) :
    p.OneLineEach ↔ ∀ n ∈ p.nodes.toList, OneLine n.tag := by
  have hmap : p.nodes.toList.map (·.line.toList) =
      (p.nodes.toList.map ParsedNode.line).map String.toList := by
    rw [List.map_map]
    rfl
  rw [OneLineEach, p.trail_eq, hmap, splitOn_written_iff, List.forall_mem_map]
  simp only [ParsedNode.oneLine_line_iff]

/-- Trails with one line for each entry are the same only for the same progress. -/
theorem progress_of_trail {v w : Value} (hv : (progress v).OneLineEach)
    (hw : (progress w).OneLineEach) (h : (progress v).trail = (progress w).trail) :
    progress v = progress w := by
  obtain ⟨tags, htold, hdepth, hcount⟩ := exists_told v
  obtain ⟨tags', htold', hdepth', hcount'⟩ := exists_told w
  have hlines : (progress v).nodes.toList.map ParsedNode.line =
      (progress w).nodes.toList.map ParsedNode.line := by
    rw [Progress.OneLineEach, h, hw] at hv
    have hinj : Function.Injective String.toList := fun _ _ => String.toList_inj.mp
    apply List.map_injective_iff.mpr hinj
    rw [List.map_map, List.map_map]
    exact (List.append_cancel_right hv).symm
  have hnodes := htold.eq_of_lines htold' hlines
  have htags : tags.length = tags'.length := by
    rw [← length_openEntries 1 tags, ← htold.unresolved, hnodes, htold'.unresolved,
      length_openEntries]
  generalize progress v = p at *
  generalize progress w = q at *
  obtain ⟨depth, nodeCount, nodes⟩ := p
  obtain rfl : nodes = q.nodes := Array.toList_inj.mp hnodes
  obtain rfl : depth = q.depth := hdepth.trans (htags.trans hdepth'.symm)
  obtain rfl : nodeCount = q.nodeCount := hcount.trans hcount'.symm
  rfl

theorem lineEnds_trail (v : Value) : lineEnds (progress v).trail = (progress v).nodes.size +
    ((progress v).nodes.toList.getLast?.map fun n => lineEnds n.tag).getD 0 := by
  have hbefore : ∀ n ∈ (progress v).nodes.toList.dropLast, lineEnds n.tag = 0 := fun n hn =>
    lineEnds_eq_zero_iff.mpr ((legible_of_known _ ((known_of_progress v).1 n hn)).1)
  rw [Progress.trail_eq, lineEnds_written, List.length_map, Array.length_toList, List.map_map,
    funext (f := lineEnds ∘ ParsedNode.line) ParsedNode.lineEnds_line]
  congr 1
  generalize (progress v).nodes.toList = es at hbefore
  cases es using List.reverseRecOn with
  | nil => rfl
  | append_singleton es n _ =>
    rw [List.dropLast_concat] at hbefore
    have hsum : (es.map fun n => lineEnds n.tag).sum = 0 :=
      List.sum_eq_zero_iff_forall_eq_nat.mpr (List.forall_mem_map.mpr hbefore)
    rw [List.map_append, List.sum_append, hsum]
    simp

theorem oneLineEach_iff_last (v : Value) : (progress v).OneLineEach ↔
    ∀ n ∈ (progress v).nodes.toList.getLast?, OneLine n.tag := by
  rw [Progress.oneLineEach_iff]
  refine ⟨fun h n hn => h n (List.mem_of_getLast? hn), fun h n hn => ?_⟩
  have hbefore := (known_of_progress v).1
  generalize (progress v).nodes.toList = es at *
  cases es using List.reverseRecOn with
  | nil => cases hn
  | append_singleton es m _ =>
    rw [List.getLast?_concat] at h
    rw [List.dropLast_concat] at hbefore
    obtain hn | hn := List.mem_append.mp hn
    · exact (legible_of_known _ (hbefore n hn)).1
    · exact h n (List.mem_singleton.mp hn ▸ rfl)

theorem oneLineEach_of_parse {v : Value} {p : Parsed} (h : parse v = .ok p) :
    (progress v).OneLineEach := by
  obtain ⟨es, hes, hknown, -⟩ := kept_logsKnown.runs _ _ _ (runs_of_parse h)
  have hnodes : (progress v).nodes.toList = es := by
    rw [progress, h, Session.progressOf, hes.nodes_eq, Option.toList_none, List.append_nil]
    rfl
  rw [Progress.oneLineEach_iff, hnodes]
  exact fun n hn => (legible_of_known _ (hknown n hn)).1

/-- A trail has a line for each entry, and all but the last are whole. It can be read line by line
just when the last one is, as it always is after a success, and then the progress of the parse can
be told from the trail. -/
theorem trail_lines (v : Value) :
    (progress v).trail = written ((progress v).nodes.toList.map ParsedNode.line) ∧
      (∀ n ∈ (progress v).nodes.toList.dropLast, n.tag ∈ knownTags ∧ OneLine n.line) ∧
      lineEnds (progress v).trail = (progress v).nodes.size +
        ((progress v).nodes.toList.getLast?.map fun n => lineEnds n.tag).getD 0 ∧
      ((progress v).OneLineEach ↔
        ∀ n ∈ (progress v).nodes.toList.getLast?, OneLine n.tag) ∧
      (∀ p, parse v = .ok p → (progress v).OneLineEach) ∧
      ∀ w, (progress v).OneLineEach → (progress w).OneLineEach →
        (progress v).trail = (progress w).trail → progress v = progress w := by
  refine ⟨(progress v).trail_eq, fun n hn => ?_, lineEnds_trail v, oneLineEach_iff_last v,
    fun p => oneLineEach_of_parse, fun w => progress_of_trail⟩
  have hknown := (known_of_progress v).1 n hn
  exact ⟨hknown, (ParsedNode.oneLine_line_iff n).mpr ((legible_of_known _ hknown).1)⟩

/-- The tag of the last entry ends its own line and begins another one. -/
def forgedEntry : Value := headed "Or" [headed "And -> <unresolved>\n    zz" []]

/-- The entries that the lines of `forgedEntry` feign. -/
def nestedEntry : Value := headed "Or" [headed "And" [headed "zz" []]]

theorem progress_forgedEntry : progress forgedEntry =
    ⟨2, 2, #[
      ⟨1, "Or", none⟩,
      ⟨2, "And -> <unresolved>\n    zz", none⟩]⟩ := by
  have hstop : stateAt forgedEntry 5 =
      .stopped ⟨.unknownBooleanTupleNodeType, "And -> <unresolved>\n    zz"⟩ ⟨2, 2, #[
        ⟨1, "Or", none⟩,
        ⟨2, "And -> <unresolved>\n    zz", none⟩]⟩ := rfl
  rw [progress, parse_eq_error_of_stateAt hstop, Session.progressOf]

theorem progress_nestedEntry : progress nestedEntry =
    ⟨3, 3, #[
      ⟨1, "Or", none⟩,
      ⟨2, "And", none⟩,
      ⟨3, "zz", none⟩]⟩ := by
  have hstop : stateAt nestedEntry 7 = .stopped ⟨.unknownBooleanTupleNodeType, "zz"⟩ ⟨3, 3, #[
      ⟨1, "Or", none⟩,
      ⟨2, "And", none⟩,
      ⟨3, "zz", none⟩]⟩ := rfl
  rw [progress, parse_eq_error_of_stateAt hstop, Session.progressOf]

theorem trail_lines_forgedEntry :
    (progress forgedEntry).trail =
        "Or -> <unresolved>\n  And -> <unresolved>\n    zz -> <unresolved>\n" ∧
      (progress forgedEntry).trail = (progress nestedEntry).trail ∧
      (progress forgedEntry).nodes.size = 2 ∧ (progress nestedEntry).nodes.size = 3 ∧
      lineEnds (progress forgedEntry).trail = 3 ∧ ¬ (progress forgedEntry).OneLineEach := by
  have htag : ¬ OneLine "And -> <unresolved>\n    zz" := by decide
  have hlines : lineEnds (progress forgedEntry).trail = 3 := by
    rw [lineEnds_trail, progress_forgedEntry]
    decide
  rw [oneLineEach_iff_last, progress_nestedEntry]
  rw [progress_forgedEntry] at hlines ⊢
  exact ⟨by decide, by decide, rfl, rfl, hlines, fun h => htag (h _ rfl)⟩

end Wire
end ScanCriteria
