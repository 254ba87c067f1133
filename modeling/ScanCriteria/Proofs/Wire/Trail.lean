import ScanCriteria.Proofs.Wire.Parts
import ScanCriteria.Proofs.Wire.Recovery

/-!
# The trail of a parse

A parse that succeeds leaves every tuple that it enters, and logs them in the order of the nodes of
the tree that it gives: from the root down and from left to right, each at its depth, under the tag
with which it is written and with its kind.
-/
namespace ScanCriteria
open Json

namespace Wire

/-- From `p` to `q` the entries `es` have been logged. -/
structure Appends (p q : Progress) (es : List ParsedNode) : Prop where
  nodes_eq : q.nodes.toList = p.nodes.toList ++ es
  nodeCount_eq : q.nodeCount = p.nodeCount + es.length

namespace Appends

variable {p q r : Progress} {es fs : List ParsedNode}

theorem refl (p : Progress) : Appends p p [] := ⟨(List.append_nil _).symm, rfl⟩

theorem trans (h : Appends p q es) (h' : Appends q r fs) : Appends p r (es ++ fs) where
  nodes_eq := by rw [h'.nodes_eq, h.nodes_eq, List.append_assoc]
  nodeCount_eq := by rw [h'.nodeCount_eq, h.nodeCount_eq, List.length_append, Nat.add_assoc]

theorem enter (p : Progress) (tag : String) :
    Appends p (p.enter.add tag) [⟨p.depth + 1, tag, none⟩] where
  nodes_eq := by simp
  nodeCount_eq := rfl

/-- Leaving a tuple completes its own entry, the first since it was entered. -/
theorem exit {tag : String} (h : Appends (p.enter.add tag) q es) (k : Kind) :
    Appends p (q.exit ((p.enter.add tag).nodes.size - 1) k)
      (⟨p.depth + 1, tag, some k⟩ :: es) where
  nodes_eq := by
    have hq : q.nodes.toList = p.nodes.toList ++ (⟨p.depth + 1, tag, none⟩ :: es) := by
      rw [((enter p tag).trans h).nodes_eq, List.singleton_append]
    have hi : p.nodes.toList.length <
        (p.nodes.toList ++ (⟨p.depth + 1, tag, none⟩ :: es)).length := by simp
    have hsize : (p.enter.add tag).nodes.size - 1 = p.nodes.toList.length := by simp
    rw [Progress.exit, Array.toList_modify, hq, hsize, List.modify_eq_take_cons_drop hi]
    simp [List.drop_append]
  nodeCount_eq := ((enter p tag).trans h).nodeCount_eq

end Appends

/-- Whenever it succeeds the parse logs the entries `es d` from depth `d` on, and leaves all tuples
that it has entered. -/
structure Logs (x : Parse Unit) (es : Nat → List ParsedNode) : Prop where
  depth_eq {p q : Progress} : Runs x p () q → q.depth = p.depth
  appends {p q : Progress} : Runs x p () q → Appends p q (es (p.depth + 1))

namespace Logs

variable {x : Part} {xs ys : List Part} {tag : String} {params : List Value} {b : Body}
  {es fs : Nat → List ParsedNode}

theorem congr {x : Parse Unit} (h : Logs x es) (heq : ∀ d, es d = fs d) : Logs x fs where
  depth_eq := h.depth_eq
  appends hr := heq _ ▸ h.appends hr

theorem scalar (hx : x.form = .scalar) : Logs x.parse fun _ => [] where
  depth_eq h := by rw [(runs_scalar hx).mp h]
  appends h := by
    rw [(runs_scalar hx).mp h]
    exact .refl _

theorem unfit {f : Fault} (hx : x.form = .tuple tag params (.error f)) : Logs x.parse es where
  depth_eq h := by
    obtain ⟨-, _, _, hb, -⟩ := (runs_tuple_part hx).mp h
    cases hb
  appends h := by
    obtain ⟨-, _, _, hb, -⟩ := (runs_tuple_part hx).mp h
    cases hb

theorem nil : Logs (parseAll []) fun _ => [] where
  depth_eq h := by rw [runs_parseAll_nil.mp h]
  appends h := by
    rw [runs_parseAll_nil.mp h]
    exact .refl _

theorem cons (h : Logs x.parse es) (h' : Logs (parseAll xs) fs) :
    Logs (parseAll (x :: xs)) fun d => es d ++ fs d where
  depth_eq hr := by
    obtain ⟨r, hx, hxs⟩ := runs_parseAll_cons.mp hr
    rw [h'.depth_eq hxs, h.depth_eq hx]
  appends hr := by
    obtain ⟨r, hx, hxs⟩ := runs_parseAll_cons.mp hr
    have happ := (h.appends hx).trans (h'.appends hxs)
    rwa [h.depth_eq hx] at happ

theorem append (h : Logs (parseAll xs) es) (h' : Logs (parseAll ys) fs) :
    Logs (parseAll (xs ++ ys)) fun d => es d ++ fs d where
  depth_eq hr := by
    obtain ⟨r, hxs, hys⟩ := runs_parseAll_append.mp hr
    rw [h'.depth_eq hys, h.depth_eq hxs]
  appends hr := by
    obtain ⟨r, hxs, hys⟩ := runs_parseAll_append.mp hr
    have happ := (h.appends hxs).trans (h'.appends hys)
    rwa [h.depth_eq hxs] at happ

theorem single (h : Logs x.parse es) : Logs (parseAll [x]) es :=
  (h.cons nil).congr fun _ => List.append_nil _

/-- A tuple is logged before its parts. -/
theorem tuple (hx : x.form = .tuple tag params (.ok b)) (h : Logs (parseAll b.parts) es) :
    Logs x.parse fun d => ⟨d, tag, some b.kind⟩ :: es (d + 1) where
  depth_eq hr := by
    obtain ⟨-, _, r, hb, hin, rfl⟩ := (runs_tuple_part hx).mp hr
    cases hb
    rw [Progress.exit_depth, h.depth_eq hin]
    rfl
  appends hr := by
    obtain ⟨-, _, r, hb, hin, rfl⟩ := (runs_tuple_part hx).mp hr
    cases hb
    exact (h.appends hin).exit b.kind

end Logs
end Wire

open Wire

/-- The wire form of a node. -/
def Node.wire : Node → Value
  | .criterion c => c.wire
  | .operand a => a.wire

/-- The tag that heads the wire form of a node; literals and fields of numeric expressions have
none. -/
def Node.tag (n : Node) : String :=
  match n.wire with
  | .array (.string tag :: _) => tag
  | _ => ""

def Node.kind? : Node → Option Kind
  | .criterion c => some c.kind
  | .operand a => a.kind?

/-- What is logged of a node that has been parsed. -/
def Placed.entry (n : Placed) : ParsedNode := ⟨n.depth, n.node.tag, n.node.kind?⟩

/-- The entries of the nodes that have tuples of their own. -/
def entries (ns : List Placed) : List ParsedNode :=
  (ns.filter (·.node.isTuple)).map Placed.entry

theorem entries_append (ns ms : List Placed) : entries (ns ++ ms) = entries ns ++ entries ms := by
  rw [entries, List.filter_append, List.map_append, entries, entries]

theorem entries_cons {n : Placed} (h : n.node.isTuple = true) (ns : List Placed) :
    entries (n :: ns) = n.entry :: entries ns := by
  simp [entries, h]

theorem wire_eq_headed_tag {n : Node} (h : n.isTuple = true) :
    ∃ params, n.wire = headed n.tag params := by
  cases n with
  | criterion c =>
    cases c with
    | field t =>
      have hw : Node.wire (.criterion (.field t)) = headed (testField t).tag (testParams t) :=
        wire_eq_headed t
      rw [Node.tag, hw]
      exact ⟨_, rfl⟩
    | _ => exact ⟨_, rfl⟩
  | operand a =>
    cases a with
    | literal x | field f => cases h
    | _ => exact ⟨_, rfl⟩

namespace Wire

theorem entry_field {f : Field} {params : List Value} {t : FieldTest} (h : TestDenotes f params t)
    (d : Nat) : Placed.entry ⟨d, .criterion (.field t)⟩ = ⟨d, f.tag, some t.kind⟩ := by
  have htag : Node.tag (.criterion (.field t)) = f.tag := by
    rw [Node.tag, Node.wire, Criterion.wire, wire_eq_headed, h.testField_eq]
    rfl
  rw [Placed.entry, htag]
  rfl

theorem criteria_logs {vs : List Value} {cs : List Criterion} (h : List.Forall₂ Denotes vs cs)
    (hl : ∀ c ∈ cs, ∀ v, Denotes v c →
      Logs (Part.criterion v).parse fun d => entries (c.nodesAt d)) :
    Logs (parseAll (vs.map .criterion)) fun d => entries (Criterion.nodesAllAt d cs) := by
  induction h with
  | nil => exact Logs.nil
  | cons h _ ih =>
    obtain ⟨hc, hcs⟩ := List.forall_mem_cons.mp hl
    simp only [Criterion.nodesAllAt, entries_append]
    exact (hc _ h).cons (ih hcs)

/-- Arms take up an even number of values. -/
theorem armParts_append {vs ws : List Value} {as : List Arm} (h : ArmsDenote vs as) :
    armParts (vs ++ ws) = armParts vs ++ armParts ws := by
  induction as generalizing vs with
  | nil =>
    cases h
    rfl
  | cons a as ih =>
    obtain ⟨v, w, rest, rfl, -, has⟩ := h.cons_inv
    have hrest : armParts ([v, w] ++ rest ++ ws) = [.criterion v, .operand w] ++
        armParts (rest ++ ws) := rfl
    rw [hrest, ih has]
    rfl

theorem arms_logs {vs : List Value} {as : List Arm} (h : ArmsDenote vs as)
    (hl : ∀ a ∈ as, ∀ vs, ArmsDenote vs [a] →
      Logs (parseAll (armParts vs)) fun d => entries (a.nodesAt d)) :
    Logs (parseAll (armParts vs)) fun d => entries (Arm.nodesAllAt d as) := by
  induction as generalizing vs with
  | nil =>
    cases h
    exact Logs.nil
  | cons a as ih =>
    obtain ⟨v, w, rest, rfl, ha, has⟩ := h.cons_inv
    obtain ⟨hl, hls⟩ := List.forall_mem_cons.mp hl
    have hparts : armParts ([v, w] ++ rest) = armParts [v, w] ++ armParts rest := rfl
    simp only [Arm.nodesAllAt, entries_append, hparts]
    exact (hl _ ha).append (ih has hls)

theorem logs_hereditary :
    Hereditary
      (fun c => ∀ v, Denotes v c → Logs (Part.criterion v).parse fun d => entries (c.nodesAt d))
      (fun a => ∀ v, OperandDenotes v a →
        Logs (Part.operand v).parse fun d => entries (a.nodesAt d))
      (fun a => ∀ vs, ArmsDenote vs [a] →
        Logs (parseAll (armParts vs)) fun d => entries (a.nodesAt d)) where
  constant b v h := by
    rw [h.constant_inv]
    exact Logs.tuple (form_criterion (criterionBody_constant b)) .nil
  not c hc v h := by
    obtain ⟨w, rfl, hw⟩ := h.not_inv
    exact Logs.tuple (form_criterion (criterionBody_not w)) (hc w hw).single
  junction op c cs hc hcs v h := by
    obtain ⟨w, ws, rfl, hw, hws⟩ := h.junction_inv
    have hparts := (hc w hw).cons (criteria_logs hws fun c hc v hv => hcs c hc v hv)
    apply (Logs.tuple (form_criterion (criterionBody_junction op w ws)) hparts).congr
    intro d
    rw [Criterion.nodesAt, entries_cons rfl, entries_append]
    rfl
  comparison op a b ha hb v h := by
    obtain ⟨w, x, rfl, hw, hx⟩ := h.comparison_inv
    have hparts := (ha w hw).cons (hb x hx).single
    apply (Logs.tuple (form_criterion (criterionBody_comparison op w x)) hparts).congr
    intro d
    rw [Criterion.nodesAt, entries_cons rfl, entries_append]
    rfl
  field t v h := by
    obtain ⟨f, params, rfl, ht⟩ := h.field_inv
    apply (Logs.tuple (form_criterion (criterionBody_field ht)) .nil).congr
    intro d
    rw [Criterion.nodesAt, entries_cons rfl, entry_field ht]
    rfl
  literal x v h := by
    obtain ⟨n, rfl, rfl⟩ := h.literal_inv
    exact Logs.scalar rfl
  read f v h := by
    obtain ⟨rfl, hf⟩ := h.read_inv
    apply Logs.scalar
    rw [Part.form, Field.ofTagIn?_eq_some_iff.mpr ⟨hf, rfl⟩]
  binary op a b ha hb v h := by
    obtain ⟨w, x, rfl, hw, hx⟩ := h.binary_inv
    have hparts := (ha w hw).cons (hb x hx).single
    apply (Logs.tuple (form_operand (operandBody_binary op w x)) hparts).congr
    intro d
    rw [Operand.nodesAt, entries_cons rfl, entries_append]
    rfl
  unary op a ha v h := by
    obtain ⟨w, rfl, hw⟩ := h.unary_inv
    exact Logs.tuple (form_operand (operandBody_unary op w)) (ha w hw).single
  choice a as b ha has hb v h := by
    obtain ⟨us, vs, ws, rfl, hus, hvs, hws⟩ := h.choice_inv
    have hbody := operandBody_choice (us ++ (vs ++ ws))
    cases hf : choiceFault? (us ++ (vs ++ ws)).length with
    | some f =>
      rw [hf] at hbody
      exact Logs.unfit (form_operand hbody)
    | none =>
      rw [hf, armParts_append hus, armParts_append hvs] at hbody
      have hparts := (ha us hus).append ((arms_logs hvs has).append (hb ws hws))
      apply (Logs.tuple (form_operand hbody) hparts).congr
      intro d
      rw [Operand.nodesAt, entries_cons rfl, entries_append, entries_append]
      rfl
  arm c a hc ha vs h := by
    cases h with
    | cons hv hw hrest =>
      cases hrest
      apply ((hc _ hv).cons (ha _ hw).single).congr
      intro d
      rw [Arm.nodesAt, entries_append]

end Wire

/-- A field of a numeric expression. -/
def Node.isRead : Node → Bool
  | .operand (.field _) => true
  | _ => false

/-- How many of the nodes are tuples or fields of numeric expressions. -/
def counted (ns : List Placed) : Nat :=
  (ns.filter (·.node.isTuple)).length + ns.countP (·.node.isRead)

theorem counted_append (ns ms : List Placed) : counted (ns ++ ms) = counted ns + counted ms := by
  simp only [counted, List.filter_append, List.length_append, List.countP_append]
  omega

theorem counted_cons {n : Placed} (h : n.node.isTuple = true) (hr : n.node.isRead = false)
    (ns : List Placed) : counted (n :: ns) = counted ns + 1 := by
  simp only [counted, List.filter_cons, List.countP_cons, h, hr, if_true, List.length_cons]
  simp only [Bool.false_eq_true, if_false]
  omega

theorem nodeCount_hereditary :
    Hereditary (fun c => ∀ d, c.nodeCount = counted (c.nodesAt d))
      (fun a => ∀ d, a.nodeCount = counted (a.nodesAt d))
      (fun a => ∀ d, a.nodeCount = counted (a.nodesAt d)) where
  constant b d := rfl
  not c hc d := by
    rw [Criterion.nodeCount, Criterion.nodesAt, counted_cons rfl rfl, hc]
  junction op c cs hc hcs d := by
    have hall (d : Nat) : Criterion.nodeCountAll cs = counted (Criterion.nodesAllAt d cs) := by
      induction cs with
      | nil => rfl
      | cons c cs ih =>
        obtain ⟨hc, hcs⟩ := List.forall_mem_cons.mp hcs
        rw [Criterion.nodeCountAll, Criterion.nodesAllAt, counted_append, hc, ih hcs]
    rw [Criterion.nodeCount, Criterion.nodesAt, counted_cons rfl rfl, counted_append, hc, hall]
  comparison op a b ha hb d := by
    rw [Criterion.nodeCount, Criterion.nodesAt, counted_cons rfl rfl, counted_append, ha, hb]
  field t d := rfl
  literal x d := rfl
  read f d := rfl
  binary op a b ha hb d := by
    rw [Operand.nodeCount, Operand.nodesAt, counted_cons rfl rfl, counted_append, ha, hb]
  unary op a ha d := by
    rw [Operand.nodeCount, Operand.nodesAt, counted_cons rfl rfl, ha]
  choice a as b ha has hb d := by
    have hall (d : Nat) : Arm.nodeCountAll as = counted (Arm.nodesAllAt d as) := by
      induction as with
      | nil => rfl
      | cons a as ih =>
        obtain ⟨ha, has⟩ := List.forall_mem_cons.mp has
        rw [Arm.nodeCountAll, Arm.nodesAllAt, counted_append, ha, ih has]
    rw [Operand.nodeCount, Operand.nodesAt, counted_cons rfl rfl, counted_append, counted_append,
      ha (d + 1), hall (d + 1), hb (d + 1), Nat.add_assoc (counted _)]
  arm c a hc ha d := by
    rw [Arm.nodeCount, Arm.nodesAt, counted_append, hc, ha]

theorem Criterion.nodeCount_eq (c : Criterion) :
    c.nodeCount = c.tuples.length + c.nodes.countP (·.node.isRead) :=
  nodeCount_hereditary.ofCriterion c 1

theorem Node.isSome_kind? {n : Node} (h : n.isTuple = true) : n.kind?.isSome = true := by
  cases n with
  | criterion c => rfl
  | operand a =>
    cases a with
    | literal x | field f => cases h
    | _ => rfl

namespace Wire

theorem appends_of_parse {v : Value} {p : Parsed} (h : parse v = .ok p) :
    p.progress.depth = 0 ∧ Appends .start p.progress (p.criterion.tuples.map Placed.entry) := by
  obtain ⟨hv, -⟩ := runs_criterion_iff.mp ⟨_, parse_eq_ok.mp h⟩
  have hlogs := logs_hereditary.ofCriterion p.criterion v hv
  exact ⟨hlogs.depth_eq (runs_of_parse h), hlogs.appends (runs_of_parse h)⟩

/-- What a successful parse has logged are the nodes with tuples of their own, in the order of the
tree, each with its depth, the tag with which it is written and its kind; no tuple is open then. -/
theorem parse_trail {v : Value} {p : Parsed} (h : parse v = .ok p) :
    p.progress.depth = 0 ∧ p.progress.nodeCount = p.progress.nodes.size ∧
      p.progress.nodes.toList = p.criterion.tuples.map Placed.entry ∧
      (∀ n ∈ p.criterion.tuples, (∃ params, n.node.wire = headed n.node.tag params) ∧
        n.node.kind?.isSome = true) ∧
      p.criterion.nodeCount =
        p.progress.nodeCount + p.criterion.nodes.countP (·.node.isRead) := by
  obtain ⟨hdepth, happ⟩ := appends_of_parse h
  have hnodes : p.progress.nodes.toList = p.criterion.tuples.map Placed.entry := happ.nodes_eq
  have hcount : p.progress.nodeCount = p.criterion.tuples.length := by
    rw [happ.nodeCount_eq, List.length_map]
    exact Nat.zero_add _
  refine ⟨hdepth, ?_, hnodes, ?_, ?_⟩
  · rw [hcount, ← Array.length_toList, hnodes, List.length_map]
  · intro n hn
    have htuple : n.node.isTuple = true := (List.mem_filter.mp hn).2
    exact ⟨wire_eq_headed_tag htuple, Node.isSome_kind? htuple⟩
  · rw [hcount, Criterion.nodeCount_eq]

/-- A price is compared with a choice of numbers. -/
def pricedByIndex : Criterion :=
  .comparison .lessThan (.field .lastPrice) (.choice
    (.mk (.not (.field (.boolean .isIndex true))) (.unary .neg (.literal (.ofInt 2)))) []
    (.mk (.constant true) (.binary .mod (.field .highPrice) (.literal (.ofInt 3)))))

def pricedByIndexTrail : List ParsedNode := [
  ⟨1, "<", some .numericLessThan⟩,
  ⟨2, "If", some .numericIf⟩,
  ⟨3, "Not", some .not⟩,
  ⟨4, "IsIndex", some .booleanFieldEquals⟩,
  ⟨3, "Neg", some .numericNeg⟩,
  ⟨3, "All", some .everything⟩,
  ⟨3, "%", some .numericMod⟩]

theorem parse_pricedByIndex : ∃ p, parse pricedByIndex.wire = .ok ⟨pricedByIndex, p⟩ :=
  (parse_wire_iff (by decide)).mpr ⟨by decide, by decide, rfl⟩

theorem parse_trail_pricedByIndex :
    ∃ p, parse pricedByIndex.wire = .ok ⟨pricedByIndex, p⟩ ∧ p.depth = 0 ∧ p.nodeCount = 7 ∧
      p.nodes.toList = pricedByIndexTrail ∧ pricedByIndex.nodeCount = 7 + 2 := by
  obtain ⟨p, hp⟩ := parse_pricedByIndex
  obtain ⟨hdepth, hsize, hnodes, -, hcount⟩ := parse_trail hp
  have htrail : pricedByIndex.tuples.map Placed.entry = pricedByIndexTrail := by
    decide +kernel
  have hseven : p.nodeCount = 7 := by
    rw [hsize, ← Array.length_toList, hnodes, htrail]
    rfl
  refine ⟨p, hp, hdepth, hseven, hnodes.trans htrail, ?_⟩
  rw [hcount, hseven]
  rfl

end Wire
end ScanCriteria
