import ScanCriteria.Proofs.Wire.FieldWire
import ScanCriteria.Proofs.Wire.Soundness

/-!
# Serializing

A tree whose fields are in the roles they have is serialized to its wire form, whatever its numbers
are; any other is refused for the first field that is not. The remarks on a tree are those on its
nodes, in order. The tuples of any wire form are those of the nodes of the tree, so it keeps to the
limits just when the tree does.
-/
namespace ScanCriteria
open Json Wire

theorem Criterion.wireAll_eq_map (cs : List Criterion) :
    Criterion.wireAll cs = cs.map Criterion.wire := by
  induction cs with
  | nil => rfl
  | cons c cs ih => rw [Criterion.wireAll, ih, List.map_cons]

theorem Criterion.remarksAll_eq_flatMap (cs : List Criterion) :
    Criterion.remarksAll cs = cs.flatMap Criterion.remarks := by
  induction cs with
  | nil => rfl
  | cons c cs ih => rw [Criterion.remarksAll, ih, List.flatMap_cons]

theorem Arm.remarksAll_eq_flatMap (as : List Arm) :
    Arm.remarksAll as = as.flatMap Arm.remarks := by
  induction as with
  | nil => rfl
  | cons a as ih => rw [Arm.remarksAll, ih, List.flatMap_cons]

/-- The fields that have a role. -/
def Role.fields : Role → List Field
  | ofGroup .numeric => Field.numericFields
  | ofGroup .text => Field.textFields
  | ofGroup .date => Field.dateFields
  | ofGroup .boolean => Field.booleanFields
  | ofGroup .subbed => Field.subbedFields
  | plain => Field.all.filter (· ∉ Field.subbedFields)

theorem Role.mem_fields_iff {r : Role} {f : Field} : f ∈ r.fields ↔ f.plays r = true := by
  cases r with
  | ofGroup g => cases g <;> cases f <;> decide
  | plain => cases f <;> decide

/-- The field as one out of its role, if it is. -/
def Role.misplaced? (r : Role) (f : Field) : Option Misplaced :=
  if f ∈ r.fields then none else some ⟨f, r⟩

theorem Role.misplaced?_eq_none_iff {r : Role} {f : Field} :
    r.misplaced? f = none ↔ f.plays r = true := by
  rw [misplaced?, ← mem_fields_iff]
  split <;> simp_all

def FieldTest.misplaced? : FieldTest → Option Misplaced
  | hasValue f => Role.plain.misplaced? f
  | boolean f _ => (Role.ofGroup .boolean).misplaced? f
  | numeric f _ => (Role.ofGroup .numeric).misplaced? f
  | date f _ => (Role.ofGroup .date).misplaced? f
  | text f _ => (Role.ofGroup .text).misplaced? f
  | price _ _ | dated _ _ | altCode _ _ | attributes _ _ => none

/-- The field of the node, if the node takes it for what it is not. -/
def Node.misplaced? : Node → Option Misplaced
  | criterion (.field t) => t.misplaced?
  | operand (.field f) => (Role.ofGroup .numeric).misplaced? f
  | _ => none

theorem Node.misplaced?_eq_none_iff {n : Node} : n.misplaced? = none ↔ n.InRole := by
  cases n with
  | criterion c =>
    cases c with
    | field t =>
      cases t with
      | hasValue | boolean | numeric | date | text => exact Role.misplaced?_eq_none_iff
      | price | dated | altCode | attributes => exact iff_of_true rfl trivial
    | _ => exact iff_of_true rfl trivial
  | operand a =>
    cases a with
    | field f => exact Role.misplaced?_eq_none_iff
    | _ => exact iff_of_true rfl trivial

/-- What is remarked on a node itself. -/
def Node.remarks : Node → List Remark
  | criterion (.field t) => t.remarks
  | operand (.literal x) => Remark.onNumber x
  | operand (.field f) => Remark.onField (.ofGroup .numeric) f
  | _ => []

theorem remarks_hereditary :
    Hereditary (fun c => ∀ d, c.remarks = (c.nodesAt d).flatMap (·.node.remarks))
      (fun a => ∀ d, a.remarks = (a.nodesAt d).flatMap (·.node.remarks))
      (fun a => ∀ d, a.remarks = (a.nodesAt d).flatMap (·.node.remarks)) where
  constant b d := rfl
  not c hc d := hc (d + 1)
  junction op c cs hc hcs d := by
    rw [Criterion.remarks, Criterion.nodesAt, List.flatMap_cons, List.flatMap_append,
      Criterion.nodesAllAt_eq_flatMap, List.flatMap_assoc, ← hc, Criterion.remarksAll_eq_flatMap,
      List.flatMap_congr fun c hc => hcs c hc (d + 1)]
    rfl
  comparison op a b ha hb d := by
    rw [Criterion.remarks, Criterion.nodesAt, List.flatMap_cons, List.flatMap_append, ← ha, ← hb]
    rfl
  field t d := (List.append_nil _).symm
  literal x d := (List.append_nil _).symm
  read f d := (List.append_nil _).symm
  binary op a b ha hb d := by
    rw [Operand.remarks, Operand.nodesAt, List.flatMap_cons, List.flatMap_append, ← ha, ← hb]
    rfl
  unary op a ha d := ha (d + 1)
  choice a as b ha has hb d := by
    rw [Operand.remarks, Operand.nodesAt, List.flatMap_cons, List.flatMap_append,
      List.flatMap_append, Arm.nodesAllAt_eq_flatMap, List.flatMap_assoc, ← ha, ← hb,
      Arm.remarksAll_eq_flatMap, List.flatMap_congr fun a ha => has a ha (d + 1), List.append_assoc]
    rfl
  arm c a hc ha d := by
    rw [Arm.remarks, Arm.nodesAt, List.flatMap_append, ← hc, ← ha]

theorem Criterion.remarks_eq_flatMap (c : Criterion) :
    c.remarks = c.nodes.flatMap (·.node.remarks) :=
  remarks_hereditary.ofCriterion c 1

namespace Wire.Remark

def misplaced? : Remark → Option Misplaced
  | misplaced m => some m
  | lost _ => none

def lost? : Remark → Option Double
  | misplaced _ => none
  | lost x => some x

theorem onField_eq (r : Role) (f : Field) :
    onField r f = (r.misplaced? f).toList.map misplaced := by
  cases h : r.misplaced? f with
  | none => simp [onField, Role.misplaced?_eq_none_iff.mp h]
  | some m =>
    rw [Role.misplaced?] at h
    split at h
    · cases h
    · next hf =>
      cases h
      rw [Role.mem_fields_iff] at hf
      simp [onField, hf]

theorem onNumber_eq (x : Double) : onNumber x = ([x].filter (!·.isFinite)).map lost := by
  cases h : x.isFinite <;> simp [onNumber, h]

theorem onTarget_eq (t : Target Double) :
    onTarget t = (t.values.filter (!·.isFinite)).map lost := by
  have hbound (o : Option Double) :
      onOption onNumber o = (o.toList.filter (!·.isFinite)).map lost := by
    cases o with
    | none => rfl
    | some x => exact onNumber_eq x
  cases t with
  | equals x => exact onNumber_eq x
  | inRange b =>
    rw [onTarget, hbound, hbound, ← List.map_append, ← List.filter_append]
    rfl

end Wire.Remark

/-- A test is remarked on for its field first. -/
theorem FieldTest.remarks_eq (t : FieldTest) :
    t.remarks = t.misplaced?.toList.map .misplaced ++
      (t.numbers.filter (!·.isFinite)).map .lost := by
  cases t with
  | numeric f t => exact congrArg₂ _ (Remark.onField_eq _ f) (Remark.onTarget_eq t)
  | price s t =>
    cases t with
    | none => rfl
    | some t => exact Remark.onTarget_eq t
  | hasValue | boolean | date | text => exact (Remark.onField_eq _ _).trans (List.append_nil _).symm
  | dated | altCode | attributes => rfl

theorem Node.remarks_eq (n : Node) :
    n.remarks = n.misplaced?.toList.map .misplaced ++
      (n.numbers.filter (!·.isFinite)).map .lost := by
  cases n with
  | criterion c =>
    cases c with
    | field t => exact t.remarks_eq
    | _ => rfl
  | operand a =>
    cases a with
    | literal x => exact Remark.onNumber_eq x
    | field f => exact (Remark.onField_eq _ f).trans (List.append_nil _).symm
    | _ => rfl

/-- The numbers of a tree, from left to right. -/
def Criterion.numbers (c : Criterion) : List Double := c.nodes.flatMap (·.node.numbers)

/-- The numbers that cannot be written. -/
def Criterion.lostNumbers (c : Criterion) : List Double := c.numbers.filter (!·.isFinite)

namespace Wire

theorem misplaced_remarks (ns : List Placed) :
    (ns.flatMap (·.node.remarks)).findSome? Remark.misplaced? =
      ns.findSome? (·.node.misplaced?) := by
  have hnode (n : Placed) : n.node.remarks.filterMap Remark.misplaced? =
      n.node.misplaced?.toList := by
    simp [Node.remarks_eq, Remark.misplaced?, List.filterMap_map, Function.comp_def]
  rw [← List.head?_filterMap, ← List.head?_filterMap, List.filterMap_flatMap,
    List.filterMap_eq_flatMap_toList, List.flatMap_congr fun n _ => hnode n]

theorem lost_remarks (ns : List Placed) :
    (ns.flatMap (·.node.remarks)).filterMap Remark.lost? =
      (ns.flatMap (·.node.numbers)).filter (!·.isFinite) := by
  have hnode (n : Placed) : n.node.remarks.filterMap Remark.lost? =
      n.node.numbers.filter (!·.isFinite) := by
    simp [Node.remarks_eq, Remark.lost?, List.filterMap_map, Function.comp_def]
  rw [List.filterMap_flatMap, List.flatMap_congr fun n _ => hnode n, List.filter_flatMap]

theorem serializeAs_result (v : Value) (rs : List Remark) :
    (serializeAs v rs).result = match rs.findSome? Remark.misplaced? with
      | some m => .error m
      | none => .ok v := by
  induction rs with
  | nil => rfl
  | cons r rs ih =>
    cases r with
    | misplaced m => rfl
    | lost x => exact ih

theorem serializeAs_lost {rs : List Remark} (h : rs.findSome? Remark.misplaced? = none)
    (v : Value) : (serializeAs v rs).lost = rs.filterMap Remark.lost? := by
  induction rs with
  | nil => rfl
  | cons r rs ih =>
    cases r with
    | misplaced m => cases h
    | lost x => exact congrArg (x :: ·) (ih h)

/-- The first misplaced field among the nodes of a tree, from the root down and from left to right,
is what it is refused for. -/
theorem serialize_eq (c : Criterion) :
    (serialize c).result = match c.nodes.findSome? (·.node.misplaced?) with
      | some m => .error m
      | none => .ok c.wire := by
  rw [serialize, serializeAs_result, c.remarks_eq_flatMap, misplaced_remarks]

theorem serializeOperand_eq (a : Operand) :
    (serializeOperand a).result = match (a.nodesAt 1).findSome? (·.node.misplaced?) with
      | some m => .error m
      | none => .ok a.wire := by
  rw [serializeOperand, serializeAs_result, remarks_hereditary.ofOperand a 1, misplaced_remarks]

theorem noneMisplaced {ns : List Placed} (h : ∀ n ∈ ns, n.node.InRole) :
    ns.findSome? (·.node.misplaced?) = none :=
  List.findSome?_eq_none_iff.mpr fun n hn => Node.misplaced?_eq_none_iff.mpr (h n hn)

theorem all_inRole (ns : List Placed) :
    ns.all (·.node.InRole) = (ns.findSome? (·.node.misplaced?)).isNone := by
  rw [Bool.eq_iff_iff, Option.isNone_iff_eq_none, List.findSome?_eq_none_iff]
  simp only [List.all_eq_true, decide_eq_true_eq, Node.misplaced?_eq_none_iff]

theorem serialize_result {c : Criterion} (h : ∀ n ∈ c.nodes, n.node.InRole) :
    (serialize c).result = .ok c.wire := by
  rw [serialize_eq, noneMisplaced h]

theorem serialize_lost {c : Criterion} (h : ∀ n ∈ c.nodes, n.node.InRole) :
    (serialize c).lost = c.lostNumbers := by
  have hnone : c.remarks.findSome? Remark.misplaced? = none := by
    rw [c.remarks_eq_flatMap, misplaced_remarks, noneMisplaced h]
  rw [serialize, serializeAs_lost hnone, c.remarks_eq_flatMap, lost_remarks]
  rfl

theorem tuplesAt_ofDouble (d : Nat) (x : Double) : tuplesAt d (.ofDouble x) = [] := by
  cases hx : x.isFinite with
  | true =>
    rw [Value.ofDouble_of_isFinite hx]
    rfl
  | false =>
    rw [Value.ofDouble_of_not_isFinite hx]
    rfl

theorem tuplesAt_target {α : Type} {f : α → Value} {d : Nat} (hf : ∀ x, tuplesAt d (f x) = [])
    (t : Target α) : tuplesAt d (t.wire f) = [] := by
  cases t with
  | equals x => exact hf x
  | inRange b => rfl

theorem tuples_testParams (d : Nat) (t : FieldTest) : tuplesAllAt d (testParams t) = [] := by
  have hnumber := tuplesAt_target (tuplesAt_ofDouble d)
  have hmoment := tuplesAt_target (f := Moment.wire) (d := d) fun _ => rfl
  apply tuplesAllAt_eq_nil
  cases t with
  | numeric f t => exact List.forall_mem_singleton.mpr (hnumber t)
  | date f t => exact List.forall_mem_singleton.mpr (hmoment t)
  | price s t => cases t <;> simp [testParams, wireTarget, hnumber, tuplesAt]
  | dated s t => cases t <;> simp [testParams, wireTarget, hmoment, tuplesAt]
  | altCode s p => cases p <;> simp [testParams, wirePattern, TextMatch.wire, tuplesAt]
  | attributes s p => cases p <;> simp [testParams, wirePattern, TextMatch.wire, tuplesAt]
  | hasValue | boolean | text => simp [testParams, TextMatch.wire, tuplesAt]

theorem length_testParams (t : FieldTest) : (testParams t).length ≤ 3 := by
  cases t with
  | price s t | dated s t => cases t <;> simp [testParams, wireTarget]
  | altCode s p | attributes s p => cases p <;> simp [testParams, wirePattern, TextMatch.wire]
  | _ => simp [testParams, TextMatch.wire]

theorem length_wireOnto (rest : List Value) (a : Arm) :
    (a.wireOnto rest).length = rest.length + 2 := by
  cases a
  rfl

theorem length_wireAll (as : List Arm) (rest : List Value) :
    (Arm.wireAll as rest).length = 2 * as.length + rest.length := by
  induction as with
  | nil => simp [Arm.wireAll]
  | cons a as ih =>
    rw [Arm.wireAll, length_wireOnto, ih, List.length_cons]
    omega

theorem wire_match_hereditary :
    Hereditary (fun c => ∀ d, Match (tuplesAt d c.wire) (c.nodesAt d))
      (fun a => ∀ d, Match (tuplesAt d a.wire) (a.nodesAt d))
      (fun a => ∀ d rest ns, Match (tuplesAllAt d rest) ns →
        Match (tuplesAllAt d (a.wireOnto rest)) (a.nodesAt d ++ ns)) where
  constant b d := by
    rw [Criterion.wire, tuplesAt_headed]
    exact .cons rfl (fits_iff_of_short (by decide) (armsFit_text _ _) trivial) .nil
  not c hc d := by
    rw [Criterion.wire, tuplesAt_headed, tuplesAllAt_single]
    exact .cons rfl (fits_iff_of_short (by simp) (armsFit_text _ _) trivial) (hc _)
  junction op c cs hc hcs d := by
    have hs : Match (tuplesAllAt (d + 1) (Criterion.wireAll cs))
        (Criterion.nodesAllAt (d + 1) cs) := by
      induction cs with
      | nil => exact .nil
      | cons c cs ih =>
        obtain ⟨hc, hcs⟩ := List.forall_mem_cons.mp hcs
        exact (hc _).append (ih hcs)
    have hl : (c.wire :: Criterion.wireAll cs).length = (c :: cs).length := by
      simp [Criterion.wireAll_eq_map]
    rw [Criterion.wire, tuplesAt_headed]
    exact .cons rfl (fits_junction hl) ((hc _).append hs)
  comparison op a b ha hb d := by
    rw [Criterion.wire, tuplesAt_headed, tuplesAllAt_pair]
    exact .cons rfl (fits_iff_of_short (by simp) (armsFit_text _ _) trivial)
      ((ha _).append (hb _))
  field t d := by
    rw [Criterion.wire, wire_eq_headed, tuplesAt_headed, tuples_testParams]
    have hl : (testParams t).length ≤ 4 := Nat.le_succ_of_le (length_testParams t)
    exact .cons rfl (fits_iff_of_short hl (armsFit_tag _ _) trivial) .nil
  literal x d := by
    rw [Operand.wire, tuplesAt_ofDouble]
    exact .skip rfl
  read f d := .skip rfl
  binary op a b ha hb d := by
    rw [Operand.wire, tuplesAt_headed, tuplesAllAt_pair]
    exact .cons rfl (fits_iff_of_short (by simp) (armsFit_operandText (.binary op) nofun _) trivial)
      ((ha _).append (hb _))
  unary op a ha d := by
    rw [Operand.wire, tuplesAt_headed, tuplesAllAt_single]
    exact .cons rfl (fits_iff_of_short (by simp) (armsFit_operandText (.unary op) nofun _) trivial)
      (ha _)
  choice a as b ha has hb d := by
    have hs (rest : List Value) (ns : List Placed) (h : Match (tuplesAllAt (d + 1) rest) ns) :
        Match (tuplesAllAt (d + 1) (Arm.wireAll as rest)) (Arm.nodesAllAt (d + 1) as ++ ns) := by
      induction as with
      | nil => exact h
      | cons a as ih =>
        obtain ⟨ha, has⟩ := List.forall_mem_cons.mp has
        rw [Arm.wireAll, Arm.nodesAllAt, List.append_assoc]
        exact ha _ _ _ (ih has)
    have hb' := hb (d + 1) [] [] .nil
    rw [List.append_nil] at hb'
    have hl : (a.wireOnto (Arm.wireAll as (b.wireOnto []))).length = 2 * (as.length + 2) := by
      rw [length_wireOnto, length_wireAll, length_wireOnto, List.length_nil]
      omega
    rw [Operand.wire, tuplesAt_headed]
    exact .cons rfl (fits_choice hl) (ha _ _ _ (hs _ _ hb'))
  arm c a hc ha d rest ns h := by
    rw [Arm.wireOnto, Arm.nodesAt, tuplesAllAt, tuplesAllAt, List.append_assoc]
    exact (hc _).append ((ha _).append h)

theorem withinLimits_wire_iff {c : Criterion} : WithinLimits c.wire ↔ c.WithinLimits :=
  (wire_match_hereditary.ofCriterion c 1).withinLimits_iff

end Wire
end ScanCriteria
