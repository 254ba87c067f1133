import ScanCriteria.Proofs.Wire.Acceptance
import ScanCriteria.Proofs.Wire.Serializing

/-!
# What comes back from the wire

The wire form of a tree denotes the tree itself, with its field tests recovered, or nothing. It
denotes something when each node is recoverable: a literal is finite, a value is finite or has a
readable text, and a range has a bound left. Numbers, dates and the order of operands are kept.
-/
namespace ScanCriteria.Wire
open Json

theorem literal_wire_iff {x : Double} {b : Operand} :
    OperandDenotes (.ofDouble x) b ↔ x.isFinite = true ∧ b = .literal x := by
  cases hx : x.isFinite with
  | false =>
    rw [Value.ofDouble_of_not_isFinite hx]
    constructor
    · intro h
      cases h
    · nofun
  | true =>
    rw [Value.ofDouble_of_isFinite hx]
    constructor
    · intro h
      cases h
      exact ⟨rfl, rfl⟩
    · rintro ⟨-, rfl⟩
      exact .literal (.real x hx)

theorem read_wire_iff {f : Field} {b : Operand} (hf : f.plays (.ofGroup .numeric) = true) :
    OperandDenotes (.string f.tag) b ↔ b = .field f := by
  constructor
  · intro h
    generalize hw : Value.string f.tag = w at h
    cases h with
    | field _ => rw [Field.tag_inj.mp (Value.string.inj hw)]
    | literal _ | operand _ => cases hw
  · rintro rfl
    exact .field (by simpa [Field.plays] using hf)

/-- What the wire form of a criterion at depth `d` denotes. -/
def Recovered (d : Nat) (c : Criterion) : Prop :=
  ∀ m, Denotes c.wire m ↔
    (∀ n ∈ c.nodesAt d, n.node.Recoverable) ∧ m = c.mapTests FieldTest.recovered

def OperandRecovered (d : Nat) (a : Operand) : Prop :=
  ∀ m, OperandDenotes a.wire m ↔
    (∀ n ∈ a.nodesAt d, n.node.Recoverable) ∧ m = a.mapTests FieldTest.recovered

/-- An arm is written in front of others. -/
def ArmRecovered (d : Nat) (a : Arm) : Prop :=
  ∀ rest ms, ArmsDenote (a.wireOnto rest) ms ↔
    (∀ n ∈ a.nodesAt d, n.node.Recoverable) ∧
      ∃ ns, ArmsDenote rest ns ∧ ms = a.mapTests FieldTest.recovered :: ns

section Lists

variable {d : Nat}

theorem criteria_wire_iff {cs ms : List Criterion} (h : ∀ c ∈ cs, Recovered d c) :
    List.Forall₂ Denotes (Criterion.wireAll cs) ms ↔
      (∀ c ∈ cs, ∀ n ∈ c.nodesAt d, n.node.Recoverable) ∧
        ms = Criterion.mapTestsAll FieldTest.recovered cs := by
  induction cs generalizing ms with
  | nil => simp [Criterion.wireAll, Criterion.mapTestsAll]
  | cons c cs ih =>
    obtain ⟨hc, hcs⟩ := List.forall_mem_cons.mp h
    rw [Criterion.wireAll, List.forall₂_cons_left_iff, List.forall_mem_cons,
      Criterion.mapTestsAll]
    constructor
    · rintro ⟨m, ms, hm, hms, rfl⟩
      obtain ⟨hr, rfl⟩ := (hc m).mp hm
      obtain ⟨hrs, rfl⟩ := (ih hcs).mp hms
      exact ⟨⟨hr, hrs⟩, rfl⟩
    · rintro ⟨⟨hr, hrs⟩, rfl⟩
      exact ⟨_, _, (hc _).mpr ⟨hr, rfl⟩, (ih hcs).mpr ⟨hrs, rfl⟩, rfl⟩

theorem arms_wire_iff {as : List Arm} (h : ∀ a ∈ as, ArmRecovered d a) {rest : List Value}
    {ms : List Arm} :
    ArmsDenote (Arm.wireAll as rest) ms ↔
      (∀ a ∈ as, ∀ n ∈ a.nodesAt d, n.node.Recoverable) ∧
        ∃ ns, ArmsDenote rest ns ∧ ms = Arm.mapTestsAll FieldTest.recovered as ++ ns := by
  induction as generalizing ms with
  | nil => simp [Arm.wireAll, Arm.mapTestsAll]
  | cons a as ih =>
    obtain ⟨ha, has⟩ := List.forall_mem_cons.mp h
    rw [Arm.wireAll, ha, List.forall_mem_cons, Arm.mapTestsAll]
    constructor
    · rintro ⟨hr, _, hms, rfl⟩
      obtain ⟨hrs, ns, hn, rfl⟩ := (ih has).mp hms
      exact ⟨⟨hr, hrs⟩, ns, hn, rfl⟩
    · rintro ⟨⟨hr, hrs⟩, ns, hn, rfl⟩
      exact ⟨hr, _, (ih has).mpr ⟨hrs, ns, hn, rfl⟩, rfl⟩

theorem arms_wire_all_iff {a b : Arm} {as : List Arm} (ha : ArmRecovered d a)
    (has : ∀ a ∈ as, ArmRecovered d a) (hb : ArmRecovered d b) (first last : Arm)
    (rest : List Arm) :
    ArmsDenote (a.wireOnto (Arm.wireAll as (b.wireOnto []))) (first :: (rest ++ [last])) ↔
      ((∀ n ∈ a.nodesAt d, n.node.Recoverable) ∧
        (∀ a ∈ as, ∀ n ∈ a.nodesAt d, n.node.Recoverable) ∧
        ∀ n ∈ b.nodesAt d, n.node.Recoverable) ∧
      first = a.mapTests FieldTest.recovered ∧
        rest = Arm.mapTestsAll FieldTest.recovered as ∧ last = b.mapTests FieldTest.recovered := by
  rw [ha]
  simp only [arms_wire_iff has, hb [] _, armsDenote_nil_iff]
  constructor
  · rintro ⟨hr, _, ⟨hrs, _, ⟨hr', _, rfl, rfl⟩, rfl⟩, h⟩
    obtain ⟨rfl, ht⟩ := List.cons.inj h
    obtain ⟨rfl, hlast⟩ := List.append_inj' ht rfl
    exact ⟨⟨hr, hrs, hr'⟩, rfl, rfl, (List.cons.inj hlast).1⟩
  · rintro ⟨⟨hr, hrs, hr'⟩, rfl, rfl, rfl⟩
    exact ⟨hr, _, ⟨hrs, _, ⟨hr', _, rfl, rfl⟩, rfl⟩, rfl⟩

end Lists

theorem recovered_hereditary :
    Hereditary (fun c => ∀ d, (∀ n ∈ c.nodesAt d, n.node.InRole) → Recovered d c)
      (fun a => ∀ d, (∀ n ∈ a.nodesAt d, n.node.InRole) → OperandRecovered d a)
      (fun a => ∀ d, (∀ n ∈ a.nodesAt d, n.node.InRole) → ArmRecovered d a) where
  constant b d _ m := by
    rw [Criterion.wire, denotes_text, tupleDenotes_constant, every_constant]
    exact ⟨fun h => ⟨trivial, h.symm⟩, fun h => h.2.symm⟩
  not c hc d h m := by
    have hc := hc _ (every_not.mp h).2
    rw [Criterion.wire, denotes_text, tupleDenotes_not, every_not, Criterion.mapTests]
    constructor
    · rintro ⟨e, he, rfl⟩
      obtain ⟨hr, rfl⟩ := (hc e).mp he
      exact ⟨⟨trivial, hr⟩, rfl⟩
    · rintro ⟨⟨-, hr⟩, rfl⟩
      exact ⟨_, (hc _).mpr ⟨hr, rfl⟩, rfl⟩
  junction op c cs hc hcs d h m := by
    obtain ⟨-, h, hs⟩ := every_junction.mp h
    have hc := hc _ h
    have hcs (c : Criterion) (hm : c ∈ cs) : Recovered (d + 1) c := hcs c hm _ (hs c hm)
    rw [Criterion.wire, denotes_text, tupleDenotes_junction, every_junction, Criterion.mapTests]
    constructor
    · rintro ⟨_, he, e, es, rfl, rfl⟩
      cases he with
      | cons he hes =>
        obtain ⟨hr, rfl⟩ := (hc e).mp he
        obtain ⟨hrs, rfl⟩ := (criteria_wire_iff hcs).mp hes
        exact ⟨⟨trivial, hr, hrs⟩, rfl⟩
    · rintro ⟨⟨-, hr, hrs⟩, rfl⟩
      exact ⟨_, .cons ((hc _).mpr ⟨hr, rfl⟩) ((criteria_wire_iff hcs).mpr ⟨hrs, rfl⟩), _, _, rfl,
        rfl⟩
  comparison op a b ha hb d h m := by
    obtain ⟨-, h, h'⟩ := every_comparison.mp h
    have ha := ha _ h
    have hb := hb _ h'
    rw [Criterion.wire, denotes_text, tupleDenotes_comparison, every_comparison,
      Criterion.mapTests]
    constructor
    · rintro ⟨e, he, e', he', rfl⟩
      obtain ⟨hr, rfl⟩ := (ha e).mp he
      obtain ⟨hr', rfl⟩ := (hb e').mp he'
      exact ⟨⟨trivial, hr, hr'⟩, rfl⟩
    · rintro ⟨⟨-, hr, hr'⟩, rfl⟩
      exact ⟨_, (ha _).mpr ⟨hr, rfl⟩, _, (hb _).mpr ⟨hr', rfl⟩, rfl⟩
  field t d h m := by
    have ht (u : FieldTest) : TestDenotes (testField t) (testParams t) u ↔
        t.Recoverable ∧ u = t.recovered := testDenotes_wire_iff (every_field.mp h)
    rw [Criterion.wire, wire_eq_headed, denotes_tag, every_field, Criterion.mapTests]
    constructor
    · rintro ⟨u, hu, rfl⟩
      obtain ⟨hr, rfl⟩ := (ht u).mp hu
      exact ⟨hr, rfl⟩
    · rintro ⟨hr, rfl⟩
      exact ⟨_, (ht _).mpr ⟨hr, rfl⟩, rfl⟩
  literal x d _ m := by
    rw [Operand.wire, literal_wire_iff, every_literal]
    rfl
  read f d h m := by
    rw [Operand.wire, read_wire_iff (every_read.mp h), every_read]
    exact ⟨fun h => ⟨trivial, h⟩, And.right⟩
  binary op a b ha hb d h m := by
    obtain ⟨-, h, h'⟩ := every_binary.mp h
    have ha := ha _ h
    have hb := hb _ h'
    rw [Operand.wire, operandDenotes_text, operandTupleDenotes_binary, every_binary,
      Operand.mapTests]
    constructor
    · rintro ⟨e, he, e', he', rfl⟩
      obtain ⟨hr, rfl⟩ := (ha e).mp he
      obtain ⟨hr', rfl⟩ := (hb e').mp he'
      exact ⟨⟨trivial, hr, hr'⟩, rfl⟩
    · rintro ⟨⟨-, hr, hr'⟩, rfl⟩
      exact ⟨_, (ha _).mpr ⟨hr, rfl⟩, _, (hb _).mpr ⟨hr', rfl⟩, rfl⟩
  unary op a ha d h m := by
    have ha := ha _ (every_unary.mp h).2
    rw [Operand.wire, operandDenotes_text, operandTupleDenotes_unary, every_unary,
      Operand.mapTests]
    constructor
    · rintro ⟨e, he, rfl⟩
      obtain ⟨hr, rfl⟩ := (ha e).mp he
      exact ⟨⟨trivial, hr⟩, rfl⟩
    · rintro ⟨⟨-, hr⟩, rfl⟩
      exact ⟨_, (ha _).mpr ⟨hr, rfl⟩, rfl⟩
  choice a as b ha has hb d h m := by
    obtain ⟨-, h, hs, h'⟩ := every_choice.mp h
    have has (a : Arm) (hm : a ∈ as) : ArmRecovered (d + 1) a := has a hm _ (hs a hm)
    rw [Operand.wire, operandDenotes_text, operandTupleDenotes_choice, every_choice,
      Operand.mapTests]
    have hwire := arms_wire_all_iff (ha _ h) has (hb _ h')
    constructor
    · rintro ⟨_, has, first, rest, last, rfl, rfl⟩
      obtain ⟨hr, rfl, rfl, rfl⟩ := (hwire first last rest).mp has
      exact ⟨⟨trivial, hr⟩, rfl⟩
    · rintro ⟨⟨-, hr⟩, rfl⟩
      exact ⟨_, (hwire _ _ _).mpr ⟨hr, rfl, rfl, rfl⟩, _, _, _, rfl, rfl⟩
  arm c a hc ha d h rest ms := by
    obtain ⟨h, h'⟩ := every_arm.mp h
    have hc := hc _ h
    have ha := ha _ h'
    rw [Arm.wireOnto, armsDenote_cons_iff, every_arm, Arm.mapTests]
    constructor
    · rintro ⟨e, he, e', he', ns, hn, rfl⟩
      obtain ⟨hr, rfl⟩ := (hc e).mp he
      obtain ⟨hr', rfl⟩ := (ha e').mp he'
      exact ⟨⟨hr, hr'⟩, ns, hn, rfl⟩
    · rintro ⟨⟨hr, hr'⟩, ns, hn, rfl⟩
      exact ⟨_, (hc _).mpr ⟨hr, rfl⟩, _, (ha _).mpr ⟨hr', rfl⟩, ns, hn, rfl⟩

/-- The wire form of a tree denotes what is recovered of it, if all of its nodes are recoverable. -/
theorem denotes_wire_iff {c m : Criterion} (h : ∀ n ∈ c.nodes, n.node.InRole) :
    Denotes c.wire m ↔
      (∀ n ∈ c.nodes, n.node.Recoverable) ∧ m = c.mapTests FieldTest.recovered :=
  recovered_hereditary.ofCriterion c 1 h m

theorem parse_wire_iff {c m : Criterion} (h : ∀ n ∈ c.nodes, n.node.InRole) :
    (∃ p, parse c.wire = .ok ⟨m, p⟩) ↔
      (∀ n ∈ c.nodes, n.node.Recoverable) ∧ c.WithinLimits ∧
        m = c.mapTests FieldTest.recovered := by
  simp only [parse_eq_ok]
  rw [runs_criterion_iff, denotes_wire_iff h, withinLimits_wire_iff, and_assoc,
    and_comm (b := c.WithinLimits)]

/-- What is parsed denotes and keeps to the limits, so its nodes are as the grammar has them. -/
theorem parsed_of_parse {v : Value} {p : Parsed} (h : parse v = .ok p) :
    (∀ n ∈ p.criterion.nodes, n.node.Parsed) ∧ p.criterion.WithinLimits := by
  obtain ⟨hv, hl⟩ := runs_criterion_iff.mp ⟨p.progress, parse_eq_ok.mp h⟩
  exact ⟨hv.parsed, hv.withinLimits_iff.mp hl⟩

/-- What was parsed is parsed again from its wire form, if its dates can be read. -/
theorem parse_wire_iff_of_parse {v : Value} {p : Parsed} (h : parse v = .ok p) {m : Criterion} :
    (∃ q, parse p.criterion.wire = .ok ⟨m, q⟩) ↔ p.criterion.Readable ∧ m = p.criterion := by
  obtain ⟨hp, hl⟩ := parsed_of_parse h
  have hs (n : Placed) (hn : n ∈ p.criterion.nodes) : n.node.Sound := (hp n hn).toSound
  have hself : p.criterion.mapTests FieldTest.recovered = p.criterion := by
    rw [Criterion.mapTests_recovered hs, Criterion.mapTests_settled fun n hn => (hp n hn).settled]
  rw [parse_wire_iff fun n hn => (hs n hn).inRole, Criterion.forall_recoverable_iff hs, hself]
  exact and_congr_right fun _ => and_iff_right hl

end ScanCriteria.Wire
