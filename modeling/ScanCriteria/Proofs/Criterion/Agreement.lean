import ScanCriteria.Criterion.Agreement
import ScanCriteria.Proofs.Criterion.Tests

/-!
# Agreement of a tree with itself

A tree agrees with itself if all of its numbers are finite.
-/
namespace ScanCriteria

theorem agreesOption_self {α : Type} {r : α → α → Bool} {o : Option α}
    (h : ∀ x ∈ o.toList, r x x = true) : agreesOption r o o = true := by
  cases o with
  | none => rfl
  | some x => exact h x (List.mem_singleton_self x)

theorem Target.agrees_self {α : Type} {r : α → α → Bool} {t : Target α}
    (h : ∀ x ∈ t.values, r x x = true) : t.agrees r t = true := by
  cases t with
  | equals x => exact h x (List.mem_singleton_self x)
  | inRange b =>
    obtain ⟨hmin, hmax⟩ := List.forall_mem_append.mp h
    rw [Target.agrees, Bounds.agrees, agreesOption_self hmin, agreesOption_self hmax, Bool.and_self]

theorem FieldTest.agrees_self {t : FieldTest} (h : ∀ x ∈ t.numbers, x.isFinite = true) :
    t.agrees t = true := by
  have hnumber (u : Target Double) (hu : ∀ x ∈ u.values, x.isFinite = true) :
      u.agrees Double.agrees u = true :=
    Target.agrees_self fun x hx => Double.agrees_self (hu x hx)
  have hmoment (u : Target Moment) : u.agrees Moment.agrees u = true :=
    Target.agrees_self fun a _ => a.agrees_self
  cases t with
  | numeric f t => simp [FieldTest.agrees, hnumber t h]
  | date f t => simp [FieldTest.agrees, hmoment t]
  | price s t =>
    cases t with
    | none => simp [FieldTest.agrees, agreesOption]
    | some t => simp [FieldTest.agrees, agreesOption, hnumber t h]
  | dated s t => cases t <;> simp [FieldTest.agrees, agreesOption, hmoment]
  | _ => simp [FieldTest.agrees]

theorem Criterion.agreesAll_self {cs : List Criterion} (h : ∀ c ∈ cs, c.agrees c = true) :
    Criterion.agreesAll cs cs = true := by
  induction cs with
  | nil => rw [Criterion.agreesAll]
  | cons c cs ih =>
    obtain ⟨hc, hcs⟩ := List.forall_mem_cons.mp h
    rw [Criterion.agreesAll, hc, ih hcs, Bool.and_self]

theorem Arm.agreesAll_self {as : List Arm} (h : ∀ a ∈ as, a.agrees a = true) :
    Arm.agreesAll as as = true := by
  induction as with
  | nil => rw [Arm.agreesAll]
  | cons a as ih =>
    obtain ⟨ha, has⟩ := List.forall_mem_cons.mp h
    rw [Arm.agreesAll, ha, ih has, Bool.and_self]

def Node.Finite (n : Node) : Prop := ∀ x ∈ n.numbers, x.isFinite = true

theorem agrees_hereditary :
    Hereditary (fun c => ∀ d, (∀ n ∈ c.nodesAt d, n.node.Finite) → c.agrees c = true)
      (fun a => ∀ d, (∀ n ∈ a.nodesAt d, n.node.Finite) → a.agrees a = true)
      (fun a => ∀ d, (∀ n ∈ a.nodesAt d, n.node.Finite) → a.agrees a = true) where
  constant b d _ := by
    rw [Criterion.agrees, beq_self_eq_true]
  not c hc d h := by
    rw [Criterion.agrees, hc _ (every_not.mp h).2]
  junction op c cs hc hcs d h := by
    obtain ⟨-, h, hs⟩ := every_junction.mp h
    have hall : Criterion.agreesAll cs cs = true :=
      Criterion.agreesAll_self fun c hc => hcs c hc _ (hs c hc)
    rw [Criterion.agrees, beq_self_eq_true, hc _ h, hall, Bool.and_self, Bool.and_self]
  comparison op a b ha hb d h := by
    obtain ⟨-, h, h'⟩ := every_comparison.mp h
    rw [Criterion.agrees, beq_self_eq_true, ha _ h, hb _ h', Bool.and_self, Bool.and_self]
  field t d h := by
    rw [Criterion.agrees, FieldTest.agrees_self (every_field.mp h)]
  literal x d h := by
    rw [Operand.agrees, Double.agrees_self (every_literal.mp h x (List.mem_singleton_self x))]
  read f d _ := by
    rw [Operand.agrees, beq_self_eq_true]
  binary op a b ha hb d h := by
    obtain ⟨-, h, h'⟩ := every_binary.mp h
    rw [Operand.agrees, beq_self_eq_true, ha _ h, hb _ h', Bool.and_self, Bool.and_self]
  unary op a ha d h := by
    rw [Operand.agrees, beq_self_eq_true, ha _ (every_unary.mp h).2, Bool.and_self]
  choice a as b ha has hb d h := by
    obtain ⟨-, h, hs, h'⟩ := every_choice.mp h
    have hall : Arm.agreesAll as as = true :=
      Arm.agreesAll_self fun a ha => has a ha _ (hs a ha)
    rw [Operand.agrees, ha _ h, hall, hb _ h', Bool.and_self, Bool.and_self]
  arm c a hc ha d h := by
    obtain ⟨h, h'⟩ := every_arm.mp h
    rw [Arm.agrees, hc _ h, ha _ h', Bool.and_self]

theorem Criterion.agrees_self {c : Criterion} (h : ∀ n ∈ c.nodes, n.node.Finite) :
    c.agrees c = true :=
  agrees_hereditary.ofCriterion c 1 h

end ScanCriteria
