import ScanCriteria.Criterion.Basic

/-!
# Nodes of criteria

`Criterion.nodesAt` lists the nodes of a tree from the root down and from left to right, each with
its depth. Literals and fields of numeric expressions are nodes like the others. `Hereditary` is
the induction on trees, from the parts of a node to the node.
-/
namespace ScanCriteria

/-- Predicates on criteria, operands and arms that hold of a node when they hold of its parts. -/
structure Hereditary (P : Criterion → Prop) (Q : Operand → Prop) (A : Arm → Prop) : Prop where
  constant : ∀ b, P (.constant b)
  not : ∀ c, P c → P (.not c)
  junction : ∀ op c cs, P c → (∀ d ∈ cs, P d) → P (.junction op c cs)
  comparison : ∀ op a b, Q a → Q b → P (.comparison op a b)
  field : ∀ t, P (.field t)
  literal : ∀ x, Q (.literal x)
  read : ∀ f, Q (.field f)
  binary : ∀ op a b, Q a → Q b → Q (.binary op a b)
  unary : ∀ op a, Q a → Q (.unary op a)
  choice : ∀ a as b, A a → (∀ x ∈ as, A x) → A b → Q (.choice a as b)
  arm : ∀ c a, P c → Q a → A (.mk c a)

namespace Hereditary

variable {P : Criterion → Prop} {Q : Operand → Prop} {A : Arm → Prop}

mutual

theorem ofCriterion (h : Hereditary P Q A) : ∀ c, P c
  | .constant b => h.constant b
  | .not c => h.not c (h.ofCriterion c)
  | .junction op c cs => h.junction op c cs (h.ofCriterion c) (h.ofCriteria cs)
  | .comparison op a b => h.comparison op a b (h.ofOperand a) (h.ofOperand b)
  | .field t => h.field t

theorem ofOperand (h : Hereditary P Q A) : ∀ a, Q a
  | .literal x => h.literal x
  | .field f => h.read f
  | .binary op a b => h.binary op a b (h.ofOperand a) (h.ofOperand b)
  | .unary op a => h.unary op a (h.ofOperand a)
  | .choice a as b => h.choice a as b (h.ofArm a) (h.ofArms as) (h.ofArm b)

theorem ofArm (h : Hereditary P Q A) : ∀ a, A a
  | .mk c a => h.arm c a (h.ofCriterion c) (h.ofOperand a)

theorem ofCriteria (h : Hereditary P Q A) : ∀ cs : List Criterion, ∀ c ∈ cs, P c
  | [] => nofun
  | c :: cs => List.forall_mem_cons.mpr ⟨h.ofCriterion c, h.ofCriteria cs⟩

theorem ofArms (h : Hereditary P Q A) : ∀ as : List Arm, ∀ a ∈ as, A a
  | [] => nofun
  | a :: as => List.forall_mem_cons.mpr ⟨h.ofArm a, h.ofArms as⟩

end

end Hereditary

inductive Node where
  | criterion (c : Criterion)
  | operand (a : Operand)

/-- A node with its depth. -/
structure Placed where
  depth : Nat
  node : Node

mutual

/-- The nodes of a tree whose root is at depth `d`. -/
def Criterion.nodesAt (d : Nat) : Criterion → List Placed
  | .constant b => [⟨d, .criterion (.constant b)⟩]
  | .not c => ⟨d, .criterion (.not c)⟩ :: c.nodesAt (d + 1)
  | .junction op c cs =>
    ⟨d, .criterion (.junction op c cs)⟩ :: (c.nodesAt (d + 1) ++ Criterion.nodesAllAt (d + 1) cs)
  | .comparison op a b =>
    ⟨d, .criterion (.comparison op a b)⟩ :: (a.nodesAt (d + 1) ++ b.nodesAt (d + 1))
  | .field t => [⟨d, .criterion (.field t)⟩]

def Operand.nodesAt (d : Nat) : Operand → List Placed
  | .literal x => [⟨d, .operand (.literal x)⟩]
  | .field f => [⟨d, .operand (.field f)⟩]
  | .binary op a b => ⟨d, .operand (.binary op a b)⟩ :: (a.nodesAt (d + 1) ++ b.nodesAt (d + 1))
  | .unary op a => ⟨d, .operand (.unary op a)⟩ :: a.nodesAt (d + 1)
  | .choice a as b =>
    ⟨d, .operand (.choice a as b)⟩ ::
      (a.nodesAt (d + 1) ++ (Arm.nodesAllAt (d + 1) as ++ b.nodesAt (d + 1)))

def Arm.nodesAt (d : Nat) : Arm → List Placed
  | .mk c a => c.nodesAt d ++ a.nodesAt d

def Criterion.nodesAllAt (d : Nat) : List Criterion → List Placed
  | [] => []
  | c :: cs => c.nodesAt d ++ Criterion.nodesAllAt d cs

def Arm.nodesAllAt (d : Nat) : List Arm → List Placed
  | [] => []
  | a :: as => a.nodesAt d ++ Arm.nodesAllAt d as

end

/-- The nodes of a tree; the root is at depth one. -/
def Criterion.nodes (c : Criterion) : List Placed := c.nodesAt 1

theorem Criterion.nodesAllAt_eq_flatMap (d : Nat) (cs : List Criterion) :
    Criterion.nodesAllAt d cs = cs.flatMap (Criterion.nodesAt d) := by
  induction cs with
  | nil => rfl
  | cons c cs ih => rw [Criterion.nodesAllAt, ih, List.flatMap_cons]

theorem Arm.nodesAllAt_eq_flatMap (d : Nat) (as : List Arm) :
    Arm.nodesAllAt d as = as.flatMap (Arm.nodesAt d) := by
  induction as with
  | nil => rfl
  | cons a as ih => rw [Arm.nodesAllAt, ih, List.flatMap_cons]

section Every

variable {P : Node → Prop} {d : Nat}

theorem every_append {ns ms : List Placed} :
    (∀ n ∈ ns ++ ms, P n.node) ↔ (∀ n ∈ ns, P n.node) ∧ ∀ n ∈ ms, P n.node :=
  List.forall_mem_append

theorem every_criteria {cs : List Criterion} :
    (∀ n ∈ Criterion.nodesAllAt d cs, P n.node) ↔ ∀ c ∈ cs, ∀ n ∈ c.nodesAt d, P n.node := by
  rw [Criterion.nodesAllAt_eq_flatMap, List.forall_mem_flatMap]

theorem every_arm {c : Criterion} {a : Operand} :
    (∀ n ∈ (Arm.mk c a).nodesAt d, P n.node) ↔
      (∀ n ∈ c.nodesAt d, P n.node) ∧ ∀ n ∈ a.nodesAt d, P n.node :=
  every_append

theorem every_arms {as : List Arm} :
    (∀ n ∈ Arm.nodesAllAt d as, P n.node) ↔ ∀ a ∈ as, ∀ n ∈ a.nodesAt d, P n.node := by
  rw [Arm.nodesAllAt_eq_flatMap, List.forall_mem_flatMap]

theorem every_single {n : Node} : (∀ m ∈ [⟨d, n⟩], P (Placed.node m)) ↔ P n :=
  List.forall_mem_singleton

/-- A node and its parts. -/
theorem every_cons {n : Node} {ns : List Placed} :
    (∀ m ∈ ⟨d, n⟩ :: ns, P m.node) ↔ P n ∧ ∀ m ∈ ns, P m.node :=
  List.forall_mem_cons

theorem every_constant {b : Bool} :
    (∀ n ∈ (Criterion.constant b).nodesAt d, P n.node) ↔ P (.criterion (.constant b)) :=
  every_single

theorem every_not {c : Criterion} :
    (∀ n ∈ (Criterion.not c).nodesAt d, P n.node) ↔
      P (.criterion (.not c)) ∧ ∀ n ∈ c.nodesAt (d + 1), P n.node :=
  every_cons

theorem every_junction {op : Connective} {c : Criterion} {cs : List Criterion} :
    (∀ n ∈ (Criterion.junction op c cs).nodesAt d, P n.node) ↔
      P (.criterion (.junction op c cs)) ∧ (∀ n ∈ c.nodesAt (d + 1), P n.node) ∧
        ∀ c ∈ cs, ∀ n ∈ c.nodesAt (d + 1), P n.node := by
  rw [← every_criteria, ← every_append]
  exact every_cons

theorem every_comparison {op : Comparison} {a b : Operand} :
    (∀ n ∈ (Criterion.comparison op a b).nodesAt d, P n.node) ↔
      P (.criterion (.comparison op a b)) ∧ (∀ n ∈ a.nodesAt (d + 1), P n.node) ∧
        ∀ n ∈ b.nodesAt (d + 1), P n.node := by
  rw [← every_append]
  exact every_cons

theorem every_field {t : FieldTest} :
    (∀ n ∈ (Criterion.field t).nodesAt d, P n.node) ↔ P (.criterion (.field t)) :=
  every_single

theorem every_literal {x : Double} :
    (∀ n ∈ (Operand.literal x).nodesAt d, P n.node) ↔ P (.operand (.literal x)) :=
  every_single

theorem every_read {f : Field} :
    (∀ n ∈ (Operand.field f).nodesAt d, P n.node) ↔ P (.operand (.field f)) :=
  every_single

theorem every_binary {op : Binary} {a b : Operand} :
    (∀ n ∈ (Operand.binary op a b).nodesAt d, P n.node) ↔
      P (.operand (.binary op a b)) ∧ (∀ n ∈ a.nodesAt (d + 1), P n.node) ∧
        ∀ n ∈ b.nodesAt (d + 1), P n.node := by
  rw [← every_append]
  exact every_cons

theorem every_unary {op : Unary} {a : Operand} :
    (∀ n ∈ (Operand.unary op a).nodesAt d, P n.node) ↔
      P (.operand (.unary op a)) ∧ ∀ n ∈ a.nodesAt (d + 1), P n.node :=
  every_cons

theorem every_choice {a b : Arm} {as : List Arm} :
    (∀ n ∈ (Operand.choice a as b).nodesAt d, P n.node) ↔
      P (.operand (.choice a as b)) ∧ (∀ n ∈ a.nodesAt (d + 1), P n.node) ∧
        (∀ a ∈ as, ∀ n ∈ a.nodesAt (d + 1), P n.node) ∧ ∀ n ∈ b.nodesAt (d + 1), P n.node := by
  rw [← every_arms, ← every_append, ← every_append]
  exact every_cons

end Every
end ScanCriteria
