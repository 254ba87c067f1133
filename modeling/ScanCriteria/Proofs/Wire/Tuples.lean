import Mathlib.Data.List.Forall2
import ScanCriteria.Limits
import ScanCriteria.Proofs.Criterion.Nodes
import ScanCriteria.Wire.Tag
import ScanCriteria.Wire.Write

/-!
# Tuples and the limits on them

The tuples of a value are its arrays, and the arrays within them, but not those within objects.
Limits are set on how deep tuples nest, on how many there are and on how long each is. The limits on
a tree are those on its tuples: all its nodes but literals and fields of numeric expressions.
-/
namespace ScanCriteria
open Json

namespace Wire

/-- The elements of a tuple, its tag included, and its depth. -/
structure Tuple where
  depth : Nat
  items : List Value

mutual

/-- The tuples of a value at depth `d`. -/
def tuplesAt (d : Nat) : Value → List Tuple
  | .array items => ⟨d, items⟩ :: tuplesAllAt (d + 1) items
  | _ => []

def tuplesAllAt (d : Nat) : List Value → List Tuple
  | [] => []
  | v :: vs => tuplesAt d v ++ tuplesAllAt d vs

end

theorem tuplesAt_headed (d : Nat) (tag : String) (params : List Value) :
    tuplesAt d (headed tag params) =
      ⟨d, .string tag :: params⟩ :: tuplesAllAt (d + 1) params := by
  have htag : tuplesAt (d + 1) (.string tag) = [] := rfl
  rw [headed, tuplesAt, tuplesAllAt, htag, List.nil_append]

theorem tuplesAllAt_append (d : Nat) (vs ws : List Value) :
    tuplesAllAt d (vs ++ ws) = tuplesAllAt d vs ++ tuplesAllAt d ws := by
  induction vs with
  | nil => rfl
  | cons v vs ih => rw [List.cons_append, tuplesAllAt, tuplesAllAt, ih, List.append_assoc]

theorem tuplesAllAt_single (d : Nat) (v : Value) : tuplesAllAt d [v] = tuplesAt d v :=
  List.append_nil _

theorem tuplesAllAt_pair (d : Nat) (v w : Value) :
    tuplesAllAt d [v, w] = tuplesAt d v ++ tuplesAt d w := by
  rw [tuplesAllAt, tuplesAllAt_single]

/-- No tuple in a value without arrays. -/
theorem tuplesAllAt_eq_nil {d : Nat} {vs : List Value} (h : ∀ v ∈ vs, tuplesAt d v = []) :
    tuplesAllAt d vs = [] := by
  induction vs with
  | nil => rfl
  | cons v vs ih =>
    obtain ⟨hv, hvs⟩ := List.forall_mem_cons.mp h
    rw [tuplesAllAt, hv, ih hvs, List.nil_append]

/-- A choice has two elements for each arm after its tag. -/
def armsFit (tag : String) (params : List Value) : Prop :=
  tag = OperandTag.choice.text → params.length / 2 ≤ Limits.arms

def Tuple.Fits (t : Tuple) : Prop :=
  t.depth ≤ Limits.depth ∧ t.items.length ≤ Limits.length ∧
    ∀ tag params, t.items = .string tag :: params → armsFit tag params

theorem Tuple.fits_headed {d : Nat} {tag : String} {params : List Value} :
    Tuple.Fits ⟨d, .string tag :: params⟩ ↔
      d ≤ Limits.depth ∧ params.length + 1 ≤ Limits.length ∧ armsFit tag params := by
  constructor
  · rintro ⟨hd, hl, ha⟩
    exact ⟨hd, hl, ha tag params rfl⟩
  · rintro ⟨hd, hl, ha⟩
    refine ⟨hd, hl, fun tag' params' h => ?_⟩
    cases h
    exact ha

/-- The tuples keep to the limits when there have been `count` before them. -/
def Fit (count : Nat) (ts : List Tuple) : Prop :=
  (∀ t ∈ ts, t.Fits) ∧ count + ts.length ≤ Limits.nodes

theorem fit_append {count : Nat} {ts us : List Tuple} :
    Fit count (ts ++ us) ↔ Fit count ts ∧ Fit (count + ts.length) us := by
  simp only [Fit, List.forall_mem_append, List.length_append, ← Nat.add_assoc]
  constructor
  · rintro ⟨⟨ht, hu⟩, hn⟩
    exact ⟨⟨ht, by omega⟩, hu, hn⟩
  · rintro ⟨⟨ht, -⟩, hu, hn⟩
    exact ⟨⟨ht, hu⟩, hn⟩

/-- The value keeps to the limits; its outermost tuple is at depth one. -/
def WithinLimits (v : Value) : Prop := Fit 0 (tuplesAt 1 v)

end Wire

open Wire

/-- Literals and fields of numeric expressions have no tuple of their own. -/
def Node.isTuple : Node → Bool
  | .operand (.literal _) | .operand (.field _) => false
  | _ => true

/-- The node has no more operands or arms than a tuple may hold. -/
def Node.Narrow : Node → Prop
  | .criterion (.junction _ _ rest) => rest.length + 1 < Limits.length
  | .operand (.choice _ rest _) => rest.length + 2 ≤ Limits.arms
  | _ => True

instance (n : Node) : Decidable n.Narrow := by
  unfold Node.Narrow
  split <;> infer_instance

def Placed.Fits (n : Placed) : Prop := n.depth ≤ Limits.depth ∧ n.node.Narrow

instance (n : Placed) : Decidable n.Fits := inferInstanceAs (Decidable (_ ∧ _))

namespace Criterion

/-- The nodes of a tree that have tuples of their own. -/
def tuples (c : Criterion) : List Placed := c.nodes.filter (·.node.isTuple)

def WithinLimits (c : Criterion) : Prop :=
  (∀ n ∈ c.tuples, n.Fits) ∧ c.tuples.length ≤ Limits.nodes

instance (c : Criterion) : Decidable c.WithinLimits := inferInstanceAs (Decidable (_ ∧ _))

end Criterion

namespace Wire

/-- Tuples stand for the nodes of a tree: in the same order, each within the limits just when its
node is. -/
def Match (ts : List Tuple) (ns : List Placed) : Prop :=
  List.Forall₂ (fun t n => t.Fits ↔ n.Fits) ts (ns.filter (·.node.isTuple))

namespace Match

theorem nil : Match [] [] := List.Forall₂.nil

theorem skip {n : Placed} (h : n.node.isTuple = false) : Match [] [n] := by
  have hf : [n].filter (·.node.isTuple) = [] := by simp [h]
  rw [Match, hf]
  exact List.Forall₂.nil

theorem cons {t : Tuple} {n : Placed} {ts : List Tuple} {ns : List Placed}
    (hn : n.node.isTuple = true) (h : t.Fits ↔ n.Fits) (hs : Match ts ns) :
    Match (t :: ts) (n :: ns) := by
  have hf : (n :: ns).filter (·.node.isTuple) = n :: ns.filter (·.node.isTuple) := by simp [hn]
  rw [Match, hf]
  exact List.Forall₂.cons h hs

theorem append {ts us : List Tuple} {ns ms : List Placed} (h : Match ts ns) (h' : Match us ms) :
    Match (ts ++ us) (ns ++ ms) := by
  rw [Match, List.filter_append]
  exact List.rel_append h h'

theorem forall_fits_iff {ts : List Tuple} {ns : List Placed} (h : Match ts ns) :
    (∀ t ∈ ts, t.Fits) ↔ ∀ n ∈ ns.filter (·.node.isTuple), n.Fits := by
  unfold Match at h
  generalize ns.filter (·.node.isTuple) = ms at h
  induction h with
  | nil => simp
  | cons h _ ih => rw [List.forall_mem_cons, List.forall_mem_cons, h, ih]

theorem withinLimits_iff {v : Value} {c : Criterion} (h : Match (tuplesAt 1 v) c.nodes) :
    WithinLimits v ↔ c.WithinLimits := by
  have hl : (tuplesAt 1 v).length = c.tuples.length := h.length_eq
  rw [WithinLimits, Fit, h.forall_fits_iff, hl, Nat.zero_add, Criterion.WithinLimits,
    Criterion.tuples]

end Match
end Wire
end ScanCriteria
