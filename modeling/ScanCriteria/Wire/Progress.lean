import ScanCriteria.Json.Value
import ScanCriteria.Kind

/-!
# Progress of a parse

While tuples are parsed, the progress keeps how many are open, how many there have been, and a log
of all of them: each with its depth, its tag, and its kind once it has been parsed. After a failure
the entries without a kind are the tuples that were open. Progress can be kept as a JSON document.
-/
namespace ScanCriteria.Wire

structure ParsedNode where
  depth : Nat
  tag : String
  resolved : Option Kind
  deriving DecidableEq, Inhabited, Repr

structure Progress where
  depth : Nat
  nodeCount : Nat
  nodes : Array ParsedNode
  deriving DecidableEq, Inhabited, Repr

namespace Progress

/-- No tuple yet. -/
def start : Progress := ⟨0, 0, #[]⟩

/-- Goes one tuple deeper. -/
def enter (p : Progress) : Progress := { p with depth := p.depth + 1, nodeCount := p.nodeCount + 1 }

/-- Logs a tuple at the present depth. -/
def add (tag : String) (p : Progress) : Progress :=
  { p with nodes := p.nodes.push ⟨p.depth, tag, none⟩ }

/-- Leaves a tuple, whose kind is now known. -/
def exit (index : Nat) (k : Kind) (p : Progress) : Progress :=
  { p with
    depth := p.depth - 1
    nodes := p.nodes.modify index fun n => { n with resolved := some k } }

def unresolved (p : Progress) : List ParsedNode := p.nodes.toList.filter (·.resolved.isNone)

def resolvedText : Option Kind → String
  | some k => k.label
  | none => "<unresolved>"

/-- The line of a tuple in the trail, indented by its depth. -/
def trailLine (n : ParsedNode) : String :=
  "".pushn ' ' (2 * (n.depth - 1)) ++ n.tag ++ " -> " ++ resolvedText n.resolved ++ "\n"

/-- One line for each tuple, in the order in which they were entered. -/
def trail (p : Progress) : String := p.nodes.foldl (fun out n => out ++ trailLine n) ""

/-- The largest count that fits sixty-four bits. -/
def greatestCount : Nat := 1 <<< 64 - 1

/-- Whether one more tuple can be counted, open or in all. -/
def Countable (p : Progress) : Prop := p.depth < greatestCount ∧ p.nodeCount < greatestCount

instance (p : Progress) : Decidable p.Countable := inferInstanceAs (Decidable (_ ∧ _))

/-- Goes one tuple deeper, unless the counts have come to an end. -/
def enter? (p : Progress) : Option Progress := if p.Countable then some p.enter else none

@[simp] theorem enter_depth (p : Progress) : p.enter.depth = p.depth + 1 := rfl
@[simp] theorem enter_nodeCount (p : Progress) : p.enter.nodeCount = p.nodeCount + 1 := rfl
@[simp] theorem enter_nodes (p : Progress) : p.enter.nodes = p.nodes := rfl
@[simp] theorem add_depth (tag : String) (p : Progress) : (p.add tag).depth = p.depth := rfl
@[simp] theorem add_nodeCount (tag : String) (p : Progress) :
    (p.add tag).nodeCount = p.nodeCount := rfl
@[simp] theorem add_nodes (tag : String) (p : Progress) :
    (p.add tag).nodes = p.nodes.push ⟨p.depth, tag, none⟩ := rfl
@[simp] theorem exit_depth (i : Nat) (k : Kind) (p : Progress) :
    (p.exit i k).depth = p.depth - 1 := rfl
@[simp] theorem exit_nodeCount (i : Nat) (k : Kind) (p : Progress) :
    (p.exit i k).nodeCount = p.nodeCount := rfl
@[simp] theorem exit_nodes_size (i : Nat) (k : Kind) (p : Progress) :
    (p.exit i k).nodes.size = p.nodes.size := by simp [exit]

end Progress

open Json

def count? (key : String) (es : Entries Value) : Option Nat :=
  match Entries.find? key es with
  | some (.number (.integer i _)) => if 0 ≤ i then some i.toNat else none
  | _ => none

namespace ParsedNode

def document (n : ParsedNode) : Value :=
  .object [("node_depth", .ofNat n.depth), ("wire_tag", .string n.tag),
    ("resolved", (n.resolved.map fun k => .string k.label).getD .null)]

/-- The kind may be missing. -/
def resolved? (es : Entries Value) : Option (Option Kind) :=
  match Entries.find? "resolved" es with
  | none | some .null => some none
  | some v => (v.name? >>= Kind.ofLabel?).map some

def ofDocument? (v : Value) : Option ParsedNode := do
  let es ← v.parts? ["node_depth", "wire_tag", "resolved"]
  let depth ← count? "node_depth" es
  match Entries.find? "wire_tag" es with
  | some (.string tag) => return ⟨depth, tag, ← resolved? es⟩
  | _ => none

end ParsedNode

namespace Progress

def document (p : Progress) : Value :=
  .object [("depth", .ofNat p.depth), ("tuple_node_count", .ofNat p.nodeCount),
    ("parsed_nodes", .array (p.nodes.toList.map ParsedNode.document))]

def ofDocument? (v : Value) : Option Progress := do
  let es ← v.parts? ["depth", "tuple_node_count", "parsed_nodes"]
  let depth ← count? "depth" es
  let count ← count? "tuple_node_count" es
  match Entries.find? "parsed_nodes" es with
  | some (.array vs) => return ⟨depth, count, (← vs.mapM ParsedNode.ofDocument?).toArray⟩
  | _ => none

end Progress
end ScanCriteria.Wire
