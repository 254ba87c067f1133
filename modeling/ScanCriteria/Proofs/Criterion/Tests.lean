import ScanCriteria.Criterion.Basic
import ScanCriteria.Proofs.Calendar.TextForm
import ScanCriteria.Proofs.Criterion.Nodes
import ScanCriteria.Wire.Serialize

/-!
# Field tests within criteria

What a tree has to satisfy to come back from its wire form is said of its nodes: the fields are in
the roles they have, the numbers are finite, the ranges have a bound and the dates have a readable
text. `Criterion.mapTests` changes the field tests of a tree and nothing else.
-/
namespace ScanCriteria

namespace Bounds

variable {α : Type}

def NonEmpty (b : Bounds α) : Prop := b.min.isSome = true ∨ b.max.isSome = true

instance (b : Bounds α) : Decidable b.NonEmpty := inferInstanceAs (Decidable (_ ∨ _))

def values (b : Bounds α) : List α := b.min.toList ++ b.max.toList

def filter (keep : α → Bool) (b : Bounds α) : Bounds α := ⟨b.min.filter keep, b.max.filter keep⟩

theorem filter_eq_self {keep : α → Bool} {b : Bounds α} (h : ∀ x ∈ b.values, keep x = true) :
    b.filter keep = b := by
  obtain ⟨min, max⟩ := b
  have hself (o : Option α) (ho : ∀ x ∈ o.toList, keep x = true) : o.filter keep = o := by
    cases o with
    | none => rfl
    | some x => rw [Option.filter_some, if_pos (ho x (List.mem_singleton_self x))]
  obtain ⟨hmin, hmax⟩ := List.forall_mem_append.mp h
  rw [filter, hself min hmin, hself max hmax]

end Bounds

namespace Target

variable {α : Type}

def values : Target α → List α
  | equals x => [x]
  | inRange b => b.values

/-- A range has a bound. -/
def Bounded : Target α → Prop
  | equals _ => True
  | inRange b => b.NonEmpty

instance : DecidablePred (Bounded (α := α))
  | equals _ => inferInstanceAs (Decidable True)
  | inRange b => inferInstanceAs (Decidable b.NonEmpty)

/-- Drops the bounds that are not kept. -/
def filter (keep : α → Bool) : Target α → Target α
  | equals x => equals x
  | inRange b => inRange (b.filter keep)

/-- The value, or every bound that is kept and one of them at least, is `good`. -/
def Recoverable (keep : α → Bool) (good : α → Prop) : Target α → Prop
  | equals x => good x
  | inRange b => (b.filter keep).NonEmpty ∧ ∀ x ∈ (b.filter keep).values, good x

instance {keep : α → Bool} {good : α → Prop} [DecidablePred good] :
    DecidablePred (Recoverable keep good)
  | equals x => inferInstanceAs (Decidable (good x))
  | inRange _ => inferInstanceAs (Decidable (_ ∧ ∀ x ∈ _, good x))

theorem filter_eq_self {keep : α → Bool} {t : Target α} (h : ∀ x ∈ t.values, keep x = true) :
    t.filter keep = t := by
  cases t with
  | equals x => rfl
  | inRange b => rw [filter, Bounds.filter_eq_self h]

theorem filter_true (t : Target α) : t.filter (fun _ => true) = t := filter_eq_self fun _ _ => rfl

theorem recoverable_iff {keep : α → Bool} {good : α → Prop} {t : Target α}
    (hk : ∀ x ∈ t.values, keep x = true) (hb : t.Bounded) :
    t.Recoverable keep good ↔ ∀ x ∈ t.values, good x := by
  cases t with
  | equals x => exact (List.forall_mem_singleton (p := good)).symm
  | inRange b =>
    rw [Recoverable, Bounds.filter_eq_self hk]
    exact and_iff_right hb

end Target

namespace FieldTest

def InRole : FieldTest → Prop
  | hasValue f => f.plays .plain = true
  | boolean f _ => f.plays (.ofGroup .boolean) = true
  | numeric f _ => f.plays (.ofGroup .numeric) = true
  | date f _ => f.plays (.ofGroup .date) = true
  | text f _ => f.plays (.ofGroup .text) = true
  | price _ _ | dated _ _ | altCode _ _ | attributes _ _ => True

instance : DecidablePred InRole
  | hasValue _ | boolean _ _ | numeric _ _ | date _ _ | text _ _ =>
    inferInstanceAs (Decidable (_ = true))
  | price _ _ | dated _ _ | altCode _ _ | attributes _ _ => inferInstanceAs (Decidable True)

def numbers : FieldTest → List Double
  | numeric _ t | price _ (some t) => t.values
  | _ => []

def moments : FieldTest → List Moment
  | date _ t | dated _ (some t) => t.values
  | _ => []

def Bounded : FieldTest → Prop
  | numeric _ t | price _ (some t) => t.Bounded
  | date _ t | dated _ (some t) => t.Bounded
  | _ => True

instance (t : FieldTest) : Decidable t.Bounded := by
  unfold Bounded
  split <;> infer_instance

/-- The wire has one spelling for the two tests that `isIndex` holds. -/
def settled : FieldTest → FieldTest
  | hasValue .isIndex => boolean .isIndex true
  | t => t

/-- Drops the bounds that are not finite. -/
def withFiniteBounds : FieldTest → FieldTest
  | numeric f t => numeric f (t.filter Double.isFinite)
  | price s t => price s (t.map (Target.filter Double.isFinite))
  | t => t

/-- What is left of a test on the wire. -/
def recovered (t : FieldTest) : FieldTest := t.settled.withFiniteBounds

/-- The wire form of a test is one of a test. -/
def Recoverable : FieldTest → Prop
  | numeric _ t | price _ (some t) => t.Recoverable Double.isFinite (Double.isFinite · = true)
  | date _ t | dated _ (some t) => t.Recoverable (fun _ => true) Moment.Readable
  | _ => True

instance (t : FieldTest) : Decidable t.Recoverable := by
  unfold Recoverable
  split <;> infer_instance

/-- If nothing is dropped from a test, its dates decide. -/
theorem recoverable_iff {t : FieldTest} (hn : ∀ x ∈ t.numbers, x.isFinite = true)
    (hb : t.Bounded) : t.Recoverable ↔ ∀ a ∈ t.moments, a.Readable := by
  have hnumbers (u : Target Double) (hu : ∀ x ∈ u.values, x.isFinite = true) (hb : u.Bounded) :
      u.Recoverable Double.isFinite (Double.isFinite · = true) ↔ ∀ a ∈ [], Moment.Readable a :=
    iff_of_true ((Target.recoverable_iff hu hb).mpr hu) (List.forall_mem_nil _)
  have hmoments (u : Target Moment) (hb : u.Bounded) :
      u.Recoverable (fun _ => true) Moment.Readable ↔ ∀ a ∈ u.values, a.Readable :=
    Target.recoverable_iff (fun _ _ => rfl) hb
  cases t with
  | numeric f t => exact hnumbers t hn hb
  | date f t => exact hmoments t hb
  | price s t =>
    cases t with
    | none => exact iff_of_true trivial (List.forall_mem_nil _)
    | some t => exact hnumbers t hn hb
  | dated s t =>
    cases t with
    | none => exact iff_of_true trivial (List.forall_mem_nil _)
    | some t => exact hmoments t hb
  | _ => exact iff_of_true trivial (List.forall_mem_nil _)

theorem withFiniteBounds_eq_self {t : FieldTest} (hn : ∀ x ∈ t.numbers, x.isFinite = true) :
    t.withFiniteBounds = t := by
  cases t with
  | numeric f t => rw [withFiniteBounds, Target.filter_eq_self hn]
  | price s t =>
    cases t with
    | none => rfl
    | some t => rw [withFiniteBounds, Option.map_some, Target.filter_eq_self hn]
  | _ => rfl

theorem numbers_settled (t : FieldTest) : t.settled.numbers = t.numbers := by
  cases t with
  | hasValue f => cases f <;> rfl
  | _ => rfl

theorem recovered_eq_settled {t : FieldTest} (hn : ∀ x ∈ t.numbers, x.isFinite = true) :
    t.recovered = t.settled :=
  withFiniteBounds_eq_self (t.numbers_settled ▸ hn)

end FieldTest

namespace Node

def InRole : Node → Prop
  | criterion (.field t) => t.InRole
  | operand (.field f) => f.plays (.ofGroup .numeric) = true
  | _ => True

instance (n : Node) : Decidable n.InRole := by
  unfold InRole
  split <;> infer_instance

def numbers : Node → List Double
  | criterion (.field t) => t.numbers
  | operand (.literal x) => [x]
  | _ => []

def moments : Node → List Moment
  | criterion (.field t) => t.moments
  | _ => []

def Bounded : Node → Prop
  | criterion (.field t) => t.Bounded
  | _ => True

instance (n : Node) : Decidable n.Bounded := by
  unfold Bounded
  split <;> infer_instance

def Recoverable : Node → Prop
  | criterion (.field t) => t.Recoverable
  | operand (.literal x) => x.isFinite = true
  | _ => True

instance (n : Node) : Decidable n.Recoverable := by
  unfold Recoverable
  split <;> infer_instance

/-- The test of the node is spelt in its own way. -/
def Settled : Node → Prop
  | criterion (.field t) => t.settled = t
  | _ => True

/-- Fields are in the roles they have, numbers are finite and ranges have a bound. -/
structure Sound (n : Node) : Prop where
  inRole : n.InRole
  finite : ∀ x ∈ n.numbers, x.isFinite = true
  bounded : n.Bounded

instance (n : Node) : Decidable n.Sound :=
  decidable_of_iff (n.InRole ∧ (∀ x ∈ n.numbers, x.isFinite = true) ∧ n.Bounded)
    ⟨fun ⟨h, h', h''⟩ => ⟨h, h', h''⟩, fun h => ⟨h.inRole, h.finite, h.bounded⟩⟩

theorem Sound.recoverable_iff {n : Node} (h : n.Sound) :
    n.Recoverable ↔ ∀ a ∈ n.moments, a.Readable := by
  cases n with
  | criterion c =>
    cases c with
    | field t => exact FieldTest.recoverable_iff h.finite h.bounded
    | _ => exact iff_of_true trivial (List.forall_mem_nil _)
  | operand a =>
    cases a with
    | literal x =>
      exact iff_of_true (h.finite x (List.mem_singleton_self x)) (List.forall_mem_nil _)
    | _ => exact iff_of_true trivial (List.forall_mem_nil _)

/-- What is said of a node by the grammar of the wire. -/
structure Parsed (n : Node) : Prop extends Sound n where
  settled : n.Settled

end Node

mutual

/-- Changes the field tests of a tree. -/
def Criterion.mapTests (g : FieldTest → FieldTest) : Criterion → Criterion
  | .constant b => .constant b
  | .not c => .not (c.mapTests g)
  | .junction op c cs => .junction op (c.mapTests g) (Criterion.mapTestsAll g cs)
  | .comparison op a b => .comparison op (a.mapTests g) (b.mapTests g)
  | .field t => .field (g t)

def Operand.mapTests (g : FieldTest → FieldTest) : Operand → Operand
  | .literal x => .literal x
  | .field f => .field f
  | .binary op a b => .binary op (a.mapTests g) (b.mapTests g)
  | .unary op a => .unary op (a.mapTests g)
  | .choice a as b => .choice (a.mapTests g) (Arm.mapTestsAll g as) (b.mapTests g)

def Arm.mapTests (g : FieldTest → FieldTest) : Arm → Arm
  | .mk c a => .mk (c.mapTests g) (a.mapTests g)

def Criterion.mapTestsAll (g : FieldTest → FieldTest) : List Criterion → List Criterion
  | [] => []
  | c :: cs => c.mapTests g :: Criterion.mapTestsAll g cs

def Arm.mapTestsAll (g : FieldTest → FieldTest) : List Arm → List Arm
  | [] => []
  | a :: as => a.mapTests g :: Arm.mapTestsAll g as

end

theorem Criterion.mapTestsAll_eq_map (g : FieldTest → FieldTest) (cs : List Criterion) :
    Criterion.mapTestsAll g cs = cs.map (Criterion.mapTests g) := by
  induction cs with
  | nil => rfl
  | cons c cs ih => rw [Criterion.mapTestsAll, ih, List.map_cons]

theorem Arm.mapTestsAll_eq_map (g : FieldTest → FieldTest) (as : List Arm) :
    Arm.mapTestsAll g as = as.map (Arm.mapTests g) := by
  induction as with
  | nil => rfl
  | cons a as ih => rw [Arm.mapTestsAll, ih, List.map_cons]

/-- The function agrees with another on the test of a node. -/
def Node.Same (g h : FieldTest → FieldTest) : Node → Prop
  | .criterion (.field t) => g t = h t
  | _ => True

theorem Node.Sound.same_settled {n : Node} (h : n.Sound) :
    n.Same FieldTest.recovered FieldTest.settled := by
  cases n with
  | criterion c =>
    cases c with
    | field t => exact FieldTest.recovered_eq_settled h.finite
    | _ => trivial
  | operand a => trivial

theorem Node.Settled.same_id {n : Node} (h : n.Settled) : n.Same FieldTest.settled id := by
  cases n with
  | criterion c =>
    cases c with
    | field t => exact h
    | _ => trivial
  | operand a => trivial

section Congruence

variable {g h : FieldTest → FieldTest}

theorem mapTests_hereditary :
    Hereditary
      (fun c => ∀ d, (∀ n ∈ c.nodesAt d, n.node.Same g h) → c.mapTests g = c.mapTests h)
      (fun a => ∀ d, (∀ n ∈ a.nodesAt d, n.node.Same g h) → a.mapTests g = a.mapTests h)
      (fun a => ∀ d, (∀ n ∈ a.nodesAt d, n.node.Same g h) → a.mapTests g = a.mapTests h) where
  constant b d _ := rfl
  not c hc d hn := by
    rw [Criterion.mapTests, Criterion.mapTests, hc _ (every_not.mp hn).2]
  junction op c cs hc hcs d hn := by
    obtain ⟨-, hn, hns⟩ := every_junction.mp hn
    rw [Criterion.mapTests, Criterion.mapTests, hc _ hn, Criterion.mapTestsAll_eq_map,
      Criterion.mapTestsAll_eq_map, List.map_congr_left fun c hc => hcs c hc _ (hns c hc)]
  comparison op a b ha hb d hn := by
    obtain ⟨-, hna, hnb⟩ := every_comparison.mp hn
    rw [Criterion.mapTests, Criterion.mapTests, ha _ hna, hb _ hnb]
  field t d hn := by
    rw [Criterion.mapTests, Criterion.mapTests, every_field.mp hn]
  literal x d _ := rfl
  read f d _ := rfl
  binary op a b ha hb d hn := by
    obtain ⟨-, hna, hnb⟩ := every_binary.mp hn
    rw [Operand.mapTests, Operand.mapTests, ha _ hna, hb _ hnb]
  unary op a ha d hn := by
    rw [Operand.mapTests, Operand.mapTests, ha _ (every_unary.mp hn).2]
  choice a as b ha has hb d hn := by
    obtain ⟨-, hna, hns, hnb⟩ := every_choice.mp hn
    rw [Operand.mapTests, Operand.mapTests, ha _ hna, hb _ hnb, Arm.mapTestsAll_eq_map,
      Arm.mapTestsAll_eq_map, List.map_congr_left fun a ha => has a ha _ (hns a ha)]
  arm c a hc ha d hn := by
    obtain ⟨hnc, hna⟩ := every_arm.mp hn
    rw [Arm.mapTests, Arm.mapTests, hc _ hnc, ha _ hna]

theorem Criterion.mapTests_congr {c : Criterion} (hc : ∀ n ∈ c.nodes, n.node.Same g h) :
    c.mapTests g = c.mapTests h :=
  mapTests_hereditary.ofCriterion c 1 hc

end Congruence

theorem mapTests_id_hereditary :
    Hereditary (fun c => c.mapTests id = c) (fun a => a.mapTests id = a)
      (fun a => a.mapTests id = a) where
  constant b := rfl
  not c hc := by rw [Criterion.mapTests, hc]
  junction op c cs hc hcs := by
    rw [Criterion.mapTests, hc, Criterion.mapTestsAll_eq_map, List.map_congr_left hcs, List.map_id']
  comparison op a b ha hb := by rw [Criterion.mapTests, ha, hb]
  field t := rfl
  literal x := rfl
  read f := rfl
  binary op a b ha hb := by rw [Operand.mapTests, ha, hb]
  unary op a ha := by rw [Operand.mapTests, ha]
  choice a as b ha has hb := by
    rw [Operand.mapTests, ha, hb, Arm.mapTestsAll_eq_map, List.map_congr_left has, List.map_id']
  arm c a hc ha := by rw [Arm.mapTests, hc, ha]

theorem Criterion.mapTests_id (c : Criterion) : c.mapTests id = c :=
  mapTests_id_hereditary.ofCriterion c

namespace Criterion

variable {c : Criterion}

/-- Every date of the tree has a readable text. -/
def Readable (c : Criterion) : Prop := ∀ n ∈ c.nodes, ∀ a ∈ n.node.moments, a.Readable

instance (c : Criterion) : Decidable c.Readable :=
  inferInstanceAs (Decidable (∀ n ∈ c.nodes, ∀ a ∈ n.node.moments, a.Readable))

theorem mapTests_recovered (h : ∀ n ∈ c.nodes, n.node.Sound) :
    c.mapTests FieldTest.recovered = c.mapTests FieldTest.settled :=
  mapTests_congr fun n hn => (h n hn).same_settled

theorem mapTests_settled (h : ∀ n ∈ c.nodes, n.node.Settled) :
    c.mapTests FieldTest.settled = c := by
  calc c.mapTests FieldTest.settled
    _ = c.mapTests id := mapTests_congr fun n hn => (h n hn).same_id
    _ = c := c.mapTests_id

theorem forall_recoverable_iff (h : ∀ n ∈ c.nodes, n.node.Sound) :
    (∀ n ∈ c.nodes, n.node.Recoverable) ↔ c.Readable :=
  forall₂_congr fun n hn => (h n hn).recoverable_iff

end Criterion

end ScanCriteria
