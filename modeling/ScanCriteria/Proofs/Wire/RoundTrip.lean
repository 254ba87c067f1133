import ScanCriteria.Proofs.Wire.Recovery

/-!
# From a tree to the wire and back

Serializing a sound tree within the limits and parsing what comes of it gives the tree back, with
its tests settled. Whatever numbers, bounds, moments and nesting a tree has, its wire form is parsed
to what is recovered of it or is refused; it is never read as another tree. A date whose local year
is out of range is no moment and stands in no tree; its text by itself is refused.
-/
namespace ScanCriteria.Wire
open Json

/-- A sound tree with readable dates comes back from the wire with its tests settled. -/
theorem parse_serialize {c : Criterion} (hs : ∀ n ∈ c.nodes, n.node.Sound) (hd : c.Readable)
    (hl : c.WithinLimits) :
    ∃ v p, (serialize c).result = .ok v ∧ parse v = .ok ⟨c.mapTests FieldTest.settled, p⟩ := by
  have hrole (n : Placed) (hn : n ∈ c.nodes) : n.node.InRole := (hs n hn).inRole
  have hrec : ∀ n ∈ c.nodes, n.node.Recoverable := (Criterion.forall_recoverable_iff hs).mpr hd
  have hm : c.mapTests FieldTest.settled = c.mapTests FieldTest.recovered :=
    (Criterion.mapTests_recovered hs).symm
  obtain ⟨p, hp⟩ := (parse_wire_iff hrole).mpr ⟨hrec, hl, hm⟩
  exact ⟨c.wire, p, serialize_result hrole, hp⟩

/-- An index that expires after a leap second, and whose price is compared with a choice. -/
def expiringIndex : Criterion :=
  .junction .and (.field (.hasValue .isIndex)) [
    .field (.date .expiryDate (.inRange
      ⟨some ⟨⟨2016, 12, 31, 23, 59, 59, 1500000000, 60⟩, by decide +kernel⟩, none⟩)),
    .comparison .lessThan (.field .lastPrice) (.choice
      (.mk (.not (.field (.hasValue .isIndex))) (.unary .neg (.literal (.ofInt 2)))) []
      (.mk (.constant true) (.binary .mod (.field .highPrice) (.literal (.ofInt 3)))))]

theorem parse_serialize_expiringIndex :
    ∃ v p, (serialize expiringIndex).result = .ok v ∧
      parse v = .ok ⟨expiringIndex.mapTests FieldTest.settled, p⟩ :=
  parse_serialize (by decide) (by decide) (by decide)

/-- A tree whose fields are in their roles is written, and what is written is parsed to what is
recovered of the tree, if its nodes are recoverable and it keeps to the limits, or not at all. -/
theorem parse_serialize_iff {c : Criterion} (h : ∀ n ∈ c.nodes, n.node.InRole) :
    ∃ v, (serialize c).result = .ok v ∧
      (∀ m, (∃ p, parse v = .ok ⟨m, p⟩) ↔
        (∀ n ∈ c.nodes, n.node.Recoverable) ∧ c.WithinLimits ∧
          m = c.mapTests FieldTest.recovered) ∧
      (¬((∀ n ∈ c.nodes, n.node.Recoverable) ∧ c.WithinLimits) → ∃ f, parse v = .error f) := by
  refine ⟨c.wire, serialize_result h, fun m => parse_wire_iff h, ?_⟩
  intro hn
  cases hp : parse c.wire with
  | error f => exact ⟨f, rfl⟩
  | ok r =>
    obtain ⟨hrec, hl, -⟩ := (parse_wire_iff h).mp ⟨r.progress, hp⟩
    exact absurd ⟨hrec, hl⟩ hn

/-- One bound is not a number. -/
def halfBounded : Criterion :=
  .not (.field (.numeric .lastPrice (.inRange ⟨some .nan, some (.ofInt 7)⟩)))

theorem parse_serialize_halfBounded :
    (∀ n ∈ halfBounded.nodes, n.node.InRole) ∧
      ∃ v p, (serialize halfBounded).result = .ok v ∧
        parse v = .ok
          ⟨.not (.field (.numeric .lastPrice (.inRange ⟨none, some (.ofInt 7)⟩))), p⟩ := by
  have hrole : ∀ n ∈ halfBounded.nodes, n.node.InRole := by decide
  obtain ⟨v, hv, hparse, -⟩ := parse_serialize_iff hrole
  obtain ⟨p, hp⟩ := (hparse _).mpr ⟨by decide, by decide, rfl⟩
  exact ⟨hrole, v, p, hv, hp⟩

end ScanCriteria.Wire
