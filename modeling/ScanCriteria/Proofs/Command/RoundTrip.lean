import ScanCriteria.Command.Report
import ScanCriteria.Proofs.Criterion.Agreement
import ScanCriteria.Proofs.Wire.Recovery

/-!
# The verdict of a round trip

What a check and a round trip report of an input does not depend on the session, but for the advice.
An input that is accepted is always serialized; it survives the round trip just when every date in
it can be read back from its text. A date with a signed year and an offset is accepted to the minute
only and written with seconds, so it does not. The parts of a report fit each other: it tells of an
error just when it is not good, and shows a criterion just when there is one.
-/
namespace ScanCriteria
open Json Wire

/-- What an action in a session returns. -/
def returned {α : Type} (x : SessionM α) (s : Session) : α := (x s).1

theorem returned_bind {α β : Type} (x : SessionM α) (f : α → SessionM β) (s : Session) :
    returned (x >>= f) s = returned (f (returned x s)) (x s).2 := rfl

theorem returned_pure {α : Type} (a : α) (s : Session) : returned (pure a) s = a := rfl

theorem returned_parse (v : Value) (s : Session) : returned (Session.parse v) s = parse v := by
  simp only [Session.parse, returned_bind]
  split <;> split <;> rfl

theorem returned_serialize (c : Criterion) (s : Session) :
    returned (Session.serialize c) s = (serialize c).result := by
  simp only [Session.serialize, returned_bind]
  cases (serialize c).result with
  | error m => rfl
  | ok wire =>
    simp only [returned_bind]
    split <;> rfl

namespace Report

theorem returned_ofCheck_ok {v : Value} {p : Parsed} (h : parse v = .ok p) (index : Nat)
    (s : Session) :
    returned (ofCheck index v) s =
      ⟨index, true, some p.criterion, none, none, p.progress.trail, none⟩ := by
  rw [ofCheck, returned_bind, returned_parse, h, returned_pure]

theorem returned_ofCheck_error {v : Value} {f : Failure} (h : parse v = .error f) (index : Nat)
    (s : Session) :
    ∃ advice, returned (ofCheck index v) s =
      ⟨index, false, none, none, none, f.progress.trail, some advice⟩ := by
  rw [ofCheck, returned_bind, returned_parse, h]
  exact ⟨_, rfl⟩

theorem returned_compare (c : Criterion) (wire : Value) (s : Session) :
    (returned (compare c wire) s).1 = match parse wire with
      | .ok p => p.criterion.agrees c
      | .error _ => false := by
  rw [compare, returned_bind, returned_parse]
  cases parse wire <;> rfl

theorem agrees_self_of_parse {v : Value} {p : Parsed} (h : parse v = .ok p) :
    p.criterion.agrees p.criterion = true :=
  Criterion.agrees_self fun n hn => ((parsed_of_parse h).1 n hn).finite

/-- A second parse gives the same criterion or fails, as the dates have it. -/
theorem returned_compare_iff {v : Value} {p : Parsed} (h : parse v = .ok p) (s : Session) :
    (returned (compare p.criterion p.criterion.wire) s).1 = true ↔ p.criterion.Readable := by
  rw [returned_compare]
  cases hw : parse p.criterion.wire with
  | error f =>
    apply iff_of_false nofun
    intro hr
    obtain ⟨q, hq⟩ := (parse_wire_iff_of_parse h).mpr ⟨hr, rfl⟩
    rw [hq] at hw
    cases hw
  | ok r =>
    obtain ⟨hr, hself⟩ := (parse_wire_iff_of_parse h).mp ⟨r.progress, hw⟩
    have hagrees : r.criterion.agrees p.criterion = true := by
      rw [hself, agrees_self_of_parse h]
    exact iff_of_true hagrees hr

/-- An input that is accepted is serialized, and the second parse gives the verdict. -/
theorem returned_ofRoundTrip_compare {v : Value} {p : Parsed} (h : parse v = .ok p) (index : Nat)
    (s : Session) :
    ∃ t same error, returned (compare p.criterion p.criterion.wire) t = (same, error) ∧
      returned (ofRoundTrip index v) s =
        ⟨index, same, some p.criterion, some p.criterion.wire, some same, p.progress.trail,
          error⟩ := by
  have hrole (n : Placed) (hn : n ∈ p.criterion.nodes) : n.node.InRole :=
    ((parsed_of_parse h).1 n hn).inRole
  simp only [ofRoundTrip, returned_bind, returned_ofCheck_ok h, returned_serialize,
    serialize_result hrole]
  exact ⟨_, _, _, rfl, rfl⟩

theorem returned_ofRoundTrip_ok {v : Value} {p : Parsed} (h : parse v = .ok p) (index : Nat)
    (s : Session) :
    ∃ same error, returned (ofRoundTrip index v) s =
        ⟨index, same, some p.criterion, some p.criterion.wire, some same, p.progress.trail, error⟩ ∧
      (same = true ↔ p.criterion.Readable) := by
  obtain ⟨t, same, error, hverdict, hreport⟩ := returned_ofRoundTrip_compare h index s
  have hsame := returned_compare_iff h t
  rw [hverdict] at hsame
  exact ⟨same, error, hreport, hsame⟩

theorem returned_ofRoundTrip_error {v : Value} {f : Failure} (h : parse v = .error f) (index : Nat)
    (s : Session) :
    returned (ofRoundTrip index v) s = returned (ofCheck index v) s := by
  obtain ⟨advice, ha⟩ := returned_ofCheck_error h index s
  rw [ofRoundTrip, returned_bind, ha, returned_pure]

/-- An input that is accepted is serialized, and survives the round trip just when its dates can be
read back; there is no verdict on any other. -/
theorem ofRoundTrip_ok_iff_readable (index : Nat) (v : Value) (s t : Session) :
    (∃ c, (returned (ofCheck index v) s).ok = true ∧
        (returned (ofCheck index v) s).criterion = some c ∧
        (returned (ofRoundTrip index v) t).criterion = some c ∧
        (returned (ofRoundTrip index v) t).wire = some c.wire ∧
        (returned (ofRoundTrip index v) t).roundTrip =
          some (returned (ofRoundTrip index v) t).ok ∧
        ((returned (ofRoundTrip index v) t).ok = true ↔ c.Readable)) ∨
      (returned (ofCheck index v) s).ok = false ∧
        (returned (ofRoundTrip index v) t).ok = false ∧
        (returned (ofRoundTrip index v) t).roundTrip = none := by
  cases h : parse v with
  | ok p =>
    left
    obtain ⟨same, error, hreport, hsame⟩ := returned_ofRoundTrip_ok h index t
    rw [hreport, returned_ofCheck_ok h]
    exact ⟨p.criterion, rfl, rfl, rfl, rfl, rfl, hsame⟩
  | error f =>
    right
    obtain ⟨advice, ha⟩ := returned_ofCheck_error h index s
    obtain ⟨advice', ha'⟩ := returned_ofCheck_error h index t
    rw [returned_ofRoundTrip_error h, ha, ha']
    exact ⟨rfl, rfl, rfl⟩

/-- A date in the year 10000, an hour east of UTC. -/
def farDate : Moment := ⟨⟨10000, 1, 1, 0, 0, 0, 0, 60⟩, by decide +kernel⟩

def expiresFar : Criterion := .field (.date .expiryDate (.equals farDate))

/-- A tuple that names the date to the minute. -/
def expiresFarTuple : Value := .array [.string "ExpiryDate", .string "+10000-01-01T00:00+01:00"]

theorem parse_expiresFarTuple :
    ∃ p, parse expiresFarTuple = .ok ⟨expiresFar, p⟩ := by
  have hread : Moment.read? "+10000-01-01T00:00+01:00" = some farDate := by decide +kernel
  have hd : Denotes expiresFarTuple expiresFar :=
    .field (f := .expiryDate) (.date (by decide) (.literal (.mk hread)))
  simp only [parse_eq_ok]
  exact runs_criterion_iff.mpr ⟨hd, hd.withinLimits_iff.mpr (by decide)⟩

/-- The tuple is accepted and does not survive. -/
theorem ofRoundTrip_expiresFarTuple :
    (returned (ofCheck 0 expiresFarTuple) (Session.start [] 0)).ok = true ∧
      (returned (ofRoundTrip 0 expiresFarTuple) (Session.start [] 0)).ok = false ∧
      (returned (ofRoundTrip 0 expiresFarTuple) (Session.start [] 0)).roundTrip = some false := by
  obtain ⟨p, hp⟩ := parse_expiresFarTuple
  obtain ⟨same, error, hreport, hsame⟩ := returned_ofRoundTrip_ok hp 0 (Session.start [] 0)
  have hunreadable : ¬expiresFar.Readable := by decide
  have hfalse : same = false := Bool.eq_false_iff.mpr fun hs => hunreadable (hsame.mp hs)
  rw [hreport, returned_ofCheck_ok hp, hfalse]
  exact ⟨rfl, rfl, rfl⟩

theorem returned_compare_error (c : Criterion) (wire : Value) (s : Session) :
    (returned (compare c wire) s).2 = none ↔ ∃ p, parse wire = .ok p := by
  rw [compare, returned_bind, returned_parse]
  cases hp : parse wire with
  | ok p => exact iff_of_true rfl ⟨p, rfl⟩
  | error f => exact iff_of_false nofun nofun

/-- There is advice on the second parse just when the criterion does not survive it. -/
theorem returned_compare_ok_iff {v : Value} {p : Parsed} (h : parse v = .ok p) (s : Session) :
    (returned (compare p.criterion p.criterion.wire) s).1 = true ↔
      (returned (compare p.criterion p.criterion.wire) s).2 = none := by
  rw [returned_compare_iff h, returned_compare_error]
  constructor
  · intro hreadable
    obtain ⟨q, hq⟩ := (parse_wire_iff_of_parse h).mpr ⟨hreadable, rfl⟩
    exact ⟨_, hq⟩
  · rintro ⟨⟨m, q⟩, hq⟩
    exact ((parse_wire_iff_of_parse h).mp ⟨q, hq⟩).1

/-- The parts of the report `r` on the input `v` fit the parse of `v`, and each other. -/
structure Consistent (index : Nat) (v : Value) (r : Report) : Prop where
  index_eq : r.index = index
  ok_iff : r.ok = true ↔ r.error = none
  criterion_iff : ∀ c, r.criterion = some c ↔ ∃ p, parse v = .ok ⟨c, p⟩
  trail_eq : r.trail = (Session.progressOf (parse v)).trail

theorem consistent_of_ok {index : Nat} {v : Value} {p : Parsed} (h : parse v = .ok p) {r : Report}
    (hindex : r.index = index) (hok : r.ok = true ↔ r.error = none)
    (hcriterion : r.criterion = some p.criterion) (htrail : r.trail = p.progress.trail) :
    Consistent index v r where
  index_eq := hindex
  ok_iff := hok
  criterion_iff c := by
    rw [hcriterion, h]
    constructor
    · rintro ⟨⟩
      exact ⟨p.progress, rfl⟩
    · rintro ⟨q, ⟨⟩⟩
      rfl
  trail_eq := by rw [htrail, h, Session.progressOf]

theorem consistent_ofCheck (index : Nat) (v : Value) (s : Session) :
    Consistent index v (returned (ofCheck index v) s) := by
  cases h : parse v with
  | ok p =>
    rw [returned_ofCheck_ok h]
    exact consistent_of_ok h rfl (iff_of_true rfl rfl) rfl rfl
  | error f =>
    obtain ⟨advice, hreport⟩ := returned_ofCheck_error h index s
    rw [hreport]
    exact ⟨rfl, iff_of_false nofun nofun, fun c => iff_of_false nofun (by rw [h]; nofun),
      by rw [h, Session.progressOf]⟩

theorem consistent_ofRoundTrip (index : Nat) (v : Value) (s : Session) :
    Consistent index v (returned (ofRoundTrip index v) s) := by
  cases h : parse v with
  | ok p =>
    obtain ⟨t, same, error, hverdict, hreport⟩ := returned_ofRoundTrip_compare h index s
    have hok := returned_compare_ok_iff h t
    rw [hverdict] at hok
    rw [hreport]
    exact consistent_of_ok h rfl hok rfl rfl
  | error f =>
    rw [returned_ofRoundTrip_error h]
    exact consistent_ofCheck index v s

/-- A check and a round trip both report good news just when they report no error, show the
criterion just when the input is accepted, and show the trail of its parse. A round trip shows the
wire form and its verdict with the criterion, and the verdict is the news. No second parse ever
gives a criterion that differs from the first. -/
theorem reports_consistent (index : Nat) (v : Value) (s t : Session) :
    (Consistent index v (returned (ofCheck index v) s) ∧
        (returned (ofCheck index v) s).wire = none ∧
        (returned (ofCheck index v) s).roundTrip = none) ∧
      (Consistent index v (returned (ofRoundTrip index v) t) ∧
        (returned (ofRoundTrip index v) t).wire =
          (returned (ofRoundTrip index v) t).criterion.map (·.wire) ∧
        (returned (ofRoundTrip index v) t).roundTrip =
          (returned (ofRoundTrip index v) t).criterion.map
            fun _ => (returned (ofRoundTrip index v) t).ok) ∧
      ∀ p q, parse v = .ok p → parse p.criterion.wire = .ok q →
        q.criterion = p.criterion ∧ q.criterion.agrees p.criterion = true := by
  refine ⟨⟨consistent_ofCheck index v s, ?_⟩, ⟨consistent_ofRoundTrip index v t, ?_⟩, ?_⟩
  · cases h : parse v with
    | ok p =>
      rw [returned_ofCheck_ok h]
      exact ⟨rfl, rfl⟩
    | error f =>
      obtain ⟨advice, hreport⟩ := returned_ofCheck_error h index s
      rw [hreport]
      exact ⟨rfl, rfl⟩
  · cases h : parse v with
    | ok p =>
      obtain ⟨_, same, error, -, hreport⟩ := returned_ofRoundTrip_compare h index t
      rw [hreport]
      exact ⟨rfl, rfl⟩
    | error f =>
      obtain ⟨advice, hreport⟩ := returned_ofCheck_error h index t
      rw [returned_ofRoundTrip_error h, hreport]
      exact ⟨rfl, rfl⟩
  · rintro p ⟨m, q⟩ h hq
    obtain rfl : m = p.criterion := ((parse_wire_iff_of_parse h).mp ⟨q, hq⟩).2
    have hagrees := agrees_self_of_parse h
    exact ⟨rfl, hagrees⟩

end Report
end ScanCriteria
