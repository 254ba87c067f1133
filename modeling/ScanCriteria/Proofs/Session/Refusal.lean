import ScanCriteria.Proofs.Command.RoundTrip

/-!
# Refused criteria

Serializing refuses a tree for one reason only: a node takes a field for what the lists do not give
it. Of several such nodes the first counts, from the root down and from left to right, and the last
words of the session name its field and role. No number, range or moment is ever refused. Dates
whose local year is out of range are no moments and stand in no tree.
-/
namespace ScanCriteria
open Json Wire

/-- The result is the value, or the misplaced field of the first node that has one. -/
structure RefusedForFirst (ns : List Placed) (wire : Value) (result : Except Misplaced Value) :
    Prop where
  refused_iff : (∃ m, result = .error m) ↔ ∃ n ∈ ns, n.node.misplaced?.isSome = true
  first_iff : ∀ m, result = .error m ↔
    ∃ before n after, ns = before ++ n :: after ∧ n.node.misplaced? = some m ∧
      ∀ k ∈ before, k.node.misplaced? = none
  written : (∀ n ∈ ns, n.node.misplaced? = none) → result = .ok wire

theorem RefusedForFirst.of_eq {ns : List Placed} {wire : Value} {result : Except Misplaced Value}
    (h : result = match ns.findSome? (·.node.misplaced?) with
      | some m => .error m
      | none => .ok wire) : RefusedForFirst ns wire result := by
  have hfirst (m : Misplaced) :
      result = .error m ↔ ns.findSome? (·.node.misplaced?) = some m := by
    cases hm : ns.findSome? (·.node.misplaced?) <;> simp [h, hm]
  refine ⟨?_, fun m => (hfirst m).trans List.findSome?_eq_some_iff, fun hnone => ?_⟩
  · simp only [hfirst, ← Option.isSome_iff_exists]
    exact List.findSome?_isSome_iff
  · rw [h, List.findSome?_eq_none_iff.mpr hnone]

namespace Session

/-- What the session says last of a misplaced field. -/
def alarm (m : Misplaced) : Emission :=
  .stderr ("CRITICAL ERROR [" ++ Code.internalError ++ "]: " ++
    m.field.label ++ " is not a " ++ m.role.label ++ " field")

theorem bind_apply {α β : Type} (x : SessionM α) (f : α → SessionM β) (s : Session) :
    (x >>= f) s = f (x s).1 (x s).2 := rfl

theorem back_safeCritical (code : Code) (message : String) (s : Session) :
    (safeCritical code message s).2.emitted.back? =
      some (.stderr ("CRITICAL ERROR [" ++ code ++ "]: " ++ message)) :=
  Array.back?_push

theorem alarm_of_refused {c : Criterion} {m : Misplaced} (h : (Wire.serialize c).result = .error m)
    (s : Session) : (Session.serialize c s).2.emitted.back? = some (alarm m) := by
  have hlast : (Session.serialize c s).2 = (safeCritical .internalError m.message
      ((Wire.serialize c).lost.forM warnLost s).2).2 := by
    simp only [Session.serialize, h, bind_apply]
    rfl
  rw [hlast, back_safeCritical, alarm, Misplaced.message]
  simp only [String.append_assoc]

/-- A tree is serialized unless a node in it, at whatever depth, takes a field for what it is not. It
is refused for the first such node then, and the session ends with an alarm for its field and role;
a numeric expression by itself is refused in the same way. -/
theorem serialize_refuses (c : Criterion) (a : Operand) (s : Session) :
    RefusedForFirst c.nodes c.wire (returned (Session.serialize c) s) ∧
      (∀ m, returned (Session.serialize c) s = .error m →
        (Session.serialize c s).2.emitted.back? = some (alarm m)) ∧
      RefusedForFirst (a.nodesAt 1) a.wire (serializeOperand a).result := by
  rw [returned_serialize]
  exact ⟨.of_eq (serialize_eq c), fun m hm => alarm_of_refused hm s, .of_eq (serializeOperand_eq a)⟩

/-- In the arms of a choice the condition comes before the value. -/
example :
    returned (Session.serialize (.comparison .lessThan
      (.choice (.mk (.constant true) (.literal .nan)) []
        (.mk (.not (.field (.date .code (.inRange ⟨none, none⟩)))) (.field .isIndex)))
      (.field .price))) (.start [] 0) = .error ⟨.code, .ofGroup .date⟩ := by
  cbv

end Session
end ScanCriteria
