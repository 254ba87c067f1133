import ScanCriteria.Proofs.Wire.Serializing

/-!
# Nulls of wire forms

Every number and moment of a tree has a place of its own in the wire form, and so has a bound that
is absent: the slots of the tree, from left to right. What is in a slot is written at its place, and
nothing stands there if the slot is empty. The nulls of a wire form are at the places of the numbers
that are not finite.
-/
namespace ScanCriteria
open Json Wire

namespace Json

/-- A step from a value into one of its parts. -/
inductive Hop where
  | item (i : Nat)
  | entry (key : String)
  deriving DecidableEq, Repr

/-- The steps from a value down to one within it. -/
abbrev Place := List Hop

namespace Value

def at? : Place → Value → Option Value
  | [], v => some v
  | .item i :: rest, .array items => items[i]?.bind (at? rest)
  | .entry key :: rest, .object es => (Entries.find? key es).bind (at? rest)
  | _ :: _, _ => none

mutual

/-- The places of all nulls. -/
def nulls : Value → List Place
  | .null => [[]]
  | .array items => nullsFrom 0 items
  | .object es => nullsUnder es
  | _ => []

/-- The places of the nulls in items, the first of which has the index `i`. -/
def nullsFrom (i : Nat) : List Value → List Place
  | [] => []
  | v :: vs => v.nulls.map (.item i :: ·) ++ nullsFrom (i + 1) vs

def nullsUnder : List (String × Value) → List Place
  | [] => []
  | (key, v) :: es => v.nulls.map (.entry key :: ·) ++ nullsUnder es

end
end Value
end Json

theorem Json.Value.nullsUnder_append (es fs : List (String × Value)) :
    nullsUnder (es ++ fs) = nullsUnder es ++ nullsUnder fs := by
  induction es with
  | nil => rfl
  | cons e es ih => rw [List.cons_append, nullsUnder, ih, nullsUnder, List.append_assoc]

/-- What a tree has written as a value of its own. -/
inductive Content where
  | number (x : Double)
  | moment (a : Moment)

def Content.wire : Content → Value
  | number x => .ofDouble x
  | moment a => a.wire

def Content.number? : Content → Option Double
  | number x => some x
  | moment _ => none

/-- A place for a number or a moment; for a bound that is absent it stays empty. -/
structure Slot where
  place : Place
  content : Option Content

namespace Slot

def under (h : Hop) (s : Slot) : Slot := ⟨h :: s.place, s.content⟩

def number? (s : Slot) : Option Double := s.content.bind Content.number?

/-- Its number cannot be written. -/
def lost (s : Slot) : Bool := s.number?.any (!·.isFinite)

end Slot

/-- The slots of items, the first of which has the index `i`. -/
def slotsFrom (i : Nat) : List (List Slot) → List Slot
  | [] => []
  | ss :: rest => ss.map (.under (.item i)) ++ slotsFrom (i + 1) rest

/-- Bounds stand under their keys. -/
def Target.slots (content : α → Content) : Target α → List Slot
  | equals x => [⟨[], some (content x)⟩]
  | inRange b => [⟨[.entry minKey], b.min.map content⟩, ⟨[.entry maxKey], b.max.map content⟩]

/-- A tuple has its tag as item zero, and a sub-field after it. -/
def FieldTest.slots : FieldTest → List Slot
  | numeric _ t => slotsFrom 1 [t.slots .number]
  | date _ t => slotsFrom 1 [t.slots .moment]
  | price _ (some t) => slotsFrom 1 [[], t.slots .number]
  | dated _ (some t) => slotsFrom 1 [[], t.slots .moment]
  | _ => []

mutual

def Criterion.slots : Criterion → List Slot
  | .constant _ => []
  | .not c => slotsFrom 1 [c.slots]
  | .junction _ c cs => slotsFrom 1 (c.slots :: Criterion.slotsAll cs)
  | .comparison _ a b => slotsFrom 1 [a.slots, b.slots]
  | .field t => t.slots

def Operand.slots : Operand → List Slot
  | .literal x => [⟨[], some (.number x)⟩]
  | .field _ => []
  | .binary _ a b => slotsFrom 1 [a.slots, b.slots]
  | .unary _ a => slotsFrom 1 [a.slots]
  | .choice a as b => slotsFrom 1 (a.slots ++ (Arm.slotsAll as ++ b.slots))

/-- The slots of the condition and of the value, which are two items. -/
def Arm.slots : Arm → List (List Slot)
  | .mk c a => [c.slots, a.slots]

def Criterion.slotsAll : List Criterion → List (List Slot)
  | [] => []
  | c :: cs => c.slots :: Criterion.slotsAll cs

def Arm.slotsAll : List Arm → List (List Slot)
  | [] => []
  | a :: as => a.slots ++ Arm.slotsAll as

end

/-- The numbers that cannot be written, with their places. -/
def Criterion.lostSlots (c : Criterion) : List Slot := c.slots.filter (·.lost)

/-- The contents of the slots are written at their places, and the nulls of the value are those of
slots whose number is lost. -/
structure Fills (ss : List Slot) (v : Value) : Prop where
  written : ∀ s ∈ ss, v.at? s.place = s.content.map Content.wire
  nulls : v.nulls.Perm ((ss.filter (·.lost)).map (·.place))

theorem lost_places_under (h : Hop) (ss : List Slot) :
    ((ss.map (Slot.under h)).filter (·.lost)).map (·.place) =
      ((ss.filter (·.lost)).map (·.place)).map (h :: ·) := by
  rw [List.filter_map, List.map_map, List.map_map]
  rfl

namespace Fills

variable {α : Type} {ss : List Slot} {sss : List (List Slot)} {v : Value} {vs : List Value}

/-- A value without nulls and slots. -/
theorem plain (h : v.nulls = []) : Fills [] v := ⟨List.forall_mem_nil _, h ▸ .refl _⟩

theorem single (content : Content) : Fills [⟨[], some content⟩] content.wire where
  written := List.forall_mem_singleton.mpr rfl
  nulls := by
    cases content with
    | moment a => exact .refl _
    | number x =>
      obtain ⟨hx, h⟩ | ⟨hx, h⟩ := Value.ofDouble_cases x <;>
        simp [Content.wire, h, Slot.lost, Slot.number?, Content.number?, hx, Value.nulls]

theorem written_from (us : List Value) (h : List.Forall₂ Fills sss vs) :
    ∀ s ∈ slotsFrom us.length sss, (Value.array (us ++ vs)).at? s.place =
      s.content.map Content.wire := by
  induction h generalizing us with
  | nil => exact List.forall_mem_nil _
  | @cons ss v sss vs hv _ ih =>
    intro s hs
    obtain hs | hs := List.mem_append.mp hs
    · obtain ⟨t, ht, rfl⟩ := List.mem_map.mp hs
      rw [Slot.under, Value.at?, List.getElem?_append_right (Nat.le_refl _), Nat.sub_self]
      exact hv.written t ht
    · have hrest := ih (us ++ [v])
      simp only [List.length_append, List.length_singleton, List.append_assoc,
        List.singleton_append] at hrest
      exact hrest s hs

theorem nulls_from (i : Nat) (h : List.Forall₂ Fills sss vs) :
    (Value.nullsFrom i vs).Perm (((slotsFrom i sss).filter (·.lost)).map (·.place)) := by
  induction h generalizing i with
  | nil => exact .refl _
  | cons hv _ ih =>
    rw [Value.nullsFrom, slotsFrom, List.filter_append, List.map_append, lost_places_under]
    exact (hv.nulls.map _).append (ih (i + 1))

/-- The parameters of a tuple come after its tag. -/
theorem tuple (h : List.Forall₂ Fills sss vs) (tag : String) :
    Fills (slotsFrom 1 sss) (headed tag vs) :=
  ⟨written_from [.string tag] h, nulls_from 1 h⟩

/-- Of bounds the greater one is written first. -/
theorem bounds (content : α → Content) (b : Bounds α) :
    Fills ((Target.inRange b).slots content) (b.wire fun x => (content x).wire) where
  written := by
    have hkeys : minKey ≠ maxKey := by decide
    rcases b with ⟨_ | x, _ | y⟩ <;>
      simp [Target.slots, Bounds.wire, Value.at?, Entries.find?, hkeys, hkeys.symm]
  nulls := by
    have hentry (key : String) (o : Option α) :
        (Value.nullsUnder (o.map fun x => (key, (content x).wire)).toList).Perm
          (([⟨[.entry key], o.map content⟩].filter (Slot.lost ·)).map (·.place)) := by
      cases o with
      | none => exact .refl _
      | some x =>
        have hx := (single (content x)).nulls.map (Hop.entry key :: ·)
        rw [← lost_places_under] at hx
        simpa [Value.nullsUnder, Slot.under] using hx
    rw [Bounds.wire, Value.nulls, Value.nullsUnder_append]
    refine .trans ((hentry maxKey b.max).append (hentry minKey b.min)) ?_
    refine .trans List.perm_append_comm ?_
    rw [← List.map_append, ← List.filter_append]
    exact .refl _

theorem target (content : α → Content) (t : Target α) :
    Fills (t.slots content) (t.wire fun x => (content x).wire) := by
  cases t with
  | equals x => exact .single (content x)
  | inRange b => exact .bounds content b

theorem test (t : FieldTest) : Fills t.slots t.wire := by
  have hnumber (t : Target Double) : Fills (t.slots .number) (t.wire .ofDouble) := .target .number t
  have hmoment (t : Target Moment) : Fills (t.slots .moment) (t.wire Moment.wire) :=
    .target .moment t
  have hlabel (s : String) : Fills [] (.string s) := .plain rfl
  cases t with
  | numeric f t => exact .tuple (.cons (hnumber t) .nil) _
  | date f t => exact .tuple (.cons (hmoment t) .nil) _
  | price s t =>
    cases t with
    | none => exact .plain rfl
    | some t => exact .tuple (.cons (hlabel _) (.cons (hnumber t) .nil)) _
  | dated s t =>
    cases t with
    | none => exact .plain rfl
    | some t => exact .tuple (.cons (hlabel _) (.cons (hmoment t) .nil)) _
  | altCode s p => cases p <;> exact .plain rfl
  | attributes s p => cases p <;> exact .plain rfl
  | hasValue | boolean | text => exact .plain rfl

end Fills

theorem fills_hereditary :
    Hereditary (fun c => Fills c.slots c.wire) (fun a => Fills a.slots a.wire)
      (fun a => ∀ sss vs, List.Forall₂ Fills sss vs →
        List.Forall₂ Fills (a.slots ++ sss) (a.wireOnto vs)) where
  constant b := .plain rfl
  not c hc := .tuple (.cons hc .nil) _
  junction op c cs hc hcs := by
    have hs : List.Forall₂ Fills (Criterion.slotsAll cs) (Criterion.wireAll cs) := by
      induction cs with
      | nil => exact .nil
      | cons c cs ih =>
        obtain ⟨hc, hcs⟩ := List.forall_mem_cons.mp hcs
        exact .cons hc (ih hcs)
    exact .tuple (.cons hc hs) _
  comparison op a b ha hb := .tuple (.cons ha (.cons hb .nil)) _
  field t := .test t
  literal x := .single (.number x)
  read f := .plain rfl
  binary op a b ha hb := .tuple (.cons ha (.cons hb .nil)) _
  unary op a ha := .tuple (.cons ha .nil) _
  choice a as b ha has hb := by
    have hs (sss : List (List Slot)) (vs : List Value) (h : List.Forall₂ Fills sss vs) :
        List.Forall₂ Fills (Arm.slotsAll as ++ sss) (Arm.wireAll as vs) := by
      induction as with
      | nil => exact h
      | cons a as ih =>
        obtain ⟨ha, has⟩ := List.forall_mem_cons.mp has
        rw [Arm.slotsAll, List.append_assoc]
        exact ha _ _ (ih has)
    have hb' := hb [] [] .nil
    rw [List.append_nil] at hb'
    exact .tuple (ha _ _ (hs _ _ hb')) _
  arm c a hc ha sss vs h := .cons hc (.cons ha h)

theorem number?_under (h : Hop) (ss : List Slot) :
    (ss.map (Slot.under h)).filterMap Slot.number? = ss.filterMap Slot.number? := by
  rw [List.filterMap_map]
  rfl

theorem numbers_from (i : Nat) (sss : List (List Slot)) :
    (slotsFrom i sss).filterMap Slot.number? = sss.flatMap (·.filterMap Slot.number?) := by
  induction sss generalizing i with
  | nil => rfl
  | cons ss sss ih =>
    rw [slotsFrom, List.filterMap_append, number?_under, ih, List.flatMap_cons]

theorem numbers_target {t : Target Double} :
    (t.slots .number).filterMap Slot.number? = t.values := by
  rcases t with x | ⟨_ | x, _ | y⟩ <;> rfl

theorem moments_target {t : Target Moment} :
    (t.slots .moment).filterMap Slot.number? = [] := by
  rcases t with x | ⟨_ | x, _ | y⟩ <;> rfl

theorem numbers_test (t : FieldTest) : t.slots.filterMap Slot.number? = t.numbers := by
  cases t with
  | numeric f t => simp [FieldTest.slots, numbers_from, numbers_target, FieldTest.numbers]
  | date f t => simp [FieldTest.slots, numbers_from, moments_target, FieldTest.numbers]
  | price s t =>
    cases t with
    | none => rfl
    | some t => simp [FieldTest.slots, numbers_from, numbers_target, FieldTest.numbers]
  | dated s t =>
    cases t with
    | none => rfl
    | some t => simp [FieldTest.slots, numbers_from, moments_target, FieldTest.numbers]
  | hasValue | boolean | text | altCode | attributes => rfl

/-- From left to right the slots have the numbers of the nodes. -/
theorem numbers_hereditary :
    Hereditary
      (fun c => ∀ d, c.slots.filterMap Slot.number? = (c.nodesAt d).flatMap (·.node.numbers))
      (fun a => ∀ d, a.slots.filterMap Slot.number? = (a.nodesAt d).flatMap (·.node.numbers))
      (fun a => ∀ d, a.slots.flatMap (·.filterMap Slot.number?) =
        (a.nodesAt d).flatMap (·.node.numbers)) where
  constant b d := rfl
  not c hc d := by
    simp [Criterion.slots, numbers_from, Criterion.nodesAt, hc (d + 1), Node.numbers]
  junction op c cs hc hcs d := by
    have hs : (Criterion.slotsAll cs).flatMap (·.filterMap Slot.number?) =
        (Criterion.nodesAllAt (d + 1) cs).flatMap (·.node.numbers) := by
      induction cs with
      | nil => rfl
      | cons c cs ih =>
        obtain ⟨hc, hcs⟩ := List.forall_mem_cons.mp hcs
        simp [Criterion.slotsAll, Criterion.nodesAllAt, hc (d + 1), ih hcs]
    simp [Criterion.slots, numbers_from, Criterion.nodesAt, hc (d + 1), hs, Node.numbers]
  comparison op a b ha hb d := by
    simp [Criterion.slots, numbers_from, Criterion.nodesAt, ha (d + 1), hb (d + 1), Node.numbers]
  field t d := (numbers_test t).trans (List.append_nil _).symm
  literal x d := rfl
  read f d := rfl
  binary op a b ha hb d := by
    simp [Operand.slots, numbers_from, Operand.nodesAt, ha (d + 1), hb (d + 1), Node.numbers]
  unary op a ha d := by
    simp [Operand.slots, numbers_from, Operand.nodesAt, ha (d + 1), Node.numbers]
  choice a as b ha has hb d := by
    have hs : (Arm.slotsAll as).flatMap (·.filterMap Slot.number?) =
        (Arm.nodesAllAt (d + 1) as).flatMap (·.node.numbers) := by
      induction as with
      | nil => rfl
      | cons a as ih =>
        obtain ⟨ha, has⟩ := List.forall_mem_cons.mp has
        simp [Arm.slotsAll, Arm.nodesAllAt, ha (d + 1), ih has]
    simp [Operand.slots, numbers_from, Operand.nodesAt, ha (d + 1), hb (d + 1), hs, Node.numbers]
  arm c a hc ha d := by
    simp [Arm.slots, Arm.nodesAt, hc d, ha d]

theorem Criterion.fills (c : Criterion) : Fills c.slots c.wire := fills_hereditary.ofCriterion c

theorem Criterion.numbers_slots (c : Criterion) : c.slots.filterMap Slot.number? = c.numbers :=
  numbers_hereditary.ofCriterion c 1

theorem map_number?_lost (ss : List Slot) :
    (ss.filter (·.lost)).map Slot.number? =
      ((ss.filterMap Slot.number?).filter (!·.isFinite)).map some := by
  induction ss with
  | nil => rfl
  | cons s ss ih =>
    have hlost : s.lost = s.number?.any (!·.isFinite) := rfl
    cases hs : s.number? with
    | none => simp [hlost, hs, ih]
    | some x => cases hx : x.isFinite <;> simp [hlost, hs, hx, ih]

/-- The lost numbers in order, each in its slot. -/
theorem Criterion.map_number?_lostSlots (c : Criterion) :
    c.lostSlots.map Slot.number? = c.lostNumbers.map some := by
  rw [lostSlots, map_number?_lost, c.numbers_slots, lostNumbers]

theorem Criterion.length_lostSlots (c : Criterion) : c.lostSlots.length = c.lostNumbers.length := by
  have h := congrArg List.length c.map_number?_lostSlots
  rwa [List.length_map, List.length_map] at h

theorem Criterion.length_nulls (c : Criterion) : c.wire.nulls.length = c.lostNumbers.length := by
  rw [c.fills.nulls.length_eq, List.length_map]
  exact c.length_lostSlots

end ScanCriteria
