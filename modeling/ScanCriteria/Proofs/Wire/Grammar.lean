import Mathlib.Data.List.Forall2
import ScanCriteria.Proofs.Wire.FieldGrammar
import ScanCriteria.Wire.Tag
import ScanCriteria.Wire.Write

/-!
# The grammar of wire tuples

`Denotes v c` says that the value `v` is a wire form of the criterion `c`, and `OperandDenotes` the
same of numeric expressions. A tuple is headed by the tag of a criterion, of a field or of an
operator, and no tag is one of two kinds; so what a tuple denotes depends on its tag first.
-/
namespace ScanCriteria

namespace Wire
open Json

mutual

inductive Denotes : Value → Criterion → Prop
  | criterion {t : CriterionTag} {params : List Value} {c : Criterion} :
      TupleDenotes t params c → Denotes (headed t.text params) c
  | field {f : Field} {params : List Value} {t : FieldTest} :
      TestDenotes f params t → Denotes (headed f.tag params) (.field t)

inductive TupleDenotes : CriterionTag → List Value → Criterion → Prop
  | constant (b : Bool) : TupleDenotes (.constant b) [] (.constant b)
  | not {v : Value} {c : Criterion} : Denotes v c → TupleDenotes .not [v] (.not c)
  | junction (op : Connective) {params : List Value} {c : Criterion} {cs : List Criterion} :
      List.Forall₂ Denotes params (c :: cs) →
      TupleDenotes (.junction op) params (.junction op c cs)
  | comparison (op : Comparison) {v w : Value} {a b : Operand} : OperandDenotes v a →
      OperandDenotes w b → TupleDenotes (.comparison op) [v, w] (.comparison op a b)

inductive OperandDenotes : Value → Operand → Prop
  | literal (n : Number) : OperandDenotes (.number n) (.literal n.toDouble)
  | field {f : Field} : f.group = .numeric → OperandDenotes (.string f.tag) (.field f)
  | operand {t : OperandTag} {params : List Value} {a : Operand} :
      OperandTupleDenotes t params a → OperandDenotes (headed t.text params) a

inductive OperandTupleDenotes : OperandTag → List Value → Operand → Prop
  | binary (op : Binary) {v w : Value} {a b : Operand} : OperandDenotes v a →
      OperandDenotes w b → OperandTupleDenotes (.binary op) [v, w] (.binary op a b)
  | unary (op : Unary) {v : Value} {a : Operand} :
      OperandDenotes v a → OperandTupleDenotes (.unary op) [v] (.unary op a)
  /-- The last of the arms is the one taken when no other is. -/
  | choice {params : List Value} {first last : Arm} {rest : List Arm} :
      ArmsDenote params (first :: (rest ++ [last])) →
      OperandTupleDenotes .choice params (.choice first rest last)

/-- Conditions and values alternate. -/
inductive ArmsDenote : List Value → List Arm → Prop
  | nil : ArmsDenote [] []
  | cons {v w : Value} {rest : List Value} {c : Criterion} {a : Operand} {as : List Arm} :
      Denotes v c → OperandDenotes w a → ArmsDenote rest as →
      ArmsDenote (v :: w :: rest) (.mk c a :: as)

end

theorem headed_inj {s t : String} {vs ws : List Value} :
    headed s vs = headed t ws ↔ s = t ∧ vs = ws := by
  simp [headed]

theorem CriterionTag.text_inj {t u : CriterionTag} : t.text = u.text ↔ t = u := by
  constructor
  · intro h
    have ht := CriterionTag.ofText?_text t
    rw [h, CriterionTag.ofText?_text] at ht
    exact (Option.some.inj ht).symm
  · rintro rfl
    rfl

theorem OperandTag.text_inj {t u : OperandTag} : t.text = u.text ↔ t = u := by
  constructor
  · intro h
    have ht := OperandTag.ofText?_text t
    rw [h, OperandTag.ofText?_text] at ht
    exact (Option.some.inj ht).symm
  · rintro rfl
    rfl

theorem CriterionTag.ofText?_tag (f : Field) : CriterionTag.ofText? f.tag = none := by
  cases f <;> decide

theorem CriterionTag.text_ne_tag (t : CriterionTag) (f : Field) : t.text ≠ f.tag := by
  intro h
  have ht := CriterionTag.ofText?_text t
  rw [h, CriterionTag.ofText?_tag] at ht
  cases ht

theorem denotes_text {t : CriterionTag} {params : List Value} {c : Criterion} :
    Denotes (headed t.text params) c ↔ TupleDenotes t params c := by
  constructor
  · intro h
    generalize hw : headed t.text params = w at h
    cases h with
    | criterion h =>
      obtain ⟨ht, rfl⟩ := headed_inj.mp hw
      rwa [CriterionTag.text_inj.mp ht]
    | field h => exact absurd (headed_inj.mp hw).1 (t.text_ne_tag _)
  · exact .criterion

theorem denotes_tag {f : Field} {params : List Value} {c : Criterion} :
    Denotes (headed f.tag params) c ↔ ∃ t, TestDenotes f params t ∧ c = .field t := by
  constructor
  · intro h
    generalize hw : headed f.tag params = w at h
    cases h with
    | criterion h => exact absurd (headed_inj.mp hw).1.symm (CriterionTag.text_ne_tag _ f)
    | field h =>
      obtain ⟨ht, rfl⟩ := headed_inj.mp hw
      exact ⟨_, Field.tag_inj.mp ht ▸ h, rfl⟩
  · rintro ⟨t, h, rfl⟩
    exact .field h

theorem operandDenotes_text {t : OperandTag} {params : List Value} {a : Operand} :
    OperandDenotes (headed t.text params) a ↔ OperandTupleDenotes t params a := by
  constructor
  · intro h
    generalize hw : headed t.text params = w at h
    cases h with
    | operand h =>
      obtain ⟨ht, rfl⟩ := headed_inj.mp hw
      rwa [OperandTag.text_inj.mp ht]
    | literal n => cases hw
    | field hf => cases hw
  · exact .operand

section Tags

variable {v w : Value} {params : List Value} {m : Criterion} {b : Operand}

theorem tupleDenotes_constant {holds : Bool} :
    TupleDenotes (.constant holds) [] m ↔ .constant holds = m := by
  constructor
  · rintro ⟨⟩
    rfl
  · rintro rfl
    exact .constant holds

theorem tupleDenotes_not : TupleDenotes .not [v] m ↔ ∃ c, Denotes v c ∧ .not c = m := by
  constructor
  · rintro ⟨⟩
    exact ⟨_, ‹_›, rfl⟩
  · rintro ⟨c, hc, rfl⟩
    exact .not hc

theorem tupleDenotes_junction {op : Connective} :
    TupleDenotes (.junction op) params m ↔
      ∃ cs, List.Forall₂ Denotes params cs ∧ ∃ d ds, cs = d :: ds ∧ .junction op d ds = m := by
  constructor
  · intro h
    cases h with
    | junction _ h => exact ⟨_, h, _, _, rfl, rfl⟩
  · rintro ⟨_, h, d, ds, rfl, rfl⟩
    exact .junction op h

theorem tupleDenotes_comparison {op : Comparison} :
    TupleDenotes (.comparison op) [v, w] m ↔
      ∃ a, OperandDenotes v a ∧ ∃ b, OperandDenotes w b ∧ .comparison op a b = m := by
  constructor
  · rintro ⟨⟩
    exact ⟨_, ‹_›, _, ‹_›, rfl⟩
  · rintro ⟨a, ha, b, hb, rfl⟩
    exact .comparison op ha hb

theorem operandTupleDenotes_unary {op : Unary} :
    OperandTupleDenotes (.unary op) [v] b ↔ ∃ a, OperandDenotes v a ∧ .unary op a = b := by
  constructor
  · rintro ⟨⟩
    exact ⟨_, ‹_›, rfl⟩
  · rintro ⟨a, ha, rfl⟩
    exact .unary op ha

theorem operandTupleDenotes_binary {op : Binary} {c : Operand} :
    OperandTupleDenotes (.binary op) [v, w] c ↔
      ∃ a, OperandDenotes v a ∧ ∃ b, OperandDenotes w b ∧ .binary op a b = c := by
  constructor
  · rintro ⟨⟩
    exact ⟨_, ‹_›, _, ‹_›, rfl⟩
  · rintro ⟨a, ha, b, hb, rfl⟩
    exact .binary op ha hb

theorem operandTupleDenotes_choice :
    OperandTupleDenotes .choice params b ↔
      ∃ as, ArmsDenote params as ∧
        ∃ first rest last, as = first :: (rest ++ [last]) ∧ .choice first rest last = b := by
  constructor
  · intro h
    cases h with
    | choice h => exact ⟨_, h, _, _, _, rfl, rfl⟩
  · rintro ⟨_, h, first, rest, last, rfl, rfl⟩
    exact .choice h

theorem armsDenote_nil_iff {as : List Arm} : ArmsDenote [] as ↔ [] = as := by
  constructor
  · rintro ⟨⟩
    rfl
  · rintro rfl
    exact .nil

theorem armsDenote_cons_iff {as : List Arm} :
    ArmsDenote (v :: w :: params) as ↔
      ∃ c, Denotes v c ∧ ∃ a, OperandDenotes w a ∧
        ∃ rest, ArmsDenote params rest ∧ .mk c a :: rest = as := by
  constructor
  · intro h
    cases h with
    | cons hc ha h => exact ⟨_, hc, _, ha, _, h, rfl⟩
  · rintro ⟨c, hc, a, ha, rest, h, rfl⟩
    exact .cons hc ha h

end Tags

section Inversion

variable {v : Value} {c : Criterion} {a b : Operand}

theorem Denotes.constant_inv {b : Bool} (h : Denotes v (.constant b)) :
    v = headed (CriterionTag.constant b).text [] := by
  cases h with
  | criterion h =>
    cases h
    rfl

theorem Denotes.not_inv (h : Denotes v (.not c)) :
    ∃ w, v = headed CriterionTag.not.text [w] ∧ Denotes w c := by
  cases h with
  | criterion h =>
    cases h with
    | not h => exact ⟨_, rfl, h⟩

theorem Denotes.junction_inv {op : Connective} {cs : List Criterion}
    (h : Denotes v (.junction op c cs)) :
    ∃ w ws, v = headed (CriterionTag.junction op).text (w :: ws) ∧ Denotes w c ∧
      List.Forall₂ Denotes ws cs := by
  cases h with
  | criterion h =>
    cases h with
    | junction _ h =>
      cases h with
      | cons h hs => exact ⟨_, _, rfl, h, hs⟩

theorem Denotes.comparison_inv {op : Comparison} (h : Denotes v (.comparison op a b)) :
    ∃ w x, v = headed (CriterionTag.comparison op).text [w, x] ∧ OperandDenotes w a ∧
      OperandDenotes x b := by
  cases h with
  | criterion h =>
    cases h with
    | comparison _ ha hb => exact ⟨_, _, rfl, ha, hb⟩

theorem Denotes.field_inv {t : FieldTest} (h : Denotes v (.field t)) :
    ∃ f params, v = headed (Field.tag f) params ∧ TestDenotes f params t := by
  cases h with
  | criterion h => cases h
  | field h => exact ⟨_, _, rfl, h⟩

theorem OperandDenotes.literal_inv {x : Double} (h : OperandDenotes v (.literal x)) :
    ∃ n : Number, v = .number n ∧ x = n.toDouble := by
  cases h with
  | literal n => exact ⟨n, rfl, rfl⟩
  | operand h => cases h

theorem OperandDenotes.read_inv {f : Field} (h : OperandDenotes v (.field f)) :
    v = .string f.tag ∧ f.group = .numeric := by
  cases h with
  | field hf => exact ⟨rfl, hf⟩
  | operand h => cases h

theorem OperandDenotes.binary_inv {op : Binary} (h : OperandDenotes v (.binary op a b)) :
    ∃ w x, v = headed (OperandTag.binary op).text [w, x] ∧ OperandDenotes w a ∧
      OperandDenotes x b := by
  cases h with
  | operand h =>
    cases h with
    | binary _ ha hb => exact ⟨_, _, rfl, ha, hb⟩

theorem OperandDenotes.unary_inv {op : Unary} (h : OperandDenotes v (.unary op a)) :
    ∃ w, v = headed (OperandTag.unary op).text [w] ∧ OperandDenotes w a := by
  cases h with
  | operand h =>
    cases h with
    | unary _ ha => exact ⟨_, rfl, ha⟩

theorem ArmsDenote.cons_inv {params : List Value} {a : Arm} {as : List Arm}
    (h : ArmsDenote params (a :: as)) :
    ∃ v w rest, params = [v, w] ++ rest ∧ ArmsDenote [v, w] [a] ∧ ArmsDenote rest as := by
  cases h with
  | cons hc ha has => exact ⟨_, _, _, rfl, .cons hc ha .nil, has⟩

theorem ArmsDenote.append_inv {params : List Value} {as bs : List Arm}
    (h : ArmsDenote params (as ++ bs)) :
    ∃ vs ws, params = vs ++ ws ∧ ArmsDenote vs as ∧ ArmsDenote ws bs := by
  induction as generalizing params with
  | nil => exact ⟨[], params, rfl, .nil, h⟩
  | cons a as ih =>
    cases h with
    | cons hc ha h =>
      obtain ⟨vs, ws, rfl, has, hbs⟩ := ih h
      exact ⟨_ :: _ :: vs, ws, rfl, .cons hc ha has, hbs⟩

theorem OperandDenotes.choice_inv {a b : Arm} {as : List Arm}
    (h : OperandDenotes v (.choice a as b)) :
    ∃ us vs ws, v = headed OperandTag.choice.text (us ++ (vs ++ ws)) ∧ ArmsDenote us [a] ∧
      ArmsDenote vs as ∧ ArmsDenote ws [b] := by
  cases h with
  | operand h =>
    cases h with
    | choice h =>
      obtain ⟨w, x, rest, rfl, ha, h⟩ := h.cons_inv
      obtain ⟨vs, ws, rfl, has, hb⟩ := h.append_inv
      exact ⟨[w, x], vs, ws, rfl, ha, has, hb⟩

theorem ArmsDenote.length_eq {params : List Value} {as : List Arm} (h : ArmsDenote params as) :
    params.length = 2 * as.length := by
  induction as generalizing params with
  | nil =>
    cases h
    rfl
  | cons a as ih =>
    cases h with
    | cons _ _ h => simp only [List.length_cons, ih h, Nat.mul_succ]

end Inversion

end Wire
end ScanCriteria
