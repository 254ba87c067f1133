import ScanCriteria.Criterion.Document
import ScanCriteria.Proofs.Calendar.Instant
import ScanCriteria.Proofs.Criterion.Tests

/-!
# Reading field tests back from documents

The document of a field test is read as the test, without the bounds that are not finite: in a
document `null` is no bound. It is refused if the value of a target is not finite, since `null` is
no number.
-/
namespace ScanCriteria
open Json

/-- A bound may be lost, a value may not. -/
def Target.Legible (keep : α → Bool) : Target α → Prop
  | equals x => keep x = true
  | inRange _ => True

instance {keep : α → Bool} : DecidablePred (Target.Legible keep)
  | .equals x => inferInstanceAs (Decidable (keep x = true))
  | .inRange _ => inferInstanceAs (Decidable True)

def FieldTest.Legible : FieldTest → Prop
  | numeric _ t | price _ (some t) => t.Legible Double.isFinite
  | _ => True

instance : DecidablePred FieldTest.Legible
  | .numeric _ t | .price _ (some t) => inferInstanceAs (Decidable (t.Legible Double.isFinite))
  | .hasValue _ | .boolean _ _ | .date _ _ | .text _ _ | .price _ none | .dated _ _
  | .altCode _ _ | .attributes _ _ => inferInstanceAs (Decidable True)

namespace Document

variable {α β : Type} {read : Value → Option α} {f : α → Value} {keep : α → Bool}
  {es : Entries Value}

/-- What is written by `f` is read back if it is kept, and is `null` if it is not. -/
structure ReadsBack (read : Value → Option α) (f : α → Value) (keep : α → Bool) : Prop where
  read_eq : ∀ x, read (f x) = if keep x then some x else none
  isNull_eq : ∀ x, (f x).isNull = !keep x

theorem readsBack_number : ReadsBack number? .ofDouble Double.isFinite where
  read_eq x := by
    obtain ⟨hx, h⟩ | ⟨hx, h⟩ := Value.ofDouble_cases x <;> rw [h, hx] <;> rfl
  isNull_eq x := by
    obtain ⟨hx, h⟩ | ⟨hx, h⟩ := Value.ofDouble_cases x <;> rw [h, hx] <;> rfl

theorem readsBack_moment : ReadsBack moment? Moment.document fun _ => true where
  read_eq a := a.readInstant?_text
  isNull_eq _ := rfl

theorem bound?_of_find? {key : String} {v : Value} (h : Entries.find? key es = some v) :
    bound? read key es = if v.isNull then some none else (read v).map some := by
  rw [bound?, h]
  cases v <;> rfl

namespace ReadsBack

variable (hf : ReadsBack read f keep)
include hf

theorem bound?_eq {key : String} {o : Option α}
    (h : Entries.find? key es = some (boundDocument f o)) :
    bound? read key es = some (o.filter keep) := by
  rw [bound?_of_find? h]
  cases o with
  | none => rfl
  | some x =>
    rw [boundDocument, hf.isNull_eq, hf.read_eq]
    cases hx : keep x <;> simp [Option.filter, hx]

theorem equals?_eq {x : α} (h : Entries.find? "target" es = some (f x)) :
    equals? read es = if keep x then some (.equals x) else none := by
  rw [equals?, h, Option.bind_eq_bind, Option.bind_some, hf.read_eq]
  split <;> rfl

theorem inRange?_eq {b : Bounds α} (hmin : Entries.find? "min" es = some (boundDocument f b.min))
    (hmax : Entries.find? "max" es = some (boundDocument f b.max)) :
    inRange? read es = some (.inRange (b.filter keep)) := by
  rw [inRange?, hf.bound?_eq hmin, hf.bound?_eq hmax]
  rfl

end ReadsBack

/-- Something is read just when `ok` holds, and it is `a` then. -/
structure ReadsAs (x : Option α) (ok : Prop) (a : α) : Prop where
  eq_some_iff : ∀ b, x = some b ↔ ok ∧ b = a

namespace ReadsAs

variable {x : Option α} {ok ok' : Prop} {a : α} {b : β}

theorem pure (a : α) : ReadsAs (some a) True a := ⟨fun b => by simp [eq_comm]⟩

theorem ofKept (keep : Bool) (a : α) :
    ReadsAs (if keep then some a else none) (keep = true) a :=
  ⟨fun b => by cases keep <;> simp [eq_comm]⟩

theorem congr (h : ReadsAs x ok a) (hok : ok ↔ ok') : ReadsAs x ok' a :=
  ⟨fun b => by rw [h.eq_some_iff, hok]⟩

theorem bind {f : α → Option β} (hx : ReadsAs x ok a) (hf : ReadsAs (f a) ok' b) :
    ReadsAs (x >>= f) (ok ∧ ok') b where
  eq_some_iff c := by
    simp only [Option.bind_eq_bind, Option.bind_eq_some_iff, hx.eq_some_iff]
    constructor
    · rintro ⟨a, ⟨hok, rfl⟩, hc⟩
      obtain ⟨hok', hcb⟩ := (hf.eq_some_iff c).mp hc
      exact ⟨⟨hok, hok'⟩, hcb⟩
    · rintro ⟨⟨hok, hok'⟩, hcb⟩
      exact ⟨a, ⟨hok, rfl⟩, (hf.eq_some_iff c).mpr ⟨hok', hcb⟩⟩

theorem map (h : ReadsAs x ok a) (g : α → β) : ReadsAs (x.map g) ok (g a) where
  eq_some_iff c := by
    simp only [Option.map_eq_some_iff, h.eq_some_iff]
    constructor
    · rintro ⟨_, ⟨hok, rfl⟩, rfl⟩
      exact ⟨hok, rfl⟩
    · rintro ⟨hok, rfl⟩
      exact ⟨a, ⟨hok, rfl⟩, rfl⟩

theorem into (h : ReadsAs x ok a) (g : α → β) :
    ReadsAs (x >>= fun a => Pure.pure (g a)) ok (g a) := by
  rw [bind_pure_comp]
  exact h.map g

end ReadsAs

/-- The value of a target decides whether it is read. -/
theorem ReadsBack.equals (hf : ReadsBack read f keep) {x : α}
    (h : Entries.find? "target" es = some (f x)) :
    ReadsAs (equals? read es) ((Target.equals x).Legible keep) ((Target.equals x).filter keep) := by
  rw [hf.equals?_eq h]
  exact .ofKept (keep x) _

theorem ReadsBack.inRange (hf : ReadsBack read f keep) {b : Bounds α}
    (hmin : Entries.find? "min" es = some (boundDocument f b.min))
    (hmax : Entries.find? "max" es = some (boundDocument f b.max)) :
    ReadsAs (inRange? read es) ((Target.inRange b).Legible keep)
      ((Target.inRange b).filter keep) := by
  rw [hf.inRange?_eq hmin hmax]
  exact .pure _

/-- A reading of what is always there. -/
theorem ReadsAs.after {x : Option α} {a : α} {g : α → Option β} {ok : Prop} {b : β}
    (hx : x = some a) (hg : ReadsAs (g a) ok b) : ReadsAs (x >>= g) ok b := by
  rwa [hx]

theorem field?_eq {f : Field} (h : Entries.find? "field_id" es = some (.string f.label)) :
    field? es = some f := by
  rw [field?, h]
  exact f.ofLabel?_label

theorem sub?_eq {σ : Type} {ofLabel? : String → Option σ} {label : String} {s : σ}
    (h : Entries.find? "sub_field_id" es = some (.string label)) (hs : ofLabel? label = some s) :
    sub? ofLabel? es = some s := by
  rw [sub?, h]
  exact hs

theorem pattern?_eq {p : TextMatch} (hvalue : Entries.find? "value" es = some (.string p.value))
    (has : Entries.find? "as_id" es = some (.string p.anchor.label))
    (hcase : Entries.find? "ignore_case" es = some (.bool p.ignoreCase)) :
    pattern? es = some p := by
  have hname : name? (.string p.anchor.label) = some p.anchor.label := rfl
  simp only [pattern?, string?, bool?, hvalue, has, hcase, hname, p.anchor.ofLabel?_label,
    Option.bind_eq_bind, Option.bind_some, Option.pure_def]

theorem equals?_moment {a : Moment} (h : Entries.find? "target" es = some a.document) :
    equals? moment? es = some (.equals a) := readsBack_moment.equals?_eq h

theorem inRange?_moment {b : Bounds Moment}
    (hmin : Entries.find? "min" es = some (boundDocument Moment.document b.min))
    (hmax : Entries.find? "max" es = some (boundDocument Moment.document b.max)) :
    inRange? moment? es = some (.inRange b) :=
  (readsBack_moment.inRange?_eq hmin hmax).trans (congrArg some (Target.filter_true (.inRange b)))

theorem fieldTest?_documentEntries (t : FieldTest) (typeId : Value) :
    ReadsAs (fieldTest? t.kind (("typeId", typeId) :: t.documentEntries)) t.Legible
      t.withFiniteBounds := by
  cases t with
  | hasValue f => exact .after (field?_eq rfl) (.pure _)
  | boolean f b => exact .after (field?_eq rfl) (.pure _)
  | numeric f t =>
    cases t with
    | equals x =>
      refine .after (field?_eq rfl) (.into ?_ (FieldTest.numeric f))
      exact readsBack_number.equals rfl
    | inRange b =>
      refine .after (field?_eq rfl) (.into ?_ (FieldTest.numeric f))
      exact readsBack_number.inRange rfl rfl
  | date f t =>
    cases t with
    | equals a => exact .after (field?_eq rfl) (.after (equals?_moment rfl) (.pure _))
    | inRange b => exact .after (field?_eq rfl) (.after (inRange?_moment rfl rfl) (.pure _))
  | text f p => exact .after (field?_eq rfl) (.after (pattern?_eq rfl rfl rfl) (.pure _))
  | price s t =>
    have hs := PriceSubField.ofLabel?_eq_some_iff.mpr (rfl : s.label = s.label)
    rcases t with _ | x | b
    · exact .after (sub?_eq rfl hs) (.pure _)
    · refine .after (sub?_eq rfl hs) (.into ?_ fun t => FieldTest.price s (some t))
      exact readsBack_number.equals rfl
    · refine .after (sub?_eq rfl hs) (.into ?_ fun t => FieldTest.price s (some t))
      exact readsBack_number.inRange rfl rfl
  | dated s t =>
    have hs := DateSubField.ofLabel?_eq_some_iff.mpr (rfl : s.label = s.label)
    rcases t with _ | a | b
    · exact .after (sub?_eq rfl hs) (.pure _)
    · exact .after (sub?_eq rfl hs) (.after (equals?_moment rfl) (.pure _))
    · exact .after (sub?_eq rfl hs) (.after (inRange?_moment rfl rfl) (.pure _))
  | altCode s p =>
    have hs := s.ofLabel?_label
    cases p with
    | none => exact .after (sub?_eq rfl hs) (.pure _)
    | some p => exact .after (sub?_eq rfl hs) (.after (pattern?_eq rfl rfl rfl) (.pure _))
  | attributes s p =>
    have hs := s.ofLabel?_label
    cases p with
    | none => exact .after (sub?_eq rfl hs) (.pure _)
    | some p => exact .after (sub?_eq rfl hs) (.after (pattern?_eq rfl rfl rfl) (.pure _))

end Document
end ScanCriteria
