import ScanCriteria.Json.Text

/-!
# Texts of values

The text of an object is made of the texts of its entries. The text of a value is a single line,
whatever its strings and keys hold: a line feed in one of them is written as an escape, and nothing
else that is written has one.
-/
namespace ScanCriteria

def OneLine (s : String) : Prop := '\n' ∉ s.toList

namespace OneLine

instance (s : String) : Decidable (OneLine s) := inferInstanceAs (Decidable ('\n' ∉ s.toList))

@[simp] theorem append_iff (s t : String) : OneLine (s ++ t) ↔ OneLine s ∧ OneLine t := by
  simp [OneLine]

@[simp] theorem push_iff (s : String) (c : Char) : OneLine (s.push c) ↔ OneLine s ∧ c ≠ '\n' := by
  simp [OneLine, eq_comm]

@[simp] theorem ofList_iff (cs : List Char) : OneLine (String.ofList cs) ↔ '\n' ∉ cs := by
  simp [OneLine]

theorem empty : OneLine "" := by decide

theorem pushn {s : String} (hs : OneLine s) {c : Char} (hc : c ≠ '\n') (n : Nat) :
    OneLine (s.pushn c n) := by
  rw [String.pushn_eq_repeat_push]
  induction n with
  | zero => exact hs
  | succ n ih => exact (push_iff _ c).mpr ⟨ih, hc⟩

theorem ite {p : Prop} [Decidable p] {s t : String} (hs : OneLine s) (ht : OneLine t) :
    OneLine (if p then s else t) := by
  split
  · exact hs
  · exact ht

theorem not_mem_toDigits (n : Nat) : '\n' ∉ Nat.toDigits 10 n := fun h =>
  absurd (Nat.isDigit_of_mem_toDigits (by decide) (by decide) h) (by decide)

theorem natText (n : Nat) : OneLine (toString n) := (ofList_iff _).mpr (not_mem_toDigits n)

theorem intText (i : Int) : OneLine (toString i) := by
  cases i with
  | ofNat n => exact natText n
  | negSucc n => exact (append_iff "-" _).mpr ⟨by decide, natText (n + 1)⟩

end OneLine

namespace Layout

/-- Nothing that the layout puts around the digits breaks the line. -/
structure Plain (l : Layout) : Prop where
  wholeTail : OneLine l.wholeTail
  plus : OneLine l.plus

variable {l : Layout} {ds : List Char}

theorem Plain.positional (h : l.Plain) (hds : '\n' ∉ ds) (e : Int) :
    OneLine (l.positional ds e) := by
  have hzeros (n : Nat) : OneLine (zeros n) := .pushn .empty (by decide) n
  have htake (n : Nat) : '\n' ∉ ds.take n := fun hc => hds (List.mem_of_mem_take hc)
  have hdrop (n : Nat) : '\n' ∉ ds.drop n := fun hc => hds (List.mem_of_mem_drop hc)
  refine .ite ?_ (.ite ?_ ?_)
  · simpa [hzeros, hds] using (by decide : OneLine "0.")
  · simp [hzeros, hds, h.wholeTail]
  · simpa [htake, hdrop] using (by decide : OneLine ".")

theorem Plain.scientific (h : l.Plain) (hds : '\n' ∉ ds) (e : Int) :
    OneLine (l.scientific ds e) := by
  have htake : '\n' ∉ ds.take 1 := fun hc => hds (List.mem_of_mem_take hc)
  have hdrop : '\n' ∉ ds.drop 1 := fun hc => hds (List.mem_of_mem_drop hc)
  have hfraction : OneLine (if (ds.drop 1).isEmpty then ""
      else "." ++ String.ofList (ds.drop 1)) :=
    .ite .empty ((OneLine.append_iff _ _).mpr ⟨by decide, (OneLine.ofList_iff _).mpr hdrop⟩)
  have hsign : OneLine (if e < 0 then "-" else l.plus) := .ite (by decide) h.plus
  have hmark : OneLine "e" := by decide
  simpa only [Layout.scientific, OneLine.append_iff, OneLine.ofList_iff] using
    ⟨⟨⟨⟨htake, hfraction⟩, hmark⟩, hsign⟩, .natText _⟩

theorem Plain.doubleText (h : l.Plain) (x : Double) : OneLine (l.doubleText x) := by
  have hds := OneLine.not_mem_toDigits x.shortest.digits
  exact (OneLine.append_iff _ _).mpr
    ⟨.ite (by decide) (by decide), .ite (h.positional hds _) (h.scientific hds _)⟩

end Layout

namespace Json

theorem Number.oneLine_text (n : Number) : OneLine n.text := by
  cases n with
  | integer i _ => exact .intText i
  | real x _ =>
    have hplain : numberLayout.Plain := ⟨by decide, by decide⟩
    exact hplain.doubleText x

theorem hexDigit_ne (n : Nat) : hexDigit n ≠ '\n' := by
  have h : n % 16 < 16 := Nat.mod_lt _ (by decide)
  rw [hexDigit]
  generalize n % 16 = d at h
  revert d
  decide

theorem oneLine_escape (c : Char) : OneLine (escape c) := by
  by_cases hc : c = '\n'
  · subst hc
    decide
  · have hcode : OneLine (("\\u00".push (hexDigit (c.toNat / 16))).push (hexDigit c.toNat)) := by
      simpa [hexDigit_ne] using (by decide : OneLine "\\u00")
    have hself : OneLine (String.singleton c) := by simpa [OneLine, eq_comm] using hc
    rw [escape]
    repeat refine .ite (by decide) ?_
    exact .ite hcode hself

theorem oneLine_quoteOnto {out : String} (hout : OneLine out) (s : String) :
    OneLine (quoteOnto out s) := by
  have hfold (cs : List Char) (out : String) (hout : OneLine out) :
      OneLine (cs.foldl (fun out c => out ++ escape c) out) := by
    induction cs generalizing out with
    | nil => exact hout
    | cons c cs ih => exact ih _ ((OneLine.append_iff _ _).mpr ⟨hout, oneLine_escape c⟩)
  simpa [Json.quoteOnto] using hfold s.toList (out.push '"') (by simpa using hout)

namespace Value

mutual

theorem oneLine_writeOnto {out : String} (hout : OneLine out) :
    (v : Value) → OneLine (writeOnto out v)
  | null => by simpa [writeOnto, hout] using (by decide : OneLine "null")
  | bool b => by
    have hb : OneLine (if b then "true" else "false") := .ite (by decide) (by decide)
    simpa only [writeOnto, OneLine.append_iff] using ⟨hout, hb⟩
  | number n => by
    simpa only [writeOnto, OneLine.append_iff] using ⟨hout, n.oneLine_text⟩
  | string s => by
    rw [writeOnto]
    exact oneLine_quoteOnto hout s
  | array items => by
    have hopen : OneLine (out.push '[') := (OneLine.push_iff out _).mpr ⟨hout, by decide⟩
    have hitems := oneLine_writeItems hopen .empty items
    simpa [writeOnto] using hitems
  | object entries => by
    have hopen : OneLine (out.push '\x7b') := (OneLine.push_iff out _).mpr ⟨hout, by decide⟩
    have hentries := oneLine_writeEntries hopen .empty entries
    simpa [writeOnto] using hentries

theorem oneLine_writeItems {out separator : String} (hout : OneLine out)
    (hseparator : OneLine separator) : (vs : List Value) → OneLine (writeItems out separator vs)
  | [] => by simpa only [writeItems] using hout
  | v :: rest => by
    rw [writeItems]
    have hv := oneLine_writeOnto ((OneLine.append_iff _ _).mpr ⟨hout, hseparator⟩) v
    exact oneLine_writeItems hv (by decide : OneLine ",") rest

theorem oneLine_writeEntries {out separator : String} (hout : OneLine out)
    (hseparator : OneLine separator) :
    (es : List (String × Value)) → OneLine (writeEntries out separator es)
  | [] => by simpa only [writeEntries] using hout
  | (k, v) :: rest => by
    rw [writeEntries]
    have hk := oneLine_quoteOnto ((OneLine.append_iff _ _).mpr ⟨hout, hseparator⟩) k
    have hv := oneLine_writeOnto ((OneLine.push_iff _ ':').mpr ⟨hk, by decide⟩) v
    exact oneLine_writeEntries hv (by decide : OneLine ",") rest

end

theorem oneLine_text (v : Value) : OneLine v.text := oneLine_writeOnto .empty v

theorem quoteOnto_eq (out s : String) : quoteOnto out s = out ++ (string s).text := by
  have hfold (cs : List Char) (out : String) :
      cs.foldl (fun out c => out ++ escape c) out = out ++ String.join (cs.map escape) := by
    induction cs generalizing out with
    | nil => simp
    | cons c cs ih => rw [List.foldl_cons, ih, List.map_cons, String.join_cons, String.append_assoc]
  simp only [text, writeOnto, Json.quoteOnto, hfold]
  simp [String.push_eq_append, String.append_assoc]

mutual

/-- Writing a value appends its text. -/
theorem writeOnto_eq (out : String) : (v : Value) → writeOnto out v = out ++ v.text
  | null | bool b | number n => by simp [writeOnto, text]
  | string s => by rw [writeOnto, quoteOnto_eq]
  | array items => by
    rw [text, writeOnto, writeOnto, writeItems_eq, writeItems_eq ("".push '[')]
    simp [String.push_eq_append, String.append_assoc]
  | object entries => by
    rw [text, writeOnto, writeOnto, writeEntries_eq, writeEntries_eq ("".push '\x7b')]
    simp [String.push_eq_append, String.append_assoc]

theorem writeItems_eq (out separator : String) :
    (vs : List Value) → writeItems out separator vs = out ++ writeItems "" separator vs
  | [] => by simp [writeItems]
  | v :: rest => by
    rw [writeItems, writeItems, writeItems_eq, writeItems_eq (writeOnto ("" ++ separator) v),
      writeOnto_eq, writeOnto_eq ("" ++ separator)]
    simp [String.append_assoc]

theorem writeEntries_eq (out separator : String) : (es : List (String × Value)) →
    writeEntries out separator es = out ++ writeEntries "" separator es
  | [] => by simp [writeEntries]
  | (k, v) :: rest => by
    rw [writeEntries, writeEntries, writeEntries_eq,
      writeEntries_eq (writeOnto ((quoteOnto ("" ++ separator) k).push ':') v), writeOnto_eq,
      writeOnto_eq ((quoteOnto ("" ++ separator) k).push ':'), quoteOnto_eq,
      quoteOnto_eq ("" ++ separator)]
    simp [String.push_eq_append, String.append_assoc]

end

def entryText (e : String × Value) : String := (string e.1).text ++ ":" ++ e.2.text

theorem writeEntries_cons (separator : String) (e : String × Value) (es : List (String × Value)) :
    writeEntries "" separator (e :: es) = separator ++ entryText e ++ writeEntries "" "," es := by
  rw [writeEntries, writeEntries_eq, writeOnto_eq, quoteOnto_eq]
  simp [entryText, String.push_eq_append, String.append_assoc]

theorem text_object (es : List (String × Value)) :
    (object es).text = "\x7b" ++ String.intercalate "," (es.map entryText) ++ "\x7d" := by
  have hentries : writeEntries "" "" es = String.intercalate "," (es.map entryText) := by
    cases es with
    | nil => simp [writeEntries]
    | cons e es =>
      rw [writeEntries_cons, String.empty_append, List.map_cons]
      induction es generalizing e with
      | nil => simp [writeEntries]
      | cons e' es ih =>
        rw [writeEntries_cons, List.map_cons, String.intercalate_cons_cons, ← ih]
        simp [String.append_assoc]
  rw [text, writeOnto, writeEntries_eq, hentries]
  simp [String.push_eq_append]

theorem ofInt_of_integer? {i : Int} {m : Number} (h : Number.integer? i = some m) :
    ofInt i = number m := by
  rw [ofInt, h]

theorem ofNat_eq_ofInt (n : Nat) : ofNat n = ofInt n := rfl

theorem text_ofNat {n : Nat} (h : n < (1 <<< 64 : Nat)) : (ofNat n).text = toString n := by
  have hfits : -(1 <<< 63 : Nat) ≤ (n : Int) ∧ (n : Int) < (1 <<< 64 : Nat) := by
    constructor <;> omega
  have hinteger : Number.integer? n = some (.integer n hfits) := dif_pos hfits
  rw [ofNat_eq_ofInt, ofInt_of_integer? hinteger, text, writeOnto, String.empty_append]
  rfl

end Value
end Json
end ScanCriteria
