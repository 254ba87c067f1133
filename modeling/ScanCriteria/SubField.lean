/-!
# Sub-fields

Each subbed field has sub-fields of its own. A sub-field has a label and a wire spelling, which
differ where the spelling is an abbreviation in capitals.
-/
namespace ScanCriteria

inductive PriceSubField where
  | last
  deriving DecidableEq, Inhabited, Repr

inductive DateSubField where
  | dividend
  deriving DecidableEq, Inhabited, Repr

inductive AltCode where
  | ticker | isin | base | gics | ric | short | long | uid
  deriving DecidableEq, Inhabited, Repr

inductive Attribute where
  | category | classification | delivery | sector | short | shortSuspended | subSector | maxRss
  deriving DecidableEq, Inhabited, Repr

/-- Where the text of a contains criterion has to stand. -/
inductive Anchor where
  | anywhere | fromStart | fromEnd | exact
  deriving DecidableEq, Inhabited, Repr

namespace PriceSubField

def all : List PriceSubField := [last]

def label : PriceSubField → String
  | last => "Last"

def ofLabel? (s : String) : Option PriceSubField := all.find? (·.label == s)

theorem ofLabel?_eq_some_iff {s : String} {a : PriceSubField} :
    ofLabel? s = some a ↔ a.label = s := by
  constructor
  · intro h
    simpa using List.find?_some h
  · rintro rfl
    cases a
    decide +kernel

end PriceSubField

namespace DateSubField

def all : List DateSubField := [dividend]

def label : DateSubField → String
  | dividend => "Dividend"

def ofLabel? (s : String) : Option DateSubField := all.find? (·.label == s)

theorem ofLabel?_eq_some_iff {s : String} {a : DateSubField} :
    ofLabel? s = some a ↔ a.label = s := by
  constructor
  · intro h
    simpa using List.find?_some h
  · rintro rfl
    cases a
    decide +kernel

end DateSubField

namespace AltCode

def all : List AltCode := [ticker, isin, base, gics, ric, short, long, uid]

def label : AltCode → String
  | ticker => "Ticker"
  | isin => "Isin"
  | base => "Base"
  | gics => "Gics"
  | ric => "Ric"
  | short => "Short"
  | long => "Long"
  | uid => "Uid"

def tag : AltCode → String
  | isin => "ISIN"
  | gics => "GICS"
  | ric => "RIC"
  | uid => "UID"
  | a => a.label

def ofLabel? (s : String) : Option AltCode := all.find? (·.label == s)

def ofTag? (s : String) : Option AltCode := all.find? (·.tag == s)

theorem ofLabel?_label (a : AltCode) : ofLabel? a.label = some a := by cases a <;> decide +kernel

theorem ofTag?_tag (a : AltCode) : ofTag? a.tag = some a := by cases a <;> decide +kernel

theorem tag_of_ofTag? {s : String} {a : AltCode} (h : ofTag? s = some a) : a.tag = s := by
  simpa using List.find?_some h

theorem ofTag?_eq_some_iff {s : String} {a : AltCode} : ofTag? s = some a ↔ a.tag = s :=
  ⟨tag_of_ofTag?, fun h => h ▸ ofTag?_tag a⟩

end AltCode

namespace Attribute

def all : List Attribute :=
  [category, classification, delivery, sector, short, shortSuspended, subSector, maxRss]

def label : Attribute → String
  | category => "Category"
  | classification => "Class"
  | delivery => "Delivery"
  | sector => "Sector"
  | short => "Short"
  | shortSuspended => "ShortSuspended"
  | subSector => "SubSector"
  | maxRss => "MaxRss"

def tag : Attribute → String
  | maxRss => "MaxRSS"
  | a => a.label

def ofLabel? (s : String) : Option Attribute := all.find? (·.label == s)

def ofTag? (s : String) : Option Attribute := all.find? (·.tag == s)

theorem ofLabel?_label (a : Attribute) : ofLabel? a.label = some a := by cases a <;> decide +kernel

theorem ofTag?_tag (a : Attribute) : ofTag? a.tag = some a := by cases a <;> decide +kernel

theorem tag_of_ofTag? {s : String} {a : Attribute} (h : ofTag? s = some a) : a.tag = s := by
  simpa using List.find?_some h

theorem ofTag?_eq_some_iff {s : String} {a : Attribute} : ofTag? s = some a ↔ a.tag = s :=
  ⟨tag_of_ofTag?, fun h => h ▸ ofTag?_tag a⟩

end Attribute

namespace Anchor

def all : List Anchor := [anywhere, fromStart, fromEnd, exact]

def label : Anchor → String
  | anywhere => "None"
  | fromStart => "FromStart"
  | fromEnd => "FromEnd"
  | exact => "Exact"

def ofLabel? (s : String) : Option Anchor := all.find? (·.label == s)

theorem ofLabel?_label (a : Anchor) : ofLabel? a.label = some a := by cases a <;> decide +kernel

theorem label_of_ofLabel? {s : String} {a : Anchor} (h : ofLabel? s = some a) : a.label = s := by
  simpa using List.find?_some h

end Anchor
end ScanCriteria
