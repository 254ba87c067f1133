/-!
# Fields

A field is what a criterion looks at. Plain fields hold one number, text, date or truth value; a
subbed field holds a family of values, told apart by a sub-field. A field has a label and a tag, its
spelling in wire tuples; the two differ only for `vwap` and `cfi`.
-/
namespace ScanCriteria

inductive Field where
  | auctionPrice | auctionQuantity | bestAskCount | bestAskPrice | bestAskQuantity | bestBidCount
  | bestBidPrice | bestBidQuantity | closePrice | contractSize | highPrice | lastPrice | lotSize
  | lowPrice | marketCap | openInterest | openPrice | previousClose | remainder | shareIssue
  | strikePrice | trades | value | volume | vwap
  | board | callOrPut | category | cfi | classification | code | currency | data | exchange
  | exerciseType | leg | market | name | quotationBasis | state | stateAllows | statusNote
  | tradingMarket
  | expiryDate
  | isIndex
  | price | date | altCode | attributes
  deriving DecidableEq, Inhabited, Repr

/-- The criteria that a field takes part in. -/
inductive FieldGroup where
  | numeric | text | date | boolean | subbed
  deriving DecidableEq, Repr

/-- The type of a field's value, or of its sub-fields' values. -/
inductive DataType where
  | numeric | text | date | boolean
  deriving DecidableEq, Repr

def DataType.label : DataType → String
  | numeric => "Numeric"
  | text => "Text"
  | date => "Date"
  | boolean => "Boolean"

namespace Field

def numericFields : List Field := [
  .auctionPrice, .auctionQuantity, .bestAskCount, .bestAskPrice, .bestAskQuantity, .bestBidCount,
  .bestBidPrice, .bestBidQuantity, .closePrice, .contractSize, .highPrice, .lastPrice, .lotSize,
  .lowPrice, .marketCap, .openInterest, .openPrice, .previousClose, .remainder, .shareIssue,
  .strikePrice, .trades, .value, .volume, .vwap]

def textFields : List Field := [
  .board, .callOrPut, .category, .cfi, .classification, .code, .currency, .data, .exchange,
  .exerciseType, .leg, .market, .name, .quotationBasis, .state, .stateAllows, .statusNote,
  .tradingMarket]

def dateFields : List Field := [.expiryDate]

def booleanFields : List Field := [.isIndex]

def subbedFields : List Field := [.price, .date, .altCode, .attributes]

/-- Every field once, the plain ones first. -/
def all : List Field :=
  numericFields ++ textFields ++ dateFields ++ booleanFields ++ subbedFields

def label : Field → String
  | auctionPrice => "AuctionPrice"
  | auctionQuantity => "AuctionQuantity"
  | bestAskCount => "BestAskCount"
  | bestAskPrice => "BestAskPrice"
  | bestAskQuantity => "BestAskQuantity"
  | bestBidCount => "BestBidCount"
  | bestBidPrice => "BestBidPrice"
  | bestBidQuantity => "BestBidQuantity"
  | closePrice => "ClosePrice"
  | contractSize => "ContractSize"
  | highPrice => "HighPrice"
  | lastPrice => "LastPrice"
  | lotSize => "LotSize"
  | lowPrice => "LowPrice"
  | marketCap => "MarketCap"
  | openInterest => "OpenInterest"
  | openPrice => "OpenPrice"
  | previousClose => "PreviousClose"
  | remainder => "Remainder"
  | shareIssue => "ShareIssue"
  | strikePrice => "StrikePrice"
  | trades => "Trades"
  | value => "Value"
  | volume => "Volume"
  | vwap => "Vwap"
  | board => "Board"
  | callOrPut => "CallOrPut"
  | category => "Category"
  | cfi => "Cfi"
  | classification => "Class"
  | code => "Code"
  | currency => "Currency"
  | data => "Data"
  | exchange => "Exchange"
  | exerciseType => "ExerciseType"
  | leg => "Leg"
  | market => "Market"
  | name => "Name"
  | quotationBasis => "QuotationBasis"
  | state => "State"
  | stateAllows => "StateAllows"
  | statusNote => "StatusNote"
  | tradingMarket => "TradingMarket"
  | expiryDate => "ExpiryDate"
  | isIndex => "IsIndex"
  | price => "Price"
  | date => "Date"
  | altCode => "AltCode"
  | attributes => "Attribute"

/-- The spelling of a field in wire tuples. -/
def tag : Field → String
  | vwap => "VWAP"
  | cfi => "CFI"
  | f => f.label

def group : Field → FieldGroup
  | price | date | altCode | attributes => .subbed
  | expiryDate => .date
  | isIndex => .boolean
  | board | callOrPut | category | cfi | classification | code | currency | data | exchange
  | exerciseType | leg | market | name | quotationBasis | state | stateAllows | statusNote
  | tradingMarket => .text
  | _ => .numeric

def dataType (f : Field) : DataType :=
  match f, f.group with
  | price, _ => .numeric
  | date, _ => .date
  | _, .numeric => .numeric
  | _, .date => .date
  | _, .boolean => .boolean
  | _, _ => .text

def isPlain (f : Field) : Bool := f.group != .subbed

def ofLabel? (s : String) : Option Field := all.find? (·.label == s)

def ofTag? (s : String) : Option Field := all.find? (·.tag == s)

/-- The field of a group that a tag spells. -/
def ofTagIn? (g : FieldGroup) (s : String) : Option Field := (ofTag? s).filter (·.group == g)

/-- The plain field that a tag spells. -/
def plainOfTag? (s : String) : Option Field := (ofTag? s).filter isPlain

theorem mem_all (f : Field) : f ∈ all := by cases f <;> decide

theorem ofLabel?_label (f : Field) : ofLabel? f.label = some f :=
  (by decide +kernel : ∀ g ∈ all, ofLabel? g.label = some g) f (mem_all f)

theorem ofTag?_tag (f : Field) : ofTag? f.tag = some f :=
  (by decide +kernel : ∀ g ∈ all, ofTag? g.tag = some g) f (mem_all f)

theorem tag_of_ofTag? {s : String} {f : Field} (h : ofTag? s = some f) : f.tag = s := by
  simpa using List.find?_some h

theorem tag_inj {f g : Field} : f.tag = g.tag ↔ f = g := by
  constructor
  · intro h
    have hf := ofTag?_tag f
    rw [h, ofTag?_tag] at hf
    exact (Option.some.inj hf).symm
  · rintro rfl
    rfl

theorem ofTagIn?_eq_some_iff {g : FieldGroup} {s : String} {f : Field} :
    ofTagIn? g s = some f ↔ f.group = g ∧ f.tag = s := by
  simp only [ofTagIn?, Option.filter_eq_some_iff, beq_iff_eq]
  constructor
  · rintro ⟨h, hc⟩
    exact ⟨hc, tag_of_ofTag? h⟩
  · rintro ⟨hc, rfl⟩
    exact ⟨ofTag?_tag f, hc⟩

end Field

def FieldGroup.label : FieldGroup → String
  | numeric => "numeric"
  | text => "text"
  | date => "date"
  | boolean => "boolean"
  | subbed => "subbed"

end ScanCriteria
