import ScanCriteria.Json.Value
import ScanCriteria.Number.Layout

/-!
# JSON text

`Value.text` writes a value without spaces and with its entries in their order. A string escapes
the quote, the backslash and the characters below the space, and nothing else, so no text of a value
holds a line break.
-/
namespace ScanCriteria.Json

/-- Numbers keep `.0`, are positional from `1e-5` up to `1e16`, and have a plus in a positive
exponent. -/
def numberLayout : Layout := ⟨-5, 15, ".0", "+"⟩

def Number.text : Number → String
  | integer i _ => toString i
  | real x _ => numberLayout.doubleText x

def hexDigit (n : Nat) : Char := Nat.digitChar (n % 16)

def escape (c : Char) : String :=
  if c = '"' then "\\\""
  else if c = '\\' then "\\\\"
  else if c = '\n' then "\\n"
  else if c = '\t' then "\\t"
  else if c = '\r' then "\\r"
  else if c = '\x08' then "\\b"
  else if c = '\x0c' then "\\f"
  else if c.toNat < 32 then "\\u00".push (hexDigit (c.toNat / 16)) |>.push (hexDigit c.toNat)
  else String.singleton c

/-- Appends a quoted string. -/
def quoteOnto (out : String) (s : String) : String :=
  (s.toList.foldl (fun out c => out ++ escape c) (out.push '"')).push '"'

namespace Value

mutual
/-- Appends the text of a value. -/
def writeOnto (out : String) : Value → String
  | null => out ++ "null"
  | bool b => out ++ (if b then "true" else "false")
  | number n => out ++ n.text
  | string s => quoteOnto out s
  | array items => (writeItems (out.push '[') "" items).push ']'
  | object entries => (writeEntries (out.push '\x7b') "" entries).push '\x7d'

def writeItems (out : String) (separator : String) : List Value → String
  | [] => out
  | v :: rest => writeItems (writeOnto (out ++ separator) v) "," rest

def writeEntries (out : String) (separator : String) : List (String × Value) → String
  | [] => out
  | (k, v) :: rest =>
    writeEntries (writeOnto ((quoteOnto (out ++ separator) k).push ':') v) "," rest
end

def text (v : Value) : String := writeOnto "" v

end Value
end ScanCriteria.Json
