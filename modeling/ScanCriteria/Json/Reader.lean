import ScanCriteria.Json.Numeral

/-!
# Reading JSON text

`Value.read?` accepts strict JSON: one value, spaces around its tokens, nothing after it, at most
`depth` arrays and objects open at once. Of equal keys in an object the last one counts, and the
entries come out sorted by key.
-/
namespace ScanCriteria.Json

namespace Reader
open ScanCriteria.Reader

def isSpace (c : Char) : Bool := c == ' ' || c == '\n' || c == '\t' || c == '\r'

def skipSpace (cs : List Char) : List Char := cs.dropWhile isSpace

def literal (text : List Char) (v : α) : Reader α := fun cs =>
  if text.isPrefixOf cs then some (v, cs.drop text.length) else none

/-- A lone zero, or digits that do not start with one. -/
def whole : Reader (List Char) := fun cs =>
  match digits cs with
  | ([], _) => none
  | ('0' :: _ :: _, _) => none
  | (ds, rest) => some (ds, rest)

def fraction : Reader (List Char) := fun cs =>
  match cs with
  | '.' :: rest =>
    match digits rest with
    | ([], _) => none
    | (ds, rest) => some (ds, rest)
  | _ => some ([], cs)

def signed (cs : List Char) : Bool × List Char :=
  match cs with
  | '+' :: rest => (false, rest)
  | '-' :: rest => (true, rest)
  | _ => (false, cs)

def power : Reader (Option Int) := fun cs =>
  match cs with
  | c :: rest =>
    if c = 'e' ∨ c = 'E' then
      let (negative, rest) := signed rest
      match digits rest with
      | ([], _) => none
      | (ds, rest) =>
        let n : Int := digitsValue ds
        some (some (if negative then -n else n), rest)
    else some (none, cs)
  | [] => some (none, cs)

def number : Reader Number := fun cs => do
  let (negative, cs) := match cs with
    | '-' :: rest => (true, rest)
    | _ => (false, cs)
  let (w, cs) ← whole cs
  let (f, cs) ← fraction cs
  let (p, cs) ← power cs
  let n ← Numeral.toNumber? ⟨negative, w, f, p⟩
  return (n, cs)

def hexValue? (c : Char) : Option Nat :=
  if c.isDigit then some (c.toNat - '0'.toNat)
  else if 'a' ≤ c ∧ c ≤ 'f' then some (c.toNat - 'a'.toNat + 10)
  else if 'A' ≤ c ∧ c ≤ 'F' then some (c.toNat - 'A'.toNat + 10)
  else none

def hexUnit : Reader Nat
  | a :: b :: c :: d :: rest => do
    let a ← hexValue? a
    let b ← hexValue? b
    let c ← hexValue? c
    let d ← hexValue? d
    return (((a * 16 + b) * 16 + c) * 16 + d, rest)
  | _ => none

/-- The character of a `\u` escape, which may take a second one as the low half of a pair. -/
def unicodeEscape : Reader Char := fun cs => do
  let (u, rest) ← hexUnit cs
  if 0xD800 ≤ u ∧ u < 0xDC00 then
    match rest with
    | '\\' :: 'u' :: rest =>
      let (l, rest) ← hexUnit rest
      if 0xDC00 ≤ l ∧ l < 0xE000 then
        return (Char.ofNat (0x10000 + (u - 0xD800) * 0x400 + (l - 0xDC00)), rest)
      else none
    | _ => none
  else if 0xDC00 ≤ u ∧ u < 0xE000 then none
  else return (Char.ofNat u, rest)

def escaped : Reader Char
  | '"' :: rest => some ('"', rest)
  | '\\' :: rest => some ('\\', rest)
  | '/' :: rest => some ('/', rest)
  | 'b' :: rest => some ('\x08', rest)
  | 'f' :: rest => some ('\x0c', rest)
  | 'n' :: rest => some ('\n', rest)
  | 'r' :: rest => some ('\r', rest)
  | 't' :: rest => some ('\t', rest)
  | 'u' :: rest => unicodeEscape rest
  | _ => none

/-- The characters up to the closing quote; each step takes one off the fuel and at least one off
the text. -/
def stringTail : Nat → String → Reader String
  | 0, _, _ => none
  | _ + 1, _, [] => none
  | fuel + 1, out, c :: rest =>
    if c = '"' then some (out, rest)
    else if c = '\\' then do
      let (d, rest) ← escaped rest
      stringTail fuel (out.push d) rest
    else if c.toNat < 32 then none
    else stringTail fuel (out.push c) rest

def string : Reader String := fun cs =>
  match cs with
  | '"' :: rest => stringTail rest.length "" rest
  | _ => none

/-- The items after the first one, up to the closing bracket, in reverse. -/
def itemsTail (item : Reader Value) : Nat → List Value → Reader (List Value)
  | 0, _, _ => none
  | fuel + 1, acc, cs =>
    match skipSpace cs with
    | ']' :: rest => some (acc, rest)
    | ',' :: rest => do
      let (v, rest) ← item (skipSpace rest)
      itemsTail item fuel (v :: acc) rest
    | _ => none

def items (item : Reader Value) : Reader (List Value) := fun cs =>
  match skipSpace cs with
  | ']' :: rest => some ([], rest)
  | cs => do
    let (v, rest) ← item cs
    let (vs, rest) ← itemsTail item (rest.length + 1) [v] rest
    return (vs.reverse, rest)

def entry (item : Reader Value) : Reader (String × Value) := fun cs => do
  let (k, rest) ← string (skipSpace cs)
  match skipSpace rest with
  | ':' :: rest =>
    let (v, rest) ← item (skipSpace rest)
    return ((k, v), rest)
  | _ => none

def entriesTail (item : Reader Value) :
    Nat → List (String × Value) → Reader (List (String × Value))
  | 0, _, _ => none
  | fuel + 1, acc, cs =>
    match skipSpace cs with
    | '\x7d' :: rest => some (acc, rest)
    | ',' :: rest => do
      let ((k, v), rest) ← entry item rest
      entriesTail item fuel (Entries.put k v acc) rest
    | _ => none

def entries (item : Reader Value) : Reader (List (String × Value)) := fun cs =>
  match skipSpace cs with
  | '\x7d' :: rest => some ([], rest)
  | cs => do
    let ((k, v), rest) ← entry item cs
    entriesTail item (rest.length + 1) [(k, v)] rest

/-- A value that opens nothing. -/
def scalar : Reader Value := fun cs =>
  match cs with
  | '"' :: _ => (string cs).map fun (s, rest) => (.string s, rest)
  | 'n' :: _ => literal "null".toList .null cs
  | 't' :: _ => literal "true".toList (.bool true) cs
  | 'f' :: _ => literal "false".toList (.bool false) cs
  | _ => (number cs).map fun (n, rest) => (.number n, rest)

/-- A value with at most `depth` arrays and objects open. -/
def value : Nat → Reader Value
  | 0 => scalar
  | depth + 1 => fun cs =>
    match cs with
    | '[' :: rest => (items (value depth) rest).map fun (vs, rest) => (.array vs, rest)
    | '\x7b' :: rest => (entries (value depth) rest).map fun (es, rest) => (.object es, rest)
    | _ => scalar cs

end Reader

/-- The value that a whole text denotes. -/
def Value.read? (depth : Nat) (text : String) : Option Value := do
  let (v, rest) ← Reader.value depth (Reader.skipSpace text.toList)
  if (Reader.skipSpace rest).isEmpty then return v else none

end ScanCriteria.Json
