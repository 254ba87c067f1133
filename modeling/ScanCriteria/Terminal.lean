/-!
# Text without terminal control

A terminal obeys control characters and escape sequences instead of showing them. `Terminal.plain`
keeps what it shows, and the characters that move to another place. Such a move interrupts a
sequence: what follows is shown up to the next control character, where the sequence goes on.
-/
namespace ScanCriteria.Terminal

/-- Which sequence is being obeyed, and how far. -/
inductive State where
  | ground
  | escape
  | escapeIntermediate
  /-- A control sequence, up to its final letter. -/
  | control
  /-- A command of the operating system, up to a bell. -/
  | command
  /-- The head of a device control string, which ends at a letter. -/
  | deviceEntry | deviceParameter | deviceIntermediate
  /-- A string for the terminal itself, up to its terminator. -/
  | string
  deriving DecidableEq, Repr

def isMove (c : Char) : Bool := c == '\t' || c == '\n' || c == '\x0c' || c == '\r'

/-- Whether a character is kept outside of sequences. -/
def isShown (c : Char) : Bool := isMove c || (' ' ≤ c && c != '\x7f')

/-- The byte that ends a string, also as a part of a longer character. -/
def terminator : UInt8 := 0x9c

namespace State

def shows : State → Char → Bool
  | ground, c => isShown c
  | escape, c | escapeIntermediate, c | control, c => isMove c
  | _, _ => false

/-- The effect of a character of a sequence. -/
def step (c : Char) : State → State
  | ground => ground
  | escape =>
    if c = '[' then control
    else if c = ']' then command
    else if c = 'P' then deviceEntry
    else if c = 'X' ∨ c = '^' ∨ c = '_' then string
    else if ' ' ≤ c ∧ c ≤ '/' then escapeIntermediate
    else if '0' ≤ c ∧ c ≤ '~' then ground
    else escape
  | escapeIntermediate => if '0' ≤ c ∧ c ≤ '~' then ground else escapeIntermediate
  | control => if '@' ≤ c ∧ c ≤ '~' then ground else control
  | command => if c = '\x07' then ground else command
  | deviceEntry =>
    if ' ' ≤ c ∧ c ≤ '/' then deviceIntermediate
    else if '0' ≤ c ∧ c ≤ '?' then deviceParameter
    else if '@' ≤ c ∧ c ≤ '~' then string
    else deviceEntry
  | deviceParameter =>
    if ' ' ≤ c ∧ c ≤ '/' then deviceIntermediate
    else if '<' ≤ c ∧ c ≤ '~' then string
    else deviceParameter
  | deviceIntermediate => if '0' ≤ c ∧ c ≤ '~' then string else deviceIntermediate
  | string => if terminator ∈ String.utf8EncodeChar c then ground else string

/-- Cancelling and escaping work in every state. -/
def next (c : Char) (s : State) : State :=
  if c = '\x18' ∨ c = '\x1a' then ground else if c = '\x1b' then escape else s.step c

end State

/-- What is kept of a text; `showing` tells whether the character before it was. -/
def keep : Bool → State → List Char → List Char
  | _, _, [] => []
  | showing, s, c :: cs =>
    if if showing then isShown c else s.shows c then
      c :: keep true (if c.toNat < 128 then s else .ground) cs
    else keep false (s.next c) cs

def plain (s : String) : String := String.ofList (keep false .ground s.toList)

end ScanCriteria.Terminal
