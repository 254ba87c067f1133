import ScanCriteria.Log.Event

/-!
# The event buffer

A buffer holds the newest events, oldest first, up to a fixed number; queries give the events that
match in that order.
-/
namespace ScanCriteria

structure Buffer where
  events : Array Event
  deriving Inhabited

namespace Buffer

def empty : Buffer := ⟨#[]⟩

def size (b : Buffer) : Nat := b.events.size

def toList (b : Buffer) : List Event := b.events.toList

/-- Adds an event; over the limit the oldest ones go. -/
def pushWithin (limit : Nat) (e : Event) (b : Buffer) : Buffer :=
  if b.events.size < limit then ⟨b.events.push e⟩
  else ⟨(b.events.extract (b.events.size - limit + 1) b.events.size).push e⟩

def push (e : Event) (b : Buffer) : Buffer := b.pushWithin Limits.bufferedEvents e

def errors (b : Buffer) : List Event := b.toList.filter (·.isError)

def warnings (b : Buffer) : List Event := b.toList.filter (·.isWarning)

def withCode (c : Code) (b : Buffer) : List Event := b.toList.filter (·.code == c)

def inCategory (category : String) (b : Buffer) : List Event :=
  b.toList.filter (·.entry.category == category)

def hasErrorWithCode (c : Code) (b : Buffer) : Bool :=
  b.events.any fun e => e.isError && e.code == c

def hasSuccessWithCode (c : Code) (b : Buffer) : Bool :=
  b.events.any fun e => e.isInfo && e.code == c

structure Summary where
  total : Nat
  errors : Nat
  warnings : Nat
  infos : Nat
  debugs : Nat
  /-- Errors whose code asks for a halt. -/
  criticals : Nat
  deriving DecidableEq, Repr

def count (p : Event → Bool) (b : Buffer) : Nat := b.toList.countP p

def summary (b : Buffer) : Summary where
  total := b.size
  errors := b.count (·.isError)
  warnings := b.count (·.isWarning)
  infos := b.count (·.isInfo)
  debugs := b.count (·.isDebug)
  criticals := b.count fun e => e.isError && e.entry.requiresHalt

@[simp] theorem toList_empty : empty.toList = [] := rfl

theorem length_toList (b : Buffer) : b.toList.length = b.size := by simp [toList, size]

theorem toList_pushWithin {limit : Nat} (bound : 0 < limit) (e : Event) (b : Buffer) :
    (b.pushWithin limit e).toList = (b.toList ++ [e]).drop (b.size + 1 - limit) := by
  rw [pushWithin, size]
  split
  case isTrue h =>
    have none_over : b.events.size + 1 - limit = 0 := by omega
    simp [toList, none_over]
  case isFalse h =>
    have excess : b.events.size + 1 - limit = b.events.size - limit + 1 := by omega
    have within : b.events.size - limit + 1 ≤ b.toList.length := by
      simp only [toList, Array.length_toList]; omega
    rw [excess, List.drop_append_of_le_length within]
    simp [toList, List.take_of_length_le]

theorem toList_push (e : Event) (b : Buffer) :
    (b.push e).toList = (b.toList ++ [e]).drop (b.size + 1 - Limits.bufferedEvents) :=
  toList_pushWithin (by decide) e b

end Buffer
end ScanCriteria
