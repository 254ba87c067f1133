/-!
# Entries under keys

A list of entries gives the value of its first entry under a key; `put` keeps the entries sorted by
key, so that a later value under a key replaces the earlier one.
-/
namespace ScanCriteria

abbrev Entries (α : Type) := List (String × α)

namespace Entries

variable {α : Type}

def find? (key : String) : Entries α → Option α
  | [] => none
  | (k, v) :: rest => if k = key then some v else find? key rest

def put (key : String) (v : α) : Entries α → Entries α
  | [] => [(key, v)]
  | (k, w) :: rest =>
    if key < k then (key, v) :: (k, w) :: rest
    else if key = k then (key, v) :: rest
    else (k, w) :: put key v rest

@[simp] theorem find?_nil (key : String) : find? key ([] : Entries α) = none := rfl

theorem find?_put_self (key : String) (v : α) (es : Entries α) :
    find? key (put key v es) = some v := by
  induction es with
  | nil => simp [put, find?]
  | cons e rest ih =>
    obtain ⟨k, w⟩ := e
    unfold put
    split
    · simp [find?]
    · split
      · simp [find?]
      · next hk => simp [find?, Ne.symm hk, ih]

theorem find?_put_of_ne {key other : String} (h : other ≠ key) (v : α) (es : Entries α) :
    find? other (put key v es) = find? other es := by
  induction es with
  | nil => simp [put, find?, Ne.symm h]
  | cons e rest ih =>
    obtain ⟨k, w⟩ := e
    unfold put
    split
    · simp [find?, Ne.symm h]
    · split
      · next hk => subst hk; simp [find?, Ne.symm h]
      · simp only [find?, ih]

end Entries
end ScanCriteria
