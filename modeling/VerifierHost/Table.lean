/-!
Tables: finite maps that remember the order in which their keys first came. Putting a row keeps the
place of a key that is there already; a key that was erased comes back at the end.
-/

namespace VerifierHost

abbrev Table (κ α : Type) := List (κ × α)

namespace Table

variable {κ α : Type} [DecidableEq κ]

def get? : Table κ α → κ → Option α
  | [], _ => none
  | (k, a) :: rest, key => if k = key then some a else get? rest key

def put : Table κ α → κ → α → Table κ α
  | [], key, value => [(key, value)]
  | (k, a) :: rest, key, value =>
    if k = key then (k, value) :: rest else (k, a) :: put rest key value

def erase (t : Table κ α) (key : κ) : Table κ α := t.filter fun row => row.1 ≠ key

def keys (t : Table κ α) : List κ := t.map Prod.fst

def has (t : Table κ α) (key : κ) : Bool := (t.get? key).isSome

@[simp] theorem get?_put_self (t : Table κ α) (key : κ) (value : α) :
    (t.put key value).get? key = some value := by
  induction t with
  | nil => simp [put, get?]
  | cons row rest ih => by_cases h : row.1 = key <;> simp [put, get?, h, ih]

theorem get?_put_of_ne (t : Table κ α) {key other : κ} (value : α) (h : key ≠ other) :
    (t.put key value).get? other = t.get? other := by
  induction t with
  | nil => simp [put, get?, h]
  | cons row rest ih =>
    by_cases hk : row.1 = key
    · simp [put, get?, hk, h]
    · by_cases ho : row.1 = other
      · have hne : other ≠ key := fun he => h he.symm
        simp [put, get?, ho, hne]
      · simp [put, get?, hk, ho, ih]

@[simp] theorem get?_erase_self (t : Table κ α) (key : κ) : (t.erase key).get? key = none := by
  induction t with
  | nil => rfl
  | cons row rest ih =>
    by_cases h : row.1 = key
    · simpa [erase, h] using ih
    · simpa [erase, get?, h] using ih

theorem get?_erase_of_ne (t : Table κ α) {key other : κ} (h : key ≠ other) :
    (t.erase key).get? other = t.get? other := by
  induction t with
  | nil => rfl
  | cons row rest ih =>
    by_cases hk : row.1 = key
    · simpa [erase, get?, hk, h] using ih
    · by_cases ho : row.1 = other
      · have hne : other ≠ key := fun he => h he.symm
        simp [erase, get?, ho, hne]
      · simpa [erase, get?, hk, ho] using ih

end Table

end VerifierHost
