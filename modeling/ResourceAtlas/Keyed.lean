/-!
# Keyed lists

Pairs of a key and a value in the order in which the keys first came. Putting a value under a key
that is present replaces the value and keeps the place.
-/

namespace ResourceAtlas

/-- Values under keys, in the order of arrival. -/
abbrev Keyed (α : Type) := List (String × α)

namespace Keyed

variable {α : Type}

/-- The value under a key. -/
def get? (key : String) : Keyed α → Option α
  | [] => none
  | (k, v) :: rest => if k = key then some v else get? key rest

/-- Whether a key is present. -/
def has (key : String) (entries : Keyed α) : Bool :=
  (entries.get? key).isSome

/-- Put a value under a key: in its place if the key is present, else at the end. -/
def put (key : String) (value : α) : Keyed α → Keyed α
  | [] => [(key, value)]
  | (k, v) :: rest => if k = key then (k, value) :: rest else (k, v) :: put key value rest

/-- Put all of the second list into the first, in order. -/
def merge (entries more : Keyed α) : Keyed α :=
  more.foldl (fun acc e => acc.put e.1 e.2) entries

/-- The keys in order. -/
def keys (entries : Keyed α) : List String :=
  entries.map (·.1)

/-- The same pairs with each key once, in order of arrival. -/
def ofList (entries : List (String × α)) : Keyed α :=
  merge [] entries

theorem get?_put_self (key : String) (value : α) (entries : Keyed α) :
    (entries.put key value).get? key = some value := by
  induction entries with
  | nil => simp [put, get?]
  | cons e rest ih =>
    obtain ⟨k, v⟩ := e
    by_cases h : k = key <;> simp [put, get?, h, ih]

theorem get?_put_other {key other : String} (h : other ≠ key) (value : α) (entries : Keyed α) :
    (entries.put key value).get? other = entries.get? other := by
  induction entries with
  | nil => simp [put, get?, Ne.symm h]
  | cons e rest ih =>
    obtain ⟨k, v⟩ := e
    by_cases hk : k = key
    · subst hk
      simp [put, get?, Ne.symm h]
    · simp [put, get?, hk, ih]

end Keyed

end ResourceAtlas
