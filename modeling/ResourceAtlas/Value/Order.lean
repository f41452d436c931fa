import ResourceAtlas.Value.Basic

/-!
# Equality and order of values

Truth values, integers and floating-point numbers are compared as numbers, exactly. Sequences of
one kind are compared member by member. Values of unlike kinds differ and are not ordered.
-/

namespace ResourceAtlas.Value

open Calendar Number

/-- A number in the exact comparison of numbers. -/
inductive Numeric
  /-- An integer. -/
  | whole (n : Int)
  /-- A floating-point number. -/
  | real (x : Binary64)

/-- The number that a value is, truth values included. -/
def numeric? : Value → Option Numeric
  | bool b => some (.whole (if b then 1 else 0))
  | int n => some (.whole n)
  | float x => some (.real x)
  | _ => none

/-- Two numbers are equal. -/
def Numeric.equal : Numeric → Numeric → Bool
  | .whole m, .whole n => m == n
  | .whole m, .real y => y.equalInt m
  | .real x, .whole n => x.equalInt n
  | .real x, .real y => x.equal y

/-- The first number is below the second. -/
def Numeric.lt : Numeric → Numeric → Bool
  | .whole m, .whole n => decide (m < n)
  | .whole m, .real y => y.intLt m
  | .real x, .whole n => x.ltInt n
  | .real x, .real y => x.lt y

mutual

/-- Two values are equal. -/
def equal : Value → Value → Bool
  | null, null => true
  | text s, text t => s == t
  | bytes b, bytes c => b == c
  | list xs, list ys => equalAll xs ys
  | tuple xs, tuple ys => equalAll xs ys
  | mapping es, mapping fs => es.length == fs.length && equalEntries es fs
  | table es, table fs => es.length == fs.length && equalPairs es fs
  | record es, record fs => es.length == fs.length && equalEntries es fs
  | date d, date e => d == e
  | moment m, moment n => m.equal n
  | bool b, w => (numeric? w).any (Numeric.equal (.whole (if b then 1 else 0)))
  | int n, w => (numeric? w).any (Numeric.equal (.whole n))
  | float x, w => (numeric? w).any (Numeric.equal (.real x))
  | _, _ => false

/-- Two lists have equal members throughout. -/
def equalAll : List Value → List Value → Bool
  | [], [] => true
  | x :: xs, y :: ys => equal x y && equalAll xs ys
  | _, _ => false

/-- Every entry has an equal one under the same key. -/
def equalEntries : List (String × Value) → List (String × Value) → Bool
  | [], _ => true
  | (k, v) :: rest, others =>
    (match Keyed.get? k others with
      | some w => equal v w
      | none => false) && equalEntries rest others

/-- Every entry has an equal one under an equal key. -/
def equalPairs : List (Value × Value) → List (Value × Value) → Bool
  | [], _ => true
  | (k, v) :: rest, others =>
    (match others.find? fun e => equal k e.1 with
      | some e => equal v e.2
      | none => false) && equalPairs rest others

end

/-- Both values are of one kind and equal; integers and floating-point numbers count as one kind,
truth values as another. -/
def strictEqual (v w : Value) : Bool :=
  match v, w with
  | int m, int n => m == n
  | int m, float y => y.equalInt m
  | float x, int n => x.equalInt n
  | float x, float y => x.equal y
  | bool a, bool b => a == b
  | bool _, _ => false
  | _, bool _ => false
  | _, _ => equal v w

mutual

/-- Whether the first value is below the second; `none` where the two are not ordered. -/
def less? : Value → Value → Option Bool
  | text s, text t => some (decide (s < t))
  | bytes b, bytes c => some (decide (b.map UInt8.toNat < c.map UInt8.toNat))
  | list xs, list ys => lessAll? xs ys
  | tuple xs, tuple ys => lessAll? xs ys
  | date d, date e => some (d.lt e)
  | moment m, moment n => if m.comparable n then some (m.lt n) else none
  | bool b, w => (numeric? w).map (Numeric.lt (.whole (if b then 1 else 0)))
  | int n, w => (numeric? w).map (Numeric.lt (.whole n))
  | float x, w => (numeric? w).map (Numeric.lt (.real x))
  | _, _ => none

/-- Whether the first sequence is below the second: the first unlike members decide, then the
lengths. -/
def lessAll? : List Value → List Value → Option Bool
  | [], ys => some (!ys.isEmpty)
  | _ :: _, [] => some false
  | x :: xs, y :: ys => if equal x y then lessAll? xs ys else less? x y

end

end ResourceAtlas.Value
