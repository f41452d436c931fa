import ResourceAtlas.Text.Case.Table

/-!
# Upper and lower case

Both mappings are the full ones, so a text may grow. Upper case looks at each character alone;
lower case also looks around a capital sigma, which has a form of its own at the end of a word.
-/

namespace ResourceAtlas.Text.Case

open Table

/-- The upper form of a character. -/
def upperChar (c : Char) : List Char :=
  let n := c.toNat
  if n < 0x80 then
    if 0x61 ≤ n ∧ n ≤ 0x7A then [Char.ofNat (n - 32)] else [c]
  else
    match upperExpansions.lookup n with
    | some form => form.map Char.ofNat
    | none =>
      match image? upperRuns n with
      | some m => [Char.ofNat m]
      | none => [c]

/-- The lower form of a character away from any context. -/
def lowerChar (c : Char) : List Char :=
  let n := c.toNat
  if n < 0x80 then
    if 0x41 ≤ n ∧ n ≤ 0x5A then [Char.ofNat (n + 32)] else [c]
  else
    match lowerExpansions.lookup n with
    | some form => form.map Char.ofNat
    | none =>
      match image? lowerRuns n with
      | some m => [Char.ofNat m]
      | none => [c]

/-- Every character in its upper form. -/
def upper (text : List Char) : List Char :=
  text.flatMap upperChar

/-- Whether some range holds the code point of a character. -/
def inRanges (ranges : List (Nat × Nat)) (c : Char) : Bool :=
  ranges.any fun r => r.1 ≤ c.toNat && c.toNat ≤ r.2

/-- The first character that a final sigma does not skip carries case. -/
def meetsCased (text : List Char) : Bool :=
  match text.dropWhile (inRanges ignorableRanges) with
  | [] => false
  | c :: _ => inRanges casedRanges c

/-- The capital sigma. -/
def capitalSigma : Char := Char.ofNat 0x3A3

/-- The small sigma. -/
def smallSigma : Char := Char.ofNat 0x3C3

/-- The small sigma that ends a word. -/
def finalSigma : Char := Char.ofNat 0x3C2

/-- Lower case of the rest of a text, given the characters before it, nearest first. -/
def lowerAfter : List Char → List Char → List Char
  | _, [] => []
  | before, c :: rest =>
    let form :=
      if c = capitalSigma then
        if meetsCased before && !meetsCased rest then [finalSigma] else [smallSigma]
      else lowerChar c
    form ++ lowerAfter (c :: before) rest

/-- Every character in its lower form. -/
def lower (text : List Char) : List Char :=
  lowerAfter [] text

end ResourceAtlas.Text.Case
