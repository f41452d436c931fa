/-!
# Cutting a text at a separator

Each cut keeps the text in order and drops only the separator it cut at.
-/

namespace ResourceAtlas.Text.Split

/-- The parts around the first character of a class. -/
def atFirst (sep : Char) : List Char → Option (List Char × List Char)
  | [] => none
  | c :: rest =>
    if c = sep then some ([], rest)
    else (atFirst sep rest).map fun parts => (c :: parts.1, parts.2)

/-- The parts around the last separator. -/
def atLast (sep : Char) : List Char → Option (List Char × List Char)
  | [] => none
  | c :: rest =>
    match atLast sep rest with
    | some (before, after) => some (c :: before, after)
    | none => if c = sep then some ([], rest) else none

/-- All parts between separators. -/
def every (sep : Char) : List Char → List (List Char)
  | [] => [[]]
  | c :: rest =>
    if c = sep then [] :: every sep rest
    else
      match every sep rest with
      | [] => [[c]]
      | part :: parts => (c :: part) :: parts

/-- The parts around the first occurrence of a word. -/
def atWord (word : List Char) : List Char → Option (List Char × List Char)
  | [] => if word.isEmpty then some ([], []) else none
  | c :: rest =>
    if word.isPrefixOf (c :: rest) then some ([], (c :: rest).drop word.length)
    else (atWord word rest).map fun parts => (c :: parts.1, parts.2)

/-- Whether a word occurs in a text. -/
def contains (word text : List Char) : Bool :=
  (atWord word text).isSome

/-- Parts with a separator between each two. -/
def join (sep : String) : List String → String
  | [] => ""
  | [s] => s
  | s :: rest => s ++ sep ++ join sep rest

end ResourceAtlas.Text.Split
