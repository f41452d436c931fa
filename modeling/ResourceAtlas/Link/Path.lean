import ResourceAtlas.Link.Coding
import ResourceAtlas.Text.Split

/-!
# Paths

The segments of a path lie between slashes. One dot stays where it is and two dots take the segment
before them away, both also when they are percent-encoded; every other segment is kept, an empty one
too.
-/

namespace ResourceAtlas.Link.Path

open Text

/-- The ways to write a dot. -/
def dots : List (List Char) := [['.'], ['%', '2', 'e'], ['%', '2', 'E']]

/-- Whether a segment is one dot. -/
def isDot (segment : List Char) : Bool :=
  dots.contains segment

/-- Whether a segment is two dots. -/
def isDoubleDot (segment : List Char) : Bool :=
  dots.any fun first => dots.any fun second => segment == first ++ second

/-- The segments kept behind those that were kept before, which come in reverse. A path that ends in
dots ends in a slash. -/
def settle (kept : List (List Char)) : List (List Char) → List (List Char)
  | [] => kept.reverse
  | segment :: rest =>
    let left := kept.drop (if isDoubleDot segment then 1 else 0)
    if isDot segment || isDoubleDot segment then
      settle (if rest.isEmpty then [] :: left else left) rest
    else settle (segment :: kept) rest

/-- The segments of a path as a text, each behind a slash. -/
def text (segments : List (List Char)) : String :=
  String.join (segments.map fun segment => "/" ++ String.ofList segment)

/-- The normal form of what follows the first slash of a path. -/
def normal (path : List Char) : String :=
  text (settle [] (Split.every '/' (Coding.encode Coding.outsidePath path)))

/-- Segments without dots are all kept. -/
theorem settle_of_plain (kept : List (List Char)) {segments : List (List Char)}
    (h : ∀ s ∈ segments, isDot s = false ∧ isDoubleDot s = false) :
    settle kept segments = kept.reverse ++ segments := by
  induction segments generalizing kept with
  | nil => simp [settle]
  | cons segment rest ih =>
    obtain ⟨single, double⟩ := h segment List.mem_cons_self
    have more := ih (segment :: kept) fun s member => h s (List.mem_cons_of_mem _ member)
    simp [settle, single, double, more]

end ResourceAtlas.Link.Path
