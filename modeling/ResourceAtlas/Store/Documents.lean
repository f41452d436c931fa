import ResourceAtlas.Fault
import ResourceAtlas.Store.Place

/-!
# Documents

The store holds the documents that addresses lead into. A change replaces the value at one path of
one document. An action answers and leaves a store behind, also when it breaks off.
-/

namespace ResourceAtlas

/-- The number of a document. -/
abbrev DocumentId := Nat

/-- All documents. -/
structure Store where
  /-- The documents by their numbers. -/
  documents : Array Value
  deriving Repr, Inhabited

namespace Store

/-- A store without documents. -/
def empty : Store := ⟨#[]⟩

/-- A document; nothing where there is none. -/
def document (s : Store) (d : DocumentId) : Value :=
  s.documents.getD d .null

/-- Add a document. -/
def add (s : Store) (v : Value) : DocumentId × Store :=
  (s.documents.size, ⟨s.documents.push v⟩)

/-- Change the value at a path of a document. -/
def modify (s : Store) (d : DocumentId) (path : List Place) (f : Value → Value) : Store :=
  ⟨s.documents.modify d (modifyAt f path)⟩

end Store

/-- A computation that reads and changes documents and may break off half-way. -/
abbrev Action (α : Type) := Store → Outcome α × Store

end ResourceAtlas
