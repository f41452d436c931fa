import ResourceAtlas.Proofs.Address.Behind
import ResourceAtlas.Proofs.Outcome
import ResourceAtlas.Store.Edit

/-!
# The piece that addresses a member

The address of a member is that of its collection, without the query, and a piece behind it. Which
piece that is depends on the member's values and its index alone.
-/

namespace ResourceAtlas

open Address Number Text

/-- The piece that addresses a member at an index, by the first key that gives one. A name that reads
as an integer gives none. -/
def pieceOf (item : Value) (index : Nat) : List MemberKey → Outcome (Option Piece)
  | [] => .ok none
  | key :: rest =>
    if key = "index" then .ok (some (.position index))
    else if (item.member key).isNull then pieceOf item index rest
    else do
      let x ← writable (item.member key).string?
      if key = "name" && Digit.isInteger x.toList then pieceOf item index rest
      else .ok (some (.text x))

/-- The address that a piece behind a collection's makes. -/
def addressBehind (collection : String) (piece : Piece) : String :=
  withoutQuery collection ++ String.ofList piece.write

/-- The address by a position. -/
theorem addressBehind_position (collection : String) (i : Nat) :
    addressBehind collection (.position i) =
      withoutQuery collection ++ "%5B" ++ toString i ++ "%5D" := by
  apply String.toList_inj.mp
  have htext : (toString i).toList = Numeral.natText i := Nat.toList_repr
  simp only [addressBehind, Piece.write, indexText, String.toList_append, String.toList_ofList, htext,
    List.append_assoc]

/-- The address by a text. -/
theorem addressBehind_text (collection x : String) :
    addressBehind collection (.text x) =
      withoutQuery collection ++ "/" ++ Percent.encodeString x := by
  apply String.toList_inj.mp
  simp only [addressBehind, Piece.write, Percent.encodeString, String.toList_append,
    String.toList_ofList, List.append_assoc]
  rfl

/-- The address of a member is that of its collection with its piece behind it. -/
theorem memberUri_eq (collection : String) (item : Value) (index : Nat) (keys : List MemberKey) :
    memberUri collection item index keys =
      (pieceOf item index keys).map fun piece => piece.map (addressBehind collection) := by
  induction keys with
  | nil => rfl
  | cons key rest ih =>
    unfold memberUri pieceOf
    by_cases hindex : key = "index"
    · rw [if_pos hindex, if_pos hindex, Except.map, Option.map_some, addressBehind_position]
    · rw [if_neg hindex, if_neg hindex]
      unfold memberPiece
      dsimp only
      cases hnull : (item.member key).isNull with
      | true => exact ih
      | false =>
        rw [if_neg Bool.false_ne_true, if_neg Bool.false_ne_true]
        cases writable (item.member key).string? with
        | error f => rfl
        | ok x =>
          dsimp only [bind, Except.bind]
          cases (key = "name" && Digit.isInteger x.toList : Bool) with
          | true => exact ih
          | false =>
            rw [if_neg Bool.false_ne_true, if_neg Bool.false_ne_true, Except.map, Option.map_some,
              addressBehind_text]

/-- The piece that a key gives a member at an index: a position, or a text that is no integer if it is
a name. -/
inductive KeyPiece (item : Value) (index : Nat) : MemberKey → Piece → Prop
  /-- By position. -/
  | position : KeyPiece item index "index" (.position index)
  /-- By the text of a value. -/
  | text {key : MemberKey} {x : String} (hkey : key ≠ "index")
      (hx : writable (item.member key).string? = .ok x)
      (hname : key = "name" → Digit.isInteger x.toList = false) : KeyPiece item index key (.text x)

/-- One of the keys gives a member its piece. -/
theorem pieceOf_ok {item : Value} {index : Nat} {keys : List MemberKey} {piece : Piece}
    (h : pieceOf item index keys = .ok (some piece)) : ∃ key ∈ keys, KeyPiece item index key piece := by
  induction keys with
  | nil => exact (nomatch h)
  | cons key rest ih =>
    have hrest : pieceOf item index rest = .ok (some piece) →
        ∃ other ∈ key :: rest, KeyPiece item index other piece := by
      intro h
      obtain ⟨other, hmem, hother⟩ := ih h
      exact ⟨other, List.mem_cons_of_mem key hmem, hother⟩
    unfold pieceOf at h
    split at h
    · next hindex =>
      obtain rfl := Option.some.inj (Except.ok.inj h)
      exact ⟨key, List.mem_cons_self, hindex ▸ .position⟩
    · next hindex =>
      split at h
      · exact hrest h
      · obtain ⟨x, hx, h⟩ := bind_eq_ok.mp h
        split at h
        · exact hrest h
        · next hname =>
          obtain rfl := Option.some.inj (Except.ok.inj h)
          refine ⟨key, List.mem_cons_self, .text hindex hx fun hkey => ?_⟩
          rw [decide_eq_true hkey, Bool.true_and] at hname
          exact Bool.eq_false_iff.mpr hname

/-- Whether a member has a piece does not depend on its index. -/
theorem pieceOf_isSome {item : Value} {index : Nat} {keys : List MemberKey} {piece : Piece}
    (h : pieceOf item index keys = .ok (some piece)) (other : Nat) :
    ∃ piece, pieceOf item other keys = .ok (some piece) := by
  induction keys with
  | nil => exact (nomatch h)
  | cons key rest ih =>
    unfold pieceOf at h ⊢
    split at h
    · next hindex => exact ⟨_, if_pos hindex⟩
    · next hindex =>
      rw [if_neg hindex]
      split at h
      · next hnull =>
        rw [if_pos hnull]
        exact ih h
      · next hnull =>
        rw [if_neg hnull]
        obtain ⟨x, hx, h⟩ := bind_eq_ok.mp h
        split at h
        · next hname =>
          obtain ⟨piece, hpiece⟩ := ih h
          exact ⟨piece, bind_eq_ok.mpr ⟨x, hx, (if_pos hname).trans hpiece⟩⟩
        · next hname => exact ⟨_, bind_eq_ok.mpr ⟨x, hx, if_neg hname⟩⟩

end ResourceAtlas
