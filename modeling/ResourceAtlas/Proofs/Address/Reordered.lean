import Mathlib.Data.List.Perm.Basic
import ResourceAtlas.Address.QueryText
import ResourceAtlas.Proofs.Outcome

/-!
# Parts of a query in another order

Every part of a query text asks for one thing by itself. Of two parts under distinct keys neither takes
back what the other one asks for, so that they may come in either order, and all parts of a query in any
order: its comparisons then come in another order, and the rest is the same.
-/

namespace ResourceAtlas.Address

open Query Text

/-- What one part of a query text asks for. -/
inductive Ask
  /-- Nothing. -/
  | nothing
  /-- That a comparison holds. -/
  | comparison (c : Clause)
  /-- An order. -/
  | order (o : OrderClause)
  /-- A greatest number of members. -/
  | limit (n : Nat)
  /-- A number of members to pass over. -/
  | offset (n : Nat)
  /-- Fields to fill in. -/
  | expand (names : List String)

/-- The word that is the key of what is asked for, if that is not a comparison. -/
def Ask.word? : Ask → Option (List Char)
  | nothing => none
  | comparison _ => none
  | order _ => some "sort".toList
  | limit _ => some "limit".toList
  | offset _ => some "offset".toList
  | expand _ => some "expand".toList

/-- Add to a request what one part asks for. -/
def Request.take (r : Request) : Ask → Request
  | .nothing => r
  | .comparison c => { r with filters := r.filters ++ [c] }
  | .order o => { r with order := some o }
  | .limit n => { r with limit := some n }
  | .offset n => { r with offset := some n }
  | .expand names => { r with expand := names }

/-- What a key and a value ask for. -/
def readAsk (key value : List Char) : Outcome Ask :=
  if key = "sort".toList then .ok (.order (readOrder value))
  else if key = "limit".toList then (readCount "limit" value).map .limit
  else if key = "offset".toList then (readCount "offset" value).map .offset
  else if key = "expand".toList then .ok (.expand (readNames value))
  else .ok (.comparison (readClause key value))

/-- What a part of a query text asks for. -/
def readPart (part : List Char) : Outcome Ask :=
  match Split.atFirst '=' part with
  | none => .ok .nothing
  | some (key, value) => readAsk (Percent.decode key) (Percent.decode value)

/-- The key of a part of a query text, if it has one. -/
def partKey? (part : List Char) : Option (List Char) :=
  (Split.atFirst '=' part).map fun parts => Percent.decode parts.1

/-- The keys of a query text. -/
def queryKeys (text : List Char) : List (List Char) :=
  (Split.every '&' text).filterMap partKey?

/-- Adding a part adds what it asks for by itself. -/
theorem addPart_eq (r : Request) (part : List Char) :
    r.addPart part = (readPart part).map r.take := by
  unfold Request.addPart readPart
  cases Split.atFirst '=' part with
  | none => rfl
  | some parts =>
    obtain ⟨key, value⟩ := parts
    dsimp only
    unfold Request.add readAsk
    have hcount : ∀ (name : String) (f : Nat → Request) (g : Nat → Ask),
        (∀ n, f n = r.take (g n)) →
        (readCount name (Percent.decode value) >>= fun n => .ok (f n)) =
          ((readCount name (Percent.decode value)).map g).map r.take := by
      intro name f g hfg
      cases readCount name (Percent.decode value) with
      | error fault => rfl
      | ok n => exact congrArg Except.ok (hfg n)
    split
    · rfl
    · split
      · exact hcount "limit" _ .limit fun _ => rfl
      · split
        · exact hcount "offset" _ .offset fun _ => rfl
        · split <;> rfl

/-- A word that a part asks for something by is the key of the part. -/
theorem word?_of_readPart {part : List Char} {ask : Ask} (h : readPart part = .ok ask) :
    ask.word? = none ∨ ask.word? = partKey? part := by
  unfold readPart at h
  unfold partKey?
  cases hsplit : Split.atFirst '=' part with
  | none =>
    rw [hsplit] at h
    exact .inl (Except.ok.inj h ▸ rfl)
  | some parts =>
    rw [hsplit] at h
    dsimp only at h
    unfold readAsk at h
    split at h
    · next hkey => exact .inr (Except.ok.inj h ▸ congrArg some hkey.symm)
    · split at h
      · next hkey =>
        obtain ⟨n, -, rfl⟩ := map_eq_ok.mp h
        exact .inr (congrArg some hkey.symm)
      · split at h
        · next hkey =>
          obtain ⟨n, -, rfl⟩ := map_eq_ok.mp h
          exact .inr (congrArg some hkey.symm)
        · split at h
          · next hkey => exact .inr (Except.ok.inj h ▸ congrArg some hkey.symm)
          · exact .inl (Except.ok.inj h ▸ rfl)

/-- Parts can be added exactly if each of them asks for something, which is added in their order. -/
theorem addParts_ok_iff {r r' : Request} {parts : List (List Char)} :
    r.addParts parts = .ok r' ↔
      ∃ asks, List.Forall₂ (fun part ask => readPart part = .ok ask) parts asks ∧
        r' = asks.foldl Request.take r := by
  induction parts generalizing r with
  | nil =>
    constructor
    · exact fun h => ⟨[], .nil, (Except.ok.inj h).symm⟩
    · rintro ⟨asks, hasks, rfl⟩
      rw [List.forall₂_nil_left_iff.mp hasks]
      rfl
  | cons part parts ih =>
    rw [Request.addParts, bind_eq_ok]
    constructor
    · rintro ⟨mid, hmid, h⟩
      rw [addPart_eq] at hmid
      obtain ⟨ask, hask, rfl⟩ := map_eq_ok.mp hmid
      obtain ⟨asks, hasks, rfl⟩ := ih.mp h
      exact ⟨ask :: asks, .cons hask hasks, rfl⟩
    · rintro ⟨asks, hasks, rfl⟩
      obtain ⟨ask, rest, hask, hrest, rfl⟩ := List.forall₂_cons_left_iff.mp hasks
      exact ⟨r.take ask, by rw [addPart_eq, hask]; rfl, ih.mpr ⟨rest, hrest, rfl⟩⟩

/-- Two requests ask for the same, with the comparisons in another order. -/
structure Request.Reordered (r r' : Request) : Prop where
  /-- The comparisons are the same. -/
  filters : r.filters.Perm r'.filters
  /-- The order is the same. -/
  order : r.order = r'.order
  /-- The greatest number of members is the same. -/
  limit : r.limit = r'.limit
  /-- As many members are passed over. -/
  offset : r.offset = r'.offset
  /-- The fields to fill in are the same. -/
  expand : r.expand = r'.expand

namespace Request.Reordered

variable {r r' r'' : Request}

/-- A request asks for what it asks for. -/
theorem refl (r : Request) : r.Reordered r :=
  ⟨.refl _, rfl, rfl, rfl, rfl⟩

/-- Comparisons may be reordered twice. -/
theorem trans (h : r.Reordered r') (h' : r'.Reordered r'') : r.Reordered r'' :=
  ⟨h.filters.trans h'.filters, h.order.trans h'.order, h.limit.trans h'.limit,
    h.offset.trans h'.offset, h.expand.trans h'.expand⟩

/-- The same is added to both. -/
theorem take (h : r.Reordered r') (ask : Ask) : (r.take ask).Reordered (r'.take ask) := by
  cases ask with
  | nothing => exact h
  | comparison c => exact ⟨h.filters.append_right [c], h.order, h.limit, h.offset, h.expand⟩
  | order o => exact ⟨h.filters, rfl, h.limit, h.offset, h.expand⟩
  | limit n => exact ⟨h.filters, h.order, rfl, h.offset, h.expand⟩
  | offset n => exact ⟨h.filters, h.order, h.limit, rfl, h.expand⟩
  | expand names => exact ⟨h.filters, h.order, h.limit, h.offset, rfl⟩

/-- The same things are added to both. -/
theorem foldl_take (h : r.Reordered r') (asks : List Ask) :
    (asks.foldl Request.take r).Reordered (asks.foldl Request.take r') := by
  induction asks generalizing r r' with
  | nil => exact h
  | cons ask rest ih => exact ih (h.take ask)

end Request.Reordered

/-- What is asked for by distinct words may be added in either order. -/
theorem Request.take_take {x y : Ask} (h : ∀ w, x.word? = some w → y.word? ≠ some w) (r : Request) :
    ((r.take x).take y).Reordered ((r.take y).take x) := by
  have hpair : ∀ c d : Clause, (r.filters ++ [c] ++ [d]).Perm (r.filters ++ [d] ++ [c]) := by
    intro c d
    rw [List.append_assoc, List.append_assoc]
    exact (List.Perm.swap d c []).append_left r.filters
  cases x <;> cases y
  case comparison.comparison c d => exact ⟨hpair c d, rfl, rfl, rfl, rfl⟩
  all_goals
    first
    | exact .refl _
    | exact absurd rfl (h _ rfl)

/-- What is asked for by distinct words may be added in any order. -/
theorem Request.foldl_take_perm {asks asks' : List Ask} (hp : asks.Perm asks')
    (hn : (asks.filterMap Ask.word?).Nodup) (r : Request) :
    (asks.foldl Request.take r).Reordered (asks'.foldl Request.take r) := by
  induction hp generalizing r with
  | nil => exact .refl r
  | cons x _ ih =>
    rw [List.filterMap_cons] at hn
    refine ih ?_ _
    split at hn
    · exact hn
    · exact (List.nodup_cons.mp hn).2
  | swap x y rest =>
    refine (Request.take_take (fun w hy hx => ?_) r).foldl_take rest
    simp only [List.filterMap_cons, hx, hy, List.nodup_cons, List.mem_cons, true_or, not_true_eq_false,
      false_and] at hn
  | trans hp _ ih ih' => exact (ih hn r).trans (ih' ((hp.filterMap _).nodup_iff.mp hn) r)

/-- Parts ask for something by no words but their keys. -/
theorem words_sublist_keys {parts : List (List Char)} {asks : List Ask}
    (h : List.Forall₂ (fun part ask => readPart part = .ok ask) parts asks) :
    (asks.filterMap Ask.word?).Sublist (parts.filterMap partKey?) := by
  induction h with
  | nil => exact List.nil_sublist _
  | @cons part ask parts asks hask _ ih =>
    rw [List.filterMap_cons, List.filterMap_cons]
    rcases word?_of_readPart hask with hword | hword
    · rw [hword]
      cases partKey? part with
      | none => exact ih
      | some key => exact ih.cons key
    · rw [hword]
      cases partKey? part with
      | none => exact ih
      | some key => exact ih.cons_cons key

/-- A query whose parts come in another order asks for the same, if no key comes twice, with the
comparisons in another order. -/
theorem readRequest_perm {text text' : List Char}
    (hp : (Split.every '&' text).Perm (Split.every '&' text')) (hn : (queryKeys text).Nodup)
    {r : Request} (h : readRequest text = .ok r) :
    ∃ r', readRequest text' = .ok r' ∧ r.Reordered r' := by
  obtain ⟨asks, hasks, rfl⟩ := addParts_ok_iff.mp h
  obtain ⟨asks', hasks', hperm⟩ := List.perm_comp_forall₂ hp.symm hasks
  exact ⟨_, addParts_ok_iff.mpr ⟨asks', hasks', rfl⟩,
    Request.foldl_take_perm hperm.symm (hn.sublist (words_sublist_keys hasks)) .empty⟩

end ResourceAtlas.Address
