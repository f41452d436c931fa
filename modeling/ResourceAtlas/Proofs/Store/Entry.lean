import ResourceAtlas.Proofs.Store.Finding
import ResourceAtlas.Proofs.Value.Pairs

/-!
# Setting one entry

Assigning a property sets one entry of a mapping. What is read at a spot beside the entry stays, what
is read around it has that one entry set, and at the entry the new value is read. A location shows the
same wherever it still finds the members on its way, and it does unless it seeks one by a name or an
identifier that the entry is or lies in.
-/

namespace ResourceAtlas

open Atlas Store

section Value

variable {v new : Value} {key : String}

/-- What is read in a mapping with an entry set. -/
theorem Value.read?_withEntry (h : v.mapping?.isSome) (key : String) (new : Value) (place : Place) :
    place.read? (v.withEntry key new) = if place = .key key then some new else place.read? v := by
  have hput : ∀ name, (Place.key name).read? (v.withEntry key new) =
      if name = key then some new else (Place.key name).read? v := by
    intro name
    cases v with
    | mapping entries =>
      show Keyed.get? name (Keyed.put key new entries) = _
      split
      · next hname => rw [hname, Keyed.get?_put_self]
      · next hname => exact Keyed.get?_put_other hname new entries
    | table entries =>
      show Keyed.get? name (textEntries (putPair (text key) new entries)) = _
      split
      · next hname => rw [hname, get?_putPair]
      · next hname => exact get?_putPair_of_ne hname new entries
    | _ => exact absurd h Bool.false_ne_true
  cases place with
  | key name => simp only [hput, Place.key.injEq]
  | index i =>
    rw [if_neg (by simp)]
    cases v with
    | mapping entries => rfl
    | table entries => rfl
    | _ => exact absurd h Bool.false_ne_true

/-- A mapping with an entry set has what it had. -/
theorem Value.covers_withEntry (h : v.mapping?.isSome) (key : String) (new : Value) :
    v.Covers (v.withEntry key new) := by
  constructor
  · intro name hname
    rw [Value.read?_withEntry h]
    split
    · rfl
    · exact hname
  · intro items hitems
    cases v with
    | mapping entries => exact (nomatch hitems)
    | table entries => exact (nomatch hitems)
    | _ => exact absurd h Bool.false_ne_true

end Value

namespace Store

/-- The spot of an entry in the mapping at a spot. -/
def Spot.entry (p : Spot) (key : String) : Spot :=
  p.below [.key key]

/-- Set an entry of the mapping at a spot. -/
def enter (s : Store) (p : Spot) (key : String) (new : Value) : Store :=
  s.change p fun v => v.withEntry key new

/-- Spots that lie above each other are one. -/
theorem Spot.Above.antisymm {p q : Spot} (h : p.Above q) (h' : q.Above p) : p = q :=
  Spot.mk.injEq _ _ _ _ ▸ ⟨h.1, h.2.eq_of_length_le h'.2.length_le⟩

variable {s : Store} {p q r : Spot} {holder v new : Value} {key : String}

/-- At an entry that was set the new value is read. -/
theorem read?_enter_entry (hp : s.read? p = some holder) (hm : holder.mapping?.isSome)
    (key : String) (new : Value) : (s.enter p key new).read? (p.entry key) = some new := by
  have hentry := Value.read?_withEntry hm key new (.key key)
  rw [if_pos rfl] at hentry
  rw [enter, Spot.entry, read?_change_below, hp]
  show ((Place.key key).read? _).bind some = _
  rw [hentry]
  rfl

/-- What is read beside an entry that was set. -/
theorem read?_enter_beside (hp : s.read? p = some holder) (hm : holder.mapping?.isSome)
    (hbelow : ¬ (p.entry key).Above q) (habove : ¬ q.Above (p.entry key)) :
    (s.enter p key new).read? q = s.read? q := by
  by_cases hpq : p.Above q
  · obtain ⟨rest, rfl⟩ := hpq.exists_below
    cases rest with
    | nil =>
      rw [Spot.below_nil] at habove
      exact absurd (p.above_below _) habove
    | cons place rest =>
      have hne : place ≠ .key key := by
        rintro rfl
        have hentry := (p.entry key).above_below rest
        rw [Spot.entry, Spot.below_below] at hentry
        exact hbelow hentry
      rw [enter, read?_change_below, read?_below, hp]
      show (place.read? _).bind _ = (place.read? _).bind _
      rw [Value.read?_withEntry hm, if_neg hne]
  · exact read?_change_beside hpq fun h => habove (h.trans (p.above_below _))

/-- What is read around an entry that was set: what was read, with that entry set. -/
theorem read?_enter_around (s : Store) (q : Spot) (rest : List Place) (key : String) (new : Value) :
    (s.enter (q.below rest) key new).read? q =
      (s.read? q).map (modifyAt (fun v => v.withEntry key new) rest) :=
  read?_change_above s q _ rest

/-- Setting an entry takes nothing away outside of it. -/
theorem covers_enter (hp : s.read? p = some holder) (hm : holder.mapping?.isSome)
    (h : ¬ (p.entry key).Above r) (hr : s.read? r = some v) (new : Value) :
    ∃ w, (s.enter p key new).read? r = some w ∧ v.Covers w := by
  by_cases habove : r.Above (p.entry key)
  · rcases habove.of_concat with hrp | rfl
    · obtain ⟨rest, rfl⟩ := hrp.exists_below
      refine ⟨modifyAt (fun v => v.withEntry key new) rest v, ?_, ?_⟩
      · rw [read?_enter_around, hr]
        rfl
      · cases rest with
        | nil =>
          rw [Spot.below_nil, hr] at hp
          obtain rfl := Option.some.inj hp
          exact Value.covers_withEntry hm key new
        | cons place rest => exact Value.covers_modify _ v place
    · exact absurd (p.entry key).above_refl h
  · exact ⟨v, (read?_enter_beside hp hm h habove).trans hr, v.covers_refl⟩

/-- The value that a member of a sequence has under a key is read at the spot of that key. -/
theorem member_of_read? {items : List Value} (hr : s.read? r = some v)
    (hitems : v.sequence? = some items) {j : Nat} {item : Value} (hj : items[j]? = some item)
    (key : String) : item.member key = (s.read? (r.below [.index j, .key key])).getD .null := by
  rw [read?_below, hr, Value.member_eq_read?]
  show _ = (((Place.index j).read? v).bind fun w => ((Place.key key).read? w).bind some).getD .null
  rw [Value.read?_index hitems, hj, Option.bind_some, Option.bind_fun_some]

/-- What lies below an entry, but at or above a value under a key of a member, is that value. -/
theorem Spot.Above.of_member {j : Nat} {name : String}
    (h : (p.entry key).Above (r.below [.index j, .key name])) :
    (p.entry key).Above r ∨ p.entry key = r.below [.index j, .key name] := by
  have hsplit : r.below [.index j, .key name] = (r.below [.index j]).below [.key name] :=
    (Spot.below_below r [.index j] [.key name]).symm
  rw [hsplit] at h ⊢
  rcases h.of_concat with hmember | heq
  · rcases hmember.of_concat with habove | heq
    · exact .inl habove
    · -- An entry ends in a key and a member in an index.
      exact (nomatch (Spot.below_single_inj heq).2)
  · exact .inr heq

end Store

namespace Cursor

variable {s t : Store} {c parent : Cursor} {p q : Spot} {holder : Value} {key : String}

/-- No member is sought on the way to a location, in a list where a member has the entry at a spot in
the value that it is sought by. -/
def SeeksApart (s : Store) (entry : Spot) : Cursor → Prop
  | child parent selector _ _ => parent.SeeksApart s entry ∧
      ∀ key wanted list j, selector.sought? = some (key, wanted) → parent.LiesAt s list →
        ¬ (list.below [.index j, .key key]).Above entry
  | _ => True

/-- No member is sought by what an entry is or lies in if neither a name nor an identifier is on the
way to the entry, by induction along the way to the location. -/
theorem seeksApart_of_not_mem {entry : Spot} (hname : Place.key "name" ∉ entry.path)
    (hid : Place.key "id" ∉ entry.path) (c : Cursor) : c.SeeksApart s entry := by
  induction c with
  | child parent selector step query ih =>
    refine ⟨ih, fun key wanted list j hsought _ habove => ?_⟩
    have hmem : Place.key key ∈ entry.path :=
      habove.2.subset (List.mem_append_right _ (List.mem_cons_of_mem _ List.mem_cons_self))
    cases selector <;> cases hsought
    · exact hname hmem
    · exact hid hmem
  | _ => trivial

/-- A location outside an entry, or at it, stays where it is exactly if it still finds the members on
its way. -/
theorem liesAt_enter_iff (hp : s.read? p = some holder) (hm : holder.mapping?.isSome)
    (hq : c.LiesAt s q) (hout : (p.entry key).Above q → q = p.entry key) (new : Value) :
    c.LiesAt (s.enter p key new) q ↔ c.StillFinds s (s.enter p key new) := by
  refine liesAt_iff_stillFinds hq fun r v habove hne hr =>
    covers_enter hp hm (fun hentry => ?_) hr new
  obtain rfl := hout (hentry.trans habove)
  exact hne (habove.antisymm hentry)

/-- A location that seeks no member by what the entry is or lies in still finds the members on its way,
by induction along the way. -/
theorem SeeksApart.stillFinds (hp : s.read? p = some holder) (hm : holder.mapping?.isSome)
    (h : c.SeeksApart s (p.entry key)) (hq : c.LiesAt s q)
    (hout : (p.entry key).Above q → q = p.entry key) (new : Value) :
    c.StillFinds s (s.enter p key new) := by
  induction c generalizing q with
  | child parent selector step query ih =>
    by_cases hs : selector = .same
    · subst hs
      exact ⟨ih h.1 (liesAt_same_iff.mp hq) hout, fun key wanted list i hsought => (nomatch hsought)⟩
    obtain ⟨r, v, place, hr, hv, hplace, rfl⟩ := (liesAt_child_iff hs).mp hq
    have haround : ¬ (p.entry key).Above r := fun habove => by
      have heq := hout (habove.trans (r.above_below [place]))
      exact Spot.not_concat_above r place (heq ▸ habove)
    refine ⟨ih h.1 hr fun habove => absurd habove haround, ?_⟩
    intro name wanted list i hsought hlist hlies
    obtain rfl := hr.unique hlist
    obtain ⟨items, j, hitems, rfl, hfirst⟩ := (Selector.place?_sought_iff hsought).mp hplace
    obtain rfl := Place.index.inj (List.singleton_inj.mp (Spot.below_inj (hq.unique hlies)))
    obtain ⟨w, hw, hcovers⟩ := covers_enter hp hm haround hv new
    obtain ⟨more, hmore, hlength, -⟩ := hcovers.members items hitems
    refine ⟨w, more, hw, hmore, hfirst.of_same hlength fun k _ item other hitem hother => ?_⟩
    -- The value that the member is sought by lies beside the entry.
    have hbelow := h.2 name wanted r k hsought hr
    rw [member_of_read? hv hitems hitem, member_of_read? hw hmore hother]
    refine congrArg (Option.getD · .null) (read?_enter_beside hp hm (fun habove => ?_) hbelow)
    rcases habove.of_member with hentry | heq
    · exact haround hentry
    · exact hbelow (heq ▸ Spot.above_refl _)
  | _ => trivial

/-- What a location at a spot shows of an entry that was set. -/
structure Shows (s t : Store) (p : Spot) (key : String) (new : Value) (c : Cursor) (q : Spot) :
    Prop where
  /-- It stays where it is exactly if it still finds the members on its way. -/
  lies : c.LiesAt t q ↔ c.StillFinds s t
  /-- It finds them if it seeks none by what the entry is or lies in. -/
  finds : c.SeeksApart s (p.entry key) → c.StillFinds s t
  /-- Beside the entry it reads what it read. -/
  beside : c.StillFinds s t → ¬ q.Above (p.entry key) → c.raw t = c.raw s
  /-- Around the entry it reads what it read with that entry set. -/
  around : c.StillFinds s t → ∀ rest old, p = q.below rest → c.raw s = .ok old →
    c.raw t = .ok (modifyAt (fun v => v.withEntry key new) rest old)
  /-- At the entry it reads the new value. -/
  entry : c.StillFinds s t → q = p.entry key → c.raw t = .ok new

/-- What a location outside an entry, or at it, shows of the entry being set. -/
theorem shows_enter (hp : s.read? p = some holder) (hm : holder.mapping?.isSome)
    (hq : c.LiesAt s q) (hout : (p.entry key).Above q → q = p.entry key) (new : Value) :
    c.Shows s (s.enter p key new) p key new q := by
  have hlies := liesAt_enter_iff hp hm hq hout new
  constructor
  case lies => exact hlies
  case finds => exact fun h => h.stillFinds hp hm hq hout new
  case beside =>
    intro hfinds habove
    rw [(hlies.mpr hfinds).raw_eq, hq.raw_eq, read?_enter_beside hp hm (fun hentry => ?_) habove]
    exact habove (hout hentry ▸ Spot.above_refl _)
  case around =>
    rintro hfinds rest old rfl hold
    rw [read?_below] at hp
    obtain ⟨v, hv, -⟩ := Option.bind_eq_some_iff.mp hp
    rw [hq.raw_eq, hv] at hold
    obtain rfl := Except.ok.inj hold
    rw [(hlies.mpr hfinds).raw_eq, read?_enter_around, hv]
    rfl
  case entry =>
    rintro hfinds rfl
    rw [(hlies.mpr hfinds).raw_eq, read?_enter_entry hp hm]
    rfl

/-- Where a mapping is read, it lies. -/
theorem LiesAt.read?_of_mapping (hp : c.LiesAt s p) (hholder : c.raw s = .ok holder)
    (hm : holder.mapping?.isSome) : s.read? p = some holder := by
  rw [hp.raw_eq] at hholder
  obtain rfl := Except.ok.inj hholder
  cases hread : s.read? p with
  | some v => rfl
  | none =>
    rw [hread] at hm
    exact absurd hm Bool.false_ne_true

/-- Assigning a property sets an entry of the mapping around it. -/
theorem assign_entry (hp : parent.LiesAt s p) (hholder : parent.raw s = .ok holder)
    (hm : holder.mapping?.isSome) (key : String) (step : Address.Step) (query : Query.State)
    (new : Value) : (child parent (.property key) step query).assign new s =
      ((child parent (.property key) step query).uri.map fun _ => (), s.enter p key new) := by
  have hsome : ∃ entries, holder.mapping? = some entries := Option.isSome_iff_exists.mp hm
  obtain ⟨entries, hentries⟩ := hsome
  unfold assign
  have haround : (((child parent (.property key) step query).within "assign").bind
      fun c => c.around s) = .ok holder := hholder
  rw [haround]
  dsimp only
  rw [hentries]
  dsimp only [propertyKey?, around?]
  rw [show parent.position? s = _ from hp]
  rfl

/-- Assigning a property sets one entry and touches nothing else: what every location outside the
entry, or at it, shows afterwards. -/
theorem assign_touches_entry (hp : parent.LiesAt s p) (hholder : parent.raw s = .ok holder)
    (hm : holder.mapping?.isSome) {step : Address.Step} {query : Query.State} {new : Value}
    {result : Outcome Unit}
    (h : (child parent (.property key) step query).assign new s = (result, t)) :
    ∀ c q, LiesAt c s q → ((p.entry key).Above q → q = p.entry key) →
      c.Shows s t p key new q := by
  rw [assign_entry hp hholder hm] at h
  obtain ⟨-, rfl⟩ := Prod.mk.inj h
  exact fun c q hq hout => shows_enter (hp.read?_of_mapping hholder hm) hm hq hout new

/-- The folders of a store of folders. -/
def allFolders : Cursor :=
  (atRoot 0 "s").property "folders"

/-- A folder that is found by its name lies where it is found. -/
theorem allFolders_named {all : List Value} {name : String} {i : Nat}
    (h : findMember "name" (.text name) all = .ok (some i)) :
    (allFolders.named (.text name)).LiesAt (folderStore all)
      ⟨0, [.key "folders", .index i]⟩ := by
  have hlist : allFolders.LiesAt (folderStore all) ⟨0, [.key "folders"]⟩ := rfl
  exact hlist.found rfl rfl h _ _

/-- Setting the color of the second folder leaves the first one, found by its name, and shows in the
list of both. -/
theorem assign_touches_entry_folders :
    ∃ t, ((allFolders.named (.text "B")).property "color").assign (.text "red")
        (folderStore [folder "A" [], folder "B" []]) = (.ok (), t) ∧
      (allFolders.named (.text "A")).raw t = .ok (folder "A" []) ∧
      allFolders.raw t =
        .ok (.list [folder "A" [], (folder "B" []).withEntry "color" (.text "red")]) := by
  have hfirst : (allFolders.named (.text "A")).LiesAt (folderStore [folder "A" [], folder "B" []])
      ⟨0, [.key "folders", .index 0]⟩ := allFolders_named (by decide +kernel)
  have hsecond : (allFolders.named (.text "B")).LiesAt (folderStore [folder "A" [], folder "B" []])
      ⟨0, [.key "folders", .index 1]⟩ := allFolders_named (by decide +kernel)
  have hassign := assign_entry hsecond hsecond.raw_eq rfl "color" (.prop "color") .empty (.text "red")
  have hshows := assign_touches_entry hsecond hsecond.raw_eq rfl hassign
  have hone := hshows _ _ hfirst fun h => absurd h (by decide)
  have hall := hshows allFolders ⟨0, [.key "folders"]⟩ rfl fun h => absurd h (by decide)
  have hapart : ∀ c, SeeksApart (folderStore [folder "A" [], folder "B" []])
      (Spot.entry ⟨0, [.key "folders", .index 1]⟩ "color") c :=
    seeksApart_of_not_mem (by decide) (by decide)
  exact ⟨_, hassign, (hone.beside (hone.finds (hapart _)) (by decide)).trans hfirst.raw_eq,
    hall.around (hall.finds (hapart _)) [.index 1] _ rfl rfl⟩

/-- An item whose name is a mapping with an integer. -/
def labelledItem (n : Int) : Value :=
  .mapping [("name", .mapping [("a", .int n)])]

/-- A store with one such item. -/
def labelStore (n : Int) : Store :=
  ⟨#[.mapping [("items", .list [labelledItem n])]]⟩

/-- The items of such a store. -/
def allItems : Cursor :=
  (atRoot 0 "s").property "items"

/-- The name of the first item. -/
def firstLabel : Cursor :=
  (allItems.atIndex (.int 0)).property "name"

/-- Setting an entry of a name loses the item to what finds it by the text of that name: the item lies
around the entry, and is not read any more. -/
theorem assign_hides_item :
    firstLabel.LiesAt (labelStore 1) ⟨0, [.key "items", .index 0, .key "name"]⟩ ∧
      firstLabel.raw (labelStore 1) = .ok (.mapping [("a", .int 1)]) ∧
      (firstLabel.property "a").assign (.int 2) (labelStore 1) = (.ok (), labelStore 2) ∧
      (allItems.named (.text "\x7b'a': 1\x7d")).LiesAt (labelStore 1)
        ⟨0, [.key "items", .index 0]⟩ ∧
      (allItems.named (.text "\x7b'a': 1\x7d")).raw (labelStore 1) = .ok (labelledItem 1) ∧
      (allItems.named (.text "\x7b'a': 1\x7d")).raw (labelStore 2) = .ok .null ∧
      allItems.raw (labelStore 2) = .ok (.list [labelledItem 2]) := by
  have hlist : ∀ n, allItems.LiesAt (labelStore n) ⟨0, [.key "items"]⟩ := fun _ => rfl
  have hfound : (allItems.named (.text "\x7b'a': 1\x7d")).LiesAt (labelStore 1)
      ⟨0, [.key "items", .index 0]⟩ :=
    (hlist 1).found rfl rfl (by decide +kernel) _ _
  have hlost : (allItems.named (.text "\x7b'a': 1\x7d")).raw (labelStore 2) = .ok .null :=
    raw_of_nowhere ((hlist 2).unfound rfl rfl (by decide +kernel) _ _)
  exact ⟨rfl, rfl, rfl, hfound, hfound.raw_eq, hlost, rfl⟩

end Cursor

end ResourceAtlas
