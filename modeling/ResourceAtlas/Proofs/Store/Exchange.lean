import ResourceAtlas.Proofs.Registry.Addressed
import ResourceAtlas.Proofs.Store.Exact

/-!
# Changes through one location or another

Two locations stand for each other if they lie at one place and are selected there alike. A change
through one of them then has the effect of the same change through the other, as long as both have an
address that can be written or neither has.
-/

namespace ResourceAtlas

open Store

/-- Two changes have one effect: they leave one store and succeed in the same cases. -/
structure SameEffect {α : Type} (x y : Outcome (Verdict α) × Store) : Prop where
  /-- The stores that they leave are one. -/
  store : x.2 = y.2
  /-- One of them succeeds exactly if the other does. -/
  succeeds : (∃ a, x.1 = .ok (.ok a)) ↔ ∃ a, y.1 = .ok (.ok a)

/-- Two changes have one effect and report the same where they succeed. -/
structure SameReport {α : Type} (x y : Outcome (Verdict α) × Store) : Prop extends
    SameEffect x y where
  /-- Where one of them succeeds, the other reports the same. -/
  report : ∀ a, x.1 = .ok (.ok a) → y.1 = .ok (.ok a)

namespace SameReport

variable {α : Type} {x y : Outcome (Verdict α) × Store}

/-- Two changes that leave one store and report the same where either succeeds have one effect. -/
theorem of_iff (hstore : x.2 = y.2) (h : ∀ a, x.1 = .ok (.ok a) ↔ y.1 = .ok (.ok a)) :
    SameReport x y :=
  ⟨⟨hstore, exists_congr h⟩, fun a => (h a).mp⟩

/-- They report the same where either succeeds. -/
theorem iff (h : SameReport x y) (a : α) : x.1 = .ok (.ok a) ↔ y.1 = .ok (.ok a) := by
  refine ⟨h.report a, fun hy => ?_⟩
  obtain ⟨b, hx⟩ := h.succeeds.mpr ⟨a, hy⟩
  obtain rfl := Except.ok.inj (Except.ok.inj (hy.symm.trans (h.report b hx)))
  exact hx

end SameReport

namespace Cursor

/-- A change that cannot be planned leaves the store. -/
theorem Plan.run_of_not_ok {plan : Plan} (h : ∀ uri t, plan ≠ .ok (.ok (uri, t))) (s : Store) :
    (plan.run s).2 = s ∧ ∀ uri, (plan.run s).1 ≠ .ok (.ok uri) := by
  match plan, h with
  | .error f, _ => exact ⟨rfl, fun _ h => (nomatch h)⟩
  | .ok (.error problem), _ => exact ⟨rfl, fun _ h => (nomatch h)⟩
  | .ok (.ok (uri, t)), h => exact absurd rfl (h uri t)

/-- Plans that leave one store in the same cases have one effect. -/
theorem Plan.sameEffect_run {p q : Plan}
    (h : ∀ t, (∃ uri, p = .ok (.ok (uri, t))) ↔ ∃ uri, q = .ok (.ok (uri, t))) (s : Store) :
    SameEffect (p.run s) (q.run s) := by
  by_cases hp : ∃ uri t, p = .ok (.ok (uri, t))
  · obtain ⟨uri, t, rfl⟩ := hp
    obtain ⟨other, rfl⟩ := (h t).mp ⟨uri, rfl⟩
    exact ⟨rfl, fun _ => ⟨other, rfl⟩, fun _ => ⟨uri, rfl⟩⟩
  · have hq : ∀ uri t, q ≠ .ok (.ok (uri, t)) := by
      intro uri t hq
      obtain ⟨other, hother⟩ := (h t).mpr ⟨uri, hq⟩
      exact hp ⟨other, t, hother⟩
    obtain ⟨hpstore, hpfails⟩ := run_of_not_ok (fun uri t hpt => hp ⟨uri, t, hpt⟩) s
    obtain ⟨hqstore, hqfails⟩ := run_of_not_ok hq s
    exact ⟨hpstore.trans hqstore.symm, fun ⟨uri, ha⟩ => absurd ha (hpfails uri),
      fun ⟨uri, ha⟩ => absurd ha (hqfails uri)⟩

/-- Plans that succeed alike report the same. -/
theorem Plan.sameReport_run {p q : Plan}
    (h : ∀ uri t, p = .ok (.ok (uri, t)) ↔ q = .ok (.ok (uri, t))) (s : Store) :
    SameReport (p.run s) (q.run s) where
  toSameEffect := sameEffect_run (fun t => exists_congr fun uri => h uri t) s
  report uri hp := by
    have hplan : p = .ok (.ok (uri, (p.run s).2)) := Plan.run_ok (Prod.ext hp rfl)
    rw [(h uri _).mp hplan]
    rfl

/-- Two locations that stand for each other in a change. -/
structure Exchangeable (c d : Cursor) : Prop where
  /-- Both are inside documents or both are not. -/
  outside : c.isOutside = d.isOutside
  /-- They lie at one place of every store. -/
  position : ∀ s, c.position? s = d.position? s
  /-- So does what is around them. -/
  place : ∀ s, c.around? s = d.around? s
  /-- The same value is around them. -/
  holder : ∀ s, c.around s = d.around s
  /-- They are properties under one key, if they are properties. -/
  key : c.propertyKey? = d.propertyKey?
  /-- Both are members or both are not. -/
  member : c.isMember = d.isMember

variable {c d : Cursor} {s t : Store} {uri : String}

namespace Exchangeable

/-- A location stands for itself. -/
theorem refl (c : Cursor) : c.Exchangeable c :=
  ⟨rfl, fun _ => rfl, fun _ => rfl, fun _ => rfl, rfl, rfl⟩

/-- Locations stand for each other. -/
theorem symm (h : c.Exchangeable d) : d.Exchangeable c :=
  ⟨h.outside.symm, fun s => (h.position s).symm, fun s => (h.place s).symm,
    fun s => (h.holder s).symm, h.key.symm, h.member.symm⟩

/-- They hold the same data. -/
theorem raw_eq (h : c.Exchangeable d) (s : Store) : c.raw s = d.raw s := by
  unfold raw
  rw [h.position s]

/-- Locations selected alike around one place stand for each other. -/
theorem child (h : ∀ s, c.position? s = d.position? s) (selector : Selector) (step step' : Address.Step)
    (query query' : Query.State) :
    (Cursor.child c selector step query).Exchangeable (.child d selector step' query') := by
  have hraw : ∀ s, c.raw s = d.raw s := by
    intro s
    unfold raw
    rw [h s]
  refine ⟨rfl, fun s => ?_, h, hraw, ?_, rfl⟩
  · rw [position?, position?, h s]
  · cases selector <;> rfl

end Exchangeable

/-- A location stands for itself asked otherwise. -/
theorem exchangeable_withQuery (c : Cursor) (q : Query.State) : c.Exchangeable (c.withQuery q) := by
  cases c with
  | child parent selector step query => exact .child (fun _ => rfl) selector step step query q
  | _ => exact ⟨rfl, fun _ => rfl, fun _ => rfl, fun _ => rfl, rfl, rfl⟩

/-- An assignment has one effect through either of two such locations. -/
theorem Exchangeable.assign (h : c.Exchangeable d) (hw : c.Addressed ↔ d.Addressed) (new : Value)
    (s : Store) :
    (c.assign new s).2 = (d.assign new s).2 ∧
      ((c.assign new s).1 = .ok () ↔ (d.assign new s).1 = .ok ()) := by
  have hholder : ((c.within "assign").bind fun c => c.around s) =
      (d.within "assign").bind fun d => d.around s := by
    unfold within
    rw [h.outside]
    cases d.isOutside with
    | true => rfl
    | false => exact h.holder s
  have hrefused : ∀ e : Cursor,
      ((e.uri >>= fun uri => .error (.notAssignable uri)) : Outcome Unit) ≠ .ok () := by
    intro e he
    obtain ⟨uri, -, hok⟩ := bind_eq_ok.mp he
    exact (nomatch hok)
  have hwritten : ∀ e : Cursor, (e.uri.map fun _ => ()) = .ok () ↔ e.Addressed := by
    intro e
    rw [map_eq_ok]
    exact ⟨fun ⟨uri, huri, _⟩ => ⟨uri, huri⟩, fun ⟨uri, huri⟩ => ⟨uri, huri, rfl⟩⟩
  unfold Cursor.assign
  rw [hholder]
  cases (d.within "assign").bind fun d => d.around s with
  | error f => exact ⟨rfl, Iff.rfl⟩
  | ok holder =>
    have hnever : ((c.uri >>= fun uri => .error (.notAssignable uri)) : Outcome Unit) = .ok () ↔
        ((d.uri >>= fun uri => .error (.notAssignable uri)) : Outcome Unit) = .ok () :=
      iff_of_false (hrefused c) (hrefused d)
    dsimp only
    rw [h.key, h.place s]
    split
    · split
      · exact ⟨rfl, (hwritten c).trans (hw.trans (hwritten d).symm)⟩
      · exact ⟨rfl, hnever⟩
    · exact ⟨rfl, hnever⟩

/-- A member is found exactly if the location is one, and something lies there, in a list. -/
theorem member_ok_iff {m : Member} : c.member s = .ok (.ok m) ↔
    c.isMember = true ∧ ∃ members here, c.raw s = .ok m.item ∧ c.around s = .ok (.list members) ∧
      c.around? s = .ok (some m.list) ∧ c.position? s = .ok (some here) ∧ m.item.isNull = false ∧
      here.path.getLast? = some (.index m.index) := by
  have hmissing : ∀ {f : String → Problem},
      (c.uri.map fun uri => (Except.error (f uri) : Verdict Member)) ≠ .ok (.ok m) := by
    intro f hu
    obtain ⟨uri, -, h⟩ := map_eq_ok.mp hu
    exact (nomatch h)
  unfold member
  constructor
  · intro h
    split at h
    · next hmember =>
      simp only [bind_eq_ok] at h
      obtain ⟨item, hraw, holder, hholder, around, hlist, position, hhere, h⟩ := h
      split at h
      · next members list here hnull =>
        split at h
        · next i hlast =>
          obtain rfl := Except.ok.inj (Except.ok.inj h)
          exact ⟨hmember, members, here, hraw, hholder, hlist, hhere, hnull, hlast⟩
        · exact absurd h hmissing
      · exact absurd h hmissing
    · exact absurd h hmissing
  · rintro ⟨hmember, members, here, hraw, hholder, hlist, hhere, hnull, hlast⟩
    rw [if_pos hmember]
    refine bind_eq_ok.mpr ⟨m.item, hraw, bind_eq_ok.mpr ⟨.list members, hholder,
      bind_eq_ok.mpr ⟨some m.list, hlist, bind_eq_ok.mpr ⟨some here, hhere, ?_⟩⟩⟩⟩
    rw [hnull]
    dsimp only
    rw [hlast]

/-- The same member is found at either of two such locations. -/
theorem Exchangeable.member_iff (h : c.Exchangeable d) {m : Member} :
    c.member s = .ok (.ok m) ↔ d.member s = .ok (.ok m) := by
  rw [member_ok_iff, member_ok_iff, h.member, h.raw_eq s, h.holder s, h.place s, h.position s]

/-- A removal can be made exactly if the address can be written and the member is found. -/
theorem planRemove_ok_iff : c.planRemove s = .ok (.ok (uri, t)) ↔
    c.uri = .ok uri ∧ ∃ m, c.member s = .ok (.ok m) ∧ t = m.erase s := by
  unfold planRemove
  constructor
  · intro h
    simp only [bind_eq_ok] at h
    obtain ⟨inside, hin, own, huri, verdict, hm, h⟩ := h
    obtain ⟨-, rfl⟩ := within_ok_iff.mp hin
    cases verdict with
    | error problem => exact (nomatch h)
    | ok m =>
      obtain ⟨rfl, rfl⟩ := Prod.mk.inj (Except.ok.inj (Except.ok.inj h))
      exact ⟨huri, m, hm, rfl⟩
  · rintro ⟨huri, m, hm, rfl⟩
    have hin : c.within "remove" = .ok c := within_ok_iff.mpr ⟨Addressed.inside ⟨uri, huri⟩, rfl⟩
    exact bind_eq_ok.mpr ⟨c, hin, bind_eq_ok.mpr ⟨uri, huri, bind_eq_ok.mpr ⟨.ok m, hm, rfl⟩⟩⟩

/-- A removal has one effect through either of two such locations. -/
theorem Exchangeable.remove (h : c.Exchangeable d) (hw : c.Addressed ↔ d.Addressed) (s : Store) :
    SameEffect (c.remove s) (d.remove s) := by
  refine Plan.sameEffect_run (fun t => ?_) s
  simp only [planRemove_ok_iff, exists_and_right, h.member_iff]
  exact and_congr_left fun _ => hw

/-- The address of a member is made of that of its collection up to the query. -/
theorem addressBehind_congr {u v : String} (h : withoutQuery u = withoutQuery v) :
    addressBehind u = addressBehind v := by
  funext piece
  rw [addressBehind, addressBehind, h]

/-- Two addresses are one up to the query, where both can be written. -/
def SameBase (c d : Cursor) : Prop :=
  ∀ u v, c.uri = .ok u → d.uri = .ok v → withoutQuery u = withoutQuery v

/-- That goes both ways. -/
theorem SameBase.symm (h : c.SameBase d) : d.SameBase c :=
  fun u v hu hv => (h v u hv hu).symm

section Insert

variable {properties : Value} {keys : List MemberKey}

/-- What can be created through one of two such locations can be through the other, if that has an
address. -/
theorem Added.exchange {others : List Value} {new : Value} {there : Position}
    (ha : Added c properties keys s uri t others new there) (h : c.Exchangeable d)
    {own : String} (hown : d.uri = .ok own) :
    ∃ uri', Added d properties keys s uri' t others new there ∧ (c.SameBase d → uri' = uri) := by
  obtain ⟨collection, piece, huri, hpiece, rfl⟩ := ha.address
  refine ⟨addressBehind own piece, ⟨?_, ha.listed, ha.member, ha.store, own, piece, hown, hpiece, rfl⟩,
    fun hbase => ?_⟩
  · rw [← h.position s]
    exact ha.position
  · rw [addressBehind_congr (hbase _ _ huri hown)]

/-- Creations that can be planned through one of two such locations can be through the other. -/
theorem Exchangeable.planInsert (h : c.Exchangeable d) (hw : c.Addressed → d.Addressed)
    (hplan : c.planInsert properties keys s = .ok (.ok (uri, t))) :
    ∃ uri', d.planInsert properties keys s = .ok (.ok (uri', t)) ∧ (c.SameBase d → uri' = uri) := by
  obtain ⟨others, new, there, ha⟩ := planInsert_ok_iff.mp hplan
  obtain ⟨collection, piece, huri, -⟩ := ha.address
  obtain ⟨own, hown⟩ := hw ⟨collection, huri⟩
  obtain ⟨uri', ha', hsame⟩ := ha.exchange h hown
  exact ⟨uri', planInsert_ok_iff.mpr ⟨others, new, there, ha'⟩, hsame⟩

/-- A creation has one effect through either of two such locations, and reports the same if the
addresses are one up to the query. -/
theorem Exchangeable.insert (h : c.Exchangeable d) (hw : c.Addressed ↔ d.Addressed)
    (hbase : c.SameBase d) (properties : Value) (keys : List MemberKey) (s : Store) :
    SameReport (c.insert properties keys s) (d.insert properties keys s) := by
  refine Plan.sameReport_run (fun uri t => ⟨fun hplan => ?_, fun hplan => ?_⟩) s
  · obtain ⟨uri', hplan', hsame⟩ := h.planInsert hw.mp hplan
    exact hsame hbase ▸ hplan'
  · obtain ⟨uri', hplan', hsame⟩ := h.symm.planInsert hw.mpr hplan
    exact hsame hbase.symm ▸ hplan'

end Insert

section Relocate

variable {c' destination destination' : Cursor} {keys : List MemberKey}

/-- A move that can be made is planned. -/
theorem planRelocate_ok_iff : c.planRelocate destination keys s = .ok (.ok (uri, t)) ↔
    ∃ m there, Planned c destination keys s uri t m there := by
  refine ⟨planRelocate_ok, ?_⟩
  rintro ⟨m, there, h⟩
  obtain ⟨items, collection, answer, hlisted, huri, hanswer, rfl⟩ := h.address
  have hpossible : ∃ first, memberUri collection m.item items.length keys = .ok (some first) := by
    obtain ⟨other, index, found, hfound⟩ := h.possible
    rw [memberUri_eq] at hfound
    obtain ⟨piece?, hpiece, hsome⟩ := map_eq_ok.mp hfound
    obtain ⟨piece, rfl, -⟩ := Option.map_eq_some_iff.mp hsome
    obtain ⟨first, hfirst⟩ := pieceOf_isSome hpiece items.length
    exact ⟨_, by rw [memberUri_eq, hfirst]; rfl⟩
  obtain ⟨first, hfirst⟩ := hpossible
  have hfound := member_ok h.found
  have hin : c.within "relocate" = .ok c :=
    within_ok_iff.mpr ⟨inside_of_position hfound.position?_eq, rfl⟩
  have hraw : destination.raw s = .ok (.list items) := by
    rw [raw_of_position h.position, hlisted]
  unfold planRelocate
  refine bind_eq_ok.mpr ⟨c, hin, bind_eq_ok.mpr ⟨_, hraw, bind_eq_ok.mpr ⟨_, h.position,
    bind_eq_ok.mpr ⟨_, huri, bind_eq_ok.mpr ⟨_, hfound.raw_eq, bind_eq_ok.mpr ⟨_, hfirst,
      bind_eq_ok.mpr ⟨_, h.found, bind_eq_ok.mpr ⟨answer, hanswer, ?_⟩⟩⟩⟩⟩⟩⟩⟩
  rw [h.store]

/-- A move that can be made of one of two such locations into one of two others can be made of the
other into the other, if that has an address. -/
theorem Planned.exchange {m : Member} {there : Position}
    (hp : Planned c destination keys s uri t m there) (hc : c.Exchangeable c')
    (hd : destination.Exchangeable destination') {own : String} (hown : destination'.uri = .ok own) :
    ∃ uri', Planned c' destination' keys s uri' t m there ∧
      (destination.SameBase destination' → uri' = uri) := by
  obtain ⟨items, collection, answer, hlisted, huri, hanswer, rfl⟩ := hp.address
  have hfound : c'.member s = .ok (.ok m) := hc.member_iff.mp hp.found
  have hposition : destination'.position? s = .ok (some there) := by
    rw [← hd.position s]
    exact hp.position
  rw [memberUri_eq] at hanswer
  obtain ⟨piece, hpiece, rfl⟩ := map_eq_ok.mp hanswer
  refine ⟨(piece.map (addressBehind own)).getD "", ⟨hfound, hposition, hp.listed, hp.possible, hp.store,
    items, own, piece.map (addressBehind own), hlisted, hown, ?_, rfl⟩, fun hbase => ?_⟩
  · rw [memberUri_eq, hpiece]
    rfl
  · rw [addressBehind_congr (hbase _ _ huri hown)]

/-- Moves that can be planned with some locations can be with others that stand for them. -/
theorem Exchangeable.planRelocate (hc : c.Exchangeable c') (hd : destination.Exchangeable destination')
    (hw : destination.Addressed → destination'.Addressed)
    (hplan : c.planRelocate destination keys s = .ok (.ok (uri, t))) :
    ∃ uri', c'.planRelocate destination' keys s = .ok (.ok (uri', t)) ∧
      (destination.SameBase destination' → uri' = uri) := by
  obtain ⟨m, there, hp⟩ := planRelocate_ok hplan
  obtain ⟨-, collection, -, -, huri, -⟩ := hp.address
  obtain ⟨own, hown⟩ := hw ⟨collection, huri⟩
  obtain ⟨uri', hp', hsame⟩ := hp.exchange hc hd hown
  exact ⟨uri', planRelocate_ok_iff.mpr ⟨m, there, hp'⟩, hsame⟩

/-- A move has one effect with locations that stand for the ones given. -/
theorem Exchangeable.relocate (hc : c.Exchangeable c') (hd : destination.Exchangeable destination')
    (hw : destination.Addressed ↔ destination'.Addressed) (keys : List MemberKey) (s : Store) :
    SameEffect (c.relocate destination keys s) (c'.relocate destination' keys s) := by
  refine Plan.sameEffect_run (fun t => ⟨?_, ?_⟩) s
  · rintro ⟨uri, hplan⟩
    obtain ⟨uri', hplan', -⟩ := hc.planRelocate hd hw.mp hplan
    exact ⟨uri', hplan'⟩
  · rintro ⟨uri, hplan⟩
    obtain ⟨uri', hplan', -⟩ := hc.symm.planRelocate hd.symm hw.mpr hplan
    exact ⟨uri', hplan'⟩

/-- It reports the same if the addresses of the destinations are one up to the query. -/
theorem Exchangeable.relocate_report (hc : c.Exchangeable c')
    (hd : destination.Exchangeable destination')
    (hw : destination.Addressed ↔ destination'.Addressed) (hbase : destination.SameBase destination')
    (keys : List MemberKey) (s : Store) :
    SameReport (c.relocate destination keys s) (c'.relocate destination' keys s) := by
  refine Plan.sameReport_run (fun uri t => ⟨fun hplan => ?_, fun hplan => ?_⟩) s
  · obtain ⟨uri', hplan', hsame⟩ := hc.planRelocate hd hw.mp hplan
    exact hsame hbase ▸ hplan'
  · obtain ⟨uri', hplan', hsame⟩ := hc.symm.planRelocate hd.symm hw.mpr hplan
    exact hsame hbase.symm ▸ hplan'

end Relocate

end Cursor

end ResourceAtlas
