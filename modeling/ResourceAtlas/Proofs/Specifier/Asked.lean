import Mathlib.Logic.Relation
import ResourceAtlas.Proofs.Query.Legible
import ResourceAtlas.Proofs.Registry.Onward
import ResourceAtlas.Proofs.Registry.Stem
import ResourceAtlas.Specifier.Call

/-!
# Collections that are asked for more

Calls of `whose`, `sort_by`, `paginate` and `expand` leave a collection at its place and gather what is
asked there. One call keeps what is asked on distinct fields, and so does a chain of calls, by induction
along the chain. The address then leads to the same collection, with the query that its text is read
as; if that text is legible, the collection shows under the query that is read what it shows under the
one that was gathered.
-/

namespace ResourceAtlas

open Address Number Query Schema Text

namespace Specifier

/-- One call that asks a specifier for more. -/
inductive Asks (a : Atlas) (spec : Specifier) : Specifier → Prop
  /-- Comparisons are asked to hold. -/
  | whose {next : Specifier} (comparisons : List Comparison)
      (h : spec.callAsking a "whose" (.filter comparisons) = .ok next) : Asks a spec next
  /-- An order, a window or fields to fill in are asked for. -/
  | query {next : Specifier} {s t : Store} {m : Method} (name : String) (arguments : List Value)
      (hm : m = .sortBy ∨ m = .paginate ∨ m = .expand) (hname : spec.get a name = .ok (.method m))
      (h : spec.call a name arguments s = (.ok (.specifier next), t)) : Asks a spec next

/-- What a change asks for is asked at the same place, in the form that honours queries. -/
theorem asking_ok {spec next : Specifier} {c : Change} (h : spec.asking c = .ok next) :
    ∃ q, c.apply spec.cursor.query = .ok q ∧ spec.cursor.isOutside = false ∧
      next = spec.derive (spec.cursor.withQuery q) spec.node.queryable := by
  obtain ⟨q, hq, h⟩ := bind_eq_ok.mp h
  obtain ⟨cursor, hcursor, h⟩ := bind_eq_ok.mp h
  obtain ⟨hin, rfl⟩ := Cursor.within_ok_iff.mp hcursor
  exact ⟨q, hq, hin, (Except.ok.inj h).symm⟩

/-- A call that asks for more makes a change to what is asked. -/
theorem Asks.exists_asking {a : Atlas} {spec next : Specifier} (h : Asks a spec next) :
    ∃ c, spec.asking c = .ok next := by
  cases h with
  | whose comparisons h =>
    obtain ⟨-, -, h⟩ := bind_eq_ok.mp h
    exact ⟨_, h⟩
  | query name arguments hm hname h =>
    unfold call at h
    rw [hname] at h
    have hmap : ∀ {c : Change}, (spec.asking c).map Answer.specifier = .ok (.specifier next) →
        ∃ c, spec.asking c = .ok next := by
      intro c hc
      obtain ⟨found, hfound, heq⟩ := map_eq_ok.mp hc
      obtain rfl := Answer.specifier.inj heq
      exact ⟨c, hfound⟩
    rcases hm with rfl | rfl | rfl
    · match arguments, (Prod.mk.inj h).1 with
      | [_], h => exact hmap h
      | [_, _], h => exact hmap h
    · match arguments, (Prod.mk.inj h).1 with
      | [], h => exact hmap h
      | [_], h => exact hmap h
      | [_, _], h => exact hmap h
    · match arguments, (Prod.mk.inj h).1 with
      | [_], h =>
        obtain ⟨-, -, h⟩ := bind_eq_ok.mp h
        obtain ⟨names, -, h⟩ := bind_eq_ok.mp h
        exact hmap h

end Specifier

/-- The form that honours queries honours them already. -/
theorem Schema.Node.queryable_queryable (n : Node) : n.queryable.queryable = n.queryable := by
  rw [queryable, if_pos (kind_queryable n)]

section Shown

variable {catalog : Catalog} {resolve : Resolver} {c d : Cursor}

/-- Fields of near members are filled in alike. -/
theorem filled_near {fields : List String} (hfields : fields = [] ∨ catalog.Forward)
    (hr : catalog.Forward → resolve.Congruent) (h : c.Near d) (item : Node)
    (selected : List (Value × Nat)) (shown : List Value) :
    filled catalog resolve item c fields selected shown =
      filled catalog resolve item d fields selected shown := by
  rcases hfields with rfl | hd
  · unfold filled
    dsimp only
    rw [expandItems_nil, expandItems_nil]
  · have hfield : ∀ (i : Nat) (name : String),
        fieldValue catalog resolve item
            (c.atIndex (.int ((selected.map (·.2)).getD i 0))) name =
          fieldValue catalog resolve item
            (d.atIndex (.int ((selected.map (·.2)).getD i 0))) name :=
      fun i name => fieldValue_twin hd (hr hd) item (h.twin _ _) name
    unfold filled
    simp only [hfield]

/-- A query answers what a near one answers that it shows. -/
theorem selectedReferences_shown (hfields : c.query.expand = [] ∨ catalog.Forward)
    (hr : catalog.Forward → resolve.Congruent) {node : Node} (h : c.Near d)
    (hq : c.query.ShownBy d.query) {data : Value} {answer : List Value}
    (ha : selectedReferences catalog resolve node c data = .ok answer) :
    selectedReferences catalog resolve node d data = .ok answer := by
  obtain ⟨items, selected, shown, hitems, hselected, hshown⟩ := selectedReferences_ok ha
  rw [selectedReferences_eq hitems hselected hshown] at ha
  rw [selectedReferences_eq hitems (hq.select hselected) (h.references_eq _ ▸ hshown)]
  obtain ⟨item?, hitem, ha⟩ := bind_eq_ok.mp ha
  refine bind_eq_ok.mpr ⟨item?, hitem, ?_⟩
  cases item? with
  | none => exact ha
  | some item =>
    obtain ⟨fields, hfill, ha⟩ := bind_eq_ok.mp ha
    have hnone : fields = [] ∨ catalog.Forward := by
      refine hfields.imp_left fun hempty => ?_
      rw [hempty] at hfill
      exact (Except.ok.inj hfill).symm
    refine bind_eq_ok.mpr ⟨fields, by rw [hq.expand]; exact hfill, ?_⟩
    rw [← filled_near hnone hr h]
    exact ha

/-- A node that shows selected members shows at one location what it shows at a near one, if the query
there shows the query here. -/
theorem resolveWithin_selected_shown (hfields : c.query.expand = [] ∨ catalog.Forward) {s : Store}
    {depth : Nat} {node : Node} (hn : node.resolution = .selected) (h : c.Near d)
    (hq : c.query.ShownBy d.query) {v : Value}
    (hv : resolveWithin catalog s depth node c = .ok v) :
    resolveWithin catalog s depth node d = .ok v := by
  cases depth with
  | zero => exact hv
  | succ depth =>
    rw [resolveWithin_selected s depth hn] at hv ⊢
    obtain ⟨data, hdata, hv⟩ := bind_eq_ok.mp hv
    obtain ⟨answer, hanswer, rfl⟩ := map_eq_ok.mp hv
    refine bind_eq_ok.mpr ⟨data, (h.raw_eq s).symm.trans hdata, map_eq_ok.mpr ⟨answer, ?_, rfl⟩⟩
    exact selectedReferences_shown hfields (fun hd => resolveWithin_congruent hd s depth) h hq hanswer

/-- A collection that is asked for nothing shows one value at near locations. -/
theorem resolveWithin_unasked {s : Store} {depth : Nat} {node : Node} (hn : node.Regular)
    (hk : node.kind.isCollection = true) (h : c.Near d) (hc : c.query = .empty)
    (hd : d.query = .empty) {v : Value} (hv : resolveWithin catalog s depth node c = .ok v) :
    resolveWithin catalog s depth node d = .ok v := by
  cases hkind : node.kind with
  | collection =>
    cases depth with
    | zero => exact hv
    | succ depth =>
      rw [resolveWithin_members s depth (hn.members hkind), ← h.raw_eq s]
      rw [resolveWithin_members s depth (hn.members hkind)] at hv
      simp only [← h.references_eq]
      exact hv
  | query =>
    have hsame : c.query.ShownBy d.query := by
      rw [hc, hd]
      exact ⟨fun hselect => hselect, rfl⟩
    exact resolveWithin_selected_shown (.inl (by rw [hc]; rfl)) (hn.selected hkind) h hsame hv
  | _ =>
    rw [hkind] at hk
    exact (nomatch hk)

end Shown

namespace Atlas

variable {a : Atlas}

/-- A specifier stands where segments lead without their queries, and what is asked of it is
gathered. -/
structure Standing.Gathers (here : Standing) (spec : Specifier) : Prop where
  /-- The specifier is below the segments. -/
  below : here.Below ⟨spec.cursor, spec.node⟩
  /-- What is asked is gathered. -/
  gathered : spec.cursor.query.Gathered

/-- A specifier that is asked for more stands where it stood, and what is asked stays gathered. -/
theorem Standing.Gathers.asks {here : Standing} {spec next : Specifier} (h : here.Gathers spec)
    (ha : spec.Asks a next) : here.Gathers next := by
  obtain ⟨c, hc⟩ := ha.exists_asking
  obtain ⟨q, hq, hin, rfl⟩ := Specifier.asking_ok hc
  refine ⟨⟨h.below.near.trans (Cursor.near_withQuery _ _), .inr ?_⟩, ?_⟩
  · change spec.node.queryable = here.node.queryable
    rcases h.below.node_eq with hn | hn
    · rw [show spec.node = here.node from hn]
    · rw [show spec.node = here.node.queryable from hn, Node.queryable_queryable]
  · change (spec.cursor.withQuery q).query.Gathered
    rw [Cursor.query_withQuery hin]
    exact h.gathered.apply hq

/-- A chain of calls that ask for more leaves a specifier where it stood, and what is asked gathered. -/
theorem Standing.Gathers.chain {here : Standing} {spec last : Specifier} (h : here.Gathers spec)
    (hchain : Relation.ReflTransGen (Specifier.Asks a) spec last) : here.Gathers last := by
  induction hchain with
  | refl => exact h
  | tail _ hask ih => exact ih.asks hask

/-- What a request asks for is gathered. -/
theorem gathered_request (r : Request) : (r.apply .empty).Gathered := by
  rw [apply_empty]
  exact ⟨Keyed.nodup_ofList _, State.unrepeated_addFields _ .nil⟩

/-- What a location without computed ways leads to stands where its segments lead without their
queries, and what is asked is gathered. -/
theorem exists_gathers {l : Location} {spec : Specifier}
    (hd : ∀ what, Keyed.get? l.scheme a.registry.schemes = some what →
      a.Straight (a.start l.scheme what) l.segments)
    (h : a.locate l = .ok (.ok spec)) :
    ∃ what mid, Keyed.get? l.scheme a.registry.schemes = some what ∧
      a.walk (a.start l.scheme what) l.stem = .ok (.ok mid) ∧
      a.Straight (a.start l.scheme what) l.stem ∧ mid.Gathers spec := by
  obtain ⟨what, mid, hwhat, hmid, hstraight, hbelow⟩ := locate_unasked hd h
  refine ⟨what, mid, hwhat, hmid, hstraight, hbelow, ?_⟩
  obtain ⟨what', there, hwhat', hwalk, rfl⟩ := locate_ok h
  rcases walk_asks (hd what' hwhat') rfl hwalk with hempty | ⟨s, -, r, -, hasks⟩
  · exact hempty ▸ State.gathered_empty
  · exact hasks ▸ gathered_request r

/-- An address leads to a collection once its queries are left out. -/
def LeadsToCollection (a : Atlas) (l : Location) : Prop :=
  ∀ place, a.locate ⟨l.scheme, l.stem⟩ = .ok (.ok place) → place.node.kind.isCollection = true

/-- A collection shows at its own place what a specifier shows that stands there and is asked for
nothing that can be told. -/
theorem Standing.Gathers.resolve_bare {here : Standing} {spec : Specifier} {s : Store}
    (h : here.Gathers spec) (hn : here.node.Regular) (hk : here.node.kind.isCollection = true)
    (hquery : here.cursor.query = .empty) (hshown : spec.cursor.query.ShownBy .empty) {v : Value}
    (hv : spec.resolve a.catalog s = .ok v) :
    Specifier.resolve a.catalog s ⟨here.cursor, here.node, true⟩ = .ok v := by
  unfold Specifier.resolve at hv ⊢
  rcases h.below.node with ⟨hnode, hempty⟩ | hnode
  · rw [show spec.node = here.node from hnode] at hv
    exact resolveWithin_unasked hn hk h.below.near.symm hempty hquery hv
  · rw [show spec.node = here.node.queryable from hnode] at hv
    refine resolveWithin_queryable hn hk hquery ?_
    refine resolveWithin_selected_shown (.inl hshown.expand.symm) (Node.resolution_queryable hn)
      h.below.near.symm ?_ hv
    rw [hquery]
    exact hshown

/-- A collection that is asked for a query shows what a specifier shows that stands there and is asked
for what the query shows. -/
theorem Standing.Gathers.resolve_asked {here : Standing} {spec : Specifier} {s : Store}
    (h : here.Gathers spec) (hn : here.node.Regular) (hin : here.cursor.isOutside = false)
    (hask : spec.cursor.query ≠ .empty) (hfields : spec.cursor.query.expand = [] ∨ a.catalog.Forward)
    {q : State} (hshown : spec.cursor.query.ShownBy q) {v : Value}
    (hv : spec.resolve a.catalog s = .ok v) :
    Specifier.resolve a.catalog s ⟨here.cursor.withQuery q, here.node.queryable, true⟩ = .ok v := by
  unfold Specifier.resolve at hv ⊢
  rcases h.below.node with ⟨-, hempty⟩ | hnode
  · exact absurd hempty hask
  · rw [show spec.node = here.node.queryable from hnode] at hv
    refine resolveWithin_selected_shown hfields (Node.resolution_queryable hn)
      (h.below.near.symm.trans (Cursor.near_withQuery _ _)) ?_ hv
    rw [Cursor.query_withQuery hin]
    exact hshown

/-- The folders of a scheme, asked for what a state says. -/
def foldersAsked (q : State) : Specifier :=
  ⟨((Cursor.atRoot 0 "s").property "folders").withQuery q,
    ((folders folderAccessors).catalog.node 1).queryable, true⟩

/-- The folders of a scheme. -/
def foldersUnasked : Specifier :=
  ⟨(Cursor.atRoot 0 "s").property "folders", (folders folderAccessors).catalog.node 1, true⟩

/-- A folder of a name, a rank and a department. -/
def rankedFolder (name : String) (rank : Int) (department : String) : Value :=
  .mapping [("name", .text name), ("rank", .int rank), ("R&D", .text department)]

/-- A store with two folders. -/
def rankedFolders : Store :=
  folderStore [rankedFolder "A" 2 "x", rankedFolder "AB" 1 "y"]

/-- A reference to a folder. -/
def folderAt (uri : String) : Value :=
  .mapping [("uri", .text uri)]

/-- The address of folders leads to them. -/
theorem resolve_folders :
    (folders folderAccessors).resolve "s://folders" = .ok (.ok foldersUnasked) := by
  rw [resolve_of_read (l := ⟨"s", [⟨"folders", none⟩]⟩) (by decide +kernel)]
  rfl

/-- The first of the folders of a name that starts with a letter, in the opposite order of the names. -/
def firstFolder : State :=
  ⟨[("name", ⟨.startsWith, .text "A"⟩)], some ⟨.text "name", .descending⟩,
    some (.ofCounts (some 1) none), []⟩

/-- Folders that a comparison finds are not found by the address that asking for it reports. -/
def Loses (comparison : Comparison) (uri : String) : Prop :=
  ∃ asked again, foldersUnasked.callAsking (folders folderAccessors) "whose" (.filter [comparison]) =
      .ok asked ∧
    asked.resolve (folders folderAccessors).catalog rankedFolders =
      .ok (.list [folderAt "s://folders%5B0%5D"]) ∧
    asked.uri = .ok uri ∧ (folders folderAccessors).resolve uri = .ok (.ok again) ∧
    again.resolve (folders folderAccessors).catalog rankedFolders = .ok (.list [])

end Atlas

end ResourceAtlas
