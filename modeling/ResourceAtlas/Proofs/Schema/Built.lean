import ResourceAtlas.Proofs.Keyed
import ResourceAtlas.Proofs.Outcome
import ResourceAtlas.Proofs.Schema.Regular
import ResourceAtlas.Schema.Blueprint

/-!
# What building keeps

A property that no form of a node loses holds of every node of a catalog in the making, whatever
definitions and blueprints are built in it. Some forms may be left out: then the property holds of
what is built from blueprints without them. Every catalog that is built is regular, and the children
of its nodes stand under distinct keys.
-/

namespace ResourceAtlas.Schema

namespace Blueprint

/-- The blueprints that a blueprint holds. -/
def parts : Blueprint → List Blueprint
  | .gathering children => children.map (·.2)
  | .deferred children => children.map (·.2)
  | .collection item _ => [item]
  | .aliased base _ => [base]
  | .delayed base => [base]
  | .grouping base => [base]
  | .described base _ => [base]
  | .queryable base => [base]
  | .referencesOnly base => [base]
  | .reached base _ => [base]
  | .extended base children => base :: children.map (·.2)
  | .equipped base _ _ => [base]
  | _ => []

/-- A property holds of a blueprint and of all that it holds. -/
inductive Every (admits : Blueprint → Prop) : Blueprint → Prop
  /-- It holds of the blueprint, and of every part all through. -/
  | intro {b : Blueprint} : admits b → (∀ part ∈ b.parts, Every admits part) → Every admits b

variable {admits : Blueprint → Prop}

/-- The property holds of the blueprint. -/
theorem Every.here {b : Blueprint} (h : b.Every admits) : admits b := by
  cases h with
  | intro hb _ => exact hb

/-- The property holds of a part all through. -/
theorem Every.part {b part : Blueprint} (h : b.Every admits) (hpart : part ∈ b.parts) :
    part.Every admits := by
  cases h with
  | intro _ hparts => exact hparts part hpart

/-- The property holds of a child all through. -/
theorem Every.child {b : Blueprint} (h : b.Every admits) {children : List (String × Blueprint)}
    (hsub : children.map (·.2) ⊆ b.parts) : ∀ e ∈ children, e.2.Every admits :=
  fun _ he => h.part (hsub (List.mem_map_of_mem he))

/-- A keyed blueprint is smaller than all of them. -/
theorem size_le_sizeAll {children : List (String × Blueprint)} {b : Blueprint}
    (h : b ∈ children.map (·.2)) : b.size ≤ sizeAll children := by
  induction children with
  | nil => exact absurd h List.not_mem_nil
  | cons _ rest ih =>
    rw [List.map_cons, List.mem_cons] at h
    rw [sizeAll]
    rcases h with rfl | h
    · omega
    · have hrest := ih h
      omega

/-- A part is smaller than what holds it. -/
theorem size_lt_of_mem_parts {b part : Blueprint} (h : part ∈ b.parts) : part.size < b.size := by
  cases b with
  | gathering children =>
    have hle := size_le_sizeAll h
    rw [size]
    omega
  | deferred children =>
    have hle := size_le_sizeAll h
    rw [size]
    omega
  | extended base children =>
    rw [size]
    rcases List.mem_cons.mp h with rfl | h
    · omega
    · have hle := size_le_sizeAll h
      omega
  | named | leaf | computed => exact absurd h List.not_mem_nil
  | _ =>
    obtain rfl := List.mem_singleton.mp h
    rw [size]
    omega

/-- What holds of all blueprints holds of one all through. -/
theorem every_of_forall (h : ∀ b, admits b) (b : Blueprint) : b.Every admits :=
  .intro (h b) fun part hpart =>
    have := size_lt_of_mem_parts hpart
    every_of_forall h part
termination_by b.size

end Blueprint

/-- A form of a regular node that keeps its kind and how its value is made, and that is not entered
otherwise by staying, is regular. -/
theorem Node.Regular.of_eq {n m : Node} (h : n.Regular) (hk : m.kind = n.kind)
    (hr : m.resolution = n.resolution)
    (hn : m.navigation = some .namespaced → n.navigation = some .namespaced ∧
      m.isNamespace = n.isNamespace) : m.Regular :=
  ⟨fun hm => hr.trans (h.members (hk.symm.trans hm)),
    fun hm => hr.trans (h.selected (hk.symm.trans hm)),
    fun hm => (hn hm).2.trans (h.grouped (hn hm).1)⟩

/-- A node without children has none under one key. -/
theorem Node.distinct_of_nil {n : Node} (h : n.children = .ok []) : n.Distinct :=
  fun _ hown => Except.ok.inj (h.symm.trans hown) ▸ List.nodup_nil

/-- The form that honours queries has the same children. -/
theorem Node.children_queryable (n : Node) : n.queryable.children = n.children := by
  unfold Node.queryable
  split <;> rfl

/-- A node of a kind that shows no references is regular. -/
theorem Node.regular_of_kind {n : Node} (h : n.kind.isCollection = false)
    (hn : n.navigation = some .namespaced → n.isNamespace = true) : n.Regular := by
  refine ⟨fun hk => ?_, fun hk => ?_, hn⟩
  · rw [hk] at h
    exact absurd h (by decide)
  · rw [hk] at h
    exact absurd h (by decide)

namespace Workshop

/-- A property that no admitted blueprint takes from a node. -/
structure Kept (admits : Blueprint → Prop) (p : Node → Prop) : Prop where
  /-- Leaves have it. -/
  leaf : ∀ v, p (Node.leaf v)
  /-- Gatherings of children under distinct keys have it. -/
  gathering : ∀ {children}, (Keyed.keys children).Nodup → p (Node.gathering children)
  /-- Leaves that are transformed have it. -/
  computed : ∀ t, p (Node.plain .computed (.computed t))
  /-- Collections have it. -/
  collection : ∀ {item words n}, collectionOf item words = .ok n → p n
  /-- Groupings have it. -/
  grouping : ∀ target n, p (Node.grouping target n)
  /-- Under another key it stays. -/
  aliasing : ∀ {n} (backing), p n → p (n.aliasing backing)
  /-- As a reference it stays. -/
  delayed : ∀ {n}, p n → p n.delayed
  /-- With a text it stays. -/
  described : ∀ {n} (text), p n → p (n.described text)
  /-- With queries it stays. -/
  queryable : ∀ {n}, p n → p n.queryable
  /-- Where it is reached by a computed way it stays. -/
  reached : ∀ {n} (motions target), p n → p (n.reachedBy motions target)
  /-- With other children under distinct keys it stays. -/
  children : ∀ {n : Node} {children : Outcome (Keyed NodeId)},
    (∀ own, children = .ok own → (Keyed.keys own).Nodup) → p n → p { n with children := children }
  /-- With bare references it stays, if that is admitted. -/
  referencesOnly : ∀ {b n}, admits (.referencesOnly b) → p n → p n.referencesOnly
  /-- With a method it stays, if that is admitted. -/
  equipped : ∀ {b name m n}, admits (.equipped b name m) → p n → p (n.withMethod name m)

/-- Children that are kept back are admitted all through, and stand under distinct keys once they are
built. -/
structure Pending.Kept (admits : Blueprint → Prop) (q : Pending) : Prop where
  /-- They are admitted. -/
  parts : ∀ e ∈ q.parts, e.2.Every admits
  /-- Their keys are distinct. -/
  built : ∀ own, q.built = some (.ok own) → (Keyed.keys own).Nodup

/-- All nodes in the making have a property and their children distinct keys, and what is kept back is
admitted all through. -/
structure All (admits : Blueprint → Prop) (p : Node → Prop) (w : Workshop) : Prop where
  /-- The nodes have the property. -/
  drafts : ∀ d ∈ w.drafts, p d.node
  /-- The keys of their children are distinct. -/
  distinct : ∀ d ∈ w.drafts, d.node.Distinct
  /-- What is kept back is admitted. -/
  pending : ∀ q ∈ w.pending, Pending.Kept admits q

/-- A step of building that leaves such a workshop behind and answers something of a kind. -/
def Keeps (admits : Blueprint → Prop) (p : Node → Prop) {α : Type} (step : Building α)
    (kind : α → Prop) : Prop :=
  ∀ w, All admits p w → ∀ answer w', step w = .ok (answer, w') → kind answer ∧ All admits p w'

variable {admits : Blueprint → Prop} {p : Node → Prop} {α β : Type}

/-- A step that builds nothing. -/
theorem keeps_pure {kind : α → Prop} {answer : α} (h : kind answer) :
    Keeps admits p (pure answer) kind := by
  intro w hw answer' w' hrun
  obtain ⟨rfl, rfl⟩ := Prod.mk.inj (Except.ok.inj hrun)
  exact ⟨h, hw⟩

/-- A step that breaks off. -/
theorem keeps_throw {kind : α → Prop} (f : Fault) : Keeps admits p (throw f) kind :=
  fun _ _ _ _ hrun => (nomatch hrun)

/-- A step that answers what is found and keeps the workshop as it is. -/
theorem keeps_read {kind : α → Prop} {answer : Outcome α} (h : ∀ x, answer = .ok x → kind x) :
    Keeps admits p (fun w => answer.map fun x => (x, w)) kind := by
  intro w hw x w' hrun
  cases ha : answer with
  | error f =>
    rw [ha] at hrun
    exact (nomatch hrun)
  | ok y =>
    rw [ha] at hrun
    obtain ⟨rfl, rfl⟩ := Prod.mk.inj (Except.ok.inj hrun)
    exact ⟨h y ha, hw⟩

/-- A step after another one, of whose answer something is known. -/
theorem keeps_after {step : Building α} {next : α → Building β} {kind : α → Prop}
    {kind' : β → Prop} (h : Keeps admits p step kind)
    (hnext : ∀ x, kind x → Keeps admits p (next x) kind') :
    Keeps admits p (step >>= next) kind' := by
  intro w hw answer w' hrun
  simp only [bind, StateT.bind] at hrun
  cases hs : step w with
  | error f =>
    rw [hs] at hrun
    exact absurd hrun (by simp [Except.bind])
  | ok pair =>
    obtain ⟨x, mid⟩ := pair
    rw [hs] at hrun
    obtain ⟨hx, hmid⟩ := h w hw x mid hs
    exact hnext x hx mid hmid answer w' hrun

/-- A step after another one. -/
theorem keeps_bind {step : Building α} {next : α → Building β} {kind : β → Prop}
    (h : Keeps admits p step fun _ => True) (hnext : ∀ x, Keeps admits p (next x) kind) :
    Keeps admits p (step >>= next) kind :=
  keeps_after h fun x _ => hnext x

/-- Putting a node with the property into the catalog. -/
theorem keeps_put {d : Draft} (hd : p d.node) (hdistinct : d.node.Distinct) :
    Keeps admits p (put d) fun _ => True := by
  intro w hw answer w' hrun
  obtain ⟨-, rfl⟩ := Prod.mk.inj (Except.ok.inj hrun)
  refine ⟨trivial, fun e he => ?_, fun e he => ?_, hw.pending⟩
  · rcases Array.mem_push.mp he with he | rfl
    · exact hw.drafts e he
    · exact hd
  · rcases Array.mem_push.mp he with he | rfl
    · exact hw.distinct e he
    · exact hdistinct

/-- The draft of a node has the property, and its children distinct keys. -/
theorem keeps_draft (hk : Kept admits p) (id : NodeId) :
    Keeps admits p (draft id) fun d => p d.node ∧ d.node.Distinct := by
  intro w hw answer w' hrun
  obtain ⟨rfl, rfl⟩ := Prod.mk.inj (Except.ok.inj hrun)
  refine ⟨?_, hw⟩
  rw [Array.getD_eq_getD_getElem?]
  cases hg : w.drafts[id]? with
  | none => exact ⟨hk.leaf none, Node.distinct_of_nil rfl⟩
  | some d =>
    have hmem := Array.mem_of_getElem? hg
    exact ⟨hw.drafts d hmem, hw.distinct d hmem⟩

/-- Putting a form of a node into the catalog that keeps the property and the children. -/
theorem keeps_derive (hk : Kept admits p) {f : Node → Node} (id : NodeId)
    (hf : ∀ {n : Node}, p n → p (f n)) (hchildren : ∀ n, (f n).children = n.children) :
    Keeps admits p (derive id f) fun _ => True :=
  keeps_after (keeps_draft hk id) fun d hd =>
    keeps_put (hf hd.1) fun own hown => hd.2 own ((hchildren d.node).symm.trans hown)

/-- A step that changes no node and keeps nothing back. -/
theorem keeps_of_eq {step : Building α}
    (h : ∀ w answer w', step w = .ok (answer, w') →
      w'.drafts = w.drafts ∧ w'.pending = w.pending) :
    Keeps admits p step fun _ => True := by
  intro w hw answer w' hrun
  obtain ⟨hdrafts, hpending⟩ := h w answer w' hrun
  exact ⟨trivial, hdrafts ▸ hw.drafts, hdrafts ▸ hw.distinct, hpending ▸ hw.pending⟩

/-- Looking up a name. -/
theorem keeps_lookup (name : String) : Keeps admits p (lookup name) fun _ => True := by
  refine keeps_of_eq fun w answer w' hrun => ?_
  unfold lookup at hrun
  split at hrun
  · exact (Prod.mk.inj (Except.ok.inj hrun)).2 ▸ ⟨rfl, rfl⟩
  · exact absurd hrun (by simp)

/-- Looking up a name that may be defined later. -/
theorem keeps_foresee (name : String) : Keeps admits p (foresee name) fun _ => True := by
  refine keeps_of_eq fun w answer w' hrun => ?_
  unfold foresee at hrun
  split at hrun <;> exact (Prod.mk.inj (Except.ok.inj hrun)).2 ▸ ⟨rfl, rfl⟩

/-- Keeping admitted children back. -/
theorem keeps_postpone {parts : List (String × Blueprint)}
    (h : ∀ e ∈ parts, e.2.Every admits) : Keeps admits p (postpone parts) fun _ => True := by
  intro w hw answer w' hrun
  obtain ⟨-, rfl⟩ := Prod.mk.inj (Except.ok.inj hrun)
  refine ⟨trivial, hw.drafts, hw.distinct, fun q hq => ?_⟩
  rcases Array.mem_push.mp hq with hq | rfl
  · exact hw.pending q hq
  · exact ⟨h, fun own hown => (nomatch hown)⟩

/-- The children that are kept back are admitted. -/
theorem keeps_pendingAt (i : Nat) : Keeps admits p (pendingAt i) (Pending.Kept admits) := by
  intro w hw answer w' hrun
  obtain ⟨rfl, rfl⟩ := Prod.mk.inj (Except.ok.inj hrun)
  refine ⟨?_, hw⟩
  rw [Array.getD_eq_getD_getElem?]
  cases hg : w.pending[i]? with
  | none =>
    refine ⟨fun e he => absurd he List.not_mem_nil, fun own hown => ?_⟩
    obtain rfl := Except.ok.inj (Option.some.inj hown)
    exact List.nodup_nil
  | some q => exact hw.pending q (Array.mem_of_getElem? hg)

/-- Noting the nodes of children that were kept back, under distinct keys. -/
theorem keeps_settle (i : Nat) {built : Outcome (Keyed NodeId)}
    (h : ∀ own, built = .ok own → (Keyed.keys own).Nodup) :
    Keeps admits p (settle i built) fun _ => True := by
  intro w hw answer w' hrun
  obtain ⟨-, rfl⟩ := Prod.mk.inj (Except.ok.inj hrun)
  refine ⟨trivial, hw.drafts, hw.distinct, fun q hq => ?_⟩
  obtain ⟨j, hj, rfl⟩ := Array.mem_iff_getElem.mp hq
  rw [Array.size_modify] at hj
  have hold := hw.pending w.pending[j] (Array.getElem_mem hj)
  rw [Array.getElem_modify]
  split
  · exact ⟨hold.parts, fun own hown => h own (Option.some.inj hown)⟩
  · exact hold

/-- A collection has no children of its own. -/
theorem distinct_collectionOf {item : NodeRef} {words : List String} {n : Node}
    (h : collectionOf item words = .ok n) : n.Distinct := by
  unfold collectionOf at h
  split at h
  · exact absurd h (by simp)
  · obtain rfl := Except.ok.inj h
    exact Node.distinct_of_nil rfl

/-- Putting a collection into the catalog. -/
theorem keeps_collection (hk : Kept admits p) (item : NodeRef) (words : List String) :
    Keeps admits p (do
      let node ← collectionOf item words
      put ⟨node, none⟩) fun _ => True := by
  cases hc : collectionOf item words with
  | error f => exact fun _ _ _ _ hrun => (nomatch hrun)
  | ok n => exact keeps_put (hk.collection hc) (distinct_collectionOf hc)

/-- Building keyed blueprints. -/
theorem keeps_buildEach {build : Blueprint → Building NodeId}
    (h : ∀ b, b.Every admits → Keeps admits p (build b) fun _ => True)
    {parts : List (String × Blueprint)} (hparts : ∀ e ∈ parts, e.2.Every admits) :
    Keeps admits p (buildEach build parts) fun _ => True := by
  induction parts with
  | nil => exact keeps_pure trivial
  | cons e rest ih =>
    have hrest := ih fun e he => hparts e (List.mem_cons_of_mem _ he)
    exact keeps_bind (h e.2 (hparts e List.mem_cons_self)) fun _ =>
      keeps_bind hrest fun _ => keeps_pure trivial

/-- Building the children of a draft, under distinct keys. -/
theorem keeps_childrenOf {build : Blueprint → Building NodeId}
    (h : ∀ b, b.Every admits → Keeps admits p (build b) fun _ => True) {d : Draft}
    (hd : d.node.Distinct) :
    Keeps admits p (childrenOf build d) fun own => (Keyed.keys own).Nodup := by
  unfold childrenOf
  cases d.pending with
  | none => exact keeps_read hd
  | some i =>
    refine keeps_after (keeps_pendingAt i) fun q hq => ?_
    cases hbuilt : q.built with
    | some children => exact keeps_read fun own hown => hq.built own (hown ▸ hbuilt)
    | none =>
      refine keeps_bind (keeps_buildEach h hq.parts) fun children =>
        keeps_bind (keeps_settle i fun own hown => ?_) fun _ =>
          keeps_pure (Keyed.nodup_ofList children)
      exact Except.ok.inj hown ▸ Keyed.nodup_ofList children

/-- Building the node of a blueprint, by induction on how deep blueprints may lie inside each
other. -/
theorem keeps_buildWithin (hk : Kept admits p) (depth : Nat) {b : Blueprint}
    (hb : b.Every admits) : Keeps admits p (buildWithin depth b) fun _ => True := by
  induction depth generalizing b with
  | zero => exact keeps_throw .tooDeep
  | succ depth ih =>
    unfold buildWithin
    cases b with
    | named name => exact keeps_lookup name
    | leaf v => exact keeps_put (hk.leaf v) (Node.distinct_of_nil (by cases v <;> rfl))
    | gathering children =>
      refine keeps_bind (keeps_buildEach (fun _ => ih) (hb.child (List.Subset.refl _))) fun own => ?_
      have hkeys := Keyed.nodup_ofList own
      exact keeps_put (hk.gathering hkeys) fun _ h => Except.ok.inj h ▸ hkeys
    | deferred children =>
      exact keeps_bind (keeps_postpone (hb.child (List.Subset.refl _))) fun _ =>
        keeps_put (hk.gathering List.nodup_nil) (Node.distinct_of_nil rfl)
    | collection item words =>
      have hitem := ih (hb.part List.mem_cons_self)
      dsimp only
      split
      · exact keeps_bind (keeps_foresee _) fun item => keeps_collection hk item words
      · exact keeps_bind (keeps_bind hitem fun _ => keeps_pure trivial) fun item =>
          keeps_collection hk item words
    | computed t => exact keeps_put (hk.computed t) (Node.distinct_of_nil rfl)
    | aliased base backing =>
      exact keeps_bind (ih (hb.part List.mem_cons_self)) fun id =>
        keeps_derive hk id (hk.aliasing backing) fun _ => rfl
    | delayed base =>
      exact keeps_bind (ih (hb.part List.mem_cons_self)) fun id =>
        keeps_derive hk id hk.delayed fun _ => rfl
    | grouping base =>
      exact keeps_bind (ih (hb.part List.mem_cons_self)) fun id =>
        keeps_after (keeps_draft hk id) fun _ _ =>
          keeps_put (hk.grouping _ _) (Node.distinct_of_nil rfl)
    | described base text =>
      exact keeps_bind (ih (hb.part List.mem_cons_self)) fun id =>
        keeps_derive hk id (hk.described text) fun _ => rfl
    | queryable base =>
      refine keeps_bind (ih (hb.part List.mem_cons_self)) fun id =>
        keeps_after (keeps_draft hk id) fun d _ => ?_
      split
      · exact keeps_pure trivial
      · exact keeps_derive hk id hk.queryable Node.children_queryable
    | referencesOnly base =>
      exact keeps_bind (ih (hb.part List.mem_cons_self)) fun id =>
        keeps_derive hk id (hk.referencesOnly hb.here) fun _ => rfl
    | reached base motions =>
      exact keeps_bind (ih (hb.part List.mem_cons_self)) fun id =>
        keeps_derive hk id (hk.reached motions id) fun _ => rfl
    | extended base children =>
      have hmore := keeps_buildEach (fun _ => ih)
        (hb.child (List.subset_cons_self base (children.map (·.2))))
      refine keeps_bind (ih (hb.part List.mem_cons_self)) fun id => keeps_bind hmore fun more => ?_
      dsimp only
      split
      · have hrefused : Keeps admits p (throw twoBases : Building PUnit) fun _ => False :=
          keeps_throw twoBases
        exact keeps_after hrefused fun _ h => h.elim
      · refine keeps_after (keeps_draft hk id) fun d hd =>
          keeps_after (keeps_childrenOf (fun _ => ih) hd.2) fun own hown => ?_
        have hkeys : ∀ all, (.ok (Keyed.merge own more) : Outcome (Keyed NodeId)) = .ok all →
            (Keyed.keys all).Nodup :=
          fun _ h => Except.ok.inj h ▸ Keyed.nodup_merge hown more
        exact keeps_put (hk.children hkeys hd.1) hkeys
    | equipped base name m =>
      exact keeps_bind (ih (hb.part List.mem_cons_self)) fun id =>
        keeps_derive hk id (hk.equipped hb.here) fun _ => rfl

/-- Building the node of a blueprint. -/
theorem keeps_build (hk : Kept admits p) {b : Blueprint} (hb : b.Every admits) :
    Keeps admits p (build b) fun _ => True :=
  fun w hw answer w' hrun =>
    keeps_buildWithin hk (w.depth + b.size) hb { w with depth := w.depth + b.size }
      ⟨hw.drafts, hw.distinct, hw.pending⟩ answer w' hrun

/-- Building definitions in order. -/
theorem keeps_defineAll (hk : Kept admits p) {definitions : List (String × Blueprint)}
    (hd : ∀ e ∈ definitions, e.2.Every admits) :
    Keeps admits p (defineAll definitions) fun _ => True := by
  induction definitions with
  | nil => exact keeps_pure trivial
  | cons e rest ih =>
    have hfirst : Keeps admits p (define e.1 e.2) fun _ => True := by
      refine keeps_bind (keeps_build hk (hd e List.mem_cons_self)) fun id =>
        keeps_of_eq fun w answer w' hrun => ?_
      exact (Prod.mk.inj (Except.ok.inj hrun)).2 ▸ ⟨rfl, rfl⟩
    exact keeps_bind hfirst fun _ => ih fun e he => hd e (List.mem_cons_of_mem _ he)

/-- Building pending children. -/
theorem keeps_buildPending (hk : Kept admits p) (i : Nat) :
    Keeps admits p (buildPending i) fun _ => True := by
  intro w hw answer w' hrun
  unfold buildPending at hrun
  cases hc : childrenOf (buildWithin w.depth) ⟨passthrough, some i⟩ w with
  | error f =>
    rw [hc] at hrun
    have hnone : ∀ own, (.error f : Outcome (Keyed NodeId)) = .ok own → (Keyed.keys own).Nodup :=
      fun _ h => (nomatch h)
    exact keeps_settle i hnone w hw answer w' hrun
  | ok pair =>
    rw [hc] at hrun
    obtain ⟨-, rfl⟩ := Prod.mk.inj (Except.ok.inj hrun)
    exact ⟨trivial, (keeps_childrenOf (fun _ => keeps_buildWithin hk w.depth)
      (Node.distinct_of_nil rfl) w hw pair.1 pair.2 hc).2⟩

/-- Building all pending children from a number on. -/
theorem keeps_settleFrom (hk : Kept admits p) (fuel i : Nat) :
    Keeps admits p (settleFrom fuel i) fun _ => True := by
  induction fuel generalizing i with
  | zero => exact keeps_pure trivial
  | succ fuel ih =>
    intro w hw answer w' hrun
    unfold settleFrom at hrun
    split at hrun
    · exact keeps_bind (keeps_buildPending hk i) (fun _ => ih (i + 1)) w hw answer w' hrun
    · obtain ⟨-, rfl⟩ := Prod.mk.inj (Except.ok.inj hrun)
      exact ⟨trivial, hw⟩

/-- A workshop that was built from blueprints that are admitted all through. -/
inductive Built (admits : Blueprint → Prop) : Workshop → Prop
  /-- Definitions were built. -/
  | definitions {definitions : List (String × Blueprint)} {w : Workshop} :
    (∀ e ∈ definitions, e.2.Every admits) → ofDefinitions definitions = .ok w → Built admits w
  /-- One more blueprint was built whole. -/
  | whole {w w' : Workshop} {b : Blueprint} {id : NodeId} :
    Built admits w → b.Every admits → w.buildWhole b = .ok (id, w') → Built admits w'

/-- A workshop without nodes has nothing that lacks the property. -/
theorem all_empty (foreseen : Keyed NodeId) : All admits p { empty with foreseen := foreseen } :=
  ⟨fun d hd => absurd hd (by simp [empty]), fun d hd => absurd hd (by simp [empty]),
    fun q hq => absurd hq (by simp [empty])⟩

/-- The nodes of a workshop with admitted definitions have the property. -/
theorem all_ofDefinitions (hk : Kept admits p) {definitions : List (String × Blueprint)}
    (hd : ∀ e ∈ definitions, e.2.Every admits) {w : Workshop}
    (h : ofDefinitions definitions = .ok w) : All admits p w := by
  unfold ofDefinitions at h
  obtain ⟨⟨⟨⟩, first⟩, -, h⟩ := bind_eq_ok.mp h
  obtain ⟨⟨⟨⟩, second⟩, hsecond, h⟩ := bind_eq_ok.mp h
  obtain rfl := Except.ok.inj h
  exact (keeps_defineAll hk hd _ (all_empty first.names) _ _ hsecond).2

/-- An admitted blueprint that is built whole leaves only nodes with the property behind. -/
theorem All.buildWhole (hk : Kept admits p) {w w' : Workshop} {b : Blueprint} {id : NodeId}
    (hw : All admits p w) (hb : b.Every admits) (h : w.buildWhole b = .ok (id, w')) :
    All admits p w' := by
  unfold Workshop.buildWhole at h
  obtain ⟨⟨_, mid⟩, hmid, h⟩ := bind_eq_ok.mp h
  obtain ⟨⟨⟨⟩, done⟩, hdone, h⟩ := bind_eq_ok.mp h
  obtain ⟨-, rfl⟩ := Prod.mk.inj (Except.ok.inj h)
  exact (keeps_settleFrom hk _ _ _ (keeps_build hk hb w hw _ _ hmid).2 _ _ hdone).2

/-- The nodes of a workshop that was built have the property. -/
theorem Built.all (hk : Kept admits p) {w : Workshop} (h : w.Built admits) : All admits p w := by
  induction h with
  | definitions hd h => exact all_ofDefinitions hk hd h
  | whole _ hb h ih => exact ih.buildWhole hk hb h

/-- Children that were kept back stand under distinct keys. -/
theorem All.distinct_pending {w : Workshop} (h : All admits p w) (i : Nat) (own : Keyed NodeId)
    (hown : ((w.pending[i]?).bind Pending.built).getD (.ok []) = .ok own) :
    (Keyed.keys own).Nodup := by
  cases hg : (w.pending[i]?).bind Pending.built with
  | none =>
    rw [hg] at hown
    obtain rfl := Except.ok.inj hown
    exact List.nodup_nil
  | some built =>
    rw [hg] at hown
    obtain ⟨q, hq, hbuilt⟩ := Option.bind_eq_some_iff.mp hg
    exact (h.pending q (Array.mem_of_getElem? hq)).built own (hbuilt.trans (congrArg some hown))

/-- The nodes of the catalog of a workshop that was built have the property, and their children
distinct keys. -/
theorem Built.catalog (hk : Kept admits p) {w : Workshop} (h : w.Built admits) (id : NodeId) :
    p (w.catalog.node id) ∧ (w.catalog.node id).Distinct := by
  rw [Workshop.catalog, Catalog.node, Array.getD_eq_getD_getElem?, Array.getElem?_map]
  cases hg : w.drafts[id]? with
  | none => exact ⟨hk.leaf none, Node.distinct_of_nil rfl⟩
  | some d =>
    have hall := h.all hk
    have hmem := Array.mem_of_getElem? hg
    show p (w.finished d) ∧ (w.finished d).Distinct
    unfold finished
    split
    · exact ⟨hall.drafts d hmem, hall.distinct d hmem⟩
    · exact ⟨hk.children (hall.distinct_pending _) (hall.drafts d hmem), hall.distinct_pending _⟩

/-- A collection is regular. -/
theorem regular_collectionOf {item : NodeRef} {words : List String} {n : Node}
    (h : collectionOf item words = .ok n) : n.Regular := by
  unfold collectionOf at h
  split at h
  · exact absurd h (by simp)
  · obtain rfl := Except.ok.inj h
    exact ⟨fun _ => rfl, fun hk => (nomatch hk), fun hn => (nomatch hn)⟩

/-- No form of a node takes regularity from it. -/
theorem kept_regular : Kept admits Node.Regular where
  leaf v := by
    cases v with
    | none => exact Node.regular_passthrough
    | some v => exact Node.regular_of_kind rfl fun hn => (nomatch hn)
  gathering _ := Node.regular_of_kind rfl fun hn => (nomatch hn)
  computed _ := Node.regular_of_kind rfl fun hn => (nomatch hn)
  collection := regular_collectionOf
  grouping _ _ := Node.regular_of_kind rfl fun _ => rfl
  aliasing _ hn := hn.of_eq rfl rfl fun h => (nomatch h)
  delayed hn := hn.of_eq rfl rfl fun h => ⟨h, rfl⟩
  described _ hn := hn.of_eq rfl rfl fun h => ⟨h, rfl⟩
  queryable hn := hn.queryable
  reached _ _ hn := hn.of_eq rfl rfl fun h => ⟨h, rfl⟩
  children _ hn := hn.of_eq rfl rfl fun h => ⟨h, rfl⟩
  referencesOnly _ hn := hn.of_eq rfl rfl fun h => ⟨h, rfl⟩
  equipped _ hn := hn.of_eq rfl rfl fun h => ⟨h, rfl⟩

/-- Every catalog that is built is regular. -/
theorem Built.regular {w : Workshop} (h : w.Built admits) : w.catalog.Regular :=
  fun id => (h.catalog kept_regular id).1

/-- The children of every node of a catalog that is built stand under distinct keys. -/
theorem Built.distinct {w : Workshop} (h : w.Built admits) (id : NodeId) :
    (w.catalog.node id).Distinct :=
  (h.catalog kept_regular id).2

end Workshop

end ResourceAtlas.Schema
