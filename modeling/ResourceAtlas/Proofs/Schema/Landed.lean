import ResourceAtlas.Proofs.Schema.Built

/-!
# Where computed ways land

A node that is reached by a computed way is a form of the node that the way leads to, so both group the
children of the same node or of none. Building keeps this: nodes are added and never changed, and a name
stands for a node that is there.
-/

namespace ResourceAtlas.Schema

/-- A computed way leads to a node of the same grouping. -/
def Catalog.Landed (c : Catalog) : Prop :=
  ∀ id landing, (c.node id).landing = some landing →
    (c.node landing.target).groups = (c.node id).groups

namespace Workshop

/-- A node lands in a workshop: where its computed way leads there is a node of the same grouping. -/
def LandsIn (w : Workshop) (n : Node) : Prop :=
  ∀ landing, n.landing = some landing →
    ∃ d, w.drafts[landing.target]? = some d ∧ d.node.groups = n.groups

/-- A node of a number is there. -/
def Holds (w : Workshop) (id : NodeId) : Prop :=
  ∃ d, w.drafts[id]? = some d

/-- All nodes land, and names stand for nodes that are there. -/
structure Landed (w : Workshop) : Prop where
  /-- The nodes land. -/
  drafts : ∀ d ∈ w.drafts, w.LandsIn d.node
  /-- The nodes of names are there. -/
  names : ∀ e ∈ w.names, w.Holds e.2

/-- The nodes that were there are still there. -/
def Before (w w' : Workshop) : Prop :=
  ∀ (id : NodeId) (d : Draft), w.drafts[id]? = some d → w'.drafts[id]? = some d

/-- A step of building that, where something is known, adds nodes to a workshop whose nodes land, and
answers something that is known then. -/
def Grows (known : Workshop → Prop) {α : Type} (step : Building α)
    (kind : α → Workshop → Prop) : Prop :=
  ∀ w, w.Landed → known w → ∀ answer w', step w = .ok (answer, w') →
    w'.Landed ∧ w.Before w' ∧ kind answer w'

variable {w w' : Workshop} {n : Node} {id : NodeId} {α β : Type} {known : Workshop → Prop}

/-- A node that lands still does when nodes are added. -/
theorem LandsIn.mono (h : w.LandsIn n) (hw : w.Before w') : w'.LandsIn n := by
  intro landing hlanding
  obtain ⟨d, hd, hgroups⟩ := h landing hlanding
  exact ⟨d, hw _ _ hd, hgroups⟩

/-- A node that is there still is when nodes are added. -/
theorem Holds.mono (h : w.Holds id) (hw : w.Before w') : w'.Holds id := by
  obtain ⟨d, hd⟩ := h
  exact ⟨d, hw _ _ hd⟩

/-- A node that is reached by no computed way lands. -/
theorem landsIn_of_none (h : n.landing = none) : w.LandsIn n :=
  fun _ hlanding => (nomatch h.symm.trans hlanding)

/-- A form of a node that is reached as it is, with the same grouping, lands where the node does. -/
theorem LandsIn.of_eq {m : Node} (h : w.LandsIn n) (hl : m.landing = n.landing)
    (hg : m.groups = n.groups) : w.LandsIn m := by
  intro landing hlanding
  rw [hl] at hlanding
  rw [hg]
  exact h landing hlanding

/-- A step that builds nothing. -/
theorem grows_pure {kind : α → Workshop → Prop} {answer : α} (h : ∀ w, known w → kind answer w) :
    Grows known (pure answer) kind := by
  intro w hw hknown answer' w' hrun
  obtain ⟨rfl, rfl⟩ := Prod.mk.inj (Except.ok.inj hrun)
  exact ⟨hw, fun _ _ hd => hd, h w hknown⟩

/-- A step that breaks off. -/
theorem grows_throw {kind : α → Workshop → Prop} (f : Fault) : Grows known (throw f) kind :=
  fun _ _ _ _ _ hrun => (nomatch hrun)

/-- A step after another one. -/
theorem grows_bind {step : Building α} {next : α → Building β} {mid : α → Workshop → Prop}
    {kind : β → Workshop → Prop} (h : Grows known step mid) (hnext : ∀ x, Grows (mid x) (next x) kind) :
    Grows known (step >>= next) kind := by
  intro w hw hknown answer w' hrun
  simp only [bind, StateT.bind] at hrun
  cases hs : step w with
  | error f =>
    rw [hs] at hrun
    exact (nomatch hrun)
  | ok pair =>
    obtain ⟨x, between⟩ := pair
    rw [hs] at hrun
    obtain ⟨hbetween, hfirst, hmid⟩ := h w hw hknown x between hs
    obtain ⟨hw', hsecond, hkind⟩ := hnext x between hbetween hmid answer w' hrun
    exact ⟨hw', fun id d hd => hsecond id d (hfirst id d hd), hkind⟩

/-- What stays known when nodes are added is known after a step, too. -/
theorem Grows.also {step : Building α} {kind : α → Workshop → Prop} (h : Grows known step kind)
    {fact : Workshop → Prop} (hfact : ∀ w w', fact w → Before w w' → fact w') :
    Grows (fun w => known w ∧ fact w) step fun x w => kind x w ∧ fact w := by
  intro w hw hknown answer w' hrun
  obtain ⟨hw', hbefore, hkind⟩ := h w hw hknown.1 answer w' hrun
  exact ⟨hw', hbefore, hkind, hfact w w' hknown.2 hbefore⟩

/-- A step for which less has to be known. -/
theorem Grows.of_known {step : Building α} {kind : α → Workshop → Prop} (h : Grows known step kind)
    {known' : Workshop → Prop} (hknown : ∀ w, known' w → known w) : Grows known' step kind :=
  fun w hw hk => h w hw (hknown w hk)

/-- A step of whose answer less has to be known. -/
theorem Grows.imp {step : Building α} {kind kind' : α → Workshop → Prop} (h : Grows known step kind)
    (hkind : ∀ x w, kind x w → kind' x w) : Grows known step kind' := by
  intro w hw hknown answer w' hrun
  obtain ⟨hw', hbefore, hanswer⟩ := h w hw hknown answer w' hrun
  exact ⟨hw', hbefore, hkind answer w' hanswer⟩

/-- A step that changes neither nodes nor names. -/
theorem grows_of_eq {step : Building α} {kind : α → Workshop → Prop}
    (h : ∀ w, w.Landed → known w → ∀ answer w', step w = .ok (answer, w') →
      w'.drafts = w.drafts ∧ w'.names = w.names ∧ kind answer w') : Grows known step kind := by
  intro w hw hknown answer w' hrun
  obtain ⟨hdrafts, hnames, hkind⟩ := h w hw hknown answer w' hrun
  refine ⟨⟨fun d hd => ?_, fun e he => ?_⟩, fun id d hd => hdrafts ▸ hd, hkind⟩
  · unfold LandsIn
    rw [hdrafts]
    exact hw.drafts d (hdrafts ▸ hd)
  · unfold Holds
    rw [hdrafts]
    exact hw.names e (hnames ▸ he)

/-- Putting a node that lands into the catalog. -/
theorem grows_put {d : Draft} : Grows (fun w => w.LandsIn d.node) (put d) fun id w => w.Holds id := by
  intro w hw hd id w' hrun
  obtain ⟨rfl, rfl⟩ := Prod.mk.inj (Except.ok.inj hrun)
  have hbefore : w.Before { w with drafts := w.drafts.push d } := by
    intro id e he
    have hlt := (Array.getElem?_eq_some_iff.mp he).1
    rw [Array.getElem?_push_lt hlt, ← he, Array.getElem?_eq_getElem hlt]
  refine ⟨⟨fun e he => ?_, fun e he => (hw.names e he).mono hbefore⟩, hbefore, d,
    Array.getElem?_push_size⟩
  rcases Array.mem_push.mp he with he | rfl
  · exact (hw.drafts e he).mono hbefore
  · exact hd.mono hbefore

/-- Putting a node into the catalog that is reached by no computed way. -/
theorem grows_put_direct {d : Draft} (h : d.node.landing = none) :
    Grows known (put d) fun id w => w.Holds id :=
  grows_put.of_known fun _ _ => landsIn_of_none h

/-- The draft of a node that is there lands. -/
theorem grows_draft (id : NodeId) :
    Grows (fun w => w.Holds id) (draft id) fun d w =>
      w.drafts[id]? = some d ∧ w.LandsIn d.node := by
  intro w hw hid d w' hrun
  obtain ⟨rfl, rfl⟩ := Prod.mk.inj (Except.ok.inj hrun)
  obtain ⟨d, hd⟩ := hid
  have hget : w.drafts.getD id ⟨passthrough, none⟩ = d := by
    rw [Array.getD_eq_getD_getElem?, hd]
    rfl
  exact ⟨hw, fun _ _ he => he, hget ▸ hd, hget ▸ hw.drafts d (Array.mem_of_getElem? hd)⟩

/-- Putting a form of a node into the catalog that lands where the node does. -/
theorem grows_derive {f : Node → Node} (id : NodeId)
    (hf : ∀ n, (f n).landing = n.landing ∧ (f n).groups = n.groups) :
    Grows (fun w => w.Holds id) (derive id f) fun id w => w.Holds id :=
  grows_bind (grows_draft id) fun d => grows_put.of_known fun _ hd =>
    hd.2.of_eq (hf d.node).1 (hf d.node).2

/-- Putting the form of a node into the catalog that is reached by a computed way to it. -/
theorem grows_reached (id : NodeId) (motions : List Motion) :
    Grows (fun w => w.Holds id) (derive id (Node.reachedBy motions id)) fun id w => w.Holds id := by
  refine grows_bind (grows_draft id) fun d => grows_put.of_known fun w hd => ?_
  intro landing hlanding
  obtain rfl := Option.some.inj hlanding
  exact ⟨d, hd.1, rfl⟩

/-- Looking up a name. -/
theorem grows_lookup (name : String) : Grows known (lookup name) fun id w => w.Holds id := by
  refine grows_of_eq fun w hw _ id w' hrun => ?_
  unfold lookup at hrun
  split at hrun
  · next found hfound =>
    obtain ⟨rfl, rfl⟩ := Prod.mk.inj (Except.ok.inj hrun)
    exact ⟨rfl, rfl, hw.names _ (Keyed.mem_of_get? hfound)⟩
  · exact (nomatch hrun)

/-- Looking up a name that may be defined later. -/
theorem grows_foresee (name : String) : Grows known (foresee name) fun _ _ => True := by
  refine grows_of_eq fun w _ _ answer w' hrun => ?_
  unfold foresee at hrun
  split at hrun <;> exact (Prod.mk.inj (Except.ok.inj hrun)).2 ▸ ⟨rfl, rfl, trivial⟩

/-- Putting a collection into the catalog. -/
theorem grows_collection (item : NodeRef) (words : List String) :
    Grows known (do
      let node ← collectionOf item words
      put ⟨node, none⟩) fun id w => w.Holds id := by
  cases hc : collectionOf item words with
  | error f => exact fun _ _ _ _ _ hrun => (nomatch hrun)
  | ok n =>
    refine grows_put_direct ?_
    unfold collectionOf at hc
    split at hc
    · exact (nomatch hc)
    · obtain rfl := Except.ok.inj hc
      rfl

/-- Building keyed blueprints. -/
theorem grows_buildEach {build : Blueprint → Building NodeId}
    (h : ∀ b, Grows (fun _ => True) (build b) fun id w => w.Holds id)
    (parts : List (String × Blueprint)) :
    Grows (fun _ => True) (buildEach build parts) fun _ _ => True := by
  induction parts with
  | nil => exact grows_pure fun _ _ => trivial
  | cons e rest ih =>
    exact grows_bind (h e.2) fun _ => grows_bind (ih.of_known fun _ _ => trivial) fun _ =>
      grows_pure fun _ _ => trivial

/-- Building the children of a draft. -/
theorem grows_childrenOf {build : Blueprint → Building NodeId}
    (h : ∀ b, Grows (fun _ => True) (build b) fun id w => w.Holds id) (d : Draft) :
    Grows (fun _ => True) (childrenOf build d) fun _ _ => True := by
  have hread : ∀ answer : Outcome (Keyed NodeId),
      Grows (fun _ => True) (fun w => answer.map fun own => (own, w)) fun _ _ => True := by
    intro answer
    refine grows_of_eq fun w _ _ own w' hrun => ?_
    obtain ⟨_, -, heq⟩ := map_eq_ok.mp hrun
    exact (Prod.mk.inj heq).2 ▸ ⟨rfl, rfl, trivial⟩
  unfold childrenOf
  cases d.pending with
  | none => exact hread _
  | some i =>
    have hpending : Grows (fun _ => True) (pendingAt i) fun _ _ => True :=
      grows_of_eq fun w _ _ q w' hrun => (Prod.mk.inj (Except.ok.inj hrun)).2 ▸ ⟨rfl, rfl, trivial⟩
    refine grows_bind hpending fun q => ?_
    cases q.built with
    | some children => exact hread _
    | none =>
      have hsettle : ∀ built, Grows (fun _ => True) (settle i built) fun _ _ => True := fun built =>
        grows_of_eq fun w _ _ answer w' hrun =>
          (Prod.mk.inj (Except.ok.inj hrun)).2 ▸ ⟨rfl, rfl, trivial⟩
      exact grows_bind (grows_buildEach h q.parts) fun _ => grows_bind (hsettle _) fun _ =>
        grows_pure fun _ _ => trivial

/-- Building the node of a blueprint, by induction on how deep blueprints may lie inside each
other. -/
theorem grows_buildWithin (depth : Nat) (b : Blueprint) :
    Grows (fun _ => True) (buildWithin depth b) fun id w => w.Holds id := by
  induction depth generalizing b with
  | zero => exact grows_throw .tooDeep
  | succ depth ih =>
    unfold buildWithin
    cases b with
    | named name => exact grows_lookup name
    | leaf v => exact grows_put_direct (by cases v <;> rfl)
    | gathering children =>
      exact grows_bind (grows_buildEach ih children) fun _ => grows_put_direct rfl
    | deferred children =>
      have hpostpone : Grows (fun _ => True) (postpone children) fun _ _ => True :=
        grows_of_eq fun w _ _ answer w' hrun =>
          (Prod.mk.inj (Except.ok.inj hrun)).2 ▸ ⟨rfl, rfl, trivial⟩
      exact grows_bind hpostpone fun _ => grows_put_direct rfl
    | collection item words =>
      dsimp only
      split
      · exact grows_bind (grows_foresee _) fun item => grows_collection item words
      · exact grows_bind (grows_bind (ih item) fun _ => grows_pure fun _ _ => trivial) fun item =>
          @grows_collection (fun _ => True) item words
    | computed t => exact grows_put_direct rfl
    | aliased base backing => exact grows_bind (ih base) fun id => grows_derive id fun _ => ⟨rfl, rfl⟩
    | delayed base => exact grows_bind (ih base) fun id => grows_derive id fun _ => ⟨rfl, rfl⟩
    | grouping base =>
      exact grows_bind (ih base) fun id => grows_bind (grows_draft id) fun _ => grows_put_direct rfl
    | described base text => exact grows_bind (ih base) fun id => grows_derive id fun _ => ⟨rfl, rfl⟩
    | queryable base =>
      refine grows_bind (ih base) fun id => grows_bind (grows_draft id) fun d => ?_
      split
      · exact grows_pure fun w hd => ⟨d, hd.1⟩
      · refine (grows_derive id fun n => ?_).of_known fun w hd => ⟨d, hd.1⟩
        unfold Node.queryable
        split <;> exact ⟨rfl, rfl⟩
    | referencesOnly base => exact grows_bind (ih base) fun id => grows_derive id fun _ => ⟨rfl, rfl⟩
    | reached base motions => exact grows_bind (ih base) fun id => grows_reached id motions
    | extended base children =>
      have hmore : ∀ id, Grows (fun w => True ∧ w.Holds id) (buildEach (buildWithin depth) children)
          fun _ w => True ∧ w.Holds id :=
        fun _ => (grows_buildEach ih children).also fun _ _ => Holds.mono
      have hown : ∀ d : Draft, Grows (fun w => True ∧ w.LandsIn d.node)
          (childrenOf (buildWithin depth) d) fun _ w => True ∧ w.LandsIn d.node :=
        fun d => (grows_childrenOf ih d).also fun _ _ => LandsIn.mono
      refine grows_bind (ih base) fun id => grows_bind
        ((hmore id).of_known fun _ h => ⟨trivial, h⟩) fun more => ?_
      dsimp only
      split
      · exact @grows_bind _ _ _ _ _ (fun _ _ => False) _ (grows_throw twoBases) fun _ _ _ h => h.elim
      · refine grows_bind ((grows_draft id).of_known fun _ h => h.2) fun d => grows_bind
          ((hown d).of_known fun _ h => ⟨trivial, h.2⟩) fun own => ?_
        exact grows_put.of_known fun _ h => h.2.of_eq rfl rfl
    | equipped base name m => exact grows_bind (ih base) fun id => grows_derive id fun _ => ⟨rfl, rfl⟩

/-- Building the node of a blueprint. -/
theorem grows_build (b : Blueprint) : Grows (fun _ => True) (build b) fun id w => w.Holds id :=
  fun w hw _ answer w' hrun =>
    grows_buildWithin (w.depth + b.size) b { w with depth := w.depth + b.size }
      ⟨hw.drafts, hw.names⟩ trivial answer w' hrun

/-- Building definitions in order. -/
theorem grows_defineAll (definitions : List (String × Blueprint)) :
    Grows (fun _ => True) (defineAll definitions) fun _ _ => True := by
  induction definitions with
  | nil => exact grows_pure fun _ _ => trivial
  | cons e rest ih =>
    have hname : ∀ id, Grows (fun w => w.Holds id)
        (modify fun w => { w with names := Keyed.put e.1 id w.names } : Building Unit)
        fun _ _ => True := by
      intro id w hw hid answer w' hrun
      obtain ⟨-, rfl⟩ := Prod.mk.inj (Except.ok.inj hrun)
      refine ⟨⟨hw.drafts, fun f hf => ?_⟩, fun _ _ hd => hd, trivial⟩
      rcases Keyed.mem_of_mem_put hf with rfl | hf
      · exact hid
      · exact hw.names f hf
    exact grows_bind (grows_bind (grows_build e.2) hname) fun _ => ih

/-- Building pending children. -/
theorem grows_buildPending (i : Nat) : Grows (fun _ => True) (buildPending i) fun _ _ => True := by
  intro w hw _ answer w' hrun
  unfold buildPending at hrun
  cases hc : childrenOf (buildWithin w.depth) ⟨passthrough, some i⟩ w with
  | error f =>
    rw [hc] at hrun
    obtain ⟨-, rfl⟩ := Prod.mk.inj (Except.ok.inj hrun)
    exact ⟨⟨hw.drafts, hw.names⟩, fun _ _ hd => hd, trivial⟩
  | ok pair =>
    rw [hc] at hrun
    obtain ⟨-, rfl⟩ := Prod.mk.inj (Except.ok.inj hrun)
    exact grows_childrenOf (grows_buildWithin w.depth) _ w hw trivial pair.1 pair.2 hc

/-- Building all pending children from a number on. -/
theorem grows_settleFrom (fuel i : Nat) :
    Grows (fun _ => True) (settleFrom fuel i) fun _ _ => True := by
  induction fuel generalizing i with
  | zero => exact grows_pure fun _ _ => trivial
  | succ fuel ih =>
    intro w hw _ answer w' hrun
    unfold settleFrom at hrun
    split at hrun
    · exact grows_bind (grows_buildPending i) (fun _ => ih (i + 1)) w hw trivial answer w' hrun
    · obtain ⟨-, rfl⟩ := Prod.mk.inj (Except.ok.inj hrun)
      exact ⟨hw, fun _ _ hd => hd, trivial⟩

/-- The nodes of a workshop that was built land. -/
theorem Built.workshop_landed {admits : Blueprint → Prop} (h : w.Built admits) : w.Landed := by
  induction h with
  | definitions _ h =>
    unfold ofDefinitions at h
    obtain ⟨⟨⟨⟩, first⟩, -, h⟩ := bind_eq_ok.mp h
    obtain ⟨⟨⟨⟩, second⟩, hsecond, h⟩ := bind_eq_ok.mp h
    obtain rfl := Except.ok.inj h
    have hempty : Landed { empty with foreseen := first.names } :=
      ⟨fun d hd => absurd hd (by simp [empty]), fun e he => absurd he (by simp [empty])⟩
    exact (grows_defineAll _ _ hempty trivial _ _ hsecond).1
  | whole _ _ h ih =>
    unfold buildWhole at h
    obtain ⟨⟨_, mid⟩, hmid, h⟩ := bind_eq_ok.mp h
    obtain ⟨⟨⟨⟩, done⟩, hdone, h⟩ := bind_eq_ok.mp h
    obtain ⟨-, rfl⟩ := Prod.mk.inj (Except.ok.inj h)
    have hgrown := (grows_build _ _ ih trivial _ _ hmid).1
    exact (grows_settleFrom _ _ _ hgrown trivial _ _ hdone).1

/-- Pending children change neither how a node is reached nor what it groups. -/
theorem finished_eq (w : Workshop) (d : Draft) :
    (w.finished d).landing = d.node.landing ∧ (w.finished d).groups = d.node.groups := by
  unfold finished
  split <;> exact ⟨rfl, rfl⟩

/-- The node of a number in the catalog is the finished one. -/
theorem node_catalog {d : Draft} (h : w.drafts[id]? = some d) : w.catalog.node id = w.finished d := by
  rw [Workshop.catalog, Catalog.node, Array.getD_eq_getD_getElem?, Array.getElem?_map, h]
  rfl

/-- In every catalog that is built, computed ways lead to nodes of the same grouping. -/
theorem Built.landed {admits : Blueprint → Prop} (h : w.Built admits) : w.catalog.Landed := by
  intro id landing hlanding
  cases hd : w.drafts[id]? with
  | none =>
    rw [Workshop.catalog, Catalog.node, Array.getD_eq_getD_getElem?, Array.getElem?_map, hd] at hlanding
    cases hlanding
  | some d =>
    rw [node_catalog hd] at hlanding ⊢
    rw [(w.finished_eq d).1] at hlanding
    obtain ⟨target, htarget, hgroups⟩ :=
      h.workshop_landed.drafts d (Array.mem_of_getElem? hd) landing hlanding
    rw [node_catalog htarget, (w.finished_eq target).2, (w.finished_eq d).2, hgroups]

end Workshop

end ResourceAtlas.Schema
