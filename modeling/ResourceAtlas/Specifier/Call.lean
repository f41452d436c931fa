import ResourceAtlas.Registry

/-!
# Calling the members of a specifier

A specifier answers to its own names, then to the methods of its node, then to the keys of its
children. The four methods that change documents are written out one by one; a move and a creation
look up the address that the store reports, so that the caller gets a specifier of the new
location.
-/

namespace ResourceAtlas

open Address Query Schema

/-- What a name of a specifier stands for. -/
inductive Member
  /-- A name that every specifier has. -/
  | builtin (name : String)
  /-- A method of the node. -/
  | method (m : Method)
  /-- A child. -/
  | child (spec : Specifier)
  deriving Repr

/-- What a call answers. -/
inductive Answer
  /-- Data. -/
  | value (v : Value)
  /-- A location. -/
  | specifier (spec : Specifier)
  /-- A cursor. -/
  | cursor (c : Cursor)
  /-- Something that can be called. -/
  | callable
  /-- An address or a problem. -/
  | address (v : Verdict String)
  /-- A location or a problem. -/
  | location (v : Verdict Specifier)
  deriving Repr

namespace Specifier

/-- Look up a new address. -/
def lookUp (a : Atlas) (spec : Specifier) (uri : String) : Outcome (Verdict Specifier) :=
  if spec.registered then a.resolve uri else .ok (.error (.noRegistry uri))

/-- Assign a value. The answer is the address. -/
def set (spec : Specifier) (new : Value) : Action (Verdict String) := fun s =>
  match spec.cursor.assign new s with
  | (.error (.notAssignable uri), t) => (.ok (.error (.notAssignable uri)), t)
  | (.error f, t) => (.error f, t)
  | (.ok _, t) => (spec.uri.map .ok, t)

/-- The answer of a handler, or what a change answers. -/
def handled (handler : Option Handler) (change : Action (Verdict String)) :
    Action (Verdict String) := fun s =>
  match handler with
  | some h => (.ok h.answer, s)
  | none => change s

/-- Look up the address that a change reports. -/
def followed (a : Atlas) (spec : Specifier) (before : Outcome Unit)
    (change : Action (Verdict String)) : Action (Verdict Specifier) := fun s =>
  match change s with
  | (.error f, t) => (.error f, t)
  | (.ok (.error problem), t) => (.ok (.error problem), t)
  | (.ok (.ok uri), t) => (before.bind fun _ => spec.lookUp a uri, t)

/-- Move a member to the collection at a destination. The old address is written out on the way. -/
def move (a : Atlas) (handler : Option Handler) (spec destination : Specifier) :
    Action (Verdict Specifier) :=
  spec.followed a (spec.uri.map fun _ => ())
    (handled handler (spec.cursor.relocate destination.cursor destination.node.memberKeys))

/-- Remove a member. The answer is the address that it had. -/
def delete (handler : Option Handler) (spec : Specifier) : Action (Verdict String) :=
  handled handler spec.cursor.remove

/-- Add a member with given properties. -/
def create (a : Atlas) (handler : Option Handler) (spec : Specifier) (properties : Value) :
    Action (Verdict Specifier) :=
  spec.followed a (.ok ())
    (handled handler (spec.cursor.insert properties spec.node.memberKeys))

/-- The same location with a change to its query, in the form that honours queries. -/
def asking (spec : Specifier) (c : Change) : Outcome Specifier := do
  let q ← c.apply spec.cursor.query
  let cursor ← spec.cursor.within c.asked
  .ok (spec.derive (cursor.withQuery q) spec.node.queryable)

/-- What a name stands for. -/
def get (a : Atlas) (spec : Specifier) (name : String) : Outcome Member :=
  if builtins.contains name then .ok (.builtin name)
  else
    match Keyed.get? name spec.node.methods with
    | some m => .ok (.method m)
    | none => (spec.child a.catalog name).map .child

/-- What a name stands for, as an answer. -/
def getAnswer (a : Atlas) (spec : Specifier) (name : String) : Outcome Answer :=
  (spec.get a name).map fun
    | .child c => .specifier c
    | _ => .callable

/-- The names of a specifier that are no members. -/
def attributes : List String := ["child", "derive"]

/-- What a name stands for when it is asked for as an attribute. -/
def dotted (a : Atlas) (spec : Specifier) (name : String) : Outcome Answer :=
  if name = "delegate" then .ok (.cursor spec.cursor)
  else if attributes.contains name then .ok .callable
  else if name.startsWith "__" then .error (.reservedName name)
  else
    match spec.getAnswer a name with
    | .error (.missingKey _) => do
      let uri ← spec.uri
      .error (.noMember spec.node.kind.name uri name)
    | answer => answer

/-- What a call wants to be given. -/
structure Signature where
  /-- The full name of what is called. -/
  name : String
  /-- The names of the arguments that have to be given. -/
  required : List String
  /-- How many more can be given. -/
  optional : Nat

/-- What a call of a name that every specifier has wants to be given. -/
def builtinSignature (name : String) : Signature := ⟨"Specifier." ++ name, [], 0⟩

/-- What a call of a method wants to be given. -/
def methodSignature : Method → Signature
  | .byIndex _ => ⟨"collection.<locals>.by_index", ["index"], 0⟩
  | .byName _ => ⟨"collection.<locals>.by_name", ["name"], 0⟩
  | .byId _ => ⟨"collection.<locals>.by_id", ["identifier"], 0⟩
  | .whose => ⟨"_query_methods.<locals>.whose", ["filters"], 0⟩
  | .sortBy => ⟨"_query_methods.<locals>.sort_by", ["by"], 1⟩
  | .paginate => ⟨"_query_methods.<locals>.paginate", [], 2⟩
  | .expand => ⟨"_query_methods.<locals>.expand", ["fields"], 0⟩
  | .set => ⟨"with_set.<locals>.set_value", ["value"], 0⟩
  | .move _ => ⟨"with_move.<locals>.decorate.<locals>.move", ["destination"], 0⟩
  | .delete _ => ⟨"with_delete.<locals>.decorate.<locals>.delete", [], 0⟩
  | .create _ => ⟨"with_create.<locals>.decorate.<locals>.create", ["properties"], 0⟩

/-- How many arguments a call takes. The specifier itself counts as one of them. -/
def Signature.takes (form : Signature) : String :=
  let least := form.required.length + 1
  if 0 < form.optional then
    "from " ++ toString least ++ " to " ++ toString (least + form.optional) ++
      " positional arguments"
  else if least = 1 then "1 positional argument"
  else toString least ++ " positional arguments"

/-- The fault of a call with a number of arguments that it does not take. -/
def Signature.refusal (form : Signature) (given : Nat) : Fault :=
  match form.required[given]? with
  | some name =>
    .misuse (form.name ++ "() missing 1 required positional argument: '" ++ name ++ "'")
  | none =>
    .misuse (form.name ++ "() takes " ++ form.takes ++ " but " ++ toString (given + 1) ++
      " were given")

/-- The fault of calling what cannot be called. -/
def notCallable : Fault :=
  .misuse "'Specifier' object is not callable"

/-- Call a name that every specifier has. -/
def callBuiltin (a : Atlas) (s : Store) (spec : Specifier) (name : String) : Outcome Answer :=
  match name with
  | "resolve" => (spec.resolve a.catalog s).map .value
  | "exists" => .ok (.value (.bool (spec.isPresent s)))
  | "uri" => spec.uri.map fun uri => .value (.text uri)
  | "to_json" => spec.toReference.map .value
  | "parent" => spec.parent?.map fun
    | some p => .specifier p
    | none => .value .null
  | _ => (spec.keys a.catalog).map fun names => .value (.list (names.map .text))

/-- Select a member and the node that describes it. -/
def selectMember (a : Atlas) (spec : Specifier) (motion : Motion) (item : NodeRef) :
    Outcome Answer := do
  let cursor ← motion.apply spec.cursor
  let id ← item.find
  .ok (.specifier (spec.derive cursor (a.catalog.node id)))

/-- Call a method that only looks. -/
def callQuery (a : Atlas) (spec : Specifier) (m : Method) (arguments : List Value) :
    Outcome Answer :=
  match m, arguments with
  | .byIndex item, [v] => spec.selectMember a (.index v) item
  | .byName item, [v] => spec.selectMember a (.name v) item
  | .byId item, [v] => spec.selectMember a (.id v) item
  | .sortBy, [field] =>
    (spec.asking (.sort field (.text Direction.ascending.name))).map .specifier
  | .sortBy, [field, direction] => (spec.asking (.sort field direction)).map .specifier
  | .paginate, [] => (spec.asking (.window .null .null)).map .specifier
  | .paginate, [limit] => (spec.asking (.window limit .null)).map .specifier
  | .paginate, [limit, offset] => (spec.asking (.window limit offset)).map .specifier
  | .expand, [names] => do
    let _ ← spec.cursor.within "with_expand"
    let names ← names.iterated
    (spec.asking (.expand names)).map .specifier
  | m, arguments => .error ((methodSignature m).refusal arguments.length)

/-- Call a name with arguments. -/
def call (a : Atlas) (spec : Specifier) (name : String) (arguments : List Value) :
    Action Answer := fun s =>
  match spec.get a name with
  | .error f => (.error f, s)
  | .ok (.child _) => (.error notCallable, s)
  | .ok (.builtin name) =>
    (if arguments.isEmpty then spec.callBuiltin a s name
      else .error ((builtinSignature name).refusal arguments.length), s)
  | .ok (.method m) =>
    match m, arguments with
    | .set, [v] => let (r, t) := spec.set v s; (r.map .address, t)
    | .delete handler, [] => let (r, t) := spec.delete handler s; (r.map .address, t)
    | .create handler, [v] => let (r, t) := spec.create a handler v s; (r.map .location, t)
    | m, arguments => (spec.callQuery a m arguments, s)

/-- The method of a name. -/
def methodNamed (a : Atlas) (spec : Specifier) (name : String) : Outcome Method := do
  match ← spec.get a name with
  | .method m => .ok m
  | _ => .error notCallable

/-- Call the move of a specifier, if its node has one. -/
def callMove (a : Atlas) (spec destination : Specifier) : Action Answer := fun s =>
  match spec.methodNamed a "move" with
  | .ok (.move handler) =>
    let (r, t) := spec.move a handler destination s
    (r.map .location, t)
  | .ok _ => (.error notCallable, s)
  | .error f => (.error f, s)

/-- Call the method of a specifier that asks for a change to its query. -/
def callAsking (a : Atlas) (spec : Specifier) (name : String) (c : Change) : Outcome Specifier := do
  let _ ← spec.methodNamed a name
  spec.asking c

end Specifier

end ResourceAtlas
