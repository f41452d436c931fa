import ResourceAtlas.Link.Refusal
import ResourceAtlas.Text.Quoted
import ResourceAtlas.Text.Split

/-!
# What can go wrong

A `Problem` is an outcome that a caller is told about: an address that leads nowhere, a change that
the data refuses. A `Fault` breaks a computation off: data of the wrong kind, a numeral too long, a
name that is not there. Both are causes; `message` gives their wording.
-/

namespace ResourceAtlas

open Text

/-- Names with a comma between each two, or a word for none. -/
def listing (names : List String) : String :=
  let joined := Split.join ", " names
  if joined.isEmpty then "(none)" else joined

/-- Why an address was not resolved or a change not made. -/
inductive Problem
  /-- An address without `://`. -/
  | missingScheme
  /-- An address that starts with `://`. -/
  | emptyScheme
  /-- A count in a query that is no integer. -/
  | countNotInteger (name given : String)
  /-- A count in a query that is negative. -/
  | countNegative (name given : String)
  /-- A scheme that is not registered. -/
  | unknownScheme (scheme : String) (known : List String)
  /-- A qualifier on a namespace. -/
  | namespaceQualified (head : String)
  /-- A navigation function that broke off. -/
  | navigationFailed (head cause : String)
  /-- A head that names no child and selects no member. -/
  | unknownSegment (head : String) (available : List String)
  /-- A position on something without members by position. -/
  | noIndexAccess (head : String)
  /-- An identifier on something without members by identifier. -/
  | noIdAccess (head : String)
  /-- A location that is no member of a collection. -/
  | notMember (uri : String)
  /-- A member that is not there. -/
  | itemNotFound (uri : String)
  /-- A move to something that holds no members. -/
  | destinationNotCollection
  /-- A move that would leave the item without an address. -/
  | noAddressInto (uri : String)
  /-- A creation in something that holds no members. -/
  | notCreatable (uri : String)
  /-- A creation that would leave the new item without an address. -/
  | noAddressForNew (uri : String)
  /-- A location that takes no new value. -/
  | notAssignable (uri : String)
  /-- A new address that nothing can resolve, for want of a registry. -/
  | noRegistry (uri : String)
  /-- A location whose node has no such method. -/
  | unsupported (uri method : String)
  /-- Arguments that a tool needs and did not get. -/
  | missingArguments (names : List String)
  /-- The answer of a handler that the schema brings along. -/
  | reported (text : String)
  deriving DecidableEq, Repr

/-- The wording of a problem. -/
def Problem.message : Problem → String
  | missingScheme => "Invalid URI: missing scheme (expected scheme://...)"
  | emptyScheme => "Invalid URI: empty scheme"
  | countNotInteger name given =>
    "Invalid URI: " ++ name ++ " must be an integer, got " ++ Quoted.string given
  | countNegative name given =>
    "Invalid URI: " ++ name ++ " must not be negative, got " ++ Quoted.string given
  | unknownScheme scheme known => "Unknown scheme: " ++ scheme ++ ". Known: " ++ listing known
  | namespaceQualified head => "Namespace '" ++ head ++ "' does not support qualifiers"
  | navigationFailed head cause => "Navigation into '" ++ head ++ "' failed: " ++ cause
  | unknownSegment head available =>
    "Unknown segment '" ++ head ++ "'. Available: " ++ listing available
  | noIndexAccess head => "Collection '" ++ head ++ "' does not support index addressing"
  | noIdAccess head => "Collection '" ++ head ++ "' does not support id addressing"
  | notMember uri => "Cannot remove " ++ uri ++ ": item not in a collection"
  | itemNotFound uri => "Item not found: " ++ uri
  | destinationNotCollection => "Destination is not a collection"
  | noAddressInto uri => "Cannot move into " ++ uri ++ ": item has no address there"
  | notCreatable uri => "Cannot create: " ++ uri ++ " is not a collection"
  | noAddressForNew uri => "Cannot create in " ++ uri ++ ": new item has no address there"
  | notAssignable uri => "Cannot assign at " ++ uri
  | noRegistry uri => "No scheme registry bound; cannot resolve " ++ uri
  | unsupported uri method => "'" ++ uri ++ "' does not support " ++ method
  | missingArguments names => "Missing required argument(s): " ++ Split.join ", " names
  | reported text => text

/-- What a reader of data wanted to find. -/
inductive Expectation
  /-- A text. -/
  | text
  /-- A number. -/
  | number
  /-- A truth value. -/
  | boolean
  /-- A date, a moment or the text of one. -/
  | date
  /-- A sequence of texts. -/
  | textList
  /-- The members of a collection. -/
  | members
  /-- The members that a query selects from. -/
  | candidates
  deriving DecidableEq, Repr

/-- The wording of an expectation. -/
def Expectation.wording : Expectation → String
  | text => "Expected string"
  | number => "Expected number"
  | boolean => "Expected boolean"
  | date => "Expected date"
  | textList => "Expected list"
  | members => "Collection expected a sequence"
  | candidates => "Query expected a sequence"

/-- Why a computation broke off. Kinds of values are given by their names. -/
inductive Fault
  /-- A query text with a bad count. -/
  | malformedQuery (problem : Problem)
  /-- A problem met where only success would do. -/
  | refused (problem : Problem)
  /-- A location that takes no new value. -/
  | notAssignable (uri : String)
  /-- Data of another kind than expected. -/
  | mismatch (wanted : Expectation) (kind : String)
  /-- A key that is not there. -/
  | missingKey (key : String)
  /-- A numeral with too many digits to read. -/
  | tooManyDigits (digits : Nat)
  /-- An integer with too many digits to write. -/
  | integerTooLong
  /-- A text that is no integer. -/
  | notInteger (given : String)
  /-- An integer beyond every floating-point number. -/
  | integerTooLarge
  /-- A sort direction that there is not. -/
  | sortDirection (given : String)
  /-- A negative limit or offset. -/
  | negativeBound (name given : String)
  /-- A limit or an offset that counts no members. -/
  | fractionalBound
  /-- Kinds that an order does not relate. -/
  | unordered (left right : String)
  /-- A text searched for something that is no text. -/
  | containsOperand (kind : String)
  /-- A text compared at its start with something that is no text. -/
  | startOperand (kind : String)
  /-- A text compared at its start with one of several, one of which is no text. -/
  | startAlternative (kind : String)
  /-- A position that is no integer. -/
  | position (sequence kind : String)
  /-- A transform or a handler that gives up. -/
  | computation (text : String)
  /-- A navigation that finds nothing. -/
  | navigation (text : String)
  /-- A registration after the registry was frozen. -/
  | frozen (scheme : String)
  /-- A name that a kind of object does not have. -/
  | noAttribute (kind name : String)
  /-- A reserved name that a location does not have. -/
  | reservedName (name : String)
  /-- A name that a location does not have. -/
  | noMember (node uri name : String)
  /-- A change to a specifier. -/
  | immutableSpecifier
  /-- An accessor that there is not. -/
  | unknownAccessor (name : String)
  /-- A schema reference of the wrong form. -/
  | schemaReference (reference : String)
  /-- A schema reference that names no node. -/
  | notSchemaNode (reference : String)
  /-- A module that is not there. -/
  | missingModule (name : String)
  /-- A module inside one that holds none. -/
  | moduleInModule (name outer : String)
  /-- A module reference that starts from nowhere. -/
  | relativeModule (name : String)
  /-- A file that is not there. -/
  | missingFile (path : String)
  /-- A directory where a file is wanted. -/
  | directory (path : String)
  /-- A path that is longer than paths can be. -/
  | overlongPath (path : String)
  /-- A data file that holds no JSON document. -/
  | malformedData (text : String)
  /-- A transport that there is not. -/
  | unsupportedTransport (name : String)
  /-- A log level that there is not. -/
  | unknownLogLevel (name : String)
  /-- A read that answered an error over a protocol that has no failed answers. -/
  | failedRead (text : String)
  /-- A text that is no link. -/
  | malformedLink (reason : Link.Refusal)
  /-- A value that documents cannot carry. -/
  | unserializable (text : String)
  /-- A history of less than no length. -/
  | negativeHistory
  /-- Values that hold each other too deeply. -/
  | tooDeep
  /-- Containers of a document that lie inside each other too deeply. -/
  | nestedTooDeep (container : String)
  /-- Something of a kind that cannot be used in this way. -/
  | misuse (text : String)
  deriving DecidableEq, Repr

/-- The wording of a fault. -/
def Fault.message : Fault → String
  | malformedQuery problem => problem.message
  | refused problem => problem.message
  | notAssignable uri => (Problem.notAssignable uri).message
  | mismatch wanted kind => wanted.wording ++ ", got " ++ kind
  | missingKey key => Quoted.string key
  | tooManyDigits digits =>
    "Exceeds the limit (4300 digits) for integer string conversion: value has " ++
      toString digits ++ " digits; use sys.set_int_max_str_digits() to increase the limit"
  | integerTooLong =>
    "Exceeds the limit (4300 digits) for integer string conversion; " ++
      "use sys.set_int_max_str_digits() to increase the limit"
  | notInteger given =>
    "invalid literal for int() with base 10: " ++
      String.ofList ((Quoted.text given.toList).take 200)
  | integerTooLarge => "int too large to convert to float"
  | sortDirection given => "Sort direction must be one of ('asc', 'desc'), got " ++ given
  | negativeBound name given => "Pagination " ++ name ++ " must not be negative, got " ++ given
  | fractionalBound =>
    "slice indices must be integers or None or have an __index__ method"
  | unordered left right =>
    "'<' not supported between instances of '" ++ left ++ "' and '" ++ right ++ "'"
  | containsOperand kind => "'in <string>' requires string as left operand, not " ++ kind
  | startOperand kind => "startswith first arg must be str or a tuple of str, not " ++ kind
  | startAlternative kind => "tuple for startswith must only contain str, not " ++ kind
  | position sequence kind => sequence ++ " indices must be integers or slices, not " ++ kind
  | computation text => text
  | navigation text => text
  | frozen scheme => "Registry is frozen; cannot register scheme '" ++ scheme ++ "'"
  | noAttribute kind name => "'" ++ kind ++ "' object has no attribute '" ++ name ++ "'"
  | reservedName name => name
  | noMember node uri name =>
    "'" ++ node ++ "' specifier at " ++ uri ++ " has no member '" ++ name ++ "'"
  | immutableSpecifier => "Specifier is immutable"
  | unknownAccessor name => Quoted.string name ++ " is not a valid Accessor"
  | schemaReference reference =>
    "Schema reference must look like 'package.module:ATTR', got " ++ Quoted.string reference
  | notSchemaNode reference => reference ++ " is not a schema node"
  | missingModule name => "No module named " ++ Quoted.string name
  | moduleInModule name outer =>
    "No module named " ++ Quoted.string name ++ "; " ++ Quoted.string outer ++ " is not a package"
  | relativeModule name =>
    "the 'package' argument is required to perform a relative import for " ++ Quoted.string name
  | missingFile path => "[Errno 2] No such file or directory: " ++ Quoted.string path
  | directory path => "[Errno 21] Is a directory: " ++ Quoted.string path
  | overlongPath path => "[Errno 36] File name too long: " ++ Quoted.string path
  | malformedData text => text
  | unsupportedTransport name => "Unsupported transport: " ++ name
  | unknownLogLevel name => "module 'logging' has no attribute '" ++ name ++ "'"
  | failedRead text => text
  | malformedLink reason => "Input should be a valid URL, " ++ reason.message
  | unserializable text => text
  | negativeHistory => "maxlen must be non-negative"
  | tooDeep => "maximum recursion depth exceeded"
  | nestedTooDeep container =>
    "maximum recursion depth exceeded while decoding a JSON " ++ container ++
      " from a unicode string"
  | misuse text => text

/-- A computation that may break off. -/
abbrev Outcome (α : Type) := Except Fault α

/-- A result that is a value or a problem to report. -/
abbrev Verdict (α : Type) := Except Problem α

/-- The text that a conversion gave, unless an integer was too long to write. -/
def writable : Option String → Outcome String
  | some s => .ok s
  | none => .error .integerTooLong

end ResourceAtlas
