import ResourceAtlas.Keyed
import ResourceAtlas.Number.Numeral
import ResourceAtlas.Text.Split

/-!
# Arguments of a command line

A form says which options and how many operands a command takes. Arguments are first told apart: an
option starts with a dash and is named in full or by a beginning that fits one name only; a negative
number, an argument with a blank, and everything after two lone dashes are operands. Then options
are taken with the values that belong to them, and operands in order. An option that asks for help
ends the reading at once, and so does anything that does not fit.
-/

namespace ResourceAtlas.Shell

open Number Text

/-- What an option takes. -/
inductive Taking
  /-- Nothing; it asks for help. -/
  | help
  /-- Nothing; it sets a mark. -/
  | mark
  /-- A text. -/
  | text
  /-- An integer. -/
  | integer
  /-- One of some words. -/
  | word (choices : List String)
  deriving DecidableEq, Repr

/-- Whether an option takes a value. -/
def Taking.takesValue : Taking → Bool
  | help => false
  | mark => false
  | _ => true

/-- An option. -/
structure Flag where
  /-- Its names, with their dashes. -/
  names : List String
  /-- The key of its setting. -/
  key : String
  /-- What it takes. -/
  taking : Taking
  deriving DecidableEq, Repr

/-- What a command takes beside options. -/
inductive Operands
  /-- A number of operands. -/
  | exactly (count : Nat)
  /-- An operand and whatever follows it. -/
  | tail
  deriving DecidableEq, Repr

/-- What a command takes. -/
structure Form where
  /-- The options. -/
  flags : List Flag
  /-- The operands. -/
  operands : Operands
  deriving DecidableEq, Repr

/-- Why reading arguments ended early. -/
inductive Stop
  /-- Help was asked for. -/
  | help
  /-- The arguments do not fit the form. -/
  | misuse
  deriving DecidableEq, Repr

/-- What an argument is. -/
inductive Token
  /-- An operand. -/
  | operand
  /-- Two lone dashes. -/
  | divider
  /-- An option by one of its names, perhaps with a value attached. -/
  | flag (f : Flag) (name : List Char) (attached : Option (List Char))
  /-- What looks like an option but is none. -/
  | stray
  deriving DecidableEq, Repr

/-- An argument with what it is. -/
structure Argument where
  /-- The text. -/
  text : String
  /-- What it is. -/
  token : Token
  deriving DecidableEq, Repr

/-- All names of options, in order. -/
def Form.names (form : Form) : List (List Char × Flag) :=
  form.flags.flatMap fun f => f.names.map fun name => (name.toList, f)

/-- The option of a name. -/
def Form.named? (form : Form) (name : List Char) : Option (List Char × Flag) :=
  form.names.find? fun entry => entry.1 == name

/-- A text without the value attached to it by an equals sign, and that value. -/
def detach (text : List Char) : List Char × Option (List Char) :=
  match Split.atFirst '=' text with
  | some (name, value) => (name, some value)
  | none => (text, none)

/-- The options that a text with two dashes may mean. -/
def Form.longMeanings (form : Form) (text : List Char) : List Token :=
  let (beginning, attached) := detach text
  (form.names.filter fun entry => beginning.isPrefixOf entry.1).map fun entry =>
    .flag entry.2 entry.1 attached

/-- The options that a text with one dash may mean. -/
def Form.shortMeanings (form : Form) (text : List Char) : List Token :=
  form.names.filterMap fun entry =>
    if entry.1 = text.take 2 then some (.flag entry.2 entry.1 (some (text.drop 2)))
    else if text.isPrefixOf entry.1 then some (.flag entry.2 entry.1 none)
    else none

/-- A negative number: a dash with digits, or with digits around a point. -/
def isNegativeNumber (text : List Char) : Bool :=
  match text with
  | '-' :: rest =>
    let body := Digit.dropFinalLineFeed rest
    Digit.isDigits body ||
      match Split.atFirst '.' body with
      | some (whole, decimals) => whole.all Digit.isDigit && Digit.isDigits decimals
      | none => false
  | _ => false

/-- What a text is that begins with a dash, goes on, and names no option in full. -/
def Form.abbreviated (form : Form) (text : List Char) : Except Stop Token :=
  let meanings :=
    if ['-', '-'].isPrefixOf text then form.longMeanings text else form.shortMeanings text
  match meanings with
  | [token] => .ok token
  | _ :: _ :: _ => .error .misuse
  | [] => if isNegativeNumber text || text.contains ' ' then .ok .operand else .ok .stray

/-- What an argument is. -/
def Form.tokenOf (form : Form) (text : List Char) : Except Stop Token :=
  match text with
  | '-' :: rest =>
    match form.named? text with
    | some (name, f) => .ok (.flag f name none)
    | none =>
      if rest.isEmpty then .ok .operand
      else
        match detach text with
        | (beginning, some value) =>
          match form.named? beginning with
          | some (name, f) => .ok (.flag f name (some value))
          | none => form.abbreviated text
        | (_, none) => form.abbreviated text
  | _ => .ok .operand

/-- Tell arguments apart. After two lone dashes all are operands. -/
def Form.tellApart (form : Form) : List String → Except Stop (List Argument)
  | [] => .ok []
  | "--" :: rest => .ok (⟨"--", .divider⟩ :: rest.map fun text => ⟨text, .operand⟩)
  | text :: rest => do
    let token ← form.tokenOf text.toList
    let more ← form.tellApart rest
    .ok (⟨text, token⟩ :: more)

/-- What arguments gave. -/
structure Given where
  /-- The values of options under their keys. -/
  settings : Keyed String
  /-- The operands. -/
  operands : List String
  /-- Arguments that were left over. -/
  extras : List String
  deriving DecidableEq, Repr

namespace Given

/-- Nothing. -/
def nothing : Given := ⟨[], [], []⟩

/-- Note the value of an option. -/
def setting (g : Given) (key value : String) : Given :=
  { g with settings := Keyed.put key value g.settings }

/-- Note arguments that are left over. -/
def leaving (g : Given) (texts : List String) : Given :=
  { g with extras := g.extras ++ texts }

end Given

/-- Whether a value is one that an option takes. -/
def Taking.admits (value : String) : Taking → Bool
  | integer =>
    match Numeral.readInt value.toList with
    | .ok _ => true
    | .error _ => false
  | word choices => choices.contains value
  | _ => true

/-- Do what an option without a value asks. -/
def trip (g : Given) (f : Flag) : Except Stop Given :=
  if f.taking = .help then .error .help else .ok (g.setting f.key "")

/-- Do what an option with a value asks. -/
def supply (g : Given) (f : Flag) (value : String) : Except Stop Given :=
  if f.taking.admits value then .ok (g.setting f.key value) else .error .misuse

/-- Do what options without values ask in turn. -/
def tripAll (g : Given) : List Flag → Except Stop Given
  | [] => .ok g
  | f :: rest => do
    let g ← trip g f
    tripAll g rest

/-- Options written as one argument: some that take no value, the last one, and its value if it is
attached. -/
structure Cluster where
  /-- The options before the last one. -/
  before : List Flag
  /-- The last option. -/
  last : Flag
  /-- The attached value of the last option. -/
  attached : Option (List Char)
  deriving DecidableEq, Repr

/-- The options of an argument with an attached text. Where an option with one dash takes no value,
every character of the text names another such option. -/
def Form.unpack (form : Form) (before : List Flag) (f : Flag) (name : List Char) :
    List Char → Except Stop Cluster
  | [] => if f.taking.takesValue then .ok ⟨before, f, some []⟩ else .error .misuse
  | c :: rest =>
    if f.taking.takesValue then .ok ⟨before, f, some (c :: rest)⟩
    else if ['-', '-'].isPrefixOf name then .error .misuse
    else
      match form.named? ['-', c] with
      | none => .error .misuse
      | some (next, g) =>
        if rest.isEmpty then .ok ⟨before ++ [f], g, none⟩
        else form.unpack (before ++ [f]) g next rest

/-- The options of an argument. -/
def Form.clusterOf (form : Form) (f : Flag) (name : List Char) :
    Option (List Char) → Except Stop Cluster
  | none => .ok ⟨[], f, none⟩
  | some attached => form.unpack [] f name attached

/-- Do what the options of an argument ask; what is left of the arguments after it comes back. -/
def Cluster.take (c : Cluster) (g : Given) (rest : List Argument) :
    Except Stop (Given × List Argument) :=
  if c.last.taking.takesValue then
    match c.attached, rest with
    | some value, rest => do
      let g ← tripAll g c.before
      let g ← supply g c.last (String.ofList value)
      .ok (g, rest)
    | none, ⟨value, .operand⟩ :: rest => do
      let g ← tripAll g c.before
      let g ← supply g c.last value
      .ok (g, rest)
    | none, _ => .error .misuse
  else do
    let g ← tripAll g (c.before ++ [c.last])
    .ok (g, rest)

/-- Arguments without a divider at their start. -/
def dropDivider : List Argument → List Argument
  | ⟨_, .divider⟩ :: rest => rest
  | rest => rest

/-- Take operands, as many as are wanted and there are. A divider beside an operand goes with it. -/
def takeOperands : Nat → List Argument → List String × List Argument
  | 0, rest => ([], rest)
  | wanted + 1, rest =>
    match dropDivider rest with
    | ⟨text, .operand⟩ :: after =>
      let (texts, left) := takeOperands wanted (dropDivider after)
      (text :: texts, left)
    | _ => ([], rest)

/-- Take the operands at the start of the arguments; what is left comes back. -/
def Form.gather (form : Form) (g : Given) (rest : List Argument) : Given × List Argument :=
  match form.operands with
  | .exactly count =>
    let (texts, left) := takeOperands (count - g.operands.length) rest
    ({ g with operands := g.operands ++ texts }, left)
  | .tail =>
    match dropDivider rest with
    | ⟨_, .operand⟩ :: _ =>
      if g.operands.isEmpty then ({ g with operands := rest.map Argument.text }, []) else (g, rest)
    | _ => (g, rest)

/-- Whether an argument is an option or looks like one. -/
def Argument.isOption (a : Argument) : Bool :=
  match a.token with
  | .flag _ _ _ => true
  | .stray => true
  | _ => false

/-- Take arguments in turn. Every turn uses up at least one argument or comes to an option, which
the next turn takes, so twice as many turns as arguments are enough. -/
def Form.takeAll (form : Form) : Nat → Given → List Argument → Except Stop Given
  | 0, g, _ => .ok g
  | turns + 1, g, rest =>
    if rest.any Argument.isOption then
      match rest with
      | ⟨_, .flag f name attached⟩ :: after => do
        let cluster ← form.clusterOf f name attached
        let (g, left) ← cluster.take g after
        form.takeAll turns g left
      | ⟨text, .stray⟩ :: after => form.takeAll turns (g.leaving [text]) after
      | rest =>
        let (g, left) := form.gather g rest
        if left.length < rest.length then form.takeAll turns g left
        else
          let extras := left.takeWhile fun a => !a.isOption
          form.takeAll turns (g.leaving (extras.map Argument.text))
            (left.dropWhile fun a => !a.isOption)
    else
      let (g, left) := form.gather g rest
      .ok (g.leaving (left.map Argument.text))

/-- Whether every operand that a form asks for is there. -/
def Form.isFilled (form : Form) (g : Given) : Bool :=
  match form.operands with
  | .exactly count => g.operands.length == count
  | .tail => true

/-- Read arguments by a form. Arguments left over are not yet refused. -/
def Form.read (form : Form) (texts : List String) : Except Stop Given := do
  let arguments ← form.tellApart texts
  let g ← form.takeAll (2 * arguments.length + 1) .nothing arguments
  if form.isFilled g then .ok g else .error .misuse

end ResourceAtlas.Shell
