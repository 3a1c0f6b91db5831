import ScriptTyping.Text.Characters

/-! # Variables

A variable has a name and a text, or a name only. Of several with one name, the last counts. Where
case does not matter, names that differ in case only are one name.

A line of a file of variables binds a name to a text. The text may stand in quotes, and then it may
also run over several lines. References in a text are replaced by the variables they name. A line
that is not understood is skipped.
-/
namespace ScriptTyping

structure Variables where
  entries : List (String × Option String) := []

inductive VariableLayer where
  | environment
  | file
deriving DecidableEq, Repr

def VariableLayer.name : VariableLayer → String
  | environment => "EnvSettingsSource"
  | file => "DotEnvSettingsSource"

/-- What can be wrong with a variable before its value is checked. -/
inductive VariableFault where
  /-- The variable has no name, because the text that should start it is no text. -/
  | unnamed
  | unreadable
deriving DecidableEq, Repr

structure VariableError where
  fault : VariableFault
  setting : String
  layer : VariableLayer
deriving DecidableEq, Repr

def VariableError.message (e : VariableError) : String :=
  let doing :=
    match e.fault with
    | .unnamed => "getting"
    | .unreadable => "parsing"
  "error " ++ doing ++ " value for field \"" ++ e.setting ++ "\" from source \"" ++ e.layer.name ++
    "\""

namespace Variables

def ofTexts (texts : List (String × String)) : Variables :=
  ⟨texts.map fun t => (t.1, some t.2)⟩

/-- A variable by its exact name: its text, or nothing if it has a name only. -/
def find? (v : Variables) (name : String) : Option (Option String) :=
  (v.entries.reverse.find? fun e => e.1 == name).map Prod.snd

def lowered (v : Variables) : Variables := ⟨v.entries.map fun e => (Text.lower e.1, e.2)⟩

def nonempty (v : Variables) : Variables := ⟨v.entries.filter fun e => e.2 != some ""⟩

def append (v later : Variables) : Variables := ⟨v.entries ++ later.entries⟩

/-- Gives a variable its text: in its place if it is there, else at the end. -/
def put (v : Variables) (name : String) (text : Option String) : Variables :=
  if v.entries.any fun e => e.1 == name then
    ⟨v.entries.map fun e => if e.1 == name then (name, text) else e⟩
  else ⟨v.entries ++ [(name, text)]⟩

end Variables

namespace VariableFile

abbrev Binding := String × Option String

def isGap (c : Char) : Bool := Text.isSpacing c && c != '\n'

def skipGap (cs : List Char) : List Char := cs.dropWhile isGap

def restOfLine (cs : List Char) : List Char := cs.dropWhile (· != '\n')

def skipExport (cs : List Char) : List Char :=
  let word := ['e', 'x', 'p', 'o', 'r', 't']
  let after := cs.drop word.length
  if word.isPrefixOf cs && after.head?.any isGap then skipGap after else cs

/-! ## Names -/

def isNameChar (c : Char) : Bool := c != '=' && c != '#' && !Text.isSpacing c

/-- The name at the start of a line, and the text after it. A comment has no name. On failure, the
text that is left. -/
def readName (cs : List Char) : Except (List Char) (Option (List Char) × List Char) :=
  match cs with
  | '#' :: _ => .ok (none, cs)
  | '\x27' :: rest =>
    let name := rest.takeWhile (· != '\x27')
    match rest.dropWhile (· != '\x27') with
    | _ :: after => if name.isEmpty then .error cs else .ok (some name, after)
    | [] => .error cs
  | _ =>
    let name := cs.takeWhile isNameChar
    if name.isEmpty then .error cs else .ok (some name, cs.dropWhile isNameChar)

/-! ## Values -/

/-- Splits at the first quote that does not follow a backslash. The second argument is the
character before the text. -/
def splitAtQuote (quote : Char) : Char → List Char → Option (List Char × List Char)
  | _, [] => none
  | before, c :: rest =>
    if c == quote && before != '\\' then some ([], rest)
    else (splitAtQuote quote c rest).map fun (value, after) => (c :: value, after)

def splitAtLastQuote (quote : Char) (cs : List Char) : Option (List Char × List Char) :=
  match cs.reverse.dropWhile (· != quote) with
  | _ :: value => some (value.reverse, (cs.reverse.takeWhile (· != quote)).reverse)
  | [] => none

/-- The text between quotes, and the text after them. If every quote follows a backslash, the last
one closes. -/
def splitQuoted (quote : Char) (cs : List Char) : Option (List Char × List Char) :=
  (splitAtQuote quote quote cs).or (splitAtLastQuote quote cs)

def singleEscape? (c : Char) : Option Char :=
  if c == '\\' || c == '\x27' then some c else none

def doubleEscape? (c : Char) : Option Char :=
  match c with
  | '\\' | '\x27' | '\x22' => some c
  | 'a' => some '\x07'
  | 'b' => some '\x08'
  | 'f' => some '\x0c'
  | 'n' => some '\n'
  | 'r' => some '\r'
  | 't' => some '\t'
  | 'v' => some '\x0b'
  | _ => none

/-- Replaces escapes. A backslash before any other character stays. -/
def unescape (escape? : Char → Option Char) : List Char → List Char
  | [] => []
  | '\\' :: c :: rest =>
    match escape? c with
    | some decoded => decoded :: unescape escape? rest
    | none => '\\' :: unescape escape? (c :: rest)
  | c :: rest => c :: unescape escape? rest

/-- A value without its comment: a `#` after a blank starts one. -/
def dropComment : List Char → List Char
  | [] => []
  | c :: rest =>
    if Text.isSpacing c && rest.head? == some '#' then [] else c :: dropComment rest

def readValue (cs : List Char) : Except (List Char) (List Char × List Char) :=
  let quoted (quote : Char) (escape? : Char → Option Char) (rest : List Char) :=
    match splitQuoted quote rest with
    | some (value, after) => .ok (unescape escape? value, after)
    | none => .error rest
  match skipGap cs with
  | '\x27' :: rest => quoted '\x27' singleEscape? rest
  | '\x22' :: rest => quoted '\x22' doubleEscape? rest
  | _ =>
    .ok (Text.trimBy Text.isSpacing (dropComment (cs.takeWhile (· != '\n'))), restOfLine cs)

/-! ## Lines -/

def skipComment (cs : List Char) : List Char :=
  match skipGap cs with
  | '#' :: rest => restOfLine rest
  | _ => cs

def endLine (cs : List Char) : Except (List Char) (List Char) :=
  match skipGap cs with
  | [] => .ok []
  | '\n' :: rest => .ok rest
  | rest => .error rest

/-- The binding at the start of a text, if it is not a comment, and the text after its line. On
failure, the text that is left. -/
def readBinding (cs : List Char) : Except (List Char) (Option Binding × List Char) := do
  let (name, afterName) ← readName (skipExport cs)
  let (value, afterValue) ←
    match skipGap afterName with
    | '=' :: rest => (readValue rest).map fun (value, after) => (some value, after)
    | rest => .ok (none, rest)
  let rest ← endLine (skipComment afterValue)
  return (name.map fun n => (String.ofList n, value.map String.ofList), rest)

/-- The bindings of a text. Each takes one unit of the first argument, and one character at
least. -/
def readBindings : Nat → List Char → List Binding
  | 0, _ => []
  | fuel + 1, cs =>
    match cs.dropWhile Text.isSpacing with
    | [] => []
    | start =>
      match readBinding start with
      | .ok (some binding, rest) => binding :: readBindings fuel rest
      | .ok (none, rest) => readBindings fuel rest
      | .error rest => readBindings fuel (restOfLine rest)

/-! ## References -/

/-- A reference to a variable: its name, the text to take where there is no such variable, and what
comes after the reference. -/
def reference? (cs : List Char) : Option (List Char × List Char × List Char) :=
  match cs with
  | '$' :: '\x7b' :: rest =>
    let isNamePart (c : Char) : Bool := c != '\x7d' && c != ':'
    let name := rest.takeWhile isNamePart
    match rest.dropWhile isNamePart with
    | '\x7d' :: after => some (name, [], after)
    | ':' :: '-' :: tail =>
      match tail.dropWhile (· != '\x7d') with
      | _ :: after => some (name, tail.takeWhile (· != '\x7d'), after)
      | [] => none
    | _ => none
  | _ => none

/-- Replaces references. Each character and each reference takes one unit of the fuel. -/
def expand (find? : String → Option (Option String)) : Nat → List Char → List Char
  | 0, cs => cs
  | _, [] => []
  | fuel + 1, c :: rest =>
    match reference? (c :: rest) with
    | some (name, fallback, after) =>
      let value :=
        match find? (String.ofList name) with
        | some text => (text.getD "").toList
        | none => fallback
      value ++ expand find? fuel after
    | none => c :: expand find? fuel rest

/-- Adds a binding. Its references are to the bindings before it, and then to the environment. -/
def bind (environment bound : Variables) (b : Binding) : Variables :=
  let find? (name : String) : Option (Option String) :=
    (bound.find? name).or (environment.find? name)
  bound.put b.1 (b.2.map fun text =>
    String.ofList (expand find? text.toList.length text.toList))

/-- The variables of a file. A byte order mark at its start does not count. -/
def read (environment : Variables) (text : String) : Variables :=
  let cs :=
    match text.toList with
    | '\ufeff' :: rest => Text.unifyLineEnds rest
    | cs => Text.unifyLineEnds cs
  (readBindings (cs.length + 1) cs).foldl (bind environment) {}

end VariableFile

end ScriptTyping
