import ScriptTyping.Config.Files
import ScriptTyping.Config.Settings
import ScriptTyping.Text.Quoting

/-! # Configuration files

A configuration file is an object with settings under camel case keys. It is named, or found under
one of two names in a directory.
-/
namespace ScriptTyping.Config

def fileNames : List String := [".js2tsrc.json", "js2ts.config.json"]

/-- The settings by their keys in a configuration file. -/
def settingKeys : List (String × String) :=
  [("strict", "strict"), ("preferInterfaces", "prefer_interfaces"),
   ("targetTSVersion", "target_ts_version"), ("aiMode", "ai_mode"), ("aiConfig", "ai"),
   ("excludePatterns", "exclude_patterns")]

def assistantKeys : List (String × String) :=
  [("provider", "provider"), ("apiKey", "api_key"), ("model", "model"), ("maxTokens", "max_tokens")]

inductive Error where
  | missing (path : Path)
  | isDirectory (path : Path)
  | notDirectory (path : Path)
  | tooLong (path : Path)
  | hasNul
  | malformed (path : Path) (error : Json.ReadError)
  | oversized (error : Json.ReadError)
  | notObject (path : Path)
  | badVariable (error : VariableError)
  | invalid (path : Option Path) (issues : List Issue)
deriving DecidableEq, Repr

namespace Error

/-- The cause that lies outside the program, in its own words. -/
def cause? : Error → Option String
  | missing path => some ("[Errno 2] No such file or directory: " ++ Text.Quoted.encode path.text)
  | isDirectory path => some ("[Errno 21] Is a directory: " ++ Text.Quoted.encode path.text)
  | notDirectory path => some ("[Errno 20] Not a directory: " ++ Text.Quoted.encode path.text)
  | tooLong path => some ("[Errno 36] File name too long: " ++ Text.Quoted.encode path.text)
  | hasNul => some "embedded null byte"
  | malformed _ error | oversized error => some error.message
  | badVariable error => some error.message
  | notObject _ | invalid _ _ => none

def withCause (text : String) (cause : Option String) : String :=
  match cause with
  | some cause => text ++ " (caused by: " ++ cause ++ ")"
  | none => text

def message (e : Error) : String :=
  match e with
  | missing path => withCause ("Configuration file not found: " ++ path.text) e.cause?
  | malformed path _ => withCause ("Invalid JSON in configuration file: " ++ path.text) e.cause?
  | notObject path => "Configuration file must contain a JSON object: " ++ path.text
  | invalid _ _ => "Invalid configuration"
  | e => e.cause?.getD ""

end Error

/-- Gives fields the names that a table has for them. Other fields keep theirs. -/
def rename (table : List (String × String)) (fields : Fields) : Fields :=
  Fields.ofPairs (fields.map fun f => ((table.lookup f.1).getD f.1, f.2))

def settingsOf (fields : Fields) : Fields :=
  let named := rename settingKeys fields
  match named.get? "ai" with
  | some (.object assistant) => named.put "ai" (.object (rename assistantKeys assistant))
  | _ => named

/-- The values of a configuration object stand under `default` if that is an object. -/
def unwrapDefault (fields : Fields) : Fields :=
  match fields.get? "default" with
  | some (.object inner) => inner
  | _ => fields

def directory (cwd : String) (searchDir : Option String) : Path :=
  match searchDir with
  | some text => Path.ofText text
  | none => { anchor := some cwd, parts := [] }

/-- The first of several paths that leads to a file. Only a name that is too long stops the search. -/
def findFile (files : FileTree) : List Path → Except Error (Option Path)
  | [] => .ok none
  | path :: rest =>
    match files.walk path with
    | .ok (.file _) => .ok (some path)
    | .error .tooLong => .error (.tooLong path)
    | _ => findFile files rest

def find (cwd : String) (files : FileTree) (searchDir : Option String) :
    Except Error (Option Path) :=
  findFile files (fileNames.map (directory cwd searchDir).child)

def readFile (files : FileTree) (path : Path) : Except Error Fields :=
  match files.walk path with
  | .error .missing => .error (.missing path)
  | .error .notDirectory => .error (.notDirectory path)
  | .error .tooLong => .error (.tooLong path)
  | .error .hasNul => .error .hasNul
  | .ok (.file text) =>
    match Json.read (String.ofList (Text.unifyLineEnds text.toList)) with
    | .error error =>
      .error (if error.cause.isLimit then .oversized error else .malformed path error)
    | .ok (.object fields) => .ok (unwrapDefault fields)
    | .ok _ => .error (.notObject path)
  | .ok _ => .error (.isDirectory path)

/-- Loads the settings from the named file, or from the one that is found. -/
def load (cwd : String) (around : Surroundings) (path searchDir : Option String) :
    Except Error Settings := do
  let source ←
    match path with
    | some text => pure (some (Path.ofText text))
    | none => find cwd around.files searchDir
  let fields ←
    match source with
    | some p => readFile around.files p
    | none => pure []
  match Settings.ofGiven around (settingsOf fields) with
  | .ok settings => pure settings
  | .error (.badVariable error) => throw (.badVariable error)
  | .error (.invalid issues) => throw (.invalid source issues)

end ScriptTyping.Config
