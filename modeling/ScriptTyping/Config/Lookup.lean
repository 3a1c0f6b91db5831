import ScriptTyping.Config.Files
import ScriptTyping.Config.Variables
import ScriptTyping.Json.Value

/-! # Looking values up

A section takes the value of a setting from the fields given for it, from the environment or from a
file of variables. Some fields are no settings, but say how variables are looked up.
-/
namespace ScriptTyping

/-- How a section looks its variables up. -/
structure Lookup where
  mark : String
  caseSensitive : Bool := false
  ignoreEmpty : Bool := false
  nullText : Option String := none
  files : List String := [".env"]
deriving DecidableEq, Repr

namespace Lookup

def isOn : Json → Bool
  | .null => false
  | .bool b => b
  | .int n => n != 0
  | .float x => x != 0.0
  | .string s => s != .plain ""
  | .list items => !items.isEmpty
  | .object fields => !fields.isEmpty

/-- A switch that a field may set. Null leaves it as it is. -/
def switch (given : Fields) (name : String) (fallback : Bool) : Bool :=
  match given.get? name with
  | none | some .null => fallback
  | some value => isOn value

def text? : Json → Option String
  | .string s => some s.replaced
  | _ => none

/-- The start of variable names that a field may set. There is none if it is set to no text. -/
def markOf? (given : Fields) (fallback : String) : Option String :=
  match given.get? "_env_prefix" with
  | none | some .null => some fallback
  | some value => text? value

def filesOf (given : Fields) (fallback : List String) : List String :=
  match given.get? "_env_file" with
  | none => fallback
  | some (.list items) => items.filterMap text?
  | some value => (text? value).toList

def ofGiven? (mark : String) (given : Fields) : Option Lookup :=
  (markOf? given mark).map fun mark =>
    let usual : Lookup := { mark }
    { usual with
      caseSensitive := switch given "_case_sensitive" usual.caseSensitive
      ignoreEmpty := switch given "_env_ignore_empty" usual.ignoreEmpty
      nullText := (given.get? "_env_parse_none_str").bind text?
      files := filesOf given usual.files }

def view (l : Lookup) (v : Variables) : Variables :=
  let kept := if l.ignoreEmpty then v.nonempty else v
  if l.caseSensitive then kept else kept.lowered

def viewName (l : Lookup) (name : String) : String :=
  if l.caseSensitive then name else Text.lower name

end Lookup

structure Surroundings where
  environment : Variables := {}
  files : FileTree := {}

/-- The variables of the files that a lookup names, later files last. -/
def Surroundings.fileVariables (around : Surroundings) (l : Lookup) : Variables :=
  (l.files.filterMap fun path => around.files.text? (Path.ofText path)).foldl
    (fun v text => v.append (l.view (VariableFile.read around.environment text))) {}

structure Sources where
  lookup : Lookup
  given : Fields
  environment : Variables
  file : Variables

namespace Sources

/-- The sources of a section with the given fields, unless its variables have no names. -/
def ofGiven? (around : Surroundings) (mark : String) (given : Fields) : Option Sources :=
  (Lookup.ofGiven? mark given).map fun lookup =>
    { lookup, given
      environment := lookup.view around.environment
      file := around.fileVariables lookup }

/-- The value given for a setting by the first field that spells its name. -/
def given? (s : Sources) (setting : String) : Option Json :=
  (s.given.find? fun f => s.lookup.viewName f.1 == setting).map Prod.snd

def layer (s : Sources) : VariableLayer → Variables
  | .environment => s.environment
  | .file => s.file

/-- The variable for a setting: its text, or nothing if that stands for null. -/
def held? (s : Sources) (layer : VariableLayer) (setting : String) : Option (Option String) :=
  (((s.layer layer).find? (s.lookup.viewName (s.lookup.mark ++ setting))).bind id).map fun text =>
    if s.lookup.nullText == some text then none else some text

end Sources

end ScriptTyping
