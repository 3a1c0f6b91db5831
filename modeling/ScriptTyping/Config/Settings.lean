import ScriptTyping.Config.Check
import ScriptTyping.Config.Lookup
import ScriptTyping.Json.Reader

/-! # Settings

The value of a setting comes from the first layer that gives one: the values given directly, the
variables of the environment, the variables of a `.env` file, the default. Objects from two layers
are merged field by field. All issues are collected before any is reported.
-/
namespace ScriptTyping

/-- Settings of the assistant that may help with inference. -/
structure Assistant where
  provider : Provider := .openai
  apiKey : Option Wording := none
  model : Wording := "gpt-4"
  maxTokens : Int := 1000
deriving DecidableEq, Repr

structure Settings where
  strict : Bool := true
  preferInterfaces : Bool := true
  targetVersion : String := "5.0"
  assistantMode : Bool := false
  assistant : Option Assistant := none
  excludePatterns : List Wording := ["**/*.test.js", "**/*.spec.js", "**/node_modules/**"]
deriving DecidableEq, Repr

def Settings.provider (s : Settings) : Option Provider := s.assistant.map Assistant.provider

inductive SettingsError where
  | badVariable (error : VariableError)
  | invalid (issues : List Issue)
deriving DecidableEq, Repr

namespace Settings

/-- A higher layer over a lower one. Two objects merge: the fields of the lower one come first,
and those of the higher one win. -/
def overlay (lower higher : Option Json) : Option Json :=
  match lower, higher with
  | some (.object low), some (.object high) =>
    some (.object (high.foldl (fun fields f => Fields.put fields f.1 f.2) low))
  | lower, none => lower
  | _, higher => higher

/-- The value of a setting before its default: given, in the environment, or in the file. -/
def layered (given environment file : Option Json) : Option Json :=
  overlay file (overlay environment given)

def plainValue? (s : Sources) (layer : VariableLayer) (setting : String) : Option Json :=
  (s.held? layer setting).map fun
    | some text => .string text
    | none => .null

def present? : Json → Option Json
  | .null => none
  | value => some value

def assistantSettings : List String := ["provider", "api_key", "model", "max_tokens"]

def spellSettings (l : Lookup) (fields : Fields) : Fields :=
  Fields.ofPairs (fields.map fun f =>
    ((assistantSettings.find? (· == l.viewName f.1)).getD f.1, f.2))

/-- A variable that holds the assistant's section in JSON, or else a string. -/
def sectionValue? (s : Sources) (layer : VariableLayer) (setting : String) : Option Json :=
  (s.held? layer setting).bind fun
    | some text =>
      match Json.read text with
      | .ok (.object fields) => some (.object (spellSettings s.lookup fields))
      | .ok value => present? value
      | .error _ => some (.string text)
    | none => some .null

def jsonValue (s : Sources) (layer : VariableLayer) (setting : String) :
    Except SettingsError (Option Json) :=
  match s.held? layer setting with
  | none => .ok none
  | some none => .ok (some .null)
  | some (some text) =>
    match Json.read text with
    | .ok value => .ok (present? value)
    | .error _ => .error (.badVariable ⟨.unreadable, setting, layer⟩)

def issuesOf {α : Type} : Except (List Issue) α → List Issue
  | .ok _ => []
  | .error issues => issues

def check {α : Type} (path : List String) (read : Json → Except Complaint α) (fallback : α) :
    Option Json → Except (List Issue) α
  | none => .ok fallback
  | some value => (read value).mapError fun complaint => [⟨path, complaint⟩]

def checkPlain {α : Type} (s : Sources) (path : List String) (setting : String)
    (read : Json → Except Complaint α) (fallback : α) : Except (List Issue) α :=
  check (path ++ [setting]) read fallback
    (layered (s.given? setting) (plainValue? s .environment setting) (plainValue? s .file setting))

def checkAssistant (s : Sources) (path : List String) : Except (List Issue) Assistant :=
  let defaults : Assistant := {}
  let provider := checkPlain s path "provider" Check.provider defaults.provider
  let apiKey := checkPlain s path "api_key" Check.secret defaults.apiKey
  let model := checkPlain s path "model" Check.string defaults.model
  let maxTokens := checkPlain s path "max_tokens" Check.positive defaults.maxTokens
  match provider, apiKey, model, maxTokens with
  | .ok provider, .ok apiKey, .ok model, .ok maxTokens =>
    .ok { provider, apiKey, model, maxTokens }
  | _, _, _, _ =>
    .error (issuesOf provider ++ issuesOf apiKey ++ issuesOf model ++ issuesOf maxTokens)

def assistantOf (around : Surroundings) (path : List String) (given : Fields) :
    Except (List Issue) Assistant :=
  match Sources.ofGiven? around "JS2TS_AI_" given with
  | some sources => checkAssistant sources path
  | none => .error [⟨path, .withoutVariables ⟨.unnamed, "provider", .environment⟩⟩]

def checkSection (around : Surroundings) : Option Json → Except (List Issue) (Option Assistant)
  | none | some .null => .ok none
  | some (.object fields) => (assistantOf around ["ai"] fields).map some
  | some _ => .error [⟨["ai"], .notSection⟩]

/-- The issues with the patterns from number `i` on, and those that are strings. -/
def checkItems : Nat → List Json → List Issue × List Wording
  | _, [] => ([], [])
  | i, item :: rest =>
    let (issues, strings) := checkItems (i + 1) rest
    match Check.string item with
    | .ok s => (issues, s :: strings)
    | .error complaint => (⟨["exclude_patterns", toString i], complaint⟩ :: issues, strings)

def checkPatterns (fallback : List Wording) : Option Json → Except (List Issue) (List Wording)
  | none => .ok fallback
  | some (.list items) =>
    match checkItems 0 items with
    | ([], patterns) => .ok patterns
    | (issues, _) => .error issues
  | some _ => .error [⟨["exclude_patterns"], .notList⟩]

/-- An assistant is set up by default when it is asked for and not given. -/
def complete (around : Surroundings) (s : Settings) : Except (List Issue) Settings :=
  if s.assistantMode && s.assistant.isNone then
    (assistantOf around [] []).map fun assistant => { s with assistant := some assistant }
  else .ok s

def checkAll (around : Surroundings) (s : Sources) (patterns : Option Json) :
    Except (List Issue) Settings :=
  let defaults : Settings := {}
  let strict := checkPlain s [] "strict" Check.bool defaults.strict
  let preferInterfaces :=
    checkPlain s [] "prefer_interfaces" Check.bool defaults.preferInterfaces
  let targetVersion := checkPlain s [] "target_ts_version" Check.version defaults.targetVersion
  let assistantMode := checkPlain s [] "ai_mode" Check.bool defaults.assistantMode
  let assistant :=
    checkSection around
      (layered (s.given? "ai") (sectionValue? s .environment "ai") (sectionValue? s .file "ai"))
  let excludePatterns := checkPatterns defaults.excludePatterns patterns
  match strict, preferInterfaces, targetVersion, assistantMode, assistant, excludePatterns with
  | .ok strict, .ok preferInterfaces, .ok targetVersion, .ok assistantMode, .ok assistant,
    .ok excludePatterns =>
    complete around
      { strict, preferInterfaces, targetVersion, assistantMode, assistant, excludePatterns }
  | _, _, _, _, _, _ =>
    .error (issuesOf strict ++ issuesOf preferInterfaces ++ issuesOf targetVersion ++
      issuesOf assistantMode ++ issuesOf assistant ++ issuesOf excludePatterns)

def ofSources (around : Surroundings) (s : Sources) : Except SettingsError Settings := do
  let environment ← jsonValue s .environment "exclude_patterns"
  let file ← jsonValue s .file "exclude_patterns"
  (checkAll around s (layered (s.given? "exclude_patterns") environment file)).mapError .invalid

/-- The settings from the fields given for them, and what is around. -/
def ofGiven (around : Surroundings) (given : Fields) : Except SettingsError Settings :=
  match Sources.ofGiven? around "JS2TS_" given with
  | some sources => ofSources around sources
  | none => .error (.badVariable ⟨.unnamed, "strict", .environment⟩)

end Settings

end ScriptTyping
