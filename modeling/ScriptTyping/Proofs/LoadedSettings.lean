import Mathlib.Data.List.Infix
import ScriptTyping.Config.Load

/-! # Loaded settings

Settings are loaded from the object in a configuration file and from variables. Whatever layer a
value comes from, it is a default or has passed the check of its setting, and an assistant that is
asked for is set up at the end by the same checks. So settings that are loaded at all can be used.
-/
namespace ScriptTyping

section Results

variable {ε δ α β : Type}

theorem exists_of_bind_eq_ok {result : Except ε α} {next : α → Except ε β} {b : β}
    (h : result.bind next = .ok b) : ∃ a, result = .ok a ∧ next a = .ok b := by
  cases result with
  | error e => cases h
  | ok a => exact ⟨a, rfl, h⟩

theorem exists_of_map_eq_ok {result : Except ε α} {f : α → β} {b : β}
    (h : result.map f = .ok b) : ∃ a, result = .ok a ∧ f a = b := by
  cases result with
  | error e => cases h
  | ok a => exact ⟨a, rfl, Except.ok.inj h⟩

theorem eq_ok_of_mapError_eq_ok {result : Except ε α} {f : ε → δ} {a : α}
    (h : result.mapError f = .ok a) : result = .ok a := by
  cases result with
  | error e => cases h
  | ok b => exact congrArg _ (Except.ok.inj h)

theorem eq_ok_of_toOption {result : Except ε α} {a : α} (h : result.toOption = some a) :
    result = .ok a := by
  cases result with
  | error e => cases h
  | ok b => exact congrArg _ (Option.some.inj h)

end Results

namespace Config

/-- The file to load settings from: the one named, or else the one that is found. -/
def source (cwd : String) (around : Surroundings) (path searchDir : Option String) :
    Except Error (Option Path) :=
  path.elim (find cwd around.files searchDir) fun text => .ok (some (Path.ofText text))

/-- The configuration object of a file. Without a file it has no fields. -/
def fieldsAt (around : Surroundings) (file : Option Path) : Except Error Fields :=
  file.elim (.ok []) (readFile around.files)

/-- What is wrong with settings, as an error of the file that they were loaded from. -/
def Error.ofSettings (file : Option Path) : SettingsError → Error
  | .invalid issues => .invalid file issues
  | .badVariable error => .badVariable error

theorem load_eq (cwd : String) (around : Surroundings) (path searchDir : Option String) :
    load cwd around path searchDir =
      (source cwd around path searchDir).bind fun file =>
        (fieldsAt around file).bind fun fields =>
          (Settings.ofGiven around (settingsOf fields)).mapError (Error.ofSettings file) := by
  unfold load
  cases path
  all_goals
    refine congrArg₂ Except.bind rfl (funext fun file => ?_)
    cases file
    all_goals
      refine congrArg₂ Except.bind rfl (funext fun fields => ?_)
      dsimp only
      rcases Settings.ofGiven around (settingsOf fields) with (_ | _) | _ <;> rfl

end Config

/-- The text is a run of digits, a point and a run of digits, and has no other point. -/
def IsVersion (text : List Char) : Prop :=
  text.count '.' = 1 ∧ ∃ major minor, text = major ++ '.' :: minor ∧ major ≠ [] ∧ minor ≠ [] ∧
    ∀ c ∈ major ++ minor, Text.isDigit c = true

namespace Check

theorem positive_sound {value : Json} {n : Int} (h : positive value = .ok n) : 0 < n := by
  obtain ⟨m, -, h⟩ := exists_of_bind_eq_ok h
  by_cases hm : 0 < m
  · simp only [hm, ↓reduceIte, Except.ok.injEq] at h
    exact h ▸ hm
  · simp [hm] at h

end Check

namespace Settings

/-- What holds of the default and of every value that passes the check holds of the setting,
whatever layer it comes from. -/
theorem checkPlain_sound {α : Type} {s : Sources} {path : List String} {setting : String}
    {read : Json → Except Complaint α} {fallback a : α} {P : α → Prop} (hfallback : P fallback)
    (hread : ∀ value a, read value = .ok a → P a)
    (h : checkPlain s path setting read fallback = .ok a) : P a := by
  rw [checkPlain] at h
  cases hvalue : layered (s.given? setting) (plainValue? s .environment setting)
      (plainValue? s .file setting) with
  | none =>
    rw [hvalue] at h
    exact Except.ok.inj h ▸ hfallback
  | some value =>
    rw [hvalue] at h
    exact hread value a (eq_ok_of_mapError_eq_ok h)

theorem checkAssistant_maxTokens {s : Sources} {path : List String} {a : Assistant}
    (h : checkAssistant s path = .ok a) : 0 < a.maxTokens := by
  simp only [checkAssistant] at h
  split at h
  case h_1 hmaxTokens =>
    obtain rfl := Except.ok.inj h
    exact checkPlain_sound (by decide) (fun _ _ => Check.positive_sound) hmaxTokens
  case h_2 => cases h

theorem assistantOf_maxTokens {around : Surroundings} {path : List String} {given : Fields}
    {a : Assistant} (h : assistantOf around path given = .ok a) : 0 < a.maxTokens := by
  rw [assistantOf] at h
  split at h
  · exact checkAssistant_maxTokens h
  · cases h

/-- The settings can be worked with: the version has its form, an assistant that is asked for is
there, and an assistant that is there has a provider and may produce something. -/
structure Usable (s : Settings) : Prop where
  version : IsVersion s.targetVersion.toList
  present : s.assistantMode = true → ∃ a, s.assistant = some a
  assistant : ∀ a, s.assistant = some a → a.provider.name ∈ ["openai", "anthropic", "local"] ∧
    0 < a.maxTokens ∧ s.provider = some a.provider
  absent : s.assistant = none → s.provider = none

/-- What the checks of the single settings give, before an assistant is set up by default. -/
structure Checked (s : Settings) : Prop where
  version : IsVersion s.targetVersion.toList
  maxTokens : ∀ a, s.assistant = some a → 0 < a.maxTokens

theorem Checked.usable {s : Settings} (h : s.Checked)
    (hpresent : s.assistantMode = true → ∃ a, s.assistant = some a) : s.Usable where
  version := h.version
  present := hpresent
  assistant a ha := by
    refine ⟨?_, h.maxTokens a ha, by rw [provider, ha]; rfl⟩
    cases a.provider <;> simp [Provider.name]
  absent hnone := by rw [provider, hnone]; rfl

theorem Checked.complete {around : Surroundings} {s t : Settings} (hs : s.Checked)
    (h : complete around s = .ok t) : t.Usable := by
  rw [Settings.complete] at h
  split at h
  case isTrue =>
    obtain ⟨a, ha, rfl⟩ := exists_of_map_eq_ok h
    refine Checked.usable ⟨hs.version, ?_⟩ fun _ => ⟨a, rfl⟩
    intro b hb
    exact Option.some.inj hb ▸ assistantOf_maxTokens ha
  case isFalse hmode =>
    obtain rfl := Except.ok.inj h
    refine hs.usable fun hon => ?_
    cases hassistant : s.assistant with
    | none => simp [hon, hassistant] at hmode
    | some a => exact ⟨a, rfl⟩

end Settings

/-- A configuration file alone in the working directory. -/
def loneFile (text : String) : Surroundings where
  files := .ofTexts [(".js2tsrc.json", text)]

end ScriptTyping
