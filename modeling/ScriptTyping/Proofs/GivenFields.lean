import ScriptTyping.Proofs.LoadedSettings

/-! # Given fields

Settings see the fields given for them by name only: those that spell a setting in some case, and the
reserved ones, which say how variables are looked up. Merging fields with the sections that variables
hold goes by name as well, so all other fields have no influence.
-/
namespace ScriptTyping

namespace Fields

/-- The fields whose names are of one kind. -/
def named (fields : Fields) (p : String → Bool) : Fields := fields.filter fun f => p f.1

variable {p q : String → Bool}

theorem named_put (fields : Fields) (name : String) (value : Json) :
    (fields.put name value).named p =
      if p name then (fields.named p).put name value else fields.named p := by
  induction fields with
  | nil => cases h : p name <;> simp [put, named, h]
  | cons f rest ih =>
    obtain ⟨key, old⟩ := f
    by_cases hkey : key = name
    · subst hkey
      cases h : p key <;> simp [put, named, h]
    · cases h : p name <;> cases hk : p key <;> simp_all [put, named]

/-- Fields put onto others, one by one. -/
def onto (high low : Fields) : Fields := high.foldl (fun fields f => put fields f.1 f.2) low

theorem named_onto (high low : Fields) :
    (high.onto low).named p = (high.named p).onto (low.named p) := by
  induction high generalizing low with
  | nil => rfl
  | cons f rest ih =>
    have hstep : onto (f :: rest) low = onto rest (low.put f.1 f.2) := rfl
    rw [hstep, ih, named_put]
    cases h : p f.1 <;> simp [named, onto, h]

/-- Fields that are not of the kind do not show. -/
theorem named_onto_of_none {high : Fields} (h : high.named p = []) (low : Fields) :
    (high.onto low).named p = low.named p := by
  rw [named_onto, h]
  rfl

theorem named_ofPairs (pairs : List (String × Json)) :
    (ofPairs pairs).named p = ofPairs (pairs.filter fun f => p f.1) :=
  named_onto pairs []

theorem find?_named (fields : Fields) (h : ∀ name, q name = true → p name = true) :
    (fields.named p).find? (fun f => q f.1) = fields.find? fun f => q f.1 := by
  rw [named, List.find?_filter]
  congr 1
  funext f
  cases hq : q f.1 with
  | false => simp
  | true => simp [h _ hq]

theorem get?_eq_find? (fields : Fields) (name : String) :
    fields.get? name = (fields.find? fun f => f.1 == name).map Prod.snd := by
  induction fields with
  | nil => rfl
  | cons f rest ih =>
    obtain ⟨key, value⟩ := f
    rw [get?, List.lookup_cons, List.find?_cons, BEq.comm]
    cases key == name with
    | true => rfl
    | false => exact ih

theorem get?_named (fields : Fields) {name : String} (h : p name = true) :
    (fields.named p).get? name = fields.get? name := by
  rw [get?_eq_find?, get?_eq_find?, find?_named (q := (· == name))]
  intro key hkey
  rwa [eq_of_beq hkey]

/-- Of values under one name, the last stays. -/
theorem ofPairs_map_one (name : String) (values : List Json) :
    ofPairs (values.map fun v => (name, v)) = (values.getLast?.map fun v => (name, v)).toList := by
  have hlater : ∀ (first : Json) (later : List Json),
      (later.map fun v => (name, v)).foldl (fun fields f => put fields f.1 f.2) [(name, first)] =
        [(name, later.getLast?.getD first)] := by
    intro first later
    induction later generalizing first with
    | nil => rfl
    | cons v later ih => simp [put, ih, List.getLast?_cons]
  cases values with
  | nil => rfl
  | cons first later =>
    simp only [ofPairs, List.map_cons, List.foldl_cons, put, hlater, List.getLast?_cons]
    rfl

end Fields

/-- A name that is no setting, but says how variables are looked up. -/
def isReserved (name : String) : Bool := name.toList.head? == some '_'

/-- A name that stands for a setting where case does not matter. -/
def isSpelling (setting name : String) : Bool := Text.lower name == setting

namespace Lookup

variable {f g : Fields}

theorem get?_congr (h : f.named isReserved = g.named isReserved) {name : String}
    (hname : isReserved name = true) : f.get? name = g.get? name := by
  rw [← f.get?_named hname, h, g.get?_named hname]

theorem filesOf_congr (h : f.named isReserved = g.named isReserved) (fallback : List String) :
    filesOf f fallback = filesOf g fallback := by
  rw [filesOf, get?_congr h (by decide)]
  rfl

theorem ofGiven?_congr (h : f.named isReserved = g.named isReserved) (mark : String) :
    ofGiven? mark f = ofGiven? mark g := by
  simp only [ofGiven?, markOf?, switch, filesOf_congr h,
    get?_congr h (show isReserved "_env_prefix" = true by decide),
    get?_congr h (show isReserved "_case_sensitive" = true by decide),
    get?_congr h (show isReserved "_env_ignore_empty" = true by decide),
    get?_congr h (show isReserved "_env_parse_none_str" = true by decide)]

/-- Fields that name files of variables name the same ones whatever the usual file is. -/
theorem mem_filesOf {path usual : String} (h : path ∈ filesOf f [usual]) :
    path = usual ∨ path ∈ filesOf f [] := by
  rw [filesOf] at h ⊢
  split at h
  · exact .inl (List.mem_singleton.mp h)
  · exact .inr h
  · exact .inr h

theorem ofGiven?_of_unreserved (h : f.named isReserved = []) (mark : String) :
    ofGiven? mark f = some { mark } := ofGiven?_congr (g := []) h mark

end Lookup

namespace Sources

/-- What is given for a setting comes from the fields that spell it. -/
theorem given?_eq (s : Sources) {setting : String} (hlower : Text.lower setting = setting) :
    s.given? setting = ((s.given.named (isSpelling setting)).find? fun f =>
      s.lookup.viewName f.1 == setting).map Prod.snd := by
  rw [given?, Fields.find?_named (q := fun name => s.lookup.viewName name == setting)]
  intro name hname
  rw [Lookup.viewName] at hname
  split at hname
  · rw [isSpelling, eq_of_beq hname, hlower, beq_self_eq_true]
  · exact hname

theorem given?_of_named {s : Sources} {setting : String} (hlower : Text.lower setting = setting)
    {value : Option Json}
    (h : s.given.named (isSpelling setting) = (value.map fun v => (setting, v)).toList) :
    s.given? setting = value := by
  have hview : (s.lookup.viewName setting == setting) = true := by
    rw [Lookup.viewName]
    split <;> simp [hlower]
  rw [given?_eq s hlower, h]
  cases value <;> simp [hview]

end Sources

namespace Settings

theorem checkPlain_congr {α : Type} {s : Sources} {f g : Fields} {path : List String}
    {setting : String} {read : Json → Except Complaint α} {fallback : α}
    (h : { s with given := f }.given? setting = { s with given := g }.given? setting) :
    checkPlain { s with given := f } path setting read fallback =
      checkPlain { s with given := g } path setting read fallback := by
  rw [checkPlain, h]
  rfl

/-- Fields that the assistant's settings and their lookup cannot tell apart. -/
structure AlikeFields (f g : Fields) : Prop where
  reserved : f.named isReserved = g.named isReserved
  spellings : ∀ setting ∈ assistantSettings,
    f.named (isSpelling setting) = g.named (isSpelling setting)

theorem AlikeFields.onto {f g : Fields} (h : AlikeFields f g) (low : Fields) :
    AlikeFields (f.onto low) (g.onto low) where
  reserved := by rw [Fields.named_onto, Fields.named_onto, h.reserved]
  spellings setting hsetting := by
    rw [Fields.named_onto, Fields.named_onto, h.spellings setting hsetting]

theorem lower_of_mem_assistantSettings {setting : String} (h : setting ∈ assistantSettings) :
    Text.lower setting = setting := by
  have hall : ∀ setting ∈ assistantSettings, Text.lower setting = setting := by decide +kernel
  exact hall setting h

theorem checkAssistant_congr {s : Sources} {f g : Fields} (h : AlikeFields f g)
    (path : List String) :
    checkAssistant { s with given := f } path = checkAssistant { s with given := g } path := by
  have hgiven : ∀ setting ∈ assistantSettings,
      { s with given := f }.given? setting = { s with given := g }.given? setting := by
    intro setting hsetting
    have hlower := lower_of_mem_assistantSettings hsetting
    rw [Sources.given?_eq _ hlower, Sources.given?_eq _ hlower, h.spellings setting hsetting]
  simp only [assistantSettings, List.forall_mem_cons] at hgiven
  obtain ⟨hprovider, hapiKey, hmodel, hmaxTokens, -⟩ := hgiven
  simp only [checkAssistant, checkPlain_congr hprovider, checkPlain_congr hapiKey,
    checkPlain_congr hmodel, checkPlain_congr hmaxTokens]

end Settings

/-- Surroundings with the same variables and the same texts of certain files of variables. -/
structure Surroundings.SameVariables (a b : Surroundings) (paths : String → Prop) : Prop where
  environment : a.environment = b.environment
  texts : ∀ path, paths path → a.files.text? (Path.ofText path) = b.files.text? (Path.ofText path)

theorem Surroundings.SameVariables.fileVariables {a b : Surroundings} {paths : String → Prop}
    (h : a.SameVariables b paths) {l : Lookup} (hl : ∀ path ∈ l.files, paths path) :
    a.fileVariables l = b.fileVariables l := by
  have htexts : (l.files.filterMap fun path => a.files.text? (Path.ofText path)) =
      l.files.filterMap fun path => b.files.text? (Path.ofText path) :=
    List.filterMap_congr fun path hpath => h.texts path (hl path hpath)
  rw [Surroundings.fileVariables, Surroundings.fileVariables, htexts, h.environment]

theorem Settings.assistantOf_congr {a b : Surroundings} {paths : String → Prop}
    (hvars : a.SameVariables b paths) {f g : Fields} (h : AlikeFields f g)
    (hfiles : ∀ path ∈ Lookup.filesOf f [".env"], paths path) (path : List String) :
    assistantOf a path f = assistantOf b path g := by
  have hlookup := Lookup.ofGiven?_congr h.reserved "JS2TS_AI_"
  cases hf : Lookup.ofGiven? "JS2TS_AI_" f with
  | none =>
    rw [hf] at hlookup
    simp only [assistantOf, Sources.ofGiven?, hf, ← hlookup, Option.map_none]
  | some l =>
    rw [hf] at hlookup
    have hl : l.files = Lookup.filesOf f [".env"] := by
      obtain ⟨mark, -, rfl⟩ := Option.map_eq_some_iff.mp hf
      rfl
    have hvariables := hvars.fileVariables (l := l) (by rwa [hl])
    simp only [assistantOf, Sources.ofGiven?, hf, ← hlookup, Option.map_some, hvariables,
      hvars.environment]
    let s : Sources :=
      { lookup := l, given := [], environment := l.view b.environment, file := b.fileVariables l }
    exact checkAssistant_congr (s := s) h path

namespace Settings

section Sections

variable {a b : Surroundings} {paths : String → Prop} {environment file : Option Json}

/-- An object goes over an object by its fields, and replaces everything else. -/
theorem overlay_object (low : Option Json) :
    (∃ l, low = some (.object l) ∧
      ∀ f : Fields, overlay low (some (.object f)) = some (.object (f.onto l))) ∨
    ∀ f : Fields, overlay low (some (.object f)) = some (.object f) := by
  rcases low with _ | v
  · exact .inr fun _ => rfl
  · cases v with
    | object l => exact .inl ⟨l, rfl, fun _ => rfl⟩
    | null | bool | int | float | string | list => exact .inr fun _ => rfl

/-- The sections that variables hold, one by one and together. -/
def heldSections (environment file : Option Json) : List (Option Json) :=
  [environment, file, overlay file environment]

/-- What is given for the assistant is merged with what variables hold, and only these say how to
look further variables up. -/
theorem layered_object (environment file : Option Json) :
    ∃ merge : Fields → Fields,
      (∀ f, layered (some (.object f)) environment file = some (.object (merge f))) ∧
      (∀ f g, AlikeFields f g → AlikeFields (merge f) (merge g)) ∧
      ∀ f, f.named isReserved = [] → (merge f).named isReserved = [] ∨
        ∃ held : Fields, some (.object held) ∈ heldSections environment file ∧
          (merge f).named isReserved = held.named isReserved := by
  rcases overlay_object environment with ⟨e, rfl, henv⟩ | henv <;>
    rcases overlay_object file with ⟨l, rfl, hfile⟩ | hfile
  · refine ⟨fun f => (f.onto e).onto l, fun f => by rw [layered, henv, hfile],
      fun f g h => (h.onto e).onto l, fun f hf => .inr ⟨Fields.onto e l, ?_, ?_⟩⟩
    · simp [heldSections, hfile]
    · rw [Fields.named_onto, Fields.named_onto_of_none hf, ← Fields.named_onto]
  · refine ⟨fun f => f.onto e, fun f => by rw [layered, henv, hfile], fun f g h => h.onto e,
      fun f hf => .inr ⟨e, ?_, Fields.named_onto_of_none hf e⟩⟩
    simp [heldSections]
  · refine ⟨fun f => f.onto l, fun f => by rw [layered, henv, hfile], fun f g h => h.onto l,
      fun f hf => .inr ⟨l, ?_, Fields.named_onto_of_none hf l⟩⟩
    simp [heldSections]
  · exact ⟨fun f => f, fun f => by rw [layered, henv, hfile], fun f g h => h, fun f hf => .inl hf⟩

theorem layered_none (environment file : Option Json) :
    layered none environment file ∈ heldSections environment file := by
  have henv : overlay environment none = environment := by
    rcases environment with _ | v
    · rfl
    · cases v <;> rfl
  simp [layered, henv, heldSections]

theorem overlay_of_not_object (low : Option Json) {v : Json} (hv : ∀ f, v ≠ .object f) :
    overlay low (some v) = some v := by
  cases v with
  | object f => exact absurd rfl (hv f)
  | null | bool | int | float | string | list =>
    rcases low with _ | u
    · rfl
    · cases u <;> rfl

theorem AlikeFields.refl (f : Fields) : AlikeFields f f := ⟨rfl, fun _ _ => rfl⟩

/-- Values for the assistant's section that no check can tell apart. -/
def AlikeSections (v w : Option Json) : Prop :=
  (v = w ∧ ∀ f, v ≠ some (.object f)) ∨
    ∃ f g : Fields, v = some (.object f) ∧ w = some (.object g) ∧ AlikeFields f g ∧
      f.named isReserved = []

variable (hvars : a.SameVariables b paths) (husual : paths ".env")
  (hheld : ∀ held : Fields, some (.object held) ∈ heldSections environment file →
    ∀ path ∈ Lookup.filesOf held [], paths path)

include husual in
theorem usual_of_unreserved {f : Fields} (hf : f.named isReserved = []) :
    ∀ path ∈ Lookup.filesOf f [".env"], paths path := by
  intro path hpath
  rw [Lookup.filesOf_congr (g := []) hf] at hpath
  obtain rfl := List.mem_singleton.mp hpath
  exact husual

include husual hheld in
theorem known_of_held {f held : Fields} (hmem : some (.object held) ∈ heldSections environment file)
    (hf : f.named isReserved = held.named isReserved) :
    ∀ path ∈ Lookup.filesOf f [".env"], paths path := by
  intro path hpath
  rw [Lookup.filesOf_congr hf] at hpath
  rcases Lookup.mem_filesOf hpath with rfl | hpath
  · exact husual
  · exact hheld held hmem path hpath

include hvars husual hheld in
theorem checkSection_congr {v w : Option Json} (h : AlikeSections v w) :
    checkSection a (layered v environment file) = checkSection b (layered w environment file) := by
  rcases h with ⟨rfl, hother⟩ | ⟨f, g, rfl, rfl, hfg, hf⟩
  · cases v with
    | none =>
      have hmem := layered_none environment file
      generalize layered none environment file = u at hmem
      rcases u with _ | u
      · rfl
      · cases u with
        | object held =>
          have hknown := known_of_held husual hheld hmem rfl
          rw [checkSection, checkSection, assistantOf_congr hvars (.refl held) hknown]
        | null | bool | int | float | string | list => rfl
    | some v =>
      have hv : ∀ f, v ≠ .object f := fun f heq => hother f (congrArg some heq)
      have hlayered : layered (some v) environment file = some v := by
        rw [layered, overlay_of_not_object _ hv, overlay_of_not_object _ hv]
      rw [hlayered]
      cases v with
      | object f => exact absurd rfl (hv f)
      | null | bool | int | float | string | list => rfl
  · obtain ⟨merge, hmerge, halike, hreserved⟩ := layered_object environment file
    have hknown : ∀ path ∈ Lookup.filesOf (merge f) [".env"], paths path := by
      rcases hreserved f hf with hnone | ⟨held, hmem, hsame⟩
      · exact usual_of_unreserved husual hnone
      · exact known_of_held husual hheld hmem hsame
    rw [hmerge, hmerge, checkSection, checkSection,
      assistantOf_congr hvars (halike f g hfg) hknown]

include hvars husual in
theorem complete_congr (s : Settings) : complete a s = complete b s := by
  have hnone := assistantOf_congr hvars (.refl []) (usual_of_unreserved husual rfl) []
  rw [complete, complete, hnone]

end Sections

/-- The sources of settings for which nothing is given. -/
def variablesOnly (around : Surroundings) : Sources :=
  let lookup : Lookup := { mark := "JS2TS_" }
  { lookup, given := []
    environment := lookup.view around.environment
    file := around.fileVariables lookup }

theorem ofGiven?_of_unreserved {f : Fields} (hf : f.named isReserved = []) (around : Surroundings) :
    Sources.ofGiven? around "JS2TS_" f = some { variablesOnly around with given := f } := by
  rw [Sources.ofGiven?, Lookup.ofGiven?_of_unreserved hf]
  rfl

end Settings

/-- A file of variables that settings are looked up in: the usual one, or one that is named in the
section of the assistant that a variable holds. -/
def Surroundings.IsVariableFile (around : Surroundings) (path : String) : Prop :=
  let s := Settings.variablesOnly around
  path = ".env" ∨ ∃ held : Fields,
    some (.object held) ∈ Settings.heldSections (Settings.sectionValue? s .environment "ai")
      (Settings.sectionValue? s .file "ai") ∧ path ∈ Lookup.filesOf held []

namespace Settings

/-- The settings other than the assistant's section. -/
def plainSettings : List String :=
  ["strict", "prefer_interfaces", "target_ts_version", "ai_mode", "exclude_patterns"]

/-- Settings are the same where the same is given for each of them, and variables are the same. -/
theorem ofGiven_congr {a b : Surroundings} (hvars : a.SameVariables b a.IsVariableFile)
    {f g : Fields} (hf : f.named isReserved = []) (hg : g.named isReserved = [])
    (hplain : ∀ setting ∈ plainSettings,
      { variablesOnly a with given := f }.given? setting =
        { variablesOnly a with given := g }.given? setting)
    (hsection : AlikeSections ({ variablesOnly a with given := f }.given? "ai")
      ({ variablesOnly a with given := g }.given? "ai")) :
    ofGiven a f = ofGiven b g := by
  have husual : a.IsVariableFile ".env" := .inl rfl
  have hb : variablesOnly b = variablesOnly a := by
    have hfile := hvars.fileVariables (l := { mark := "JS2TS_" }) fun path hpath => by
      obtain rfl := List.mem_singleton.mp hpath
      exact husual
    simp only [variablesOnly, hvars.environment, hfile]
  simp only [plainSettings, List.forall_mem_cons] at hplain
  obtain ⟨hstrict, hprefer, hversion, hmode, hpatterns, -⟩ := hplain
  have hheld : ∀ held : Fields, some (.object held) ∈
      heldSections (sectionValue? (variablesOnly a) .environment "ai")
        (sectionValue? (variablesOnly a) .file "ai") →
      ∀ path ∈ Lookup.filesOf held [], a.IsVariableFile path :=
    fun held hmem path hpath => .inr ⟨held, hmem, hpath⟩
  -- The sections in variables do not depend on what is given.
  have hassistant : checkSection a (layered ({ variablesOnly a with given := f }.given? "ai")
        (sectionValue? { variablesOnly a with given := f } .environment "ai")
        (sectionValue? { variablesOnly a with given := f } .file "ai")) =
      checkSection b (layered ({ variablesOnly a with given := g }.given? "ai")
        (sectionValue? { variablesOnly a with given := g } .environment "ai")
        (sectionValue? { variablesOnly a with given := g } .file "ai")) :=
    checkSection_congr hvars husual hheld hsection
  have hall : ∀ patterns, checkAll a { variablesOnly a with given := f } patterns =
      checkAll b { variablesOnly a with given := g } patterns := by
    intro patterns
    have hcomplete : complete a = complete b := funext (complete_congr hvars husual)
    simp only [checkAll, checkPlain_congr hstrict, checkPlain_congr hprefer,
      checkPlain_congr hversion, checkPlain_congr hmode, hassistant, hcomplete]
  rw [ofGiven, ofGiven, ofGiven?_of_unreserved hf, ofGiven?_of_unreserved hg, hb]
  simp only [ofSources, hall, hpatterns]
  rfl

end Settings

end ScriptTyping
