import Mathlib.Data.List.Nodup
import ScriptTyping.Proofs.GivenFields

/-! # Winning values

A setting can be spelled in two ways in a configuration object, and more than once. The last key that
spells it wins, and only the winning values have an influence on the settings.
-/
namespace ScriptTyping

namespace Config

variable {table : List (String × String)} {fields : Fields} {setting key : String}

/-- Whether a key stands for a setting: by the name that a table has for it, or by its own. -/
def spells (table : List (String × String)) (setting key : String) : Bool :=
  key == setting || table.contains (key, setting)

/-- The value that an object gives a setting: that of the last key that spells it. -/
def winning? (table : List (String × String)) (fields : Fields) (setting : String) : Option Json :=
  (fields.reverse.find? fun f => spells table setting f.1).map Prod.snd

/-- What makes a table one of keys for settings. -/
structure IsKeyTable (table : List (String × String)) : Prop where
  keys : (table.map Prod.fst).Nodup
  lower : ∀ e ∈ table, Text.lower e.2 = e.2
  own : ∀ e ∈ table, e.1 ∈ table.map Prod.snd → e.1 = e.2
  unreserved : ∀ e ∈ table, isReserved e.2 = false

theorem settingKeys_isKeyTable : IsKeyTable settingKeys := by
  constructor <;> decide +kernel

theorem assistantKeys_isKeyTable : IsKeyTable assistantKeys := by
  constructor <;> decide +kernel

/-- A key that neither is reserved nor spells a setting in another case. -/
def IsOrdinary (table : List (String × String)) (key : String) : Prop :=
  isReserved key = false ∧ (Text.lower key ∈ table.map Prod.snd → key ∈ table.map Prod.snd)

instance : Decidable (IsOrdinary table key) :=
  inferInstanceAs (Decidable (_ ∧ (_ → _)))

theorem IsKeyTable.lower_of_mem (ht : IsKeyTable table) (h : setting ∈ table.map Prod.snd) :
    Text.lower setting = setting := by
  obtain ⟨e, he, rfl⟩ := List.mem_map.mp h
  exact ht.lower e he

/-- The name that a table gives a key. -/
def nameOf (table : List (String × String)) (key : String) : String :=
  (table.lookup key).getD key

theorem mem_of_lookup_eq_some {name : String} (h : table.lookup key = some name) :
    (key, name) ∈ table := by
  obtain ⟨before, after, rfl, -⟩ := List.lookup_eq_some_iff.mp h
  simp

theorem nameOf_cases (table : List (String × String)) (key : String) :
    nameOf table key = key ∨ (key, nameOf table key) ∈ table := by
  rw [nameOf]
  cases hlookup : table.lookup key with
  | none => exact .inl rfl
  | some name => exact .inr (mem_of_lookup_eq_some hlookup)

theorem nameOf_of_mem (ht : IsKeyTable table) (h : (key, setting) ∈ table) :
    nameOf table key = setting := by
  rw [nameOf]
  cases hlookup : table.lookup key with
  | none => simpa using List.lookup_eq_none_iff.mp hlookup _ h
  | some name =>
    exact congrArg Prod.snd
      (List.inj_on_of_nodup_map ht.keys (mem_of_lookup_eq_some hlookup) h rfl)

theorem nameOf_eq_iff (ht : IsKeyTable table) (hs : setting ∈ table.map Prod.snd) :
    nameOf table key = setting ↔ spells table setting key = true := by
  rw [spells, Bool.or_eq_true, beq_iff_eq, List.contains_iff_mem]
  constructor
  · rintro rfl
    exact (nameOf_cases table key).imp_left Eq.symm
  · rintro (rfl | hmem)
    · -- A key that is itself the name of a setting is not the key of another one.
      rcases nameOf_cases table key with hown | hmem
      · exact hown
      · exact (ht.own _ hmem hs).symm
    · exact nameOf_of_mem ht hmem

/-- Of ordinary keys, only those that spell a setting get a name that stands for it in some case. -/
theorem isSpelling_nameOf_iff (ht : IsKeyTable table) (hs : setting ∈ table.map Prod.snd)
    (hkey : IsOrdinary table key) :
    isSpelling setting (nameOf table key) = true ↔ nameOf table key = setting := by
  have hname : Text.lower (nameOf table key) ∈ table.map Prod.snd →
      nameOf table key ∈ table.map Prod.snd := by
    rcases nameOf_cases table key with hown | hmem
    · rw [hown]
      exact hkey.2
    · exact fun _ => List.mem_map_of_mem hmem
  rw [isSpelling, beq_iff_eq]
  constructor
  · intro hlower
    rw [hlower] at hname
    rw [← hlower]
    exact (ht.lower_of_mem (hname hs)).symm
  · intro heq
    rw [heq]
    exact ht.lower_of_mem hs

theorem named_rename (table : List (String × String)) (fields : Fields) (p : String → Bool) :
    (rename table fields).named p =
      Fields.ofPairs ((fields.filter fun f => p (nameOf table f.1)).map fun f =>
        (nameOf table f.1, f.2)) := by
  rw [rename, Fields.named_ofPairs, List.filter_map]
  rfl

/-- After renaming, a setting stands under its name with the winning value, and in no other case. -/
theorem spellings_rename (ht : IsKeyTable table) (hs : setting ∈ table.map Prod.snd)
    (hfields : ∀ f ∈ fields, IsOrdinary table f.1) :
    (rename table fields).named (isSpelling setting) =
      ((winning? table fields setting).map fun v => (setting, v)).toList := by
  have hkept : (fields.filter fun f => isSpelling setting (nameOf table f.1)) =
      fields.filter fun f => spells table setting f.1 :=
    List.filter_congr fun f hf => Bool.eq_iff_iff.mpr
      ((isSpelling_nameOf_iff ht hs (hfields f hf)).trans (nameOf_eq_iff ht hs))
  have hpairs : ((fields.filter fun f => spells table setting f.1).map fun f =>
      (nameOf table f.1, f.2)) =
      ((fields.filter fun f => spells table setting f.1).map Prod.snd).map
        fun v => (setting, v) := by
    rw [List.map_map]
    refine List.map_congr_left fun f hf => ?_
    have hname := (nameOf_eq_iff ht hs).mpr (List.mem_filter.mp hf).2
    exact congrArg (·, f.2) hname
  rw [named_rename, hkept, hpairs, Fields.ofPairs_map_one, winning?, List.getLast?_map,
    List.getLast?_eq_head?_reverse, ← List.filter_reverse, List.head?_filter]

/-- Ordinary keys get no reserved names. -/
theorem reserved_rename (ht : IsKeyTable table)
    (hfields : ∀ f ∈ fields, IsOrdinary table f.1) :
    (rename table fields).named isReserved = [] := by
  have hkept : (fields.filter fun f => isReserved (nameOf table f.1)) = [] := by
    rw [List.filter_eq_nil_iff]
    intro f hf
    rcases nameOf_cases table f.1 with hown | hmem
    · simp [hown, (hfields f hf).1]
    · simp [ht.unreserved _ hmem]
  rw [named_rename, hkept]
  rfl

/-- The keys of a configuration object, and of the section that it gives for the assistant, are
ordinary. -/
structure IsOrdinaryObject (fields : Fields) : Prop where
  keys : ∀ f ∈ fields, IsOrdinary settingKeys f.1
  assistant : ∀ held : Fields, winning? settingKeys fields "ai" = some (.object held) →
    ∀ f ∈ held, IsOrdinary assistantKeys f.1

theorem IsOrdinaryObject.of_section {held : Fields}
    (hheld : winning? settingKeys fields "ai" = some (.object held))
    (hkeys : ∀ f ∈ fields, IsOrdinary settingKeys f.1)
    (hassistant : ∀ f ∈ held, IsOrdinary assistantKeys f.1) : IsOrdinaryObject fields where
  keys := hkeys
  assistant held' hheld' := by
    obtain rfl := Json.object.inj (Option.some.inj (hheld.symm.trans hheld'))
    exact hassistant

theorem get?_rename (ht : IsKeyTable table) (hs : setting ∈ table.map Prod.snd)
    (hfields : ∀ f ∈ fields, IsOrdinary table f.1) :
    (rename table fields).get? setting = winning? table fields setting := by
  have hspelling : isSpelling setting setting = true := beq_iff_eq.mpr (ht.lower_of_mem hs)
  rw [← Fields.get?_named _ hspelling, spellings_rename ht hs hfields]
  cases winning? table fields setting <;> simp [Fields.get?]

/-- Only the assistant's section changes after renaming. -/
theorem named_settingsOf {p : String → Bool} (hp : p "ai" = false) :
    (settingsOf fields).named p = (rename settingKeys fields).named p := by
  simp only [settingsOf]
  split
  · rw [Fields.named_put, hp]
    rfl
  · rfl

/-- The section is given with its own fields renamed if it is an object. -/
theorem given?_section_of_object (h : IsOrdinaryObject fields) {held : Fields}
    (hheld : winning? settingKeys fields "ai" = some (.object held)) (s : Sources) :
    { s with given := settingsOf fields }.given? "ai" =
      some (.object (rename assistantKeys held)) := by
  have hs : "ai" ∈ settingKeys.map Prod.snd := by decide
  have hspelling : isSpelling "ai" "ai" = true := by decide +kernel
  have hget := get?_rename settingKeys_isKeyTable hs h.keys
  have hnamed := spellings_rename settingKeys_isKeyTable hs h.keys
  rw [hheld] at hget hnamed
  refine Sources.given?_of_named (settingKeys_isKeyTable.lower_of_mem hs) ?_
  simp only [settingsOf, hget, Fields.named_put, hspelling, hnamed]
  rfl

theorem given?_section_of_not_object (h : IsOrdinaryObject fields)
    (hother : ∀ held, winning? settingKeys fields "ai" ≠ some (.object held)) (s : Sources) :
    { s with given := settingsOf fields }.given? "ai" = winning? settingKeys fields "ai" := by
  have hs : "ai" ∈ settingKeys.map Prod.snd := by decide
  have hget := get?_rename settingKeys_isKeyTable hs h.keys
  refine Sources.given?_of_named (settingKeys_isKeyTable.lower_of_mem hs) ?_
  rw [← spellings_rename settingKeys_isKeyTable hs h.keys]
  simp only [settingsOf]
  split
  case h_1 held heq => exact absurd (hget.symm.trans heq) (hother held)
  case h_2 => rfl

theorem reserved_settingsOf (h : IsOrdinaryObject fields) :
    (settingsOf fields).named isReserved = [] := by
  rw [named_settingsOf (by decide), reserved_rename settingKeys_isKeyTable h.keys]

/-- What settings other than the section are given is the winning value. -/
theorem given?_settingsOf (h : IsOrdinaryObject fields) (hs : setting ∈ Settings.plainSettings)
    (s : Sources) :
    { s with given := settingsOf fields }.given? setting = winning? settingKeys fields setting := by
  have hplain : ∀ setting ∈ Settings.plainSettings,
      setting ∈ settingKeys.map Prod.snd ∧ isSpelling setting "ai" = false := by decide +kernel
  obtain ⟨hmem, hsection⟩ := hplain setting hs
  refine Sources.given?_of_named (settingKeys_isKeyTable.lower_of_mem hmem) ?_
  rw [named_settingsOf hsection, spellings_rename settingKeys_isKeyTable hmem h.keys]

/-- Values for the assistant's section that count as the same. -/
inductive SameSection : Option Json → Option Json → Prop
  | refl (value : Option Json) : SameSection value value
  | objects {f g : Fields} (h : ∀ setting ∈ Settings.assistantSettings,
      winning? assistantKeys f setting = winning? assistantKeys g setting) :
      SameSection (some (.object f)) (some (.object g))

/-- Two configuration objects give the same value for each of the six settings. -/
structure Agree (f g : Fields) : Prop where
  plain : ∀ setting ∈ Settings.plainSettings,
    winning? settingKeys f setting = winning? settingKeys g setting
  assistant : SameSection (winning? settingKeys f "ai") (winning? settingKeys g "ai")

theorem alikeFields_rename {f g : Fields} (hf : ∀ e ∈ f, IsOrdinary assistantKeys e.1)
    (hg : ∀ e ∈ g, IsOrdinary assistantKeys e.1)
    (h : ∀ setting ∈ Settings.assistantSettings,
      winning? assistantKeys f setting = winning? assistantKeys g setting) :
    Settings.AlikeFields (rename assistantKeys f) (rename assistantKeys g) where
  reserved := by
    rw [reserved_rename assistantKeys_isKeyTable hf,
      reserved_rename assistantKeys_isKeyTable hg]
  spellings setting hs := by
    rw [spellings_rename assistantKeys_isKeyTable hs hf, spellings_rename assistantKeys_isKeyTable hs hg,
      h setting hs]

theorem alikeSections_of_objects {f g held held' : Fields} (hf : IsOrdinaryObject f)
    (hg : IsOrdinaryObject g) (hfheld : winning? settingKeys f "ai" = some (.object held))
    (hgheld : winning? settingKeys g "ai" = some (.object held'))
    (h : ∀ setting ∈ Settings.assistantSettings,
      winning? assistantKeys held setting = winning? assistantKeys held' setting) (s : Sources) :
    Settings.AlikeSections ({ s with given := settingsOf f }.given? "ai")
      ({ s with given := settingsOf g }.given? "ai") := by
  have hkeys := hf.assistant held hfheld
  exact .inr ⟨_, _, given?_section_of_object hf hfheld s, given?_section_of_object hg hgheld s,
    alikeFields_rename hkeys (hg.assistant held' hgheld) h,
    reserved_rename assistantKeys_isKeyTable hkeys⟩

theorem Agree.alikeSections {f g : Fields} (hf : IsOrdinaryObject f) (hg : IsOrdinaryObject g)
    (h : Agree f g) (s : Sources) :
    Settings.AlikeSections ({ s with given := settingsOf f }.given? "ai")
      ({ s with given := settingsOf g }.given? "ai") := by
  have hsame := h.assistant
  generalize hv : winning? settingKeys f "ai" = v, hw : winning? settingKeys g "ai" = w at hsame
  cases hsame with
  | objects hagree => exact alikeSections_of_objects hf hg hv hw hagree s
  | refl =>
    -- Equal sections are renamed too if they are objects.
    by_cases hheld : ∃ held, v = some (.object held)
    · obtain ⟨held, rfl⟩ := hheld
      exact alikeSections_of_objects hf hg hv hw (fun _ _ => rfl) s
    · have hother : ∀ held, v ≠ some (.object held) := fun held heq => hheld ⟨held, heq⟩
      rw [given?_section_of_not_object hf (hv ▸ hother), hv,
        given?_section_of_not_object hg (hw ▸ hother), hw]
      exact .inl ⟨rfl, hother⟩

theorem Agree.ofGiven_eq {a b : Surroundings} (hvars : a.SameVariables b a.IsVariableFile)
    {f g : Fields} (hf : IsOrdinaryObject f) (hg : IsOrdinaryObject g) (h : Agree f g) :
    Settings.ofGiven a (settingsOf f) = Settings.ofGiven b (settingsOf g) := by
  refine Settings.ofGiven_congr hvars (reserved_settingsOf hf) (reserved_settingsOf hg)
    ?_ (h.alikeSections hf hg _)
  intro setting hs
  rw [given?_settingsOf hf hs, given?_settingsOf hg hs, h.plain setting hs]

/-- The configuration object that settings are loaded from. -/
def object (cwd : String) (around : Surroundings) (path searchDir : Option String) :
    Except Error Fields :=
  (source cwd around path searchDir).bind (fieldsAt around)

/-- Loading comes out alike: with the same settings, the same issues, or the same variable that
cannot be read. Only the file that has the issues may be another. -/
inductive SameOutcome : Except Error Settings → Except Error Settings → Prop
  | loaded (settings : Settings) : SameOutcome (.ok settings) (.ok settings)
  | invalid (file file' : Option Path) (issues : List Issue) :
      SameOutcome (.error (.invalid file issues)) (.error (.invalid file' issues))
  | badVariable (error : VariableError) :
      SameOutcome (.error (.badVariable error)) (.error (.badVariable error))

theorem sameOutcome_mapError (file file' : Option Path) (result : Except SettingsError Settings) :
    SameOutcome (result.mapError (Error.ofSettings file))
      (result.mapError (Error.ofSettings file')) := by
  rcases result with (error | issues) | settings
  · exact .badVariable error
  · exact .invalid file file' issues
  · exact .loaded settings

theorem exists_load_eq {cwd : String} {around : Surroundings} {path searchDir : Option String}
    (h : object cwd around path searchDir = .ok fields) :
    ∃ file, load cwd around path searchDir =
      (Settings.ofGiven around (settingsOf fields)).mapError (Error.ofSettings file) := by
  obtain ⟨file, hsource, hfields⟩ := exists_of_bind_eq_ok h
  refine ⟨file, ?_⟩
  rw [load_eq, hsource, Except.bind, hfields, Except.bind]

end Config

/-- Where no variable is set and there is no file of variables, there is none to tell apart. -/
theorem Surroundings.sameVariables_of_none {a b : Surroundings} (ha : a.environment = {})
    (hb : b.environment = {}) (hatext : a.files.text? (Path.ofText ".env") = none)
    (hbtext : b.files.text? (Path.ofText ".env") = none) :
    a.SameVariables b a.IsVariableFile where
  environment := ha.trans hb.symm
  texts := by
    have hsources : Settings.variablesOnly a =
        { lookup := { mark := "JS2TS_" }, given := [], environment := {}, file := {} } := by
      simp only [Settings.variablesOnly, Surroundings.fileVariables, ha, List.filterMap_cons,
        hatext]
      rfl
    rintro path (rfl | ⟨held, hheld, -⟩)
    · rw [hatext, hbtext]
    · rw [hsources] at hheld
      simp [Settings.heldSections, Settings.sectionValue?, Sources.held?, Sources.layer,
        Variables.find?, Settings.overlay] at hheld

section LoneFile

variable (text : String)

theorem loneFile_files : (loneFile text).files = ⟨[([".js2tsrc.json"], text)]⟩ := by
  have hparts : Path.splitParts ".js2tsrc.json" = [".js2tsrc.json"] := by decide +kernel
  simp [loneFile, FileTree.ofTexts, hparts]

theorem loneFile_walk :
    (loneFile text).files.walk { anchor := some "/work", parts := [".js2tsrc.json"] } =
      .ok (.file text) := by
  have hnul : ({ anchor := some "/work", parts := [".js2tsrc.json"] } : Path).hasNul = false := by
    decide +kernel
  have hbytes : ¬Path.maxBytes <
      ({ anchor := some "/work", parts := [".js2tsrc.json"] } : Path).text.utf8ByteSize := by
    decide +kernel
  have hpart : ¬Path.maxPartBytes < ".js2tsrc.json".utf8ByteSize := by decide +kernel
  rw [loneFile_files, FileTree.walk, hnul, if_neg hbytes]
  simp [FileTree.step, FileTree.spot?, hpart]

theorem loneFile_text?_variables : (loneFile text).files.text? (Path.ofText ".env") = none := by
  have hpath : Path.ofText ".env" = { parts := [".env"] } := by decide +kernel
  have hnul : ({ parts := [".env"] } : Path).hasNul = false := by decide +kernel
  have hbytes : ¬Path.maxBytes < ({ parts := [".env"] } : Path).text.utf8ByteSize := by
    decide +kernel
  have hpart : ¬Path.maxPartBytes < ".env".utf8ByteSize := by decide +kernel
  rw [loneFile_files, FileTree.text?, FileTree.walk, hpath, hnul, if_neg hbytes]
  simp [FileTree.step, FileTree.spot?, hpart]

variable {text}

theorem Config.object_loneFile (fields : Fields)
    (hread : Json.readText (Text.unifyLineEnds text.toList) = .ok (.object fields)) :
    object "/work" (loneFile text) none none = .ok (unwrapDefault fields) := by
  have hfind : find "/work" (loneFile text).files none =
      .ok (some { anchor := some "/work", parts := [".js2tsrc.json"] }) := by
    simp [find, fileNames, findFile, directory, Path.child, loneFile_walk]
  rw [object, source, Option.elim, hfind, Except.bind, fieldsAt, Option.elim, readFile,
    loneFile_walk]
  simp only [Json.read, String.toList_ofList, hread, Except.mapError]

theorem loneFile_sameVariables (text text' : String) :
    (loneFile text).SameVariables (loneFile text') (loneFile text).IsVariableFile :=
  Surroundings.sameVariables_of_none rfl rfl (loneFile_text?_variables text)
    (loneFile_text?_variables text')

end LoneFile

/-- A file with values that lose and keys that are unknown. -/
def crowdedFile : Surroundings :=
  loneFile "\x7b\"aiMode\":false,\"x\":0,\"ai\":\x7b\"y\":0,\"maxTokens\":5\x7d,\"ai_mode\":true\x7d"

def crowdedSection : Fields := [("y", .int 0), ("maxTokens", .int 5)]

def crowdedFields : Fields :=
  [("aiMode", .bool false), ("x", .int 0), ("ai", .object crowdedSection),
    ("ai_mode", .bool true)]

/-- A file that gives the same settings in another order and with other spellings. -/
def respelledFile : Surroundings :=
  loneFile "\x7b\"aiConfig\":\x7b\"maxTokens\":4,\"max_tokens\":5\x7d,\"aiMode\":true\x7d"

def respelledSection : Fields := [("maxTokens", .int 4), ("max_tokens", .int 5)]

def respelledFields : Fields :=
  [("aiConfig", .object respelledSection), ("aiMode", .bool true)]

theorem winning?_crowdedFields :
    Config.winning? Config.settingKeys crowdedFields "ai" = some (.object crowdedSection) := by
  simp [Config.winning?, Config.spells, Config.settingKeys, crowdedFields]

theorem winning?_respelledFields :
    Config.winning? Config.settingKeys respelledFields "ai" = some (.object respelledSection) := by
  simp [Config.winning?, Config.spells, Config.settingKeys, respelledFields]

theorem agree_crowdedFields_respelledFields : Config.Agree crowdedFields respelledFields where
  plain := by
    simp [Settings.plainSettings, Config.winning?, Config.spells, Config.settingKeys,
      crowdedFields, respelledFields]
  assistant := by
    rw [winning?_crowdedFields, winning?_respelledFields]
    refine .objects ?_
    simp [Settings.assistantSettings, Config.winning?, Config.spells, Config.assistantKeys,
      crowdedSection, respelledSection]

/-- Only the winning value of each setting has an influence on what is loaded. Unknown keys, values
that lose, the spelling of a key and the order of keys have none. -/
theorem only_winning_values_matter {cwd cwd' : String} {a b : Surroundings}
    {path path' searchDir searchDir' : Option String} {f g : Fields}
    (hvars : a.SameVariables b a.IsVariableFile)
    (hf : Config.object cwd a path searchDir = .ok f)
    (hg : Config.object cwd' b path' searchDir' = .ok g)
    (hfkeys : Config.IsOrdinaryObject f) (hgkeys : Config.IsOrdinaryObject g)
    (hagree : Config.Agree f g) :
    Config.SameOutcome (Config.load cwd a path searchDir) (Config.load cwd' b path' searchDir') := by
  obtain ⟨file, hload⟩ := Config.exists_load_eq hf
  obtain ⟨file', hload'⟩ := Config.exists_load_eq hg
  rw [hload, hload', hagree.ofGiven_eq hvars hfkeys hgkeys]
  exact Config.sameOutcome_mapError file file' _

/-- Both files ask for an assistant with the same number of tokens. -/
theorem only_winning_values_matter_respelled :
    Config.object "/work" crowdedFile none none = .ok crowdedFields ∧
      Config.object "/work" respelledFile none none = .ok respelledFields ∧
      Config.Agree crowdedFields respelledFields ∧
      Config.SameOutcome (Config.load "/work" crowdedFile none none)
        (Config.load "/work" respelledFile none none) := by
  have hcrowded : Config.object "/work" crowdedFile none none = .ok crowdedFields :=
    Config.object_loneFile crowdedFields (by simp only [String.reduceToList]; rfl)
  have hrespelled : Config.object "/work" respelledFile none none = .ok respelledFields :=
    Config.object_loneFile respelledFields (by simp only [String.reduceToList]; rfl)
  have hcrowdedKeys : Config.IsOrdinaryObject crowdedFields :=
    .of_section winning?_crowdedFields (by decide +kernel) (by decide +kernel)
  have hrespelledKeys : Config.IsOrdinaryObject respelledFields :=
    .of_section winning?_respelledFields (by decide +kernel) (by decide +kernel)
  have hagree := agree_crowdedFields_respelledFields
  exact ⟨hcrowded, hrespelled, hagree, only_winning_values_matter (loneFile_sameVariables _ _)
    hcrowded hrespelled hcrowdedKeys hrespelledKeys hagree⟩

/-- A key that spells a setting in another case does matter: the first file gives no setting by its
name or its key, and yet loads other settings than one without fields. -/
theorem other_case_matters :
    let shouting := loneFile "\x7b\"STRICT\": false\x7d"
    let silent := loneFile "\x7b\x7d"
    shouting.SameVariables silent shouting.IsVariableFile ∧
      Config.object "/work" shouting none none = .ok [("STRICT", .bool false)] ∧
      Config.object "/work" silent none none = .ok [] ∧
      isReserved "STRICT" = false ∧ Config.Agree [("STRICT", .bool false)] [] ∧
      Config.load "/work" shouting none none = .ok { strict := false } ∧
      Config.load "/work" silent none none = .ok {} ∧
      ¬Config.SameOutcome (Config.load "/work" shouting none none)
        (Config.load "/work" silent none none) := by
  intro shouting silent
  have hshouting : Config.load "/work" shouting none none = .ok { strict := false } :=
    eq_ok_of_toOption (by decide +kernel)
  have hsilent : Config.load "/work" silent none none = .ok {} :=
    eq_ok_of_toOption (by decide +kernel)
  refine ⟨loneFile_sameVariables _ _, ?_, ?_, by decide, ⟨?_, ?_⟩, hshouting, hsilent, ?_⟩
  · exact Config.object_loneFile [("STRICT", .bool false)] (by simp only [String.reduceToList]; rfl)
  · exact Config.object_loneFile [] (by simp only [String.reduceToList]; rfl)
  · simp [Settings.plainSettings, Config.winning?, Config.spells, Config.settingKeys]
  · simp [Config.winning?, Config.spells, Config.settingKeys, Config.SameSection.refl]
  · rw [hshouting, hsilent]
    intro h
    cases h

end ScriptTyping
