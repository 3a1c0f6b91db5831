import ScriptTyping.Proofs.InterfaceAccounts

/-! # Interfaces mentioned by functions

The entry of a function shows the names that promoted shapes carry where the function stands, and
nothing registers these shapes. A shape taken from a variable has its interface already. Any other
carries the name that is free at that point: it goes to the first new shape that a later variable
registers, and to no interface if there is none.
-/
namespace ScriptTyping

variable {κ : Type}

/-- Once a name is held, later interfaces do not change what it stands for. -/
theorem Registry.exists_named_iff {r s : Registry} (hs : s.Distinct)
    (hgrows : r.declared <+: s.declared) {name : String} (hname : name ∈ r.names)
    (p : List Property → Prop) :
    (∃ i ∈ s.interfaces, i.name = name ∧ p i.properties) ↔
      ∃ i ∈ r.interfaces, i.name = name ∧ p i.properties := by
  constructor
  · rintro ⟨j, hj, hjname, hp⟩
    obtain ⟨i, hi, rfl⟩ := List.mem_map.mp hname
    obtain ⟨k, hk, hkname, hkprops, _⟩ := exists_of_declared hgrows hi
    have hjk : j = k := hs.eq_of_name hj hk (hjname.trans hkname.symm)
    exact ⟨i, hi, rfl, hkprops ▸ hjk ▸ hp⟩
  · rintro ⟨i, hi, hiname, hp⟩
    obtain ⟨j, hj, hjname, hjprops, _⟩ := exists_of_declared hgrows hi
    exact ⟨j, hj, hjname.trans hiname, hjprops ▸ hp⟩

/-- The interface that is added under the free name is the one interface of that name. -/
theorem Registry.exists_added_iff (r : Registry) (properties : List Property)
    (p : List Property → Prop) :
    (∃ i ∈ r.interfaces ++ [Interface.ofShape r.nextName properties],
        i.name = r.nextName ∧ p i.properties) ↔ p properties := by
  constructor
  · rintro ⟨i, hi, hname, hp⟩
    rcases List.mem_append.mp hi with hi | hi
    · exact absurd (hname ▸ List.mem_map_of_mem hi) r.nextName_notMem_names
    · rw [List.mem_singleton.mp hi] at hp
      exact hp
  · intro hp
    exact ⟨.ofShape r.nextName properties, by simp, rfl, hp⟩

namespace Run

def addsShape (prefer : Bool) (ctx : Context κ) (g : Guess κ) : Bool :=
  prefer && g.needsInterface && (ctx.registry.findByHash? (shapeHash g.properties)).isNone

theorem Settles.registry_of_added {prefer : Bool} {ctx : Context κ} {g : Guess κ}
    {result : Context κ × Guess κ} (h : Settles prefer ctx g result)
    (hadds : addsShape prefer ctx g = true) :
    result.1.registry =
      ⟨ctx.registry.interfaces ++ [Interface.ofShape ctx.registry.nextName g.properties]⟩ := by
  cases h with
  | kept mark => simp [addsShape, mark] at hadds
  | inlined mark off => simp [addsShape, off] at hadds
  | reused mark on found => simp [addsShape, found] at hadds
  | added mark on name new => rfl

theorem Settles.nextName_eq {prefer : Bool} {ctx : Context κ} {g : Guess κ}
    {result : Context κ × Guess κ} (h : Settles prefer ctx g result)
    (hadds : addsShape prefer ctx g = false) :
    result.1.registry.nextName = ctx.registry.nextName := by
  cases h with
  | kept | inlined => rfl
  | reused mark on found => exact Registry.nextName_congr (Registry.names_countUse _ _)
  | added mark on name new => simp [addsShape, mark, on, new] at hadds

variable [Score κ]

/-- The first shape that statements add to the registry of a run. -/
def nextShape? (prefer : Bool) : Run κ → List Statement → Option (Guess κ)
  | _, [] => none
  | r, .declare name init line :: rest =>
    let g := init.guess r.context.env
    if addsShape prefer r.context g then some g
    else nextShape? prefer (r.declare prefer name init line) rest
  | r, .define name routine line :: rest =>
    nextShape? prefer (r.define name routine line) rest

/-- The free name of a run goes to the next new shape. -/
theorem exists_nextName_iff {r : Run κ} (hc : r.context.Consistent) (prefer : Bool)
    (statements : List Statement) (p : List Property → Prop) :
    (∃ i ∈ (statements.foldl (step prefer) r).context.registry.interfaces,
        i.name = r.context.registry.nextName ∧ p i.properties) ↔
      ∃ g, nextShape? prefer r statements = some g ∧ p g.properties := by
  induction statements generalizing r with
  | nil =>
    constructor
    · rintro ⟨i, hi, hname, _⟩
      exact absurd (hname ▸ List.mem_map_of_mem hi) r.context.registry.nextName_notMem_names
    · rintro ⟨g, hg, _⟩
      cases hg
  | cons s rest ih =>
    have hnext := step_consistent hc prefer s
    cases s with
    | define name routine line => exact ih hnext
    | declare name init line =>
      let g := init.guess r.context.env
      have hs : Settles prefer r.context g (settle prefer r.context g) :=
        settle_settles hc (init.guess_yields r.context.env) prefer
      simp only [nextShape?, List.foldl_cons]
      cases hadds : addsShape prefer r.context g with
      | true =>
        -- The added interface takes the free name, and nothing registered later can change it.
        have hregistry : (r.step prefer (.declare name init line)).context.registry = _ :=
          hs.registry_of_added hadds
        have hfinal := foldl_consistent hnext prefer rest
        have hgrows := foldl_declared_grows hnext prefer rest
        have hmem : r.context.registry.nextName ∈
            (r.step prefer (.declare name init line)).context.registry.names := by
          rw [hregistry]
          simp [Registry.names, Interface.ofShape]
        rw [Registry.exists_named_iff hfinal.distinct hgrows hmem, hregistry,
          Registry.exists_added_iff]
        simp [g]
      | false =>
        have hname : (r.step prefer (.declare name init line)).context.registry.nextName = _ :=
          hs.nextName_eq hadds
        have hrest := ih hnext
        rw [hname] at hrest
        rw [hrest]
        simp [step]

end Run

/-- Every interface that a report shows for a guess is there and has the properties of the guess. -/
def Guess.Resolved (g : Guess κ) (interfaces : List Interface) : Prop :=
  ∀ n, (TypeInfo.ofGuess g).interfaceName = some n →
    ∃ i ∈ interfaces, i.name = n ∧ i.properties.Perm g.properties

theorem Guess.resolved_of_unmarked {g : Guess κ} (h : g.needsInterface = false)
    (interfaces : List Interface) : g.Resolved interfaces := by
  intro n hn
  rw [TypeInfo.interfaceName_of_unmarked h] at hn
  cases hn

theorem Guess.resolved_iff {g : Guess κ} {name : String} (hmark : g.needsInterface = true)
    (hname : g.interfaceName = some name) (interfaces : List Interface) :
    g.Resolved interfaces ↔
      ∃ i ∈ interfaces, i.name = name ∧ i.properties.Perm g.properties := by
  simp [Guess.Resolved, TypeInfo.interfaceName_of_marked hmark, hname]

namespace Definition
variable [Score κ]

/-- The guesses that the entry of a function shows, the result last. -/
def guesses (d : Definition κ) : List (Guess κ) :=
  d.routine.paramGuesses d.before.context.env ++ [d.routine.result d.before.context.env]

def entry (d : Definition κ) : FunctionInfo κ :=
  { name := d.name
    params := (d.routine.params.zip (d.routine.paramGuesses d.before.context.env)).map fun (p, g) =>
      { name := p.name?, type := .ofGuess g }
    result := .ofGuess (d.routine.result d.before.context.env)
    line := d.line }

/-- The guess carries the name that is free at the function, and the first shape that is registered
after the function has the properties of the guess. -/
def Awaits (prefer : Bool) (d : Definition κ) (g : Guess κ) : Prop :=
  g.interfaceName = some d.before.context.registry.nextName ∧
    ∃ shape, Run.nextShape? prefer (d.before.define d.name d.routine d.line) d.after = some shape ∧
      shape.properties.Perm g.properties

theorem guesses_yield (d : Definition κ) {g : Guess κ} (hg : g ∈ d.guesses) :
    d.before.context.env.Yields g := by
  rcases List.mem_append.mp hg with hg | hg
  · rw [Routine.paramGuesses, Param.guessAll_eq_map] at hg
    obtain ⟨p, _, rfl⟩ := List.mem_map.mp hg
    exact p.guess_yields _
  · rw [List.mem_singleton.mp hg]
    exact d.routine.body.guess_yields _

def outcome (prefer : Bool) (d : Definition κ) : Run κ :=
  d.after.foldl (Run.step prefer) (d.before.define d.name d.routine d.line)

theorem resolved_outcome_iff {d : Definition κ} (hc : d.before.context.Consistent) (prefer : Bool)
    {g : Guess κ} (hg : g ∈ d.guesses) :
    g.Resolved (d.outcome prefer).context.registry.interfaces ↔
      g.Resolved d.before.context.registry.interfaces ∨ d.Awaits prefer g := by
  have hnext : (d.before.define d.name d.routine d.line).context.Consistent :=
    Run.step_consistent hc prefer (.define d.name d.routine d.line)
  have hfinal := Run.foldl_consistent hnext prefer d.after
  have hgrows := Run.foldl_declared_grows hnext prefer d.after
  have hfree := d.before.context.registry.nextName_notMem_names
  cases hmark : g.needsInterface with
  | false =>
    have hresolved := Guess.resolved_of_unmarked hmark
    exact ⟨fun _ => .inl (hresolved _), fun _ => hresolved _⟩
  | true =>
    rcases hc.fresh_or_held (d.guesses_yield hg) hmark with hname | ⟨n, hname, i, hi, hin, _⟩
    · have hbefore : ¬ g.Resolved d.before.context.registry.interfaces := by
        rw [Guess.resolved_iff hmark hname]
        rintro ⟨i, hi, hiname, _⟩
        exact hfree (hiname ▸ List.mem_map_of_mem hi)
      have hshape := Run.exists_nextName_iff hnext prefer d.after
        fun properties => properties.Perm g.properties
      rw [Guess.resolved_iff hmark hname]
      refine hshape.trans ?_
      exact ⟨fun h => .inr ⟨hname, h⟩, fun h => (h.resolve_left hbefore).2⟩
    · have hmem : n ∈ d.before.context.registry.names := hin ▸ List.mem_map_of_mem hi
      have hawaits : ¬ d.Awaits prefer g := by
        rintro ⟨hnext, _⟩
        rw [hname] at hnext
        cases hnext
        exact hfree hmem
      have hstable := Registry.exists_named_iff hfinal.distinct hgrows hmem
        fun properties => properties.Perm g.properties
      rw [Guess.resolved_iff hmark hname, Guess.resolved_iff hmark hname]
      exact ⟨fun h => .inl (hstable.mp h), fun h => hstable.mpr (h.resolve_right hawaits)⟩

end Definition

namespace Run
variable [Score κ]

theorem foldl_functions (prefer : Bool) (r : Run κ) (statements : List Statement) :
    (statements.foldl (step prefer) r).functions =
      r.functions ++ (definitions prefer r statements).map Definition.entry := by
  induction statements generalizing r with
  | nil => simp [definitions]
  | cons s rest ih =>
    rw [List.foldl_cons, ih]
    cases s with
    | declare name init line => rfl
    | define name routine line => exact List.append_assoc _ _ _

/-- A function of a script is met in a consistent context, on the way to the end of the run. -/
theorem mem_definitions {prefer : Bool} {r : Run κ} (hc : r.context.Consistent)
    {statements : List Statement} {d : Definition κ} (hd : d ∈ definitions prefer r statements) :
    d.before.context.Consistent ∧ statements.foldl (step prefer) r = d.outcome prefer := by
  induction statements generalizing r with
  | nil => cases hd
  | cons s rest ih =>
    have hnext := step_consistent hc prefer s
    cases s with
    | declare name init line => exact ih hnext hd
    | define name routine line =>
      rcases List.mem_cons.mp hd with rfl | hd
      · exact ⟨hc, rfl⟩
      · exact ih hnext hd

end Run

/-- A function refers to an interface of its own shape exactly if the shape was registered before,
or if its name is still free and goes to that shape next. Where interfaces are not preferred, no
shape with a mark has its interface. -/
theorem function_mention_resolved_iff [Score κ] (prefer : Bool) (path : String) (root : Node)
    (h : root.fault? = none) :
    ∃ report : Report κ, Report.ofTree prefer path root = .ok report ∧
      report.functions = (Run.definitions prefer {} root.script).map Definition.entry ∧
      ∀ d ∈ Run.definitions prefer ({} : Run κ) root.script, ∀ g ∈ d.guesses,
        (g.Resolved report.interfaces ↔
          g.Resolved d.before.context.registry.interfaces ∨ d.Awaits prefer g) ∧
        (prefer = false → (g.Resolved report.interfaces ↔ g.needsInterface = false)) := by
  refine ⟨_, Report.ofTree_eq_ok h prefer path, ?_, ?_⟩
  · exact Run.foldl_functions prefer {} root.script
  · intro d hd g hg
    obtain ⟨hc, houtcome⟩ := Run.mem_definitions .empty hd
    constructor
    · have hiff := Definition.resolved_outcome_iff hc prefer hg
      rw [← houtcome] at hiff
      exact hiff
    · rintro rfl
      have hempty : (root.script.foldl (Run.step false) ({} : Run κ)).context.registry = {} :=
        Run.foldl_registry_inline rfl root.script
      constructor
      · intro hresolved
        by_contra hmark
        have hmark : g.needsInterface = true := by simpa using hmark
        have hname : ∃ n, g.interfaceName = some n := by
          rcases hc.fresh_or_held (d.guesses_yield hg) hmark with hname | ⟨n, hname, _⟩
          · exact ⟨_, hname⟩
          · exact ⟨n, hname⟩
        obtain ⟨n, hname⟩ := hname
        obtain ⟨i, hi, _⟩ := (Guess.resolved_iff hmark hname _).mp hresolved
        simp only [Report.ofStatements, Run.report, hempty] at hi
        cases hi
      · intro hmark
        exact Guess.resolved_of_unmarked hmark _

/-- A function whose parameter takes an object of four numbers by default, and nothing else. -/
def defaultScript : Node :=
  .branch "program" [.branch "function_declaration"
    [(Node.leaf "identifier" "f").inRole "name",
      (Node.branch "formal_parameters"
        [.branch "assignment_pattern" [(Node.leaf "identifier" "p").inRole "left",
          (Node.numbers ["w", "x", "y", "z"]).inRole "right"]]).inRole "parameters",
      (Node.branch "statement_block" []).inRole "body"]]

theorem function_mention_resolved_iff_default :
    defaultScript.fault? = none ∧
    ((Run.definitions true ({} : Run Float) defaultScript.script).flatMap Definition.guesses).map
      (fun g => g.needsInterface) = [true, false] ∧
    ∃ report : Report Float, Report.ofTree true "default" defaultScript = .ok report ∧
      report.functions = (Run.definitions true {} defaultScript.script).map Definition.entry ∧
      ∀ d ∈ Run.definitions true ({} : Run Float) defaultScript.script, ∀ g ∈ d.guesses,
        (g.Resolved report.interfaces ↔
          g.Resolved d.before.context.registry.interfaces ∨ d.Awaits true g) ∧
        (true = false → (g.Resolved report.interfaces ↔ g.needsInterface = false)) :=
  ⟨rfl, rfl, function_mention_resolved_iff true "default" defaultScript rfl⟩

/-- Whether interfaces are preferred or not, the function refers to an interface that is not there. -/
theorem function_mention_dangles :
    (∃ report : Report Float, Report.ofTree true "default" defaultScript = .ok report ∧
      (∃ f ∈ report.functions, ∃ p ∈ f.params, p.type.interfaceName = some "Interface1") ∧
      ∀ i ∈ report.interfaces, i.name ≠ "Interface1") ∧
    ∃ report : Report Float, Report.ofTree false "default" defaultScript = .ok report ∧
      (∃ f ∈ report.functions, ∃ p ∈ f.params, p.type.interfaceName = some "Interface1") ∧
      ∀ i ∈ report.interfaces, i.name ≠ "Interface1" := by
  constructor
  · refine ⟨_, rfl, ⟨_, List.mem_cons_self, _, List.mem_cons_self, rfl⟩, ?_⟩
    intro i hi
    cases hi
  · refine ⟨_, rfl, ⟨_, List.mem_cons_self, _, List.mem_cons_self, rfl⟩, ?_⟩
    intro i hi
    cases hi

end ScriptTyping
