import ScriptTyping.Proofs.Runs

/-! # Accounts of interfaces

A report in which interfaces are preferred is a full account of them: each variable that is marked
for promotion refers to the one interface of its shape, and each interface counts the variables
that refer to it. The invariant ties the registry to the entries made so far.
-/
namespace ScriptTyping

variable {κ : Type}

def mentions (bindings : List (VariableInfo κ)) (name : String) : Nat :=
  bindings.countP fun v => v.type.interfaceName == some name

theorem mentions_append (bindings : List (VariableInfo κ)) (v : VariableInfo κ) (name : String) :
    mentions (bindings ++ [v]) name =
      mentions bindings name + if v.type.interfaceName = some name then 1 else 0 := by
  simp [mentions, List.countP_append, List.countP_singleton]

/-- The entry of a variable tells what was guessed for it. It refers to an interface exactly if the
guess was marked, and the interface of that name holds the hash of the shape. -/
structure VariableInfo.Records (held : String → String → Prop) (v : VariableInfo κ)
    (d : Declaration κ) : Prop where
  name : v.name = d.name
  line : v.line = d.line
  kind : v.type.kind = d.guess.kind
  value : v.type.value = d.guess.value
  confidence : v.type.confidence = d.guess.confidence
  marked : v.type.interfaceName.isSome = d.guess.needsInterface
  held : ∀ n, v.type.interfaceName = some n → held n (shapeHash d.guess.properties)

theorem VariableInfo.Records.imp {p q : String → String → Prop} (h : ∀ n hash, p n hash → q n hash)
    {v : VariableInfo κ} {d : Declaration κ} (hv : v.Records p d) : v.Records q d :=
  { hv with held := fun n hn => h n _ (hv.held n hn) }

namespace Run

/-- Each interface counts the entries that refer to it, and entries refer to interfaces only. -/
structure Tallied (r : Run κ) : Prop where
  counted : ∀ i ∈ r.context.registry.interfaces, i.usageCount = mentions r.bindings i.name
  positive : ∀ i ∈ r.context.registry.interfaces, 1 ≤ i.usageCount
  known : ∀ v ∈ r.bindings, ∀ n, v.type.interfaceName = some n → n ∈ r.context.registry.names

theorem Tallied.empty : ({} : Run κ).Tallied where
  counted := by
    intro i hi
    cases hi
  positive := by
    intro i hi
    cases hi
  known := by
    intro v hv
    cases hv

theorem Tallied.mentions_free {r : Run κ} (h : r.Tallied) {name : String}
    (hfree : name ∉ r.context.registry.names) : mentions r.bindings name = 0 := by
  apply List.countP_eq_zero.mpr
  intro v hv he
  exact hfree (h.known v hv name (by simpa using he))

def record (r : Run κ) (d : Declaration κ) (result : Context κ × Guess κ) : Run κ :=
  { r with
    context := result.1.bind d.name result.2
    bindings := r.bindings ++ [{ name := d.name, type := .ofGuess result.2, line := d.line }] }

/-- An entry keeps the account if the interface that it refers to, and no other, counts it. -/
theorem Tallied.append {r : Run κ} (h : r.Tallied) {ctx : Context κ} {v : VariableInfo κ}
    (hcount : ∀ i ∈ ctx.registry.interfaces, i.usageCount =
      mentions r.bindings i.name + if v.type.interfaceName = some i.name then 1 else 0)
    (hpos : ∀ i ∈ ctx.registry.interfaces, 1 ≤ i.usageCount)
    (hnames : r.context.registry.names ⊆ ctx.registry.names)
    (hv : ∀ n, v.type.interfaceName = some n → n ∈ ctx.registry.names) :
    Tallied { r with context := ctx, bindings := r.bindings ++ [v] } where
  counted := by
    intro i hi
    rw [mentions_append]
    exact hcount i hi
  positive := hpos
  known := by
    intro w hw n hn
    rcases List.mem_append.mp hw with hw | hw
    · exact hnames (h.known w hw n hn)
    · rw [List.mem_singleton.mp hw] at hn
      exact hv n hn

theorem Tallied.reuse {r : Run κ} (h : r.Tallied) (hc : r.context.Consistent) {hash : String}
    {known : Interface} (found : r.context.registry.findByHash? hash = some known) :
    ∀ i ∈ (r.context.registry.countUse hash).interfaces,
      i.usageCount = mentions r.bindings i.name + (if some known.name = some i.name then 1 else 0) ∧
        1 ≤ i.usageCount := by
  obtain ⟨hmem, hhash⟩ := Registry.mem_of_findByHash? found
  intro i hi
  obtain ⟨j, hj, rfl⟩ := List.mem_map.mp hi
  have hcount := h.counted j hj
  have hpos := h.positive j hj
  by_cases hjh : j.hash = hash
  · have hjk : j = known := hc.distinct.eq_of_hash hj hmem (hjh.trans hhash.symm)
    subst j
    simp only [hjh, beq_self_eq_true, ↓reduceIte, Interface.used]
    omega
  · have hne : known.name ≠ j.name := by
      intro he
      exact hjh (hc.distinct.eq_of_name hj hmem he.symm ▸ hhash)
    simp only [beq_iff_eq, hjh, Option.some.injEq, hne, ↓reduceIte]
    omega

theorem Tallied.add {r : Run κ} (h : r.Tallied) (properties : List Property) :
    ∀ i ∈ r.context.registry.interfaces ++ [.ofShape r.context.registry.nextName properties],
      i.usageCount = mentions r.bindings i.name +
        (if some r.context.registry.nextName = some i.name then 1 else 0) ∧ 1 ≤ i.usageCount := by
  have hfree := r.context.registry.nextName_notMem_names
  intro i hi
  rcases List.mem_append.mp hi with hi | hi
  · have hne : r.context.registry.nextName ≠ i.name := by
      intro he
      exact hfree (he ▸ List.mem_map_of_mem hi)
    have hcount := h.counted i hi
    have hpos := h.positive i hi
    simp only [Option.some.injEq, hne, ↓reduceIte]
    omega
  · rw [List.mem_singleton.mp hi]
    simp [h.mentions_free hfree, Interface.ofShape]

theorem Tallied.record {r : Run κ} (h : r.Tallied) (hc : r.context.Consistent) {d : Declaration κ}
    {result : Context κ × Guess κ} (hs : Settles true r.context d.guess result) :
    (r.record d result).Tallied := by
  cases hs with
  | kept mark =>
    have hnone := TypeInfo.interfaceName_of_unmarked mark
    apply h.append
    · intro i hi
      simpa [hnone] using h.counted i hi
    · exact h.positive
    · exact List.Subset.refl _
    · intro n hn
      rw [hnone] at hn
      cases hn
  | inlined mark off => cases off
  | @reused known mark on found =>
    have hname : (TypeInfo.ofGuess { d.guess with interfaceName := some known.name }).interfaceName =
        some known.name := TypeInfo.interfaceName_of_marked mark
    have hnames := Registry.names_countUse r.context.registry (shapeHash d.guess.properties)
    apply h.append
    · intro i hi
      rw [hname]
      exact (h.reuse hc found i hi).1
    · exact fun i hi => (h.reuse hc found i hi).2
    · rw [Context.bind, hnames]
      exact List.Subset.refl _
    · intro n hn
      obtain rfl := Option.some.inj (hname.symm.trans hn)
      rw [Context.bind, hnames]
      exact List.mem_map_of_mem (Registry.mem_of_findByHash? found).1
  | added mark on name new =>
    have hname : (TypeInfo.ofGuess { d.guess with
        interfaceName := some r.context.registry.nextName }).interfaceName =
        some r.context.registry.nextName := TypeInfo.interfaceName_of_marked mark
    apply h.append
    · intro i hi
      rw [hname]
      exact (h.add d.guess.properties i hi).1
    · exact fun i hi => (h.add d.guess.properties i hi).2
    · intro n hn
      simp only [Context.bind, Registry.names, List.map_append, List.mem_append]
      exact .inl hn
    · intro n hn
      obtain rfl := Option.some.inj (hname.symm.trans hn)
      simp [Context.bind, Registry.names, Interface.ofShape]

theorem Settles.records {ctx : Context κ} (hc : ctx.Consistent) {d : Declaration κ}
    {result : Context κ × Guess κ} (hs : Settles true ctx d.guess result) :
    VariableInfo.Records result.1.registry.Has
      { name := d.name, type := .ofGuess result.2, line := d.line } d := by
  have hheld : ∀ n, (TypeInfo.ofGuess result.2).interfaceName = some n →
      result.1.registry.Has n (shapeHash result.2.properties) := by
    intro n hn
    have hmark : result.2.needsInterface = true := by
      by_contra hm
      rw [TypeInfo.interfaceName_of_unmarked (by simpa using hm)] at hn
      cases hn
    obtain ⟨m, hm, hhas⟩ := (hs.consistent hc).2 hmark
    rw [TypeInfo.interfaceName_of_marked hmark, hm] at hn
    exact Option.some.inj hn ▸ hhas
  cases hs with
  | kept mark => exact ⟨rfl, rfl, rfl, rfl, rfl, by simp [TypeInfo.ofGuess, mark], hheld⟩
  | inlined mark off => cases off
  | reused mark on found | added mark on name new =>
    exact ⟨rfl, rfl, rfl, rfl, rfl, by simp [TypeInfo.ofGuess, mark], hheld⟩

variable [Score κ]

theorem step_tallied {r : Run κ} (h : r.Tallied) (hc : r.context.Consistent) (s : Statement) :
    (r.step true s).Tallied := by
  cases s with
  | declare name init line =>
    have hs := settle_settles hc (init.guess_yields r.context.env) true
    let d : Declaration κ := ⟨name, init.guess r.context.env, line⟩
    exact h.record (d := d) hc hs
  | define name routine line => exact ⟨h.counted, h.positive, h.known⟩

theorem foldl_tallied {r : Run κ} (h : r.Tallied) (hc : r.context.Consistent)
    (statements : List Statement) : (statements.foldl (step true) r).Tallied := by
  induction statements generalizing r with
  | nil => exact h
  | cons s rest ih => exact ih (step_tallied h hc s) (step_consistent hc true s)

/-- The entries of a run are those of its declarations, in their order. -/
theorem foldl_records {r : Run κ} (hc : r.context.Consistent) {done : List (Declaration κ)}
    (hdone : List.Forall₂ (VariableInfo.Records r.context.registry.Has) r.bindings done)
    (statements : List Statement) :
    List.Forall₂
      (VariableInfo.Records (statements.foldl (step true) r).context.registry.Has)
      (statements.foldl (step true) r).bindings (done ++ declarations true r statements) := by
  induction statements generalizing r done with
  | nil => simpa [declarations] using hdone
  | cons s rest ih =>
    have hgrows := step_declared_grows hc true s
    have hkept := hdone.imp fun v d hv => hv.imp fun n hash hhas => hhas.mono hgrows
    have hnext := step_consistent hc true s
    cases s with
    | declare name init line =>
      have hs := settle_settles hc (init.guess_yields r.context.env) true
      let d : Declaration κ := ⟨name, init.guess r.context.env, line⟩
      have hentry := Settles.records (d := d) hc hs
      have hall := List.rel_append hkept (List.Forall₂.cons hentry .nil)
      have hrest := ih hnext hall
      rw [List.append_assoc] at hrest
      exact hrest
    | define name routine line => exact ih hnext hkept

end Run

/-- The report records the given variables, and each interface in it counts those that refer to
it. The name of an interface is the name of that interface alone. -/
structure Report.Accounts (report : Report κ) (declarations : List (Declaration κ)) : Prop where
  entries :
    List.Forall₂
      (VariableInfo.Records fun n hash =>
        ∃ i, (report.interfaces.filter fun j => j.name == n) = [i] ∧ i.hash = hash)
      report.bindings declarations
  usage : ∀ i ∈ report.interfaces,
    i.usageCount = mentions report.bindings i.name ∧ 1 ≤ i.usageCount

/-- Where interfaces are preferred, the report on a script accounts for all of its variables. -/
theorem report_accounts_for_interfaces [Score κ] (path : String) (root : Node)
    (h : root.fault? = none) :
    ∃ report : Report κ, Report.ofTree true path root = .ok report ∧
      report.Accounts (Run.declarations true {} root.script) := by
  refine ⟨_, Report.ofTree_eq_ok h true path, ?_, ?_⟩
  · have hc := Run.foldl_consistent (r := ({} : Run κ)) .empty true root.script
    have hall := Run.foldl_records (r := ({} : Run κ)) .empty .nil root.script
    apply hall.imp
    intro v d hv
    apply hv.imp
    rintro n hash ⟨i, hi, rfl, hhash⟩
    exact ⟨i, hc.distinct.filter_name hi, hhash⟩
  · have ht := Run.foldl_tallied (r := ({} : Run κ)) .empty .empty root.script
    intro i hi
    exact ⟨ht.counted i hi, ht.positive i hi⟩

def aliasScript : Node :=
  .branch "program" [.letting "a" (.numbers ["w", "x", "y", "z"]),
    .letting "b" (.leaf "identifier" "a")]

theorem report_accounts_for_alias :
    aliasScript.fault? = none ∧
    (Run.declarations true ({} : Run Float) aliasScript.script).map
      (fun d => (d.name, d.guess.needsInterface)) = [("a", true), ("b", true)] ∧
    ∃ report : Report Float, Report.ofTree true "alias" aliasScript = .ok report ∧
      report.Accounts (Run.declarations true {} aliasScript.script) :=
  ⟨rfl, rfl, report_accounts_for_interfaces "alias" aliasScript rfl⟩

end ScriptTyping
