import ScriptTyping.Proofs.Runs

/-! # Reports grow with their scripts

A statement adds to a report and takes nothing back. Its entries are written once, and its
interfaces keep their places, names and properties while their uses are counted up. So what is
reported on a script stands at the beginning of the report on any longer script.
-/
namespace ScriptTyping

variable {κ : Type}

/-- The same interface, perhaps after more uses. -/
structure Interface.UsedOn (i j : Interface) : Prop where
  name : j.name = i.name
  properties : j.properties = i.properties
  hash : j.hash = i.hash
  uses : i.usageCount ≤ j.usageCount

namespace Interface.UsedOn

theorem refl (i : Interface) : i.UsedOn i := ⟨rfl, rfl, rfl, Nat.le_refl _⟩

theorem trans {i j k : Interface} (hij : i.UsedOn j) (hjk : j.UsedOn k) : i.UsedOn k where
  name := hjk.name.trans hij.name
  properties := hjk.properties.trans hij.properties
  hash := hjk.hash.trans hij.hash
  uses := Nat.le_trans hij.uses hjk.uses

theorem used (i : Interface) : i.UsedOn i.used := ⟨rfl, rfl, rfl, Nat.le_succ _⟩

end Interface.UsedOn

namespace Registry

/-- Each interface of the first registry has its place in the second. -/
def Extends (r s : Registry) : Prop :=
  ∀ (k : Nat) (i : Interface), r.interfaces[k]? = some i →
    ∃ j, s.interfaces[k]? = some j ∧ i.UsedOn j

theorem Extends.refl (r : Registry) : r.Extends r := fun _ i hi => ⟨i, hi, .refl i⟩

theorem Extends.trans {r s t : Registry} (hrs : r.Extends s) (hst : s.Extends t) :
    r.Extends t := by
  intro k i hi
  obtain ⟨j, hj, hij⟩ := hrs k i hi
  obtain ⟨l, hl, hjl⟩ := hst k j hj
  exact ⟨l, hl, hij.trans hjl⟩

theorem extends_countUse (r : Registry) (hash : String) : r.Extends (r.countUse hash) := by
  intro k i hi
  refine ⟨if i.hash == hash then i.used else i, ?_, ?_⟩
  · simp only [countUse, List.getElem?_map, hi, Option.map_some]
  · split
    · exact .used i
    · exact .refl i

theorem extends_append (r : Registry) (added : List Interface) :
    r.Extends ⟨r.interfaces ++ added⟩ := by
  intro k i hi
  obtain ⟨hk, _⟩ := List.getElem?_eq_some_iff.mp hi
  have hkept : (r.interfaces ++ added)[k]? = some i := by
    rw [List.getElem?_append_left hk, hi]
  exact ⟨i, hkept, .refl i⟩

/-- Whether it counts a use or adds an interface, a registration extends the registry. -/
theorem extends_register (r : Registry) (i : Interface) : r.Extends (r.register i).1 := by
  cases hfound : r.findByHash? i.hash with
  | some known =>
    rw [register_known hfound]
    exact r.extends_countUse i.hash
  | none =>
    obtain ⟨name, _, _, hnew⟩ := register_new hfound
    rw [hnew]
    exact r.extends_append _

end Registry

theorem Context.register_extends (ctx : Context κ) (g : Guess κ) :
    ctx.registry.Extends (ctx.register g).1.registry := by
  unfold Context.register
  split
  · split
    · exact ctx.registry.extends_register _
    · exact .refl _
  · exact .refl _

namespace Run

/-- The second run has the entries and the interfaces of the first, in their places. -/
structure Extends (r s : Run κ) : Prop where
  bindings : r.bindings <+: s.bindings
  functions : r.functions <+: s.functions
  registry : r.context.registry.Extends s.context.registry

theorem Extends.refl (r : Run κ) : r.Extends r := ⟨List.prefix_rfl, List.prefix_rfl, .refl _⟩

theorem Extends.trans {r s t : Run κ} (hrs : r.Extends s) (hst : s.Extends t) : r.Extends t where
  bindings := hrs.bindings.trans hst.bindings
  functions := hrs.functions.trans hst.functions
  registry := hrs.registry.trans hst.registry

theorem settle_extends (prefer : Bool) (ctx : Context κ) (g : Guess κ) :
    ctx.registry.Extends (settle prefer ctx g).1.registry := by
  unfold settle
  split
  · exact .refl _
  · split
    · exact ctx.register_extends g
    · exact .refl _

variable [Score κ]

theorem step_extends (prefer : Bool) (r : Run κ) (s : Statement) :
    r.Extends (r.step prefer s) := by
  cases s with
  | declare name init line =>
    refine ⟨List.prefix_append _ _, List.prefix_rfl, ?_⟩
    exact settle_extends prefer r.context (init.guess r.context.env)
  | define name routine line =>
    exact ⟨List.prefix_rfl, List.prefix_append _ _, .refl _⟩

theorem foldl_extends (prefer : Bool) (r : Run κ) (statements : List Statement) :
    r.Extends (statements.foldl (step prefer) r) := by
  induction statements generalizing r with
  | nil => exact .refl r
  | cons s rest ih => exact (step_extends prefer r s).trans (ih (r.step prefer s))

end Run

variable [Score κ]

/-- The report on a script is the beginning of the report on the script with more statements at its
end. The entries are the same, interface names included. Each interface has its place, its name, its
properties and its hash, and is used as often or more often. -/
theorem report_extended_by_later_statements (prefer : Bool) (path longerPath : String)
    {root longer : Node} {later : List Node} (hroot : root.fault? = none)
    (hlonger : longer.fault? = none) (hparts : longer.parts = root.parts ++ later) :
    ∃ report extended : Report κ,
      Report.ofTree prefer path root = .ok report ∧
      Report.ofTree prefer longerPath longer = .ok extended ∧
      report.bindings <+: extended.bindings ∧
      report.functions <+: extended.functions ∧
      ∀ (k : Nat) (i : Interface), report.interfaces[k]? = some i →
        ∃ j, extended.interfaces[k]? = some j ∧ j.name = i.name ∧
          j.properties = i.properties ∧ j.hash = i.hash ∧ i.usageCount ≤ j.usageCount := by
  have hscript : longer.script =
      root.script ++ later.flatMap fun n => n.reading.statements := by
    simp only [Node.script, hparts, List.flatMap_append]
  let short := root.script.foldl (Run.step prefer) ({} : Run κ)
  have hlong : longer.script.foldl (Run.step prefer) ({} : Run κ) =
      (later.flatMap fun n => n.reading.statements).foldl (Run.step prefer) short := by
    rw [hscript, List.foldl_append]
  have hextends : short.Extends (longer.script.foldl (Run.step prefer) {}) := by
    rw [hlong]
    exact Run.foldl_extends prefer short _
  refine ⟨_, _, Report.ofTree_eq_ok hroot prefer path,
    Report.ofTree_eq_ok hlonger prefer longerPath, hextends.bindings, hextends.functions, ?_⟩
  intro k i hi
  obtain ⟨j, hj, hij⟩ := hextends.registry k i hi
  exact ⟨j, hj, hij.name, hij.properties, hij.hash, hij.uses⟩

/-- The second statement uses the interface of the first, and a comment stands between the two. -/
theorem report_extended_by_alias :
    let shape := Node.letting "a" (.numbers ["w", "x", "y", "z"])
    let again := Node.letting "b" (.leaf "identifier" "a")
    let root := Node.branch "program" [shape]
    let longer := Node.branch "program" [shape, .leaf "comment" "// once more", again]
    root.fault? = none ∧ longer.fault? = none ∧ longer.parts = root.parts ++ [again] ∧
    ∃ report extended : Report Float,
      Report.ofTree true "short" root = .ok report ∧
      Report.ofTree true "long" longer = .ok extended ∧
      report.bindings <+: extended.bindings ∧
      report.functions <+: extended.functions ∧
      ∀ (k : Nat) (i : Interface), report.interfaces[k]? = some i →
        ∃ j, extended.interfaces[k]? = some j ∧ j.name = i.name ∧
          j.properties = i.properties ∧ j.hash = i.hash ∧ i.usageCount ≤ j.usageCount := by
  intro shape again root longer
  exact ⟨rfl, rfl, rfl, report_extended_by_later_statements true "short" "long" rfl rfl rfl⟩

end ScriptTyping
