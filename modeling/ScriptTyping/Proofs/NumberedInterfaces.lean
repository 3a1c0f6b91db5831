import ScriptTyping.Proofs.FunctionMentions
import ScriptTyping.Proofs.GrowingReports
import ScriptTyping.Proofs.StableNames

/-! # Numbered interfaces

A new shape comes to the registry under the name that was free when it was guessed. No other name
is ever asked for, so the interfaces of a script are numbered from one, in their order and without
gaps.
-/
namespace ScriptTyping

variable {κ : Type}

namespace Registry

def Numbered (r : Registry) : Prop := r.names = (List.range' 1 r.size).map Interface.numbered

theorem Numbered.empty : Numbered {} := rfl

theorem Numbered.nextName {r : Registry} (h : r.Numbered) :
    r.nextName = Interface.numbered (r.size + 1) := by
  have hfree : Interface.numbered (r.size + 1) ∉ r.names := by
    intro hmem
    rw [h] at hmem
    obtain ⟨i, hi, he⟩ := List.mem_map.mp hmem
    have heq := Interface.numbered_injective he
    have hle := List.mem_range'_1.mp hi
    omega
  have hfirst : (!r.contains (Interface.numbered (r.size + 1))) = true := by
    simpa [contains] using hfree
  have hfound : (List.range' (r.size + 1) (r.size + 1)).find?
      (fun i => !r.contains (Interface.numbered i)) = some (r.size + 1) := by
    rw [List.range'_succ]
    exact List.find?_cons_of_pos hfirst
  have hnumber : r.nextNumber = r.size + 1 := by
    simp only [nextNumber, hfound, Option.getD_some]
  rw [Registry.nextName, hnumber]

theorem Numbered.countUse {r : Registry} (h : r.Numbered) (hash : String) :
    (r.countUse hash).Numbered := by
  have hsize : (r.countUse hash).size = r.size := by simp [size, Registry.countUse]
  rw [Numbered, names_countUse, hsize]
  exact h

theorem Numbered.append {r : Registry} (h : r.Numbered) (properties : List Property) :
    Numbered ⟨r.interfaces ++ [.ofShape r.nextName properties]⟩ := by
  have hsize : size ⟨r.interfaces ++ [.ofShape r.nextName properties]⟩ = r.size + 1 := by
    simp [size]
  have hnames : names ⟨r.interfaces ++ [.ofShape r.nextName properties]⟩ =
      r.names ++ [r.nextName] := by
    simp [names, Interface.ofShape]
  rw [Numbered, hsize, hnames, h.nextName, List.range'_1_concat, List.map_append, ← h,
    Nat.add_comm 1 r.size, List.map_singleton]

theorem Numbered.name_getElem {r : Registry} (h : r.Numbered) {k : Nat}
    (hk : k < r.interfaces.length) : r.interfaces[k].name = Interface.numbered (k + 1) := by
  have hname : r.names[k]? = some r.interfaces[k].name := by simp [names, hk]
  have hsize : k < r.size := hk
  rw [h, List.getElem?_map, List.getElem?_range' hsize] at hname
  simpa [Nat.add_comm] using hname.symm

end Registry

namespace Run

theorem Settles.numbered {prefer : Bool} {ctx : Context κ} {g : Guess κ}
    {result : Context κ × Guess κ} (h : Settles prefer ctx g result)
    (hn : ctx.registry.Numbered) : result.1.registry.Numbered := by
  cases h with
  | kept | inlined => exact hn
  | reused mark on found => exact hn.countUse _
  | added mark on name new => exact hn.append g.properties

theorem Settles.name_of_added {prefer : Bool} {ctx : Context κ} {g : Guess κ}
    {result : Context κ × Guess κ} (h : Settles prefer ctx g result)
    (hadds : addsShape prefer ctx g = true) : g.interfaceName = some ctx.registry.nextName := by
  cases h with
  | kept mark => simp [addsShape, mark] at hadds
  | inlined mark off => simp [addsShape, off] at hadds
  | reused mark on found => simp [addsShape, found] at hadds
  | added mark on name new => exact name

variable [Score κ]

theorem step_numbered {r : Run κ} (hc : r.context.Consistent) (hn : r.context.registry.Numbered)
    (prefer : Bool) (s : Statement) : (r.step prefer s).context.registry.Numbered := by
  cases s with
  | declare name init line =>
    exact (settle_settles hc (init.guess_yields r.context.env) prefer).numbered hn
  | define name routine line => exact hn

theorem foldl_numbered {r : Run κ} (hc : r.context.Consistent) (hn : r.context.registry.Numbered)
    (prefer : Bool) (statements : List Statement) :
    (statements.foldl (step prefer) r).context.registry.Numbered := by
  induction statements generalizing r with
  | nil => exact hn
  | cons s rest ih => exact ih (step_consistent hc prefer s) (step_numbered hc hn prefer s)

/-- A new shape takes the place after the interfaces held so far, under the name that it carries,
and stays there. -/
theorem shape_added {r : Run κ} (hc : r.context.Consistent) (name : String) {init : Expr}
    (line : Nat) (hadds : addsShape true r.context (init.guess r.context.env) = true)
    (later : List Statement) :
    ∃ i, (later.foldl (step true) (r.declare true name init line)).context.registry.interfaces[
        r.context.registry.size]? = some i ∧
      (init.guess r.context.env).interfaceName = some i.name ∧
      i.properties = (init.guess r.context.env).properties ∧
      i.hash = shapeHash (init.guess r.context.env).properties := by
  let g := init.guess r.context.env
  have hs : Settles true r.context g (settle true r.context g) :=
    settle_settles hc (init.guess_yields r.context.env) true
  have hplace : (r.declare true name init line).context.registry.interfaces[
      r.context.registry.size]? = some (.ofShape r.context.registry.nextName g.properties) := by
    have hregistry : (r.declare true name init line).context.registry = _ :=
      hs.registry_of_added hadds
    simp [hregistry, Registry.size]
  have hextends := (foldl_extends true (r.declare true name init line) later).registry
  obtain ⟨i, hi, hkept⟩ := hextends _ _ hplace
  refine ⟨i, hi, ?_, hkept.properties, hkept.hash⟩
  rw [hs.name_of_added hadds, hkept.name]
  rfl

end Run

/-- The interfaces of a report are numbered from one in their order, so no name is skipped and none
stands twice. A shape that is not held when it is declared becomes the next interface, under the
name that it was guessed with. -/
theorem interfaces_numbered_without_gaps [Score κ] (path : String) (root : Node)
    (h : root.fault? = none) :
    ∃ report : Report κ, Report.ofTree true path root = .ok report ∧
      (∀ (k : Nat) (hk : k < report.interfaces.length),
        report.interfaces[k].name = "Interface" ++ toString (k + 1)) ∧
      (report.interfaces.map Interface.name).Nodup ∧
      ∀ (earlier later : List Statement) (name : String) (init : Expr) (line : Nat),
        root.script = earlier ++ .declare name init line :: later →
        let ctx := (earlier.foldl (Run.step true) ({} : Run κ)).context
        let g := init.guess ctx.env
        g.needsInterface = true → ctx.registry.findByHash? (shapeHash g.properties) = none →
          ∃ i, report.interfaces[ctx.registry.size]? = some i ∧ g.interfaceName = some i.name ∧
            i.properties = g.properties ∧ i.hash = shapeHash g.properties := by
  have hc := Run.foldl_consistent (r := ({} : Run κ)) .empty true root.script
  have hn := Run.foldl_numbered (r := ({} : Run κ)) .empty .empty true root.script
  refine ⟨_, Report.ofTree_eq_ok h true path, fun k hk => hn.name_getElem hk,
    hc.distinct.names, ?_⟩
  intro earlier later name init line hscript ctx g hmark hnew
  have hctx : ctx.Consistent := Run.foldl_consistent (r := ({} : Run κ)) .empty true earlier
  have hadds : Run.addsShape true ctx g = true := by simp [Run.addsShape, hmark, hnew]
  have hplace := Run.shape_added (r := earlier.foldl (Run.step true) {}) hctx name line hadds later
  have hrun : root.script.foldl (Run.step true) ({} : Run κ) =
      later.foldl (Run.step true)
        ((earlier.foldl (Run.step true) {}).declare true name init line) := by
    rw [hscript, List.foldl_append]
    rfl
  simpa only [Report.ofStatements, Run.report, hrun] using hplace

/-- The shape in the array is guessed under the second name and never registered, so the name is
left for the shape after it. -/
def buriedShapeScript : Node :=
  .branch "program" [.letting "first" (.numbers ["w", "x", "y", "z"]),
    .letting "buried" (.branch "array" [.numbers ["p", "q", "r", "s"]]),
    .letting "second" (.numbers ["a", "b", "c", "d"])]

theorem interfaces_numbered_buriedShape :
    buriedShapeScript.fault? = none ∧
    (Run.declarations true ({} : Run Float) buriedShapeScript.script).map
      (fun d => (d.guess.interfaceName, d.guess.element.bind Guess.interfaceName)) =
        [(some "Interface1", none), (none, some "Interface2"), (some "Interface2", none)] ∧
    ∃ report : Report Float, Report.ofTree true "buried" buriedShapeScript = .ok report ∧
      ∃ i, report.interfaces[1]? = some i ∧ i.name = "Interface2" ∧
        i.properties = numberShape ["a", "b", "c", "d"] := by
  refine ⟨rfl, rfl, ?_⟩
  obtain ⟨report, hreport, _, _, hadded⟩ :=
    interfaces_numbered_without_gaps (κ := Float) "buried" buriedShapeScript rfl
  let earlier := buriedShapeScript.script.take 2
  let ctx := (earlier.foldl (Run.step true) ({} : Run Float)).context
  have hheld : ctx.registry =
      ⟨[.ofShape "Interface1" (judgedNumbers ["w", "x", "y", "z"]).properties]⟩ := rfl
  have hfree : ctx.registry.nextName = "Interface2" := by
    rw [hheld]
    rfl
  have hnew : ctx.registry.findByHash?
      (shapeHash (judgedNumbers ["a", "b", "c", "d"]).properties) = none := by
    rw [hheld]
    simp [Registry.findByHash?, Interface.ofShape, shapeHash_judgedNumbers_ne]
  obtain ⟨i, hi, hname, hproperties, _⟩ := hadded earlier [] "second" _ _ rfl rfl hnew
  exact ⟨report, hreport, i, hi, (Option.some.inj hname).symm.trans hfree, hproperties⟩

end ScriptTyping
