import ScriptTyping.Infer.Judgement
import ScriptTyping.Proofs.CanonicalText
import ScriptTyping.Proofs.Runs

/-! # Names of registered shapes

A shape is named when it is judged and registered later, perhaps after others that were given the
same name. The name that registration gives it back is its own from then on: it stands for one
interface, whatever is done afterwards, and for shapes with one hash only.
-/
namespace ScriptTyping

variable {κ : Type}

/-- What registration asks of a shape: the mark, and a name that is not empty. -/
def Guess.Promoted (g : Guess κ) : Prop :=
  g.needsInterface = true ∧ ∃ name, g.interfaceName = some name ∧ name ≠ ""

namespace Registry

structure Sound (r : Registry) : Prop where
  distinct : r.Distinct
  named : "" ∉ r.names

theorem Sound.empty : Sound {} := ⟨.empty, List.not_mem_nil⟩

theorem Sound.register {r : Registry} (h : r.Sound) {i : Interface} (hi : i.name ≠ "") :
    (r.register i).1.Sound := by
  refine ⟨h.distinct.register i, ?_⟩
  cases hfound : r.findByHash? i.hash with
  | some known =>
    rw [register_known hfound, names_countUse]
    exact h.named
  | none =>
    obtain ⟨name, _, hname, hnew⟩ := register_new hfound
    have hne : name ≠ "" := by
      rcases hname with rfl | rfl
      · exact hi
      · exact r.nextName_ne_empty
    rw [hnew]
    simpa [names] using ⟨by simpa [names] using h.named, hne⟩

/-- Two interfaces of one registry have one name exactly if they have one hash. -/
theorem Distinct.name_eq_iff {r : Registry} (h : r.Distinct) {i j : Interface}
    (hi : i ∈ r.interfaces) (hj : j ∈ r.interfaces) : i.name = j.name ↔ i.hash = j.hash := by
  constructor
  · intro hname
    rw [h.eq_of_name hi hj hname]
  · intro hhash
    rw [h.eq_of_hash hi hj hhash]

/-- A shape whose hash is held gets the name that holds it, and nothing is declared. -/
theorem Distinct.register_again {r : Registry} (h : r.Distinct) {name : String} {i : Interface}
    (hhas : r.Has name i.hash) :
    (r.register i).2.name = name ∧ (r.register i).1.declared = r.declared := by
  obtain ⟨j, hj, rfl, hhash⟩ := hhas
  rw [register_known (h.findByHash?_eq_some_iff.mpr ⟨hj, hhash⟩)]
  exact ⟨rfl, r.declared_countUse i.hash⟩

/-- A call gives the name of an interface that is held exactly if it has its hash. -/
theorem Distinct.register_name_iff {r : Registry} (h : r.Distinct) {name hash : String}
    (hhas : r.Has name hash) (i : Interface) :
    (r.register i).2.name = name ↔ i.hash = hash := by
  obtain ⟨j, hj, rfl, rfl⟩ := hhas.mono (r.register_declared_grows i)
  obtain ⟨hmem, hhash⟩ := mem_of_findByHash? (h.register_held i)
  rw [(h.register i).name_eq_iff hmem hj, hhash]

end Registry

section Histories

/-- What changes a context. Judging a literal does not, so a shape may be registered long after it
was judged, under a name that another shape has got since. -/
inductive Action (κ : Type) where
  | bind (name : String) (g : Guess κ)
  | register (shape : Guess κ)

def Context.perform (ctx : Context κ) : Action κ → Context κ
  | .bind name g => ctx.bind name g
  | .register shape => (ctx.register shape).1

def Context.performAll (ctx : Context κ) (actions : List (Action κ)) : Context κ :=
  actions.foldl perform ctx

theorem Context.register_of_not_promoted {g : Guess κ} (h : ¬g.Promoted) (ctx : Context κ) :
    ctx.register g = (ctx, g) := by
  unfold Context.register
  split
  · next name hname =>
    split
    · next hmark =>
      simp only [Bool.and_eq_true, Bool.not_eq_true', String.isEmpty_eq_false_iff] at hmark
      exact absurd ⟨hmark.1, name, hname, hmark.2⟩ h
    · rfl
  · rfl

theorem Context.perform_registry {ctx : Context κ} (h : ctx.registry.Sound) (action : Action κ) :
    (ctx.perform action).registry.Sound ∧
      ctx.registry.declared <+: (ctx.perform action).registry.declared := by
  cases action with
  | bind name g => exact ⟨h, List.prefix_rfl⟩
  | register shape =>
    by_cases hshape : shape.Promoted
    · obtain ⟨hmark, name, hname, hne⟩ := hshape
      rw [Context.perform, Context.register_of_name hmark hname hne]
      exact ⟨h.register hne, ctx.registry.register_declared_grows _⟩
    · rw [Context.perform, Context.register_of_not_promoted hshape]
      exact ⟨h, List.prefix_rfl⟩

theorem Context.performAll_registry {ctx : Context κ} (h : ctx.registry.Sound)
    (actions : List (Action κ)) :
    (ctx.performAll actions).registry.Sound ∧
      ctx.registry.declared <+: (ctx.performAll actions).registry.declared := by
  induction actions generalizing ctx with
  | nil => exact ⟨h, List.prefix_rfl⟩
  | cons action rest ih =>
    obtain ⟨hnext, hgrows⟩ := Context.perform_registry h action
    obtain ⟨hlast, hrest⟩ := ih hnext
    exact ⟨hlast, hgrows.trans hrest⟩

/-- A promoted shape comes back under the name of the interface that holds its hash. -/
theorem Context.register_holds {ctx : Context κ} (h : ctx.registry.Sound) {shape : Guess κ}
    (hshape : shape.Promoted) :
    ∃ name, (ctx.register shape).2 = { shape with interfaceName := some name } ∧ name ≠ "" ∧
      (ctx.register shape).1.registry.Has name (shapeHash shape.properties) := by
  have hsound := (Context.perform_registry h (.register shape)).1
  obtain ⟨hmark, asked, hname, hne⟩ := hshape
  have hregister : ctx.register shape = _ := Context.register_of_name hmark hname hne
  obtain ⟨hmem, hhash⟩ := Registry.mem_of_findByHash?
    (h.distinct.register_held (.ofShape asked shape.properties))
  rw [Context.perform, hregister] at hsound
  rw [hregister]
  refine ⟨_, rfl, ?_, _, hmem, rfl, hhash⟩
  intro hempty
  exact hsound.named (hempty ▸ List.mem_map_of_mem hmem)

/-- A shape whose name is held for its hash is registered as it is. -/
theorem Context.register_again {ctx : Context κ} (h : ctx.registry.Sound) {shape : Guess κ}
    {name : String} (hmark : shape.needsInterface = true) (hne : name ≠ "")
    (hname : shape.interfaceName = some name)
    (hhas : ctx.registry.Has name (shapeHash shape.properties)) :
    (ctx.register shape).2 = shape ∧
      (ctx.register shape).1.registry.declared = ctx.registry.declared := by
  obtain ⟨hheld, hdeclared⟩ := h.distinct.register_again (i := .ofShape name shape.properties) hhas
  rw [Context.register_of_name hmark hname hne]
  refine ⟨?_, hdeclared⟩
  change { shape with interfaceName := some _ } = shape
  rw [hheld, ← hname]
  cases shape
  rfl

theorem Context.register_name_iff {ctx : Context κ} (h : ctx.registry.Sound) {name hash : String}
    (hhas : ctx.registry.Has name hash) {other : Guess κ} (hother : other.Promoted) :
    (ctx.register other).2.interfaceName = some name ↔ shapeHash other.properties = hash := by
  obtain ⟨hmark, asked, hname, hne⟩ := hother
  rw [Context.register_of_name hmark hname hne, Option.some.injEq]
  exact h.distinct.register_name_iff hhas (.ofShape asked other.properties)

end Histories

theorem Guess.interfaceName_ofMembers [Score κ] {freshName : String}
    {slots : Option (List (Slot κ))} (h : (ofMembers freshName slots).needsInterface = true) :
    (ofMembers freshName slots).interfaceName = some freshName := by
  rcases slots with _ | _ | ⟨s, rest⟩
  · cases h
  · cases h
  · exact if_pos h

/-- A registered shape keeps its name. In any context that was reached from an empty one, the name
that a promoted shape comes back under stands for an interface with the hash of the shape, now and
after all that may be done later. Then too the shape is registered again as it is, without a new
interface, and another shape gets its name exactly if it has its hash. Every shape that is marked
where it is judged is promoted. -/
theorem registered_name_is_stable [Score κ] :
    (∀ (ctx : Context κ) (literal : Node), (literal.shape ctx.env).needsInterface = true →
      (literal.shape ctx.env).Promoted) ∧
    ∀ (before : List (Action κ)) (shape : Guess κ), shape.Promoted →
      let ctx := ({} : Context κ).performAll before
      let now := (ctx.register shape).1
      let returned := (ctx.register shape).2
      ∃ name i, returned = { shape with interfaceName := some name } ∧
        now.registry.get? name = some i ∧ i.hash = shapeHash returned.properties ∧
        ∀ later : List (Action κ),
          let last := now.performAll later
          (∃ j, last.registry.get? name = some j ∧ j.properties = i.properties ∧
            j.hash = shapeHash returned.properties) ∧
          (last.register returned).2 = returned ∧
          (last.register returned).1.registry.declared = last.registry.declared ∧
          ∀ other : Guess κ, other.Promoted →
            ((last.register other).2.interfaceName = returned.interfaceName ↔
              shapeHash other.properties = shapeHash returned.properties) := by
  refine ⟨?_, ?_⟩
  · intro ctx literal hmark
    exact ⟨hmark, _, Guess.interfaceName_ofMembers hmark, ctx.registry.nextName_ne_empty⟩
  · intro before shape hshape ctx now returned
    have hctx : ctx.registry.Sound := (Context.performAll_registry .empty before).1
    have hnow : now.registry.Sound := (Context.perform_registry hctx (.register shape)).1
    obtain ⟨name, hreturned, hne, i, hi, hname, hhash⟩ := Context.register_holds hctx hshape
    change returned = _ at hreturned
    have hproperties : returned.properties = shape.properties := by rw [hreturned]
    have hgiven : returned.interfaceName = some name := by rw [hreturned]
    have hmark : returned.needsInterface = true := by rw [hreturned]; exact hshape.1
    rw [hproperties, hgiven]
    refine ⟨name, i, hreturned, hnow.distinct.get?_eq_some_iff.mpr ⟨hi, hname⟩, hhash, ?_⟩
    intro later last
    obtain ⟨hlast, hgrows⟩ := Context.performAll_registry hnow later
    obtain ⟨j, hj, hjname, hjproperties, hjhash⟩ := Registry.exists_of_declared hgrows hi
    have hhas : last.registry.Has name (shapeHash shape.properties) :=
      ⟨j, hj, hjname.trans hname, hjhash.trans hhash⟩
    obtain ⟨hsame, hdeclared⟩ := Context.register_again hlast hmark hne hgiven (hproperties ▸ hhas)
    refine ⟨?_, hsame, hdeclared, ?_⟩
    · exact ⟨j, hlast.distinct.get?_eq_some_iff.mpr ⟨hj, hjname.trans hname⟩, hjproperties,
        hjhash.trans hhash⟩
    · intro other hother
      exact Context.register_name_iff hlast hhas hother

/-- The shape of a literal with numbers under the given keys, judged before anything else. -/
def judgedNumbers (keys : List String) : Guess Float :=
  (Node.numbers keys).shape ({} : Context Float).env

theorem shapeHash_judgedNumbers_ne :
    shapeHash (judgedNumbers ["w", "x", "y", "z"]).properties ≠
      shapeHash (judgedNumbers ["a", "b", "c", "d"]).properties := by
  have hfirst : (judgedNumbers ["w", "x", "y", "z"]).properties =
      numberShape ["w", "x", "y", "z"] := rfl
  have hsecond : (judgedNumbers ["a", "b", "c", "d"]).properties =
      numberShape ["a", "b", "c", "d"] := rfl
  rw [hfirst, hsecond, shapeHash_of_sorted (by decide), shapeHash_of_sorted (by decide)]
  decide +kernel

/-- Two literals are judged at the start and ask for one name. The second to be registered gets a
name of its own, and the first does not get it. -/
theorem registered_name_is_stable_stale :
    (judgedNumbers ["w", "x", "y", "z"]).Promoted ∧ (judgedNumbers ["a", "b", "c", "d"]).Promoted ∧
    (judgedNumbers ["w", "x", "y", "z"]).interfaceName =
      (judgedNumbers ["a", "b", "c", "d"]).interfaceName ∧
    ∃ (now : Context Float) (returned : Guess Float) (name : String) (i : Interface),
      (({} : Context Float).performAll [.register (judgedNumbers ["w", "x", "y", "z"])]).register
        (judgedNumbers ["a", "b", "c", "d"]) = (now, returned) ∧
      returned.interfaceName = some name ∧ now.registry.get? name = some i ∧
      (now.register returned).2 = returned ∧
      (now.register (judgedNumbers ["w", "x", "y", "z"])).2.interfaceName ≠ some name := by
  obtain ⟨hjudged, hstable⟩ := registered_name_is_stable (κ := Float)
  have hfirst : (judgedNumbers ["w", "x", "y", "z"]).Promoted := hjudged {} _ rfl
  have hsecond : (judgedNumbers ["a", "b", "c", "d"]).Promoted := hjudged {} _ rfl
  have hhash := shapeHash_judgedNumbers_ne
  have hname : (judgedNumbers ["w", "x", "y", "z"]).interfaceName =
    (judgedNumbers ["a", "b", "c", "d"]).interfaceName := rfl
  generalize judgedNumbers ["w", "x", "y", "z"] = first at *
  generalize judgedNumbers ["a", "b", "c", "d"] = second at *
  obtain ⟨name, i, hreturned, hget, _, hlater⟩ := hstable [.register first] second hsecond
  obtain ⟨_, hagain, _, hother⟩ := hlater []
  refine ⟨hfirst, hsecond, hname, _, _, name, i, (Prod.eta _).symm, ?_, hget, hagain, ?_⟩
  · rw [hreturned]
  · intro hsame
    have hiff := hother first hfirst
    rw [hreturned] at hiff
    exact hhash (hiff.mp hsame)

end ScriptTyping
