import Mathlib.Algebra.Order.Field.Rat
import Mathlib.Tactic.Linarith
import Mathlib.Tactic.NormNum.OfScientific
import ScriptTyping.Proofs.Runs
import ScriptTyping.Proofs.RuleInduction

/-! # Confidences in the unit interval

On exact numbers the rules never leave the unit interval. They average, scale down and take least
values, and a shape averages over one slot at least.
-/
namespace ScriptTyping

instance : Score ℚ where
  decLE := inferInstance
  decLT := inferInstance

def InUnit (c : ℚ) : Prop := 0 ≤ c ∧ c ≤ 1

namespace Score

/-- A decimal without a whole part but one. -/
theorem inUnit_decimal {m e : Nat} (h : m ≤ 10 ^ e) :
    InUnit (OfScientific.ofScientific m true e) := by
  have hvalue : (OfScientific.ofScientific m true e : ℚ) = m / 10 ^ e := by
    change Rat.ofScientific m true e = _
    rw [Rat.ofScientific_true_def, Rat.mkRat_eq_div, Int.cast_natCast, Nat.cast_pow, Nat.cast_ofNat]
  have hle : (m : ℚ) ≤ 10 ^ e := by exact_mod_cast h
  have hpos : (0 : ℚ) < 10 ^ e := by positivity
  rw [hvalue]
  exact ⟨div_nonneg m.cast_nonneg hpos.le, div_le_one_of_le₀ hle hpos.le⟩

theorem inUnit_middle {a b : ℚ} (ha : InUnit a) (hb : InUnit b) : InUnit (middle a b) := by
  have hhalf : middle a b = (a + b) / 2 := by norm_num [middle]
  obtain ⟨ha₀, ha₁⟩ := ha
  obtain ⟨hb₀, hb₁⟩ := hb
  rw [hhalf]
  constructor <;> linarith

theorem inUnit_mul {a b : ℚ} (ha : InUnit a) (hb : InUnit b) : InUnit (a * b) :=
  ⟨mul_nonneg ha.1 hb.1, mul_le_one₀ ha.2 hb.1 hb.2⟩

theorem inUnit_least {first : ℚ} {rest : List ℚ} (hfirst : InUnit first)
    (hrest : ∀ c ∈ rest, InUnit c) : InUnit (least first rest) := by
  unfold least
  induction rest generalizing first with
  | nil => exact hfirst
  | cons c rest ih =>
    obtain ⟨hc, hrest⟩ := List.forall_mem_cons.mp hrest
    rw [List.foldl_cons]
    split
    · exact ih hc hrest
    · exact ih hfirst hrest

theorem foldl_add_bounds {scores : List ℚ} (h : ∀ c ∈ scores, InUnit c) (start : ℚ) :
    start ≤ scores.foldl (· + ·) start ∧
      scores.foldl (· + ·) start ≤ start + scores.length := by
  induction scores generalizing start with
  | nil => simp
  | cons c rest ih =>
    obtain ⟨⟨hc₀, hc₁⟩, hrest⟩ := List.forall_mem_cons.mp h
    obtain ⟨hlow, hhigh⟩ := ih hrest (start + c)
    have hlength : ((c :: rest).length : ℚ) = rest.length + 1 := by simp
    rw [List.foldl_cons, hlength]
    constructor <;> linarith

theorem inUnit_mean {scores : List ℚ} (hne : scores ≠ []) (h : ∀ c ∈ scores, InUnit c) :
    InUnit (mean scores) := by
  have hpos : (0 : ℚ) < scores.length := by
    exact_mod_cast List.length_pos_iff.mpr hne
  have hzero : (0.0 : ℚ) = 0 := by norm_num
  obtain ⟨hlow, hhigh⟩ := foldl_add_bounds h 0
  rw [zero_add] at hhigh
  have hmean : mean scores = scores.foldl (· + ·) 0 / scores.length := by
    rw [mean]
    simp only [hzero]
  rw [hmean]
  exact ⟨div_nonneg hlow hpos.le, div_le_one_of_le₀ hhigh hpos.le⟩

end Score

namespace Guess

/-- The confidence of a guess lies in the unit interval, and so does that of its element, to any
depth. -/
inductive UnitScored : Guess ℚ → Prop where
  | intro {g : Guess ℚ} (confidence : InUnit g.confidence)
      (element : ∀ e, g.element = some e → e.UnitScored) : g.UnitScored

theorem UnitScored.confidence {g : Guess ℚ} (h : g.UnitScored) : InUnit g.confidence := by
  cases h with
  | intro confidence element => exact confidence

theorem UnitScored.of_element {g e : Guess ℚ} (h : g.UnitScored) (he : g.element = some e) :
    e.UnitScored := by
  cases h with
  | intro confidence element => exact element e he

theorem unitScored_plain {g : Guess ℚ} (he : g.element = none) (hc : InUnit g.confidence) :
    g.UnitScored := by
  refine .intro hc ?_
  intro e hsome
  rw [he] at hsome
  cases hsome

/-- A guess that a rule makes at a fixed confidence. -/
theorem unitScored_fixed {g : Guess ℚ} (he : g.element = none) {m e : Nat}
    (hc : g.confidence = OfScientific.ofScientific m true e) (h : m ≤ 10 ^ e) : g.UnitScored :=
  unitScored_plain he (hc ▸ Score.inUnit_decimal h)

theorem UnitScored.array {g : Guess ℚ} (h : g.UnitScored) {c : ℚ} (hc : InUnit c) :
    (array g c).UnitScored := by
  refine .intro hc ?_
  intro e he
  exact Option.some.inj he ▸ h

theorem unitScored_arrayOf (element : String) {c : ℚ} (hc : InUnit c) :
    (arrayOf element c).UnitScored := by
  apply UnitScored.array _ hc
  split
  · exact unitScored_fixed rfl rfl (by decide)
  · exact unitScored_fixed rfl rfl (by decide)

theorem UnitScored.merge {g h : Guess ℚ} (hg : g.UnitScored) (hh : h.UnitScored) :
    (g.merge h).UnitScored := by
  unfold Guess.merge
  split
  · split
    · exact hg
    · exact hh
  · split
    · exact hh
    · split
      · exact hg
      · exact unitScored_plain rfl (Score.inUnit_middle hg.confidence hh.confidence)

theorem UnitScored.withConfidence {g : Guess ℚ} (h : g.UnitScored) {c : ℚ} (hc : InUnit c) :
    (g.withConfidence c).UnitScored := by
  unfold Guess.withConfidence
  split
  · exact h
  · exact .intro hc fun _ he => h.of_element he

theorem UnitScored.mergeAll {first : Guess ℚ} {rest : List (Guess ℚ)} (hfirst : first.UnitScored)
    (hrest : ∀ g ∈ rest, g.UnitScored) : (Guess.mergeAll first rest).UnitScored :=
  mergeAll_induct (fun _ _ => .merge) hfirst hrest

theorem UnitScored.ofBinary (op : Option BinaryOp) {left right : Guess ℚ} (hl : left.UnitScored)
    (hr : right.UnitScored) : (Guess.ofBinary op left right).UnitScored := by
  unfold Guess.ofBinary
  split
  · exact unitScored_fixed rfl rfl (by decide)
  · exact unitScored_fixed rfl rfl (by decide)
  · unfold Guess.ofSum
    split
    · exact unitScored_fixed rfl rfl (by decide)
    · split <;> exact unitScored_fixed rfl rfl (by decide)
  · exact hl.merge hr
  · split
    · exact hr
    · exact hl.merge hr
  · exact unitScored_fixed rfl rfl (by decide)

theorem UnitScored.ofArrayMethod {receiver : Guess ℚ} (h : receiver.UnitScored)
    (method : String) : (receiver.ofArrayMethod method).UnitScored := by
  have hsame : (receiver.element.getD (unknown 0.0)).UnitScored := by
    cases he : receiver.element with
    | none => exact unitScored_fixed rfl rfl (by decide)
    | some e => exact h.of_element he
  unfold Guess.ofArrayMethod
  split <;> first
    | exact hsame.array (Score.inUnit_decimal (by decide))
    | exact unitScored_fixed rfl rfl (by decide)

theorem UnitScored.ofMethodCall {receiver : Guess ℚ} (h : receiver.UnitScored)
    (method : String) : (receiver.ofMethodCall method).UnitScored := by
  unfold Guess.ofMethodCall
  split
  · exact h.ofArrayMethod method
  · split
    · unfold ofStringMethod
      split <;> first
        | exact unitScored_fixed rfl rfl (by decide)
        | exact unitScored_arrayOf _ (Score.inUnit_decimal (by decide))
    · exact unitScored_fixed rfl rfl (by decide)

theorem unitScored_ofElement (receiver : Guess ℚ) : receiver.ofElement.UnitScored := by
  unfold ofElement
  split <;> exact unitScored_fixed rfl rfl (by decide)

theorem unitScored_ofItems {items : List (Guess ℚ)} (h : ∀ g ∈ items, g.UnitScored)
    (spread : Bool) : (ofItems items spread).UnitScored := by
  cases items with
  | nil =>
    apply unitScored_arrayOf
    split <;> exact Score.inUnit_decimal (by decide)
  | cons first rest =>
    obtain ⟨hfirst, hrest⟩ := List.forall_mem_cons.mp h
    have hmerged := hfirst.mergeAll hrest
    apply hmerged.array
    split
    · exact Score.inUnit_decimal (by decide)
    · exact Score.inUnit_mul hmerged.confidence (Score.inUnit_decimal (by decide))

theorem unitScored_ofReturns {returns : List (Guess ℚ)} (h : ∀ g ∈ returns, g.UnitScored) :
    (ofReturns returns).UnitScored := by
  cases returns with
  | nil => exact unitScored_fixed rfl rfl (by decide)
  | cons first rest =>
    obtain ⟨hfirst, hrest⟩ := List.forall_mem_cons.mp h
    have hmerged := hfirst.mergeAll hrest
    simp only [ofReturns]
    split
    · exact unitScored_fixed rfl rfl (by decide)
    · apply hmerged.withConfidence
      split
      · apply Score.inUnit_least hfirst.confidence
        intro c hc
        obtain ⟨g, hg, rfl⟩ := List.mem_map.mp hc
        exact (hrest g hg).confidence
      · exact Score.inUnit_mul hmerged.confidence (Score.inUnit_decimal (by decide))

theorem unitScored_ofSlots (name : String) {slots : List (Slot ℚ)} (hne : slots ≠ [])
    (h : ∀ s ∈ slots, s.guess.UnitScored) : (ofSlots name slots).UnitScored := by
  apply unitScored_plain rfl
  apply Score.inUnit_mean
  · simpa using hne
  · intro c hc
    obtain ⟨s, hs, rfl⟩ := List.mem_map.mp hc
    exact (h s hs).confidence

theorem UnitScored.settle {g : Guess ℚ} (h : g.UnitScored) (prefer : Bool) (ctx : Context ℚ) :
    (Run.settle prefer ctx g).2.UnitScored := by
  have hkept : ∀ (mark : Bool) (name : Option String),
      UnitScored { g with needsInterface := mark, interfaceName := name } :=
    fun _ _ => .intro h.confidence fun _ he => h.of_element he
  unfold Run.settle
  split
  · exact h
  · split
    · unfold Context.register
      split
      · split
        · exact hkept _ _
        · exact h
      · exact h
    · exact hkept _ _

theorem unitScored_keptByRules : KeptByRules UnitScored where
  uncovered := unitScored_fixed rfl rfl (by decide)
  unresolved := unitScored_fixed rfl rfl (by decide)
  undetermined := unitScored_fixed rfl rfl (by decide)
  void := unitScored_fixed rfl rfl (by decide)
  hidden := unitScored_fixed rfl rfl (by decide)
  literal := by
    intro l
    cases l <;> exact unitScored_fixed rfl rfl (by decide)
  freeName := by
    intro name
    unfold ofFreeName
    split <;> exact unitScored_fixed rfl rfl (by decide)
  unary := by
    intro op
    unfold ofUnary
    split <;> exact unitScored_fixed rfl rfl (by decide)
  call := by
    intro callee
    unfold ofCall
    split <;> first
      | exact unitScored_fixed rfl rfl (by decide)
      | exact unitScored_arrayOf _ (Score.inUnit_decimal (by decide))
  use := by
    intro u
    cases u <;> first
      | exact unitScored_fixed rfl rfl (by decide)
      | exact unitScored_arrayOf _ (Score.inUnit_decimal (by decide))
  arrayPattern := unitScored_arrayOf _ (Score.inUnit_decimal (by decide))
  restParam _ h := h.array (Score.inUnit_mul h.confidence (Score.inUnit_decimal (by decide)))
  signature _ _ _ h := unitScored_plain rfl h.confidence
  merge _ _ hg hh := hg.merge hh
  binary op _ _ hl hr := hl.ofBinary op hr
  methodCall _ method h := h.ofMethodCall method
  element receiver _ := unitScored_ofElement receiver
  items _ spread h := unitScored_ofItems h spread
  returns _ h := unitScored_ofReturns h
  members name := ofMembers_kept (unitScored_fixed rfl rfl (by decide)) name
    fun _ => unitScored_ofSlots name
  settled prefer ctx _ h := h.settle prefer ctx

end Guess

/-- On exact numbers, where the names in scope and their elements have confidences in the unit
interval, so has every judgement on a node. In a report there is no other confidence. The mean of a
shape is taken over one slot at least. -/
theorem confidence_in_unit_interval (ctx : Context ℚ) (h : ctx.scope.All Guess.UnitScored) :
    (∀ env : Env ℚ, env.scope = ctx.scope →
      (∀ n : Option Node, (Node.guess? env n).UnitScored) ∧
      ∀ n : Node, (n.variableGuess env).UnitScored ∧ (n.shape env).UnitScored ∧
        (n.result env).UnitScored ∧ (∀ g ∈ n.paramGuesses env, g.UnitScored) ∧
        (n.signature env).UnitScored ∧ (n.methodSignature env).UnitScored) ∧
    (∀ name body, (Node.usage name body : Guess ℚ).UnitScored) ∧
    (∀ (prefer : Bool) (path : String) (root : Node), root.fault? = none →
      ∃ report : Report ℚ, Report.ofTree prefer path root = .ok report ∧
        (∀ v ∈ report.bindings, InUnit v.type.confidence) ∧
        ∀ f ∈ report.functions, InUnit f.result.confidence ∧
          ∀ p ∈ f.params, InUnit p.type.confidence) ∧
    ∀ slots : List (Slot ℚ), slots ≠ [] → slots.foldl Slot.place [] ≠ [] := by
  have hP := Guess.unitScored_keptByRules
  refine ⟨?_, fun _ _ => hP.uses _, ?_, fun _ => Slot.foldl_place_ne_nil⟩
  · intro env hscope
    have henv : env.scope.All Guess.UnitScored := hscope ▸ h
    refine ⟨Node.guess?_kept hP henv, ?_⟩
    intro n
    have hresult := n.reading.routine.body.guess_kept hP henv
    refine ⟨Node.guess?_kept hP henv _, n.shape_kept hP henv, hresult, ?_, ?_, ?_⟩
    · exact Param.guessAll_kept hP henv n.reading.routine.params
    · exact Guess.unitScored_plain rfl hresult.confidence
    · exact Guess.unitScored_plain rfl hresult.confidence
  · intro prefer path root hroot
    have hempty : ({} : Context ℚ).scope.All Guess.UnitScored := fun _ _ hg => by cases hg
    have hshows := Run.foldl_shows (Q := fun t => InUnit t.confidence) hP
      (fun g hg => hg.confidence) hempty (.empty _ {}) prefer root.script
    refine ⟨_, Report.ofTree_eq_ok hroot prefer path, hshows.bindings, ?_⟩
    intro f hf
    exact ⟨hshows.results f hf, hshows.params f hf⟩

/-- A context in which a name is a string or a number with little confidence. -/
def doubtfulContext : Context ℚ := ({} : Context ℚ).bind "a" (.union ["string", "number"] 0.6)

/-- The confidences of the name and of the null are averaged and scaled down. -/
def doubtfulLiteral : Node := .branch "array" [.leaf "identifier" "a", .leaf "null" "null"]

theorem confidence_in_unit_interval_doubtful :
    doubtfulContext.scope.All Guess.UnitScored ∧
    (doubtfulLiteral.guess doubtfulContext.env).confidence = 18 / 25 ∧
    (doubtfulLiteral.guess doubtfulContext.env).UnitScored := by
  have hempty : ({} : Scope ℚ).All Guess.UnitScored := fun _ _ hg => by cases hg
  have hscope : doubtfulContext.scope.All Guess.UnitScored :=
    hempty.bind "a" (Guess.unitScored_fixed rfl rfl (by decide))
  obtain ⟨hjudged, _⟩ := confidence_in_unit_interval doubtfulContext hscope
  exact ⟨hscope, by decide +kernel, (hjudged doubtfulContext.env rfl).1 (some doubtfulLiteral)⟩

end ScriptTyping
