import ScriptTyping.Proofs.RegistryNames
import ScriptTyping.Report

/-! # Promoted shapes

A guess that is marked for promotion is either the shape of a literal at hand, under the free name,
or a shape bound before. A context in which every bound shape has its interface therefore meets a
new shape under the free name only, and each statement leaves such a context behind.
-/
namespace ScriptTyping

variable {κ : Type}

theorem TypeInfo.interfaceName_of_unmarked {g : Guess κ} (h : g.needsInterface = false) :
    (ofGuess g).interfaceName = none := by
  simp [ofGuess, h]

theorem TypeInfo.interfaceName_of_marked {g : Guess κ} (h : g.needsInterface = true) :
    (ofGuess g).interfaceName = g.interfaceName := by
  simp [ofGuess, h]

/-- The mark and the name that a guess may carry in an environment. -/
inductive Env.Yields (env : Env κ) (g : Guess κ) : Prop where
  | inline (mark : g.needsInterface = false) (name : g.interfaceName = none)
  | fresh (mark : g.needsInterface = true) (name : g.interfaceName = some env.freshName)
  | bound {id : String} {b : Guess κ} (found : env.scope.lookup? id = some b)
      (mark : g.needsInterface = b.needsInterface) (name : g.interfaceName = b.interfaceName)
      (properties : g.properties = b.properties)

/-- Neither marked nor named. -/
def Guess.Inline (g : Guess κ) : Prop := g.needsInterface = false ∧ g.interfaceName = none

theorem Env.Yields.of_inline {env : Env κ} {g : Guess κ} (h : g.Inline) : env.Yields g :=
  .inline h.1 h.2

section Rules
variable [Score κ] {env : Env κ}

theorem Guess.inline_ofSum (left right : Guess κ) : (ofSum left right).Inline := by
  unfold ofSum
  split
  · exact ⟨rfl, rfl⟩
  · split <;> exact ⟨rfl, rfl⟩

theorem Guess.inline_ofItems (items : List (Guess κ)) (spread : Bool) :
    (ofItems items spread).Inline := by
  unfold ofItems
  split <;> exact ⟨rfl, rfl⟩

theorem Guess.inline_ofMethodCall (receiver : Guess κ) (method : String) :
    (receiver.ofMethodCall method).Inline := by
  unfold ofMethodCall
  split
  · unfold ofArrayMethod
    split <;> exact ⟨rfl, rfl⟩
  · split
    · unfold ofStringMethod
      split <;> exact ⟨rfl, rfl⟩
    · exact ⟨rfl, rfl⟩

theorem Guess.inline_ofElement (receiver : Guess κ) : receiver.ofElement.Inline := by
  unfold ofElement
  split <;> exact ⟨rfl, rfl⟩

theorem Env.Yields.merge {g h : Guess κ} (hg : env.Yields g) (hh : env.Yields h) :
    env.Yields (g.merge h) := by
  unfold Guess.merge
  split
  · split
    · exact hg
    · exact hh
  · split
    · exact hh
    · split
      · exact hg
      · exact .inline rfl rfl

theorem Guess.mergeAll_induct {P : Guess κ → Prop} (hmerge : ∀ g h, P g → P h → P (g.merge h))
    {first : Guess κ} {rest : List (Guess κ)} (hfirst : P first) (hrest : ∀ g ∈ rest, P g) :
    P (mergeAll first rest) := by
  induction rest generalizing first with
  | nil => exact hfirst
  | cons g rest ih =>
    have hstep := hmerge first g hfirst (hrest g List.mem_cons_self)
    exact ih hstep fun h hh => hrest h (List.mem_cons_of_mem _ hh)

theorem Env.Yields.mergeAll {first : Guess κ} {rest : List (Guess κ)} (hf : env.Yields first)
    (hr : ∀ g ∈ rest, env.Yields g) : env.Yields (Guess.mergeAll first rest) :=
  Guess.mergeAll_induct (fun _ _ => .merge) hf hr

theorem Env.Yields.withConfidence {g : Guess κ} (hg : env.Yields g) (c : κ) :
    env.Yields (g.withConfidence c) := by
  unfold Guess.withConfidence
  split
  · exact hg
  · cases hg with
    | inline mark name => exact .inline mark name
    | fresh mark name => exact .fresh mark name
    | bound found mark name properties => exact .bound found mark name properties

theorem Env.Yields.ofReturns {returns : List (Guess κ)} (h : ∀ g ∈ returns, env.Yields g) :
    env.Yields (Guess.ofReturns returns) := by
  cases returns with
  | nil => exact .inline rfl rfl
  | cons first rest =>
    simp only [Guess.ofReturns]
    split
    · exact .inline rfl rfl
    · have hfirst := h first List.mem_cons_self
      exact (hfirst.mergeAll fun g hg => h g (List.mem_cons_of_mem _ hg)).withConfidence _

theorem Env.Yields.ofBinary (op : Option BinaryOp) {left right : Guess κ}
    (hl : env.Yields left) (hr : env.Yields right) : env.Yields (Guess.ofBinary op left right) := by
  unfold Guess.ofBinary
  split
  · exact .inline rfl rfl
  · exact .inline rfl rfl
  · exact .of_inline (Guess.inline_ofSum left right)
  · exact hl.merge hr
  · split
    · exact hr
    · exact hl.merge hr
  · exact .inline rfl rfl

theorem Env.Yields.ofSlots (slots : List (Slot κ)) :
    env.Yields (Guess.ofSlots env.freshName slots) := by
  by_cases h : (maxInline < slots.length || slots.any Slot.isNested) = true
  · exact .fresh h (if_pos h)
  · exact .inline (by simpa [Guess.ofSlots] using h) (if_neg h)

theorem Env.Yields.ofMembers (slots : Option (List (Slot κ))) :
    env.Yields (Guess.ofMembers env.freshName slots) := by
  unfold Guess.ofMembers
  split
  · exact .inline rfl rfl
  · exact .inline rfl rfl
  · exact .ofSlots _

theorem Env.guessName_yields (env : Env κ) (name : String) : env.Yields (env.guessName name) := by
  unfold Env.guessName
  cases h : env.scope.lookup? name with
  | some b => exact .bound h rfl rfl rfl
  | none =>
    simp only [Option.getD_none, Guess.ofFreeName]
    split <;> exact .inline rfl rfl

/-- The guess for an expression carries a name of its own only if a literal in it is promoted. -/
theorem Expr.guess_yields (env : Env κ) : (e : Expr) → env.Yields (e.guess env)
  | .uncovered | .unresolved | .privateName => .inline rfl rfl
  | .literal l => by cases l <;> exact .inline rfl rfl
  | .name id => env.guessName_yields id
  | .array items spread => .of_inline (Guess.inline_ofItems _ spread)
  | .object members => by
    simp only [Expr.guess]
    split
    · exact .ofMembers _
    · exact .inline rfl rfl
  | .unary op => by
    simp only [Expr.guess, Guess.ofUnary]
    split <;> exact .inline rfl rfl
  | .binary op left right => .ofBinary op (left.guess_yields env) (right.guess_yields env)
  | .conditional consequence alternative =>
    (consequence.guess_yields env).merge (alternative.guess_yields env)
  | .call callee => by
    simp only [Expr.guess, Guess.ofCall]
    split <;> exact .inline rfl rfl
  | .methodCall receiver method => .of_inline (Guess.inline_ofMethodCall _ method)
  | .element receiver => .of_inline (Guess.inline_ofElement _)

theorem Return.guess_yields (env : Env κ) (r : Return) : env.Yields (r.guess env) := by
  cases r with
  | bare => exact .inline rfl rfl
  | value e => exact e.guess_yields env

theorem Body.guess_yields (env : Env κ) (b : Body) : env.Yields (b.guess env) := by
  cases b with
  | absent => exact .inline rfl rfl
  | expression e => exact e.guess_yields env
  | block returns =>
    simp only [Body.guess, Return.guessAll_eq_map]
    apply Env.Yields.ofReturns
    intro g hg
    obtain ⟨r, _, rfl⟩ := List.mem_map.mp hg
    exact r.guess_yields env

theorem Guess.ofUses_yields (uses : List Use) : env.Yields (Guess.ofUses uses) := by
  have huse : ∀ u : Use, env.Yields u.guess := by
    intro u
    cases u <;> exact .inline rfl rfl
  cases uses with
  | nil => exact .inline rfl rfl
  | cons u rest =>
    apply (huse u).mergeAll
    intro g hg
    obtain ⟨v, _, rfl⟩ := List.mem_map.mp hg
    exact huse v

theorem Param.guess_yields (env : Env κ) (p : Param) : env.Yields (p.guess env) := by
  cases p with
  | plain name uses => exact Guess.ofUses_yields uses
  | defaulted name value => exact value.guess_yields env
  | rest | arrayPattern | objectPattern | other => exact .inline rfl rfl

end Rules

/-- The registry has an interface for the shape of a guess, under the name that the guess carries. -/
def Registry.Holds (r : Registry) (g : Guess κ) : Prop :=
  ∃ name, g.interfaceName = some name ∧ r.Has name (shapeHash g.properties)

theorem Registry.Holds.mono {r s : Registry} (h : r.declared <+: s.declared) {g : Guess κ}
    (hg : r.Holds g) : s.Holds g := by
  obtain ⟨name, hname, hhas⟩ := hg
  exact ⟨name, hname, hhas.mono h⟩

/-- Interfaces are distinct and named, and every shape bound with a mark has its interface. -/
structure Context.Consistent (ctx : Context κ) : Prop where
  distinct : ctx.registry.Distinct
  named : "" ∉ ctx.registry.names
  scope : ∀ id g, ctx.scope.lookup? id = some g → g.needsInterface = true → ctx.registry.Holds g

theorem Context.Consistent.empty : ({} : Context κ).Consistent where
  distinct := .empty
  named := List.not_mem_nil
  scope := by
    intro id g h
    cases h

theorem Context.Consistent.bind {ctx : Context κ} (hc : ctx.Consistent) (name : String)
    {g : Guess κ} (hg : g.needsInterface = true → ctx.registry.Holds g) :
    (ctx.bind name g).Consistent where
  distinct := hc.distinct
  named := hc.named
  scope := by
    intro id b hb hmark
    by_cases hid : id = name
    · subst id
      rw [Context.bind, Scope.lookup?_bind_self] at hb
      cases hb
      exact hg hmark
    · rw [Context.bind, Scope.lookup?_bind_of_ne _ _ hid] at hb
      exact hc.scope id b hb hmark

/-- A marked guess has the free name, or its interface is held already. -/
theorem Context.Consistent.fresh_or_held {ctx : Context κ} (hc : ctx.Consistent) {g : Guess κ}
    (hg : ctx.env.Yields g) (hmark : g.needsInterface = true) :
    g.interfaceName = some ctx.registry.nextName ∨ ctx.registry.Holds g := by
  cases hg with
  | inline mark name => simp [mark] at hmark
  | fresh mark name => exact .inl name
  | bound found mark name properties =>
    obtain ⟨n, hname, hhas⟩ := hc.scope _ _ found (mark ▸ hmark)
    exact .inr ⟨n, name.trans hname, properties ▸ hhas⟩

/-- What settling a guess does to the context and to the guess. -/
inductive Run.Settles (prefer : Bool) (ctx : Context κ) (g : Guess κ) :
    Context κ × Guess κ → Prop where
  | kept (mark : g.needsInterface = false) : Settles prefer ctx g (ctx, g)
  | inlined (mark : g.needsInterface = true) (off : prefer = false) :
    Settles prefer ctx g (ctx, { g with needsInterface := false, interfaceName := none })
  | reused {known : Interface} (mark : g.needsInterface = true) (on : prefer = true)
      (found : ctx.registry.findByHash? (shapeHash g.properties) = some known) :
    Settles prefer ctx g
      ({ ctx with registry := ctx.registry.countUse (shapeHash g.properties) },
        { g with interfaceName := some known.name })
  | added (mark : g.needsInterface = true) (on : prefer = true)
      (name : g.interfaceName = some ctx.registry.nextName)
      (new : ctx.registry.findByHash? (shapeHash g.properties) = none) :
    Settles prefer ctx g
      ({ ctx with
          registry := ⟨ctx.registry.interfaces ++
            [Interface.ofShape ctx.registry.nextName g.properties]⟩ },
        { g with interfaceName := some ctx.registry.nextName })

theorem Context.register_of_name {ctx : Context κ} {g : Guess κ} {name : String}
    (hmark : g.needsInterface = true) (hname : g.interfaceName = some name) (hne : name ≠ "") :
    ctx.register g =
      let result := ctx.registry.register (.ofShape name g.properties)
      ({ ctx with registry := result.1 }, { g with interfaceName := some result.2.name }) := by
  have hempty : name.isEmpty = false := by simpa using hne
  simp only [Context.register, hname, hmark, hempty, Bool.not_false, Bool.and_self, ↓reduceIte]

theorem Run.settle_marked {ctx : Context κ} {g : Guess κ} (hmark : g.needsInterface = true)
    (prefer : Bool) : settle prefer ctx g =
      if prefer then ctx.register g
      else (ctx, { g with needsInterface := false, interfaceName := none }) := by
  simp only [settle, hmark, Bool.not_true, Bool.false_eq_true, ↓reduceIte]

theorem Context.register_scope (ctx : Context κ) (g : Guess κ) :
    (ctx.register g).1.scope = ctx.scope := by
  unfold Context.register
  split
  · split <;> rfl
  · rfl

theorem Run.settle_scope (prefer : Bool) (ctx : Context κ) (g : Guess κ) :
    (settle prefer ctx g).1.scope = ctx.scope := by
  unfold settle
  split
  · rfl
  · split
    · exact ctx.register_scope g
    · rfl

theorem Run.settle_settles {ctx : Context κ} (hc : ctx.Consistent) {g : Guess κ}
    (hg : ctx.env.Yields g) (prefer : Bool) : Settles prefer ctx g (settle prefer ctx g) := by
  by_cases hmark : g.needsInterface = true
  · rw [settle_marked hmark]
    cases prefer with
    | false => exact .inlined hmark rfl
    | true =>
      simp only [↓reduceIte]
      have hheld := hc.fresh_or_held hg hmark
      cases hk : ctx.registry.findByHash? (shapeHash g.properties) with
      | some known =>
        have hname : ∃ name, g.interfaceName = some name ∧ name ≠ "" := by
          rcases hheld with h | ⟨n, hname, i, hi, hin, _⟩
          · exact ⟨_, h, ctx.registry.nextName_ne_empty⟩
          · refine ⟨n, hname, ?_⟩
            intro hempty
            exact hc.named (List.mem_map.mpr ⟨i, hi, hin.trans hempty⟩)
        obtain ⟨name, hname, hne⟩ := hname
        rw [Context.register_of_name hmark hname hne, Registry.register_shape_known name hk]
        change Settles true ctx g (_, { g with interfaceName := some known.name })
        exact .reused hmark rfl hk
      | none =>
        have hname : g.interfaceName = some ctx.registry.nextName := by
          rcases hheld with h | ⟨n, _, i, hi, _, hhash⟩
          · exact h
          · exact absurd hhash (Registry.hash_ne_of_findByHash?_none hk i hi)
        rw [Context.register_of_name hmark hname ctx.registry.nextName_ne_empty,
          Registry.register_shape_new hk ctx.registry.nextName_notMem_names]
        exact .added hmark rfl hname hk
  · have hfalse : g.needsInterface = false := by simpa using hmark
    simp only [settle, hfalse, Bool.not_false, ↓reduceIte]
    exact .kept hfalse

theorem Run.Settles.declared_grows {prefer : Bool} {ctx : Context κ} {g : Guess κ}
    {result : Context κ × Guess κ} (h : Settles prefer ctx g result) :
    ctx.registry.declared <+: result.1.registry.declared := by
  cases h with
  | kept | inlined => exact List.prefix_rfl
  | reused mark on found => exact ⟨[], by rw [List.append_nil, Registry.declared_countUse]⟩
  | added mark on name new =>
    rw [Registry.declared_append]
    exact List.prefix_append _ _

/-- Settling keeps a context consistent and leaves no marked guess without its interface. -/
theorem Run.Settles.consistent {prefer : Bool} {ctx : Context κ} {g : Guess κ}
    {result : Context κ × Guess κ} (h : Settles prefer ctx g result) (hc : ctx.Consistent) :
    result.1.Consistent ∧ (result.2.needsInterface = true → result.1.registry.Holds result.2) := by
  have hgrows := h.declared_grows
  cases h with
  | kept mark => exact ⟨hc, fun hm => by simp [mark] at hm⟩
  | inlined mark off => exact ⟨hc, fun hm => by simp at hm⟩
  | @reused known mark on found =>
    obtain ⟨hmem, hhash⟩ := Registry.mem_of_findByHash? found
    refine ⟨⟨hc.distinct.countUse _, ?_, ?_⟩, ?_⟩
    · rw [Registry.names_countUse]
      exact hc.named
    · intro id b hb hmark
      exact (hc.scope id b hb hmark).mono hgrows
    · intro _
      have hheld : ctx.registry.Holds { g with interfaceName := some known.name } :=
        ⟨known.name, rfl, known, hmem, rfl, hhash⟩
      exact hheld.mono hgrows
  | added mark on name new =>
    refine ⟨⟨?_, ?_, ?_⟩, ?_⟩
    · exact hc.distinct.append ctx.registry.nextName_notMem_names
        (Registry.hash_ne_of_findByHash?_none new)
    · intro hempty
      simp only [Registry.names, List.map_append, List.mem_append, List.map_cons, List.map_nil,
        List.mem_singleton] at hempty
      rcases hempty with hempty | hempty
      · exact hc.named hempty
      · exact ctx.registry.nextName_ne_empty hempty.symm
    · intro id b hb hmark
      exact (hc.scope id b hb hmark).mono hgrows
    · intro _
      exact ⟨_, rfl, .ofShape ctx.registry.nextName g.properties, by simp, rfl, rfl⟩

end ScriptTyping
