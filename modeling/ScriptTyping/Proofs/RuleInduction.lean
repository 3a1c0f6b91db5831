import ScriptTyping.Infer.Judgement
import ScriptTyping.Proofs.Promotion

/-! # Properties kept by the rules

A property of guesses that each rule keeps, from the guesses for the parts of a form to the guess
for the form, holds of every guess that is made where it holds of the names in scope. A run keeps
it in its scope from statement to statement, and so do the entries that it makes.
-/
namespace ScriptTyping

variable {κ : Type} [Score κ]

/-- Parameters with their guesses, as a signature prints them. -/
def Param.printAll (params : List (Param × Guess κ)) : List String :=
  params.zipIdx.map fun ((p, g), i) => p.print i g

omit [Score κ] in
/-- Numbered parameters are printed like parameters without a name. -/
theorem Guess.numberedParams_eq_printAll (params : List (Guess κ)) :
    numberedParams params = Param.printAll (params.map fun g => (.other, g)) := by
  simp only [numberedParams, Param.printAll, List.zipIdx_map, List.map_map]
  rfl

/-- A signature keeps the property where the names of the parameters satisfy `N`. -/
structure Guess.KeptByRules (P : Guess κ → Prop) (N : String → Prop := fun _ => True) : Prop where
  uncovered : P (unknown 0.0)
  unresolved : P (unknown 0.2)
  undetermined : P (unknown 0.3)
  void : P (primitive "void" 1.0)
  hidden : P hiddenObject
  literal : ∀ l : Literal, P l.guess
  freeName : ∀ name, P (ofFreeName name)
  unary : ∀ op, P (ofUnary op)
  call : ∀ callee, P (ofCall callee)
  use : ∀ u : Use, P u.guess
  arrayPattern : P (arrayOf "unknown" 0.5)
  restParam : ∀ g, P g → P (array g (g.confidence * 0.9))
  signature : ∀ params result,
    (∀ x ∈ params, (∀ name, x.1.name? = some name → N name) ∧ P x.2) → P result →
      P (signature (Param.printAll params) result)
  merge : ∀ g h, P g → P h → P (g.merge h)
  binary : ∀ op left right, P left → P right → P (ofBinary op left right)
  methodCall : ∀ receiver method, P receiver → P (receiver.ofMethodCall method)
  element : ∀ receiver, P receiver → P receiver.ofElement
  items : ∀ items spread, (∀ g ∈ items, P g) → P (ofItems items spread)
  returns : ∀ returns, (∀ g ∈ returns, P g) → P (ofReturns returns)
  members : ∀ name slots, (∀ s ∈ slots, P s.guess) → P (ofMembers name (some slots))
  settled : ∀ prefer ctx g, P g → P (Run.settle prefer ctx g).2

omit [Score κ] in
theorem Slot.place_kept {P : Guess κ → Prop} {slots : List (Slot κ)} (h : ∀ t ∈ slots, P t.guess)
    {s : Slot κ} (hs : P s.guess) : ∀ t ∈ place slots s, P t.guess := by
  unfold place
  split
  · split
    · intro t ht
      obtain ⟨u, hu, rfl⟩ := List.mem_map.mp ht
      split
      · exact hs
      · exact h u hu
    · exact h
  · intro t ht
    rcases List.mem_append.mp ht with ht | ht
    · exact h t ht
    · exact List.mem_singleton.mp ht ▸ hs

omit [Score κ] in
theorem Slot.foldl_place_kept {P : Guess κ → Prop} {slots placed : List (Slot κ)}
    (hplaced : ∀ t ∈ placed, P t.guess) (h : ∀ s ∈ slots, P s.guess) :
    ∀ t ∈ slots.foldl place placed, P t.guess := by
  induction slots generalizing placed with
  | nil => exact hplaced
  | cons s rest ih =>
    obtain ⟨hs, hrest⟩ := List.forall_mem_cons.mp h
    exact ih (place_kept hplaced hs) hrest

omit [Score κ] in
theorem Slot.length_le_place (slots : List (Slot κ)) (s : Slot κ) :
    slots.length ≤ (place slots s).length := by
  unfold place
  split
  · split <;> simp
  · simp

omit [Score κ] in
theorem Slot.length_le_foldl_place (slots placed : List (Slot κ)) :
    placed.length ≤ (slots.foldl place placed).length := by
  induction slots generalizing placed with
  | nil => exact Nat.le_refl _
  | cons s rest ih => exact Nat.le_trans (length_le_place placed s) (ih (place placed s))

omit [Score κ] in
/-- The first member of a literal has a slot, so a shape is never without properties. -/
theorem Slot.foldl_place_ne_nil {slots : List (Slot κ)} (h : slots ≠ []) :
    slots.foldl place [] ≠ [] := by
  cases slots with
  | nil => exact absurd rfl h
  | cons s rest =>
    have hfirst : (place [] s).length = 1 := rfl
    have hle : (place [] s).length ≤ ((s :: rest).foldl place []).length :=
      length_le_foldl_place rest (place [] s)
    intro hnil
    rw [hnil, hfirst, List.length_nil] at hle
    omega

/-- A property of shapes with slots, and of the shape without members, is one of all literals whose
members are known. -/
theorem Guess.ofMembers_kept {P : Guess κ → Prop} (hempty : P (object "\x7b\x7d" 0.8)) (name : String)
    (hslots : ∀ slots : List (Slot κ), slots ≠ [] → (∀ s ∈ slots, P s.guess) → P (ofSlots name slots))
    (slots : List (Slot κ)) (h : ∀ s ∈ slots, P s.guess) : P (ofMembers name (some slots)) := by
  cases slots with
  | nil => exact hempty
  | cons s rest =>
    have hkept : ∀ t ∈ (s :: rest).foldl Slot.place [], P t.guess :=
      Slot.foldl_place_kept (List.forall_mem_nil _) h
    exact hslots _ (Slot.foldl_place_ne_nil (List.cons_ne_nil s rest)) hkept

/-- The property holds of all that is in scope. -/
def Scope.All (P : Guess κ → Prop) (s : Scope κ) : Prop := ∀ id g, s.lookup? id = some g → P g

omit [Score κ] in
theorem Scope.All.bind {P : Guess κ → Prop} {s : Scope κ} (h : s.All P) (name : String)
    {g : Guess κ} (hg : P g) : (s.bind name g).All P := by
  intro id b hb
  by_cases hid : id = name
  · subst id
    rw [lookup?_bind_self] at hb
    exact Option.some.inj hb ▸ hg
  · rw [lookup?_bind_of_ne _ _ hid] at hb
    exact h id b hb

section Induction
variable {P : Guess κ → Prop} {N : String → Prop} {env : Env κ}

theorem Guess.KeptByRules.numbered (hP : KeptByRules P N) {params : List (Guess κ)}
    (hparams : ∀ g ∈ params, P g) {result : Guess κ} (hresult : P result) :
    P (.signature (numberedParams params) result) := by
  rw [numberedParams_eq_printAll]
  apply hP.signature _ result _ hresult
  intro x hx
  obtain ⟨g, hg, rfl⟩ := List.mem_map.mp hx
  refine ⟨?_, hparams g hg⟩
  intro name hname
  cases hname

theorem Guess.KeptByRules.uses (hP : KeptByRules P N) (uses : List Use) : P (ofUses uses) := by
  cases uses with
  | nil => exact hP.undetermined
  | cons u rest =>
    apply Guess.mergeAll_induct hP.merge (hP.use u)
    intro g hg
    obtain ⟨v, _, rfl⟩ := List.mem_map.mp hg
    exact hP.use v

theorem Env.guessName_kept (hP : Guess.KeptByRules P N) (henv : env.scope.All P) (name : String) :
    P (env.guessName name) := by
  unfold Env.guessName
  cases h : env.scope.lookup? name with
  | none => exact hP.freeName name
  | some g => exact henv name g h

theorem Member.shape_kept (hP : Guess.KeptByRules P N) {members : List Member}
    (h : ∀ slots, Member.slots? env members = some slots → ∀ s ∈ slots, P s.guess) :
    P (Member.shape env members) := by
  unfold Member.shape
  cases hslots : Member.slots? env members with
  | none => exact hP.hidden
  | some slots => exact hP.members env.freshName slots (h slots hslots)

mutual

theorem Expr.guess_kept (hP : Guess.KeptByRules P N) (henv : env.scope.All P) :
    (e : Expr) → P (e.guess env)
  | .uncovered => hP.uncovered
  | .unresolved => hP.unresolved
  | .privateName => hP.undetermined
  | .literal l => hP.literal l
  | .name id => env.guessName_kept hP henv id
  | .array items spread => hP.items _ spread (Expr.guessAll_kept hP henv items)
  | .object members => by
    have hmembers := Member.shape_kept hP (Member.slots?_kept hP henv members)
    rw [Expr.guess]
    split
    · exact hmembers
    · exact hP.hidden
  | .unary op => hP.unary op
  | .binary op left right =>
    hP.binary op _ _ (left.guess_kept hP henv) (right.guess_kept hP henv)
  | .conditional consequence alternative =>
    hP.merge _ _ (consequence.guess_kept hP henv) (alternative.guess_kept hP henv)
  | .call callee => hP.call callee
  | .methodCall receiver method => hP.methodCall _ method (receiver.guess_kept hP henv)
  | .element receiver => hP.element _ (receiver.guess_kept hP henv)

theorem Expr.guessAll_kept (hP : Guess.KeptByRules P N) (henv : env.scope.All P) :
    (es : List Expr) → ∀ g ∈ Expr.guessAll env es, P g
  | [] => List.forall_mem_nil _
  | e :: rest => List.forall_mem_cons.mpr ⟨e.guess_kept hP henv, Expr.guessAll_kept hP henv rest⟩

theorem Member.slot?_kept (hP : Guess.KeptByRules P N) (henv : env.scope.All P) :
    (m : Member) → ∀ s, m.slot? env = some s → P s.guess
  | .hidden, _, h => by cases h
  | .shorthand name, _, h => by
    cases h
    exact env.guessName_kept hP henv name
  | .pair _ value, _, h => by
    have hvalue := value.guess_kept hP henv
    cases h
    exact hvalue
  | .method _ params body, _, h => by
    have hparams := Param.guessAll_kept hP henv params
    have hbody := body.guess_kept hP henv
    cases h
    exact hP.numbered hparams hbody
  | .getter _ body, _, h => by
    have hbody := body.guess_kept hP henv
    cases h
    exact hbody
  | .setter _ params, _, h => by
    have hparams := Param.guessAll_kept hP henv params
    cases h
    cases hhead : (Param.guessAll env params).head? with
    | none => exact hP.undetermined
    | some g => exact hparams g (List.mem_of_head? hhead)

theorem Member.slots?_kept (hP : Guess.KeptByRules P N) (henv : env.scope.All P) :
    (ms : List Member) → ∀ slots, Member.slots? env ms = some slots → ∀ s ∈ slots, P s.guess
  | [], _, h => by
    cases h
    exact List.forall_mem_nil _
  | m :: rest, slots, h => by
    have hm := m.slot?_kept hP henv
    have hrest := Member.slots?_kept hP henv rest
    simp only [Member.slots?] at h
    split at h
    · next s more hs hmore =>
      cases h
      exact List.forall_mem_cons.mpr ⟨hm s hs, hrest more hmore⟩
    · cases h

theorem Param.guess_kept (hP : Guess.KeptByRules P N) (henv : env.scope.All P) :
    (p : Param) → P (p.guess env)
  | .plain _ uses => hP.uses uses
  | .rest _ binding => hP.restParam _ (binding.guess_kept hP henv)
  | .defaulted _ value => value.guess_kept hP henv
  | .arrayPattern => hP.arrayPattern
  | .objectPattern => hP.hidden
  | .other => hP.undetermined

theorem Param.guessAll_kept (hP : Guess.KeptByRules P N) (henv : env.scope.All P) :
    (ps : List Param) → ∀ g ∈ Param.guessAll env ps, P g
  | [] => List.forall_mem_nil _
  | p :: rest => List.forall_mem_cons.mpr ⟨p.guess_kept hP henv, Param.guessAll_kept hP henv rest⟩

theorem Body.guess_kept (hP : Guess.KeptByRules P N) (henv : env.scope.All P) :
    (b : Body) → P (b.guess env)
  | .absent => hP.void
  | .expression e => e.guess_kept hP henv
  | .block returns => hP.returns _ (Return.guessAll_kept hP henv returns)

theorem Return.guess_kept (hP : Guess.KeptByRules P N) (henv : env.scope.All P) :
    (r : Return) → P (r.guess env)
  | .bare => hP.void
  | .value e => e.guess_kept hP henv

theorem Return.guessAll_kept (hP : Guess.KeptByRules P N) (henv : env.scope.All P) :
    (rs : List Return) → ∀ g ∈ Return.guessAll env rs, P g
  | [] => List.forall_mem_nil _
  | r :: rest => List.forall_mem_cons.mpr ⟨r.guess_kept hP henv, Return.guessAll_kept hP henv rest⟩

end

theorem Node.guess?_kept (hP : Guess.KeptByRules P N) (henv : env.scope.All P) (n : Option Node) :
    P (Node.guess? env n) := by
  cases n with
  | none => exact hP.uncovered
  | some n => exact n.reading.expr.guess_kept hP henv

theorem Node.shape_kept (hP : Guess.KeptByRules P N) (henv : env.scope.All P) (n : Node) :
    P (n.shape env) :=
  Member.shape_kept hP (Member.slots?_kept hP henv _)

/-- The names that the parameters of a function bind. -/
def Routine.NamesParams (N : String → Prop) (r : Routine) : Prop :=
  ∀ p ∈ r.params, ∀ name, p.name? = some name → N name

def Statement.NamesParams (N : String → Prop) : Statement → Prop
  | .declare _ _ _ => True
  | .define _ routine _ => routine.NamesParams N

theorem Statement.namesParams_trivial (s : Statement) : s.NamesParams fun _ => True := by
  cases s with
  | declare => trivial
  | define => exact fun _ _ _ _ => trivial

theorem Routine.signature_kept (hP : Guess.KeptByRules P N) (henv : env.scope.All P) {r : Routine}
    (hr : r.NamesParams N) : P (r.signature env) := by
  apply hP.signature _ _ _ (r.body.guess_kept hP henv)
  intro x hx
  obtain ⟨hparam, hguess⟩ := List.of_mem_zip hx
  exact ⟨hr x.1 hparam, Param.guessAll_kept hP henv r.params x.2 hguess⟩

theorem Run.step_scope_kept (hP : Guess.KeptByRules P N) {r : Run κ}
    (hr : r.context.scope.All P) (prefer : Bool) {s : Statement} (hs : s.NamesParams N) :
    (r.step prefer s).context.scope.All P := by
  cases s with
  | declare name init line =>
    have hguess : P (init.guess r.context.env) := init.guess_kept hP hr
    simp only [Run.step, Run.declare, Context.bind, Run.settle_scope]
    exact hr.bind name (hP.settled prefer r.context _ hguess)
  | define name routine line => exact hr.bind name (routine.signature_kept hP hr hs)

theorem Run.foldl_scope_kept_of_names (hP : Guess.KeptByRules P N) {r : Run κ}
    (hr : r.context.scope.All P) (prefer : Bool) {statements : List Statement}
    (hs : ∀ s ∈ statements, s.NamesParams N) :
    (statements.foldl (Run.step prefer) r).context.scope.All P := by
  induction statements generalizing r with
  | nil => exact hr
  | cons s rest ih =>
    obtain ⟨hfirst, hrest⟩ := List.forall_mem_cons.mp hs
    exact ih (Run.step_scope_kept hP hr prefer hfirst) hrest

theorem Run.foldl_scope_kept (hP : Guess.KeptByRules P) {r : Run κ} (hr : r.context.scope.All P)
    (prefer : Bool) (statements : List Statement) :
    (statements.foldl (Run.step prefer) r).context.scope.All P :=
  Run.foldl_scope_kept_of_names hP hr prefer fun s _ => s.namesParams_trivial

/-- The types in the entries that a run has made. -/
structure Run.Shows (Q : TypeInfo κ → Prop) (r : Run κ) : Prop where
  bindings : ∀ v ∈ r.bindings, Q v.type
  results : ∀ f ∈ r.functions, Q f.result
  params : ∀ f ∈ r.functions, ∀ p ∈ f.params, Q p.type

omit [Score κ] in
theorem Run.Shows.empty (Q : TypeInfo κ → Prop) (ctx : Context κ) :
    Run.Shows Q { context := ctx } where
  bindings := List.forall_mem_nil _
  results := List.forall_mem_nil _
  params := List.forall_mem_nil _

theorem Run.step_shows (hP : Guess.KeptByRules P N) {Q : TypeInfo κ → Prop}
    (hQ : ∀ g, P g → Q (.ofGuess g)) {r : Run κ} (hr : r.context.scope.All P) (hs : r.Shows Q)
    (prefer : Bool) (s : Statement) : (r.step prefer s).Shows Q := by
  cases s with
  | declare name init line =>
    have hguess : P (init.guess r.context.env) := init.guess_kept hP hr
    refine ⟨?_, hs.results, hs.params⟩
    intro v hv
    rcases List.mem_append.mp hv with hv | hv
    · exact hs.bindings v hv
    · rw [List.mem_singleton.mp hv]
      exact hQ _ (hP.settled prefer r.context _ hguess)
  | define name routine line =>
    have henv : r.context.env.scope.All P := hr
    have hresult := routine.body.guess_kept hP henv
    have hparams := Param.guessAll_kept hP henv routine.params
    refine ⟨hs.bindings, ?_, ?_⟩
    · intro f hf
      rcases List.mem_append.mp hf with hf | hf
      · exact hs.results f hf
      · rw [List.mem_singleton.mp hf]
        exact hQ _ hresult
    · intro f hf
      rcases List.mem_append.mp hf with hf | hf
      · exact hs.params f hf
      · rw [List.mem_singleton.mp hf]
        intro p hp
        obtain ⟨x, hx, rfl⟩ := List.mem_map.mp hp
        exact hQ _ (hparams x.2 (List.of_mem_zip hx).2)

theorem Run.foldl_shows (hP : Guess.KeptByRules P) {Q : TypeInfo κ → Prop}
    (hQ : ∀ g, P g → Q (.ofGuess g)) {r : Run κ} (hr : r.context.scope.All P) (hs : r.Shows Q)
    (prefer : Bool) (statements : List Statement) :
    (statements.foldl (Run.step prefer) r).Shows Q := by
  induction statements generalizing r with
  | nil => exact hs
  | cons s rest ih =>
    have hscope := Run.step_scope_kept hP hr prefer s.namesParams_trivial
    exact ih hscope (Run.step_shows hP hQ hr hs prefer s)

end Induction

end ScriptTyping
