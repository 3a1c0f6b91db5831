import ScriptTyping.Proofs.ResemblingNodes
import ScriptTyping.Proofs.Runs

/-! # Layouts

A tree may be laid out anew: its nodes get other places, and with them the nodes that hold others
get other texts. As long as siblings keep their order, nothing is judged in another way, and a report
changes in its lines only.
-/
namespace ScriptTyping

variable {κ : Type} {Lines : Nat → Nat → Prop}

/-- Lines may change in any way. -/
abbrev AnyLine : Nat → Nat → Prop := fun _ _ => True

section Equivalence

theorem Label.Resembles.refl (l : Label) : l.Resembles AnyLine l :=
  ⟨rfl, rfl, rfl, rfl, fun _ => rfl, trivial⟩

theorem Label.Resembles.trans {l k j : Label} (hlk : l.Resembles AnyLine k)
    (hkj : k.Resembles AnyLine j) : l.Resembles AnyLine j where
  kind := hkj.kind.trans hlk.kind
  named := hkj.named.trans hlk.named
  field := hkj.field.trans hlk.field
  faulty := hkj.faulty.trans hlk.faulty
  text := by
    intro hkind
    have hkind' : k.kind ∈ textKinds := by rwa [hlk.kind]
    exact (hkj.text hkind').trans (hlk.text hkind)
  line := trivial

theorem Statement.forall₂_refl (ss : List Statement) :
    List.Forall₂ (Statement.Resembles AnyLine) ss ss := by
  apply List.forall₂_same.mpr
  intro s _
  cases s
  · exact .declare _ _ trivial
  · exact .define _ _ trivial

theorem Statement.forall₂_trans {ss ts us : List Statement}
    (hst : List.Forall₂ (Statement.Resembles AnyLine) ss ts)
    (htu : List.Forall₂ (Statement.Resembles AnyLine) ts us) :
    List.Forall₂ (Statement.Resembles AnyLine) ss us := by
  induction hst generalizing us with
  | nil => exact htu
  | cons hst _ ih =>
    cases htu with
    | cons htu hrest =>
      refine .cons ?_ (ih hrest)
      cases hst <;> cases htu
      · exact .declare _ _ trivial
      · exact .define _ _ trivial

theorem Child.Resembles.refl (c : Child) : c.Resembles AnyLine c where
  label := .refl c.label
  expr := rfl
  called := rfl
  isNumber := rfl
  reference := rfl
  member := rfl
  param := rfl
  params _ := rfl
  returned := rfl
  returns _ := rfl
  uses := rfl
  routine := rfl
  declared := Statement.forall₂_refl _
  statements := Statement.forall₂_refl _

theorem Child.Resembles.trans {c d e : Child} (hcd : c.Resembles AnyLine d)
    (hde : d.Resembles AnyLine e) : c.Resembles AnyLine e where
  label := hcd.label.trans hde.label
  expr := hde.expr.trans hcd.expr
  called := hde.called.trans hcd.called
  isNumber := hde.isNumber.trans hcd.isNumber
  reference := hde.reference.trans hcd.reference
  member := hde.member.trans hcd.member
  param := hde.param.trans hcd.param
  params hrole := (hde.params (hcd.label.field.trans hrole)).trans (hcd.params hrole)
  returned := hde.returned.trans hcd.returned
  returns hkind := (hde.returns (by rw [hcd.label.kind, hkind])).trans (hcd.returns hkind)
  uses := hde.uses.trans hcd.uses
  routine := hde.routine.trans hcd.routine
  declared := Statement.forall₂_trans hcd.declared hde.declared
  statements := Statement.forall₂_trans hcd.statements hde.statements

theorem Node.Resembles.refl (n : Node) : n.Resembles AnyLine n :=
  ⟨.refl n.asChild, rfl, fun _ => Statement.forall₂_refl _⟩

theorem Node.Resembles.trans {n m k : Node} (hnm : n.Resembles AnyLine m)
    (hmk : m.Resembles AnyLine k) : n.Resembles AnyLine k where
  child := hnm.child.trans hmk.child
  value := hmk.value.trans hnm.value
  script hkind :=
    Statement.forall₂_trans (hnm.script hkind) (hmk.script (hnm.child.label.kind.trans hkind))

end Equivalence

section Judgements
variable [Score κ]

namespace Node

/-- What is asked of either node has the same answer. The shape is asked of object literals. -/
structure JudgedLike (env : Env κ) (n m : Node) : Prop where
  guess : m.guess env = n.guess env
  variableGuess : m.variableGuess env = n.variableGuess env
  shape : n.kind = "object" → m.shape env = n.shape env
  paramGuesses : m.paramGuesses env = n.paramGuesses env
  paramNames : m.paramNames = n.paramNames
  usage : ∀ name, (usage name (some m) : Guess κ) = usage name (some n)
  result : m.result env = n.result env
  signature : m.signature env = n.signature env
  methodSignature : m.methodSignature env = n.methodSignature env

theorem guess_operand (env : Env κ) (n : Node) (role : String) :
    (Reading.operand (readChildren n.children) role).guess env = guess? env (n.field? role) := by
  rw [Reading.operand, field?_readChildren]
  cases n.field? role <;> rfl

theorem variableGuess_eq (env : Env κ) (n : Node) :
    n.variableGuess env = (Reading.operand (readChildren n.children) "value").guess env :=
  (guess_operand env n "value").symm

theorem shape_eq (env : Env κ) (n : Node) :
    n.shape env = Member.shape env
      ((Reading.partsOf (readChildren n.children)).map fun c => c.reading.member) := by
  simp only [Node.shape, partsOf_readChildren, List.map_map]
  rfl

theorem expr_of_object {n : Node} (h : n.kind = "object") :
    n.reading.expr = .object
      ((Reading.partsOf (readChildren n.children)).map fun c => c.reading.member) := by
  have hkind : n.label.kind = "object" := h
  rw [reading_eq]
  simp only [Reading.ofChildren, Reading.exprOf, hkind]

theorem Resembles.judgedLike {n m : Node} (h : n.Resembles Lines m) (env : Env κ) :
    n.JudgedLike env m := by
  have hexpr : m.reading.expr = n.reading.expr := h.child.expr
  have hroutine : m.reading.routine = n.reading.routine := h.child.routine
  have huses : m.reading.uses = n.reading.uses := h.child.uses
  constructor
  · simp only [Node.guess, hexpr]
  · rw [variableGuess_eq, variableGuess_eq, h.value]
  · intro hkind
    have hkind' : m.kind = "object" := h.child.label.kind.trans hkind
    rw [expr_of_object hkind, expr_of_object hkind'] at hexpr
    rw [shape_eq, shape_eq, Expr.object.inj hexpr]
  · simp only [Node.paramGuesses, hroutine]
  · simp only [Node.paramNames, hroutine]
  · intro name
    simp only [Node.usage, Option.map_some, huses]
  · simp only [Node.result, hroutine]
  · simp only [Node.signature, hroutine]
  · simp only [Node.methodSignature, hroutine]

end Node

end Judgements

section Lines

def Statement.unplaced : Statement → Statement
  | declare name init _ => declare name init 0
  | define name routine _ => define name routine 0

theorem Statement.map_unplaced {ss ts : List Statement}
    (h : List.Forall₂ (Statement.Resembles Lines) ss ts) :
    ts.map unplaced = ss.map unplaced := by
  induction h with
  | nil => rfl
  | cons hst _ ih => cases hst <;> simp only [List.map_cons, unplaced, ih]

def VariableInfo.unplaced (v : VariableInfo κ) : VariableInfo κ := { v with line := 0 }

def FunctionInfo.unplaced (f : FunctionInfo κ) : FunctionInfo κ := { f with line := 0 }

/-- The report without the lines of its entries. -/
def Report.unplaced (r : Report κ) : Report κ :=
  { r with
    bindings := r.bindings.map VariableInfo.unplaced
    functions := r.functions.map FunctionInfo.unplaced }

namespace Run

def unplaced (r : Run κ) : Run κ :=
  { r with
    bindings := r.bindings.map VariableInfo.unplaced
    functions := r.functions.map FunctionInfo.unplaced }

variable [Score κ]

theorem step_unplaced (prefer : Bool) (r : Run κ) (s : Statement) :
    (r.step prefer s).unplaced = r.unplaced.step prefer s.unplaced := by
  cases s with
  | declare name init line =>
    simp only [step, declare, Statement.unplaced, unplaced, List.map_append]
    rfl
  | define name routine line =>
    simp only [step, define, Statement.unplaced, unplaced, List.map_append]
    rfl

theorem foldl_unplaced (prefer : Bool) (r : Run κ) (statements : List Statement) :
    (statements.foldl (step prefer) r).unplaced =
      (statements.map Statement.unplaced).foldl (step prefer) r.unplaced := by
  induction statements generalizing r with
  | nil => rfl
  | cons s rest ih => rw [List.foldl_cons, List.map_cons, List.foldl_cons, ih, step_unplaced]

end Run

variable [Score κ]

theorem Report.ofStatements_unplaced (prefer : Bool) (path : String)
    (statements : List Statement) :
    (ofStatements prefer path statements : Report κ).unplaced =
      ofStatements prefer path (statements.map Statement.unplaced) := by
  have hrun := Run.foldl_unplaced prefer ({} : Run κ) statements
  exact congrArg (Run.report path) hrun

/-- A script that resembles another has the same report, apart from the lines. -/
theorem Node.Resembles.report {n m : Node} (h : n.Resembles Lines m) (hkind : n.kind = "program")
    (hfault : n.fault? = none) (prefer : Bool) (path : String) :
    ∃ report relaid : Report κ,
      Report.ofTree prefer path n = .ok report ∧ Report.ofTree prefer path m = .ok relaid ∧
      relaid.unplaced = report.unplaced := by
  have hfault' : m.fault? = none := by
    rw [Node.fault?_eq_none_iff] at hfault ⊢
    exact h.child.label.faulty.trans hfault
  refine ⟨_, _, Report.ofTree_eq_ok hfault prefer path, Report.ofTree_eq_ok hfault' prefer path, ?_⟩
  rw [Report.ofStatements_unplaced, Report.ofStatements_unplaced,
    Statement.map_unplaced (h.script hkind)]

end Lines

namespace Node

/-- Of two siblings the one that starts first does so in both lists. -/
def SameOrder (ns ms : List Node) : Prop :=
  ∀ p ∈ ns.zip ms, ∀ q ∈ ns.zip ms,
    p.2.label.start.offset < q.2.label.start.offset ↔
      p.1.label.start.offset < q.1.label.start.offset

def SameNames (ns ms : List Node) : Prop :=
  ∀ p ∈ ns.zip ms, p.1.label.field = some "name" → p.2.label.text = p.1.label.text

section
variable (Lines : Nat → Nat → Prop)

mutual

/-- The same tree in another layout. -/
def Relaid : Node → Node → Prop
  | mk label ns, mk other ms =>
    label.Resembles Lines other ∧ SameOrder ns ms ∧
      (Reading.functionDeclarations.contains label.kind = true → SameNames ns ms) ∧
      RelaidAll ns ms

def RelaidAll : List Node → List Node → Prop
  | [], [] => True
  | n :: ns, m :: ms => Relaid n m ∧ RelaidAll ns ms
  | _, _ => False

end

end

end Node

namespace Reading

theorem firstAccessor?_congr {ls ks : List Label}
    (h : List.Forall₂ (fun l k : Label => k.kind = l.kind) ls ks) :
    firstAccessor? ks = firstAccessor? ls := by
  induction h with
  | nil => rfl
  | cons hkind _ ih => simp only [firstAccessor?, hkind, ih]

theorem firstAccessor?_takeWhile_congr {p q : Label → Bool} {ls ks : List Label}
    (h : List.Forall₂ (fun l k : Label => k.kind = l.kind ∧ q k = p l) ls ks) :
    firstAccessor? (ks.takeWhile q) = firstAccessor? (ls.takeWhile p) := by
  induction h with
  | nil => rfl
  | cons hlk _ ih =>
    rw [List.takeWhile_cons, List.takeWhile_cons, hlk.2]
    split
    · simp only [firstAccessor?, hlk.1, ih]
    · rfl

theorem find?_name_pair {ls ks : List Label} (h : List.Forall₂ (Label.Resembles Lines) ls ks) :
    (ls.find? fun l => l.field == some "name") = none ∧
        (ks.find? fun k => k.field == some "name") = none ∨
      ∃ p ∈ ls.zip ks, p.1.field = some "name" ∧
        (ls.find? fun l => l.field == some "name") = some p.1 ∧
        (ks.find? fun k => k.field == some "name") = some p.2 := by
  induction h with
  | nil => exact .inl ⟨rfl, rfl⟩
  | @cons l k ls ks hlk _ ih =>
    rw [List.find?_cons, List.find?_cons, hlk.field]
    split
    · next hfield => exact .inr ⟨(l, k), List.mem_cons_self, by simpa using hfield, rfl, rfl⟩
    · rcases ih with hnone | ⟨p, hp, hfound⟩
      · exact .inl hnone
      · exact .inr ⟨p, List.mem_cons_of_mem _ hp, hfound⟩

/-- The one place where offsets count: what stands before the name stands before it still. -/
theorem accessorOf?_resembles (kind : String) {ls ks : List Label}
    (h : List.Forall₂ (Label.Resembles Lines) ls ks)
    (horder : ∀ p ∈ ls.zip ks, ∀ q ∈ ls.zip ks,
      p.2.start.offset < q.2.start.offset ↔ p.1.start.offset < q.1.start.offset) :
    accessorOf? kind ks = accessorOf? kind ls := by
  unfold accessorOf?
  split
  · rfl
  · rcases find?_name_pair h with ⟨hl, hk⟩ | ⟨⟨name, name'⟩, hname, _, hl, hk⟩
    · rw [hl, hk]
      exact firstAccessor?_congr (h.imp fun _ _ hlk => hlk.kind)
    · simp only [hl, hk]
      apply firstAccessor?_takeWhile_congr
      obtain ⟨hlength, hzip⟩ := List.forall₂_iff_zip.mp h
      refine List.forall₂_iff_zip.mpr ⟨hlength, ?_⟩
      intro l k hlk
      exact ⟨(hzip hlk).kind, decide_eq_decide.mpr (horder (l, k) hlk (name, name') hname)⟩

theorem nameText?_resembles {ls ks : List Label}
    (h : List.Forall₂ (Label.Resembles Lines) ls ks)
    (hnames : ∀ p ∈ ls.zip ks, p.1.field = some "name" → p.2.text = p.1.text) :
    nameText? ks = nameText? ls := by
  unfold nameText?
  rcases find?_name_pair h with ⟨hl, hk⟩ | ⟨p, hp, hfield, hl, hk⟩
  · rw [hl, hk]
  · simp only [hl, hk, Option.bind_some, Label.text?, hnames p hp hfield]

end Reading

namespace Node

theorem sameKeywords_of_sameOrder {ns ms : List Node} (kind : String)
    (h : List.Forall₂ (Label.Resembles Lines) (ns.map label) (ms.map label))
    (horder : SameOrder ns ms)
    (hnames : Reading.functionDeclarations.contains kind = true → SameNames ns ms) :
    Reading.SameKeywords kind (ns.map label) (ms.map label) where
  accessor := by
    apply Reading.accessorOf?_resembles kind h
    rw [List.zip_map]
    intro p hp q hq
    obtain ⟨p', hp', rfl⟩ := List.mem_map.mp hp
    obtain ⟨q', hq', rfl⟩ := List.mem_map.mp hq
    exact horder p' hp' q' hq'
  name := by
    intro hkind
    apply Reading.nameText?_resembles h
    rw [List.zip_map]
    intro p hp
    obtain ⟨p', hp', rfl⟩ := List.mem_map.mp hp
    exact hnames hkind p' hp'

mutual

theorem Relaid.resembles : {n m : Node} → n.Relaid Lines m → n.Resembles Lines m
  | mk label ns, mk other ms, ⟨hlabel, horder, hnames, hbelow⟩ => by
    have hchildren := RelaidAll.resembles hbelow
    have hlabels : List.Forall₂ (Label.Resembles Lines) (ns.map Node.label) (ms.map Node.label) := by
      rw [List.forall₂_map_left_iff, List.forall₂_map_right_iff]
      exact hchildren.imp fun _ _ hnm => hnm.child.label
    apply resembles_of_children hlabel
    · exact hchildren.imp fun _ _ hnm => .fully hnm.child
    · exact sameKeywords_of_sameOrder label.kind hlabels horder hnames

theorem RelaidAll.resembles :
    {ns ms : List Node} → RelaidAll Lines ns ms → List.Forall₂ (Resembles Lines) ns ms
  | [], [], _ => .nil
  | _ :: _, _ :: _, ⟨hnm, hrest⟩ => .cons hnm.resembles (RelaidAll.resembles hrest)

end

theorem mem_zip_map {ns : List Node} {f : Node → Node} {p : Node × Node}
    (hp : p ∈ ns.zip (ns.map f)) : p.1 ∈ ns ∧ p.2 = f p.1 := by
  simp only [List.zip, List.zipWith_map_right, List.zipWith_self] at hp
  obtain ⟨n, hn, rfl⟩ := List.mem_map.mp hp
  exact ⟨hn, rfl⟩

theorem eq_of_mem_zip_self {ns : List Node} {p : Node × Node} (hp : p ∈ ns.zip ns) :
    p.2 = p.1 := by
  have hid : p ∈ ns.zip (ns.map id) := by rwa [List.map_id]
  exact (mem_zip_map hid).2

theorem SameOrder.refl (ns : List Node) : SameOrder ns ns := by
  intro p hp q hq
  rw [eq_of_mem_zip_self hp, eq_of_mem_zip_self hq]

theorem SameNames.refl (ns : List Node) : SameNames ns ns := by
  intro p hp _
  rw [eq_of_mem_zip_self hp]

mutual

theorem Relaid.refl : (n : Node) → n.Relaid AnyLine n
  | mk label ns => ⟨.refl label, .refl ns, fun _ => .refl ns, RelaidAll.refl ns⟩

theorem RelaidAll.refl : (ns : List Node) → RelaidAll AnyLine ns ns
  | [] => trivial
  | n :: rest => ⟨Relaid.refl n, RelaidAll.refl rest⟩

end

end Node

end ScriptTyping
