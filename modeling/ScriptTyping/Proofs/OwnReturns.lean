import Mathlib.Data.List.Perm.Subperm
import ScriptTyping.Proofs.ResemblingNodes
import ScriptTyping.Proofs.Runs

/-! # The returns of a function

A return belongs to the innermost function around it. The search for the returns of a function goes
from one statement of its body to those that it holds. In a body that is built as the grammar has it
all of them are found, once each and in source order, but for those inside a `with` statement, which
the search does not enter.
-/
namespace ScriptTyping

namespace Label

def classKinds : List String := ["class_declaration", "class"]

/-- A function or a class: what returns inside it does not return from the function around it. -/
def isEnclosure (l : Label) : Bool := l.isFunction || classKinds.contains l.kind

/-- The search for returns passes by functions and classes, and `with` statements as well. -/
def isPassedBy (l : Label) : Bool := l.isEnclosure || l.kind == "with_statement"

end Label

namespace Node

section Grammar

/-- The statements in which a return can stand without a function between, and the return itself. -/
def statementKinds : List String :=
  ["return_statement", "statement_block", "if_statement", "for_statement", "for_in_statement",
   "while_statement", "do_statement", "switch_statement", "try_statement", "labeled_statement",
   "with_statement"]

/-- What the grammar lets stand in each of these statements and in their clauses, as far as it can
hold a return. -/
def statementGrammar : List (String × List String) :=
  [("statement_block", statementKinds),
   ("if_statement", "else_clause" :: statementKinds),
   ("else_clause", statementKinds),
   ("for_statement", statementKinds),
   ("for_in_statement", statementKinds),
   ("while_statement", statementKinds),
   ("do_statement", statementKinds),
   ("switch_statement", ["switch_body"]),
   ("switch_body", ["switch_case", "switch_default"]),
   ("switch_case", statementKinds),
   ("switch_default", statementKinds),
   ("try_statement", ["statement_block", "catch_clause", "finally_clause"]),
   ("catch_clause", ["statement_block"]),
   ("finally_clause", ["statement_block"]),
   ("labeled_statement", statementKinds),
   ("with_statement", statementKinds)]

/-- Expressions, declarations and tokens hold no statement outside functions and classes. -/
def heldBy (kind : String) : List String := (statementGrammar.lookup kind).getD []

/-- The return statement, the statements that can hold it and their clauses. -/
def formKinds : List String := "return_statement" :: statementGrammar.map Prod.fst

mutual

/-- Whether statements stand where the grammar lets them, in the node and below it up to the
functions and classes inside. -/
def grammatical : Node → Bool
  | mk label children => grammaticalIn label.kind children

def grammaticalIn (parent : String) : List Node → Bool
  | [] => true
  | n :: rest =>
    (!formKinds.contains n.kind || n.label.named && (heldBy parent).contains n.kind) &&
      (n.label.isEnclosure || n.grammatical) && grammaticalIn parent rest

end

theorem grammaticalIn_cons_iff {parent : String} {n : Node} {rest : List Node} :
    grammaticalIn parent (n :: rest) = true ↔
      (n.kind ∈ formKinds → n.label.named = true ∧ n.kind ∈ heldBy parent) ∧
      (n.label.isEnclosure = false → n.grammatical = true) ∧
      grammaticalIn parent rest = true := by
  rw [grammaticalIn]
  cases n.label.isEnclosure <;> by_cases hform : n.kind ∈ formKinds <;> simp [hform, and_assoc]

theorem heldBy_eq_nil {kind : String} (h : kind ∉ formKinds ∨ kind = "return_statement") :
    heldBy kind = [] := by
  have hkey : ∀ row ∈ statementGrammar, row.1 ≠ kind := by
    rcases h with h | rfl
    · intro row hrow hkind
      exact h (List.mem_cons_of_mem _ (hkind ▸ List.mem_map_of_mem hrow))
    · decide
  rw [heldBy, List.lookup_eq_none_iff.mpr, Option.getD_none]
  intro row hrow
  simpa using (hkey row hrow).symm

theorem mem_formKinds_cases {kind : String} (h : kind ∈ formKinds) :
    kind = "return_statement" ∨ kind = "with_statement" ∨ kind ∈ Reading.returnContainers := by
  have hall : ∀ kind ∈ formKinds, kind = "return_statement" ∨ kind = "with_statement" ∨
      kind ∈ Reading.returnContainers := by decide
  exact hall kind h

theorem mem_formKinds_of_container {kind : String} (h : kind ∈ Reading.returnContainers) :
    kind ∈ formKinds := by
  have hall : ∀ kind ∈ Reading.returnContainers, kind ∈ formKinds := by decide
  exact hall kind h

theorem not_isEnclosure_of_form {l : Label} (h : l.kind ∈ formKinds) : l.isEnclosure = false := by
  have hall : ∀ kind ∈ formKinds,
      (Label.functionKinds.contains kind || Label.classKinds.contains kind) = false := by decide
  exact hall l.kind h

theorem not_isComment_of_form {l : Label} (h : l.kind ∈ formKinds) : l.isComment = false := by
  have hall : ∀ kind ∈ formKinds, (kind == "comment" || kind == "html_comment") = false := by
    decide
  exact hall l.kind h

end Grammar

section Reaching

/-- The second node is below the first at the end of the path, and none of the nodes between them is
closed. -/
inductive Reaches (closed : Label → Bool) : Node → List Nat → Node → Prop
  | child {n c : Node} {i : Nat} (hc : n.children[i]? = some c) : Reaches closed n [i] c
  | deeper {n c m : Node} {i : Nat} {path : List Nat} (hc : n.children[i]? = some c)
      (hopen : closed c.label = false) (hm : Reaches closed c path m) :
      Reaches closed n (i :: path) m

variable {closed other : Label → Bool} {n c m : Node} {path rest : List Nat}

theorem reaches_cons_iff {i : Nat} :
    n.Reaches closed (i :: path) m ↔
      ∃ c, n.children[i]? = some c ∧
        (path = [] ∧ m = c ∨ closed c.label = false ∧ c.Reaches closed path m) := by
  constructor
  · intro h
    cases h with
    | child hc => exact ⟨m, hc, .inl ⟨rfl, rfl⟩⟩
    | @deeper _ c _ _ _ hc hopen hm => exact ⟨c, hc, .inr ⟨hopen, hm⟩⟩
  · rintro ⟨c, hc, ⟨rfl, rfl⟩ | ⟨hopen, hm⟩⟩
    · exact .child hc
    · exact .deeper hc hopen hm

theorem not_reaches_nil : ¬n.Reaches closed [] m := by
  rintro ⟨⟩

/-- On the way to a node every node before it is open. -/
theorem Reaches.open_of_append (hc : n.Reaches other path c)
    (hm : n.Reaches closed (path ++ rest) m) (hrest : rest ≠ []) : closed c.label = false := by
  induction hc with
  | child hc =>
    obtain ⟨c', hc', ⟨hnil, -⟩ | ⟨hopen, -⟩⟩ := reaches_cons_iff.mp hm
    · exact absurd hnil hrest
    · cases hc.symm.trans hc'
      exact hopen
  | deeper hc _ _ ih =>
    obtain ⟨c', hc', ⟨hnil, -⟩ | ⟨-, hm⟩⟩ := reaches_cons_iff.mp hm
    · exact absurd (List.append_eq_nil_iff.mp hnil).2 hrest
    · cases hc.symm.trans hc'
      exact ih hm

/-- A node is reached where other nodes are closed as well, or the way to it goes through one of
these. -/
theorem Reaches.reaches_or_through (other : Label → Bool) (h : n.Reaches closed path m) :
    n.Reaches other path m ∨
      ∃ before w after, path = before ++ after ∧ after ≠ [] ∧ n.Reaches closed before w ∧
        closed w.label = false ∧ other w.label = true := by
  induction h with
  | child hc => exact .inl (.child hc)
  | @deeper n c m i path hc hopen hm ih =>
    cases hother : other c.label with
    | true =>
      refine .inr ⟨[i], c, path, rfl, ?_, .child hc, hopen, hother⟩
      rintro rfl
      exact not_reaches_nil hm
    | false =>
      rcases ih with hm' | ⟨before, w, after, rfl, hafter, hw, hwopen, hclosed⟩
      · exact .inl (.deeper hc hother hm')
      · exact .inr ⟨i :: before, w, after, rfl, hafter, .deeper hc hopen hw, hwopen, hclosed⟩

end Reaching

section Listing

mutual

/-- The return statements below a node that are not inside a closed one, with their paths. -/
def returnStatements (closed : Label → Bool) : Node → List (List Nat × Node)
  | mk _ children => returnStatementsFrom closed 0 children

/-- The return statements at and below the nodes of a list, the first of which has the number `i`
among its siblings. -/
def returnStatementsFrom (closed : Label → Bool) (i : Nat) : List Node → List (List Nat × Node)
  | [] => []
  | n :: rest =>
    (if n.kind == "return_statement" then [([i], n)] else []) ++
      (if closed n.label then [] else (n.returnStatements closed).map fun r => (i :: r.1, r.2)) ++
      returnStatementsFrom closed (i + 1) rest

end

/-- The part of a list of return statements that comes from one child. -/
def returnStatementsAt (closed : Label → Bool) (n : Node) (i : Nat) : List (List Nat × Node) :=
  (if n.kind == "return_statement" then [([i], n)] else []) ++
    if closed n.label then [] else (n.returnStatements closed).map fun r => (i :: r.1, r.2)

theorem returnStatementsAt_closed {closed : Label → Bool} {n : Node} (i : Nat)
    (hkind : n.kind ≠ "return_statement") (h : closed n.label = true) :
    returnStatementsAt closed n i = [] := by
  simp [returnStatementsAt, hkind, h]

theorem returnStatementsAt_open {closed : Label → Bool} {n : Node} (i : Nat)
    (hkind : n.kind ≠ "return_statement") (h : closed n.label = false) :
    returnStatementsAt closed n i =
      (n.returnStatements closed).map fun r => (i :: r.1, r.2) := by
  simp [returnStatementsAt, hkind, h]

theorem returnStatementsFrom_cons (closed : Label → Bool) (i : Nat) (n : Node) (rest : List Node) :
    returnStatementsFrom closed i (n :: rest) =
      returnStatementsAt closed n i ++ returnStatementsFrom closed (i + 1) rest := by
  rw [returnStatementsFrom, returnStatementsAt]

theorem mem_returnStatementsFrom_iff {closed : Label → Bool} {i : Nat} {ns : List Node}
    {r : List Nat × Node} :
    r ∈ returnStatementsFrom closed i ns ↔
      ∃ k c, ns[k]? = some c ∧ r ∈ returnStatementsAt closed c (i + k) := by
  induction ns generalizing i with
  | nil => simp [returnStatementsFrom]
  | cons n rest ih =>
    rw [returnStatementsFrom_cons, List.mem_append, ih]
    constructor
    · rintro (hr | ⟨k, c, hc, hr⟩)
      · exact ⟨0, n, rfl, hr⟩
      · exact ⟨k + 1, c, hc, by rwa [Nat.add_assoc, Nat.add_comm 1] at hr⟩
    · rintro ⟨k, c, hc, hr⟩
      cases k with
      | zero =>
        cases hc
        exact .inl hr
      | succ k => exact .inr ⟨k, c, hc, by rwa [Nat.add_assoc, Nat.add_comm 1]⟩

theorem mem_returnStatements_iff_child {closed : Label → Bool} {n : Node} {r : List Nat × Node} :
    r ∈ n.returnStatements closed ↔
      ∃ i c, n.children[i]? = some c ∧ r ∈ returnStatementsAt closed c i := by
  obtain ⟨label, children⟩ := n
  rw [returnStatements, mem_returnStatementsFrom_iff]
  simp only [Nat.zero_add, Node.children]

theorem mem_returnStatementsAt_iff {closed : Label → Bool} {c m : Node} {i : Nat}
    {path : List Nat} :
    (path, m) ∈ returnStatementsAt closed c i ↔
      ∃ rest, path = i :: rest ∧
        (rest = [] ∧ m = c ∧ m.kind = "return_statement" ∨
          closed c.label = false ∧ (rest, m) ∈ c.returnStatements closed) := by
  rw [returnStatementsAt, List.mem_append]
  constructor
  · rintro (h | h)
    · split at h
      · next hkind =>
        cases List.mem_singleton.mp h
        exact ⟨[], rfl, .inl ⟨rfl, rfl, by simpa using hkind⟩⟩
      · cases h
    · split at h
      · cases h
      · next hopen =>
        obtain ⟨⟨rest, m⟩, hr, heq⟩ := List.mem_map.mp h
        cases heq
        exact ⟨rest, rfl, .inr ⟨by simpa using hopen, hr⟩⟩
  · rintro ⟨rest, rfl, ⟨rfl, rfl, hkind⟩ | ⟨hopen, hr⟩⟩
    · exact .inl (by simp [hkind])
    · refine .inr ?_
      simp only [hopen, Bool.false_eq_true, ↓reduceIte]
      exact List.mem_map.mpr ⟨(rest, m), hr, rfl⟩

/-- The listed nodes are the return statements that are reached. -/
theorem mem_returnStatements_iff {closed : Label → Bool} {n m : Node} {path : List Nat} :
    (path, m) ∈ n.returnStatements closed ↔
      n.Reaches closed path m ∧ m.kind = "return_statement" := by
  induction path generalizing n with
  | nil =>
    refine iff_of_false ?_ fun h => not_reaches_nil h.1
    intro h
    obtain ⟨i, c, -, hr⟩ := mem_returnStatements_iff_child.mp h
    obtain ⟨rest, hpath, -⟩ := mem_returnStatementsAt_iff.mp hr
    cases hpath
  | cons i path ih =>
    rw [mem_returnStatements_iff_child, reaches_cons_iff]
    constructor
    · rintro ⟨j, c, hc, hr⟩
      obtain ⟨rest, hpath, ⟨hnil, hm, hkind⟩ | ⟨hopen, hr⟩⟩ := mem_returnStatementsAt_iff.mp hr
      · cases hpath
        exact ⟨⟨c, hc, .inl ⟨hnil, hm⟩⟩, hkind⟩
      · cases hpath
        obtain ⟨hm, hkind⟩ := ih.mp hr
        exact ⟨⟨c, hc, .inr ⟨hopen, hm⟩⟩, hkind⟩
    · rintro ⟨⟨c, hc, hstep⟩, hkind⟩
      refine ⟨i, c, hc, mem_returnStatementsAt_iff.mpr ⟨path, rfl, ?_⟩⟩
      rcases hstep with ⟨hnil, hm⟩ | ⟨hopen, hm⟩
      · exact .inl ⟨hnil, hm, hkind⟩
      · exact .inr ⟨hopen, ih.mpr ⟨hm, hkind⟩⟩

/-- A return comes before those below it, and these differ only after the first step of the path. -/
theorem returnStatementsAt_sorted {closed : Label → Bool} {n : Node} (i : Nat)
    (h : (n.returnStatements closed).Pairwise fun r s => r.1 < s.1) :
    (returnStatementsAt closed n i).Pairwise fun r s => r.1 < s.1 := by
  have hbelow : (if closed n.label then [] else
      (n.returnStatements closed).map fun r => (i :: r.1, r.2)).Pairwise
        fun r s => r.1 < s.1 := by
    split
    · exact .nil
    · rw [List.pairwise_map]
      exact h.imp fun hlt => List.cons_lt_cons_iff.mpr (.inr ⟨rfl, hlt⟩)
  rw [returnStatementsAt]
  split
  · refine List.pairwise_cons.mpr ⟨?_, hbelow⟩
    intro s hs
    split at hs
    · cases hs
    · obtain ⟨⟨path, m⟩, hr, rfl⟩ := List.mem_map.mp hs
      refine List.cons_lt_cons_iff.mpr (.inr ⟨rfl, ?_⟩)
      cases path with
      | nil => exact absurd (mem_returnStatements_iff.mp hr).1 not_reaches_nil
      | cons j path => exact List.nil_lt_cons j path
  · exact hbelow

mutual

theorem returnStatements_sorted (closed : Label → Bool) :
    (n : Node) → (n.returnStatements closed).Pairwise fun r s => r.1 < s.1
  | mk _ children => returnStatementsFrom_sorted closed 0 children

theorem returnStatementsFrom_sorted (closed : Label → Bool) (i : Nat) :
    (ns : List Node) → (returnStatementsFrom closed i ns).Pairwise fun r s => r.1 < s.1
  | [] => .nil
  | n :: rest => by
    rw [returnStatementsFrom_cons, List.pairwise_append]
    refine ⟨returnStatementsAt_sorted i (returnStatements_sorted closed n),
      returnStatementsFrom_sorted closed (i + 1) rest, ?_⟩
    rintro ⟨path, m⟩ hr ⟨path', m'⟩ hs
    obtain ⟨tail, rfl, -⟩ := mem_returnStatementsAt_iff.mp hr
    obtain ⟨k, c, -, hs⟩ := mem_returnStatementsFrom_iff.mp hs
    obtain ⟨tail', rfl, -⟩ := mem_returnStatementsAt_iff.mp hs
    exact List.cons_lt_cons_iff.mpr (.inl (by omega))

end

mutual

/-- The more nodes are closed, the fewer statements are left. -/
theorem returnStatements_sublist {closed other : Label → Bool}
    (h : ∀ l, closed l = true → other l = true) :
    (n : Node) → (n.returnStatements other).Sublist (n.returnStatements closed)
  | mk _ children => returnStatementsFrom_sublist h 0 children

theorem returnStatementsFrom_sublist {closed other : Label → Bool}
    (h : ∀ l, closed l = true → other l = true) (i : Nat) : (ns : List Node) →
    (returnStatementsFrom other i ns).Sublist (returnStatementsFrom closed i ns)
  | [] => .slnil
  | n :: rest => by
    have hbelow := returnStatements_sublist h n
    rw [returnStatementsFrom_cons, returnStatementsFrom_cons, returnStatementsAt,
      returnStatementsAt]
    refine (List.Sublist.append (.refl _) ?_).append (returnStatementsFrom_sublist h (i + 1) rest)
    cases hother : other n.label with
    | true => exact List.nil_sublist _
    | false =>
      have hopen : closed n.label = false := by
        by_contra hne
        simp [h n.label (by simpa using hne)] at hother
      simp only [hopen, Bool.false_eq_true, ↓reduceIte]
      exact hbelow.map _

end

theorem returnStatements_eq_iff {closed other : Label → Bool}
    (h : ∀ l, closed l = true → other l = true) {n : Node} :
    n.returnStatements other = n.returnStatements closed ↔
      ∀ r ∈ n.returnStatements closed, r ∈ n.returnStatements other := by
  constructor
  · intro heq r hr
    rwa [heq]
  · intro hsubset
    have hnodup : (n.returnStatements closed).Nodup :=
      (returnStatements_sorted closed n).imp fun hlt heq => absurd (heq ▸ hlt) (List.lt_irrefl _)
    exact (returnStatements_sublist h n).eq_of_length_le (hnodup.subperm hsubset).length_le

end Listing

section Collecting

/-- What the search collects from a child of a statement. -/
def collected (c : Node) : List Return :=
  if c.isPart then
    if c.kind == "return_statement" then [c.reading.returned]
    else if Reading.returnContainers.contains c.kind then c.reading.returns
    else []
  else []

theorem returns_eq_flatMap (n : Node) : n.reading.returns = n.children.flatMap collected := by
  have hparts : n.reading.returns = n.parts.flatMap fun c =>
      if c.kind == "return_statement" then [c.reading.returned]
      else if Reading.returnContainers.contains c.kind then c.reading.returns
      else [] := by
    rw [reading_eq]
    simp only [Reading.ofChildren, Reading.returnsOf, partsOf_readChildren, List.flatMap_map]
    rfl
  rw [hparts, parts]
  induction n.children with
  | nil => rfl
  | cons c rest ih =>
    rw [List.filter_cons, List.flatMap_cons, ← ih, collected]
    split
    · rw [List.flatMap_cons]
    · rfl

mutual

/-- Outside the statements that can hold a return there is none. -/
theorem returnStatements_eq_nil {closed : Label → Bool}
    (hclosed : ∀ l : Label, l.isEnclosure = true → closed l = true) :
    (n : Node) → n.grammatical = true → (n.kind ∉ formKinds ∨ n.kind = "return_statement") →
    n.returnStatements closed = []
  | mk label children, hgrammatical, hkind => by
    rw [returnStatements]
    exact returnStatementsFrom_eq_nil hclosed 0 children hgrammatical (heldBy_eq_nil hkind)

theorem returnStatementsFrom_eq_nil {closed : Label → Bool}
    (hclosed : ∀ l : Label, l.isEnclosure = true → closed l = true) {parent : String} (i : Nat) :
    (ns : List Node) → grammaticalIn parent ns = true → heldBy parent = [] →
    returnStatementsFrom closed i ns = []
  | [], _, _ => by rw [returnStatementsFrom]
  | n :: rest, hgrammatical, hnone => by
    obtain ⟨hform, hbelow, hrest⟩ := grammaticalIn_cons_iff.mp hgrammatical
    have hkind : n.kind ∉ formKinds := by
      intro hmem
      simpa [hnone] using (hform hmem).2
    have hreturn : n.kind ≠ "return_statement" := by
      intro heq
      exact hkind (heq ▸ List.mem_cons_self)
    rw [returnStatementsFrom_cons, returnStatementsFrom_eq_nil hclosed (i + 1) rest hrest hnone,
      List.append_nil]
    cases hopen : closed n.label with
    | true => exact returnStatementsAt_closed i hreturn hopen
    | false =>
      have hnot : n.label.isEnclosure = false := by
        by_contra hne
        simp [hclosed n.label (by simpa using hne)] at hopen
      rw [returnStatementsAt_open i hreturn hopen,
        returnStatements_eq_nil hclosed n (hbelow hnot) (.inl hkind), List.map_nil]

end

theorem isPassedBy_of_isEnclosure (l : Label) (h : l.isEnclosure = true) : l.isPassedBy = true := by
  simp [Label.isPassedBy, h]

theorem collected_eq_nil {n : Node} (hkind : n.kind ≠ "return_statement")
    (h : n.kind ∉ Reading.returnContainers) : collected n = [] := by
  simp [collected, hkind, h]

/-- From a child the search collects its returns, given that it collects those below the child. -/
theorem collected_eq {n : Node} (i : Nat) (hnamed : n.kind ∈ formKinds → n.label.named = true)
    (hbelow : n.label.isEnclosure = false → n.grammatical = true)
    (ih : n.grammatical = true → n.reading.returns =
      (n.returnStatements Label.isPassedBy).map fun r => r.2.reading.returned) :
    collected n =
      (returnStatementsAt Label.isPassedBy n i).map fun r => r.2.reading.returned := by
  by_cases hform : n.kind ∈ formKinds
  · have hgrammatical := hbelow (not_isEnclosure_of_form hform)
    have hpart : n.isPart = true := by
      simp [isPart, Label.isPart, hnamed hform, not_isComment_of_form hform]
    have hpassed : n.label.isPassedBy = (n.kind == "with_statement") := by
      rw [Label.isPassedBy, not_isEnclosure_of_form hform, Bool.false_or]
      rfl
    rcases mem_formKinds_cases hform with hkind | hkind | hkind
    · have hnone := returnStatements_eq_nil isPassedBy_of_isEnclosure n hgrammatical (.inr hkind)
      simp [collected, returnStatementsAt, hpart, hkind, hpassed, hnone]
    · have hreturn : n.kind ≠ "return_statement" := by simp [hkind]
      rw [returnStatementsAt_closed i hreturn (by simp [hpassed, hkind]), List.map_nil]
      exact collected_eq_nil hreturn (by rw [hkind]; decide)
    · have hentered : ∀ kind ∈ Reading.returnContainers,
          kind ≠ "return_statement" ∧ kind ≠ "with_statement" := by decide
      obtain ⟨hreturn, hwith⟩ := hentered n.kind hkind
      rw [returnStatementsAt_open i hreturn (by simp [hpassed, hwith]), List.map_map, collected,
        ih hgrammatical]
      simp [hpart, hreturn, hkind, Function.comp_def]
  · -- neither the node nor anything that is searched below it is a return
    have hreturn : n.kind ≠ "return_statement" := by
      intro heq
      exact hform (heq ▸ List.mem_cons_self)
    rw [collected_eq_nil hreturn fun h => hform (mem_formKinds_of_container h)]
    cases hpassed : n.label.isPassedBy with
    | true => rw [returnStatementsAt_closed i hreturn hpassed, List.map_nil]
    | false =>
      have hnot : n.label.isEnclosure = false := (Bool.or_eq_false_iff.mp hpassed).1
      rw [returnStatementsAt_open i hreturn hpassed, returnStatements_eq_nil
        isPassedBy_of_isEnclosure n (hbelow hnot) (.inl hform), List.map_nil, List.map_nil]

mutual

/-- The returns collected in a grammatical node are those that are not inside a function, a class or
a `with` statement. -/
theorem returns_eq_map : (n : Node) → n.grammatical = true → n.reading.returns =
    (n.returnStatements Label.isPassedBy).map fun r => r.2.reading.returned
  | mk label children, h => by
    rw [returns_eq_flatMap, returnStatements]
    exact flatMap_collected_eq 0 children h

theorem flatMap_collected_eq {parent : String} (i : Nat) :
    (ns : List Node) → grammaticalIn parent ns = true → ns.flatMap collected =
      (returnStatementsFrom Label.isPassedBy i ns).map fun r => r.2.reading.returned
  | [], _ => by rw [returnStatementsFrom, List.flatMap_nil, List.map_nil]
  | n :: rest, h => by
    obtain ⟨hform, hbelow, hrest⟩ := grammaticalIn_cons_iff.mp h
    rw [List.flatMap_cons, returnStatementsFrom_cons, List.map_append,
      collected_eq i (fun hkind => (hform hkind).1) hbelow (returns_eq_map n),
      flatMap_collected_eq (i + 1) rest hrest]

end

end Collecting

section Owning

/-- The second node is below the first at the end of the path, and not inside a function or a class
between them. -/
def Owns (n : Node) (path : List Nat) (m : Node) : Prop := n.Reaches Label.isEnclosure path m

/-- The return statements of the function whose body the node is. -/
def ownReturns (n : Node) : List (List Nat × Node) := n.returnStatements Label.isEnclosure

/-- The path goes through a `with` statement. -/
def EntersWith (n : Node) (path : List Nat) : Prop :=
  ∃ before w after, path = before ++ after ∧ after ≠ [] ∧ n.Owns before w ∧
    w.kind = "with_statement"

theorem mem_collected_iff {n m : Node} {path : List Nat} (h : (path, m) ∈ n.ownReturns) :
    (path, m) ∈ n.returnStatements Label.isPassedBy ↔ ¬n.EntersWith path := by
  obtain ⟨hm, hkind⟩ := mem_returnStatements_iff.mp h
  constructor
  · rintro hfound ⟨before, w, after, rfl, hafter, hw, hwith⟩
    have hopen := hw.open_of_append (mem_returnStatements_iff.mp hfound).1 hafter
    have hpassed : w.label.isPassedBy = true := by
      rw [Label.isPassedBy, show w.label.kind = "with_statement" from hwith, beq_self_eq_true,
        Bool.or_true]
    simp [hpassed] at hopen
  · intro houtside
    rcases hm.reaches_or_through Label.isPassedBy with
      hfound | ⟨before, w, after, hpath, hafter, hw, hopen, hpassed⟩
    · exact mem_returnStatements_iff.mpr ⟨hfound, hkind⟩
    · rw [Label.isPassedBy, hopen, Bool.false_or, beq_iff_eq] at hpassed
      exact absurd ⟨before, w, after, hpath, hafter, hw, hpassed⟩ houtside

end Owning

end Node

/-- The returns of a function can be listed by their paths in source order. In a grammatical body
this list is what is collected if and only if none of them is inside a `with` statement. -/
theorem own_returns_collected_iff {body : Node} (hbody : body.grammatical = true) :
    body.ownReturns.Pairwise (fun r s => r.1 < s.1) ∧
    (∀ path m, (path, m) ∈ body.ownReturns ↔
      body.Owns path m ∧ m.kind = "return_statement") ∧
    (body.reading.returns = body.ownReturns.map (fun r => r.2.reading.returned) ↔
      ∀ r ∈ body.ownReturns, ¬body.EntersWith r.1) := by
  refine ⟨Node.returnStatements_sorted _ body, fun _ _ => Node.mem_returnStatements_iff, ?_⟩
  have hsub : (body.returnStatements Label.isPassedBy).Sublist body.ownReturns :=
    Node.returnStatements_sublist Node.isPassedBy_of_isEnclosure body
  have hall : body.returnStatements Label.isPassedBy = body.ownReturns ↔
      ∀ r ∈ body.ownReturns, ¬body.EntersWith r.1 := by
    rw [Node.ownReturns, Node.returnStatements_eq_iff Node.isPassedBy_of_isEnclosure]
    exact forall₂_congr fun r hr => Node.mem_collected_iff hr
  rw [Node.returns_eq_map body hbody, ← hall]
  constructor
  · intro heq
    -- a return that is passed by makes the list shorter
    exact hsub.eq_of_length (by simpa using congrArg List.length heq)
  · intro heq
    rw [heq]

namespace Node

def returning (value : String) : Node := branch "return_statement" [leaf "number" value]

def block (statements : List Node) : Node := branch "statement_block" statements

/-- The body `{ a: for (;;) if (x) return 1; else try { return 2; } catch { return; } with (o) {
function g() { return 3; } } class C { m() { return 4; } } switch (x) { default: return 5; } }`. -/
def windingBody : Node :=
  block
    [branch "labeled_statement"
       [(leaf "statement_identifier" "a").inRole "label",
        branch "for_statement"
          [branch "empty_statement" [],
           branch "if_statement"
             [branch "parenthesized_expression" [leaf "identifier" "x"],
              returning "1",
              branch "else_clause"
                [token "else",
                 branch "try_statement"
                   [block [returning "2"],
                    branch "catch_clause" [block [branch "return_statement" []]]]]]]],
     branch "with_statement"
       [branch "parenthesized_expression" [leaf "identifier" "o"],
        block [defining "g" [returning "3"]]],
     branch "class_declaration"
       [leaf "identifier" "C",
        branch "class_body" [branch "method_definition" [block [returning "4"]]]],
     branch "switch_statement"
       [branch "parenthesized_expression" [leaf "identifier" "x"],
        branch "switch_body" [branch "switch_default" [token "default", returning "5"]]]]

end Node

theorem own_returns_collected_windingBody :
    Node.windingBody.grammatical = true ∧
    Node.windingBody.ownReturns.map Prod.fst =
      [[0, 1, 1, 1], [0, 1, 1, 2, 1, 0, 0], [0, 1, 1, 2, 1, 1, 0, 0], [3, 1, 0, 1]] ∧
    (∃ w, Node.windingBody.Owns [1] w ∧ w.kind = "with_statement") ∧
    ∀ r ∈ Node.windingBody.ownReturns, ¬Node.windingBody.EntersWith r.1 := by
  have hgrammatical : Node.windingBody.grammatical = true := rfl
  obtain ⟨-, -, hcollected⟩ := own_returns_collected_iff hgrammatical
  exact ⟨hgrammatical, rfl, ⟨_, .child rfl, rfl⟩, hcollected.mp rfl⟩

/-- The script `function f() { with (o) { return 1; } }`. -/
def withScript : Node :=
  .branch "program"
    [.defining "f"
      [.branch "with_statement"
        [.branch "parenthesized_expression" [.leaf "identifier" "o"],
         .block [.returning "1"]]]]

/-- The only return of the function is not collected, and the function counts as one without. -/
theorem return_in_with_uncollected :
    ∃ f body, withScript.children = [f] ∧ f.field? "body" = some body ∧
      body.kind = "statement_block" ∧ body.grammatical = true ∧
      body.ownReturns.map (fun r => (r.1, r.2.kind)) = [([0, 1, 0], "return_statement")] ∧
      body.reading.returns ≠ body.ownReturns.map (fun r => r.2.reading.returned) ∧
      ∃ report : Report Float, Report.ofTree true "f.js" withScript = .ok report ∧
        report.functions.map (fun f => (f.name, f.result.value, f.result.confidence)) =
          [("f", "void", 1.0)] := by
  refine ⟨_, _, rfl, rfl, rfl, rfl, rfl, ?_, _, Report.ofTree_eq_ok rfl true "f.js", rfl⟩
  intro h
  exact absurd (congrArg List.length h) (by decide)

end ScriptTyping
