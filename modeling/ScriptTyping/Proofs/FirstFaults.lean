import ScriptTyping.Proofs.FaultSearch
import ScriptTyping.Proofs.InferredGuesses

/-! # The first fault of a tree

A node has a flag that tells whether there is a fault in it or below it. The search for faults
pushes flagged children only. Where the flags tell the truth it passes by no fault, and it comes to
the first one of the whole tree in document order.
-/
namespace ScriptTyping

namespace Label

/-- Whether the node stands for a missing token or holds a text that fits nowhere. -/
def isFault (l : Label) : Bool := l.missing || l.kind == "ERROR"

/-- What is said of a node that is a fault: the token that is missing, or the first line of the text
that fits nowhere. -/
def complaint (l : Label) : String :=
  if l.missing then "Missing " ++ l.kind
  else if Text.firstLine l.text = "" then "Unexpected token"
  else "Unexpected token " ++ Text.Quoted.encode (Text.firstLine l.text)

theorem fault?_of_not_isFault {l : Label} (h : l.isFault = false) : l.fault? = none := by
  obtain ⟨hmissing, hkind⟩ := Bool.or_eq_false_iff.mp h
  simp only [fault?, hmissing, hkind, Bool.false_eq_true, ↓reduceIte]

theorem fault?_of_isFault {l : Label} (h : l.isFault = true) :
    ∃ fault, l.fault? = some fault ∧ fault.message = l.complaint ∧
      fault.line = l.start.row + 1 ∧ fault.column = l.start.column := by
  cases hmissing : l.missing with
  | true =>
    refine ⟨⟨.missing l.kind, l.line, l.start.column⟩, ?_, ?_, rfl, rfl⟩
    · simp only [fault?, hmissing, ↓reduceIte]
    · simp only [Fault.message, complaint, hmissing, ↓reduceIte]
  | false =>
    have hkind : (l.kind == "ERROR") = true := by
      rwa [isFault, hmissing, Bool.false_or] at h
    refine ⟨⟨.unexpected (Text.firstLine l.text), l.line, l.start.column⟩, ?_, ?_, rfl, rfl⟩
    · simp only [fault?, hmissing, hkind, Bool.false_eq_true, ↓reduceIte]
    · simp only [Fault.message, complaint, hmissing, Bool.false_eq_true, ↓reduceIte,
        String.isEmpty_iff]

theorem complaint_ne_syntaxError (l : Label) : l.complaint ≠ "Syntax error" := by
  intro h
  have hfirst := congrArg (fun s => s.toList.head?) h
  unfold complaint at hfirst
  split at hfirst
  · simp at hfirst
  · split at hfirst
    · simp at hfirst
    · simp at hfirst

end Label

namespace Node

mutual

/-- A node and the nodes below it in document order, each before those below it. -/
def preorder : Node → List Node
  | mk label children => mk label children :: preorderIn children

def preorderIn : List Node → List Node
  | [] => []
  | n :: rest => n.preorder ++ preorderIn rest

end

/-- Everywhere in the tree the flag of a node tells whether there is a fault in it or below it. -/
def FlagsTell (root : Node) : Prop :=
  root.Everywhere fun n => n.label.faulty = true ↔ ∃ m ∈ n.preorder, m.label.isFault = true

theorem flagsTell_of_all {root : Node}
    (h : root.all (fun n => n.label.faulty == n.preorder.any fun m => m.label.isFault) = true) :
    root.FlagsTell := by
  refine everywhere_of_all ?_ h
  intro n hn
  rw [beq_iff_eq.mp hn, List.any_eq_true]

theorem FlagsTell.isFault_of_not_faulty {n : Node} (h : n.FlagsTell)
    (hfaulty : n.label.faulty = false) : ∀ m ∈ n.preorder, m.label.isFault = false := by
  intro m hm
  by_contra hfault
  have hflag := h.self.mpr ⟨m, hm, by simpa using hfault⟩
  simp [hfaulty] at hflag

/-- The search for the first fault of a node is a walk through all nodes below it. -/
theorem findSome?_preorder (label : Label) (children : List Node) :
    (mk label children).preorder.findSome? (fun m => m.label.fault?) =
      label.fault?.or ((preorderIn children).findSome? fun m => m.label.fault?) := by
  rw [preorder, List.findSome?_cons]
  cases hfault : (mk label children).label.fault? <;> simp_all [Node.label]

mutual

theorem firstFault?_eq : (n : Node) → n.FlagsTell →
    n.firstFault? = n.preorder.findSome? fun m => m.label.fault?
  | mk label children, h => by
    rw [findSome?_preorder, firstFault?, firstFaultIn?_eq children fun c hc => h.child hc]

theorem firstFaultIn?_eq : (ns : List Node) → (∀ n ∈ ns, n.FlagsTell) →
    firstFaultIn? ns = (preorderIn ns).findSome? fun m => m.label.fault?
  | [], _ => rfl
  | n :: rest, h => by
    obtain ⟨hn, hrest⟩ := List.forall_mem_cons.mp h
    rw [firstFaultIn?, preorderIn, List.findSome?_append, ← firstFaultIn?_eq rest hrest]
    split
    · rw [firstFault?_eq n hn]
    · next hpassed =>
      -- a child that is not entered has no fault
      have hfaulty : n.label.faulty = false := by
        rw [Bool.or_eq_true, not_or] at hpassed
        simpa using hpassed.1
      have hnone : n.preorder.findSome? (fun m => m.label.fault?) = none := by
        rw [List.findSome?_eq_none_iff]
        intro m hm
        exact Label.fault?_of_not_isFault (hn.isFault_of_not_faulty hfaulty m hm)
      rw [hnone, Option.none_or]

end

theorem FlagsTell.fault?_eq_none_iff {root : Node} (h : root.FlagsTell) :
    root.fault? = none ↔ ∀ n ∈ root.preorder, n.label.isFault = false := by
  rw [Node.fault?_eq_none_iff]
  constructor
  · exact h.isFault_of_not_faulty
  · intro hnone
    rw [Bool.eq_false_iff]
    intro hfaulty
    obtain ⟨m, hm, hfault⟩ := h.self.mp hfaulty
    simp [hnone m hm] at hfault

theorem findSome?_of_find? {ns : List Node} {n : Node} {fault : Fault}
    (hn : ns.find? (fun m => m.label.isFault) = some n) (hfault : n.label.fault? = some fault) :
    ns.findSome? (fun m => m.label.fault?) = some fault := by
  obtain ⟨_, before, after, rfl, hbefore⟩ := List.find?_eq_some_iff_append.mp hn
  have hnone : before.findSome? (fun m => m.label.fault?) = none := by
    rw [List.findSome?_eq_none_iff]
    intro m hm
    exact Label.fault?_of_not_isFault (by simpa using hbefore m hm)
  rw [List.findSome?_append, hnone, Option.none_or, List.findSome?_cons, hfault]

/-- The stack is worked off in the order of a walk through the whole tree. -/
theorem FlagsTell.searchStack_eq {root : Node} (h : root.FlagsTell) :
    searchStack [root] = root.preorder.findSome? fun m => m.label.fault? := by
  rw [searchStack_singleton, firstFault?_eq root h]

theorem FlagsTell.fault?_eq_some {root n : Node} (h : root.FlagsTell)
    (hn : root.preorder.find? (fun m => m.label.isFault) = some n) :
    ∃ fault, searchStack [root] = some fault ∧ root.fault? = some fault ∧
      fault.message = n.label.complaint ∧ fault.line = n.label.start.row + 1 ∧
      fault.column = n.label.start.column := by
  have hisFault : n.label.isFault = true := by simpa using List.find?_some hn
  obtain ⟨fault, hfault, hdetails⟩ := Label.fault?_of_isFault hisFault
  have hfaulty : root.label.faulty = true :=
    h.self.mpr ⟨n, List.mem_of_find?_eq_some hn, hisFault⟩
  have hfirst : searchStack [root] = some fault := by
    rw [h.searchStack_eq, findSome?_of_find? hn hfault]
  refine ⟨fault, hfirst, ?_, hdetails⟩
  simp only [Node.fault?, hfaulty, ↓reduceIte, hfirst, Option.getD_some]

end Node

theorem Report.ofTree_eq_error_iff {κ : Type} [Score κ] {root : Node} {fault : Fault}
    (prefer : Bool) (path : String) :
    (ofTree prefer path root : Except Fault (Report κ)) = .error fault ↔
      root.fault? = some fault := by
  unfold ofTree
  cases root.fault? <;> simp

theorem Report.ofTree_eq_ok_iff {κ : Type} [Score κ] {root : Node} (prefer : Bool) (path : String) :
    (∃ report : Report κ, ofTree prefer path root = .ok report) ↔ root.fault? = none := by
  unfold ofTree
  cases root.fault? <;> simp

/-- Where the flags of a tree tell the truth, the search that starts with the root on its stack finds
what a walk through the whole tree finds. The tree is sound if it has no fault. Otherwise the search
ends at the first fault in document order, and what is said of the tree, instead of a report, is
that fault with its place. -/
theorem first_fault_found {κ : Type} [Score κ] {root : Node} (h : root.FlagsTell) :
    Node.searchStack [root] = root.preorder.findSome? (fun m => m.label.fault?) ∧
    (root.fault? = none ↔ ∀ n ∈ root.preorder, n.label.isFault = false) ∧
    (∀ n, root.preorder.find? (fun m => m.label.isFault) = some n →
      ∃ fault, Node.searchStack [root] = some fault ∧ root.fault? = some fault ∧
        fault.message = n.label.complaint ∧ fault.message ≠ "Syntax error" ∧
        fault.line = n.label.start.row + 1 ∧ fault.column = n.label.start.column) ∧
    ∀ (prefer : Bool) (path : String),
      ((∃ report : Report κ, Report.ofTree prefer path root = .ok report) ↔ root.fault? = none) ∧
      ∀ fault, (Report.ofTree prefer path root : Except Fault (Report κ)) = .error fault ↔
        root.fault? = some fault := by
  refine ⟨h.searchStack_eq, h.fault?_eq_none_iff, ?_, ?_⟩
  · intro n hn
    obtain ⟨fault, hsearch, hfault, hmessage, hline, hcolumn⟩ := h.fault?_eq_some hn
    refine ⟨fault, hsearch, hfault, hmessage, ?_, hline, hcolumn⟩
    rw [hmessage]
    exact n.label.complaint_ne_syntaxError
  · intro prefer path
    exact ⟨Report.ofTree_eq_ok_iff prefer path, fun fault => Report.ofTree_eq_error_iff prefer path⟩

/-- The script `a; if (` and on the next line `) @`: the identifier of the condition is missing, and
the text at the end fits nowhere. -/
def brokenScript : Node :=
  let flagged (kind : String) (children : List Node) : Node :=
    .mk { kind, faulty := true, start := ⟨3, 0, 3⟩, text := "" } children
  let condition : Node :=
    .mk { kind := "identifier", missing := true, faulty := true, start := ⟨7, 1, 0⟩, text := "" } []
  let rest : Node :=
    .mk { kind := "ERROR", faulty := true, start := ⟨9, 1, 2⟩, text := "@" } []
  flagged "program"
    [.branch "expression_statement" [.leaf "identifier" "a"],
     flagged "if_statement"
       [.token "if", flagged "parenthesized_expression" [.token "(", condition, .token ")"]],
     rest]

theorem first_fault_found_brokenScript :
    brokenScript.FlagsTell ∧
    ∃ fault, Node.searchStack [brokenScript] = some fault ∧ brokenScript.fault? = some fault ∧
      fault.message = "Missing identifier" ∧ fault.line = 2 ∧ fault.column = 0 ∧
      (Report.ofTree true "a.js" brokenScript : Except Fault (Report Float)) = .error fault := by
  have hflags : brokenScript.FlagsTell := Node.flagsTell_of_all rfl
  obtain ⟨-, -, hfirst, hreport⟩ := first_fault_found (κ := Float) hflags
  obtain ⟨fault, hsearch, hfault, hmessage, -, hline, hcolumn⟩ := hfirst _ rfl
  exact ⟨hflags, fault, hsearch, hfault, hmessage, hline, hcolumn,
    ((hreport true "a.js").2 fault).mpr hfault⟩

end ScriptTyping
