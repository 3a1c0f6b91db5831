import ScriptTyping.Tree.Source

/-! # The search for faults

The search keeps the nodes that are still to be looked at on a stack. The node on top makes room for
its own children before anything below it is looked at, so the search goes down into one node after
the other, and a recursion over the tree finds the same fault.
-/
namespace ScriptTyping.Node

mutual

/-- The first fault of a node and the nodes below it. -/
def firstFault? : Node → Option Fault
  | mk label children => label.fault?.or (firstFaultIn? children)

def firstFaultIn? : List Node → Option Fault
  | [] => none
  | n :: rest =>
    if n.label.faulty || n.label.missing then n.firstFault?.or (firstFaultIn? rest)
    else firstFaultIn? rest

end

theorem firstFaultIn?_eq_findSome? (ns : List Node) :
    firstFaultIn? ns =
      (ns.filter fun c => c.label.faulty || c.label.missing).findSome? firstFault? := by
  induction ns with
  | nil => rfl
  | cons n rest ih =>
    rw [firstFaultIn?, List.filter_cons]
    split
    · rw [List.findSome?_cons, ← ih]
      cases n.firstFault? <;> rfl
    · exact ih

theorem firstFault?_eq_or (n : Node) :
    n.firstFault? = n.label.fault?.or (n.suspects.findSome? firstFault?) := by
  obtain ⟨label, children⟩ := n
  rw [firstFault?, firstFaultIn?_eq_findSome?]
  rfl

/-- What is on the stack is searched from the top down, each node with all that is below it in the
tree. -/
theorem searchStack_eq_findSome? (stack : List Node) :
    searchStack stack = stack.reverse.findSome? firstFault? := by
  fun_induction searchStack stack with
  | case1 stack htop =>
    rw [List.getLast?_eq_none_iff.mp htop]
    rfl
  | case2 stack top htop fault hfault =>
    obtain ⟨below, rfl⟩ := List.getLast?_eq_some_iff.mp htop
    rw [List.reverse_concat, List.findSome?_cons, firstFault?_eq_or, hfault]
    rfl
  | case3 stack top htop hfault ih =>
    obtain ⟨below, rfl⟩ := List.getLast?_eq_some_iff.mp htop
    rw [ih, List.dropLast_concat, List.reverse_append, List.reverse_reverse,
      List.findSome?_append, List.reverse_concat, List.findSome?_cons, firstFault?_eq_or, hfault,
      Option.none_or]
    cases top.suspects.findSome? firstFault? <;> rfl

theorem searchStack_singleton (root : Node) : searchStack [root] = root.firstFault? := by
  rw [searchStack_eq_findSome?]
  cases h : root.firstFault? <;> simp [h]

end ScriptTyping.Node
