import ScriptTyping.Text.Characters
import ScriptTyping.Text.Quoting
import ScriptTyping.Tree.Node

/-! # Source texts and their faults

A source text gives a node its text and its place: a node is a range of bytes of the text's UTF-8
form. The text is at fault where a token is missing or a piece of it fits nowhere. The search for
the first fault goes through the tree in document order, into the children that say they hold one.
-/
namespace ScriptTyping

structure Source where
  bytes : ByteArray

namespace Source

def ofText (text : String) : Source := ⟨text.toUTF8⟩

def slice (s : Source) (start stop : Nat) : String :=
  (String.fromUTF8? (s.bytes.extract start stop)).getD ""

/-- The row that a text ends in, and the offset at which that row starts. -/
def rowAfter (bytes : List UInt8) : Nat × Nat :=
  let step (state : Nat × Nat × Nat) (byte : UInt8) : Nat × Nat × Nat :=
    let (row, rowStart, offset) := state
    if byte == 10 then (row + 1, offset + 1, offset + 1) else (row, rowStart, offset + 1)
  let (row, rowStart, _) := bytes.foldl step (0, 0, 0)
  (row, rowStart)

def position (s : Source) (offset : Nat) : Position :=
  let (row, rowStart) := rowAfter (s.bytes.extract 0 offset).toList
  { offset, row, column := offset - rowStart }

end Source

inductive FaultCause where
  | missing (kind : String)
  | unexpected (token : String)
  /-- The tree says that it is faulty and holds no fault. -/
  | unlocated
deriving DecidableEq, Repr

/-- What is wrong, and where: the line counts from one, the column in bytes from zero. -/
structure Fault where
  cause : FaultCause
  line : Nat
  column : Nat
deriving DecidableEq, Repr

def Fault.message (f : Fault) : String :=
  match f.cause with
  | .missing kind => "Missing " ++ kind
  | .unexpected token =>
    if token.isEmpty then "Unexpected token" else "Unexpected token " ++ Text.Quoted.encode token
  | .unlocated => "Syntax error"

def Label.fault? (l : Label) : Option Fault :=
  if l.missing then some ⟨.missing l.kind, l.line, l.start.column⟩
  else if l.kind == "ERROR" then
    some ⟨.unexpected (Text.firstLine l.text), l.line, l.start.column⟩
  else none

namespace Node

/-- The children that the search enters. -/
def suspects (n : Node) : List Node :=
  n.children.filter fun c => c.label.faulty || c.label.missing

mutual

/-- The number of nodes of a tree. -/
def size : Node → Nat
  | mk _ children => sizeIn children + 1

def sizeIn : List Node → Nat
  | [] => 0
  | n :: rest => n.size + sizeIn rest

end

theorem sizeIn_append (ns ms : List Node) : sizeIn (ns ++ ms) = sizeIn ns + sizeIn ms := by
  induction ns with
  | nil => simp [sizeIn]
  | cons n rest ih => simp only [List.cons_append, sizeIn, ih, Nat.add_assoc]

theorem sizeIn_reverse (ns : List Node) : sizeIn ns.reverse = sizeIn ns := by
  induction ns with
  | nil => rfl
  | cons n rest ih =>
    rw [List.reverse_cons, sizeIn_append, ih]
    simp only [sizeIn]
    omega

theorem sizeIn_filter_le (p : Node → Bool) (ns : List Node) :
    sizeIn (ns.filter p) ≤ sizeIn ns := by
  induction ns with
  | nil => exact Nat.le_refl _
  | cons n rest ih =>
    cases h : p n with
    | true =>
      rw [List.filter_cons_of_pos h]
      exact Nat.add_le_add_left ih _
    | false =>
      rw [List.filter_cons_of_neg (by simp [h])]
      exact Nat.le_trans ih (Nat.le_add_left _ _)

theorem sizeIn_suspects_lt (n : Node) : sizeIn n.suspects < n.size := by
  obtain ⟨label, children⟩ := n
  exact Nat.lt_succ_of_le (sizeIn_filter_le _ children)

/-- Searches from a stack of nodes whose last one is the top. The top is the fault, or makes room
for the children to enter, which are pushed in reverse: the first of them comes next. -/
def searchStack (stack : List Node) : Option Fault :=
  match _htop : stack.getLast? with
  | none => none
  | some top =>
    match top.label.fault? with
    | some fault => some fault
    | none => searchStack (stack.dropLast ++ top.suspects.reverse)
termination_by sizeIn stack
decreasing_by
  obtain ⟨below, rfl⟩ := List.getLast?_eq_some_iff.mp _htop
  have hlt := sizeIn_suspects_lt top
  rw [List.dropLast_concat, sizeIn_append, sizeIn_append, sizeIn_reverse]
  simp only [sizeIn]
  omega

def fault? (root : Node) : Option Fault :=
  if root.label.faulty then some ((searchStack [root]).getD ⟨.unlocated, 1, 0⟩) else none

end Node

end ScriptTyping
