import ScriptTyping.Proofs.Layouts

/-! # Moved trees

When a part of a script moves to another place, the positions in it change and the rest of its tree
stays. As long as the move keeps the order of offsets, it is the tree in another layout, and its
statements are on the lines to which the move takes them.
-/
namespace ScriptTyping

/-- Where the positions of a piece of source go when it moves. -/
structure Move where
  offset : Nat → Nat
  row : Nat → Nat
  column : Position → Nat

/-- Of two offsets the one that comes first still does. -/
def Move.KeepsOrder (m : Move) (offsets : List Nat) : Prop :=
  ∀ a ∈ offsets, ∀ b ∈ offsets, m.offset a < m.offset b ↔ a < b

instance (m : Move) (offsets : List Nat) : Decidable (m.KeepsOrder offsets) :=
  inferInstanceAs (Decidable (∀ a ∈ offsets, ∀ b ∈ offsets, m.offset a < m.offset b ↔ a < b))

theorem Move.KeepsOrder.subset {m : Move} {offsets fewer : List Nat} (h : m.KeepsOrder offsets)
    (hsub : fewer ⊆ offsets) : m.KeepsOrder fewer := by
  intro a ha b hb
  exact h a (hsub ha) b (hsub hb)

def Position.moved (m : Move) (p : Position) : Position :=
  ⟨m.offset p.offset, m.row p.row, m.column p⟩

def Label.moved (m : Move) (l : Label) : Label := { l with start := l.start.moved m }

namespace Node

mutual

def moved (m : Move) : Node → Node
  | mk label children => mk (label.moved m) (movedAll m children)

def movedAll (m : Move) : List Node → List Node
  | [] => []
  | n :: rest => n.moved m :: movedAll m rest

end

mutual

/-- The offsets of a node and of the nodes below it. -/
def offsets : Node → List Nat
  | mk label children => label.start.offset :: offsetsIn children

def offsetsIn : List Node → List Nat
  | [] => []
  | n :: rest => n.offsets ++ offsetsIn rest

end

theorem offset_mem_offsets (n : Node) : n.label.start.offset ∈ n.offsets := by
  cases n
  exact List.mem_cons_self

theorem offset_mem_offsetsIn {ns : List Node} {n : Node} (h : n ∈ ns) :
    n.label.start.offset ∈ offsetsIn ns := by
  induction ns with
  | nil => cases h
  | cons k rest ih =>
    rcases List.mem_cons.mp h with rfl | h
    · exact List.mem_append_left _ n.offset_mem_offsets
    · exact List.mem_append_right _ (ih h)

theorem label_moved (m : Move) (n : Node) : (n.moved m).label = n.label.moved m := by
  cases n
  rfl

theorem movedAll_eq_map (m : Move) (ns : List Node) : movedAll m ns = ns.map (moved m) := by
  induction ns with
  | nil => rfl
  | cons n rest ih => simp only [movedAll, List.map_cons, ih]

end Node

/-- Where lines go when the source moves. -/
def Move.lines (m : Move) (line other : Nat) : Prop := other = m.row (line - 1) + 1

def Statement.moved (m : Move) : Statement → Statement
  | declare name init line => declare name init (m.row (line - 1) + 1)
  | define name routine line => define name routine (m.row (line - 1) + 1)

theorem Label.resembles_moved (m : Move) (l : Label) : l.Resembles m.lines (l.moved m) :=
  ⟨rfl, rfl, rfl, rfl, fun _ => rfl, rfl⟩

theorem Statement.eq_map_moved {m : Move} {ss ts : List Statement}
    (h : List.Forall₂ (Statement.Resembles m.lines) ss ts) : ts = ss.map (moved m) := by
  induction h with
  | nil => rfl
  | cons hst _ ih =>
    cases hst with
    | declare name init hline => rw [List.map_cons, moved, ← ih, hline]
    | define name routine hline => rw [List.map_cons, moved, ← ih, hline]

namespace Node

theorem sameOrder_moved (m : Move) {ns : List Node} (h : m.KeepsOrder (offsetsIn ns)) :
    SameOrder ns (movedAll m ns) := by
  rw [movedAll_eq_map]
  intro p hp q hq
  obtain ⟨hpmem, hpmoved⟩ := mem_zip_map hp
  obtain ⟨hqmem, hqmoved⟩ := mem_zip_map hq
  rw [hpmoved, hqmoved, label_moved, label_moved]
  exact h _ (offset_mem_offsetsIn hpmem) _ (offset_mem_offsetsIn hqmem)

theorem sameNames_moved (m : Move) (ns : List Node) : SameNames ns (movedAll m ns) := by
  rw [movedAll_eq_map]
  intro p hp _
  rw [(mem_zip_map hp).2, label_moved]
  rfl

mutual

theorem relaid_moved (m : Move) :
    (n : Node) → m.KeepsOrder n.offsets → n.Relaid m.lines (n.moved m)
  | mk label ns, h => by
    have hbelow : m.KeepsOrder (offsetsIn ns) := h.subset (List.subset_cons_self _ _)
    exact ⟨label.resembles_moved m, sameOrder_moved m hbelow, fun _ => sameNames_moved m ns,
      relaidAll_moved m ns hbelow⟩

theorem relaidAll_moved (m : Move) :
    (ns : List Node) → m.KeepsOrder (offsetsIn ns) → RelaidAll m.lines ns (movedAll m ns)
  | [], _ => trivial
  | n :: rest, h =>
    ⟨relaid_moved m n (h.subset (List.subset_append_left _ _)),
      relaidAll_moved m rest (h.subset (List.subset_append_right _ _))⟩

end

theorem statements_moved {m : Move} {n : Node} (h : m.KeepsOrder n.offsets) :
    (n.moved m).reading.statements = n.reading.statements.map (Statement.moved m) :=
  Statement.eq_map_moved (relaid_moved m n h).resembles.child.statements

end Node

end ScriptTyping
