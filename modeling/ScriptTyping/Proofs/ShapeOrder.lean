import ScriptTyping.Proofs.CanonicalText

/-! # The order of properties

The canonical text of a shape is written after its properties are sorted by name. The sort is
stable: properties of one name stay in the order in which they are given, and this is all that is
left of the order. A shape whose names are distinct has the same hash in whatever order its
properties are listed, and one interface in a registry.
-/
namespace ScriptTyping

section Sorting

theorem byName_trans (p q r : Property) (hpq : decide (p.name ≤ q.name) = true)
    (hqr : decide (q.name ≤ r.name) = true) : decide (p.name ≤ r.name) = true :=
  decide_eq_true (String.le_trans (of_decide_eq_true hpq) (of_decide_eq_true hqr))

theorem byName_total (p q : Property) :
    (decide (p.name ≤ q.name) || decide (q.name ≤ p.name)) = true := by
  simpa using String.le_total p.name q.name

theorem sortByName_sorted (properties : List Property) :
    (sortByName properties).Pairwise fun p q => decide (p.name ≤ q.name) = true :=
  List.pairwise_mergeSort byName_trans byName_total properties

/-- Sorting keeps the order of the properties of one name. -/
theorem filter_sortByName (properties : List Property) (name : String) :
    (sortByName properties).filter (fun p => p.name == name) =
      properties.filter fun p => p.name == name := by
  have hsorted : (properties.filter fun p => p.name == name).Pairwise
      fun p q => decide (p.name ≤ q.name) = true := by
    apply List.pairwise_of_forall_mem_list
    intro p hp q hq
    have hp' : p.name = name := by simpa using (List.mem_filter.mp hp).2
    have hq' : q.name = name := by simpa using (List.mem_filter.mp hq).2
    simp [hp', hq']
  have hsub := (List.sublist_mergeSort byName_trans byName_total hsorted
    List.filter_sublist).filter fun p => p.name == name
  rw [List.filter_filter] at hsub
  simp only [Bool.and_self] at hsub
  have hlength := ((sortByName_perm properties).filter fun p => p.name == name).length_eq
  exact (hsub.eq_of_length hlength.symm).symm

/-- A name stands for one property only, however often it is listed. -/
def NamesDecide (properties : List Property) : Prop :=
  ∀ p ∈ properties, ∀ q ∈ properties, p.name = q.name → p = q

theorem namesDecide_of_nodup {properties : List Property}
    (h : (properties.map Property.name).Nodup) : NamesDecide properties := by
  intro p hp q hq hname
  exact List.inj_on_of_nodup_map h hp hq hname

theorem NamesDecide.sortByName_eq {properties others : List Property}
    (hnames : NamesDecide properties) (h : others.Perm properties) :
    sortByName others = sortByName properties := by
  have hperm : (sortByName others).Perm (sortByName properties) :=
    (sortByName_perm others).trans (h.trans (sortByName_perm properties).symm)
  refine hperm.eq_of_pairwise ?_ (sortByName_sorted others) (sortByName_sorted properties)
  intro p q hp hq hpq hqp
  have hp' : p ∈ properties := h.mem_iff.mp ((sortByName_perm others).mem_iff.mp hp)
  have hq' : q ∈ properties := (sortByName_perm properties).mem_iff.mp hq
  exact hnames p hp' q hq' (String.le_antisymm (of_decide_eq_true hpq) (of_decide_eq_true hqp))

theorem namesDecide_of_sortByName_eq {properties : List Property}
    (h : ∀ others, others.Perm properties → sortByName others = sortByName properties) :
    NamesDecide properties := by
  intro p hp q hq hname
  by_contra hne
  -- the two can be listed first in either order, and the sort would keep that order
  have hq' : q ∈ properties.erase p := (List.mem_erase_of_ne (Ne.symm hne)).mpr hq
  let rest := (properties.erase p).erase q
  have hpq : (p :: q :: rest).Perm properties :=
    ((List.perm_cons_erase hq').symm.cons p).trans (List.perm_cons_erase hp).symm
  have hsorted := (h _ hpq).trans (h _ ((List.Perm.swap p q rest).trans hpq)).symm
  have hfilter := congrArg (List.filter fun r => r.name == q.name) hsorted
  rw [filter_sortByName, filter_sortByName] at hfilter
  simp only [List.filter_cons, hname, beq_self_eq_true, ↓reduceIte] at hfilter
  exact hne (List.cons.inj hfilter).1

end Sorting

namespace Registry

/-- Two shapes of one hash make one interface with two uses. -/
theorem register_both {r : Registry} {properties others : List Property}
    (hnew : r.findByHash? (shapeHash properties) = none)
    (hhash : shapeHash others = shapeHash properties) (first second : String) :
    ∃ name,
      ((r.register (.ofShape first properties)).1.register (.ofShape second others)).1.interfaces =
        r.interfaces ++ [{ Interface.ofShape name properties with usageCount := 2 }] := by
  obtain ⟨name, hfirst⟩ := register_shape_added first hnew
  have hknown : Registry.findByHash? ⟨r.interfaces ++ [.ofShape name properties]⟩
      (shapeHash others) = some (.ofShape name properties) := by
    rw [findByHash?, hhash, List.find?_append, ← findByHash?, hnew]
    simp [Interface.ofShape]
  have hkept : r.interfaces.map (fun i => if i.hash == shapeHash others then i.used else i) =
      r.interfaces := by
    conv_rhs => rw [← List.map_id r.interfaces]
    apply List.map_congr_left
    intro i hi
    simp [hhash, hash_ne_of_findByHash?_none hnew i hi]
  refine ⟨name, ?_⟩
  rw [hfirst, register_shape_known second hknown, countUse, List.map_append, hkept]
  simp [Interface.ofShape, Interface.used, hhash]

end Registry

/-- Sorting forgets the order of properties if and only if each name stands for one property. If
the names are distinct, every order has the same hash: interfaces for two orders count as equal, and
a registry that does not hold the shape gets one interface with two uses from them, whichever comes
first. -/
theorem shape_hash_ignores_order (properties : List Property) :
    ((∀ others, others.Perm properties → sortByName others = sortByName properties) ↔
      NamesDecide properties) ∧
    ((properties.map Property.name).Nodup → ∀ others, others.Perm properties →
      shapeHash others = shapeHash properties ∧
      ∀ first second : String,
        (Interface.ofShape first properties).sameShape (.ofShape second others) = true ∧
        ∀ r : Registry, r.findByHash? (shapeHash properties) = none →
          (∃ name, ((r.register (.ofShape first properties)).1.register
              (.ofShape second others)).1.interfaces =
            r.interfaces ++ [{ Interface.ofShape name properties with usageCount := 2 }]) ∧
          ∃ name, ((r.register (.ofShape second others)).1.register
              (.ofShape first properties)).1.interfaces =
            r.interfaces ++ [{ Interface.ofShape name others with usageCount := 2 }]) := by
  refine ⟨⟨namesDecide_of_sortByName_eq, fun h others => h.sortByName_eq⟩, ?_⟩
  intro hnames others hperm
  have hhash : shapeHash others = shapeHash properties := by
    rw [shapeHash, shapeHash, canonicalText, canonicalText,
      (namesDecide_of_nodup hnames).sortByName_eq hperm]
  refine ⟨hhash, fun first second => ⟨?_, fun r hnew => ⟨?_, ?_⟩⟩⟩
  · simp only [Interface.sameShape, Interface.ofShape, hhash, beq_self_eq_true]
  · exact Registry.register_both hnew hhash first second
  · exact Registry.register_both (hhash ▸ hnew) hhash.symm second first

def accentedShape : List Property :=
  [⟨"é", "string", true, false⟩, ⟨"a b", "number | null", false, false⟩,
   ⟨"", "boolean", false, true⟩]

theorem shape_hash_ignores_order_accented :
    (accentedShape.map Property.name).Nodup ∧ accentedShape.reverse.Perm accentedShape ∧
    accentedShape.reverse ≠ accentedShape ∧
    shapeHash accentedShape.reverse = shapeHash accentedShape ∧
    ∃ name, (Registry.ofShapes [("Accented", accentedShape),
        ("Reversed", accentedShape.reverse)]).interfaces =
      [{ Interface.ofShape name accentedShape with usageCount := 2 }] := by
  have hnames : (accentedShape.map Property.name).Nodup := by decide
  have hperm : accentedShape.reverse.Perm accentedShape := List.reverse_perm accentedShape
  obtain ⟨hhash, hregistry⟩ :=
    (shape_hash_ignores_order accentedShape).2 hnames accentedShape.reverse hperm
  obtain ⟨⟨name, hname⟩, -⟩ := (hregistry "Accented" "Reversed").2 {} rfl
  exact ⟨hnames, hperm, by decide, hhash, name, hname⟩

/-- With two properties of one name the order shows in the text. -/
example : canonicalText [⟨"a", "number", false, false⟩, ⟨"a", "string", false, false⟩] ≠
    canonicalText [⟨"a", "string", false, false⟩, ⟨"a", "number", false, false⟩] := by
  have hsorted (t u : String) : sortByName [⟨"a", t, false, false⟩, ⟨"a", u, false, false⟩] =
      [⟨"a", t, false, false⟩, ⟨"a", u, false, false⟩] := List.mergeSort_of_pairwise (by simp)
  rw [ne_eq, canonicalText_eq_iff, hsorted, hsorted]
  decide

end ScriptTyping
