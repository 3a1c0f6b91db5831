import Mathlib.Data.List.Basic
import ScriptTyping.Proofs.RegistryNames

/-! # Reading canonical texts back

A canonical text is written without escapes, so most texts can be read in several ways: each of its
colons ends the name of a property in one of them. A text belongs to one shape only if it has no
colon, or one colon and no mark in front of it. Shapes whose names have no marks, and whose types
have a blank after each bar, are still told apart from each other.
-/
namespace ScriptTyping

namespace Property

def marks (p : Property) : List Char :=
  (if p.optional then ['?'] else []) ++ (if p.readonly then ['!'] else [])

theorem toList_signature (p : Property) :
    p.signature.toList = p.name.toList ++ (p.marks ++ ':' :: p.type.toList) := by
  simp only [signature, String.toList_append, marks, List.append_assoc, apply_ite String.toList]
  rfl

theorem ext_toList {p q : Property} (hname : p.name.toList = q.name.toList)
    (hoptional : p.optional = q.optional) (hreadonly : p.readonly = q.readonly)
    (htype : p.type.toList = q.type.toList) : p = q := by
  cases p
  cases q
  simp_all [String.toList_inj]

end Property

theorem sortByName_perm (properties : List Property) : (sortByName properties).Perm properties :=
  List.mergeSort_perm _ _

theorem perm_of_sortByName_eq {properties others : List Property}
    (h : sortByName others = sortByName properties) : others.Perm properties :=
  (sortByName_perm others).symm.trans (h ▸ sortByName_perm properties)

theorem sortByName_singleton (p : Property) : sortByName [p] = [p] := List.mergeSort_singleton p

/-- The canonical text of properties that are already in order. -/
def sortedText : List Property → List Char
  | [] => []
  | p :: rest => p.signature.toList ++ rest.flatMap fun q => '|' :: q.signature.toList

theorem intercalate_signature (properties : List Property) :
    List.intercalate ['|'] (properties.map fun p => p.signature.toList) =
      sortedText properties := by
  induction properties with
  | nil => rfl
  | cons p rest ih =>
    cases rest with
    | nil => simp [sortedText, List.intercalate]
    | cons q rest =>
      simp only [List.map_cons, List.intercalate_cons_cons] at ih ⊢
      rw [ih]
      simp [sortedText]

theorem toList_canonicalText (properties : List Property) :
    (canonicalText properties).toList = sortedText (sortByName properties) := by
  rw [canonicalText, String.toList_intercalate, List.map_map]
  exact intercalate_signature (sortByName properties)

theorem shapeHash_of_sorted {properties : List Property}
    (h : properties.Pairwise fun p q => decide (p.name ≤ q.name) = true) :
    shapeHash properties = Sha256.hex ("|".intercalate (properties.map Property.signature)) := by
  rw [shapeHash, canonicalText, sortByName, List.mergeSort_of_pairwise h]

theorem canonicalText_eq_iff {properties others : List Property} :
    canonicalText others = canonicalText properties ↔
      sortedText (sortByName others) = sortedText (sortByName properties) := by
  rw [← String.toList_inj, toList_canonicalText, toList_canonicalText]

section Readings

theorem length_le_count_colon (properties : List Property) :
    properties.length ≤ (sortedText properties).count ':' := by
  have hpos (p : Property) : 1 ≤ p.signature.toList.count ':' := by
    rw [List.one_le_count_iff, p.toList_signature]
    simp
  cases properties with
  | nil => exact Nat.zero_le _
  | cons p rest =>
    have hrest : rest.length ≤ (rest.flatMap fun q => '|' :: q.signature.toList).count ':' := by
      induction rest with
      | nil => exact Nat.zero_le _
      | cons q rest ih =>
        have hq := hpos q
        simp only [List.flatMap_cons, List.count_append, List.length_cons, List.count_cons]
        omega
    have hp := hpos p
    simp only [sortedText, List.count_append, List.length_cons]
    omega

/-- A property whose part of a canonical text has one colon, which no mark precedes. -/
structure Property.Bare (p : Property) : Prop where
  required : p.optional = false
  writable : p.readonly = false
  name : ':' ∉ p.name.toList
  type : ':' ∉ p.type.toList
  ending : ∀ c ∈ p.name.toList.getLast?, c ≠ '?' ∧ c ≠ '!'

theorem Property.Bare.toList_signature {p : Property} (hp : p.Bare) :
    p.signature.toList = p.name.toList ++ ':' :: p.type.toList := by
  rw [p.toList_signature]
  simp [marks, hp.required, hp.writable]

theorem Property.Bare.eq_of_signature {p q : Property} (hp : p.Bare)
    (h : q.signature.toList = p.signature.toList) : q = p := by
  rw [hp.toList_signature, q.toList_signature, ← List.append_assoc] at h
  obtain ⟨hname, _, htype⟩ := (List.append_cons_inj_of_notMem hp.name hp.type).mp h.symm
  have hend := hp.ending
  rw [hname] at hend
  have hplain : q.readonly = false ∧ q.optional = false := by
    cases ho : q.optional <;> cases hr : q.readonly <;> simp [marks, ho, hr] at hend ⊢
  have hmarks : q.marks = [] := by simp [marks, hplain]
  rw [hmarks, List.append_nil] at hname
  exact ext_toList hname.symm (hplain.2.trans hp.required.symm)
    (hplain.1.trans hp.writable.symm) htype.symm

theorem Property.bare_of_forall_signature {p : Property}
    (h : ∀ q : Property, q.signature.toList = p.signature.toList → q = p) : p.Bare := by
  -- A mark can be the end of the name instead, and any colon can be the one after the name.
  have hread (name type : List Char) (optional readonly : Bool)
      (hsig : p.signature.toList = name ++ ((if optional then ['?'] else []) ++
        (if readonly then ['!'] else []) ++ ':' :: type)) :
      p.name.toList = name ∧ p.type.toList = type ∧ p.optional = optional ∧
        p.readonly = readonly := by
    have hp := h ⟨String.ofList name, String.ofList type, optional, readonly⟩ (by
      rw [hsig, toList_signature, String.toList_ofList, String.toList_ofList, marks])
    subst p
    simp
  have hrequired : p.optional = false :=
    (hread (p.name.toList ++ if p.optional then ['?'] else []) p.type.toList false p.readonly
      (by simp [toList_signature, marks])).2.2.1
  have hwritable : p.readonly = false :=
    (hread (p.name.toList ++ p.marks) p.type.toList false false
      (by simp [toList_signature])).2.2.2
  have hsig : p.signature.toList = p.name.toList ++ ':' :: p.type.toList := by
    simp [toList_signature, marks, hrequired, hwritable]
  refine ⟨hrequired, hwritable, ?_, ?_, ?_⟩
  · intro hmem
    obtain ⟨a, b, hab⟩ := List.append_of_mem hmem
    have hname := (hread a (b ++ ':' :: p.type.toList) false false (by simp [hsig, hab])).1
    rw [hab] at hname
    simp at hname
  · intro hmem
    obtain ⟨a, b, hab⟩ := List.append_of_mem hmem
    have htype := (hread (p.name.toList ++ ':' :: a) b false false (by simp [hsig, hab])).2.1
    rw [hab] at htype
    have hlen := congrArg List.length htype
    simp at hlen
    omega
  · intro c hc
    obtain ⟨a, ha⟩ := List.getLast?_eq_some_iff.mp hc
    constructor
    · rintro rfl
      have hflag := (hread a p.type.toList true false (by simp [hsig, ha])).2.2.1
      simp [hrequired] at hflag
    · rintro rfl
      have hflag := (hread a p.type.toList false true (by simp [hsig, ha])).2.2.2
      simp [hwritable] at hflag

/-- The shapes whose canonical text no other shape has. -/
structure Unmistakable (properties : List Property) : Prop where
  short : properties.length ≤ 1
  bare : ∀ p ∈ properties, p.Bare

theorem sortedText_singleton (p : Property) : sortedText [p] = p.signature.toList := by
  simp [sortedText]

theorem Unmistakable.eq_of_sortedText {properties others : List Property}
    (hp : Unmistakable properties) (h : sortedText others = sortedText properties) :
    others = properties := by
  have hlen := length_le_count_colon others
  rw [h] at hlen
  match properties, hp.short with
  | [], _ => simpa [sortedText] using hlen
  | [p], _ =>
    have hbare : p.Bare := hp.bare p List.mem_cons_self
    rw [sortedText_singleton] at h hlen
    have hone : p.signature.toList.count ':' = 1 := by
      rw [hbare.toList_signature, List.count_append, List.count_cons_self,
        List.count_eq_zero.mpr hbare.name, List.count_eq_zero.mpr hbare.type]
    match others with
    | [] => simp [sortedText, p.toList_signature] at h
    | [q] =>
      rw [sortedText_singleton] at h
      rw [hbare.eq_of_signature h]
    | _ :: _ :: _ =>
      simp only [List.length_cons] at hlen
      omega

theorem Unmistakable.sortByName_eq {properties others : List Property}
    (hp : Unmistakable properties) (h : canonicalText others = canonicalText properties) :
    sortByName others = sortByName properties := by
  have hperm := sortByName_perm properties
  have hsorted : Unmistakable (sortByName properties) :=
    ⟨hperm.length_eq ▸ hp.short, fun p hmem => hp.bare p (hperm.mem_iff.mp hmem)⟩
  exact hsorted.eq_of_sortedText (canonicalText_eq_iff.mp h)

/-- The text of several properties is also the text of one, whose type takes in the others. -/
theorem exists_single_reading {properties : List Property} (h : properties ≠ []) :
    ∃ p : Property, canonicalText [p] = canonicalText properties := by
  cases hs : sortByName properties with
  | nil =>
    have hperm := sortByName_perm properties
    rw [hs] at hperm
    exact absurd hperm.nil_eq.symm h
  | cons q rest =>
    let whole : Property :=
      ⟨q.name, String.ofList (q.type.toList ++ rest.flatMap fun q => '|' :: q.signature.toList),
        q.optional, q.readonly⟩
    have htext : sortedText [whole] = sortedText (q :: rest) := by
      simp [sortedText, Property.toList_signature, Property.marks, whole]
    exact ⟨whole, by rw [canonicalText_eq_iff, hs, sortByName_singleton, htext]⟩

theorem unmistakable_of_forall_perm {properties : List Property}
    (h : ∀ others, canonicalText others = canonicalText properties → others.Perm properties) :
    Unmistakable properties := by
  by_cases hempty : properties = []
  · subst properties
    exact ⟨Nat.zero_le 1, fun p hp => by cases hp⟩
  · obtain ⟨p, hp⟩ := exists_single_reading hempty
    obtain rfl := List.singleton_perm.mp (h [p] hp)
    refine ⟨Nat.le_refl 1, fun p' hp' => ?_⟩
    rw [List.mem_singleton.mp hp']
    apply Property.bare_of_forall_signature
    intro q hq
    have htext : canonicalText [q] = canonicalText [p] := by
      rw [canonicalText_eq_iff, sortByName_singleton, sortByName_singleton, sortedText_singleton,
        sortedText_singleton, hq]
    simpa using h [q] htext

end Readings

section Legible

/-- Whether every bar in a text has a blank after it, as in the union types that are printed. -/
def barsSpaced : List Char → Bool
  | [] => true
  | c :: rest => (c != '|' || rest.head? == some ' ') && barsSpaced rest

/-- A property whose end can be seen in a canonical text. -/
structure Property.Legible (p : Property) : Prop where
  name : ∀ c ∈ p.name.toList, c ≠ '?' ∧ c ≠ '!' ∧ c ≠ ':'
  start : p.name.toList.head? ≠ some ' '
  type : barsSpaced p.type.toList = true

/-- What can stand after a legible property: nothing, or a bar and another property. -/
def EndsProperty (rest : List Char) : Prop :=
  rest = [] ∨ ∃ c more, rest = '|' :: c :: more ∧ c ≠ ' '

theorem Property.Legible.signature_start {p : Property} (hp : p.Legible) :
    ∃ c rest, p.signature.toList = c :: rest ∧ c ≠ ' ' := by
  rw [p.toList_signature]
  cases hn : p.name.toList with
  | nil =>
    cases ho : p.optional <;> cases hr : p.readonly <;> simp [marks, ho, hr]
  | cons c rest =>
    have hstart := hp.start
    rw [hn] at hstart
    exact ⟨c, _, rfl, by simpa using hstart⟩

theorem endsProperty_flatMap {properties : List Property} (h : ∀ p ∈ properties, p.Legible) :
    EndsProperty (properties.flatMap fun q => '|' :: q.signature.toList) := by
  cases properties with
  | nil => exact Or.inl rfl
  | cons p rest =>
    obtain ⟨c, more, hsig, hc⟩ := (h p List.mem_cons_self).signature_start
    exact Or.inr ⟨c, _, by rw [List.flatMap_cons, hsig]; rfl, hc⟩

theorem barsSpaced_append_inj {s t u v : List Char} (hs : barsSpaced s = true)
    (ht : barsSpaced t = true) (hu : EndsProperty u) (hv : EndsProperty v)
    (h : s ++ u = t ++ v) : s = t ∧ u = v := by
  -- No type runs on into what ends a property: the bar there has no blank after it.
  have hstop {c : Char} {rest w w' : List Char} (hc : barsSpaced (c :: rest) = true)
      (hw : EndsProperty w) : w ≠ c :: rest ++ w' := by
    rintro rfl
    rcases hw with hw | ⟨d, more, hw, hd⟩
    · cases hw
    · obtain ⟨rfl, hrest⟩ := List.cons.inj hw
      cases rest with
      | nil => simp [barsSpaced] at hc
      | cons e rest =>
        obtain ⟨rfl, _⟩ := List.cons.inj hrest
        simp [barsSpaced, hd] at hc
  induction s generalizing t with
  | nil =>
    cases t with
    | nil => exact ⟨rfl, h⟩
    | cons c t => exact absurd h (hstop ht hu)
  | cons c s ih =>
    cases t with
    | nil => exact absurd h.symm (hstop hs hv)
    | cons d t =>
      obtain ⟨rfl, hrest⟩ := List.cons.inj h
      simp only [barsSpaced, Bool.and_eq_true] at hs ht
      obtain ⟨rfl, huv⟩ := ih hs.2 ht.2 hrest
      exact ⟨rfl, huv⟩

def IsMarker (c : Char) : Prop := c = '?' ∨ c = '!' ∨ c = ':'

/-- Two equal texts are cut alike at their first marker, whatever counts as one. -/
theorem append_marker_inj {P : Char → Prop} {x y s t : List Char} {c d : Char}
    (hx : ∀ e ∈ x, ¬P e) (hy : ∀ e ∈ y, ¬P e) (hc : P c) (hd : P d)
    (h : x ++ c :: s = y ++ d :: t) : x = y ∧ c :: s = d :: t := by
  induction x generalizing y with
  | nil =>
    cases y with
    | nil => exact ⟨rfl, h⟩
    | cons e y =>
      obtain ⟨rfl, _⟩ := List.cons.inj h
      exact absurd hc (hy c List.mem_cons_self)
  | cons e x ih =>
    cases y with
    | nil =>
      obtain ⟨rfl, _⟩ := List.cons.inj h
      exact absurd hd (hx e List.mem_cons_self)
    | cons f y =>
      obtain ⟨rfl, hrest⟩ := List.cons.inj h
      obtain ⟨rfl, hst⟩ := ih (fun a ha => hx a (List.mem_cons_of_mem _ ha))
        (fun a ha => hy a (List.mem_cons_of_mem _ ha)) hrest
      exact ⟨rfl, hst⟩

namespace Property

theorem exists_marker (p : Property) (rest : List Char) :
    ∃ c more, p.marks ++ ':' :: rest = c :: more ∧ IsMarker c := by
  cases ho : p.optional <;> cases hr : p.readonly <;> simp [marks, ho, hr, IsMarker]

theorem marks_append_inj {p q : Property} {u v : List Char}
    (h : p.marks ++ ':' :: u = q.marks ++ ':' :: v) :
    p.optional = q.optional ∧ p.readonly = q.readonly ∧ u = v := by
  simp only [marks] at h
  cases hp : p.optional <;> cases hp' : p.readonly <;> cases hq : q.optional <;>
    cases hq' : q.readonly <;> simp [hp, hp', hq, hq'] at h ⊢ <;> exact h

theorem Legible.signature_append_inj {p q : Property} (hp : p.Legible) (hq : q.Legible)
    {u v : List Char} (hu : EndsProperty u) (hv : EndsProperty v)
    (h : p.signature.toList ++ u = q.signature.toList ++ v) : p = q ∧ u = v := by
  have hclean {p : Property} (hp : p.Legible) : ∀ c ∈ p.name.toList, ¬IsMarker c := by
    intro c hc
    simpa [IsMarker] using hp.name c hc
  simp only [toList_signature, List.append_assoc, List.cons_append] at h
  obtain ⟨c, more, hpmark, hc⟩ := p.exists_marker (p.type.toList ++ u)
  obtain ⟨d, more', hqmark, hd⟩ := q.exists_marker (q.type.toList ++ v)
  rw [hpmark, hqmark] at h
  obtain ⟨hname, hrest⟩ := append_marker_inj (hclean hp) (hclean hq) hc hd h
  rw [← hpmark, ← hqmark] at hrest
  obtain ⟨hoptional, hreadonly, htail⟩ := marks_append_inj hrest
  obtain ⟨htype, huv⟩ := barsSpaced_append_inj hp.type hq.type hu hv htail
  exact ⟨ext_toList hname hoptional hreadonly htype, huv⟩

end Property

theorem flatMap_signature_inj {properties others : List Property}
    (hp : ∀ p ∈ properties, p.Legible) (hq : ∀ q ∈ others, q.Legible)
    (h : (properties.flatMap fun p => '|' :: p.signature.toList) =
      others.flatMap fun q => '|' :: q.signature.toList) : properties = others := by
  induction properties generalizing others with
  | nil =>
    cases others with
    | nil => rfl
    | cons q others => simp at h
  | cons p properties ih =>
    cases others with
    | nil => simp at h
    | cons q others =>
      obtain ⟨hp, hps⟩ := List.forall_mem_cons.mp hp
      obtain ⟨hq, hqs⟩ := List.forall_mem_cons.mp hq
      obtain ⟨rfl, hrest⟩ := hp.signature_append_inj hq (endsProperty_flatMap hps)
        (endsProperty_flatMap hqs) (List.cons.inj h).2
      rw [ih hps hqs hrest]

theorem sortedText_inj {properties others : List Property}
    (hp : ∀ p ∈ properties, p.Legible) (hq : ∀ q ∈ others, q.Legible)
    (h : sortedText properties = sortedText others) : properties = others := by
  apply flatMap_signature_inj hp hq
  cases properties with
  | nil =>
    cases others with
    | nil => rfl
    | cons q others => simp [sortedText, q.toList_signature] at h
  | cons p properties =>
    cases others with
    | nil => simp [sortedText, p.toList_signature] at h
    | cons q others => exact congrArg (List.cons '|') h

theorem sortByName_eq_of_legible {properties others : List Property}
    (hp : ∀ p ∈ properties, p.Legible) (hq : ∀ q ∈ others, q.Legible)
    (h : canonicalText others = canonicalText properties) :
    sortByName others = sortByName properties :=
  sortedText_inj (fun q hmem => hq q ((sortByName_perm others).mem_iff.mp hmem))
    (fun p hmem => hp p ((sortByName_perm properties).mem_iff.mp hmem))
    (canonicalText_eq_iff.mp h)

end Legible

namespace Registry

theorem register_shape_added {r : Registry} {properties : List Property} (name : String)
    (h : r.findByHash? (shapeHash properties) = none) :
    ∃ n, r.register (.ofShape name properties) =
      (⟨r.interfaces ++ [.ofShape n properties]⟩, .ofShape n properties) := by
  by_cases hfree : name ∈ r.names
  · have hc : r.contains name = true := contains_iff_mem_names.mpr hfree
    exact ⟨r.nextName, by simp only [register, Interface.ofShape, h, hc, ↓reduceIte]⟩
  · exact ⟨name, register_shape_new h hfree⟩

/-- Every interface was made for one of the shapes and is held under the hash of that shape. -/
def MadeFrom (r : Registry) (shapes : List (List Property)) : Prop :=
  ∀ d ∈ r.declared, d.2.1 ∈ shapes ∧ d.2.2 = shapeHash d.2.1

theorem MadeFrom.register {r : Registry} {shapes : List (List Property)} (hr : r.MadeFrom shapes)
    (name : String) (properties : List Property) :
    (r.register (.ofShape name properties)).1.MadeFrom (shapes ++ [properties]) := by
  have hkept : r.MadeFrom (shapes ++ [properties]) := fun d hd =>
    ⟨List.mem_append_left _ (hr d hd).1, (hr d hd).2⟩
  cases hfound : r.findByHash? (shapeHash properties) with
  | some known =>
    rw [register_shape_known name hfound]
    intro d hd
    rw [declared_countUse] at hd
    exact hkept d hd
  | none =>
    obtain ⟨n, hn⟩ := register_shape_added name hfound
    rw [hn]
    intro d hd
    rw [declared_append] at hd
    rcases List.mem_append.mp hd with hd | hd
    · exact hkept d hd
    · rw [List.mem_singleton.mp hd]
      exact ⟨List.mem_append_right _ List.mem_cons_self, by simp only [Interface.ofShape]⟩

/-- The registry after shapes were registered from the left, each with the name it was given. -/
def ofShapes (entries : List (String × List Property)) : Registry :=
  entries.foldl (fun r e => (r.register (.ofShape e.1 e.2)).1) {}

theorem madeFrom_ofShapes (entries : List (String × List Property)) :
    (ofShapes entries).MadeFrom (entries.map Prod.snd) := by
  have hrun (r : Registry) (shapes : List (List Property)) (hr : r.MadeFrom shapes) :
      (entries.foldl (fun r e => (r.register (.ofShape e.1 e.2)).1) r).MadeFrom
        (shapes ++ entries.map Prod.snd) := by
    induction entries generalizing r shapes with
    | nil => simpa using hr
    | cons e rest ih => simpa using ih _ _ (hr.register e.1 e.2)
  exact hrun {} [] (fun d hd => by cases hd)

/-- The interface that is held for a shape was made for it or for an earlier one of its hash. -/
theorem MadeFrom.held {r : Registry} {shapes : List (List Property)} (hr : r.MadeFrom shapes)
    (name : String) (properties : List Property) :
    (r.register (.ofShape name properties)).2.properties ∈ properties :: shapes ∧
      shapeHash (r.register (.ofShape name properties)).2.properties = shapeHash properties := by
  cases hfound : r.findByHash? (shapeHash properties) with
  | some known =>
    rw [register_shape_known name hfound]
    obtain ⟨hmem, hhash⟩ := mem_of_findByHash? hfound
    obtain ⟨hshape, hown⟩ := hr _ (List.mem_map_of_mem hmem)
    exact ⟨List.mem_cons_of_mem _ hshape, hown.symm.trans hhash⟩
  | none =>
    obtain ⟨n, hn⟩ := register_shape_added name hfound
    rw [hn]
    exact ⟨List.mem_cons_self, rfl⟩

theorem held_of_canonicalText {properties others : List Property}
    (h : canonicalText others = canonicalText properties) (first second : String) :
    ((ofShapes [(first, others)]).register (.ofShape second properties)).2.properties =
      others := by
  have hhash : shapeHash others = shapeHash properties := congrArg Sha256.hex h
  have hnew : ({} : Registry).findByHash? (shapeHash others) = none := rfl
  obtain ⟨n, hn⟩ := register_shape_added first hnew
  have hheld : ofShapes [(first, others)] = ⟨[.ofShape n others]⟩ := congrArg Prod.fst hn
  have hfound : (ofShapes [(first, others)]).findByHash? (shapeHash properties) =
      some (.ofShape n others) := by
    rw [hheld, findByHash?, List.find?_cons_of_pos]
    simpa only [Interface.ofShape, beq_iff_eq] using hhash
  rw [register_shape_known second hfound]
  simp only [Interface.ofShape, Interface.used]

/-- After the given shapes, a shape gets an interface with its own properties in some order, or the
two texts are a collision of the hash. -/
def Identifies (entries : List (String × List Property)) (properties : List Property) : Prop :=
  ∀ name, let held := ((ofShapes entries).register (.ofShape name properties)).2.properties
    held.Perm properties ∨
      canonicalText held ≠ canonicalText properties ∧
        Sha256.hex (canonicalText held) = Sha256.hex (canonicalText properties)

theorem identifies_of_forall_perm {entries : List (String × List Property)}
    {properties : List Property}
    (h : ∀ shape ∈ properties :: entries.map Prod.snd,
      canonicalText shape = canonicalText properties → shape.Perm properties) :
    Identifies entries properties := by
  intro name
  obtain ⟨hmem, hhash⟩ := (madeFrom_ofShapes entries).held name properties
  by_cases htext : canonicalText
      ((ofShapes entries).register (.ofShape name properties)).2.properties =
        canonicalText properties
  · exact Or.inl (h _ hmem htext)
  · exact Or.inr ⟨htext, hhash⟩

theorem perm_of_identifies {properties others : List Property} (first : String)
    (h : Identifies [(first, others)] properties)
    (htext : canonicalText others = canonicalText properties) : others.Perm properties := by
  have hheld := h ""
  simp only [held_of_canonicalText htext] at hheld
  rcases hheld with hperm | ⟨hne, _⟩
  · exact hperm
  · exact absurd htext hne

end Registry

/-- Only unmistakable shapes are told apart from all others, by their texts as well as by a
registry. Legible shapes are told apart from each other. -/
theorem shape_identified_iff (properties : List Property) :
    ((∀ others, canonicalText others = canonicalText properties →
      sortByName others = sortByName properties) ↔ Unmistakable properties) ∧
    ((∀ entries, Registry.Identifies entries properties) ↔ Unmistakable properties) ∧
    ∀ entries, (∀ shape ∈ properties :: entries.map Prod.snd, ∀ p ∈ shape, p.Legible) →
      (∀ others ∈ entries.map Prod.snd, canonicalText others = canonicalText properties →
        sortByName others = sortByName properties) ∧
      Registry.Identifies entries properties := by
  refine ⟨⟨?_, ?_⟩, ⟨?_, ?_⟩, ?_⟩
  · intro h
    exact unmistakable_of_forall_perm fun others htext => perm_of_sortByName_eq (h others htext)
  · intro hp others htext
    exact hp.sortByName_eq htext
  · intro h
    exact unmistakable_of_forall_perm fun others htext =>
      Registry.perm_of_identifies "" (h [("", others)]) htext
  · intro hp entries
    exact Registry.identifies_of_forall_perm fun shape _ htext =>
      perm_of_sortByName_eq (hp.sortByName_eq htext)
  · intro entries hlegible
    have hread : ∀ shape ∈ properties :: entries.map Prod.snd,
        canonicalText shape = canonicalText properties →
          sortByName shape = sortByName properties := fun shape hshape htext =>
      sortByName_eq_of_legible (hlegible properties List.mem_cons_self) (hlegible shape hshape)
        htext
    refine ⟨fun others hmem => hread others (List.mem_cons_of_mem _ hmem), ?_⟩
    exact Registry.identifies_of_forall_perm fun shape hshape htext =>
      perm_of_sortByName_eq (hread shape hshape htext)

def pairShape : List Property := [⟨"a", "string", true, false⟩, ⟨"b", "number | null", false, false⟩]

theorem pairShape_legible : ∀ p ∈ pairShape, p.Legible := by
  intro p hp
  rcases List.mem_pair.mp hp with rfl | rfl
  · exact ⟨by simp, by simp, by decide⟩
  · exact ⟨by simp, by simp, by decide⟩

theorem shape_identified_pair :
    (∀ p ∈ pairShape, p.Legible) ∧ ¬Unmistakable pairShape ∧
      Registry.Identifies [("Pair", pairShape)] pairShape :=
  ⟨pairShape_legible, fun h => absurd h.short (by decide),
    ((shape_identified_iff pairShape).2.2 [("Pair", pairShape)]
      (by simpa using pairShape_legible)).2⟩

def numberShape (names : List String) : List Property :=
  names.map fun name => ⟨name, "number", false, false⟩

/-- The text of five numbers is also that of four, one of them under a name with a colon. -/
theorem shapes_share_interface :
    let five := numberShape ["a", "b", "c", "d", "e"]
    let four := numberShape ["a", "b", "c", "d:number|e"]
    canonicalText five = canonicalText four ∧ sortByName five ≠ sortByName four ∧
      ((Registry.ofShapes [("Five", five)]).register (.ofShape "Four" four)).2.properties = five ∧
      ¬five.Perm four := by
  intro five four
  have hfive : sortByName five = five := List.mergeSort_of_pairwise (by decide)
  have hfour : sortByName four = four := List.mergeSort_of_pairwise (by decide)
  have htext : canonicalText five = canonicalText four := by
    rw [canonicalText_eq_iff, hfive, hfour]
    decide
  have hheld := Registry.held_of_canonicalText htext "Five" "Four"
  have hlength : five.length ≠ four.length := by decide
  refine ⟨htext, ?_, hheld, fun h => hlength h.length_eq⟩
  rw [hfive, hfour]
  exact fun h => hlength (congrArg List.length h)

end ScriptTyping
