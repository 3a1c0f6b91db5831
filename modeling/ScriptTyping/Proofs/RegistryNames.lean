import Mathlib.Data.List.Nodup
import ScriptTyping.Proofs.FreeNames

/-! # Names and hashes of a registry

Registering an interface either counts a use of the one interface with its hash or appends it under
a free name, so names and hashes stay distinct and what is declared once stays declared.
-/
namespace ScriptTyping

namespace Registry

theorem nextName_ne_empty (r : Registry) : r.nextName ≠ "" := by
  intro h
  have hlist := congrArg String.toList h
  simp [nextName, Interface.numbered] at hlist

/-- The proposed name depends on the names held and not on their uses. -/
theorem nextName_congr {r s : Registry} (h : r.names = s.names) : r.nextName = s.nextName := by
  have hsize : r.size = s.size := by simpa [names, size] using congrArg List.length h
  simp only [nextName, nextNumber, contains, hsize, h]

theorem mem_of_findByHash? {r : Registry} {hash : String} {known : Interface}
    (h : r.findByHash? hash = some known) : known ∈ r.interfaces ∧ known.hash = hash := by
  refine ⟨List.mem_of_find?_eq_some h, ?_⟩
  simpa using List.find?_some h

theorem hash_ne_of_findByHash?_none {r : Registry} {hash : String}
    (h : r.findByHash? hash = none) : ∀ i ∈ r.interfaces, i.hash ≠ hash := by
  intro i hi
  simpa using List.find?_eq_none.mp h i hi

theorem register_known {r : Registry} {i known : Interface}
    (h : r.findByHash? i.hash = some known) : r.register i = (r.countUse i.hash, known.used) := by
  simp only [register, h]

/-- A new shape gets the name that it asks for or, if that is taken, the proposed one. -/
theorem register_new {r : Registry} {i : Interface} (h : r.findByHash? i.hash = none) :
    ∃ name, name ∉ r.names ∧ (name = i.name ∨ name = r.nextName) ∧
      r.register i = (⟨r.interfaces ++ [{ i with name }]⟩, { i with name }) := by
  by_cases htaken : i.name ∈ r.names
  · have hc : r.contains i.name = true := contains_iff_mem_names.mpr htaken
    refine ⟨r.nextName, r.nextName_notMem_names, .inr rfl, ?_⟩
    simp only [register, h, hc, ↓reduceIte]
  · have hc : r.contains i.name = false := by simpa [contains] using htaken
    refine ⟨i.name, htaken, .inl rfl, ?_⟩
    simp only [register, h, hc, Bool.false_eq_true, ↓reduceIte]

theorem register_shape_known {r : Registry} {properties : List Property} {known : Interface}
    (name : String) (h : r.findByHash? (shapeHash properties) = some known) :
    r.register (.ofShape name properties) = (r.countUse (shapeHash properties), known.used) :=
  register_known h

theorem register_shape_new {r : Registry} {name : String} {properties : List Property}
    (h : r.findByHash? (shapeHash properties) = none) (hfree : name ∉ r.names) :
    r.register (.ofShape name properties) =
      (⟨r.interfaces ++ [.ofShape name properties]⟩, .ofShape name properties) := by
  have hc : r.contains name = false := by simpa [contains] using hfree
  simp only [register, Interface.ofShape, h, hc, Bool.false_eq_true, ↓reduceIte]

/-- What an interface declares, whatever its uses. -/
def declared (r : Registry) : List (String × List Property × String) :=
  r.interfaces.map fun i => (i.name, i.properties, i.hash)

@[simp] theorem declared_countUse (r : Registry) (hash : String) :
    (r.countUse hash).declared = r.declared := by
  simp only [declared, countUse, List.map_map, List.map_inj_left, Function.comp_apply]
  intro i _
  split <;> rfl

@[simp] theorem declared_append (r : Registry) (i : Interface) :
    declared ⟨r.interfaces ++ [i]⟩ = r.declared ++ [(i.name, i.properties, i.hash)] := by
  simp [declared]

theorem register_declared_grows (r : Registry) (i : Interface) :
    r.declared <+: (r.register i).1.declared := by
  cases hfound : r.findByHash? i.hash with
  | some known =>
    have hsame : (r.register i).1.declared = r.declared := by
      rw [register_known hfound, declared_countUse]
    exact hsame ▸ List.prefix_rfl
  | none =>
    obtain ⟨name, _, _, hnew⟩ := register_new hfound
    rw [hnew, declared_append]
    exact List.prefix_append _ _

theorem names_eq_declared (r : Registry) : r.names = r.declared.map Prod.fst := by
  simp [names, declared, Function.comp_def]

theorem names_countUse (r : Registry) (hash : String) : (r.countUse hash).names = r.names := by
  simp only [names_eq_declared, declared_countUse]

theorem exists_of_declared {r s : Registry} (h : r.declared <+: s.declared) {i : Interface}
    (hi : i ∈ r.interfaces) :
    ∃ j ∈ s.interfaces, j.name = i.name ∧ j.properties = i.properties ∧ j.hash = i.hash := by
  have hmem : (i.name, i.properties, i.hash) ∈ s.declared :=
    h.subset (List.mem_map.mpr ⟨i, hi, rfl⟩)
  obtain ⟨j, hj, he⟩ := List.mem_map.mp hmem
  exact ⟨j, hj, by simpa using he⟩

def Has (r : Registry) (name hash : String) : Prop :=
  ∃ i ∈ r.interfaces, i.name = name ∧ i.hash = hash

theorem Has.mono {r s : Registry} (h : r.declared <+: s.declared) {name hash : String}
    (hr : r.Has name hash) : s.Has name hash := by
  obtain ⟨i, hi, hname, hhash⟩ := hr
  obtain ⟨j, hj, hjname, _, hjhash⟩ := exists_of_declared h hi
  exact ⟨j, hj, hjname.trans hname, hjhash.trans hhash⟩

def hashes (r : Registry) : List String := r.interfaces.map Interface.hash

theorem hashes_eq_declared (r : Registry) : r.hashes = r.declared.map fun d => d.2.2 := by
  simp [hashes, declared, Function.comp_def]

structure Distinct (r : Registry) : Prop where
  names : r.names.Nodup
  hashes : r.hashes.Nodup

theorem Distinct.empty : Distinct {} := ⟨List.nodup_nil, List.nodup_nil⟩

theorem Distinct.countUse {r : Registry} (h : r.Distinct) (hash : String) :
    (r.countUse hash).Distinct := by
  constructor
  · rw [names_countUse]
    exact h.names
  · rw [hashes_eq_declared, declared_countUse, ← hashes_eq_declared]
    exact h.hashes

theorem Distinct.append {r : Registry} (h : r.Distinct) {i : Interface} (hname : i.name ∉ r.names)
    (hhash : ∀ j ∈ r.interfaces, j.hash ≠ i.hash) : Distinct ⟨r.interfaces ++ [i]⟩ := by
  constructor
  · have hn : Registry.names ⟨r.interfaces ++ [i]⟩ = r.names ++ [i.name] := by
      simp [Registry.names]
    rw [hn]
    exact h.names.append (List.nodup_singleton _) (by simpa using hname)
  · have hh : Registry.hashes ⟨r.interfaces ++ [i]⟩ = r.hashes ++ [i.hash] := by
      simp [Registry.hashes]
    rw [hh]
    apply h.hashes.append (List.nodup_singleton _)
    simpa [Registry.hashes] using hhash

theorem Distinct.register {r : Registry} (h : r.Distinct) (i : Interface) :
    (r.register i).1.Distinct := by
  cases hfound : r.findByHash? i.hash with
  | some known =>
    rw [register_known hfound]
    exact h.countUse i.hash
  | none =>
    obtain ⟨name, hfree, _, hnew⟩ := register_new hfound
    rw [hnew]
    exact h.append hfree (hash_ne_of_findByHash?_none hfound)

theorem Distinct.eq_of_name {r : Registry} (h : r.Distinct) {i j : Interface}
    (hi : i ∈ r.interfaces) (hj : j ∈ r.interfaces) (he : i.name = j.name) : i = j :=
  List.inj_on_of_nodup_map h.names hi hj he

theorem Distinct.eq_of_hash {r : Registry} (h : r.Distinct) {i j : Interface}
    (hi : i ∈ r.interfaces) (hj : j ∈ r.interfaces) (he : i.hash = j.hash) : i = j :=
  List.inj_on_of_nodup_map h.hashes hi hj he

theorem Distinct.get?_eq_some_iff {r : Registry} (h : r.Distinct) {name : String} {i : Interface} :
    r.get? name = some i ↔ i ∈ r.interfaces ∧ i.name = name := by
  constructor
  · intro hi
    exact ⟨List.mem_of_find?_eq_some hi, by simpa using List.find?_some hi⟩
  · rintro ⟨hi, rfl⟩
    have hsome : (r.get? i.name).isSome := List.find?_isSome.mpr ⟨i, hi, by simp⟩
    obtain ⟨j, hj⟩ := Option.isSome_iff_exists.mp hsome
    have hname : j.name = i.name := by simpa using List.find?_some hj
    rw [hj, h.eq_of_name (List.mem_of_find?_eq_some hj) hi hname]

theorem Distinct.findByHash?_eq_some_iff {r : Registry} (h : r.Distinct) {hash : String}
    {i : Interface} : r.findByHash? hash = some i ↔ i ∈ r.interfaces ∧ i.hash = hash := by
  constructor
  · exact mem_of_findByHash?
  · rintro ⟨hi, rfl⟩
    have hsome : (r.findByHash? i.hash).isSome := List.find?_isSome.mpr ⟨i, hi, by simp⟩
    obtain ⟨j, hj⟩ := Option.isSome_iff_exists.mp hsome
    obtain ⟨hmem, hhash⟩ := mem_of_findByHash? hj
    rw [hj, h.eq_of_hash hmem hi hhash]

/-- The interface that a call gives holds the hash of the call from then on. -/
theorem Distinct.register_held {r : Registry} (h : r.Distinct) (i : Interface) :
    (r.register i).1.findByHash? i.hash = some (r.register i).2 := by
  rw [(h.register i).findByHash?_eq_some_iff]
  cases hfound : r.findByHash? i.hash with
  | some known =>
    obtain ⟨hmem, hhash⟩ := mem_of_findByHash? hfound
    rw [register_known hfound]
    exact ⟨List.mem_map.mpr ⟨known, hmem, by simp [hhash]⟩, hhash⟩
  | none =>
    obtain ⟨name, _, _, hnew⟩ := register_new hfound
    rw [hnew]
    exact ⟨by simp, rfl⟩

theorem Distinct.filter_name {r : Registry} (h : r.Distinct) {i : Interface}
    (hi : i ∈ r.interfaces) : (r.interfaces.filter fun j => j.name == i.name) = [i] := by
  have hall : ∀ j ∈ r.interfaces.filter fun j => j.name == i.name, j = i := by
    intro j hj
    obtain ⟨hmem, hname⟩ := List.mem_filter.mp hj
    exact h.eq_of_name hmem hi (by simpa using hname)
  have hnodup : (r.interfaces.filter fun j => j.name == i.name).Nodup :=
    h.names.of_map.filter _
  have hmem : i ∈ r.interfaces.filter fun j => j.name == i.name :=
    List.mem_filter.mpr ⟨hi, by simp⟩
  by_contra hne
  rcases (hnodup.ne_singleton_iff i).mp hne with hnil | ⟨j, hj, hji⟩
  · rw [hnil] at hmem
    cases hmem
  · exact hji (hall j hj)

end Registry

end ScriptTyping
