import ScriptTyping.Proofs.RegistryCounts
import ScriptTyping.Proofs.Table

/-! # Registries in two tables

Interfaces are stored in one table by their names, and a second table leads from a hash to a name.
A hash is looked up through both, and each call writes to one of them or to both. The tables stay
inverse to each other on every run: they are the two views of the list of interfaces, and a registry
of tables answers as the list does.
-/
namespace ScriptTyping

/-- A registry as it is stored. -/
structure Tables where
  definitions : Table Interface := {}
  hashIndex : Table String := {}

namespace Tables

def get? (t : Tables) (name : String) : Option Interface := t.definitions.get? name

def contains (t : Tables) (name : String) : Bool := (t.definitions.get? name).isSome

/-- The entry that the index leads to from a hash. -/
def locate? (t : Tables) (hash : String) : Option (String × Interface) :=
  (t.hashIndex.get? hash).bind fun name => (t.definitions.get? name).map fun i => (name, i)

def findByHash? (t : Tables) (hash : String) : Option Interface := (t.locate? hash).map Prod.snd

def nextName (t : Tables) : String :=
  Interface.numbered (Interface.searchFrom t.definitions.keys (t.definitions.keys.length + 1))

/-- Counts a use of the interface that the index leads to, in its place. Without one, the interface
is stored under its own name or the next free one, and the index leads to it from now on. -/
def register (t : Tables) (i : Interface) : Tables × Interface :=
  match t.locate? i.hash with
  | some (name, known) =>
    ({ t with definitions := t.definitions.set name known.used }, known.used)
  | none =>
    let named := if t.contains i.name then { i with name := t.nextName } else i
    ({ definitions := t.definitions.set named.name named
       hashIndex := t.hashIndex.set named.hash named.name }, named)

theorem register_known {t : Tables} {i known : Interface} {name : String}
    (h : t.locate? i.hash = some (name, known)) :
    t.register i = ({ t with definitions := t.definitions.set name known.used }, known.used) := by
  simp only [register, h]

theorem register_new {t : Tables} {i named : Interface} (h : t.locate? i.hash = none)
    (hnamed : (if t.contains i.name then { i with name := t.nextName } else i) = named) :
    t.register i =
      ({ definitions := t.definitions.set named.name named
         hashIndex := t.hashIndex.set named.hash named.name }, named) := by
  simp only [register, h, hnamed]

/-- The tables after calls, the first of them made first. -/
def registerAll (t : Tables) (calls : List Interface) : Tables :=
  calls.foldl (fun t call => (t.register call).1) t

/-- The two views of a list of interfaces. -/
def ofRegistry (r : Registry) : Tables where
  definitions := .ofItems r.interfaces Interface.name id
  hashIndex := .ofItems r.interfaces Interface.hash Interface.name

section Simulation

variable (r : Registry)

theorem get?_ofRegistry (name : String) : (ofRegistry r).get? name = r.get? name := by
  rw [get?, ofRegistry, Table.get?_ofItems, Option.map_id, id, Registry.get?]

theorem contains_ofRegistry (name : String) : (ofRegistry r).contains name = r.contains name := by
  have hget : (ofRegistry r).definitions.get? name = r.get? name := get?_ofRegistry r name
  rw [contains, hget, Bool.eq_iff_iff, Registry.contains_iff_mem_names]
  simp [Registry.get?, Registry.names]

theorem nextName_ofRegistry : (ofRegistry r).nextName = r.nextName := by
  have hkeys : (ofRegistry r).definitions.keys = r.names :=
    Table.keys_ofItems r.interfaces Interface.name id
  rw [nextName, hkeys, r.length_names, Registry.nextName, r.nextNumber_eq_searchFrom,
    Registry.searchFrom]

variable {r}

/-- Through both tables a hash leads to the interface that holds it, under its own name. -/
theorem locate?_ofRegistry (h : r.Distinct) (hash : String) :
    (ofRegistry r).locate? hash = (r.findByHash? hash).map fun i => (i.name, i) := by
  have hindex : (ofRegistry r).hashIndex.get? hash = (r.findByHash? hash).map Interface.name :=
    Table.get?_ofItems r.interfaces Interface.hash Interface.name hash
  rw [locate?, hindex]
  cases hfound : r.findByHash? hash with
  | none => rfl
  | some i =>
    have hmem := (Registry.mem_of_findByHash? hfound).1
    have hget : (ofRegistry r).definitions.get? i.name = some i :=
      (get?_ofRegistry r i.name).trans (h.get?_eq_some_iff.mpr ⟨hmem, rfl⟩)
    simp only [Option.map_some, Option.bind_some, hget]

theorem findByHash?_ofRegistry (h : r.Distinct) (hash : String) :
    (ofRegistry r).findByHash? hash = r.findByHash? hash := by
  rw [findByHash?, locate?_ofRegistry h]
  cases r.findByHash? hash <;> rfl

/-- The interface is the only one under its name and the only one with its hash, so a use that is
counted under the name is one that is counted for the hash. -/
theorem ofRegistry_countUse (h : r.Distinct) {known : Interface} (hknown : known ∈ r.interfaces) :
    ofRegistry (r.countUse known.hash) =
      { ofRegistry r with
        definitions := (ofRegistry r).definitions.set known.name known.used } := by
  have hkey : known.name ∈ (ofRegistry r).definitions.keys := by
    rw [ofRegistry, Table.keys_ofItems]
    exact List.mem_map_of_mem hknown
  rw [Table.set_of_mem hkey]
  simp only [ofRegistry, Table.ofItems, Registry.countUse, List.map_map, Tables.mk.injEq,
    Table.mk.injEq, List.map_inj_left, Function.comp_apply, id]
  constructor
  · intro i hi
    by_cases hhash : i.hash = known.hash
    · obtain rfl := h.eq_of_hash hi hknown hhash
      simp [Interface.used]
    · have hname : i.name ≠ known.name := fun hname =>
        hhash (congrArg Interface.hash (h.eq_of_name hi hknown hname))
      simp [hhash, hname]
  · intro i hi
    split <;> rfl

theorem ofRegistry_append {i : Interface} (hname : i.name ∉ r.names)
    (hhash : i.hash ∉ r.hashes) :
    ofRegistry ⟨r.interfaces ++ [i]⟩ =
      { definitions := (ofRegistry r).definitions.set i.name i
        hashIndex := (ofRegistry r).hashIndex.set i.hash i.name } := by
  have hdefinitions := Table.set_ofItems_append r.interfaces Interface.name id hname
  have hindex := Table.set_ofItems_append r.interfaces Interface.hash Interface.name hhash
  simp only [ofRegistry, id] at hdefinitions hindex ⊢
  rw [hdefinitions, hindex]

/-- One call on the tables does what it does on the list. -/
theorem register_ofRegistry (h : r.Distinct) (i : Interface) :
    (ofRegistry r).register i = (ofRegistry (r.register i).1, (r.register i).2) := by
  have hlocate := locate?_ofRegistry h i.hash
  cases hfound : r.findByHash? i.hash with
  | some known =>
    obtain ⟨hmem, hhash⟩ := Registry.mem_of_findByHash? hfound
    rw [hfound] at hlocate
    rw [register_known hlocate, Registry.register_known hfound, ← hhash, ofRegistry_countUse h hmem]
  | none =>
    obtain ⟨name, hfree, -, hnew⟩ := Registry.register_new hfound
    have hnamed : (if (ofRegistry r).contains i.name then
        { i with name := (ofRegistry r).nextName } else i) = { i with name } := by
      have hreply : (r.register i).2 = { i with name } := by rw [hnew]
      rw [contains_ofRegistry, nextName_ofRegistry, ← hreply]
      simp only [Registry.register, hfound]
    have happend := ofRegistry_append (i := { i with name }) hfree
      (Registry.findByHash?_eq_none_iff.mp hfound)
    rw [hfound] at hlocate
    rw [register_new hlocate hnamed, hnew, happend]

theorem registerAll_ofRegistry (h : r.Distinct) (calls : List Interface) :
    (ofRegistry r).registerAll calls = ofRegistry (r.registerAll calls) := by
  induction calls generalizing r with
  | nil => rfl
  | cons call rest ih =>
    have hstep : ((ofRegistry r).register call).1 = ofRegistry (r.register call).1 := by
      rw [register_ofRegistry h]
    calc (ofRegistry r).registerAll (call :: rest)
        = ((ofRegistry r).register call).1.registerAll rest := rfl
      _ = ofRegistry ((r.register call).1.registerAll rest) := by rw [hstep, ih (h.register call)]

end Simulation

/-- The tables are the tally of the calls, and inverse to each other. -/
structure Tally (t : Tables) (calls : List Interface) : Prop where
  /-- One interface for each hash, in the order in which the hashes came up. -/
  hashes : t.definitions.values.map Interface.hash = (calls.map Interface.hash).eraseDups
  stored : t.definitions.entries = t.definitions.values.map fun i => (i.name, i)
  keys : t.definitions.keys.Nodup
  inverse : ∀ hash name, t.hashIndex.get? hash = some name ↔
    ∃ i, t.definitions.get? name = some i ∧ i.hash = hash
  first : ∀ i ∈ t.definitions.values, ∃ call, (calls.find? fun c => c.hash == i.hash) = some call ∧
    i.properties = call.properties ∧ (i.name = call.name ∨ ∃ n, i.name = Interface.numbered n)
  usage : ∀ i ∈ t.definitions.values, i.usageCount = (calls.map Interface.hash).count i.hash

theorem values_ofRegistry (r : Registry) : (ofRegistry r).definitions.values = r.interfaces := by
  simp [ofRegistry, Table.ofItems, Table.values, Function.comp_def]

theorem Tally.ofRegistry {r : Registry} {calls : List Interface} (h : r.Counts calls) :
    (ofRegistry r).Tally calls where
  hashes := by
    rw [values_ofRegistry]
    exact h.hashes
  stored := by
    rw [values_ofRegistry]
    rfl
  keys := by
    rw [Tables.ofRegistry, Table.keys_ofItems]
    exact h.distinct.names
  inverse hash name := by
    have hindex : (Tables.ofRegistry r).hashIndex.get? hash =
        (r.findByHash? hash).map Interface.name :=
      Table.get?_ofItems r.interfaces Interface.hash Interface.name hash
    have hget : (Tables.ofRegistry r).definitions.get? name = r.get? name := get?_ofRegistry r name
    rw [hindex, hget, Option.map_eq_some_iff]
    simp only [h.distinct.findByHash?_eq_some_iff, h.distinct.get?_eq_some_iff]
    tauto
  first := by
    rw [values_ofRegistry]
    exact h.first
  usage := by
    rw [values_ofRegistry]
    exact h.usage

end Tables

/-- After any calls on empty tables, these are the tally of the calls. They are the two views of the
registry that the same calls fill. An interface is found by its name and by its hash, and the one
that a call gave still holds the hash of the call. -/
theorem registry_counts_calls (calls : List Interface) (h : ∀ call ∈ calls, call.usageCount = 1) :
    let t := Tables.registerAll {} calls
    t = Tables.ofRegistry (Registry.registerAll {} calls) ∧
    t.Tally calls ∧
    (∀ i ∈ t.definitions.values, t.get? i.name = some i) ∧
    (∀ hash i, t.findByHash? hash = some i ↔ i ∈ t.definitions.values ∧ i.hash = hash) ∧
    (∀ hash, t.findByHash? hash = none ↔ ∀ call ∈ calls, call.hash ≠ hash) ∧
    ∀ before call after, calls = before ++ call :: after →
      let held := ((Tables.registerAll {} before).register call).2
      (Tables.registerAll {} (before ++ [call])).findByHash? call.hash = some held ∧
      ∃ i, t.findByHash? call.hash = some i ∧ i.name = held.name ∧
        i.properties = held.properties := by
  intro t
  have hviews : ∀ calls, Tables.registerAll {} calls =
      Tables.ofRegistry (Registry.registerAll {} calls) :=
    Tables.registerAll_ofRegistry .empty
  have hcounts : (Registry.registerAll {} calls).Counts calls :=
    Registry.Counts.empty.registerAll h
  have ht : t = Tables.ofRegistry (Registry.registerAll {} calls) := hviews calls
  have hdistinct : ∀ calls, (Registry.registerAll {} calls).Distinct :=
    Registry.registerAll_distinct .empty
  rw [ht, Tables.values_ofRegistry]
  refine ⟨rfl, .ofRegistry hcounts, ?_, ?_, ?_, ?_⟩
  · intro i hi
    rw [Tables.get?_ofRegistry]
    exact hcounts.distinct.get?_eq_some_iff.mpr ⟨hi, rfl⟩
  · intro hash i
    rw [Tables.findByHash?_ofRegistry hcounts.distinct]
    exact hcounts.distinct.findByHash?_eq_some_iff
  · intro hash
    rw [Tables.findByHash?_ofRegistry hcounts.distinct, Registry.findByHash?_eq_none_iff,
      hcounts.mem_hashes]
    simp
  · intro before call after hsplit held
    have hheld : held = ((Registry.registerAll {} before).register call).2 := by
      simp only [held, hviews, Tables.register_ofRegistry (hdistinct before)]
    obtain ⟨hnow, i, hi, hsame⟩ := Registry.registerAll_reply .empty before call after
    rw [hheld, hviews, Tables.findByHash?_ofRegistry (hdistinct _),
      Tables.findByHash?_ofRegistry hcounts.distinct, hsplit]
    exact ⟨hnow, i, hi, hsame⟩

/-- The third call asks for a name that is taken, and the number after the size is taken too. -/
def clashingCalls : List Interface :=
  [⟨"Interface3", [], 1, "p"⟩, ⟨"Point", [⟨"x", "number", false, false⟩], 1, "q"⟩,
    ⟨"Interface3", [⟨"y", "string", true, false⟩], 1, "r"⟩, ⟨"Other", [], 1, "p"⟩]

theorem registry_counts_clashing_calls :
    let t := Tables.registerAll {} clashingCalls
    (∀ call ∈ clashingCalls, call.usageCount = 1) ∧
    t.definitions.entries.map (fun e => (e.1, e.2.usageCount, e.2.hash)) =
      [("Interface3", 2, "p"), ("Point", 1, "q"), ("Interface4", 1, "r")] ∧
    t.hashIndex.entries = [("p", "Interface3"), ("q", "Point"), ("r", "Interface4")] ∧
    t.Tally clashingCalls ∧
    t.findByHash? "r" = some ⟨"Interface4", [⟨"y", "string", true, false⟩], 1, "r"⟩ := by
  intro t
  have hone : ∀ call ∈ clashingCalls, call.usageCount = 1 := by simp [clashingCalls]
  obtain ⟨hviews, htally, _, hfind, _, _⟩ := registry_counts_calls clashingCalls hone
  have ht : t = Tables.ofRegistry (Registry.registerAll {} clashingCalls) := hviews
  have hvalues : t.definitions.values = (Registry.registerAll {} clashingCalls).interfaces := by
    rw [ht, Tables.values_ofRegistry]
  refine ⟨hone, ?_, ?_, htally, (hfind _ _).mpr ⟨?_, rfl⟩⟩
  · rw [ht]
    rfl
  · rw [ht]
    rfl
  · rw [hvalues]
    exact List.mem_cons_of_mem _ (List.mem_cons_of_mem _ List.mem_cons_self)

end ScriptTyping
