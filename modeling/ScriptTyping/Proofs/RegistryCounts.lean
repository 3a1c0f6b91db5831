import ScriptTyping.Proofs.RegistryNames

/-! # Registries count registrations

A registry that is filled from the start is a tally of the calls made on it. It holds one interface
for each hash, in the order in which the hashes came up, with the properties of the first call and
the number of calls.
-/
namespace ScriptTyping

namespace Registry

theorem eraseDups_concat (hashes : List String) (hash : String) :
    (hashes ++ [hash]).eraseDups =
      if hash ∈ hashes then hashes.eraseDups else hashes.eraseDups ++ [hash] := by
  rw [List.eraseDups_append]
  by_cases h : hash ∈ hashes
  · simp [List.removeAll, h]
  · simp [List.removeAll, List.eraseDups_cons, h]

/-- The registry after calls, the first of them made first. -/
def registerAll (r : Registry) (calls : List Interface) : Registry :=
  calls.foldl (fun r call => (r.register call).1) r

theorem registerAll_append (r : Registry) (calls more : List Interface) :
    r.registerAll (calls ++ more) = (r.registerAll calls).registerAll more :=
  List.foldl_append

/-- The registry is the tally of the calls: of their hashes without repetitions, and for each hash
of the first call and the number of calls. -/
structure Counts (r : Registry) (calls : List Interface) : Prop where
  hashes : r.hashes = (calls.map Interface.hash).eraseDups
  distinct : r.Distinct
  first : ∀ i ∈ r.interfaces, ∃ call, (calls.find? fun c => c.hash == i.hash) = some call ∧
    i.properties = call.properties ∧ (i.name = call.name ∨ ∃ n, i.name = Interface.numbered n)
  usage : ∀ i ∈ r.interfaces, i.usageCount = (calls.map Interface.hash).count i.hash

theorem Counts.empty : Counts {} [] where
  hashes := rfl
  distinct := .empty
  first := by
    intro i hi
    cases hi
  usage := by
    intro i hi
    cases hi

theorem Counts.mem_hashes {r : Registry} {calls : List Interface} (h : r.Counts calls)
    {hash : String} : hash ∈ r.hashes ↔ hash ∈ calls.map Interface.hash := by
  rw [h.hashes, List.mem_eraseDups]

theorem findByHash?_eq_none_iff {r : Registry} {hash : String} :
    r.findByHash? hash = none ↔ hash ∉ r.hashes := by
  simp [findByHash?, hashes, List.find?_eq_none]

/-- A call with a hash that came up before is counted, and nothing else changes. -/
theorem Counts.reuse {r : Registry} {calls : List Interface} (h : r.Counts calls)
    {call known : Interface} (hfound : r.findByHash? call.hash = some known) :
    (r.countUse call.hash).Counts (calls ++ [call]) := by
  obtain ⟨hmem, hhash⟩ := mem_of_findByHash? hfound
  have hold : call.hash ∈ calls.map Interface.hash :=
    h.mem_hashes.mp (hhash ▸ List.mem_map_of_mem hmem)
  constructor
  · rw [hashes_eq_declared, declared_countUse, ← hashes_eq_declared, h.hashes, List.map_append,
      List.map_singleton, eraseDups_concat, if_pos hold]
  · exact h.distinct.countUse call.hash
  · intro i hi
    obtain ⟨j, hj, rfl⟩ := List.mem_map.mp hi
    obtain ⟨first, hfirst, hrest⟩ := h.first j hj
    refine ⟨first, ?_, ?_⟩
    · split <;> simp [Interface.used, hfirst]
    · split <;> exact hrest
  · intro i hi
    obtain ⟨j, hj, rfl⟩ := List.mem_map.mp hi
    have hcount := h.usage j hj
    by_cases hjh : j.hash = call.hash
    · simp [hjh, Interface.used, hcount]
    · simp [hjh, Ne.symm hjh, hcount]

/-- A call with a new hash adds its interface, under whatever name is free. -/
theorem Counts.add {r : Registry} {calls : List Interface} (h : r.Counts calls)
    {call : Interface} (hone : call.usageCount = 1) (hfound : r.findByHash? call.hash = none)
    {name : String} (hfree : name ∉ r.names) (hname : name = call.name ∨ name = r.nextName) :
    Counts ⟨r.interfaces ++ [{ call with name }]⟩ (calls ++ [call]) := by
  have hnew : call.hash ∉ calls.map Interface.hash := fun hold =>
    findByHash?_eq_none_iff.mp hfound (h.mem_hashes.mpr hold)
  have hne : ∀ i ∈ r.interfaces, i.hash ≠ call.hash := hash_ne_of_findByHash?_none hfound
  constructor
  · have happend : Registry.hashes ⟨r.interfaces ++ [{ call with name }]⟩ =
        r.hashes ++ [call.hash] := by
      simp [Registry.hashes]
    rw [happend, h.hashes, List.map_append, List.map_singleton, eraseDups_concat, if_neg hnew]
  · exact h.distinct.append hfree hne
  · intro i hi
    rcases List.mem_append.mp hi with hi | hi
    · obtain ⟨first, hfirst, hrest⟩ := h.first i hi
      exact ⟨first, by simp [hfirst], hrest⟩
    · rw [List.mem_singleton.mp hi]
      have hnone : (calls.find? fun c => c.hash == call.hash) = none := by
        simpa using hnew
      refine ⟨call, by simp [hnone], rfl, ?_⟩
      rcases hname with hname | hname
      · exact .inl hname
      · exact .inr ⟨r.nextNumber, hname⟩
  · intro i hi
    rcases List.mem_append.mp hi with hi | hi
    · simp [h.usage i hi, Ne.symm (hne i hi)]
    · rw [List.mem_singleton.mp hi]
      have hzero : (calls.map Interface.hash).count call.hash = 0 := List.count_eq_zero.mpr hnew
      simp [hone, hzero]

/-- Whatever its name, a call keeps the tally. -/
theorem Counts.register {r : Registry} {calls : List Interface} (h : r.Counts calls)
    {call : Interface} (hone : call.usageCount = 1) :
    (r.register call).1.Counts (calls ++ [call]) := by
  cases hfound : r.findByHash? call.hash with
  | some known =>
    rw [register_known hfound]
    exact h.reuse hfound
  | none =>
    obtain ⟨name, hfree, hname, hnew⟩ := register_new hfound
    rw [hnew]
    exact h.add hone hfound hfree hname

theorem Counts.registerAll {r : Registry} {done : List Interface} (h : r.Counts done)
    {calls : List Interface} (hone : ∀ call ∈ calls, call.usageCount = 1) :
    (r.registerAll calls).Counts (done ++ calls) := by
  induction calls generalizing r done with
  | nil => simpa [Registry.registerAll] using h
  | cons call rest ih =>
    have hstep := h.register (hone call List.mem_cons_self)
    have hrest := ih hstep fun c hc => hone c (List.mem_cons_of_mem _ hc)
    rw [List.append_assoc] at hrest
    exact hrest

/-- The hashes of the interfaces, each with the number of its uses. -/
def uses (r : Registry) : List (String × Nat) := r.interfaces.map fun i => (i.hash, i.usageCount)

theorem Counts.uses_eq {r : Registry} {calls : List Interface} (h : r.Counts calls) :
    r.uses = r.hashes.map fun hash => (hash, (calls.map Interface.hash).count hash) := by
  simp only [uses, Registry.hashes, List.map_map]
  apply List.map_congr_left
  intro i hi
  simp only [Function.comp_apply, h.usage i hi]

/-- The order of the calls decides the order of the interfaces and not their uses. -/
theorem Counts.uses_perm {r s : Registry} {calls others : List Interface} (hr : r.Counts calls)
    (hs : s.Counts others) (h : (calls.map Interface.hash).Perm (others.map Interface.hash)) :
    r.uses.Perm s.uses := by
  have hhashes : r.hashes.Perm s.hashes := by
    apply (List.perm_ext_iff_of_nodup hr.distinct.hashes hs.distinct.hashes).mpr
    intro hash
    rw [hr.mem_hashes, hs.mem_hashes, h.mem_iff]
  have hcount : ∀ hash, (calls.map Interface.hash).count hash =
      (others.map Interface.hash).count hash := h.count_eq
  rw [hr.uses_eq, hs.uses_eq]
  simp only [hcount]
  exact hhashes.map _

theorem registerAll_declared_grows (r : Registry) (calls : List Interface) :
    r.declared <+: (r.registerAll calls).declared := by
  induction calls generalizing r with
  | nil => exact List.prefix_rfl
  | cons call rest ih => exact (r.register_declared_grows call).trans (ih _)

theorem registerAll_distinct {r : Registry} (h : r.Distinct) (calls : List Interface) :
    (r.registerAll calls).Distinct := by
  induction calls generalizing r with
  | nil => exact h
  | cons call rest ih => exact ih (h.register call)

/-- The interface that a call gave holds the hash of the call right after it, and what holds the hash
in the end has its name and its properties. -/
theorem registerAll_reply {r : Registry} (h : r.Distinct) (before : List Interface)
    (call : Interface) (after : List Interface) :
    let held := ((r.registerAll before).register call).2
    (r.registerAll (before ++ [call])).findByHash? call.hash = some held ∧
    ∃ i, (r.registerAll (before ++ call :: after)).findByHash? call.hash = some i ∧
      i.name = held.name ∧ i.properties = held.properties := by
  intro held
  have hnow : r.registerAll (before ++ [call]) = ((r.registerAll before).register call).1 :=
    registerAll_append r before [call]
  have hheld := (registerAll_distinct h before).register_held call
  rw [← hnow] at hheld
  refine ⟨hheld, ?_⟩
  obtain ⟨hmem, hhash⟩ := mem_of_findByHash? hheld
  have hlater : r.registerAll (before ++ call :: after) =
      (r.registerAll (before ++ [call])).registerAll after := by
    rw [← registerAll_append, List.append_assoc]
    rfl
  have hgrows := (r.registerAll (before ++ [call])).registerAll_declared_grows after
  rw [← hlater] at hgrows
  obtain ⟨i, hi, hname, hproperties, hsame⟩ := exists_of_declared hgrows hmem
  have hdistinct := registerAll_distinct h (before ++ call :: after)
  exact ⟨i, hdistinct.findByHash?_eq_some_iff.mpr ⟨hi, hsame.trans hhash⟩, hname, hproperties⟩

end Registry

end ScriptTyping
