import ScriptTyping.Proofs.BalancedTypes

/-! # What merged guesses stand for

As a function on guesses, merging is neither commutative nor associative. What the merged guess
stands for depends on little, though: on the types that the known guesses stand for, and on whether
these guesses are alike. The printed types have to be readable for this, since guesses are compared
by them.
-/
namespace ScriptTyping

variable {κ : Type}

section Joins

theorem barless_join_inj {first other : List Char} {rest others : List (List Char)}
    (hfirst : '|' ∉ first) (hother : '|' ∉ other) (hrest : ∀ t ∈ rest, '|' ∉ t)
    (hothers : ∀ t ∈ others, '|' ∉ t)
    (h : first ++ rest.flatMap (bar ++ ·) = other ++ others.flatMap (bar ++ ·)) :
    first = other ∧ rest = others := by
  have hblank {text : List Char} (ht : '|' ∉ text) : ∀ c ∈ text ++ [' '], ¬c = '|' := by
    intro c hc hbar
    subst c
    simp [ht] at hc
  induction rest generalizing first other others with
  | nil =>
    cases others with
    | nil => simpa using h
    | cons t others =>
      simp only [List.flatMap_nil, List.append_nil] at h
      rw [h] at hfirst
      simp [bar] at hfirst
  | cons s rest ih =>
    cases others with
    | nil =>
      simp only [List.flatMap_nil, List.append_nil] at h
      rw [← h] at hother
      simp [bar] at hother
    | cons t others =>
      obtain ⟨hs, hrest⟩ := List.forall_mem_cons.mp hrest
      obtain ⟨ht, hothers⟩ := List.forall_mem_cons.mp hothers
      -- Up to its first bar, the text is the first part and a blank.
      have hcut : (first ++ [' ']) ++ '|' :: ' ' :: (s ++ rest.flatMap (bar ++ ·)) =
          (other ++ [' ']) ++ '|' :: ' ' :: (t ++ others.flatMap (bar ++ ·)) := by
        simpa [bar] using h
      obtain ⟨hhead, htail⟩ := append_marker_inj (hblank hfirst) (hblank hother) rfl rfl hcut
      obtain ⟨rfl, rfl⟩ := ih hs ht hrest hothers (by simpa using htail)
      exact ⟨List.append_cancel_right hhead, rfl⟩

theorem barless_union_inj {members others : List String} (hne : members ≠ []) (hne' : others ≠ [])
    (hmembers : ∀ m ∈ members, '|' ∉ m.toList) (hothers : ∀ m ∈ others, '|' ∉ m.toList)
    (h : unionMark.intercalate members = unionMark.intercalate others) : members = others := by
  cases members with
  | nil => exact absurd rfl hne
  | cons first rest =>
    cases others with
    | nil => exact absurd rfl hne'
    | cons other others =>
      obtain ⟨hfirst, hrest⟩ := List.forall_mem_cons.mp hmembers
      obtain ⟨hother, hothers⟩ := List.forall_mem_cons.mp hothers
      have hjoin (m : String) (ms : List String) : (unionMark.intercalate (m :: ms)).toList =
          m.toList ++ (ms.map String.toList).flatMap (bar ++ ·) := by
        rw [toList_intercalate, List.flatMap_map]
        rfl
      have htext := congrArg String.toList h
      rw [hjoin, hjoin] at htext
      obtain ⟨hhead, htail⟩ := barless_join_inj hfirst hother (by simpa using hrest)
        (by simpa using hothers) htext
      have hinjective : Function.Injective String.toList := fun _ _ => String.toList_inj.mp
      rw [String.toList_inj.mp hhead, List.map_injective_iff.mpr hinjective htail]

end Joins

section Repetitions

theorem eraseDups_of_nodup {values : List String} (h : values.Nodup) : values.eraseDups = values := by
  induction values with
  | nil => rfl
  | cons v rest ih =>
    obtain ⟨hv, hrest⟩ := List.nodup_cons.mp h
    have hfilter : (rest.filter fun w => !w == v) = rest := by
      rw [List.filter_eq_self]
      intro w hw
      simpa using fun heq : w = v => hv (heq ▸ hw)
    rw [List.eraseDups_cons, hfilter, ih hrest]

/-- Repetitions may be dropped in the first part already. -/
theorem eraseDups_eraseDups_append (values more : List String) :
    (values.eraseDups ++ more).eraseDups = (values ++ more).eraseDups := by
  have hremove : more.removeAll values.eraseDups = more.removeAll values := by
    simp [List.removeAll, List.mem_eraseDups]
  rw [List.eraseDups_append, List.eraseDups_append, hremove,
    eraseDups_of_nodup (Guess.nodup_eraseDups values)]

theorem eraseDups_append_of_subset {values more : List String} (h : ∀ v ∈ more, v ∈ values) :
    (values ++ more).eraseDups = values.eraseDups := by
  have hremove : more.removeAll values = [] := by
    simpa [List.removeAll, List.filter_eq_nil_iff] using h
  rw [List.eraseDups_append, hremove, List.eraseDups_nil, List.append_nil]

end Repetitions

namespace Guess

theorem descriptors_of_single {g : Guess κ} (h : g.kind ≠ .union) : g.descriptors = [g.value] := by
  simp [descriptors, h]

theorem descriptors_of_members {g : Guess κ} (hkind : g.kind = .union) (hne : g.members ≠ []) :
    g.descriptors = g.members := by
  simp [descriptors, hkind, hne]

theorem alike_iff {g h : Guess κ} : g.alike h = true ↔ g.kind = h.kind ∧ g.value = h.value := by
  simp [alike]

theorem alike_symm {g h : Guess κ} (hgh : g.alike h = true) : h.alike g = true := by
  obtain ⟨hkind, hvalue⟩ := alike_iff.mp hgh
  exact alike_iff.mpr ⟨hkind.symm, hvalue.symm⟩

theorem alike_trans {g h k : Guess κ} (hgh : g.alike h = true) (hhk : h.alike k = true) :
    g.alike k = true := by
  obtain ⟨hkind, hvalue⟩ := alike_iff.mp hgh
  obtain ⟨hkind', hvalue'⟩ := alike_iff.mp hhk
  exact alike_iff.mpr ⟨hkind.trans hkind', hvalue.trans hvalue'⟩

/-- What a guess is, apart from its confidence and the parts that it was printed from. -/
def meaning (g : Guess κ) : Kind × List String := (g.kind, g.descriptors)

/-- The types that the guess stands for can be read off its printed type. -/
structure Readable (g : Guess κ) : Prop where
  union : g.kind = .union →
    g.members ≠ [] ∧ g.members.Nodup ∧ g.value = unionMark.intercalate g.members
  unknown : g.kind = .unknown → g.value = "unknown"
  barless : ∀ d ∈ g.descriptors, '|' ∉ d.toList

namespace Readable

variable {g h : Guess κ}

theorem descriptors_union (hg : g.Readable) (hkind : g.kind = .union) :
    g.descriptors = g.members :=
  descriptors_of_members hkind (hg.union hkind).1

theorem descriptors_unknown (hg : g.Readable) (hkind : g.kind = .unknown) :
    g.descriptors = ["unknown"] := by
  rw [descriptors_of_single (by simp [hkind]), hg.unknown hkind]

theorem nodup_descriptors (hg : g.Readable) : g.descriptors.Nodup := by
  by_cases hkind : g.kind = .union
  · rw [hg.descriptors_union hkind]
    exact (hg.union hkind).2.1
  · rw [descriptors_of_single hkind]
    exact List.nodup_singleton _

theorem descriptors_ne_nil (hg : g.Readable) : g.descriptors ≠ [] := by
  by_cases hkind : g.kind = .union
  · rw [hg.descriptors_union hkind]
    exact (hg.union hkind).1
  · rw [descriptors_of_single hkind]
    exact List.cons_ne_nil _ _

/-- Readable guesses are alike if they mean the same. -/
theorem alike_iff_meaning (hg : g.Readable) (hh : h.Readable) :
    g.alike h = true ↔ g.meaning = h.meaning := by
  rw [alike_iff, meaning, meaning, Prod.mk.injEq]
  refine and_congr_right fun hkinds => ?_
  by_cases hkind : g.kind = .union
  · have hkind' : h.kind = .union := hkinds ▸ hkind
    obtain ⟨hne, -, hvalue⟩ := hg.union hkind
    obtain ⟨hne', -, hvalue'⟩ := hh.union hkind'
    have hbarless := hg.barless
    have hbarless' := hh.barless
    rw [hg.descriptors_union hkind] at hbarless ⊢
    rw [hh.descriptors_union hkind'] at hbarless' ⊢
    rw [hvalue, hvalue']
    exact ⟨barless_union_inj hne hne' hbarless hbarless', congrArg _⟩
  · have hkind' : h.kind ≠ .union := hkinds ▸ hkind
    simp [descriptors_of_single hkind, descriptors_of_single hkind']

theorem alike_of_unknown (hg : g.Readable) (hh : h.Readable) (hkind : g.kind = .unknown)
    (hkind' : h.kind = .unknown) : g.alike h = true :=
  alike_iff.mpr ⟨hkind.trans hkind'.symm, (hg.unknown hkind).trans (hh.unknown hkind').symm⟩

theorem union_ne_nil (hg : g.Readable) (more : List String) :
    (g.descriptors ++ more).eraseDups ≠ [] := by
  obtain ⟨d, hd⟩ := List.exists_mem_of_ne_nil _ hg.descriptors_ne_nil
  exact List.ne_nil_of_mem (List.mem_eraseDups.mpr (List.mem_append_left _ hd))

end Readable

section Merging
variable [Score κ] {g h : Guess κ}

/-- All that merging can do. -/
theorem merge_cases (g h : Guess κ) :
    (g.alike h = true ∧ (g.merge h = g ∨ g.merge h = h)) ∨
    (g.alike h = false ∧ g.kind = .unknown ∧ g.merge h = h) ∨
    (g.alike h = false ∧ g.kind ≠ .unknown ∧ h.kind = .unknown ∧ g.merge h = g) ∨
    (g.alike h = false ∧ g.kind ≠ .unknown ∧ h.kind ≠ .unknown ∧
      g.merge h = union (g.descriptors ++ h.descriptors).eraseDups
        (Score.middle g.confidence h.confidence)) := by
  unfold merge
  cases halike : g.alike h with
  | true =>
    refine .inl ⟨rfl, ?_⟩
    by_cases hle : h.confidence ≤ g.confidence <;> simp [hle]
  | false =>
    by_cases hg : g.kind = .unknown
    · simp [isUnknown, hg]
    · by_cases hh : h.kind = .unknown <;> simp [isUnknown, hg, hh]

theorem Readable.merge (hg : g.Readable) (hh : h.Readable) : (g.merge h).Readable := by
  rcases merge_cases g h with ⟨-, hm | hm⟩ | ⟨-, -, hm⟩ | ⟨-, -, -, hm⟩ | ⟨-, -, -, hm⟩ <;> rw [hm]
  · exact hg
  · exact hh
  · exact hh
  · exact hg
  · have hne := hg.union_ne_nil h.descriptors
    refine ⟨fun _ => ⟨hne, nodup_eraseDups _, rfl⟩, ?_, ?_⟩
    · intro hkind
      cases hkind
    · intro d hd
      rw [descriptors_of_members rfl hne] at hd
      rcases List.mem_append.mp (List.mem_eraseDups.mp hd) with hd | hd
      · exact hg.barless d hd
      · exact hh.barless d hd

theorem Readable.meaning_merge_alike (hg : g.Readable) (hh : h.Readable)
    (halike : g.alike h = true) : (g.merge h).meaning = g.meaning := by
  rcases merge_cases g h with ⟨-, hm | hm⟩ | ⟨hne, -⟩ | ⟨hne, -⟩ | ⟨hne, -⟩
  · rw [hm]
  · rw [hm, (hg.alike_iff_meaning hh).mp halike]
  all_goals simp [halike] at hne

theorem Readable.meaning_merge_unknown (hg : g.Readable) (hh : h.Readable)
    (hkind : h.kind = .unknown) : (g.merge h).meaning = g.meaning := by
  cases halike : g.alike h with
  | true => exact hg.meaning_merge_alike hh halike
  | false =>
    rcases merge_cases g h with ⟨htrue, -⟩ | ⟨-, hg', -⟩ | ⟨-, -, -, hm⟩ | ⟨-, -, hknown, -⟩
    · simp [halike] at htrue
    · simp [hg.alike_of_unknown hh hg' hkind] at halike
    · rw [hm]
    · exact absurd hkind hknown

theorem Readable.meaning_unknown_merge (hg : g.Readable) (hh : h.Readable)
    (hkind : g.kind = .unknown) : (g.merge h).meaning = h.meaning := by
  cases halike : g.alike h with
  | true => rw [hg.meaning_merge_alike hh halike, (hg.alike_iff_meaning hh).mp halike]
  | false =>
    rcases merge_cases g h with ⟨htrue, -⟩ | ⟨-, -, hm⟩ | ⟨-, hknown, -⟩ | ⟨-, hknown, -⟩
    · simp [halike] at htrue
    · rw [hm]
    · exact absurd hkind hknown
    · exact absurd hkind hknown

theorem Readable.meaning_merge_known (hg : g.Readable) (hknown : g.kind ≠ .unknown)
    (hknown' : h.kind ≠ .unknown) (halike : g.alike h = false) :
    (g.merge h).meaning = (.union, (g.descriptors ++ h.descriptors).eraseDups) := by
  rcases merge_cases g h with ⟨htrue, -⟩ | ⟨-, hg', -⟩ | ⟨-, -, hh', -⟩ | ⟨-, -, -, hm⟩
  · simp [halike] at htrue
  · exact absurd hg' hknown
  · exact absurd hh' hknown'
  · have hdescriptors := descriptors_of_members (g := g.merge h) (by rw [hm]; rfl)
      (by rw [hm]; exact hg.union_ne_nil h.descriptors)
    rw [meaning, hdescriptors, hm]
    rfl

end Merging

section Sets

def knownOf (gs : List (Guess κ)) : List (Guess κ) := gs.filter fun g => !g.isUnknown

/-- The types that guesses stand for together, in the order in which they come up. -/
def jointDescriptors (gs : List (Guess κ)) : List String :=
  if (knownOf gs).isEmpty then ["unknown"] else ((knownOf gs).flatMap descriptors).eraseDups

/-- Known guesses that are alike keep their kind, and others make a union. -/
def jointKind (gs : List (Guess κ)) : Kind :=
  match knownOf gs with
  | [] => .unknown
  | g :: rest => if rest.all g.alike then g.kind else .union

variable {gs hs : List (Guess κ)} {g k : Guess κ}

theorem mem_knownOf : g ∈ knownOf gs ↔ g ∈ gs ∧ g.kind ≠ .unknown := by
  simp [knownOf, isUnknown]

theorem knownOf_concat_unknown (h : g.kind = .unknown) : knownOf (gs ++ [g]) = knownOf gs := by
  simp [knownOf, isUnknown, h]

theorem knownOf_concat_known (h : g.kind ≠ .unknown) : knownOf (gs ++ [g]) = knownOf gs ++ [g] := by
  simp [knownOf, isUnknown, h]

theorem jointDescriptors_of_known (h : knownOf gs ≠ []) :
    jointDescriptors gs = ((knownOf gs).flatMap descriptors).eraseDups := by
  simp [jointDescriptors, h]

theorem jointDescriptors_concat (hne : knownOf gs ≠ []) (hg : g.kind ≠ .unknown) :
    jointDescriptors (gs ++ [g]) = (jointDescriptors gs ++ g.descriptors).eraseDups := by
  have hknown : knownOf (gs ++ [g]) = knownOf gs ++ [g] := knownOf_concat_known hg
  rw [jointDescriptors_of_known (by simp [hknown]), jointDescriptors_of_known hne, hknown,
    eraseDups_eraseDups_append, List.flatMap_append, List.flatMap_singleton]

theorem jointKind_of_alike (hg : g ∈ knownOf gs) (halike : ∀ k ∈ knownOf gs, g.alike k = true) :
    jointKind gs = g.kind := by
  unfold jointKind
  split
  · next hnone => simp [hnone] at hg
  · next first rest hsome =>
    rw [hsome] at halike
    obtain ⟨hfirst, hrest⟩ := List.forall_mem_cons.mp halike
    have hall : rest.all first.alike = true :=
      List.all_eq_true.mpr fun k hk => alike_trans (alike_symm hfirst) (hrest k hk)
    rw [if_pos hall, (alike_iff.mp hfirst).1]

theorem jointKind_of_unlike (hg : g ∈ knownOf gs) (hk : k ∈ knownOf gs) (hne : g.alike k = false) :
    jointKind gs = .union := by
  unfold jointKind
  split
  · next hnone => simp [hnone] at hg
  · next first rest hsome =>
    rw [hsome] at hg hk
    refine if_neg fun hall => ?_
    have hfirst : ∀ x ∈ first :: rest, first.alike x = true :=
      List.forall_mem_cons.mpr ⟨alike_iff.mpr ⟨rfl, rfl⟩, List.all_eq_true.mp hall⟩
    simp [alike_trans (alike_symm (hfirst g hg)) (hfirst k hk)] at hne

/-- Either all known guesses are like a given one, or there is one that is not. -/
theorem alike_or_unlike (gs : List (Guess κ)) (g : Guess κ) :
    (∀ k ∈ knownOf gs, g.alike k = true) ∨ ∃ k ∈ knownOf gs, g.alike k = false := by
  by_cases h : ∀ k ∈ knownOf gs, g.alike k = true
  · exact .inl h
  · exact .inr (by simpa using h)

theorem jointKind_ne_unknown (hg : g ∈ knownOf gs) : jointKind gs ≠ .unknown := by
  rcases alike_or_unlike gs g with halike | ⟨k, hk, hne⟩
  · rw [jointKind_of_alike hg halike]
    exact (mem_knownOf.mp hg).2
  · rw [jointKind_of_unlike hg hk hne]
    simp

/-- The guess means what the guesses stand for together. -/
structure Denotes (m : Guess κ) (gs : List (Guess κ)) : Prop where
  readable : m.Readable
  kind : m.kind = jointKind gs
  descriptors : m.descriptors = jointDescriptors gs

theorem Readable.denotes (hg : g.Readable) : g.Denotes [g] := by
  by_cases hkind : g.kind = .unknown
  · have hnone : knownOf [g] = [] := by simp [knownOf, isUnknown, hkind]
    refine ⟨hg, ?_, ?_⟩
    · simp only [jointKind, hnone, hkind]
    · simp [jointDescriptors, hnone, hg.descriptors_unknown hkind]
  · have hone : knownOf [g] = [g] := by simp [knownOf, isUnknown, hkind]
    refine ⟨hg, ?_, ?_⟩
    · simp [jointKind, hone]
    · simp [jointDescriptors, hone, eraseDups_of_nodup hg.nodup_descriptors]

namespace Denotes

variable {m : Guess κ}

theorem of_meaning (hm : m.Denotes gs) (hg : g.Readable) (hmeaning : g.meaning = m.meaning)
    (hknown : knownOf hs = knownOf gs) : g.Denotes hs := by
  obtain ⟨hkind, hdescriptors⟩ := Prod.mk.inj hmeaning
  refine ⟨hg, ?_, ?_⟩
  · rw [hkind, hm.kind, jointKind, jointKind, hknown]
  · rw [hdescriptors, hm.descriptors, jointDescriptors, jointDescriptors, hknown]

/-- Guesses that are alike stand for what one of them stands for. -/
theorem alike_of_alike (hm : m.Denotes gs) (hgs : ∀ k ∈ gs, k.Readable) (hg : g ∈ knownOf gs)
    (halike : ∀ k ∈ knownOf gs, g.alike k = true) : m.alike g = true := by
  have hread : ∀ k ∈ knownOf gs, k.Readable := fun k hk => hgs k (mem_knownOf.mp hk).1
  have hsame : ∀ k ∈ knownOf gs, k.descriptors = g.descriptors := by
    intro k hk
    have hmeaning := ((hread g hg).alike_iff_meaning (hread k hk)).mp (halike k hk)
    exact (Prod.mk.inj hmeaning).2.symm
  have hjoint : ((knownOf gs).flatMap Guess.descriptors).eraseDups = g.descriptors := by
    cases hknown : knownOf gs with
    | nil => simp [hknown] at hg
    | cons first rest =>
      rw [hknown] at hsame
      obtain ⟨hfirst, hrest⟩ := List.forall_mem_cons.mp hsame
      have hsubset : ∀ d ∈ rest.flatMap Guess.descriptors, d ∈ first.descriptors := by
        intro d hd
        obtain ⟨k, hk, hd⟩ := List.mem_flatMap.mp hd
        rwa [hrest k hk, ← hfirst] at hd
      rw [List.flatMap_cons, eraseDups_append_of_subset hsubset, hfirst,
        eraseDups_of_nodup (hread g hg).nodup_descriptors]
  rw [hm.readable.alike_iff_meaning (hread g hg), meaning, hm.kind, jointKind_of_alike hg halike,
    hm.descriptors, jointDescriptors_of_known (List.ne_nil_of_mem hg), hjoint, meaning]

/-- As long as the guesses are alike, the next is compared with any one of them. -/
theorem jointKind_concat (hm : m.Denotes gs) (hgs : ∀ k ∈ gs, k.Readable) (hk : k ∈ knownOf gs)
    (hkind : g.kind ≠ .unknown) :
    jointKind (gs ++ [g]) = if m.alike g then m.kind else .union := by
  have hknown : knownOf (gs ++ [g]) = knownOf gs ++ [g] := knownOf_concat_known hkind
  have hold : ∀ x ∈ knownOf gs, x ∈ knownOf (gs ++ [g]) := by
    intro x hx
    rw [hknown]
    exact List.mem_append_left _ hx
  have hnew : g ∈ knownOf (gs ++ [g]) := by simp [hknown]
  rcases alike_or_unlike gs k with halike | ⟨x, hx, hne⟩
  · have hmk := hm.alike_of_alike hgs hk halike
    cases hmg : m.alike g with
    | true =>
      have hkg := alike_trans (alike_symm hmk) hmg
      have hall : ∀ y ∈ knownOf (gs ++ [g]), k.alike y = true := by
        rw [hknown]
        exact List.forall_mem_append.mpr ⟨halike, List.forall_mem_singleton.mpr hkg⟩
      rw [jointKind_of_alike (hold k hk) hall, (alike_iff.mp hmk).1]
      rfl
    | false =>
      apply jointKind_of_unlike (hold k hk) hnew
      by_contra hkg
      simp [alike_trans hmk (by simpa using hkg)] at hmg
  · rw [jointKind_of_unlike (hold k hk) (hold x hx) hne, hm.kind, jointKind_of_unlike hk hx hne,
      ite_self]

variable [Score κ]

/-- One more guess, merged with what the others stand for. -/
theorem merge (hm : m.Denotes gs) (hgs : ∀ k ∈ gs, k.Readable) (hg : g.Readable) :
    (m.merge g).Denotes (gs ++ [g]) := by
  have hread := hm.readable.merge hg
  by_cases hkind : g.kind = .unknown
  · exact hm.of_meaning hread (hm.readable.meaning_merge_unknown hg hkind)
      (knownOf_concat_unknown hkind)
  have hknown : knownOf (gs ++ [g]) = knownOf gs ++ [g] := knownOf_concat_known hkind
  cases hfirst : knownOf gs with
  | nil =>
    have hunknown : m.kind = .unknown := by simp only [hm.kind, jointKind, hfirst]
    apply hg.denotes.of_meaning hread (hm.readable.meaning_unknown_merge hg hunknown)
    rw [hknown, hfirst, List.nil_append]
    simp [knownOf, isUnknown, hkind]
  | cons k rest =>
    have hk : k ∈ knownOf gs := by simp [hfirst]
    have hmknown : m.kind ≠ .unknown := hm.kind ▸ jointKind_ne_unknown hk
    have hkinds := hm.jointKind_concat hgs hk hkind
    have hjoint := jointDescriptors_concat (List.ne_nil_of_mem hk) hkind
    rw [← hm.descriptors] at hjoint
    cases hmg : m.alike g with
    | true =>
      obtain ⟨hmerged, hmerged'⟩ := Prod.mk.inj (hm.readable.meaning_merge_alike hg hmg)
      obtain ⟨-, hsame⟩ := Prod.mk.inj ((hm.readable.alike_iff_meaning hg).mp hmg)
      refine ⟨hread, ?_, ?_⟩
      · rw [hmerged, hkinds, if_pos hmg]
      · rw [hmerged', hjoint, ← hsame, eraseDups_append_of_subset fun _ hd => hd,
          eraseDups_of_nodup hm.readable.nodup_descriptors]
    | false =>
      obtain ⟨hmerged, hmerged'⟩ :=
        Prod.mk.inj (hm.readable.meaning_merge_known hmknown hkind hmg)
      refine ⟨hread, ?_, ?_⟩
      · rw [hmerged, hkinds]
        simp [hmg]
      · rw [hmerged', hjoint]

theorem foldl_merge (hm : m.Denotes gs) (hgs : ∀ k ∈ gs, k.Readable) {more : List (Guess κ)}
    (hmore : ∀ k ∈ more, k.Readable) : (more.foldl Guess.merge m).Denotes (gs ++ more) := by
  induction more generalizing m gs with
  | nil => simpa using hm
  | cons g rest ih =>
    obtain ⟨hg, hrest⟩ := List.forall_mem_cons.mp hmore
    have hnext := ih (hm.merge hgs hg) (List.forall_mem_append.mpr ⟨hgs, by simpa using hg⟩) hrest
    simpa using hnext

end Denotes

/-- The lists hold the same known guesses, in whatever order, however often, and with whatever
unknown ones between them. -/
def SameKnown (gs hs : List (Guess κ)) : Prop := ∀ g, g ∈ knownOf gs ↔ g ∈ knownOf hs

theorem SameKnown.eq_nil_iff (hsame : SameKnown gs hs) : knownOf gs = [] ↔ knownOf hs = [] := by
  simp only [List.eq_nil_iff_forall_not_mem, hsame _]

theorem SameKnown.jointKind_eq (hsame : SameKnown gs hs) : jointKind gs = jointKind hs := by
  cases hfirst : knownOf gs with
  | nil =>
    have hnone := hsame.eq_nil_iff.mp hfirst
    simp only [jointKind, hfirst, hnone]
  | cons g rest =>
    have hg : g ∈ knownOf gs := by simp [hfirst]
    rcases alike_or_unlike gs g with halike | ⟨k, hk, hne⟩
    · rw [jointKind_of_alike hg halike,
        jointKind_of_alike ((hsame g).mp hg) fun k hk => halike k ((hsame k).mpr hk)]
    · rw [jointKind_of_unlike hg hk hne,
        jointKind_of_unlike ((hsame g).mp hg) ((hsame k).mp hk) hne]

theorem SameKnown.mem_jointDescriptors (hsame : SameKnown gs hs) (d : String) :
    d ∈ jointDescriptors gs ↔ d ∈ jointDescriptors hs := by
  by_cases hnone : knownOf gs = []
  · simp [jointDescriptors, hnone, hsame.eq_nil_iff.mp hnone]
  · rw [jointDescriptors_of_known hnone, jointDescriptors_of_known (mt hsame.eq_nil_iff.mpr hnone),
      List.mem_eraseDups, List.mem_eraseDups, List.mem_flatMap, List.mem_flatMap]
    simp only [hsame _]

theorem mergeAll?_denotes [Score κ] (hne : gs ≠ []) (hgs : ∀ g ∈ gs, g.Readable) :
    ∃ m, mergeAll? gs = some m ∧ m.Denotes gs := by
  cases gs with
  | nil => exact absurd rfl hne
  | cons g rest =>
    obtain ⟨hg, hrest⟩ := List.forall_mem_cons.mp hgs
    exact ⟨_, rfl, hg.denotes.foldl_merge (List.forall_mem_singleton.mpr hg) hrest⟩

end Sets

end Guess

open Guess

/-- Merging readable guesses gives the types that the known ones stand for, without repetitions and
in the order in which they come up. The kind is that of the known guesses if they are alike. So
neither order nor repetition nor unknown guesses in between change the kind or the set of types. -/
theorem merged_guess_denotes_set [Score κ] {gs : List (Guess κ)} (hne : gs ≠ [])
    (hgs : ∀ g ∈ gs, g.Readable) :
    ∃ m, mergeAll? gs = some m ∧ m.kind = jointKind gs ∧ m.descriptors = jointDescriptors gs ∧
      ∀ hs : List (Guess κ), hs ≠ [] → (∀ h ∈ hs, h.Readable) → SameKnown gs hs →
        ∃ n, mergeAll? hs = some n ∧ n.kind = m.kind ∧
          ∀ d, d ∈ n.descriptors ↔ d ∈ m.descriptors := by
  obtain ⟨m, hm, hdenotes⟩ := mergeAll?_denotes hne hgs
  refine ⟨m, hm, hdenotes.kind, hdenotes.descriptors, ?_⟩
  intro hs hne' hhs hsame
  obtain ⟨n, hn, hdenotes'⟩ := mergeAll?_denotes hne' hhs
  refine ⟨n, hn, ?_, ?_⟩
  · rw [hdenotes.kind, hdenotes'.kind, hsame.jointKind_eq]
  · intro d
    rw [hdenotes.descriptors, hdenotes'.descriptors, hsame.mem_jointDescriptors]

/-- Two kinds of one text, a union that has it too, and an unknown guess. -/
def mixedGuesses : List (Guess Float) :=
  [.unknown 0.3, .primitive "object" 1.0, .object "object" 0.5, .union ["string", "object"] 0.6]

/-- The same guesses in another order, one of them twice and the unknown one between them. -/
def mixedGuessesAgain : List (Guess Float) :=
  [.union ["string", "object"] 0.6, .object "object" 0.5, .unknown 0.3, .object "object" 0.5,
   .primitive "object" 1.0]

theorem merged_guess_denotes_set_mixed :
    (∀ g ∈ mixedGuesses, g.Readable) ∧ SameKnown mixedGuesses mixedGuessesAgain ∧
    ∃ m, mergeAll? mixedGuesses = some m ∧ m.kind = .union ∧ m.descriptors = ["object", "string"] ∧
      ∃ n, mergeAll? mixedGuessesAgain = some n ∧ n.kind = m.kind ∧
        ∀ d, d ∈ n.descriptors ↔ d ∈ m.descriptors := by
  have hsingle : ∀ g : Guess Float, g.kind ≠ .union → (g.kind = .unknown → g.value = "unknown") →
      '|' ∉ g.value.toList → g.Readable := by
    intro g hkind hvalue hbarless
    refine ⟨fun h => absurd h hkind, hvalue, ?_⟩
    rw [descriptors_of_single hkind]
    simpa using hbarless
  have hunknown : (unknown 0.3 : Guess Float).Readable :=
    hsingle _ (by decide) (fun _ => rfl) (by simp [unknown])
  have hprimitive : (primitive "object" 1.0 : Guess Float).Readable :=
    hsingle _ (by decide) (fun h => absurd h (by decide)) (by simp [primitive])
  have hobject : (object "object" 0.5 : Guess Float).Readable :=
    hsingle _ (by decide) (fun h => absurd h (by decide)) (by simp [object])
  have hunion : (union ["string", "object"] 0.6 : Guess Float).Readable := by
    refine ⟨fun _ => ⟨List.cons_ne_nil _ _, by simp [union], rfl⟩,
      fun h => absurd h (by decide), ?_⟩
    intro d hd
    rcases List.mem_pair.mp hd with rfl | rfl <;> simp
  have hsame : SameKnown mixedGuesses mixedGuessesAgain := by
    intro g
    simp only [knownOf, mixedGuesses, mixedGuessesAgain, List.mem_filter, List.mem_cons]
    tauto
  have hreadable : ∀ g ∈ mixedGuesses, g.Readable := by
    simp [mixedGuesses, hunknown, hprimitive, hobject, hunion]
  obtain ⟨m, hm, hkind, hdescriptors, hinvariant⟩ :=
    merged_guess_denotes_set (by simp [mixedGuesses]) hreadable
  refine ⟨hreadable, hsame, m, hm, hkind, hdescriptors, hinvariant _ ?_ ?_ hsame⟩
  · simp [mixedGuessesAgain]
  · simp [mixedGuessesAgain, hunknown, hprimitive, hobject, hunion]

end ScriptTyping
