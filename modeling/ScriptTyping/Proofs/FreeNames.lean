import Mathlib.Order.Bounds.Defs
import ScriptTyping.Registry

/-! # The least free name

The search for a free number starts above the size of the registry and goes on while the name of the
number is taken. Each turn leaves one taken name behind, and no number further on has it, so there
are at most as many turns as there are interfaces.
-/
namespace ScriptTyping

namespace Interface

theorem numbered_injective : Function.Injective numbered := by
  intro i j h
  have hrepr : Nat.repr i = Nat.repr j := (String.append_right_inj "Interface").mp h
  have hdigits : Nat.toDigits 10 i = Nat.toDigits 10 j := by
    simpa only [Nat.toList_repr] using congrArg String.toList hrepr
  have hvalue := congrArg (fun digits => Nat.ofDigitChars 10 digits 0) hdigits
  simpa only [Nat.ofDigitChars_ten_toDigits] using hvalue

variable (names : List String) {i : Nat}

open Classical in
/-- The taken names that belong to a number from `i` on. -/
noncomputable def takenFrom (i : Nat) : List String :=
  names.filter fun name => ∃ j, i ≤ j ∧ numbered j = name

variable {names}

theorem mem_takenFrom {name : String} :
    name ∈ takenFrom names i ↔ name ∈ names ∧ ∃ j, i ≤ j ∧ numbered j = name := by
  simp [takenFrom]

open Classical in
/-- One turn of the search passes the name of one number. -/
theorem takenFrom_succ (i : Nat) :
    takenFrom names (i + 1) = (takenFrom names i).filter fun name => name ≠ numbered i := by
  simp only [takenFrom, List.filter_filter]
  apply List.filter_congr
  intro name _
  rw [← Bool.decide_and, decide_eq_decide]
  constructor
  · rintro ⟨j, hj, rfl⟩
    refine ⟨fun hname => ?_, j, by omega, rfl⟩
    have heq := numbered_injective hname
    omega
  · rintro ⟨hname, j, hj, rfl⟩
    have hne : j ≠ i := fun heq => hname (heq ▸ rfl)
    exact ⟨j, by omega, rfl⟩

theorem length_takenFrom_succ_lt (h : numbered i ∈ names) :
    (takenFrom names (i + 1)).length < (takenFrom names i).length := by
  rw [takenFrom_succ, List.length_filter_lt_length_iff_exists]
  exact ⟨numbered i, mem_takenFrom.mpr ⟨h, i, Nat.le_refl i, rfl⟩, by simp⟩

variable (names)

theorem length_takenFrom_le (i : Nat) : (takenFrom names i).length ≤ names.length :=
  List.length_filter_le _ names

/-- The number at which a search from `i` ends: it goes on to the next number as long as the name is
taken. -/
def searchFrom (i : Nat) : Nat :=
  if _taken : numbered i ∈ names then searchFrom (i + 1) else i
termination_by (takenFrom names i).length
decreasing_by exact length_takenFrom_succ_lt _taken

/-- What the search has passed is taken, and what it ends at is free. -/
theorem searchFrom_least (i : Nat) :
    IsLeast {j | i ≤ j ∧ numbered j ∉ names} (searchFrom names i) := by
  fun_induction searchFrom names i with
  | case1 i taken ih =>
    refine ⟨⟨Nat.le_of_succ_le ih.1.1, ih.1.2⟩, ?_⟩
    rintro j ⟨hij, hfree⟩
    have hne : j ≠ i := fun heq => hfree (heq ▸ taken)
    exact ih.2 ⟨by omega, hfree⟩
  | case2 i free => exact ⟨⟨Nat.le_refl i, free⟩, fun j hj => hj.1⟩

theorem searchFrom_le (i : Nat) :
    searchFrom names i ≤ i + (takenFrom names i).length := by
  fun_induction searchFrom names i with
  | case1 i taken ih =>
    have hturn := length_takenFrom_succ_lt taken
    omega
  | case2 i free => omega

end Interface

namespace Registry

theorem length_names (r : Registry) : r.names.length = r.size := by simp [names, size]

/-- The search among the names that a registry holds. -/
def searchFrom (r : Registry) (i : Nat) : Nat := Interface.searchFrom r.names i

theorem searchFrom_least (r : Registry) (i : Nat) :
    IsLeast {j | i ≤ j ∧ Interface.numbered j ∉ r.names} (r.searchFrom i) :=
  Interface.searchFrom_least r.names i

/-- A search passes each name that is held at most once. -/
theorem searchFrom_le (r : Registry) (i : Nat) : r.searchFrom i ≤ i + r.size := by
  have hbound := Interface.searchFrom_le r.names i
  have htaken := Interface.length_takenFrom_le r.names i
  rw [r.length_names] at htaken
  exact Nat.le_trans hbound (Nat.add_le_add_left htaken i)

theorem nextNumber_eq_searchFrom (r : Registry) :
    r.nextNumber = r.searchFrom (r.size + 1) := by
  obtain ⟨⟨hstart, hfree⟩, hleast⟩ := r.searchFrom_least (r.size + 1)
  have hbound := r.searchFrom_le (r.size + 1)
  have hfound : (List.range' (r.size + 1) (r.size + 1)).find?
      (fun i => !r.contains (Interface.numbered i)) = some (r.searchFrom (r.size + 1)) := by
    rw [List.find?_range'_eq_some]
    refine ⟨by simpa [contains] using hfree, List.mem_range'_1.mpr (by omega), ?_⟩
    intro j hj hlt
    have hpassed : ¬Interface.numbered j ∉ r.names := fun hjfree =>
      Nat.not_le.mpr hlt (hleast ⟨hj, hjfree⟩)
    simpa [contains] using hpassed
  simp only [nextNumber, hfound, Option.getD_some]

theorem nextName_notMem_names (r : Registry) : r.nextName ∉ r.names := by
  rw [nextName, nextNumber_eq_searchFrom]
  exact (r.searchFrom_least (r.size + 1)).1.2

/-- The search for the next name ends, whatever names are held: at the least number above the size
whose name is free, after at most as many turns as there are interfaces. -/
theorem next_name_is_least_free (r : Registry) :
    ∃ i, r.nextName = "Interface" ++ toString i ∧ i = r.searchFrom (r.size + 1) ∧
      IsLeast {j | r.size + 1 ≤ j ∧ r.contains ("Interface" ++ toString j) = false} i ∧
      i ≤ 2 * r.size + 1 ∧ r.contains r.nextName = false := by
  have hleast := r.searchFrom_least (r.size + 1)
  have hbound := r.searchFrom_le (r.size + 1)
  have hfree : ∀ name, r.contains name = false ↔ name ∉ r.names := by simp [contains]
  refine ⟨r.nextNumber, rfl, r.nextNumber_eq_searchFrom, ?_, ?_, ?_⟩
  · simp only [hfree, nextNumber_eq_searchFrom]
    exact hleast
  · rw [nextNumber_eq_searchFrom]
    omega
  · rw [hfree]
    exact r.nextName_notMem_names

end Registry

end ScriptTyping
