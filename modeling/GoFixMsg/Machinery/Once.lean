import Mathlib.Data.Nat.Notation
import Mathlib.Data.Option.Basic
import Mathlib.Logic.Function.Basic

/-!
# Machinery/Once — a section that one party passes, once

Parties run programs, and a table says which point of its program each is at.  A section of points
is entered by the party that finds a flag down and raises it.  So at most one party is ever inside,
and the section is left at most once (`Once`).

`Once` keeps three cases apart: nobody has entered, somebody is inside, and it has been left.  A
counter beside it counts how often it has been left; it is zero in the first two cases and one in
the third.  A move that does not cross the bounds of the section changes nothing (`Once.move`), so
that an invariant made of several sections is kept move by move.
-/

namespace Points

variable {κ π : Type*}

/-- The party is at one of the points. -/
def At (c : κ → Option π) (P : π → Prop) (k : κ) : Prop := ∃ p ∈ c k, P p

/-- No party is. -/
def Nobody (c : κ → Option π) (P : π → Prop) : Prop := ∀ k, ¬ At c P k

/-- One party is, and no other. -/
def Alone (c : κ → Option π) (P : π → Prop) (k : κ) : Prop := ∀ j, At c P j ↔ j = k

variable {c : κ → Option π} {P : π → Prop} {k : κ}

theorem at_iff {p : π} (h : c k = some p) : At c P k ↔ P p := by
  constructor
  · rintro ⟨q, hq, hP⟩
    rw [Option.mem_def, h] at hq
    exact Option.some.inj hq ▸ hP
  · exact fun hP => ⟨p, h, hP⟩

theorem not_at_of_none (h : c k = none) : ¬ At c P k := by
  rintro ⟨p, hp, -⟩
  rw [Option.mem_def, h] at hp
  cases hp

/-- **A section that is passed once**: whether it was entered, and how often it was left. -/
inductive Once (c : κ → Option π) (P : π → Prop) : Bool → ℕ → Prop where
  | fresh (h : Nobody c P) : Once c P false 0
  | inside (k : κ) (h : Alone c P k) : Once c P true 0
  | passed (h : Nobody c P) : Once c P true 1

namespace Once

variable {entered : Bool} {left : ℕ}

theorem le_one (h : Once c P entered left) : left ≤ 1 := by
  cases h <;> decide

/-- Once entered, and with nobody inside, it has been left. -/
theorem eq_one (h : Once c P true left) (hnobody : Nobody c P) : left = 1 := by
  cases h with
  | inside k h => exact absurd ((h k).mpr rfl) (hnobody k)
  | passed => rfl

/-- While someone is inside it has not been left. -/
theorem eq_zero (h : Once c P entered left) (hat : At c P k) : left = 0 := by
  cases h with
  | fresh => rfl
  | inside => rfl
  | passed h => exact absurd hat (h k)

/-- Whoever is inside has entered. -/
theorem entered_eq (h : Once c P entered left) (hat : At c P k) : entered = true := by
  cases h with
  | fresh h => exact absurd hat (h k)
  | inside => rfl
  | passed => rfl

end Once

variable [DecidableEq κ]

theorem at_update_self {x : Option π} : At (Function.update c k x) P k ↔ ∃ p ∈ x, P p := by
  rw [At, Function.update_self]

theorem at_update_of_ne {j : κ} (h : j ≠ k) {x : Option π} :
    At (Function.update c k x) P j ↔ At c P j := by
  rw [At, Function.update_of_ne h, At]

/-- **A move that does not cross the bounds of the section** changes nobody's being inside. -/
theorem at_update_congr {x : Option π} (h : At c P k ↔ ∃ p ∈ x, P p) (j : κ) :
    At (Function.update c k x) P j ↔ At c P j := by
  by_cases hj : j = k
  · subst hj
    rw [at_update_self, h]
  · exact at_update_of_ne hj

theorem Nobody.enter {p : π} (h : Nobody c P) (hp : P p) :
    Alone (Function.update c k (some p)) P k := by
  intro j
  by_cases hj : j = k
  · subst hj
    exact iff_of_true (at_update_self.mpr ⟨p, rfl, hp⟩) rfl
  · exact iff_of_false (fun hat => h j ((at_update_of_ne hj).mp hat)) hj

theorem Alone.leave {x : Option π} (h : Alone c P k) (hx : ∀ p ∈ x, ¬ P p) :
    Nobody (Function.update c k x) P := by
  intro j hat
  by_cases hj : j = k
  · subst hj
    obtain ⟨p, hp, hP⟩ := at_update_self.mp hat
    exact hx p hp hP
  · exact hj ((h j).mp ((at_update_of_ne hj).mp hat))

/-- Somebody stays at the points, if the one who moves does not leave them. -/
theorem exists_at_update {x : Option π} (h : ∃ j, At c P j) (hk : At c P k → ∃ p ∈ x, P p) :
    ∃ j, At (Function.update c k x) P j := by
  obtain ⟨j, hj⟩ := h
  by_cases hjk : j = k
  · subst hjk
    exact ⟨j, at_update_self.mpr (hk hj)⟩
  · exact ⟨j, (at_update_of_ne hjk).mpr hj⟩

theorem Nobody.move {x : Option π} (h : Nobody c P) (hx : ∀ p ∈ x, ¬ P p) :
    Nobody (Function.update c k x) P := by
  intro j hat
  by_cases hj : j = k
  · subst hj
    obtain ⟨p, hp, hP⟩ := at_update_self.mp hat
    exact hx p hp hP
  · exact h j ((at_update_of_ne hj).mp hat)

namespace Once

variable {entered : Bool} {left : ℕ} {x : Option π}

/-- A move that does not cross its bounds. -/
theorem move (h : Once c P entered left) (hk : At c P k ↔ ∃ p ∈ x, P p) :
    Once (Function.update c k x) P entered left := by
  have hat := at_update_congr hk
  cases h with
  | fresh h => exact .fresh fun j hj => h j ((hat j).mp hj)
  | inside i h => exact .inside i fun j => (hat j).trans (h j)
  | passed h => exact .passed fun j hj => h j ((hat j).mp hj)

/-- The party that finds the flag down raises it, and enters. -/
theorem enter {p : π} (h : Once c P false left) (hp : P p) :
    Once (Function.update c k (some p)) P true left := by
  cases h with
  | fresh h => exact .inside k (h.enter hp)

/-- The party inside leaves. -/
theorem leave (h : Once c P entered left) (hat : At c P k) (hx : ∀ p ∈ x, ¬ P p) :
    Once (Function.update c k x) P entered (left + 1) := by
  cases h with
  | fresh h => exact absurd hat (h k)
  | inside i h =>
    cases (h k).mp hat
    exact .passed (h.leave hx)
  | passed h => exact absurd hat (h k)

end Once

end Points
