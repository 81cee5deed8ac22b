import Mathlib.Data.List.Nodup
import Mathlib.Logic.Relation
import Mathlib.Order.Lattice
import GoFixMsg.Machinery.Runs

/-!
# Machinery/Tickets — numbers drawn in order and released later

Holders draw ascending numbers, each at most one at a time, and release them later or drop them.
No number is released twice (`Inv.nodup`); where a holder only releases while nobody holds a smaller
number, the numbers are released in the order they were drawn (`Inv.sorted`).

The numbers are those of any linear order, and each draw goes up; a system whose numbers wrap has to
say that they have not.  Drawing and releasing are apart, so between the two anybody else may draw,
drop and release.  A system of which every step is one of these, or none (`Inv.reflGen`), inherits
both facts.
-/

namespace Tickets

variable {ν : Type*} [LinearOrder ν]

/-- The last number drawn, who holds which number, and the numbers released so far. -/
structure State (ν : Type*) where
  last : ν
  held : Calls ν
  released : List ν

/-- The steps; where releases are `ordered`, nobody holds a smaller number than the one released. -/
inductive Step (ordered : Prop) : State ν → State ν → Prop where
  | draw {s : State ν} {i : ℕ} {n : ν} (hnext : s.last < n) :
      Step ordered s ⟨n, s.held.put i (some n), s.released⟩
  | drop {s : State ν} {i : ℕ} : Step ordered s ⟨s.last, s.held.put i none, s.released⟩
  | release {s : State ν} {i : ℕ} {n : ν} (hheld : s.held i = some n)
      (hmin : ordered → ∀ j k, s.held j = some k → n ≤ k) :
      Step ordered s ⟨s.last, s.held.put i none, s.released ++ [n]⟩

/-- What holds of every state: the numbers in circulation are different, and none is ahead of the
last one drawn. -/
structure Inv (ordered : Prop) (s : State ν) : Prop where
  released_le : ∀ n ∈ s.released, n ≤ s.last
  held_le : ∀ i n, s.held i = some n → n ≤ s.last
  held_inj : ∀ i j n, s.held i = some n → s.held j = some n → i = j
  held_fresh : ∀ i n, s.held i = some n → n ∉ s.released
  nodup : s.released.Nodup
  released_lt : ordered → ∀ i n, s.held i = some n → ∀ k ∈ s.released, k < n
  sorted : ordered → s.released.Pairwise (· < ·)

/-- Nothing is held and nothing has been released. -/
theorem inv_start (ordered : Prop) (last : ν) : Inv ordered ⟨last, fun _ => none, []⟩ where
  released_le _ hn := absurd hn List.not_mem_nil
  held_le _ _ h := by cases h
  held_inj _ _ _ h := by cases h
  held_fresh _ _ h := by cases h
  nodup := List.nodup_nil
  released_lt _ _ _ h := by cases h
  sorted _ := List.Pairwise.nil

variable {ordered : Prop} {s s' : State ν}

/-- A number that is drawn is ahead of all there are. -/
theorem Inv.draw (h : Inv ordered s) (i : ℕ) {n : ν} (hnext : s.last < n) :
    Inv ordered ⟨n, s.held.put i (some n), s.released⟩ where
  released_le k hk := (h.released_le k hk).trans hnext.le
  held_le j k hj := by
    rcases Calls.put_eq_some_iff.mp hj with ⟨-, hk⟩ | ⟨-, hk⟩
    · exact (Option.some.inj hk).ge
    · exact (h.held_le j k hk).trans hnext.le
  held_inj j l k hj hl := by
    rcases Calls.put_eq_some_iff.mp hj with ⟨rfl, hk⟩ | ⟨-, hk⟩ <;>
      rcases Calls.put_eq_some_iff.mp hl with ⟨rfl, hk'⟩ | ⟨-, hk'⟩
    · rfl
    · cases hk
      exact absurd (h.held_le l _ hk') hnext.not_ge
    · cases hk'
      exact absurd (h.held_le j _ hk) hnext.not_ge
    · exact h.held_inj j l k hk hk'
  held_fresh j k hj hk := by
    rcases Calls.put_eq_some_iff.mp hj with ⟨-, hk'⟩ | ⟨-, hk'⟩
    · cases hk'
      exact absurd (h.released_le _ hk) hnext.not_ge
    · exact h.held_fresh j k hk' hk
  nodup := h.nodup
  released_lt ho j k hj l hl := by
    rcases Calls.put_eq_some_iff.mp hj with ⟨-, hk⟩ | ⟨-, hk⟩
    · cases hk
      exact (h.released_le l hl).trans_lt hnext
    · exact h.released_lt ho j k hk l hl
  sorted := h.sorted

/-- A number that is dropped is held no more. -/
theorem Inv.drop (h : Inv ordered s) (i : ℕ) :
    Inv ordered ⟨s.last, s.held.put i none, s.released⟩ := by
  have hold : ∀ j k, s.held.put i none j = some k → s.held j = some k := fun j k hj =>
    (Calls.put_none_eq_some_iff.mp hj).2
  exact ⟨h.released_le, fun j k hj => h.held_le j k (hold j k hj),
    fun j l k hj hl => h.held_inj j l k (hold j k hj) (hold l k hl),
    fun j k hj => h.held_fresh j k (hold j k hj), h.nodup,
    fun ho j k hj => h.released_lt ho j k (hold j k hj), h.sorted⟩

/-- A number that nobody holds is released: where releases are ordered, one between those released
and those held. -/
theorem Inv.append (h : Inv ordered s) {n : ν} (hle : n ≤ s.last)
    (hfree : ∀ j, s.held j ≠ some n) (hnew : n ∉ s.released)
    (hlt : ordered → ∀ k ∈ s.released, k < n)
    (hmin : ordered → ∀ j k, s.held j = some k → n < k) :
    Inv ordered ⟨s.last, s.held, s.released ++ [n]⟩ where
  released_le k hk := by
    rcases List.mem_append.mp hk with hk | hk
    · exact h.released_le k hk
    · exact List.mem_singleton.mp hk ▸ hle
  held_le := h.held_le
  held_inj := h.held_inj
  held_fresh j k hj hk := by
    rcases List.mem_append.mp hk with hk | hk
    · exact h.held_fresh j k hj hk
    · exact hfree j (List.mem_singleton.mp hk ▸ hj)
  nodup := by
    refine List.nodup_append.mpr ⟨h.nodup, List.nodup_singleton n, fun k hk l hl hkl => ?_⟩
    rw [List.mem_singleton.mp hl] at hkl
    exact hnew (hkl ▸ hk)
  released_lt ho j k hj l hl := by
    rcases List.mem_append.mp hl with hl | hl
    · exact h.released_lt ho j k hj l hl
    · exact List.mem_singleton.mp hl ▸ hmin ho j k hj
  sorted ho := by
    refine List.pairwise_append.mpr ⟨h.sorted ho, List.pairwise_singleton _ _, fun k hk l hl => ?_⟩
    exact List.mem_singleton.mp hl ▸ hlt ho k hk

/-- **Every step keeps the numbers apart**, and ordered ones keep the released numbers in order. -/
theorem Inv.step (h : Inv ordered s) (hstep : Step ordered s s') : Inv ordered s' := by
  cases hstep with
  | @draw i n hnext => exact h.draw i hnext
  | @drop i => exact h.drop i
  | @release i n hheld hmin =>
    have hother : ∀ j k, s.held.put i none j = some k → k ≠ n := by
      rintro j k hj rfl
      obtain ⟨hne, hk⟩ := Calls.put_none_eq_some_iff.mp hj
      exact hne (h.held_inj j i k hk hheld)
    refine (h.drop i).append (h.held_le i n hheld) (fun j hj => hother j n hj rfl)
      (h.held_fresh i n hheld) (fun ho => h.released_lt ho i n hheld) fun ho j k hj => ?_
    exact lt_of_le_of_ne (hmin ho j k (Calls.put_none_eq_some_iff.mp hj).2) (hother j k hj).symm

/-- A step of a larger system that is a step here, or none. -/
theorem Inv.reflGen (h : Inv ordered s) (hstep : Relation.ReflGen (Step ordered) s s') :
    Inv ordered s' := by
  cases hstep with
  | refl => exact h
  | single hstep => exact h.step hstep

end Tickets
