import Mathlib.Data.List.Basic

/-!
# Machinery/Unwinding — who can tell what the others do

Several parties act on one state.  What a party sees is its own doing if the actions of the others
change nothing it can see, and its own actions lead from states that look alike to states that look
alike (`observe_eq_of_purge_eq`).

This is noninterference in its plainest form, for parties that may not influence each other at all.
It asks for an equivalence of states for each party and two facts about single steps; the fact about
runs follows by induction, and what a party observes may be anything that alike states agree on.
-/

namespace Unwinding

variable {σ α κ β : Type*} [DecidableEq κ] (step : σ → α → σ) (party : α → κ)

/-- Take the actions one after the other. -/
def run (s : σ) (as : List α) : σ := as.foldl step s

/-- The actions of one party. -/
def purge (i : κ) (as : List α) : List α := as.filter fun a => party a = i

/-- **States look alike to a party.**  Its own actions keep them alike, and those of the others are
not seen. -/
structure Alike (i : κ) (alike : σ → σ → Prop) : Prop where
  own : ∀ s t a, alike s t → party a = i → alike (step s a) (step t a)
  other : ∀ s t a, alike s t → party a ≠ i → alike (step s a) t

variable {step party} {i : κ} {alike : σ → σ → Prop}

/-- **To a party a run looks like that of its own actions.** -/
theorem Alike.run_purge (h : Alike step party i alike) {s t : σ} (hst : alike s t) (as : List α) :
    alike (run step s as) (run step t (purge party i as)) := by
  induction as generalizing s t with
  | nil => exact hst
  | cons a as ih =>
    by_cases ha : party a = i
    · rw [purge, List.filter_cons_of_pos (by simpa using ha)]
      exact ih (h.own s t a hst ha)
    · rw [purge, List.filter_cons_of_neg (by simpa using ha)]
      exact ih (h.other s t a hst ha)

/-- **What a party observes depends on its own actions alone.** -/
theorem observe_eq_of_purge_eq (h : Alike step party i alike) {observe : σ → β}
    (hobserve : ∀ s t, alike s t → observe s = observe t) {s : σ} (hs : alike s s) {as bs : List α}
    (hpurge : purge party i as = purge party i bs) :
    observe (run step s as) = observe (run step s bs) := by
  rw [hobserve _ _ (h.run_purge hs as), hpurge, ← hobserve _ _ (h.run_purge hs bs)]

end Unwinding
