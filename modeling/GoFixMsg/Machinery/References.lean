import Mathlib.Data.Fintype.Card
import Mathlib.Data.Set.Finite.Basic
import Mathlib.Logic.Relation

/-!
# Machinery/References — following references

What a recursion along references needs: loops that stop when one of their calls does not return,
and the well-foundedness of a relation on finitely many names that has no cycle
(`acc_iff_no_cycle`).

The recursions meant here are given fuel, for nothing in the program bounds their depth: they return
a result where the fuel is enough, and nothing else.  So what is shown of a loop is when it returns,
that it returns the same with more fuel, and what it has done when it does.
-/

namespace References

/-! ## Loops that may not return

A loop is a fold in `Option`.  It returns exactly if each call in it does, provided a call's
returning does not depend on what has been done before; and then it is the fold of the calls. -/

section Loops

variable {α σ : Type*} {f g : σ → α → Option σ} {l : List α} {s s' : σ}

theorem foldlM_cons_eq_some {a : α} :
    (a :: l).foldlM f s = some s' ↔ ∃ t, f s a = some t ∧ l.foldlM f t = some s' := by
  rw [List.foldlM_cons]
  exact Option.bind_eq_some_iff

/-- A loop returns where each of its calls does, whatever has been done before. -/
theorem foldlM_isSome (h : ∀ a ∈ l, ∀ t, (f t a).isSome) (s : σ) : (l.foldlM f s).isSome := by
  induction l generalizing s with
  | nil => rfl
  | cons a l ih =>
    obtain ⟨t, ht⟩ := Option.isSome_iff_exists.mp (h a List.mem_cons_self s)
    obtain ⟨u, hu⟩ := Option.isSome_iff_exists.mp (ih (fun b hb => h b (List.mem_cons_of_mem _ hb)) t)
    rw [foldlM_cons_eq_some.mpr ⟨t, ht, hu⟩]
    rfl

/-- In a loop that returns, each call has returned. -/
theorem exists_of_foldlM (h : l.foldlM f s = some s') : ∀ a ∈ l, ∃ t t', f t a = some t' := by
  induction l generalizing s with
  | nil => exact fun a ha => absurd ha List.not_mem_nil
  | cons a l ih =>
    obtain ⟨t, ht, hrest⟩ := foldlM_cons_eq_some.mp h
    intro b hb
    rcases List.mem_cons.mp hb with rfl | hb
    · exact ⟨s, t, ht⟩
    · exact ih hrest b hb

/-- **A loop returns exactly if each of its calls does**, if that is the same for any state. -/
theorem foldlM_isSome_iff {P : α → Prop} (h : ∀ a ∈ l, ∀ t, (f t a).isSome ↔ P a) :
    (l.foldlM f s).isSome ↔ ∀ a ∈ l, P a := by
  constructor
  · intro hsome a ha
    obtain ⟨s', hs'⟩ := Option.isSome_iff_exists.mp hsome
    obtain ⟨t, t', ht⟩ := exists_of_foldlM hs' a ha
    exact (h a ha t).mp (Option.isSome_iff_exists.mpr ⟨t', ht⟩)
  · exact fun hall => foldlM_isSome (fun a ha t => (h a ha t).mpr (hall a ha)) s

/-- A loop whose calls all still return what they did returns what it did. -/
theorem foldlM_mono (h : ∀ a ∈ l, ∀ t t', f t a = some t' → g t a = some t')
    (hf : l.foldlM f s = some s') : l.foldlM g s = some s' := by
  induction l generalizing s with
  | nil => exact hf
  | cons a l ih =>
    obtain ⟨t, ht, hrest⟩ := foldlM_cons_eq_some.mp hf
    exact foldlM_cons_eq_some.mpr
      ⟨t, h a List.mem_cons_self s t ht, ih (fun b hb => h b (List.mem_cons_of_mem _ hb)) hrest⟩

/-- A loop that returns has done what its calls do. -/
theorem foldlM_eq_foldl {step : σ → α → σ} (h : ∀ a ∈ l, ∀ t t', f t a = some t' → t' = step t a)
    (hf : l.foldlM f s = some s') : s' = l.foldl step s := by
  induction l generalizing s with
  | nil => exact (Option.some.inj hf).symm
  | cons a l ih =>
    obtain ⟨t, ht, hrest⟩ := foldlM_cons_eq_some.mp hf
    rw [List.foldl_cons, ← h a List.mem_cons_self s t ht]
    exact ih (fun b hb => h b (List.mem_cons_of_mem _ hb)) hrest

/-- Finitely many bounds have one in common. -/
theorem exists_bound {P : ℕ → α → Prop} (hmono : ∀ a m n, m ≤ n → P m a → P n a)
    (h : ∀ a ∈ l, ∃ n, P n a) : ∃ n, ∀ a ∈ l, P n a := by
  induction l with
  | nil => exact ⟨0, fun a ha => absurd ha List.not_mem_nil⟩
  | cons a l ih =>
    obtain ⟨m, hm⟩ := h a List.mem_cons_self
    obtain ⟨n, hn⟩ := ih fun b hb => h b (List.mem_cons_of_mem _ hb)
    refine ⟨max m n, fun b hb => ?_⟩
    rcases List.mem_cons.mp hb with rfl | hb
    · exact hmono _ _ _ (Nat.le_max_left m n) hm
    · exact hmono _ _ _ (Nat.le_max_right m n) (hn b hb)

end Loops

/-! ## Cycles

The recursion ends where the relation is well-founded below the start.  On a finite number of names
that is the same as having no cycle in reach. -/

section Cycles

open Relation

variable {α : Type*} {r : α → α → Prop}

/-- **Where only finitely many things are referred to, following references ends exactly if none
that is reached leads back to itself.**  Those that are reached from `a` in a step or more are
finitely many, and without a cycle each step leaves fewer of them. -/
theorem acc_iff_no_cycle (hfin : {b | ∃ a, r a b}.Finite) (a : α) :
    Acc (Function.swap r) a ↔ ∀ b, ReflTransGen r a b → ¬ TransGen r b b := by
  constructor
  · intro hacc
    induction hacc with
    | intro a _ ih =>
      intro b hreach hcycle
      rcases ReflTransGen.cases_head hreach with rfl | ⟨c, hac, hcb⟩
      · obtain ⟨c, hac, hca⟩ := TransGen.head'_iff.mp hcycle
        exact ih c hac c .refl (TransGen.tail' hca hac)
      · exact ih c hac b hcb hcycle
  · intro hno
    let reached := {b // TransGen r a b}
    have hfinite : Finite reached :=
      Set.Finite.subset hfin fun b hb => by
        obtain ⟨c, -, hcb⟩ := TransGen.tail'_iff.mp hb
        exact ⟨c, hcb⟩
    let below : reached → reached → Prop := fun x y => TransGen r y.1 x.1
    have : IsTrans reached below := ⟨fun x y z hxy hyz => TransGen.trans hyz hxy⟩
    have : Std.Irrefl below := ⟨fun x => hno x.1 x.2.to_reflTransGen⟩
    have hwf : WellFounded below := Finite.wellFounded_of_trans_of_irrefl below
    have hreached : ∀ x : reached, Acc (Function.swap r) x.1 := by
      intro x
      induction x using hwf.induction with
      | h y ih => exact ⟨_, fun c hc => ih ⟨c, y.2.tail hc⟩ (TransGen.single hc)⟩
    exact ⟨_, fun b hb => hreached ⟨b, TransGen.single hb⟩⟩

end Cycles

end References
