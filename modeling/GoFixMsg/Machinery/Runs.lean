import Mathlib.Data.Nat.Notation
import Mathlib.Data.List.Induction
import Mathlib.Data.Option.Basic
import Mathlib.Logic.Function.Basic
import Mathlib.Logic.Relation

/-!
# Machinery/Runs — runs of a system of concurrent calls

A system is a partial step function: an action the state does not enable has no result.  A run takes
a list of actions one after the other, and `Meets` says that each of them meets a condition in the
state it is taken in.  What one such step preserves, a run preserves (`run_invariant`).

Calls in progress are a table from callers to what the caller holds, so that any number of them
interleave.

A property of runs is got from the steps in one of four ways: an invariant (`run_invariant`), a fact
about the whole run so far (`run_history`), a measure that goes down (`exists_run_of_descent`,
`acc_of_descent`), or a simulation of another system (`run_simulated`).  Two conditions on the steps
that come to the same in every state that keeps an invariant come to the same over runs
(`meets_iff`); with this an exact condition on the steps becomes one on the runs.
-/

namespace Runs

variable {σ α : Type*} (step : σ → α → Option σ)

/-- Take the actions one after the other. -/
def run : σ → List α → Option σ
  | s, [] => some s
  | s, a :: as => (step s a).bind fun s' => run s' as

/-- **Every action of a run meets the condition**, in the state it is taken in. -/
def Meets (ok : σ → α → Prop) : σ → List α → Prop
  | _, [] => True
  | s, a :: as => ok s a ∧ ∀ s', step s a = some s' → Meets ok s' as

variable {step}

theorem run_cons_eq_some {s s' : σ} {a : α} {as : List α} :
    run step s (a :: as) = some s' ↔ ∃ t, step s a = some t ∧ run step t as = some s' :=
  Option.bind_eq_some_iff

theorem run_append_eq_some {s s' : σ} {as bs : List α} :
    run step s (as ++ bs) = some s' ↔ ∃ t, run step s as = some t ∧ run step t bs = some s' := by
  induction as generalizing s with
  | nil =>
    constructor
    · exact fun h => ⟨s, rfl, h⟩
    · rintro ⟨t, ht, h⟩
      exact Option.some.inj ht ▸ h
  | cons a as ih =>
    rw [List.cons_append, run_cons_eq_some]
    simp only [run_cons_eq_some, ih]
    constructor
    · rintro ⟨u, hu, t, ht, h⟩
      exact ⟨t, ⟨u, hu, ht⟩, h⟩
    · rintro ⟨t, ⟨u, hu, ht⟩, h⟩
      exact ⟨u, hu, t, ht, h⟩

/-- What a step does that is enabled by a condition. -/
theorem of_guarded {c : Prop} [Decidable c] {s s' : σ} (h : (if c then some s else none) = some s') :
    c ∧ s' = s := by
  obtain ⟨hc, heq⟩ := Option.ite_none_right_eq_some.mp h
  exact ⟨hc, (Option.some.inj heq).symm⟩

/-- A sequence of actions that begins with another action. -/
theorem sublist_cons_of_ne {a b : α} (h : a ≠ b) {l as : List α} :
    (a :: l).Sublist (b :: as) ↔ (a :: l).Sublist as := by
  rw [List.sublist_cons_iff]
  refine or_iff_left ?_
  rintro ⟨r, hr, -⟩
  exact h (List.cons.inj hr).1

theorem meets_cons_iff {ok : σ → α → Prop} {s s' : σ} {a : α} {as : List α}
    (hstep : step s a = some s') : Meets step ok s (a :: as) ↔ ok s a ∧ Meets step ok s' as := by
  refine and_congr Iff.rfl ⟨fun h => h s' hstep, fun h t ht => ?_⟩
  rw [hstep] at ht
  exact Option.some.inj ht ▸ h

/-- Where the condition on a step can be decided, that on a run can: along the one run there is. -/
instance decidableMeets (ok : σ → α → Prop) [∀ s a, Decidable (ok s a)] :
    ∀ s as, Decidable (Meets step ok s as)
  | _, [] => isTrue trivial
  | s, a :: as =>
      match h : step s a with
      | none => decidable_of_iff (ok s a)
          ⟨fun hok => ⟨hok, fun _ ht => absurd (h.symm.trans ht) nofun⟩, And.left⟩
      | some t =>
          haveI := decidableMeets ok t as
          decidable_of_iff (ok s a ∧ Meets step ok t as) (meets_cons_iff h).symm

/-- **What a step preserves, a run preserves.** -/
theorem run_invariant (inv : σ → Prop) {ok : σ → α → Prop}
    (hstep : ∀ s a s', inv s → ok s a → step s a = some s' → inv s') {s s' : σ} {as : List α}
    (hs : inv s) (hok : Meets step ok s as) (hrun : run step s as = some s') : inv s' := by
  induction as generalizing s with
  | nil => exact Option.some.inj hrun ▸ hs
  | cons a as ih =>
    obtain ⟨t, ht, hrest⟩ := run_cons_eq_some.mp hrun
    exact ih (hstep s a t hs hok.1 ht) (hok.2 t ht) hrest

/-- **What an invariant says of each step, a run shows of each action.** -/
theorem run_forall (inv : σ → Prop) {ok : σ → α → Prop} {q : α → Prop}
    (hstep : ∀ s a s', inv s → ok s a → step s a = some s' → inv s' ∧ q a) {s s' : σ} {as : List α}
    (hs : inv s) (hok : Meets step ok s as) (hrun : run step s as = some s') : ∀ a ∈ as, q a := by
  induction as generalizing s with
  | nil => exact fun _ h => absurd h List.not_mem_nil
  | cons a as ih =>
    obtain ⟨t, ht, hrest⟩ := run_cons_eq_some.mp hrun
    obtain ⟨hinv, hq⟩ := hstep s a t hs hok.1 ht
    exact List.forall_mem_cons.mpr ⟨hq, ih hinv (hok.2 t ht) hrest⟩

/-- Two conditions met along a run. -/
theorem Meets.and {ok ok' : σ → α → Prop} {s : σ} {as : List α} (h : Meets step ok s as)
    (h' : Meets step ok' s as) : Meets step (fun s a => ok s a ∧ ok' s a) s as := by
  induction as generalizing s with
  | nil => trivial
  | cons a as ih => exact ⟨⟨h.1, h'.1⟩, fun t ht => ih (h.2 t ht) (h'.2 t ht)⟩

/-- The same, where every step preserves it. -/
theorem run_kept (inv : σ → Prop) (hstep : ∀ s a s', inv s → step s a = some s' → inv s') {s s' : σ}
    {as : List α} (hs : inv s) (hrun : run step s as = some s') : inv s' := by
  induction as generalizing s with
  | nil => exact Option.some.inj hrun ▸ hs
  | cons a as ih =>
    obtain ⟨t, ht, hrest⟩ := run_cons_eq_some.mp hrun
    exact ih (hstep s a t hs ht) hrest

/-- **What holds of a run and the state it leads to**: of the empty run, and of one step more. -/
theorem run_history {s : σ} {P : List α → σ → Prop} (hnil : P [] s)
    (hstep : ∀ as t a t', run step s as = some t → P as t → step t a = some t' → P (as ++ [a]) t')
    {s' : σ} {as : List α} (hrun : run step s as = some s') : P as s' := by
  induction as using List.reverseRecOn generalizing s' with
  | nil => exact Option.some.inj hrun ▸ hnil
  | append_singleton as a ih =>
    obtain ⟨t, ht, hlast⟩ := run_append_eq_some.mp hrun
    obtain ⟨t', ht', hend⟩ := run_cons_eq_some.mp hlast
    exact Option.some.inj hend ▸ hstep as t a t' ht (ih ht) ht'

/-- **A condition on the steps gives another** over runs, if it does in every state that keeps an
invariant, and steps that meet it keep that. -/
theorem Meets.imp {ok ok' : σ → α → Prop} (inv : σ → Prop)
    (hstep : ∀ s a s', inv s → ok s a → step s a = some s' → inv s')
    (himp : ∀ s a, inv s → ok s a → ok' s a) {s : σ} {as : List α}
    (h : Meets step ok s as) (hs : inv s) : Meets step ok' s as := by
  induction as generalizing s with
  | nil => trivial
  | cons a as ih =>
    exact ⟨himp s a hs h.1, fun t ht => ih (h.2 t ht) (hstep s a t hs h.1 ht)⟩

/-- **Two conditions on the steps come to the same** over runs, if they do on each step from a state
that keeps an invariant, and a step that meets them keeps it. -/
theorem meets_iff {inv : σ → Prop} {ok ok' : σ → α → Prop}
    (hstep : ∀ s a s', inv s → ok' s a → step s a = some s' → inv s')
    (hiff : ∀ s a s', inv s → step s a = some s' → (ok s a ↔ ok' s a)) {s s' : σ} {as : List α}
    (hs : inv s) (hrun : run step s as = some s') : Meets step ok s as ↔ Meets step ok' s as := by
  induction as generalizing s with
  | nil => exact Iff.rfl
  | cons a as ih =>
    obtain ⟨t, ht, hrest⟩ := run_cons_eq_some.mp hrun
    rw [meets_cons_iff ht, meets_cons_iff ht, hiff s a t hs ht]
    exact and_congr_right fun hok => ih (hstep s a t hs hok ht) hrest

/-- The same, under an invariant that every step keeps. -/
theorem meets_congr {inv : σ → Prop} {ok ok' : σ → α → Prop}
    (hstep : ∀ s a s', inv s → step s a = some s' → inv s')
    (hiff : ∀ s a s', inv s → step s a = some s' → (ok s a ↔ ok' s a)) {s s' : σ} {as : List α}
    (hs : inv s) (hrun : run step s as = some s') : Meets step ok s as ↔ Meets step ok' s as :=
  meets_iff (fun s a s' hinv _ => hstep s a s' hinv) hiff hs hrun

/-- A condition that every action meets in every state. -/
theorem meets_of_forall {ok : σ → α → Prop} {as : List α} (h : ∀ a ∈ as, ∀ s, ok s a) (s : σ) :
    Meets step ok s as := by
  induction as generalizing s with
  | nil => trivial
  | cons a as ih =>
    exact ⟨h a List.mem_cons_self s, fun s' _ => ih (fun b hb => h b (List.mem_cons_of_mem _ hb)) s'⟩

/-- A condition met along a run, and one that every action meets. -/
theorem Meets.and_forall {ok : σ → α → Prop} {p : α → Prop} {s : σ} {as : List α}
    (h : Meets step ok s as) (hp : ∀ a ∈ as, p a) : Meets step (fun s a => ok s a ∧ p a) s as := by
  induction as generalizing s with
  | nil => trivial
  | cons a as ih =>
    refine ⟨⟨h.1, hp a List.mem_cons_self⟩, fun t ht => ?_⟩
    exact ih (h.2 t ht) fun b hb => hp b (List.mem_cons_of_mem _ hb)

/-- **A run meets the condition and keeps the invariant, or it does neither**: where a step off the
condition leads to a state of a kind that no step leaves. -/
theorem run_meets_or {inv bad : σ → Prop} {ok : σ → α → Prop}
    (hstep : ∀ s a s', inv s → ok s a → step s a = some s' → inv s')
    (hoff : ∀ s a s', inv s → ¬ ok s a → step s a = some s' → bad s')
    (hbad : ∀ s a s', bad s → step s a = some s' → bad s') {s s' : σ} {as : List α} (hs : inv s)
    (hrun : run step s as = some s') :
    (Meets step ok s as ∧ inv s') ∨ (¬ Meets step ok s as ∧ bad s') := by
  induction as generalizing s with
  | nil => exact Or.inl ⟨trivial, Option.some.inj hrun ▸ hs⟩
  | cons a as ih =>
    obtain ⟨t, ht, hrest⟩ := run_cons_eq_some.mp hrun
    by_cases hok : ok s a
    · rcases ih (hstep s a t hs hok ht) hrest with ⟨hmeets, hinv⟩ | ⟨hnot, hb⟩
      · exact Or.inl ⟨(meets_cons_iff ht).mpr ⟨hok, hmeets⟩, hinv⟩
      · exact Or.inr ⟨fun hmeets => hnot (hmeets.2 t ht), hb⟩
    · refine Or.inr ⟨fun hmeets => hok hmeets.1, ?_⟩
      exact run_kept bad hbad (hoff s a t hs hok ht) hrest

/-- **Where every state that is not done has a step down some well-founded order, a run leads to one
that is**, by steps of that kind. -/
theorem exists_run_of_descent {inv done : σ → Prop} (ok : σ → α → Prop) {β : Type*}
    {r : β → β → Prop} (hr : WellFounded r) (μ : σ → β) (hprogress : ∀ s, inv s → ¬ done s →
      ∃ a s', ok s a ∧ step s a = some s' ∧ inv s' ∧ r (μ s') (μ s)) {s : σ} (hs : inv s) :
    ∃ as s', Meets step ok s as ∧ run step s as = some s' ∧ inv s' ∧ done s' := by
  induction hμ : μ s using hr.induction generalizing s with
  | _ n ih =>
    by_cases hdone : done s
    · exact ⟨[], s, trivial, rfl, hs, hdone⟩
    · obtain ⟨a, t, hok, ht, hinv, hlt⟩ := hprogress s hs hdone
      obtain ⟨as, s', hmeets, hrun, hd⟩ := ih (μ t) (hμ ▸ hlt) hinv rfl
      exact ⟨a :: as, s', (meets_cons_iff ht).mpr ⟨hok, hmeets⟩,
        run_cons_eq_some.mpr ⟨t, ht, hrun⟩, hd⟩

/-- The same, where the order is that of a measure, and any step will do. -/
theorem exists_run_of_progress {inv done : σ → Prop} (μ : σ → ℕ)
    (hprogress : ∀ s, inv s → ¬ done s → ∃ a s', step s a = some s' ∧ inv s' ∧ μ s' < μ s) {s : σ}
    (hs : inv s) : ∃ as s', run step s as = some s' ∧ done s' := by
  obtain ⟨as, s', -, hrun, -, hdone⟩ := exists_run_of_descent (fun _ _ => True) Nat.lt_wfRel.wf μ
    (fun s hinv hnot => by
      obtain ⟨a, t, h⟩ := hprogress s hinv hnot
      exact ⟨a, t, trivial, h⟩) hs
  exact ⟨as, s', hrun, hdone⟩

/-- **Where every step goes down some well-founded order, the steps come to an end.** -/
theorem acc_of_descent (inv : σ → Prop) {ok : α → Prop} {β : Type*} {r : β → β → Prop}
    (hr : WellFounded r) (μ : σ → β)
    (hstep : ∀ s a s', inv s → ok a → step s a = some s' → inv s' ∧ r (μ s') (μ s)) {s : σ}
    (hs : inv s) : Acc (fun t s => ∃ a, ok a ∧ step s a = some t) s := by
  induction hμ : μ s using hr.induction generalizing s with
  | _ n ih =>
    refine Acc.intro s fun t ⟨a, hok, ht⟩ => ?_
    obtain ⟨hinv, hlt⟩ := hstep s a t hs hok ht
    exact ih (μ t) (hμ ▸ hlt) hinv rfl

section Simulation

variable {τ β : Type*} {step' : τ → β → Option τ} (abs : σ → τ) (seen : α → List β)

/-- **A run of a system is a run of what it simulates**: where a step is, seen from another system,
a few steps of that, or none, so is a run. -/
theorem run_simulated {inv : σ → Prop} (ok : σ → α → Prop)
    (hstep : ∀ s a s', inv s → ok s a → step s a = some s' →
      inv s' ∧ run step' (abs s) (seen a) = some (abs s')) {s s' : σ} {as : List α} (hs : inv s)
    (hok : Meets step ok s as) (hrun : run step s as = some s') :
    inv s' ∧ run step' (abs s) (as.flatMap seen) = some (abs s') := by
  induction as generalizing s with
  | nil => exact Option.some.inj hrun ▸ ⟨hs, rfl⟩
  | cons a as ih =>
    obtain ⟨t, ht, hrest⟩ := run_cons_eq_some.mp hrun
    obtain ⟨hinv, hseen⟩ := hstep s a t hs hok.1 ht
    obtain ⟨hinv', hrun'⟩ := ih hinv (hok.2 t ht) hrest
    exact ⟨hinv', List.flatMap_cons ▸ run_append_eq_some.mpr ⟨abs t, hseen, hrun'⟩⟩

/-- A run of at least one step. -/
theorem transGen_of_run {ok : α → Prop} {s s' : σ} {as : List α} (hne : as ≠ [])
    (hok : ∀ a ∈ as, ok a) (hrun : run step s as = some s') :
    Relation.TransGen (fun t s => ∃ a, ok a ∧ step s a = some t) s' s := by
  induction as generalizing s with
  | nil => exact absurd rfl hne
  | cons a as ih =>
    obtain ⟨t, ht, hrest⟩ := run_cons_eq_some.mp hrun
    obtain ⟨ha, has⟩ := List.forall_mem_cons.mp hok
    cases as with
    | nil => exact Option.some.inj hrest ▸ .single ⟨a, ha, ht⟩
    | cons b bs => exact (ih (List.cons_ne_nil b bs) has hrest).tail ⟨a, ha, ht⟩

/-- **Where the steps of a system come to an end, so do those that it sees of another.** -/
theorem acc_of_simulated {inv : σ → Prop} {ok : α → Prop} (ok' : β → Prop)
    (hstep : ∀ s a s', inv s → ok a → step s a = some s' →
      inv s' ∧ run step' (abs s) (seen a) = some (abs s'))
    (hseen : ∀ a, ok a → ∀ b ∈ seen a, ok' b) {s : σ} (hs : inv s)
    (hacc : Acc (fun t s => ∃ b, ok' b ∧ step' s b = some t) (abs s)) :
    Acc (fun t s => ∃ as, (∀ a ∈ as, ok a) ∧ as.flatMap seen ≠ [] ∧ run step s as = some t) s := by
  generalize hx : abs s = x at hacc
  induction hacc.transGen generalizing s with
  | intro x _ ih =>
    refine Acc.intro s fun t ⟨as, has, hne, hrun⟩ => ?_
    obtain ⟨hinv, hrun'⟩ := run_simulated abs seen (fun _ a => ok a) hstep hs
      (meets_of_forall (fun a ha _ => has a ha) s) hrun
    have hdown := transGen_of_run hne (fun b hb => by
      obtain ⟨a, ha, hb⟩ := List.mem_flatMap.mp hb
      exact hseen a (has a ha) b hb) hrun'
    rw [hx] at hdown
    exact ih (abs t) hdown hinv rfl (hacc.inv_of_transGen hdown)

end Simulation

end Runs

/-- The calls in progress, by their callers. -/
abbrev Calls (κ : Type*) := ℕ → Option κ

namespace Calls

variable {κ : Type*}

/-- No call is in progress. -/
def Idle (c : Calls κ) : Prop := ∀ i, c i = none

/-- The caller goes on, with what it holds now, or returns. -/
def put (c : Calls κ) (i : ℕ) (x : Option κ) : Calls κ := Function.update c i x

@[simp] theorem put_self (c : Calls κ) (i : ℕ) (x : Option κ) : c.put i x i = x := by
  rw [put, Function.update_self]

theorem put_of_ne (c : Calls κ) {i j : ℕ} (h : j ≠ i) (x : Option κ) : c.put i x j = c j := by
  rw [put, Function.update_of_ne h]

@[simp] theorem put_put (c : Calls κ) (i : ℕ) (x y : Option κ) : (c.put i x).put i y = c.put i y := by
  rw [put, put, put, Function.update_idem]

/-- What a caller holds after one of them went on: the new call, or an old one of another caller. -/
theorem put_eq_some_iff {c : Calls κ} {i j : ℕ} {x : Option κ} {y : κ} :
    c.put i x j = some y ↔ (j = i ∧ x = some y) ∨ (j ≠ i ∧ c j = some y) := by
  by_cases h : j = i
  · subst h
    simp
  · rw [put_of_ne c h]
    simp [h]

/-- A caller that has returned holds nothing. -/
theorem put_none_eq_some_iff {c : Calls κ} {i j : ℕ} {y : κ} :
    c.put i none j = some y ↔ j ≠ i ∧ c j = some y := by
  rw [put_eq_some_iff]
  simp

/-- Nothing changes where a caller goes on with what it held. -/
theorem put_of_eq {c : Calls κ} {i : ℕ} {x : Option κ} (h : c i = x) : c.put i x = c := by
  rw [put, ← h, Function.update_eq_self]

variable {β : Type*}

/-- What a part of the callers hold, read off their calls. -/
def view (f : κ → Option β) (c : Calls κ) : Calls β := fun i => (c i).bind f

theorem view_put (f : κ → Option β) (c : Calls κ) (i : ℕ) (x : Option κ) :
    (c.put i x).view f = (c.view f).put i (x.bind f) := by
  funext j
  by_cases h : j = i
  · subst h
    rw [view, put_self, put_self]
  · rw [view, put_of_ne c h, put_of_ne _ h, view]

/-- A view does not see a caller go on with what the view reads off both calls alike. -/
theorem view_put_of_eq {f : κ → Option β} {c : Calls κ} {i : ℕ} {x : Option κ}
    (h : (c i).bind f = x.bind f) : (c.put i x).view f = c.view f := by
  rw [view_put, put_of_eq h]

theorem view_of_idle {f : κ → Option β} {c : Calls κ} (h : c.Idle) :
    c.view f = fun _ => none := funext fun i => by rw [view, h i, Option.bind_none]

end Calls
