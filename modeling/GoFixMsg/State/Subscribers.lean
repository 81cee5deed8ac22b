import Mathlib.Algebra.Order.Group.Multiset
import GoFixMsg.Machinery.Runs
import GoFixMsg.State.StateMachine

/-!
# State/Subscribers — what the subscribers of a state machine are told

`OnEvent` changes the state under the lock.  Once the lock is given back it starts one goroutine for
each subscriber, and nothing orders the goroutines of one change before those of the next.  So every
subscriber is told every change once (`told_add_pending`), but two changes under way at the same
time may reach it in either order.

The order in which a subscriber is told is therefore right exactly where each change waits for the
ones before: `OnEvent` is only called again when all subscribers have been told
(`inOrder_of_quiet`).  Given nothing but the events, no schedule can be relied on as soon as they
make two changes (`exists_run_not_inOrder`).
-/

namespace FixMsg

/-- **A state machine with its notifications under way**: the changes of state so far, the `OnEvent`
calls that go through the subscribers, with the new state and the next subscriber, the goroutines
started and not run yet, and what each subscriber has been called with. -/
structure Notifier where
  state : State
  changes : List State
  calls : Multiset (State × ℕ)
  goroutines : Multiset (ℕ × State)
  told : ℕ → List State

/-- What the callers of `OnEvent` and the goroutines do. -/
inductive NotifierAction where
  | onEvent (event : StateEvent)
  | spawn (next : State) (k : ℕ)
  | ret (next : State)
  | callback (i : ℕ) (next : State)

namespace Notifier

/-- A state machine in a state, before the run. -/
def start (s : State) : Notifier := ⟨s, [], 0, 0, fun _ => []⟩

/-- One step, with `n` subscribers.  Any goroutine may call `OnEvent` at any time. -/
def step (n : ℕ) (s : Notifier) : NotifierAction → Option Notifier
  | .onEvent event =>
      let next := (s.state.onEvent event).1
      if next = s.state then some s
      else
        some { s with
          state := next
          changes := s.changes ++ [next]
          calls := (next, 0) ::ₘ s.calls }
  -- `go cb(next)`
  | .spawn next k =>
      if (next, k) ∈ s.calls ∧ k < n then
        some { s with
          calls := (next, k + 1) ::ₘ s.calls.erase (next, k)
          goroutines := (k, next) ::ₘ s.goroutines }
      else none
  | .ret next =>
      if (next, n) ∈ s.calls then some { s with calls := s.calls.erase (next, n) } else none
  | .callback i next =>
      if (i, next) ∈ s.goroutines then
        some { s with
          goroutines := s.goroutines.erase (i, next)
          told := Function.update s.told i (s.told i ++ [next]) }
      else none

/-- The changes a subscriber is still to be told: those whose caller has not come to it, and those
whose goroutine has not run. -/
def pending (s : Notifier) (i : ℕ) : Multiset State :=
  (s.calls.filter fun c => c.2 ≤ i).map Prod.fst
    + (s.goroutines.filter fun g => g.1 = i).map Prod.snd

/-- All calls have returned, those of `OnEvent` and those of the subscribers. -/
def Settled (s : Notifier) : Prop := s.calls = 0 ∧ s.goroutines = 0

/-- **The subscribers see the changes in order**: each has been told the first of them, each once
and in their order, and all of them once the calls have returned, the last being the state. -/
def InOrder (n : ℕ) (s : Notifier) : Prop :=
  ∀ i < n, s.told i <+: s.changes
    ∧ (s.Settled → s.told i = s.changes ∧ ∀ x, (s.told i).getLast? = some x → x = s.state)

/-! ## Every change is told once

A change is held by its caller for the subscribers it has not come to, then by the goroutine it has
started for each, and then it has been told.  It passes from one to the next, and is neither lost
nor doubled. -/

/-- What a subscriber has been told and what it is still to be told are the changes. -/
def Accounted (n : ℕ) (s : Notifier) : Prop :=
  ∀ i < n, (s.told i : Multiset State) + s.pending i = s.changes

/-- Where there were changes, the last one is the state. -/
def LastChange (s : Notifier) : Prop := ∀ x, s.changes.getLast? = some x → x = s.state

/-- **What a step can do.** -/
theorem step_cases {n : ℕ} {s s' : Notifier} {a : NotifierAction} (h : step n s a = some s') :
    (∃ event, a = .onEvent event ∧ (s.state.onEvent event).1 = s.state ∧ s' = s)
    ∨ (∃ event next, a = .onEvent event ∧ (s.state.onEvent event).1 = next ∧ next ≠ s.state
      ∧ s' = ⟨next, s.changes ++ [next], (next, 0) ::ₘ s.calls, s.goroutines, s.told⟩)
    ∨ (∃ next k c, a = .spawn next k ∧ s.calls = (next, k) ::ₘ c ∧ k < n
      ∧ s' = ⟨s.state, s.changes, (next, k + 1) ::ₘ c, (k, next) ::ₘ s.goroutines, s.told⟩)
    ∨ (∃ next c, a = .ret next ∧ s.calls = (next, n) ::ₘ c
      ∧ s' = ⟨s.state, s.changes, c, s.goroutines, s.told⟩)
    ∨ (∃ i next g, a = .callback i next ∧ s.goroutines = (i, next) ::ₘ g
      ∧ s' = ⟨s.state, s.changes, s.calls, g, Function.update s.told i (s.told i ++ [next])⟩) := by
  cases a with
  | onEvent event =>
    rw [step] at h
    split at h
    · next heq => exact Or.inl ⟨event, rfl, heq, (Option.some.inj h).symm⟩
    · next hne => exact Or.inr (Or.inl ⟨event, _, rfl, rfl, hne, (Option.some.inj h).symm⟩)
  | spawn next k =>
    obtain ⟨⟨hmem, hk⟩, rfl⟩ := Runs.of_guarded h
    obtain ⟨c, hc⟩ := Multiset.exists_cons_of_mem hmem
    refine Or.inr (Or.inr (Or.inl ⟨next, k, c, rfl, hc, hk, ?_⟩))
    rw [hc, Multiset.erase_cons_head]
  | ret next =>
    obtain ⟨hmem, rfl⟩ := Runs.of_guarded h
    obtain ⟨c, hc⟩ := Multiset.exists_cons_of_mem hmem
    refine Or.inr (Or.inr (Or.inr (Or.inl ⟨next, c, rfl, hc, ?_⟩)))
    rw [hc, Multiset.erase_cons_head]
  | callback i next =>
    obtain ⟨hmem, rfl⟩ := Runs.of_guarded h
    obtain ⟨g, hg⟩ := Multiset.exists_cons_of_mem hmem
    refine Or.inr (Or.inr (Or.inr (Or.inr ⟨i, next, g, rfl, hg, ?_⟩)))
    rw [hg, Multiset.erase_cons_head]

section Pending

variable {st : State} {ch : List State} {c : Multiset (State × ℕ)} {g : Multiset (ℕ × State)}
  {told : ℕ → List State} {next : State} {i k n : ℕ}

/-- A caller has the change for the subscribers it has not come to. -/
theorem pending_cons_call : pending ⟨st, ch, (next, k) ::ₘ c, g, told⟩ i
    = (if k ≤ i then {next} else 0) + pending ⟨st, ch, c, g, told⟩ i := by
  rw [pending, pending, Multiset.filter_cons, Multiset.map_add, add_assoc]
  split
  · rw [Multiset.map_singleton]
  · rw [Multiset.map_zero]

theorem pending_cons_goroutine : pending ⟨st, ch, c, (k, next) ::ₘ g, told⟩ i
    = (if k = i then {next} else 0) + pending ⟨st, ch, c, g, told⟩ i := by
  rw [pending, pending, Multiset.filter_cons, Multiset.map_add, add_left_comm]
  split
  · rw [Multiset.map_singleton]
  · rw [Multiset.map_zero]

/-- Starting the goroutine of a subscriber leaves everyone with what is to be told. -/
theorem pending_spawn : pending ⟨st, ch, (next, k + 1) ::ₘ c, (k, next) ::ₘ g, told⟩ i
    = pending ⟨st, ch, (next, k) ::ₘ c, g, told⟩ i := by
  rw [pending_cons_call, pending_cons_call, pending_cons_goroutine]
  rcases Nat.lt_trichotomy k i with h | rfl | h
  · rw [if_pos (Nat.succ_le_of_lt h), if_neg h.ne, if_pos h.le, zero_add]
  · rw [if_neg (Nat.not_succ_le_self k), if_pos rfl, if_pos (le_refl k), zero_add]
  · rw [if_neg (by omega), if_neg h.ne', if_neg (by omega), zero_add]

/-- A caller that has come to the end has nothing left to tell. -/
theorem pending_ret (hi : i < n) : pending ⟨st, ch, (next, n) ::ₘ c, g, told⟩ i
    = pending ⟨st, ch, c, g, told⟩ i := by
  rw [pending_cons_call, if_neg (by omega), zero_add]

end Pending

/-- **What a step is to one subscriber**: a change for it to be told, nothing, or a call. -/
theorem step_at {n : ℕ} {s s' : Notifier} {a : NotifierAction} (h : step n s a = some s') {i : ℕ}
    (hi : i < n) :
    (∃ event next, a = .onEvent event ∧ (s.state.onEvent event).1 = next ∧ next ≠ s.state
      ∧ s'.changes = s.changes ++ [next] ∧ s'.told i = s.told i
      ∧ s'.pending i = {next} + s.pending i)
    ∨ (s'.changes = s.changes ∧ s'.told i = s.told i ∧ s'.pending i = s.pending i)
    ∨ (∃ next, s'.changes = s.changes ∧ s'.told i = s.told i ++ [next]
      ∧ s.pending i = {next} + s'.pending i) := by
  obtain ⟨st, ch, calls, gs, told⟩ := s
  rcases step_cases h with ⟨event, -, -, rfl⟩ | ⟨event, next, ha, hnext, hne, rfl⟩
    | ⟨next, k, c, -, rfl, -, rfl⟩ | ⟨next, c, -, rfl, rfl⟩ | ⟨j, next, g, -, rfl, rfl⟩
  · exact Or.inr (Or.inl ⟨rfl, rfl, rfl⟩)
  · refine Or.inl ⟨event, next, ha, hnext, hne, rfl, rfl, ?_⟩
    rw [pending_cons_call, if_pos (Nat.zero_le i)]
    rfl
  · exact Or.inr (Or.inl ⟨rfl, rfl, pending_spawn⟩)
  · exact Or.inr (Or.inl ⟨rfl, rfl, (pending_ret hi).symm⟩)
  · by_cases hij : j = i
    · subst hij
      refine Or.inr (Or.inr ⟨next, rfl, Function.update_self _ _ _, ?_⟩)
      rw [pending_cons_goroutine, if_pos rfl]
      rfl
    · refine Or.inr (Or.inl ⟨rfl, Function.update_of_ne (Ne.symm hij) _ _, ?_⟩)
      rw [pending_cons_goroutine, if_neg hij, zero_add]
      rfl

theorem accounted_start (n : ℕ) (s : State) : Accounted n (start s) := fun _ _ => rfl

theorem Accounted.step {n : ℕ} {s s' : Notifier} {a : NotifierAction} (h : Accounted n s)
    (hstep : step n s a = some s') : Accounted n s' := by
  intro i hi
  have hacc := h i hi
  rcases step_at hstep hi with ⟨_, next, -, -, -, hch, htold, hpending⟩ | ⟨hch, htold, hpending⟩
    | ⟨next, hch, htold, hpending⟩
  · rw [hch, htold, hpending, add_left_comm, hacc, ← Multiset.coe_add, add_comm]
    rfl
  · rw [hch, htold, hpending, hacc]
  · rw [hch, htold, ← hacc, hpending, ← Multiset.coe_add, add_assoc]
    rfl

theorem lastChange_start (s : State) : LastChange (start s) := fun _ h => by cases h

theorem LastChange.step {n : ℕ} {s s' : Notifier} {a : NotifierAction} (h : LastChange s)
    (hstep : step n s a = some s') : LastChange s' := by
  rcases step_cases hstep with ⟨event, -, -, rfl⟩ | ⟨event, next, -, -, -, rfl⟩
    | ⟨next, k, c, -, -, -, rfl⟩ | ⟨next, c, -, -, rfl⟩ | ⟨j, next, g, -, -, rfl⟩
  · exact h
  · intro x hx
    rw [List.getLast?_append, List.getLast?_singleton] at hx
    exact (Option.some.inj hx).symm
  · exact h
  · exact h
  · exact h

/-- **Every subscriber is told every change once**, in every run: what it has been told and what it
is still to be told are the changes. -/
theorem told_add_pending {n : ℕ} {s₀ : State} {s : Notifier} {as : List NotifierAction}
    (hrun : Runs.run (step n) (start s₀) as = some s) : Accounted n s ∧ LastChange s :=
  Runs.run_kept (fun s => Accounted n s ∧ LastChange s)
    (fun _ _ _ h hstep => ⟨h.1.step hstep, h.2.step hstep⟩)
    ⟨accounted_start n s₀, lastChange_start s₀⟩ hrun

/-! ## In order -/

/-- **In order, as soon as each subscriber has been told the first of the changes.** -/
theorem inOrder_of_prefix {n : ℕ} {s : Notifier} (hacc : Accounted n s) (hlast : LastChange s)
    (hbegins : ∀ i < n, s.told i <+: s.changes) : InOrder n s := by
  refine fun i hi => ⟨hbegins i hi, fun hsettled => ?_⟩
  have hpending : s.pending i = 0 := by
    rw [pending, hsettled.1, hsettled.2]
    rfl
  have htold : (s.told i : Multiset State) = s.changes := by
    rw [← hacc i hi, hpending, add_zero]
  have heq := (hbegins i hi).eq_of_length (Multiset.coe_eq_coe.mp htold).length_eq
  exact ⟨heq, fun x hx => hlast x (heq ▸ hx)⟩

/-- A change is made while no subscriber is still to be told an earlier one. -/
def QuietChange (n : ℕ) (s : Notifier) : NotifierAction → Prop
  | .onEvent event => (s.state.onEvent event).1 ≠ s.state → ∀ i < n, s.pending i = 0
  | _ => True

/-- Each subscriber has been told the first changes, and is still to be told one at most. -/
def Keeping (n : ℕ) (s : Notifier) : Prop :=
  Accounted n s ∧ LastChange s
    ∧ ∀ i < n, s.told i <+: s.changes ∧ Multiset.card (s.pending i) ≤ 1

/-- A step keeps it.  A subscriber that is told something had been told all there was, and is told the
one change that was still to come, which is the last. -/
theorem Keeping.step {n : ℕ} {s s' : Notifier} {a : NotifierAction} (h : Keeping n s)
    (hquiet : QuietChange n s a) (hstep : step n s a = some s') : Keeping n s' := by
  have hacc' := h.1.step hstep
  refine ⟨hacc', h.2.1.step hstep, fun i hi => ?_⟩
  obtain ⟨hbegins, hcard⟩ := h.2.2 i hi
  rcases step_at hstep hi with ⟨event, next, rfl, rfl, hne, hch, htold, hpending⟩
    | ⟨hch, htold, hpending⟩ | ⟨next, hch, htold, hpending⟩
  · rw [hch, htold, hpending, hquiet hne i hi]
    exact ⟨List.prefix_append_of_prefix hbegins, le_refl 1⟩
  · rw [hch, htold, hpending]
    exact ⟨hbegins, hcard⟩
  · have hnone : s'.pending i = 0 := by
      rw [hpending, Multiset.card_add, Multiset.card_singleton] at hcard
      exact Multiset.card_eq_zero.mp (by omega)
    have hall := hacc' i hi
    rw [hnone, add_zero, htold, hch] at hall
    rw [htold, hch, hnone]
    refine ⟨?_, Nat.zero_le 1⟩
    obtain ⟨rest, hrest⟩ := hbegins
    rw [← hrest, ← Multiset.coe_add, ← Multiset.coe_add, add_right_inj, Multiset.coe_eq_coe] at hall
    exact ⟨[], by rw [← hrest, ← List.singleton_perm.mp hall, List.append_nil]⟩

/-- **Changes made one at a time are told in order.** -/
theorem inOrder_of_quiet {n : ℕ} {s₀ : State} {s : Notifier} {as : List NotifierAction}
    (hrun : Runs.run (step n) (start s₀) as = some s)
    (hquiet : Runs.Meets (step n) (QuietChange n) (start s₀) as) : InOrder n s := by
  have hstart : Keeping n (start s₀) :=
    ⟨accounted_start n s₀, lastChange_start s₀, fun _ _ => ⟨List.nil_prefix, Nat.zero_le 1⟩⟩
  obtain ⟨hacc, hlast, hkept⟩ := Runs.run_invariant (Keeping n)
    (fun _ _ _ h hok hstep => h.step hok hstep) hstart hquiet hrun
  exact inOrder_of_prefix hacc hlast fun i hi => (hkept i hi).1

/-! ## Every schedule of given events

Which changes are made is decided by the events and the state they start from.  When they are told
is not; so a condition on the events alone must rule out two changes, unless there is nobody to be
told. -/

/-- The events of a run. -/
def events : List NotifierAction → List StateEvent
  | [] => []
  | .onEvent event :: as => event :: events as
  | _ :: as => events as

/-- The changes of state that the events make. -/
def changesOf (s : State) : List StateEvent → List State
  | [] => []
  | event :: es =>
      let next := (s.onEvent event).1
      if next = s then changesOf s es else next :: changesOf next es

/-- **The changes of a run are those its events make**, whatever the schedule. -/
theorem changes_of_run {n : ℕ} {s s' : Notifier} {as : List NotifierAction}
    (hrun : Runs.run (step n) s as = some s') :
    s'.changes = s.changes ++ changesOf s.state (events as) := by
  induction as generalizing s with
  | nil => rw [← Option.some.inj hrun, events, changesOf, List.append_nil]
  | cons a as ih =>
    obtain ⟨t, ht, hrest⟩ := Runs.run_cons_eq_some.mp hrun
    rw [ih hrest]
    rcases step_cases ht with ⟨event, rfl, heq, rfl⟩ | ⟨event, next, rfl, rfl, hne, rfl⟩
      | ⟨next, k, c, rfl, -, -, rfl⟩ | ⟨next, c, rfl, -, rfl⟩ | ⟨j, next, g, rfl, -, rfl⟩
    · rw [events, changesOf, if_pos heq]
    · rw [events, changesOf, if_neg hne, List.append_assoc]
      rfl
    · rfl
    · rfl
    · rfl

/-- Each change leads to another state than the one before. -/
theorem changesOf_ne {s c d : State} {es : List StateEvent} {rest : List State}
    (h : changesOf s es = c :: d :: rest) : c ≠ d := by
  have hhead : ∀ {s : State} {es : List StateEvent} {c : State} {rest : List State},
      changesOf s es = c :: rest → c ≠ s := by
    intro s es
    induction es with
    | nil => exact fun h => by cases h
    | cons event es ih =>
      intro c rest h
      rw [changesOf] at h
      split at h
      · exact ih h
      · next hne =>
        rw [← (List.cons.inj h).1]
        exact hne
  induction es generalizing s with
  | nil => cases h
  | cons event es ih =>
    rw [changesOf] at h
    split at h
    · exact ih h
    · obtain ⟨rfl, htail⟩ := List.cons.inj h
      exact (hhead htail).symm

/-- The events may all be taken before anyone is told of the changes. -/
theorem run_events {n : ℕ} (es : List StateEvent) (s : Notifier) :
    ∃ s', Runs.run (step n) s (es.map .onEvent) = some s' ∧ s'.told = s.told
      ∧ (∀ c ∈ s.calls, c ∈ s'.calls) ∧ ∀ x ∈ changesOf s.state es, (x, 0) ∈ s'.calls := by
  induction es generalizing s with
  | nil => exact ⟨s, rfl, rfl, fun _ hc => hc, fun x hx => absurd hx List.not_mem_nil⟩
  | cons event es ih =>
    rw [List.map_cons, changesOf]
    by_cases heq : (s.state.onEvent event).1 = s.state
    · obtain ⟨s', hrun, htold, hcalls, hnew⟩ := ih s
      refine ⟨s', Runs.run_cons_eq_some.mpr ⟨s, by rw [step, if_pos heq], hrun⟩, htold, hcalls, ?_⟩
      rwa [if_pos heq]
    · obtain ⟨s', hrun, htold, hcalls, hnew⟩ := ih ⟨_, s.changes ++ [(s.state.onEvent event).1],
        ((s.state.onEvent event).1, 0) ::ₘ s.calls, s.goroutines, s.told⟩
      refine ⟨s', Runs.run_cons_eq_some.mpr ⟨_, by rw [step, if_neg heq], hrun⟩, htold,
        fun c hc => hcalls c (Multiset.mem_cons_of_mem hc), ?_⟩
      rw [if_neg heq]
      intro x hx
      rcases List.mem_cons.mp hx with rfl | hx
      · exact hcalls _ (Multiset.mem_cons_self _ _)
      · exact hnew x hx

theorem events_append (as bs : List NotifierAction) :
    events (as ++ bs) = events as ++ events bs := by
  induction as with
  | nil => rfl
  | cons a as ih =>
    cases a with
    | onEvent event => rw [List.cons_append, events, events, ih, List.cons_append]
    | spawn | ret | callback => exact ih

theorem events_map (es : List StateEvent) : events (es.map .onEvent) = es := by
  induction es with
  | nil => rfl
  | cons event es ih => rw [List.map_cons, events, ih]

/-- **Two changes can reach a subscriber the wrong way round.**  The caller of the second one comes
first, and so does its goroutine. -/
theorem exists_run_not_inOrder {n : ℕ} (hn : 0 < n) {s₀ : State} {es : List StateEvent}
    (h : 1 < (changesOf s₀ es).length) :
    ∃ as s, Runs.run (step n) (start s₀) as = some s ∧ events as = es ∧ ¬ InOrder n s := by
  obtain ⟨c, d, rest, hch⟩ : ∃ c d rest, changesOf s₀ es = c :: d :: rest := by
    match hch : changesOf s₀ es with
    | [] | [_] => rw [hch] at h; simp at h
    | c :: d :: rest => exact ⟨c, d, rest, rfl⟩
  obtain ⟨t, hrun, htold, -, hcalls⟩ := run_events (n := n) es (start s₀)
  have hd : (d, 0) ∈ t.calls := hcalls d (by rw [start, hch]; simp)
  let t' : Notifier := { t with
    calls := (d, 1) ::ₘ t.calls.erase (d, 0)
    goroutines := (0, d) ::ₘ t.goroutines }
  let t'' : Notifier := { t' with
    goroutines := t'.goroutines.erase (0, d)
    told := Function.update t'.told 0 (t'.told 0 ++ [d]) }
  have hspawn : step n t (.spawn d 0) = some t' := by
    rw [step, if_pos ⟨hd, hn⟩]
  have hcallback : step n t' (.callback 0 d) = some t'' := by
    rw [step, if_pos (Multiset.mem_cons_self _ _)]
  have hrun'' : Runs.run (step n) (start s₀)
      (es.map .onEvent ++ [.spawn d 0, .callback 0 d]) = some t'' := by
    refine Runs.run_append_eq_some.mpr ⟨t, hrun, ?_⟩
    exact Runs.run_cons_eq_some.mpr ⟨t', hspawn, Runs.run_cons_eq_some.mpr ⟨t'', hcallback, rfl⟩⟩
  refine ⟨_, t'', hrun'', ?_, fun horder => ?_⟩
  · rw [events_append, events_map]
    exact List.append_nil es
  · have htold'' : t''.told 0 = [d] := by
      change Function.update t.told 0 (t.told 0 ++ [d]) 0 = [d]
      rw [Function.update_self, htold]
      rfl
    have hchanges : t''.changes = c :: d :: rest := by
      rw [changes_of_run hrun'', events_append, events_map]
      exact (congrArg (changesOf s₀) (List.append_nil es)).trans hch
    obtain ⟨tail, htail⟩ := (horder 0 hn).1
    rw [htold'', hchanges] at htail
    exact changesOf_ne hch (List.cons.inj htail).1.symm

/-- **When the subscribers see the changes in order.**  They do wherever each change is made while
nobody is still to be told an earlier one.  Given the events alone they do, whatever the schedule,
exactly when there is no subscriber or at most one change. -/
theorem subscribers_inOrder (n : ℕ) (s₀ : State) :
    (∀ as s, Runs.run (step n) (start s₀) as = some s →
      Runs.Meets (step n) (QuietChange n) (start s₀) as → InOrder n s)
    ∧ ∀ es, (∀ as s, Runs.run (step n) (start s₀) as = some s → events as = es → InOrder n s) ↔
      n = 0 ∨ (changesOf s₀ es).length ≤ 1 := by
  refine ⟨fun as s hrun hquiet => inOrder_of_quiet hrun hquiet, fun es => ⟨fun h => ?_, ?_⟩⟩
  · by_contra hnot
    obtain ⟨hn, hlen⟩ := not_or.mp hnot
    obtain ⟨as, s, hrun, hes, hbad⟩ :=
      exists_run_not_inOrder (Nat.pos_of_ne_zero hn) (Nat.lt_of_not_le hlen)
    exact hbad (h as s hrun hes)
  · rintro (rfl | hlen) as s hrun hes
    · exact fun i hi => absurd hi (Nat.not_lt_zero i)
    · obtain ⟨hacc, hlast⟩ := told_add_pending hrun
      refine inOrder_of_prefix hacc hlast fun i hi => ?_
      have hch := changes_of_run hrun
      rw [hes] at hch
      have hsub : (s.told i).Subperm s.changes :=
        Multiset.coe_le.mp (Multiset.le_iff_exists_add.mpr ⟨_, (hacc i hi).symm⟩)
      have hlen' : s.changes.length ≤ 1 := by
        rw [hch]
        exact hlen
      cases htold : s.told i with
      | nil => exact List.nil_prefix
      | cons x rest =>
        rw [htold] at hsub
        have hperm := hsub.perm_of_length_le (hlen'.trans (Nat.succ_le_succ (Nat.zero_le _)))
        have hrest : rest = [] := by
          have := hperm.length_eq
          rw [List.length_cons] at this
          exact List.length_eq_zero_iff.mp (by omega)
        subst hrest
        exact ⟨[], (List.append_nil _).trans (List.singleton_perm.mp hperm)⟩

/-- Two changes, each told before the next is made. -/
def inTurn : List NotifierAction :=
  [.onEvent .connect, .spawn .connecting 0, .callback 0 .connecting, .ret .connecting,
   .onEvent .connected, .spawn .awaitingLogon 0, .ret .awaitingLogon, .callback 0 .awaitingLogon]

/-- Two changes, each of which finds nothing still to be told. -/
theorem inOrder_inTurn : ∃ s, Runs.run (step 1) (start .disconnected) inTurn = some s
    ∧ s.told 0 = [.connecting, .awaitingLogon] ∧ InOrder 1 s := by
  refine ⟨_, rfl, rfl, (subscribers_inOrder 1 .disconnected).1 inTurn _ rfl ?_⟩
  have hnone : ∀ {s : Notifier}, s.pending 0 = 0 → ∀ i < 1, s.pending i = 0 := fun h i hi => by
    rwa [Nat.lt_one_iff.mp hi]
  repeat' first
    | exact trivial
    | refine (Runs.meets_cons_iff rfl).mpr ⟨fun _ => hnone rfl, ?_⟩
    | refine (Runs.meets_cons_iff rfl).mpr ⟨trivial, ?_⟩

/-- Two changes, the goroutine of the second running first. -/
def overtaking : List NotifierAction :=
  [.onEvent .connect, .onEvent .connected, .spawn .connecting 0, .spawn .awaitingLogon 0,
   .ret .connecting, .ret .awaitingLogon, .callback 0 .awaitingLogon, .callback 0 .connecting]

/-- The subscriber ends on a state that the machine has left. -/
theorem subscribers_overtaking :
    ¬ ∀ n s₀ as s, Runs.run (step n) (start s₀) as = some s → InOrder n s := by
  intro h
  obtain ⟨-, hend⟩ := h 1 .disconnected overtaking _ rfl 0 Nat.one_pos
  cases (hend ⟨rfl, rfl⟩).2 .connecting rfl

end Notifier

end FixMsg
