import GoFixMsg.Engine.Lifecycle

/-!
# Engine/AfterClose — does a closed engine stay closed?

`Close` stops the session, whose close callback starts the reconnect loop; and a loop that runs, or
a call of `Connect` on its way, is not told.  So the engine stays closed exactly if `Close` finds
none of them: nobody is about to attach a session, no reconnect loop runs, and, where reconnecting
is enabled, every close callback has returned (`closesForGood_iff`).
-/

namespace FixMsg

namespace Lifecycle

/-- A user, or a scheduled action, asks for a session. -/
def opens : LifecycleAction → Bool
  | .connect _ | .attachSession _ _ => true
  | _ => false

/-- The engine dials, or attaches a session. -/
def connects : LifecycleAction → Bool
  | .dial _ _ | .attach _ | .loopDial _ | .loopAttach => true
  | _ => false

/-- **However the run goes on, the engine neither dials nor attaches a session** until it is asked
to. -/
def StaysClosed (e : Lifecycle) : Prop :=
  ∀ as e', (∀ a ∈ as, opens a = false) → Runs.run step e as = some e' →
    ∀ a ∈ as, connects a = false

/-- Behind a call of `Close` the engine stays closed. -/
def ClosesForGood (e : Lifecycle) (a : LifecycleAction) : Prop :=
  ∀ i e', a = .close i → e.step a = some e' → e'.StaysClosed

/-- **Nothing is left that would connect**: no call is about to attach a session, no reconnect loop
runs, and no close callback will start one. -/
structure Quiet (e : Lifecycle) : Prop where
  calls : ∀ i, e.calls i = none ∨ e.calls i = some .detaching
  loop : e.loop = none ∨ e.loop = some .attached
  finished : e.Reconnects → ∀ s, (e.sessions s).Finished

/-- **The condition on a step**: `Close` is called when nothing is left that would connect. -/
def ClosesQuiet (e : Lifecycle) (a : LifecycleAction) : Prop := ∀ i, a = .close i → e.Quiet

variable {e e' : Lifecycle} {a : LifecycleAction}

/-! ## A quiet engine stays closed -/

/-- The parameters never change. -/
theorem reconnects_step (hstep : e.step a = some e') : e'.Reconnects ↔ e.Reconnects := by
  have hdetach : ∀ e : Lifecycle, e.detachSession.Reconnects ↔ e.Reconnects := by
    intro e
    unfold detachSession
    split <;> rfl
  have hstart : ∀ e : Lifecycle, e.startReconnectLoop.Reconnects ↔ e.Reconnects := by
    intro e
    unfold startReconnectLoop
    split <;> rfl
  cases a with
  | newSession =>
    cases hstep
    rfl
  | attach i | loopAttach =>
    simp only [step] at hstep
    split at hstep
    · cases hstep
      rfl
    · cases hstep
  | detach i =>
    obtain ⟨-, rfl⟩ := Runs.of_guarded hstep
    exact hdetach e
  | callbackDetach s =>
    obtain ⟨-, rfl⟩ := Runs.of_guarded hstep
    exact hdetach e
  | callbackReconnect s =>
    obtain ⟨-, rfl⟩ := Runs.of_guarded hstep
    split
    · exact hstart e
    · rfl
  | connect | dial | loopDial =>
    obtain ⟨-, rfl⟩ := Runs.of_guarded hstep
    split <;> rfl
  | attachSession | detachSession | close | abort | stop | notify | loopWake | loopEnd =>
    obtain ⟨-, rfl⟩ := Runs.of_guarded hstep
    rfl

theorem Quiet.attaches_eq_none (h : e.Quiet) (a : LifecycleAction) : e.attaches a = none := by
  cases a with
  | attach i => rcases h.calls i with hi | hi <;> simp [attaches, hi]
  | loopAttach => rcases h.loop with hl | hl <;> simp [attaches, hl]
  | newSession | connect | attachSession | detachSession | close | dial | detach | abort | stop
  | notify | callbackDetach | callbackReconnect | loopDial | loopWake | loopEnd => rfl

/-- A quiet engine does not connect by itself. -/
theorem Quiet.connects_eq_false (h : e.Quiet) (hstep : e.step a = some e') : connects a = false := by
  cases a with
  | dial i ok | attach i => rcases h.calls i with hi | hi <;> simp [step, hi] at hstep
  | loopDial ok | loopAttach => rcases h.loop with hl | hl <;> simp [step, hl] at hstep
  | newSession | connect | attachSession | detachSession | close | detach | abort | stop
  | notify | callbackDetach | callbackReconnect | loopWake | loopEnd => rfl

/-- A caller goes on that is not about to attach a session. -/
theorem Quiet.put (h : e.Quiet) (i : ℕ) {x : Option CallPhase} (hx : x = none ∨ x = some .detaching)
    (j : ℕ) : (e.put i x).calls j = none ∨ (e.put i x).calls j = some .detaching := by
  rw [calls_put]
  split
  · exact hx
  · exact h.calls j

theorem calls_detachSession (e : Lifecycle) : e.detachSession.calls = e.calls := by
  unfold detachSession
  split <;> rfl

theorem loop_detachSession (e : Lifecycle) : e.detachSession.loop = e.loop := by
  unfold detachSession
  split <;> rfl

/-- **A quiet engine stays quiet** until it is asked for a session. -/
theorem Quiet.step (h : e.Quiet) (hclosed : opens a = false) (hstep : e.step a = some e') :
    e'.Quiet := by
  have hfinished : e'.Reconnects → ∀ s, (e'.sessions s).Finished := fun hrec s =>
    (ages_step hstep (h.attaches_eq_none a) s).finished
      (h.finished ((reconnects_step hstep).mp hrec) s)
  suffices hrest : (∀ i, e'.calls i = none ∨ e'.calls i = some .detaching)
      ∧ (e'.loop = none ∨ e'.loop = some .attached) from ⟨hrest.1, hrest.2, hfinished⟩
  have hconn := h.connects_eq_false hstep
  cases a with
  | connect | attachSession => cases hclosed
  | dial | attach | loopDial | loopAttach => cases hconn
  | newSession =>
    cases hstep
    exact ⟨h.calls, h.loop⟩
  | detachSession i | close i =>
    obtain ⟨-, rfl⟩ := Runs.of_guarded hstep
    exact ⟨h.put i (Or.inr rfl), h.loop⟩
  | detach i =>
    obtain ⟨-, rfl⟩ := Runs.of_guarded hstep
    refine ⟨fun j => ?_, (loop_detachSession e).symm ▸ h.loop⟩
    rw [calls_put, calls_detachSession, ← calls_put]
    exact h.put i (Or.inl rfl) j
  | abort s | stop s | notify s =>
    obtain ⟨-, rfl⟩ := Runs.of_guarded hstep
    exact ⟨h.calls, h.loop⟩
  | callbackDetach s =>
    obtain ⟨-, rfl⟩ := Runs.of_guarded hstep
    exact ⟨(calls_detachSession e).symm ▸ h.calls, (loop_detachSession e).symm ▸ h.loop⟩
  | callbackReconnect s =>
    obtain ⟨hpos, rfl⟩ := Runs.of_guarded hstep
    by_cases hrec : e.Reconnects
    · rw [(h.finished hrec s).reconnecting] at hpos
      exact absurd hpos (Nat.lt_irrefl 0)
    · rw [if_neg hrec]
      exact ⟨h.calls, h.loop⟩
  | loopWake =>
    obtain ⟨hwaiting, -⟩ := Runs.of_guarded hstep
    rcases h.loop with hl | hl
    · rw [hl] at hwaiting
      cases hwaiting
    · rw [hl] at hwaiting
      cases hwaiting
  | loopEnd =>
    obtain ⟨-, rfl⟩ := Runs.of_guarded hstep
    exact ⟨h.calls, Or.inl rfl⟩

/-- **A quiet engine stays closed.** -/
theorem Quiet.staysClosed (h : e.Quiet) : e.StaysClosed := by
  intro as e' hclosed hrun
  induction as generalizing e with
  | nil => exact fun _ ha => absurd ha List.not_mem_nil
  | cons b as ih =>
    obtain ⟨t, ht, hrest⟩ := Runs.run_cons_eq_some.mp hrun
    have hb := hclosed b List.mem_cons_self
    intro a ha
    rcases List.mem_cons.mp ha with rfl | ha
    · exact h.connects_eq_false ht
    · exact ih (h.step hb ht) (fun c hc => hclosed c (List.mem_cons_of_mem _ hc)) hrest a ha

/-! ## Any other engine can connect -/

/-- The engine can come to connect without being asked to. -/
def CanConnect (e : Lifecycle) : Prop :=
  ∃ as e', (∀ a ∈ as, opens a = false) ∧ Runs.run step e as = some e' ∧ ∃ a ∈ as, connects a = true

theorem not_staysClosed (h : e.CanConnect) : ¬ e.StaysClosed := by
  obtain ⟨as, e', hclosed, hrun, a, ha, hconn⟩ := h
  intro hstays
  rw [hstays as e' hclosed hrun a ha] at hconn
  cases hconn

theorem CanConnect.now (hstep : e.step a = some e') (ha : opens a = false)
    (hconn : connects a = true) : e.CanConnect :=
  ⟨[a], e', fun _ hb => List.mem_singleton.mp hb ▸ ha, Runs.run_cons_eq_some.mpr ⟨e', hstep, rfl⟩,
    a, List.mem_singleton_self a, hconn⟩

theorem CanConnect.behind_run {as : List LifecycleAction} (hrun : Runs.run step e as = some e')
    (has : ∀ a ∈ as, opens a = false) (h : e'.CanConnect) : e.CanConnect := by
  obtain ⟨bs, e'', hclosed, hrun', a, ha, hconn⟩ := h
  refine ⟨as ++ bs, e'', fun b hb => ?_, Runs.run_append_eq_some.mpr ⟨e', hrun, hrun'⟩, a,
    List.mem_append_right _ ha, hconn⟩
  exact (List.mem_append.mp hb).elim (has b) (hclosed b)

theorem CanConnect.behind (hstep : e.step a = some e') (ha : opens a = false) (h : e'.CanConnect) :
    e.CanConnect :=
  .behind_run (Runs.run_cons_eq_some.mpr ⟨e', hstep, rfl⟩) (fun _ hb => List.mem_singleton.mp hb ▸ ha)
    h

/-- A call that is about to attach a session connects. -/
theorem canConnect_of_call {i : ℕ} (h : e.calls i ≠ none) (h' : e.calls i ≠ some .detaching) :
    e.CanConnect := by
  cases hcall : e.calls i with
  | none => exact absurd hcall h
  | some phase =>
    cases phase with
    | dialing => exact .now (a := .dial i false) (if_pos hcall) rfl rfl
    | attaching s =>
      have hstep : e.step (.attach i) = some ((e.attachSession s).put i none) := by
        simp only [step, hcall]
      exact .now hstep rfl rfl
    | detaching => exact absurd hcall h'

/-- A loop that runs connects. -/
theorem canConnect_of_loop (h : e.loop ≠ none) (h' : e.loop ≠ some .attached) : e.CanConnect := by
  cases hloop : e.loop with
  | none => exact absurd hloop h
  | some phase =>
    cases phase with
    | dialing => exact .now (a := .loopDial false) (if_pos hloop) rfl rfl
    | waiting =>
      have hdial : ({ e with loop := some .dialing } : Lifecycle).step (.loopDial false)
          = some { e with loop := some .waiting } := by simp [step]
      exact .behind (a := .loopWake) (if_pos hloop) rfl (.now hdial rfl rfl)
    | attaching s =>
      have hstep : e.step .loopAttach = some { e.attachSession s with loop := some .attached } := by
        simp only [step, hloop]
      exact .now hstep rfl rfl
    | attached => exact absurd hloop h'

/-- A close callback behind `DetachSession` starts the loop.  A loop that is about to end forgets
its context first. -/
theorem canConnect_of_reconnecting {s : ℕ} (hrec : e.Reconnects)
    (hpos : 0 < (e.sessions s).reconnecting) : e.CanConnect := by
  have hstart : ∀ {e : Lifecycle}, e.Reconnects → e.loop = none →
      0 < (e.sessions s).reconnecting → e.CanConnect := by
    intro e hrec hnone hpos
    refine .behind (a := .callbackReconnect s) (if_pos hpos) rfl ?_
    rw [if_pos hrec, startReconnectLoop, if_pos hnone]
    exact canConnect_of_loop (Option.some_ne_none _) fun h => by cases h
  by_cases hnone : e.loop = none
  · exact hstart hrec hnone hpos
  by_cases hend : e.loop = some .attached
  · exact .behind (a := .loopEnd) (if_pos hend) rfl (hstart hrec rfl hpos)
  · exact canConnect_of_loop hnone hend

/-- So does one before `DetachSession`. -/
theorem canConnect_of_detaching {s : ℕ} (hrec : e.Reconnects)
    (hpos : 0 < (e.sessions s).detaching) : e.CanConnect := by
  obtain ⟨e', hstep⟩ : ∃ e', e.step (.callbackDetach s) = some e' := ⟨_, if_pos hpos⟩
  refine .behind hstep rfl (canConnect_of_reconnecting (s := s) ((reconnects_step hstep).mpr hrec) ?_)
  simp only [step, hpos, if_true, Option.some.injEq] at hstep
  rw [← hstep, sessions_update, if_pos rfl]
  exact Nat.succ_pos _

/-- And so does a session that has not closed yet. -/
theorem canConnect_of_unfinished {s : ℕ} (hrec : e.Reconnects) (h : ¬ (e.sessions s).Finished) :
    e.CanConnect := by
  by_cases hdet : 0 < (e.sessions s).detaching
  · exact canConnect_of_detaching hrec hdet
  by_cases hpos : 0 < (e.sessions s).reconnecting
  · exact canConnect_of_reconnecting hrec hpos
  have hwired : 0 < (e.sessions s).wired ∧ (e.sessions s).notified ≠ true := by
    by_contra hnot
    refine h ⟨?_, by omega, by omega⟩
    by_cases hn : (e.sessions s).notified = true
    · exact Or.inl hn
    · exact Or.inr (Nat.eq_zero_of_not_pos fun hw => hnot ⟨hw, hn⟩)
  obtain ⟨as, e', hrun, has, honly, hdet'⟩ :=
    exists_run_to_detaching hwired.1 fun hsettled => hwired.2 hsettled.1
  refine .behind_run hrun (fun a ha => ?_) (canConnect_of_detaching ?_ hdet')
  · rcases has a ha with rfl | rfl <;> rfl
  · rw [honly]
    exact hrec

/-- **An engine that is not quiet can come to connect.** -/
theorem canConnect_of_not_quiet (h : ¬ e.Quiet) : e.CanConnect := by
  by_contra hnot
  refine h ⟨fun i => ?_, ?_, fun hrec s => ?_⟩
  · by_contra hcall
    rw [not_or] at hcall
    exact hnot (canConnect_of_call hcall.1 hcall.2)
  · by_contra hloop
    rw [not_or] at hloop
    exact hnot (canConnect_of_loop hloop.1 hloop.2)
  · by_contra hfinished
    exact hnot (canConnect_of_unfinished hrec hfinished)

/-- **An engine stays closed exactly if it is quiet.** -/
theorem staysClosed_iff : e.StaysClosed ↔ e.Quiet :=
  ⟨fun h => by_contra fun hnot => not_staysClosed (canConnect_of_not_quiet hnot) h,
    Quiet.staysClosed⟩

/-- A call of `Close` changes nothing yet. -/
theorem quiet_close {i : ℕ} (hstep : e.step (.close i) = some e') : e'.Quiet ↔ e.Quiet := by
  obtain ⟨hidle, rfl⟩ := Runs.of_guarded hstep
  constructor
  · rintro ⟨hcalls, hloop, hfinished⟩
    refine ⟨fun j => ?_, hloop, hfinished⟩
    have hj := hcalls j
    rw [calls_put] at hj
    split at hj
    · next hji => exact Or.inl (hji ▸ hidle)
    · exact hj
  · exact fun h => ⟨h.put i (Or.inr rfl), h.loop, h.finished⟩

/-- **In every run the engine stays closed behind each call of `Close`, exactly if each is made when
nothing is left that would connect.** -/
theorem closesForGood_iff {initiator enableReconnect : Bool} {as : List LifecycleAction}
    (hrun : Runs.run step (new initiator enableReconnect) as = some e) :
    Runs.Meets step ClosesForGood (new initiator enableReconnect) as
      ↔ Runs.Meets step ClosesQuiet (new initiator enableReconnect) as := by
  refine Runs.meets_congr (fun _ _ _ (h : True) _ => h) (fun e a e' _ hstep => ?_) trivial hrun
  constructor
  · rintro h i rfl
    exact (quiet_close hstep).mp (staysClosed_iff.mp (h i e' rfl hstep))
  · rintro h i e'' rfl hstep''
    exact staysClosed_iff.mpr ((quiet_close hstep'').mpr (h i rfl))

/-- Where reconnecting is disabled, `Close` ends what `Connect` began. -/
theorem closesForGood_logout : Runs.Meets step ClosesForGood (new true false)
    [.connect 0, .dial 0 true, .attach 0, .close 0] := by
  obtain ⟨e, hrun⟩ : ∃ e, Runs.run step (new true false)
      [.connect 0, .dial 0 true, .attach 0, .close 0] = some e := ⟨_, rfl⟩
  refine (closesForGood_iff hrun).mpr ?_
  iterate 3 refine (Runs.meets_cons_iff rfl).mpr ⟨(fun i h => by cases h), ?_⟩
  refine (Runs.meets_cons_iff rfl).mpr ⟨fun i _ => ⟨fun j => ?_, Or.inl rfl, fun hrec => ?_⟩, trivial⟩
  · match j with
    | 0 => exact Or.inl rfl
    | j + 1 => exact Or.inl rfl
  · cases hrec.1

/-- **Where it is enabled**, the close callback of the session that `Close` stops starts the loop, and
the loop dials. -/
theorem close_reconnects : ¬ Runs.Meets step ClosesForGood (new true true)
    [.connect 0, .dial 0 true, .attach 0, .close 0] := by
  intro h
  have hclose := (((h.2 _ rfl).2 _ rfl).2 _ rfl).1 0 _ rfl rfl
  have hdials := hclose [.detach 0, .callbackDetach 0, .callbackReconnect 0, .loopDial false] _
    (by decide) rfl (.loopDial false) (by decide)
  cases hdials

end Lifecycle

end FixMsg
