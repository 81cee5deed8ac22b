import GoFixMsg.Machinery.Runs
import Mathlib.Order.Lattice

/-!
# Engine/Lifecycle — the sessions of an engine, from `Connect` to the reconnect loop

`AttachSession` and `DetachSession` hold `attachMu` from end to end, so each is one step; what comes
before and behind it is not.  `Connect` dials first.  A session that closes runs its close callback,
a goroutine that detaches *whatever session the engine holds*, and then starts the reconnect loop.
The steps of all of these interleave.

`stopReconnect`, which would cancel the context of the loop, is called by nobody.

A session is looked at from the outside here: whether it has been started, whether it is marked
closed, whether its callback has been given out, and how many of the goroutines of callbacks are
where.  What its loops do in the meantime is in `Session/Shutdown`, and whether they still run in
`Engine/OneSession`.
-/

namespace FixMsg

/-- A `Session`, as far as its end goes. -/
structure SessionState where
  /-- The number of close callbacks `AttachSession` has chained; one that is not zero means that the
  session has been started. -/
  wired : ℕ
  closed : Bool
  /-- `onCloseCalled`. -/
  notified : Bool
  /-- Goroutines of its close callbacks on the way to `DetachSession`. -/
  detaching : ℕ
  /-- Goroutines of its close callbacks behind `DetachSession`. -/
  reconnecting : ℕ
  deriving DecidableEq

namespace SessionState

/-- `NewSession`. -/
def new : SessionState := ⟨0, false, false, 0, 0⟩

/-- What `AttachSession` does to a session: it chains a close callback, and starts it. -/
def wire (s : SessionState) : SessionState := { s with wired := s.wired + 1 }

/-- `onCloseOnce`: each close callback spawns its goroutine. -/
def notify (s : SessionState) : SessionState :=
  if s.notified = true then s
  else { s with notified := true, detaching := s.detaching + s.wired }

/-- `Session.Stop`. -/
def stop (s : SessionState) : SessionState := { s with closed := true }.notify

/-- A session that has been started, and not been stopped. -/
def Live (s : SessionState) : Prop := 0 < s.wired ∧ s.closed = false

instance (s : SessionState) : Decidable s.Live := inferInstanceAs (Decidable (_ ∧ _))

/-- No close callback is running, or to come. -/
structure Finished (s : SessionState) : Prop where
  notified : s.notified = true ∨ s.wired = 0
  detaching : s.detaching = 0
  reconnecting : s.reconnecting = 0

/-- `onCloseOnce` has run, and every close callback is through `DetachSession`. -/
def Settled (s : SessionState) : Prop := s.notified = true ∧ s.detaching = 0

instance (s : SessionState) : Decidable s.Settled := inferInstanceAs (Decidable (_ ∧ _))

end SessionState

/-- How far a call of a user, or of a scheduled action, has got. -/
inductive CallPhase where
  /-- In `Initiator.Connect`. -/
  | dialing
  /-- In `AttachSession`, before `attachMu`. -/
  | attaching (s : ℕ)
  /-- In `DetachSession`, before `attachMu`. -/
  | detaching
  deriving DecidableEq

/-- How far the reconnect loop has got. -/
inductive LoopPhase where
  /-- At the head of the loop. -/
  | dialing
  /-- At `time.After`. -/
  | waiting
  /-- In `AttachSession`, before `attachMu`. -/
  | attaching (s : ℕ)
  /-- Behind `AttachSession`. -/
  | attached
  deriving DecidableEq

/-- A `FixEngine` with its sessions, numbered as they are made.  The loop is absent where
`reconnectCtx` is nil. -/
structure Lifecycle where
  initiator : Bool
  enableReconnect : Bool
  session : Option ℕ
  sessions : ℕ → SessionState
  made : ℕ
  calls : Calls CallPhase
  loop : Option LoopPhase

/-- A step of a caller, of a session, of a close callback, or of the reconnect loop. -/
inductive LifecycleAction where
  /-- `NewSession`, by a user. -/
  | newSession
  /-- `Connect` is called, or the action start or reset_start runs. -/
  | connect (i : ℕ)
  /-- `AttachSession` is called. -/
  | attachSession (i s : ℕ)
  /-- `DetachSession` is called. -/
  | detachSession (i : ℕ)
  /-- `Close` is called, or the action stop/logout runs. -/
  | close (i : ℕ)
  /-- `Initiator.Connect` returns to `Connect`. -/
  | dial (i : ℕ) (ok : Bool)
  /-- `AttachSession`, under `attachMu`. -/
  | attach (i : ℕ)
  /-- `DetachSession`, under `attachMu`. -/
  | detach (i : ℕ)
  /-- A session that has been started closes: a loop of it aborts, or the monitor stops it. -/
  | abort (s : ℕ)
  /-- A user stops a session. -/
  | stop (s : ℕ)
  /-- A session that has closed calls `onCloseOnce`. -/
  | notify (s : ℕ)
  /-- A close callback of the session detaches, under `attachMu`. -/
  | callbackDetach (s : ℕ)
  /-- It goes on to `startReconnectLoop`, where reconnecting is enabled. -/
  | callbackReconnect (s : ℕ)
  /-- `Initiator.Connect` returns to the loop. -/
  | loopDial (ok : Bool)
  | loopWake
  /-- `AttachSession` of the loop, under `attachMu`. -/
  | loopAttach
  /-- The loop forgets its context, and ends. -/
  | loopEnd
  deriving DecidableEq

namespace Lifecycle

/-- `NewFixEngine`, with the parameters of `SetReconnectParams`. -/
def new (initiator enableReconnect : Bool) : Lifecycle :=
  ⟨initiator, enableReconnect, none, fun _ => .new, 0, fun _ => none, none⟩

/-- A session goes on. -/
def update (e : Lifecycle) (s : ℕ) (f : SessionState → SessionState) : Lifecycle :=
  { e with sessions := Function.update e.sessions s (f (e.sessions s)) }

/-- A caller goes on, or returns. -/
def put (e : Lifecycle) (i : ℕ) (x : Option CallPhase) : Lifecycle :=
  { e with calls := e.calls.put i x }

/-- `AttachSession`: nothing is done about a session attached before. -/
def attachSession (e : Lifecycle) (s : ℕ) : Lifecycle :=
  { e.update s .wire with session := some s }

/-- `DetachSession`. -/
def detachSession (e : Lifecycle) : Lifecycle :=
  match e.session with
  | none => e
  | some s => { e.update s .stop with session := none }

/-- A close callback starts the reconnect loop, unless it runs. -/
def startReconnectLoop (e : Lifecycle) : Lifecycle :=
  if e.loop = none then { e with loop := some .dialing } else e

/-- The check of a close callback. -/
def Reconnects (e : Lifecycle) : Prop := e.enableReconnect = true ∧ e.initiator = true

instance (e : Lifecycle) : Decidable e.Reconnects := inferInstanceAs (Decidable (_ ∧ _))

/-- One step. -/
def step (e : Lifecycle) : LifecycleAction → Option Lifecycle
  | .newSession => some { e with made := e.made + 1 }
  | .connect i =>
      if e.calls i = none then some (if e.initiator = true then e.put i (some .dialing) else e)
      else none
  | .attachSession i s =>
      if e.calls i = none ∧ s < e.made then some (e.put i (some (.attaching s))) else none
  | .detachSession i | .close i =>
      if e.calls i = none then some (e.put i (some .detaching)) else none
  | .dial i ok =>
      if e.calls i = some .dialing then
        some (if ok = true then { e.put i (some (.attaching e.made)) with made := e.made + 1 }
          else e.put i none)
      else none
  | .attach i =>
      match e.calls i with
      | some (.attaching s) => some ((e.attachSession s).put i none)
      | _ => none
  | .detach i =>
      if e.calls i = some .detaching then some (e.detachSession.put i none) else none
  | .abort s =>
      if (e.sessions s).Live then some (e.update s fun x => { x with closed := true }) else none
  | .stop s =>
      if s < e.made ∧ (e.sessions s).closed = false then
        some (e.update s fun x => { x with closed := true })
      else none
  | .notify s =>
      if (e.sessions s).closed = true then some (e.update s .notify) else none
  | .callbackDetach s =>
      if 0 < (e.sessions s).detaching then
        some (e.detachSession.update s fun x =>
          { x with detaching := x.detaching - 1, reconnecting := x.reconnecting + 1 })
      else none
  | .callbackReconnect s =>
      if 0 < (e.sessions s).reconnecting then
        some ((if e.Reconnects then e.startReconnectLoop else e).update s fun x =>
          { x with reconnecting := x.reconnecting - 1 })
      else none
  | .loopDial ok =>
      if e.loop = some .dialing then
        some (if ok = true then { e with loop := some (.attaching e.made), made := e.made + 1 }
          else { e with loop := some .waiting })
      else none
  | .loopWake => if e.loop = some .waiting then some { e with loop := some .dialing } else none
  | .loopAttach =>
      match e.loop with
      | some (.attaching s) => some { e.attachSession s with loop := some .attached }
      | _ => none
  | .loopEnd => if e.loop = some .attached then some { e with loop := none } else none

/-- The session a step attaches. -/
def attaches (e : Lifecycle) : LifecycleAction → Option ℕ
  | .attach i =>
      match e.calls i with
      | some (.attaching s) => some s
      | _ => none
  | .loopAttach =>
      match e.loop with
      | some (.attaching s) => some s
      | _ => none
  | _ => none

/-- A step detaches the session the engine holds, if it holds one. -/
def detaches : LifecycleAction → Bool
  | .detach _ | .callbackDetach _ => true
  | _ => false

/-! ## What a step does to a session

Sessions are numbered, and a step is about one of them or about none.  All but an attachment take a
session further on the same way, from open to closed and through its callback, and never back. -/

end Lifecycle

/-- **How a session changes in a step that attaches none**: what has happened stays so, and where
`onCloseOnce` has run, or has no close callback to run, no goroutine of one is added. -/
structure SessionState.Ages (x y : SessionState) : Prop where
  wired : y.wired = x.wired
  closed : x.closed = true → y.closed = true
  notified : x.notified = true → y.notified = true
  detaching : x.notified = true ∨ x.wired = 0 → y.detaching ≤ x.detaching
  pending : x.notified = true ∨ x.wired = 0 →
    y.detaching + y.reconnecting ≤ x.detaching + x.reconnecting

namespace SessionState

theorem Ages.refl (x : SessionState) : x.Ages x :=
  ⟨rfl, id, id, fun _ => le_refl _, fun _ => le_refl _⟩

theorem Ages.trans {x y z : SessionState} (h : x.Ages y) (h' : y.Ages z) : x.Ages z := by
  have hnone : x.notified = true ∨ x.wired = 0 → y.notified = true ∨ y.wired = 0 :=
    Or.imp h.notified fun hx => h.wired.trans hx
  exact ⟨h'.wired.trans h.wired, fun hx => h'.closed (h.closed hx),
    fun hx => h'.notified (h.notified hx), fun hx => (h'.detaching (hnone hx)).trans (h.detaching hx),
    fun hx => (h'.pending (hnone hx)).trans (h.pending hx)⟩

/-- A session that is finished stays so. -/
theorem Ages.finished {x y : SessionState} (h : x.Ages y) (hx : x.Finished) : y.Finished := by
  have hpending := h.pending hx.notified
  rw [hx.detaching, hx.reconnecting] at hpending
  exact ⟨hx.notified.imp h.notified fun hw => h.wired.trans hw, by omega, by omega⟩

theorem ages_close (x : SessionState) : x.Ages { x with closed := true } :=
  ⟨rfl, fun _ => rfl, id, fun _ => le_refl _, fun _ => le_refl _⟩

theorem ages_notify (x : SessionState) : x.Ages x.notify := by
  unfold notify
  split
  · exact .refl x
  · next h =>
    refine ⟨rfl, id, fun _ => rfl, fun hx => ?_, fun hx => ?_⟩
    all_goals
      have hwired := hx.resolve_left h
      dsimp only
      omega

theorem ages_stop (x : SessionState) : x.Ages x.stop := x.ages_close.trans (ages_notify _)

@[simp] theorem closed_notify (x : SessionState) : x.notify.closed = x.closed := by
  unfold notify
  split <;> rfl

@[simp] theorem closed_stop (x : SessionState) : x.stop.closed = true := closed_notify _

theorem detaching_le_stop (x : SessionState) : x.detaching ≤ x.stop.detaching := by
  unfold stop notify
  split
  · exact le_refl _
  · exact Nat.le_add_right _ _

end SessionState

namespace Lifecycle

open SessionState (Ages)

theorem sessions_update (e : Lifecycle) (s t : ℕ) (f : SessionState → SessionState) :
    (e.update s f).sessions t = if t = s then f (e.sessions s) else e.sessions t :=
  Function.update_apply _ _ _ _

@[simp] theorem sessions_put (e : Lifecycle) (i : ℕ) (x : Option CallPhase) :
    (e.put i x).sessions = e.sessions := rfl

@[simp] theorem session_put (e : Lifecycle) (i : ℕ) (x : Option CallPhase) :
    (e.put i x).session = e.session := rfl

theorem calls_put (e : Lifecycle) (i j : ℕ) (x : Option CallPhase) :
    (e.put i x).calls j = if j = i then x else e.calls j := Function.update_apply _ _ _ _

@[simp] theorem session_update (e : Lifecycle) (s : ℕ) (f : SessionState → SessionState) :
    (e.update s f).session = e.session := rfl

@[simp] theorem sessions_startReconnectLoop (e : Lifecycle) :
    e.startReconnectLoop.sessions = e.sessions := by
  unfold startReconnectLoop
  split <;> rfl

@[simp] theorem session_startReconnectLoop (e : Lifecycle) :
    e.startReconnectLoop.session = e.session := by
  unfold startReconnectLoop
  split <;> rfl

@[simp] theorem session_detachSession (e : Lifecycle) : e.detachSession.session = none := by
  unfold detachSession
  split
  · next h => exact h
  · rfl

/-- `DetachSession` stops the session the engine holds, and touches no other. -/
theorem sessions_detachSession (e : Lifecycle) (t : ℕ) :
    e.detachSession.sessions t
      = if e.session = some t then (e.sessions t).stop else e.sessions t := by
  unfold detachSession
  cases h : e.session with
  | none => rfl
  | some s =>
    dsimp only
    rw [sessions_update]
    by_cases hts : t = s
    · rw [if_pos hts, if_pos (by rw [hts]), hts]
    · rw [if_neg hts, if_neg fun hs => hts (Option.some.inj hs).symm]

theorem ages_update {e : Lifecycle} {s : ℕ} {f : SessionState → SessionState}
    (h : Ages (e.sessions s) (f (e.sessions s))) (t : ℕ) :
    Ages (e.sessions t) ((e.update s f).sessions t) := by
  rw [sessions_update]
  split
  · next hts => rwa [hts]
  · exact .refl _

theorem ages_detachSession (e : Lifecycle) (t : ℕ) :
    Ages (e.sessions t) (e.detachSession.sessions t) := by
  rw [sessions_detachSession]
  split
  · exact SessionState.ages_stop _
  · exact .refl _

section Step

variable {e e' : Lifecycle} {a : LifecycleAction}

/-- A close callback goes from detaching to reconnecting, and may stop the session. -/
theorem ages_callbackDetach {s : ℕ} (hpos : 0 < (e.sessions s).detaching) (t : ℕ) :
    Ages (e.sessions t) ((e.detachSession.update s fun x =>
      { x with detaching := x.detaching - 1, reconnecting := x.reconnecting + 1 }).sessions t) := by
  refine (ages_detachSession e t).trans (ages_update ?_ t)
  have hdet : 0 < (e.detachSession.sessions s).detaching := by
    rw [sessions_detachSession]
    split
    · exact Nat.lt_of_lt_of_le hpos (SessionState.detaching_le_stop _)
    · exact hpos
  exact ⟨rfl, id, id, fun _ => Nat.sub_le _ _, fun _ => by dsimp only; omega⟩

/-- It ends, and may start the reconnect loop. -/
theorem ages_callbackReconnect (s t : ℕ) : Ages (e.sessions t)
    (((if e.Reconnects then e.startReconnectLoop else e).update s fun x =>
      { x with reconnecting := x.reconnecting - 1 }).sessions t) := by
  have hsame : (if e.Reconnects then e.startReconnectLoop else e).sessions = e.sessions := by
    split
    · exact sessions_startReconnectLoop e
    · rfl
  rw [sessions_update, hsame]
  split
  · next hts =>
    subst hts
    exact ⟨rfl, id, id, fun _ => le_refl _, fun _ => Nat.add_le_add_left (Nat.sub_le _ _) _⟩
  · exact .refl _

/-- **A session only ages.** -/
theorem ages_step (hstep : e.step a = some e') (h : e.attaches a = none) (t : ℕ) :
    Ages (e.sessions t) (e'.sessions t) := by
  cases a with
  | attach i | loopAttach =>
    simp only [attaches] at h
    simp only [step] at hstep
    split at hstep
    · next hphase =>
      rw [hphase] at h
      cases h
    · cases hstep
  | newSession =>
    cases hstep
    exact .refl _
  | connect i =>
    obtain ⟨-, rfl⟩ := Runs.of_guarded hstep
    split <;> exact .refl _
  | attachSession i s | detachSession i | close i | loopWake | loopEnd =>
    obtain ⟨-, rfl⟩ := Runs.of_guarded hstep
    exact .refl _
  | dial i ok | loopDial ok =>
    obtain ⟨-, rfl⟩ := Runs.of_guarded hstep
    split <;> exact .refl _
  | detach i =>
    obtain ⟨-, rfl⟩ := Runs.of_guarded hstep
    exact ages_detachSession e t
  | abort s | stop s =>
    obtain ⟨-, rfl⟩ := Runs.of_guarded hstep
    exact ages_update (SessionState.ages_close _) t
  | notify s =>
    obtain ⟨-, rfl⟩ := Runs.of_guarded hstep
    exact ages_update (SessionState.ages_notify _) t
  | callbackDetach s =>
    obtain ⟨hpos, rfl⟩ := Runs.of_guarded hstep
    exact ages_callbackDetach hpos t
  | callbackReconnect s =>
    obtain ⟨hpos, rfl⟩ := Runs.of_guarded hstep
    exact ages_callbackReconnect s t

/-- **What an attachment does.** -/
theorem of_attaches {s : ℕ} (h : e.attaches a = some s) (hstep : e.step a = some e') :
    e'.session = some s ∧ e'.sessions = (e.attachSession s).sessions := by
  cases a with
  | attach i =>
    simp only [attaches] at h
    split at h
    · next t hcall =>
      cases h
      simp only [step, hcall, Option.some.injEq] at hstep
      subst hstep
      exact ⟨rfl, rfl⟩
    · cases h
  | loopAttach =>
    simp only [attaches] at h
    split at h
    · next t hloop =>
      cases h
      simp only [step, hloop, Option.some.injEq] at hstep
      subst hstep
      exact ⟨rfl, rfl⟩
    · cases h
  | newSession | connect | attachSession | detachSession | close | dial | detach | abort | stop | notify
  | callbackDetach | callbackReconnect | loopDial | loopWake | loopEnd => cases h

/-- **Which session the engine holds** behind a step that attaches none. -/
theorem session_step (hstep : e.step a = some e') (h : e.attaches a = none) :
    e'.session = if detaches a = true then none else e.session := by
  cases a with
  | attach i | loopAttach =>
    simp only [attaches] at h
    simp only [step] at hstep
    split at hstep
    · next hphase =>
      rw [hphase] at h
      cases h
    · cases hstep
  | newSession =>
    cases hstep
    rfl
  | connect i | dial i ok | loopDial ok =>
    obtain ⟨-, rfl⟩ := Runs.of_guarded hstep
    split <;> rfl
  | attachSession | detachSession | close | abort | stop | notify | loopWake | loopEnd =>
    obtain ⟨-, rfl⟩ := Runs.of_guarded hstep
    rfl
  | detach i | callbackDetach s =>
    obtain ⟨-, rfl⟩ := Runs.of_guarded hstep
    exact session_detachSession e
  | callbackReconnect s =>
    obtain ⟨-, rfl⟩ := Runs.of_guarded hstep
    rw [session_update]
    split
    · exact session_startReconnectLoop e
    · rfl

theorem attaches_of_detaches (e : Lifecycle) (h : detaches a = true) : e.attaches a = none := by
  cases a with
  | detach | callbackDetach => rfl
  | newSession | connect | attachSession | detachSession | close | dial | attach | abort | stop | notify
  | callbackReconnect | loopDial | loopWake | loopAttach | loopEnd => cases h

/-- Behind a step that detaches, the session the engine held is closed. -/
theorem closed_of_detaches {s : ℕ} (hstep : e.step a = some e') (h : detaches a = true)
    (hs : e.session = some s) : (e'.sessions s).closed = true := by
  have hclosed : (e.detachSession.sessions s).closed = true := by
    rw [sessions_detachSession, if_pos hs]
    exact SessionState.closed_stop _
  cases a with
  | detach i =>
    obtain ⟨-, rfl⟩ := Runs.of_guarded hstep
    exact hclosed
  | callbackDetach t =>
    obtain ⟨-, rfl⟩ := Runs.of_guarded hstep
    rw [sessions_update]
    split
    · next hst =>
      rw [← hst]
      exact hclosed
    · exact hclosed
  | newSession | connect | attachSession | detachSession | close | dial | attach | abort | stop | notify
  | callbackReconnect | loopDial | loopWake | loopAttach | loopEnd => cases h

/-- An attachment starts its session, and touches no other. -/
theorem sessions_attach {s : ℕ} (h : e.attaches a = some s) (hstep : e.step a = some e') (t : ℕ) :
    e'.sessions t = if t = s then (e.sessions s).wire else e.sessions t := by
  rw [(of_attaches h hstep).2, attachSession, sessions_update]

/-- A session that runs behind a step is attached by it, or ran before and is not detached by it. -/
theorem live_step {s : ℕ} (hstep : e.step a = some e') (hlive : (e'.sessions s).Live) :
    e.attaches a = some s
      ∨ (e.sessions s).Live ∧ (detaches a = true → e.session ≠ some s) := by
  obtain ⟨hwired, hopen⟩ := hlive
  cases hatt : e.attaches a with
  | some t =>
    by_cases hts : s = t
    · exact Or.inl (congrArg some hts.symm)
    · rw [sessions_attach hatt hstep, if_neg hts] at hwired hopen
      refine Or.inr ⟨⟨hwired, hopen⟩, fun hdet => ?_⟩
      rw [attaches_of_detaches e hdet] at hatt
      cases hatt
  | none =>
    have hages := ages_step hstep hatt s
    refine Or.inr ⟨⟨hages.wired ▸ hwired, ?_⟩, fun hdet hs => ?_⟩
    · cases hc : (e.sessions s).closed with
      | false => rfl
      | true =>
        rw [hages.closed hc] at hopen
        cases hopen
    · rw [closed_of_detaches hstep hdet hs] at hopen
      cases hopen

end Step

/-! ## Close callbacks that are still to come

A session that has been started can close at any time, and its callback then comes to `attachMu`.
So one that is not settled may still detach whatever session the engine holds by then. -/

/-- **A session that has been started and is not settled can come to detach**, by steps of its own.
Where `onCloseOnce` is still to come, it is what adds the goroutine. -/
theorem exists_run_to_detaching {e : Lifecycle} {s : ℕ} (hwired : 0 < (e.sessions s).wired)
    (h : ¬ (e.sessions s).Settled) : ∃ as e', Runs.run step e as = some e'
      ∧ (∀ a ∈ as, a = .abort s ∨ a = .notify s) ∧ e' = { e with sessions := e'.sessions }
      ∧ 0 < (e'.sessions s).detaching := by
  have hnotify : ∀ {e : Lifecycle}, 0 < (e.sessions s).wired → (e.sessions s).notified = false →
      0 < ((e.update s .notify).sessions s).detaching := by
    intro e hwired hnot
    rw [sessions_update, if_pos rfl, SessionState.notify, if_neg (by rw [hnot]; decide)]
    exact Nat.lt_of_lt_of_le hwired (Nat.le_add_left _ _)
  cases hnot : (e.sessions s).notified with
  | true =>
    refine ⟨[], e, rfl, fun _ h => absurd h List.not_mem_nil, rfl, Nat.pos_of_ne_zero fun hzero => ?_⟩
    exact h ⟨hnot, hzero⟩
  | false =>
    cases hclosed : (e.sessions s).closed with
    | true =>
      have hstep : e.step (.notify s) = some (e.update s .notify) := if_pos hclosed
      refine ⟨[.notify s], e.update s .notify, Runs.run_cons_eq_some.mpr ⟨_, hstep, rfl⟩, ?_, rfl,
        hnotify hwired hnot⟩
      exact fun a ha => Or.inr (List.mem_singleton.mp ha)
    | false =>
      obtain ⟨e₁, he₁⟩ : ∃ e₁, e₁ = e.update s fun x => { x with closed := true } := ⟨_, rfl⟩
      have hs₁ : e₁.sessions s = { e.sessions s with closed := true } := by
        rw [he₁, sessions_update, if_pos rfl]
      have habort : e.step (.abort s) = some e₁ := by
        rw [step, if_pos ⟨hwired, hclosed⟩, he₁]
      have hstep : e₁.step (.notify s) = some (e₁.update s .notify) := if_pos (by rw [hs₁])
      refine ⟨[.abort s, .notify s], e₁.update s .notify, Runs.run_cons_eq_some.mpr ⟨_, habort,
        Runs.run_cons_eq_some.mpr ⟨_, hstep, rfl⟩⟩, ?_, ?_, hnotify ?_ ?_⟩
      · intro a ha
        rcases List.mem_cons.mp ha with rfl | ha
        · exact Or.inl rfl
        · exact Or.inr (List.mem_singleton.mp ha)
      · rw [he₁]
        rfl
      · rw [hs₁]
        exact hwired
      · rw [hs₁]
        exact hnot

/-- A settled session stays settled. -/
theorem settled_step {e e' : Lifecycle} {a : LifecycleAction} {s : ℕ}
    (h : (e.sessions s).Settled) (hstep : e.step a = some e') : (e'.sessions s).Settled := by
  cases hatt : e.attaches a with
  | some t =>
    rw [sessions_attach hatt hstep]
    split
    · next hst =>
      rw [← hst]
      exact h
    · exact h
  | none =>
    have hages := ages_step hstep hatt s
    exact ⟨hages.notified h.1, Nat.le_zero.mp (h.2 ▸ hages.detaching (Or.inl h.1))⟩

end Lifecycle

end FixMsg
