import GoFixMsg.Machinery.Runs

/-!
# Engine/MultiSession — who closes the connection of an accepted session

The acceptor runs a goroutine per client, which closes the connection when its handler returns.  The
handler of a `MultiSessionEngine` returns as soon as it has started the session.  So the connection
of a running session is closed under it, unless that goroutine gets to the close late
(`keepsConnections_iff`).

A client is followed from its connection to the end of its session.  The goroutine that serves it,
the session, and the goroutine that watches it take their steps as the scheduler has it, and so do
those of all other clients; the invariant is that of one client, and a step of one leaves that of
the others.
-/

namespace FixMsg

/-- How far the acceptor's goroutine of a client has got. -/
inductive ClientPhase where
  /-- In the handler, before `AttachSession`. -/
  | handling
  /-- Behind `AttachSession`. -/
  | attached
  /-- Behind the handler, which has registered the session. -/
  | returned
  /-- Behind the close of the connection. -/
  | closed
  deriving DecidableEq

/-- A session, from `Start` to the first `Stop` or `abort`. -/
inductive SessionLife where
  | new
  | running
  | ended
  deriving DecidableEq

/-- The goroutine that unregisters a session. -/
inductive WatcherPhase where
  | absent
  /-- At `<-s.Context().Done()`. -/
  | waiting
  /-- Behind it, before `unregisterSession`. -/
  | woken
  | done
  deriving DecidableEq

/-- An accepted client. -/
structure Client where
  phase : ClientPhase
  session : SessionLife
  registered : Bool
  connOpen : Bool
  watcher : WatcherPhase
  deriving DecidableEq

/-- A step of one client. -/
inductive ClientStep where
  /-- `AttachSession`, which starts the session. -/
  | attach
  /-- `registerSession`, behind which the handler returns. -/
  | register
  /-- `wrapped.Close()`. -/
  | closeConn
  /-- A loop of the session meets an error of the connection or the end of its input: `abort`. -/
  | ioError
  /-- `Session.Stop`, by the user or the monitor. -/
  | stopSession
  /-- The context of the session is done. -/
  | wake
  /-- `unregisterSession`, which closes the engine. -/
  | unregister
  deriving DecidableEq

namespace Client

/-- A client whose connection has been accepted. -/
def accepted : Client := ⟨.handling, .new, false, true, .absent⟩

/-- `FixEngine.Close`: the session is stopped, and the connection closed. -/
def close (c : Client) : Client := { c with session := .ended, connOpen := false }

/-- A session is registered and running. -/
def Live (c : Client) : Prop := c.registered = true ∧ c.session = .running

instance (c : Client) : Decidable c.Live := inferInstanceAs (Decidable (_ ∧ _))

/-- One step. -/
def step (c : Client) : ClientStep → Option Client
  | .attach =>
      if c.phase = .handling then some { c with phase := .attached, session := .running } else none
  | .register =>
      if c.phase = .attached then
        some { c with phase := .returned, registered := true, watcher := .waiting }
      else none
  | .closeConn =>
      if c.phase = .returned then some { c with phase := .closed, connOpen := false } else none
  | .ioError | .stopSession => if c.session = .running then some c.close else none
  | .wake =>
      if c.watcher = .waiting ∧ c.session = .ended then some { c with watcher := .woken } else none
  | .unregister =>
      if c.watcher = .woken then
        some { (if c.registered = true then c.close else c) with registered := false, watcher := .done }
      else none

/-- **What holds of a client in every state**: nobody watches a session that is not attached yet; one
that has been attached is not new any more; one about to be unregistered has ended; and a handler that
has returned has registered its session, which only its end undoes. -/
structure Inv (c : Client) : Prop where
  unwatched : c.phase = .handling → c.watcher = .absent
  started : c.phase ≠ .handling → c.session ≠ .new
  woken : c.watcher = .woken → c.session = .ended
  returned : c.phase = .returned → c.registered = true ∨ c.session = .ended

theorem inv_accepted : accepted.Inv := ⟨by decide, by decide, by decide, by decide⟩

/-- A client that is closed and forgotten. -/
theorem Inv.forget {c : Client} (h : c.Inv) : ({ c.close with registered := false } : Client).Inv :=
  ⟨h.unwatched, fun _ hnew => SessionLife.noConfusion hnew, fun _ => rfl, fun _ => Or.inr rfl⟩

theorem Inv.step {c c' : Client} {t : ClientStep} (h : c.Inv) (hstep : c.step t = some c') :
    c'.Inv := by
  obtain ⟨unwatched, started, woken, returned⟩ := h
  cases t
  all_goals
    obtain ⟨hguard, rfl⟩ := Runs.of_guarded hstep
    constructor
    all_goals grind -ring -linarith -ac -order [close]

end Client

/-- A `MultiSessionEngine` and its clients.  `stopped` is set from the call of `Stop` on, and `wg`
counts the goroutines the acceptor has started for clients. -/
structure MultiSessionEngine where
  clients : Calls Client
  stopped : Bool
  wg : ℕ

/-- A step of the acceptor, of a client, or of `Stop`. -/
inductive ServerAction where
  | accept (i : ℕ)
  | client (i : ℕ) (t : ClientStep)
  /-- `Stop` is called, and stops listening. -/
  | stop
  /-- `Stop`, behind the goroutines of the acceptor, closes an engine and forgets it. -/
  | stopSession (i : ℕ)

namespace MultiSessionEngine

/-- `NewMultiSessionEngine`, started. -/
def start : MultiSessionEngine := ⟨fun _ => none, false, 0⟩

/-- One step. -/
def step (s : MultiSessionEngine) : ServerAction → Option MultiSessionEngine
  | .accept i =>
      match s.clients i with
      | some _ => none
      | none =>
          if s.stopped = true then none
          else some { s with clients := s.clients.put i (some .accepted), wg := s.wg + 1 }
  | .client i t =>
      ((s.clients i).bind fun c => c.step t).map fun c =>
        { s with clients := s.clients.put i (some c), wg := if t = .closeConn then s.wg - 1 else s.wg }
  | .stop => some { s with stopped := true }
  | .stopSession i =>
      match s.clients i with
      | none => none
      | some c =>
          if s.stopped = true ∧ s.wg = 0 ∧ c.registered = true then
            some { s with clients := s.clients.put i (some { c.close with registered := false }) }
          else none

/-- The client whose connection the engine or the acceptor closes in a step. -/
def closes : ServerAction → Option ℕ
  | .client i .closeConn | .client i .unregister | .stopSession i => some i
  | _ => none

/-- **The engine closes no connection it should keep**: where a step closes one, `Stop` has been
called, or the session is not registered and running. -/
def KeepsConnections (s : MultiSessionEngine) (a : ServerAction) : Prop :=
  ∀ i c, closes a = some i → s.clients i = some c → c.Live → s.stopped = true

/-- **The condition on a step**: the goroutine of a client closes its connection only when the
session has ended, or `Stop` has been called. -/
def Waits (s : MultiSessionEngine) : ServerAction → Prop
  | .client i .closeConn => ∀ c, s.clients i = some c → c.session = .ended ∨ s.stopped = true
  | _ => True

/-- **What holds in every state.** -/
def Inv (s : MultiSessionEngine) : Prop := ∀ i c, s.clients i = some c → c.Inv

theorem inv_start : start.Inv := fun _ _ h => by cases h

/-- A client goes on, and keeps its invariant. -/
theorem Inv.put {s : MultiSessionEngine} (h : s.Inv) (i : ℕ) {c : Client} (hc : c.Inv) (stopped : Bool)
    (wg : ℕ) : (MultiSessionEngine.mk (s.clients.put i (some c)) stopped wg).Inv := by
  intro j d hj
  rcases Calls.put_eq_some_iff.mp hj with ⟨-, hd⟩ | ⟨-, hd⟩
  · exact Option.some.inj hd ▸ hc
  · exact h j d hd

theorem step_client {s s' : MultiSessionEngine} {i : ℕ} {t : ClientStep}
    (h : s.step (.client i t) = some s') : ∃ c c', s.clients i = some c ∧ c.step t = some c'
      ∧ s' = ⟨s.clients.put i (some c'), s.stopped, if t = .closeConn then s.wg - 1 else s.wg⟩ := by
  obtain ⟨c', hc', rfl⟩ := Option.map_eq_some_iff.mp h
  obtain ⟨c, hi, hstep⟩ := Option.bind_eq_some_iff.mp hc'
  exact ⟨c, c', hi, hstep, rfl⟩

theorem inv_step (s : MultiSessionEngine) (a : ServerAction) (s' : MultiSessionEngine) (h : s.Inv)
    (hstep : s.step a = some s') : s'.Inv := by
  cases a with
  | accept i =>
    rw [step] at hstep
    split at hstep
    · cases hstep
    · split at hstep <;> cases hstep
      exact h.put i Client.inv_accepted _ _
  | client i t =>
    obtain ⟨c, c', hi, hc', rfl⟩ := step_client hstep
    exact h.put i ((h i c hi).step hc') _ _
  | stop =>
    cases hstep
    exact h
  | stopSession i =>
    rw [step] at hstep
    split at hstep
    · cases hstep
    · next c hi =>
      split at hstep <;> cases hstep
      exact h.put i (h i c hi).forget _ _

/-- **Only the goroutine of a client closes a connection it should keep**, and it does exactly if it
does not wait. -/
theorem keepsConnections_iff_waits (s : MultiSessionEngine) (a : ServerAction)
    (s' : MultiSessionEngine) (h : s.Inv) (hstep : s.step a = some s') :
    s.KeepsConnections a ↔ s.Waits a := by
  cases a with
  | accept i => exact iff_of_true (fun _ _ hi => by cases hi) trivial
  | stop => exact iff_of_true (fun _ _ hi => by cases hi) trivial
  | stopSession i =>
    refine iff_of_true (fun j c hj hc hlive => ?_) trivial
    rw [step] at hstep
    split at hstep
    · cases hstep
    · split at hstep
      · next hguard => exact hguard.1
      · cases hstep
  | client i t =>
    obtain ⟨c, c', hi, hc', -⟩ := step_client hstep
    have hinv := h i c hi
    cases t with
    | closeConn =>
      have hphase : c.phase = .returned := by
        rw [Client.step] at hc'
        split at hc'
        · assumption
        · cases hc'
      constructor
      · intro hkeeps d hd
        rw [hi] at hd
        cases hd
        by_cases hlive : c.Live
        · exact Or.inr (hkeeps i c rfl hi hlive)
        · have hstarted := hinv.started (by rw [hphase]; decide)
          rcases hinv.returned hphase with hreg | hended
          · cases hsession : c.session with
            | new => exact absurd hsession hstarted
            | running => exact absurd ⟨hreg, hsession⟩ hlive
            | ended => exact Or.inl rfl
          · exact Or.inl hended
      · intro hwaits j d hj hd hlive
        cases hj
        rcases hwaits d hd with hended | hstopped
        · rw [hlive.2] at hended
          cases hended
        · exact hstopped
    | unregister =>
      refine iff_of_true (fun j d hj hd hlive => ?_) trivial
      cases hj
      rw [hi] at hd
      cases hd
      have hwoken : c.watcher = .woken := by
        rw [Client.step] at hc'
        split at hc'
        · assumption
        · cases hc'
      have hended := hinv.woken hwoken
      rw [hlive.2] at hended
      cases hended
    | attach | register | ioError | stopSession | wake =>
      exact iff_of_true (fun _ _ hj => by cases hj) trivial

/-- **Connections stay open exactly in the runs where the goroutine of a client waits**: nothing else
closes the connection of a session that is registered and running before `Stop` is called. -/
theorem keepsConnections_iff {as : List ServerAction} {s : MultiSessionEngine}
    (hrun : Runs.run step start as = some s) :
    Runs.Meets step KeepsConnections start as ↔ Runs.Meets step Waits start as :=
  Runs.meets_congr inv_step keepsConnections_iff_waits inv_start hrun

/-- The goroutine of a client whose peer has gone waits long enough. -/
theorem keepsConnections_behind_peer : Runs.Meets step KeepsConnections start
    [.accept 0, .client 0 .attach, .client 0 .register, .client 0 .ioError, .client 0 .closeConn] := by
  obtain ⟨s, hs⟩ : ∃ s, Runs.run step start [.accept 0, .client 0 .attach, .client 0 .register,
    .client 0 .ioError, .client 0 .closeConn] = some s := ⟨_, rfl⟩
  refine (keepsConnections_iff hs).mpr ?_
  refine ⟨trivial, fun _ h₁ => ⟨trivial, fun _ h₂ => ⟨trivial, fun _ h₃ => ⟨trivial, fun _ h₄ =>
    ⟨fun c hc => ?_, fun _ _ => trivial⟩⟩⟩⟩⟩
  cases h₁
  cases h₂
  cases h₃
  cases h₄
  cases hc
  exact Or.inl rfl

/-- A client connects, its session is started and registered, and its connection is closed. -/
theorem closes_running_session : ¬ Runs.Meets step KeepsConnections start
      [.accept 0, .client 0 .attach, .client 0 .register, .client 0 .closeConn]
    ∧ ((Runs.run step start [.accept 0, .client 0 .attach, .client 0 .register,
        .client 0 .closeConn]).bind fun s => s.clients 0)
      = some ⟨.closed, .running, true, false, .waiting⟩ := by
  refine ⟨fun h => ?_, rfl⟩
  obtain ⟨-, h₁⟩ := h
  obtain ⟨-, h₂⟩ := h₁ _ rfl
  obtain ⟨-, h₃⟩ := h₂ _ rfl
  obtain ⟨hkeeps, -⟩ := h₃ _ rfl
  have hstopped := hkeeps 0 _ rfl rfl ⟨rfl, rfl⟩
  cases hstopped

end MultiSessionEngine

end FixMsg
