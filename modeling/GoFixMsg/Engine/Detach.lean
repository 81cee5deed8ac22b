import GoFixMsg.Engine.Outbound
import Mathlib.Logic.Relation

/-!
# Engine/Detach — does `DetachSession` return?

`DetachSession` holds `attachMu` while it waits for the monitor and the loops of the session to
exit.  These call `SendMessage`, which takes `attachMu` to read the session.  So `DetachSession`
returns exactly if none of them gets to the lock in that time (`detach_returns_iff`).

Mutexes that are never held across a wait are left out.

The goroutines are few and fixed, and each is somewhere in a short list of places.  A run is calm as
long as neither the monitor nor the read loop gets into `SendMessage` while `DetachSession` has the
lock.  From a calm run there is always a way on, by a measure of what is left to do (`rank`); and a
step that is not calm closes a circle that no later step opens (`stuck_step`).
-/

namespace FixMsg

/-- The goroutines of an attached engine: that of `DetachSession`, the `HeartbeatMonitor`, the two
loops of the session, and the heartbeat sender. -/
inductive Goroutine where
  | detacher
  | monitor
  | reader
  | writer
  | ticker
  deriving DecidableEq

/-- How far a call of `SendMessage`, or of `Session.Send` alone, has got. -/
inductive SendPhase where
  /-- On the way to `attachMu`. -/
  | locking
  /-- Holding it, to read the session. -/
  | locked
  /-- In `Session.Send`. -/
  | queueing
  deriving DecidableEq

/-- How far `DetachSession` has got. -/
inductive DetachPhase where
  | idle
  /-- It holds `attachMu`, and has stopped the heartbeat sender. -/
  | locked
  /-- In `Monitor.Stop`, behind the cancel. -/
  | awaitsMonitor
  /-- In `Session.Stop`, with the session closed. -/
  | awaitsSession
  | returned
  deriving DecidableEq

/-- `DetachSession` holds `attachMu`. -/
def DetachPhase.holds : DetachPhase → Bool
  | .locked | .awaitsMonitor | .awaitsSession => true
  | .idle | .returned => false

/-- The loop of the `HeartbeatMonitor`. -/
inductive MonitorPhase where
  | waiting
  /-- In `Session.Stop`, as the TestRequest has not been answered. -/
  | stopping
  | exited
  deriving DecidableEq

/-- The read loop of the session. -/
inductive ReaderPhase where
  | reading
  /-- In `OnMessage`. -/
  | handling
  | exited
  deriving DecidableEq

/-- An engine with a session attached, and its goroutines. -/
structure Attached where
  attachMu : Option Goroutine
  detacher : DetachPhase
  monitor : MonitorPhase
  reader : ReaderPhase
  /-- The write loop runs. -/
  writing : Bool
  /-- The calls of `SendMessage` and `Session.Send` in progress. -/
  sends : Goroutine → Option SendPhase
  /-- The context of the monitor is cancelled. -/
  cancelled : Bool
  /-- The session is closed, its context cancelled. -/
  closed : Bool
  /-- The number of frames in `sendCh`. -/
  queued : ℕ

/-- A step of one of the goroutines. -/
inductive AttachedAction where
  /-- `DetachSession` takes `attachMu`. -/
  | lock
  /-- `Monitor.Stop` cancels the context of the monitor. -/
  | stopMonitor
  /-- `Monitor.Stop` returns, and `Session.Stop` closes the session. -/
  | stopSession
  /-- `Session.Stop` returns, and so does `DetachSession`. -/
  | finish
  /-- A goroutine calls `SendMessage`, and this gets to `attachMu`. -/
  | call (g : Goroutine)
  | acquire (g : Goroutine)
  | release (g : Goroutine)
  /-- `Session.Send` finds room in the queue. -/
  | enqueue (g : Goroutine)
  /-- `Session.Send` finds the session closed. -/
  | refuse (g : Goroutine)
  /-- The monitor stops the session. -/
  | timeout
  /-- Its `Session.Stop` returns. -/
  | sessionStopped
  | monitorExit
  /-- The read loop has a frame. -/
  | dispatch
  /-- The handler sends past `SendMessage`. -/
  | sessionSend
  | handled
  /-- The read loop meets an error, or the connection closed. -/
  | readerExit
  /-- The write loop takes a frame out of the queue. -/
  | write
  /-- The write loop meets an error, or the context cancelled. -/
  | writerExit

namespace Attached

/-- A goroutine goes on with its call, or returns from it. -/
def put (s : Attached) (g : Goroutine) (x : Option SendPhase) : Attached :=
  { s with sends := Function.update s.sends g x }

@[simp, grind =] theorem sends_put (s : Attached) (g g' : Goroutine) (x : Option SendPhase) :
    (s.put g x).sends g' = if g' = g then x else s.sends g' := Function.update_apply _ _ _ _

@[simp, grind =] theorem attachMu_put (s : Attached) (g : Goroutine) (x : Option SendPhase) :
    (s.put g x).attachMu = s.attachMu := rfl

@[simp, grind =] theorem detacher_put (s : Attached) (g : Goroutine) (x : Option SendPhase) :
    (s.put g x).detacher = s.detacher := rfl

@[simp, grind =] theorem monitor_put (s : Attached) (g : Goroutine) (x : Option SendPhase) :
    (s.put g x).monitor = s.monitor := rfl

@[simp, grind =] theorem reader_put (s : Attached) (g : Goroutine) (x : Option SendPhase) :
    (s.put g x).reader = s.reader := rfl

@[simp, grind =] theorem writing_put (s : Attached) (g : Goroutine) (x : Option SendPhase) :
    (s.put g x).writing = s.writing := rfl

@[simp, grind =] theorem cancelled_put (s : Attached) (g : Goroutine) (x : Option SendPhase) :
    (s.put g x).cancelled = s.cancelled := rfl

@[simp, grind =] theorem closed_put (s : Attached) (g : Goroutine) (x : Option SendPhase) :
    (s.put g x).closed = s.closed := rfl

@[simp, grind =] theorem queued_put (s : Attached) (g : Goroutine) (x : Option SendPhase) :
    (s.put g x).queued = s.queued := rfl

/-- A goroutine is at a place that may call `SendMessage`. -/
def CanCall (s : Attached) : Goroutine → Prop
  | .monitor => s.monitor = .waiting
  | .reader => s.reader = .handling
  | .ticker => True
  | .detacher | .writer => False

instance (s : Attached) : (g : Goroutine) → Decidable (s.CanCall g)
  | .monitor => inferInstanceAs (Decidable (s.monitor = .waiting))
  | .reader => inferInstanceAs (Decidable (s.reader = .handling))
  | .ticker => .isTrue trivial
  | .detacher | .writer => .isFalse id

/-- Both loops of the session have exited. -/
abbrev LoopsDone (s : Attached) : Prop := s.reader = .exited ∧ s.writing = false

/-- One step. -/
def step (s : Attached) : AttachedAction → Option Attached
  | .lock =>
      if s.detacher = .idle ∧ s.attachMu = none then
        some { s with detacher := .locked, attachMu := some .detacher }
      else none
  | .stopMonitor =>
      if s.detacher = .locked then
        some { s with detacher := .awaitsMonitor, cancelled := true }
      else none
  | .stopSession =>
      if s.detacher = .awaitsMonitor ∧ s.monitor = .exited then
        some { s with detacher := .awaitsSession, closed := true }
      else none
  | .finish =>
      if s.detacher = .awaitsSession ∧ s.LoopsDone then
        some { s with detacher := .returned, attachMu := none }
      else none
  | .call g => if s.sends g = none ∧ s.CanCall g then some (s.put g (some .locking)) else none
  | .acquire g =>
      if s.sends g = some .locking ∧ s.attachMu = none then
        some { s.put g (some .locked) with attachMu := some g }
      else none
  | .release g =>
      if s.sends g = some .locked then some { s.put g (some .queueing) with attachMu := none }
      else none
  | .enqueue g =>
      if s.sends g = some .queueing ∧ s.queued < sendChCap then
        some { s.put g none with queued := s.queued + 1 }
      else none
  | .refuse g =>
      if s.sends g = some .queueing ∧ s.closed = true then some (s.put g none) else none
  | .timeout =>
      if s.monitor = .waiting ∧ s.sends .monitor = none then
        some { s with monitor := .stopping, closed := true }
      else none
  | .sessionStopped =>
      if s.monitor = .stopping ∧ s.LoopsDone then some { s with monitor := .waiting } else none
  | .monitorExit =>
      if s.monitor = .waiting ∧ s.sends .monitor = none ∧ s.cancelled = true then
        some { s with monitor := .exited }
      else none
  | .dispatch => if s.reader = .reading then some { s with reader := .handling } else none
  | .sessionSend =>
      if s.reader = .handling ∧ s.sends .reader = none then some (s.put .reader (some .queueing))
      else none
  | .handled =>
      if s.reader = .handling ∧ s.sends .reader = none then some { s with reader := .reading }
      else none
  | .readerExit =>
      if s.reader = .reading then some { s with reader := .exited, closed := true } else none
  | .write =>
      if s.writing = true ∧ 0 < s.queued then some { s with queued := s.queued - 1 } else none
  | .writerExit =>
      if s.writing = true then some { s with writing := false, closed := true } else none

/-- One goroutine waits for another to exit. -/
inductive Awaits (s : Attached) : Goroutine → Goroutine → Prop where
  | monitorStop (h : s.detacher = .awaitsMonitor) : s.Awaits .detacher .monitor
  | sessionStopReader (h : s.detacher = .awaitsSession) : s.Awaits .detacher .reader
  | sessionStopWriter (h : s.detacher = .awaitsSession) : s.Awaits .detacher .writer
  | timeoutReader (h : s.monitor = .stopping) : s.Awaits .monitor .reader
  | timeoutWriter (h : s.monitor = .stopping) : s.Awaits .monitor .writer

/-- `DetachSession` holds `attachMu` and waits, directly or not, for a goroutine that needs it. -/
def Deadlocked (s : Attached) : Prop :=
  s.attachMu = some .detacher
    ∧ ∃ g, Relation.TransGen s.Awaits .detacher g ∧ s.sends g = some .locking

/-- `DetachSession` can still return. -/
def CanReturn (s : Attached) : Prop :=
  ∃ as s', Runs.run step s as = some s' ∧ s'.detacher = .returned

/-- Neither the monitor nor the read loop needs `attachMu`. -/
def Apart (s : Attached) : Prop :=
  s.sends .monitor ≠ some .locking ∧ s.sends .reader ≠ some .locking

/-- **The condition on a step**: `DetachSession` takes `attachMu` when neither the monitor nor the
read loop needs it, and while it holds it neither comes to need it. -/
def Calm (s : Attached) : AttachedAction → Prop
  | .lock => s.Apart
  | .call g => g = .monitor ∨ g = .reader → s.attachMu ≠ some .detacher
  | _ => True

/-! ## What holds in every state

Three things are kept: who has the lock, where the loops of the session are, and how far
`DetachSession` has come.  A run that is calm is good, and one that is not is stuck, and there is
nothing between the two. -/

/-- `attachMu` is held by whoever is between its `Lock` and `Unlock`. -/
structure Mutex (s : Attached) : Prop where
  held : s.attachMu = some .detacher ↔ s.detacher.holds = true
  locked : ∀ g, s.sends g = some .locked → s.attachMu = some g
  owner : ∀ g, s.attachMu = some g → g ≠ .detacher → s.sends g = some .locked
  idle : s.sends .detacher = none

/-- The loops and their calls fit together, and what `DetachSession` waits for can come. -/
structure Loops (s : Attached) : Prop where
  monitor : s.sends .monitor ≠ none → s.monitor = .waiting
  reader : s.sends .reader ≠ none → s.reader = .handling
  writer : s.writing = false → s.closed = true
  stopping : s.monitor = .stopping → s.closed = true
  cancelled : s.detacher = .awaitsMonitor → s.cancelled = true
  session : s.detacher = .awaitsSession → s.monitor = .exited ∧ s.closed = true
  quiet : s.sends .writer ≠ some .locking

theorem Mutex.step {s s' : Attached} {a : AttachedAction} (h : s.Mutex)
    (hstep : s.step a = some s') : s'.Mutex := by
  obtain ⟨held, locked, owner, idle⟩ := h
  cases a
  all_goals
    obtain ⟨hguard, rfl⟩ := Runs.of_guarded hstep
    constructor
    all_goals
      first | assumption | grind -ring -linarith -lia -ac -order [DetachPhase.holds, CanCall]

/-- The loops of the session, as a step leaves them: most of the fields are about parts that it does
not touch. -/
theorem Loops.step {s s' : Attached} {a : AttachedAction} (h : s.Loops)
    (hstep : s.step a = some s') : s'.Loops := by
  obtain ⟨monitor, reader, writer, stopping, cancelled, session, quiet⟩ := h
  cases a
  all_goals
    obtain ⟨hguard, rfl⟩ := Runs.of_guarded hstep
    constructor
    all_goals first | assumption | grind -ring -linarith -lia -ac -order [CanCall]

/-- **The invariant of a calm run**: while `DetachSession` holds `attachMu`, neither the monitor nor
the read loop needs it. -/
structure Good (s : Attached) : Prop where
  mutex : s.Mutex
  loops : s.Loops
  apart : s.attachMu = some .detacher → s.Apart

theorem good_step (s : Attached) (a : AttachedAction) (s' : Attached) (h : s.Good)
    (hcalm : s.Calm a) (hstep : s.step a = some s') : s'.Good := by
  obtain ⟨hmutex, hloops, hapart⟩ := h
  refine ⟨hmutex.step hstep, hloops.step hstep, ?_⟩
  have howner := hmutex.owner
  have hidle := hmutex.idle
  cases a
  all_goals
    obtain ⟨hguard, rfl⟩ := Runs.of_guarded hstep
    grind -ring -linarith -lia -ac -order [Calm, CanCall, Apart]

/-- `DetachSession` holds `attachMu`, and will not let it go: it waits for the monitor or the read
loop, which needs it. -/
structure Stuck (s : Attached) : Prop where
  mutex : s.Mutex
  held : s.attachMu = some .detacher
  needed : (s.sends .monitor = some .locking ∧ s.monitor = .waiting ∧ s.detacher ≠ .awaitsSession)
    ∨ (s.sends .reader = some .locking ∧ s.reader = .handling)

/-- **It stays stuck.** -/
theorem stuck_step (s : Attached) (a : AttachedAction) (s' : Attached) (h : s.Stuck)
    (hstep : s.step a = some s') : s'.Stuck := by
  obtain ⟨hmutex, hheld, hneeded⟩ := h
  refine ⟨hmutex.step hstep, ?_, ?_⟩
  all_goals
    have hlocked := hmutex.locked
    have hholds := hmutex.held.mp hheld
    have hidle := hmutex.idle
    cases a
    all_goals
      obtain ⟨hguard, rfl⟩ := Runs.of_guarded hstep
      grind -ring -linarith -lia -ac -order [DetachPhase.holds]

/-- **A step that is not calm makes it stuck.** -/
theorem stuck_of_not_calm (s : Attached) (a : AttachedAction) (s' : Attached) (h : s.Good)
    (hcalm : ¬ s.Calm a) (hstep : s.step a = some s') : s'.Stuck := by
  obtain ⟨hmutex, hloops, -⟩ := h
  refine ⟨hmutex.step hstep, ?_, ?_⟩
  all_goals
    have hholds := hmutex.held
    have hmonitor := hloops.monitor
    have hreader := hloops.reader
    have hsession := hloops.session
    cases a
    all_goals
      obtain ⟨hguard, rfl⟩ := Runs.of_guarded hstep
      grind -ring -linarith -lia -ac -order [Calm, CanCall, Apart, DetachPhase.holds]

/-! ## `DetachSession` gets on

Every place has a number, higher the more steps are left from there.  From a good state some step
makes the sum smaller, whoever takes it, so `DetachSession` comes to its end. -/

/-- How far a call is from its end. -/
def callRank : Option SendPhase → ℕ
  | none => 0
  | some .queueing => 1
  | some .locked => 2
  | some .locking => 3

/-- How far `DetachSession` is from its end. -/
def detachRank : DetachPhase → ℕ
  | .idle => 4
  | .locked => 3
  | .awaitsMonitor => 2
  | .awaitsSession => 1
  | .returned => 0

/-- How far the monitor is from its end. -/
def monitorRank : MonitorPhase → ℕ
  | .stopping => 2
  | .waiting => 1
  | .exited => 0

/-- How far the read loop is from its end. -/
def readerRank : ReaderPhase → ℕ
  | .handling => 2
  | .reading => 1
  | .exited => 0

/-- How far the calls in progress are from their end. -/
def callsRank (s : Attached) : ℕ :=
  callRank (s.sends .detacher) + callRank (s.sends .monitor) + callRank (s.sends .reader)
    + callRank (s.sends .writer) + callRank (s.sends .ticker)

/-- How much is left to do.  A call that ends may leave a frame in the queue. -/
def rank (s : Attached) : ℕ :=
  detachRank s.detacher + 2 * (monitorRank s.monitor + readerRank s.reader + s.callsRank)
    + s.writing.toNat + s.queued

/-- A call that goes on comes closer to its end. -/
theorem callsRank_put {s : Attached} {g : Goroutine} {x : Option SendPhase}
    (h : callRank x < callRank (s.sends g)) : (s.put g x).callsRank < s.callsRank := by
  unfold callsRank
  cases g <;> simp only [sends_put, reduceCtorEq, if_true, if_false] <;> omega

/-- There is a calm step after which less is left to do. -/
def Advances (s : Attached) : Prop :=
  ∃ a s', s.step a = some s' ∧ s.Calm a ∧ s'.rank < s.rank

theorem advances_acquire {s : Attached} {g : Goroutine} (hg : s.sends g = some .locking)
    (hfree : s.attachMu = none) : s.Advances := by
  refine ⟨.acquire g, _, if_pos ⟨hg, hfree⟩, trivial, ?_⟩
  have hlt : (s.put g (some .locked)).callsRank < s.callsRank :=
    callsRank_put (by rw [hg]; decide)
  change _ + 2 * (_ + (s.put g (some .locked)).callsRank) + _ + _ < _
  unfold rank
  simp only [detacher_put, monitor_put, reader_put, writing_put, queued_put]
  omega

theorem advances_release {s : Attached} {g : Goroutine} (hg : s.sends g = some .locked) :
    s.Advances := by
  refine ⟨.release g, _, if_pos hg, trivial, ?_⟩
  have hlt : (s.put g (some .queueing)).callsRank < s.callsRank :=
    callsRank_put (by rw [hg]; decide)
  change _ + 2 * (_ + (s.put g (some .queueing)).callsRank) + _ + _ < _
  unfold rank
  simp only [detacher_put, monitor_put, reader_put, writing_put, queued_put]
  omega

/-- A call in `Session.Send` returns, or the write loop makes room for it. -/
theorem advances_send {s : Attached} (hwriter : s.writing = false → s.closed = true) {g : Goroutine}
    (hg : s.sends g = some .queueing) : s.Advances := by
  have hlt : (s.put g none).callsRank < s.callsRank := callsRank_put (by rw [hg]; decide)
  by_cases hroom : s.queued < sendChCap
  · refine ⟨.enqueue g, _, if_pos ⟨hg, hroom⟩, trivial, ?_⟩
    change _ + 2 * (_ + (s.put g none).callsRank) + _ + (s.queued + 1) < _
    unfold rank
    simp only [detacher_put, monitor_put, reader_put, writing_put]
    omega
  · cases hclosed : s.closed with
    | true =>
      refine ⟨.refuse g, _, if_pos ⟨hg, hclosed⟩, trivial, ?_⟩
      unfold rank
      simp only [detacher_put, monitor_put, reader_put, writing_put, queued_put]
      omega
    | false =>
      have hwriting : s.writing = true := by
        cases hw : s.writing with
        | true => rfl
        | false => exact absurd ((hwriter hw).symm.trans hclosed) (by decide)
      have hqueued : 0 < s.queued := (show 0 < sendChCap by decide).trans_le (not_lt.mp hroom)
      refine ⟨.write, _, if_pos ⟨hwriting, hqueued⟩, trivial, ?_⟩
      exact Nat.add_lt_add_left (Nat.sub_lt hqueued Nat.one_pos) _

/-- The loops of a closed session exit, where the read loop does not need `attachMu`. -/
theorem advances_session {s : Attached} (hwriter : s.writing = false → s.closed = true)
    (hlocking : s.sends .reader ≠ some .locking) (hlocked : s.sends .reader ≠ some .locked)
    (hloops : ¬ s.LoopsDone) : s.Advances := by
  cases hreader : s.reader with
  | reading =>
    refine ⟨.readerExit, _, if_pos hreader, trivial, ?_⟩
    unfold rank callsRank
    rw [hreader]
    dsimp only [readerRank]
    omega
  | handling =>
    cases hsend : s.sends .reader with
    | none =>
      refine ⟨.handled, _, if_pos ⟨hreader, hsend⟩, trivial, ?_⟩
      unfold rank callsRank
      rw [hreader]
      dsimp only [readerRank]
      omega
    | some phase =>
      cases phase with
      | locking => exact absurd hsend hlocking
      | locked => exact absurd hsend hlocked
      | queueing => exact advances_send hwriter hsend
  | exited =>
    have hwriting : s.writing = true := by
      rw [Attached.LoopsDone, not_and, Bool.not_eq_false] at hloops
      exact hloops hreader
    refine ⟨.writerExit, _, if_pos hwriting, trivial, ?_⟩
    unfold rank callsRank
    rw [hwriting, Bool.toNat_true]
    dsimp only
    rw [Bool.toNat_false]
    omega

/-- **Before `DetachSession` takes `attachMu`, it can come to take it calmly.** -/
theorem Good.advances_idle {s : Attached} (h : s.Good) (hidle : s.detacher = .idle) : s.Advances := by
  cases hmu : s.attachMu with
  | some g =>
    have hg : g ≠ .detacher := by
      rintro rfl
      have hholds := h.mutex.held.mp hmu
      rw [hidle] at hholds
      cases hholds
    exact advances_release (h.mutex.owner g hmu hg)
  | none =>
    by_cases hmonitor : s.sends .monitor = some .locking
    · exact advances_acquire hmonitor hmu
    by_cases hreader : s.sends .reader = some .locking
    · exact advances_acquire hreader hmu
    refine ⟨.lock, _, if_pos ⟨hidle, hmu⟩, ⟨hmonitor, hreader⟩, ?_⟩
    unfold rank callsRank
    rw [hidle]
    dsimp only [detachRank]
    omega

/-- **In `Monitor.Stop`, the monitor exits.** -/
theorem Good.advances_awaitsMonitor {s : Attached} (h : s.Good)
    (hawaits : s.detacher = .awaitsMonitor) : s.Advances := by
  have hheld : s.attachMu = some .detacher := h.mutex.held.mpr (by rw [hawaits]; rfl)
  obtain ⟨hmonitor, hreader⟩ := h.apart hheld
  have hlocked : ∀ g, g ≠ .detacher → s.sends g ≠ some .locked := by
    intro g hg hsend
    have hmu := h.mutex.locked g hsend
    rw [hheld] at hmu
    exact hg (Option.some.inj hmu).symm
  cases hphase : s.monitor with
  | exited =>
    refine ⟨.stopSession, _, if_pos ⟨hawaits, hphase⟩, trivial, ?_⟩
    unfold rank callsRank
    rw [hawaits]
    dsimp only [detachRank]
    omega
  | waiting =>
    cases hsend : s.sends .monitor with
    | none =>
      refine ⟨.monitorExit, _, if_pos ⟨hphase, hsend, h.loops.cancelled hawaits⟩, trivial, ?_⟩
      unfold rank callsRank
      rw [hphase]
      dsimp only [monitorRank]
      omega
    | some phase =>
      cases phase with
      | locking => exact absurd hsend hmonitor
      | locked => exact absurd hsend (hlocked .monitor (by decide))
      | queueing => exact advances_send h.loops.writer hsend
  | stopping =>
    by_cases hloops : s.LoopsDone
    · refine ⟨.sessionStopped, _, if_pos ⟨hphase, hloops⟩, trivial, ?_⟩
      unfold rank callsRank
      rw [hphase]
      dsimp only [monitorRank]
      omega
    · exact advances_session h.loops.writer hreader (hlocked .reader (by decide)) hloops

/-- **In `Session.Stop`, the loops exit.** -/
theorem Good.advances_awaitsSession {s : Attached} (h : s.Good)
    (hawaits : s.detacher = .awaitsSession) : s.Advances := by
  have hheld : s.attachMu = some .detacher := h.mutex.held.mpr (by rw [hawaits]; rfl)
  by_cases hloops : s.LoopsDone
  · refine ⟨.finish, _, if_pos ⟨hawaits, hloops⟩, trivial, ?_⟩
    unfold rank callsRank
    rw [hawaits]
    dsimp only [detachRank]
    omega
  · refine advances_session h.loops.writer (h.apart hheld).2 (fun hsend => ?_) hloops
    have hmu := h.mutex.locked .reader hsend
    rw [hheld] at hmu
    cases hmu

/-- **From a good state `DetachSession` can return.** -/
theorem Good.canReturn {s : Attached} (h : s.Good) : s.CanReturn := by
  refine Runs.exists_run_of_progress rank (fun s h hnot => ?_) h
  have hadvances : s.Advances := by
    cases hphase : s.detacher with
    | idle => exact h.advances_idle hphase
    | locked =>
      refine ⟨.stopMonitor, _, if_pos hphase, trivial, ?_⟩
      unfold rank callsRank
      rw [hphase]
      dsimp only [detachRank]
      omega
    | awaitsMonitor => exact h.advances_awaitsMonitor hphase
    | awaitsSession => exact h.advances_awaitsSession hphase
    | returned => exact absurd hphase hnot
  obtain ⟨a, s', hstep, hcalm, hlt⟩ := hadvances
  exact ⟨a, s', hstep, good_step s a s' h hcalm hstep, hlt⟩

/-- Nobody `DetachSession` waits for needs `attachMu`. -/
theorem Good.not_deadlocked {s : Attached} (h : s.Good) : ¬ s.Deadlocked := by
  rintro ⟨hheld, g, hawaits, hlocking⟩
  obtain ⟨hmonitor, hreader⟩ := h.apart hheld
  have hwriter : s.sends .writer ≠ some .locking := h.loops.quiet
  cases hawaits with
  | single hg => cases hg <;> contradiction
  | tail _ hg => cases hg <;> contradiction

/-- From a stuck state it cannot. -/
theorem Stuck.not_canReturn {s : Attached} (h : s.Stuck) : ¬ s.CanReturn := by
  rintro ⟨as, s', hrun, hreturned⟩
  have hmeets : Runs.Meets step (fun _ _ => True) s as :=
    Runs.meets_of_forall (fun _ _ _ => trivial) s
  have hstuck : s'.Stuck :=
    Runs.run_invariant Stuck (fun s a s' h _ => stuck_step s a s' h) h hmeets hrun
  have hholds := hstuck.mutex.held.mp hstuck.held
  rw [hreturned] at hholds
  cases hholds

/-- A session is attached, and nobody is about to do anything. -/
structure Fresh (s : Attached) : Prop where
  free : s.attachMu = none
  idle : s.detacher = .idle
  sends : ∀ g, s.sends g = none
  monitor : s.monitor ≠ .stopping
  writing : s.writing = true

theorem Fresh.good {s : Attached} (h : s.Fresh) : s.Good := by
  obtain ⟨free, idle, sends, monitor, writing⟩ := h
  refine ⟨⟨?_, ?_, ?_, sends _⟩, ⟨?_, ?_, ?_, ?_, ?_, ?_, ?_⟩, ?_⟩
  all_goals grind -ring -linarith -lia -ac -order [DetachPhase.holds]

/-- **`DetachSession` does not deadlock, and can return, exactly in the calm runs.** -/
theorem detach_returns_iff {s₀ s : Attached} (h : s₀.Fresh) {as : List AttachedAction}
    (hrun : Runs.run step s₀ as = some s) :
    (¬ s.Deadlocked ∧ s.CanReturn) ↔ Runs.Meets step Calm s₀ as := by
  rcases Runs.run_meets_or good_step stuck_of_not_calm stuck_step h.good hrun with
    ⟨hmeets, hgood⟩ | ⟨hnot, hstuck⟩
  · exact iff_of_true ⟨hgood.not_deadlocked, hgood.canReturn⟩ hmeets
  · exact iff_of_false (fun hs => hstuck.not_canReturn hs.2) hnot

/-- An engine right behind `AttachSession`. -/
def attached : Attached := ⟨none, .idle, .waiting, .reading, true, fun _ => none, false, false, 0⟩

theorem fresh_attached : attached.Fresh := ⟨rfl, rfl, fun _ => rfl, by decide, rfl⟩

/-- A handler that has read the session before `DetachSession` takes the lock is not in its way. -/
theorem detach_returns_behind_send : ∃ s, Runs.run step attached
    [.dispatch, .call .reader, .acquire .reader, .release .reader, .lock, .stopMonitor] = some s
      ∧ ¬ s.Deadlocked ∧ s.CanReturn := by
  obtain ⟨s, hs⟩ : ∃ s, Runs.run step attached
    [.dispatch, .call .reader, .acquire .reader, .release .reader, .lock, .stopMonitor] = some s :=
    ⟨_, rfl⟩
  refine ⟨s, hs, (detach_returns_iff fresh_attached hs).mpr ?_⟩
  refine ⟨trivial, fun _ h₁ => ?_⟩
  cases h₁
  refine ⟨fun _ => by decide, fun _ h₂ => ?_⟩
  cases h₂
  refine ⟨trivial, fun _ h₃ => ⟨trivial, fun _ h₄ => ?_⟩⟩
  cases h₃
  cases h₄
  exact ⟨⟨by decide, by decide⟩, fun _ _ => ⟨trivial, fun _ _ => trivial⟩⟩

/-- A tick of the monitor falls between its timer and `SendMessage`'s lock when `DetachSession` takes
the lock: `Monitor.Stop` waits for the monitor, and the monitor for `attachMu`, for ever. -/
theorem detach_deadlocks : ∃ s, Runs.run step attached [.call .monitor, .lock, .stopMonitor] = some s
    ∧ s.Deadlocked ∧ ¬ s.CanReturn := by
  refine ⟨_, rfl, ⟨rfl, .monitor, .single (.monitorStop rfl), rfl⟩, ?_⟩
  have hgood := good_step attached (.call .monitor) _ fresh_attached.good (fun _ => by decide) rfl
  have hstuck := stuck_of_not_calm _ .lock _ hgood (fun hapart => hapart.1 rfl) rfl
  exact (stuck_step _ .stopMonitor _ hstuck rfl).not_canReturn

end Attached

end FixMsg
