import Mathlib.Data.Int.Notation
import GoFixMsg.Machinery.Runs

/-!
# Engine/HeartbeatMonitor — when the monitor stops the session

The loop of the monitor reads `lastSeen` and `outstanding`, gives the lock back, and acts on what it
has read: it sends a TestRequest and marks it outstanding, or it stops the session.  `Seen` may come
in between.  So the monitor stops a session that has answered exactly where a `Seen` fell between
the sending of the last TestRequest and its mark, or into the tick that stops (`stops_iff`).
-/

namespace FixMsg

/-- Where the loop of the monitor is. -/
inductive MonitorPoint where
  | waiting
  /-- Behind the reading of `lastSeen` and `outstanding`. -/
  | ticked (ls : ℤ) (out : Bool)
  /-- About to hand a TestRequest to `SendMessage`. -/
  | requesting
  /-- In `SendMessage`, or behind it and before the mark. -/
  | sending
  /-- About to read `testSent`. -/
  | checking
  | comparing (ts : ℤ)
  /-- About to stop the session. -/
  | stopping
  | exited
  deriving DecidableEq

/-- **`HeartbeatMonitor`**: its fields, its loop and the clock.  Behind them stands what a reader of
the run wants to know: when the last TestRequest was handed to `SendMessage`, whether a `Seen` has
come since then, whether one came before the mark, and whether one came since the last reading. -/
structure HeartbeatMonitor where
  lastSeen : ℤ
  testSent : ℤ
  outstanding : Bool
  point : MonitorPoint
  now : ℤ
  handed : Option ℤ
  answered : Bool
  seenUnmarked : Bool
  seenInTick : Bool

/-- What the loop does, `Seen` from the read loop, and the passing of time. -/
inductive MonitorAction where
  | advance (d : ℕ)
  | seen
  | tick
  | decide
  | send
  | mark
  | check
  | compare
  | stop
  | exit
  deriving DecidableEq

namespace HeartbeatMonitor

/-- `Start`, at a time.  `testSent` is the zero time. -/
def start (t : ℤ) : HeartbeatMonitor :=
  ⟨t, 0, false, .waiting, t, none, false, false, false⟩

/-- One step, with the fields `Interval` and `TestReqTimeout`. -/
def step (interval testReqTimeout : ℤ) (m : HeartbeatMonitor) :
    MonitorAction → Option HeartbeatMonitor
  | .advance d => some { m with now := m.now + d }
  | .seen =>
      some { m with
        lastSeen := m.now
        outstanding := false
        answered := true
        seenUnmarked := m.seenUnmarked || m.point = .sending
        seenInTick := true }
  | .tick =>
      if m.point = .waiting then
        some { m with point := .ticked m.lastSeen m.outstanding, seenInTick := false }
      else none
  | .decide =>
      match m.point with
      | .ticked ls out =>
          some { m with
            point :=
              if interval < m.now - ls then (if out then .checking else .requesting)
              else .waiting }
      | _ => none
  | .send =>
      if m.point = .requesting then
        some { m with
          point := .sending
          handed := some m.now
          answered := false
          seenUnmarked := false }
      else none
  | .mark =>
      if m.point = .sending then
        some { m with testSent := m.now, outstanding := true, point := .waiting }
      else none
  | .check => if m.point = .checking then some { m with point := .comparing m.testSent } else none
  | .compare =>
      match m.point with
      | .comparing ts =>
          some { m with point := if testReqTimeout < m.now - ts then .stopping else .waiting }
      | _ => none
  -- `Session.Stop()`
  | .stop => if m.point = .stopping then some { m with point := .waiting } else none
  | .exit => if m.point = .waiting then some { m with point := .exited } else none

/-- **What is asked of a stop**: there is a last TestRequest, no `Seen` has come since it was handed to
`SendMessage`, and more than `TestReqTimeout` has passed. -/
def StopsUnanswered (testReqTimeout : ℤ) (m : HeartbeatMonitor) (a : MonitorAction) : Prop :=
  a = .stop → (∃ t, m.handed = some t ∧ testReqTimeout < m.now - t) ∧ m.answered = false

/-- **The condition on a stop**: no `Seen` came between the last TestRequest and its mark, nor since
this tick has read `lastSeen` and `outstanding`. -/
def StopsUndisturbed (m : HeartbeatMonitor) (a : MonitorAction) : Prop :=
  a = .stop → m.seenUnmarked = false ∧ m.seenInTick = false

/-! ## What the loop knows -/

/-- A TestRequest was handed over, at the given time at the latest. -/
def HandedBy (m : HeartbeatMonitor) (ts : ℤ) : Prop := ∃ t, m.handed = some t ∧ t ≤ ts

/-- A `Seen` since the last TestRequest came before its mark, or since the last reading. -/
def AnsweredAside (m : HeartbeatMonitor) : Prop :=
  m.answered = (m.seenUnmarked || m.seenInTick)

/-- What holds at a place of the loop. -/
def AtPoint (testReqTimeout : ℤ) (m : HeartbeatMonitor) : Prop :=
  match m.point with
  | .waiting | .exited => True
  | .ticked _ false | .requesting => m.outstanding = false
  | .sending => m.outstanding = false ∧ m.HandedBy m.now ∧ m.answered = m.seenUnmarked
  | .ticked _ true | .checking => m.HandedBy m.testSent ∧ m.AnsweredAside
  | .comparing ts => m.HandedBy ts ∧ m.AnsweredAside
  | .stopping => (∃ t, m.handed = some t ∧ testReqTimeout < m.now - t) ∧ m.AnsweredAside

/-- **The invariant**: while a TestRequest is marked outstanding no `Seen` has come since the mark,
and what the loop has read was so when it read it. -/
structure Inv (testReqTimeout : ℤ) (m : HeartbeatMonitor) : Prop where
  marked : m.outstanding = true → m.HandedBy m.testSent ∧ m.answered = m.seenUnmarked
  atPoint : m.AtPoint testReqTimeout

theorem inv_start (testReqTimeout t : ℤ) : Inv testReqTimeout (start t) :=
  ⟨fun h => (Bool.false_ne_true h).elim, trivial⟩

/-- Whatever the loop has read, a `Seen` since the reading is one the loop does not know of. -/
theorem answeredAside_seen {ls ts now : ℤ} {out unmarked : Bool} {point : MonitorPoint}
    {handed : Option ℤ} : AnsweredAside ⟨ls, ts, out, point, now, handed, true, unmarked, true⟩ :=
  (Bool.or_true unmarked).symm

/-- Time passes. -/
theorem Inv.advance {testReqTimeout : ℤ} {m : HeartbeatMonitor} (h : Inv testReqTimeout m) (d : ℕ) :
    Inv testReqTimeout { m with now := m.now + d } := by
  obtain ⟨hmarked, hpoint⟩ := h
  obtain ⟨ls, ts, out, point, now, handed, answered, unmarked, inTick⟩ := m
  refine ⟨hmarked, ?_⟩
  cases point with
  | ticked ls out => cases out <;> exact hpoint
  | sending =>
    obtain ⟨hout, ⟨t, ht, hle⟩, hans⟩ := hpoint
    exact ⟨hout, ⟨t, ht, by dsimp only at hle ⊢; omega⟩, hans⟩
  | stopping =>
    obtain ⟨⟨t, ht, hlt⟩, haside⟩ := hpoint
    exact ⟨⟨t, ht, by dsimp only at hlt ⊢; omega⟩, haside⟩
  | waiting | requesting | checking | comparing | exited => exact hpoint

/-- `Seen` comes in, wherever the loop is. -/
theorem Inv.seen {testReqTimeout : ℤ} {m : HeartbeatMonitor} (h : Inv testReqTimeout m) :
    Inv testReqTimeout
      { m with
        lastSeen := m.now
        outstanding := false
        answered := true
        seenUnmarked := m.seenUnmarked || m.point = .sending
        seenInTick := true } := by
  obtain ⟨-, hpoint⟩ := h
  obtain ⟨ls, ts, out, point, now, handed, answered, unmarked, inTick⟩ := m
  refine ⟨fun h => (Bool.false_ne_true h).elim, ?_⟩
  cases point with
  | ticked ls out =>
    cases out with
    | false => rfl
    | true => exact ⟨hpoint.1, answeredAside_seen⟩
  | requesting => rfl
  | sending => exact ⟨rfl, hpoint.2.1, (Bool.or_true unmarked).symm⟩
  | checking => exact ⟨hpoint.1, answeredAside_seen⟩
  | comparing ts => exact ⟨hpoint.1, answeredAside_seen⟩
  | stopping => exact ⟨hpoint.1, answeredAside_seen⟩
  | waiting | exited => trivial

/-- **Every step keeps the invariant.** -/
theorem Inv.step {interval testReqTimeout : ℤ} {m m' : HeartbeatMonitor} {a : MonitorAction}
    (h : Inv testReqTimeout m) (hstep : step interval testReqTimeout m a = some m') :
    Inv testReqTimeout m' := by
  have hadvance := h.advance
  have hseen := h.seen
  obtain ⟨hmarked, hpoint⟩ := h
  obtain ⟨ls, ts, out, point, now, handed, answered, unmarked, inTick⟩ := m
  cases a with
  | advance d =>
    cases Option.some.inj hstep
    exact hadvance d
  | seen =>
    cases Option.some.inj hstep
    exact hseen
  | tick =>
    obtain ⟨-, rfl⟩ := Runs.of_guarded hstep
    refine ⟨hmarked, ?_⟩
    cases out with
    | false => rfl
    | true =>
      obtain ⟨hby, hans⟩ := hmarked rfl
      exact ⟨hby, hans.trans (Bool.or_false unmarked).symm⟩
  | decide =>
    cases point with
    | ticked ls out' =>
      cases Option.some.inj hstep
      refine ⟨hmarked, ?_⟩
      dsimp only
      by_cases hlate : interval < now - ls
      · rw [if_pos hlate]
        cases out' with
        | false => exact hpoint
        | true => exact hpoint
      · rw [if_neg hlate]
        trivial
    | waiting | requesting | sending | checking | comparing | stopping | exited => cases hstep
  | send =>
    obtain ⟨hp, rfl⟩ := Runs.of_guarded hstep
    dsimp only at hp
    subst hp
    refine ⟨fun hout => ?_, hpoint, ⟨now, rfl, Int.le_refl now⟩, rfl⟩
    rw [AtPoint] at hpoint
    exact absurd (hpoint.symm.trans hout) Bool.false_ne_true
  | mark =>
    obtain ⟨hp, rfl⟩ := Runs.of_guarded hstep
    dsimp only at hp
    subst hp
    exact ⟨fun _ => hpoint.2, trivial⟩
  | check =>
    obtain ⟨hp, rfl⟩ := Runs.of_guarded hstep
    dsimp only at hp
    subst hp
    exact ⟨hmarked, hpoint⟩
  | compare =>
    cases point with
    | comparing ts' =>
      cases Option.some.inj hstep
      refine ⟨hmarked, ?_⟩
      obtain ⟨⟨t, ht, hle⟩, haside⟩ := hpoint
      dsimp only
      by_cases hlate : testReqTimeout < now - ts'
      · rw [if_pos hlate]
        exact ⟨⟨t, ht, by dsimp only; omega⟩, haside⟩
      · rw [if_neg hlate]
        trivial
    | waiting | ticked | requesting | sending | checking | stopping | exited => cases hstep
  | stop =>
    obtain ⟨-, rfl⟩ := Runs.of_guarded hstep
    exact ⟨hmarked, trivial⟩
  | exit =>
    obtain ⟨-, rfl⟩ := Runs.of_guarded hstep
    exact ⟨hmarked, trivial⟩

/-! ## The stops -/

/-- A stop is one on an unanswered TestRequest exactly if it is undisturbed. -/
theorem stopsUnanswered_iff {interval testReqTimeout : ℤ} {m m' : HeartbeatMonitor}
    {a : MonitorAction} (h : Inv testReqTimeout m)
    (hstep : step interval testReqTimeout m a = some m') :
    StopsUnanswered testReqTimeout m a ↔ StopsUndisturbed m a := by
  refine forall_congr' fun ha => ?_
  subst ha
  obtain ⟨hp, -⟩ := Runs.of_guarded hstep
  have hpoint := h.atPoint
  rw [AtPoint, hp] at hpoint
  obtain ⟨hlate, haside⟩ := hpoint
  rw [haside, Bool.or_eq_false_iff]
  exact and_iff_right hlate

/-- **In every run the monitor stops the session on unanswered TestRequests alone, exactly if no
`Seen` falls between a TestRequest and its mark, or into a tick, that leads to a stop.** -/
theorem stops_iff {interval testReqTimeout t : ℤ} {as : List MonitorAction} {m : HeartbeatMonitor}
    (hrun : Runs.run (step interval testReqTimeout) (start t) as = some m) :
    Runs.Meets (step interval testReqTimeout) (StopsUnanswered testReqTimeout) (start t) as
      ↔ Runs.Meets (step interval testReqTimeout) StopsUndisturbed (start t) as :=
  Runs.meets_congr (fun _ _ _ (h : Inv testReqTimeout _) hstep => h.step hstep)
    (fun _ _ _ h hstep => stopsUnanswered_iff h hstep) (inv_start testReqTimeout t) hrun

/-- A peer that falls silent: a TestRequest, its time, and the stop. -/
def silentPeer : List MonitorAction :=
  [.advance 21, .tick, .decide, .send, .mark, .advance 41, .tick, .decide, .check, .compare, .stop]

/-- A peer whose answer comes before the TestRequest is marked. -/
def fastPeer : List MonitorAction :=
  [.advance 21, .tick, .decide, .send, .seen, .mark, .advance 41, .tick, .decide, .check, .compare,
   .stop]

theorem stops_silentPeer :
    Runs.Meets (step 20 40) (StopsUnanswered 40) (start 0) silentPeer := by
  obtain ⟨m, hrun⟩ : ∃ m, Runs.run (step 20 40) (start 0) silentPeer = some m := ⟨_, rfl⟩
  refine (stops_iff hrun).mpr ?_
  iterate 10 refine (Runs.meets_cons_iff rfl).mpr ⟨nofun, ?_⟩
  exact (Runs.meets_cons_iff rfl).mpr ⟨fun _ => ⟨rfl, rfl⟩, trivial⟩

/-- The peer has answered, and is stopped all the same. -/
theorem stops_fastPeer : ¬ ∀ interval testReqTimeout t as m,
    Runs.run (step interval testReqTimeout) (start t) as = some m →
      Runs.Meets (step interval testReqTimeout) (StopsUnanswered testReqTimeout) (start t) as := by
  intro h
  have hmeets := h 20 40 0 fastPeer _ rfl
  have hlast : ∀ {m : HeartbeatMonitor}, StopsUnanswered 40 m .stop → m.answered = false :=
    fun h => (h rfl).2
  iterate 11 replace hmeets := hmeets.2 _ rfl
  cases hlast hmeets.1

end HeartbeatMonitor

end FixMsg
