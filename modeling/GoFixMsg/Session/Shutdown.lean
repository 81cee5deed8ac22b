import GoFixMsg.GoLang.Strconv
import GoFixMsg.Machinery.Once
import GoFixMsg.Machinery.Runs

/-!
# Session/Shutdown — `Stop`, `abort` and `Send` against each other

A session is shut down by whoever marks it closed first: a call of `Stop`, or the deferred `abort`
of one of its loops.  All others go on to wait, or to return.  The callback is started once and the
channel closed once in every run (`Inv`).  But a `Stop` that has only waited may return while the
one that marked the session has still to close the channel; a `Send` that was past its check then
still queues its frame.  Where that does not happen, none does (`shutdown_once`).

Both loops take their part in a shutdown at their ends, so three parties at least walk the same
points: the two loops, and as many callers of `Stop` as there may be.  The points are those between
which another may come in: the mark, the context, the connection, the channel, the wait, and the
callback.  A `Send` has two steps, its check and its put, and a shutdown may fall between them.
-/

namespace FixMsg

/-- The panics of the Go runtime that `Session` can run into. -/
inductive GoPanic where
  | closeOfClosedChannel
  | sendOnClosedChannel
  | negativeWaitGroupCounter

/-- Who shuts a session down: the calls of `Stop`, and the two loops through `abort`. -/
inductive Closer where
  | stop (i : ℕ)
  | readLoop
  | writeLoop
  deriving DecidableEq

/-- What a closer does next. -/
inductive ClosePoint where
  /-- A loop: it reads, or waits for a frame to write. -/
  | running
  /-- The write loop: it has taken a frame, and writes it. -/
  | writing
  /-- It takes the lock, and marks the session closed. -/
  | mark
  | cancel
  | closeConn
  | closeCh
  /-- `wg.Wait()`. -/
  | wait
  /-- `onCloseOnce()`. -/
  | closeOnce
  /-- It has taken the callback, and starts it. -/
  | callback
  /-- `Stop` returns; `abort` has, and the loop calls `wg.Done()`. -/
  | leave
  deriving DecidableEq

/-- What `Send` returns: nil, with its frame queued, or `io.ErrClosedPipe`. -/
inductive SendOutcome where
  | queued
  | closedPipe
  deriving DecidableEq

/-- **`Session`**, as far as shutting it down goes; its `OnClose` is set.  `point` and `sends` say
where the goroutines are, a `Send` that is past its check of `closed` with its frame.  Behind them
stands what a reader of the run wants to know: whether a panic got out, how often the callback was
started and `close(sendCh)` was called, whether a `Stop` has returned, and what came of the `Send`s
that ended after that. -/
structure Session where
  closed : Bool
  onCloseCalled : Bool
  cancelled : Bool
  connOpen : Bool
  chClosed : Bool
  queue : List Bytes
  wg : ℕ
  point : Closer → Option ClosePoint
  sends : Calls Bytes
  crashed : Bool
  started : ℕ
  closes : ℕ
  returned : Bool
  late : List SendOutcome

/-- `Stop` and `Send` are called, the loops come to their ends, and everyone goes on. -/
inductive SessionAction where
  | stop (i : ℕ)
  /-- The context is done, or a read fails, which it may at any time. -/
  | readEnds
  /-- The context is done, or the channel is closed and empty. -/
  | writeEnds
  | writeTakes
  | wrote (ok : Bool)
  | goOn (k : Closer)
  | send (i : ℕ) (b : Bytes)
  /-- `Send` finds the context done. -/
  | sendDone (i : ℕ)
  /-- `Send` puts its frame into the channel. -/
  | sendPut (i : ℕ)

/-- Where a closer goes that finds the session marked. -/
def Closer.found : Closer → ClosePoint
  | .stop _ => .wait
  | .readLoop | .writeLoop => .leave

/-- Where it goes that has closed the channel. -/
def Closer.closedCh : Closer → ClosePoint
  | .stop _ => .wait
  | .readLoop | .writeLoop => .closeOnce

namespace Session

/-- A session after `Start`, with the frames that were queued before. -/
def opened (queue : List Bytes) : Session where
  closed := false
  onCloseCalled := false
  cancelled := false
  connOpen := true
  chClosed := false
  queue := queue
  wg := 2
  point
    | .stop _ => none
    | .readLoop | .writeLoop => some .running
  sends _ := none
  crashed := false
  started := 0
  closes := 0
  returned := false
  late := []

/-- The capacity of `sendCh`. -/
def capacity : ℕ := 128

/-- `close(s.sendCh)`. -/
def closeSendCh (s : Session) : Except GoPanic Session :=
  if s.chClosed then .error .closeOfClosedChannel else .ok { s with chClosed := true }

/-- `s.sendCh <- b`. -/
def enqueue (b : Bytes) (s : Session) : Except GoPanic Session :=
  if s.chClosed then .error .sendOnClosedChannel else .ok { s with queue := s.queue ++ [b] }

/-- `s.wg.Done()`. -/
def wgDone (s : Session) : Except GoPanic Session :=
  if s.wg = 0 then .error .negativeWaitGroupCounter else .ok { s with wg := s.wg - 1 }

/-- A panic is recovered. -/
def recovered (s : Session) : Except GoPanic Session → Session
  | .ok s' => s'
  | .error _ => s

/-- A panic gets out. -/
def unrecovered (s : Session) : Except GoPanic Session → Session
  | .ok s' => s'
  | .error _ => { s with crashed := true }

/-- A closer comes to a point, or is done. -/
def goTo (k : Closer) (x : Option ClosePoint) (s : Session) : Session :=
  { s with point := Function.update s.point k x }

/-- `Send` returns. -/
def sendReturns (i : ℕ) (r : SendOutcome) (s : Session) : Session :=
  { s with sends := s.sends.put i none, late := if s.returned then s.late ++ [r] else s.late }

/-- What a closer does at a point.  Between `Conn.Close` and `close(sendCh)`, `abort` looks whether
the context is done, and does nothing about it. -/
def goOn (k : Closer) (s : Session) : ClosePoint → Option Session
  | .running | .writing => none
  | .mark =>
      some (if s.closed then goTo k (some k.found) s
        else goTo k (some .cancel) { s with closed := true })
  | .cancel => some (goTo k (some .closeConn) { s with cancelled := true })
  | .closeConn => some (goTo k (some .closeCh) { s with connOpen := false })
  | .closeCh =>
      some (goTo k (some k.closedCh) { s.recovered s.closeSendCh with closes := s.closes + 1 })
  | .wait => if s.wg = 0 then some (goTo k (some .closeOnce) s) else none
  | .closeOnce =>
      some (if s.onCloseCalled then goTo k (some .leave) s
        else goTo k (some .callback) { s with onCloseCalled := true })
  | .callback => some (goTo k (some .leave) { s with started := s.started + 1 })
  | .leave =>
      match k with
      | .stop _ => some (goTo k none { s with returned := true })
      | .readLoop | .writeLoop => some (goTo k none (s.unrecovered s.wgDone))

/-- One step. -/
def step (s : Session) : SessionAction → Option Session
  | .stop i =>
      if s.point (.stop i) = none then some (goTo (.stop i) (some .mark) s) else none
  | .readEnds =>
      if s.point .readLoop = some .running then some (goTo .readLoop (some .mark) s) else none
  | .writeEnds =>
      if s.point .writeLoop = some .running ∧ (s.cancelled ∨ s.chClosed ∧ s.queue = []) then
        some (goTo .writeLoop (some .mark) s)
      else none
  | .writeTakes =>
      if s.point .writeLoop = some .running ∧ s.queue ≠ [] then
        some (goTo .writeLoop (some .writing) { s with queue := s.queue.tail })
      else none
  | .wrote true =>
      if s.point .writeLoop = some .writing ∧ s.connOpen then
        some (goTo .writeLoop (some .running) s)
      else none
  | .wrote false =>
      if s.point .writeLoop = some .writing then
        some (goTo .writeLoop (some .mark) { s with connOpen := false })
      else none
  | .goOn k => (s.point k).bind (s.goOn k)
  | .send i b =>
      if s.sends i = none then
        some (if s.closed then s.sendReturns i .closedPipe
          else { s with sends := s.sends.put i (some b) })
      else none
  | .sendDone i =>
      if s.sends i ≠ none ∧ s.cancelled then some (s.sendReturns i .closedPipe) else none
  -- a channel that is closed takes the frame as well as one with room, and panics
  | .sendPut i =>
      (s.sends i).bind fun b =>
        if s.chClosed ∨ s.queue.length < capacity then
          some (match s.enqueue b with
            | .ok s' => s'.sendReturns i .queued
            | .error _ => s.sendReturns i .closedPipe)
        else none

/-! ## The property, and the condition

Nothing is to be done twice, no panic is to get out, a `Send` that comes late is to be refused, and
behind a `Stop` that has returned both loops are done.  The conditions are on a `Stop` at its
return: one for the frames, and one for the callback. -/

/-- Nobody does anything but read and write: no `Stop` and no `abort` is in progress. -/
def Quiet (s : Session) : Prop := ∀ k, ∀ p ∈ s.point k, p = .running ∨ p = .writing

/-- **The session is shut down once.** -/
structure ShutOnce (s : Session) : Prop where
  started_le : s.started ≤ 1
  started : s.returned = true ∨ s.point .readLoop = none ∨ s.point .writeLoop = none → s.Quiet →
    s.started = 1
  closes_le : s.closes ≤ 1
  calm : s.crashed = false
  refused : ∀ r ∈ s.late, r = .closedPipe
  waited : s.returned = true → s.point .readLoop = none ∧ s.point .writeLoop = none

/-- The session is marked, and the channel has still to be closed. -/
def Closing (p : ClosePoint) : Prop := p = .cancel ∨ p = .closeConn ∨ p = .closeCh

instance : DecidablePred Closing := fun _ => inferInstanceAs (Decidable (_ ∨ _ ∨ _))

/-- **The condition on a `Stop` that returns**: it is not so that another one has still to close the
channel, a `Send` is past its check, and there is room for its frame. -/
def ReturnsSealed (s : Session) (a : SessionAction) : Prop :=
  ∀ i, a = .goOn (.stop i) → s.point (.stop i) = some .leave →
    ¬ ((∃ j, Points.At s.point Closing (.stop j)) ∧ (∃ k, s.sends k ≠ none)
      ∧ s.queue.length < capacity)

/-- **And where a `Stop` that has returned is to mean that the callback was started**: no other one
has taken the callback and not started it yet. -/
def ReturnsStarted (s : Session) (a : SessionAction) : Prop :=
  ∀ i, a = .goOn (.stop i) → s.point (.stop i) = some .leave →
    ∀ j, s.point (.stop j) ≠ some .callback

/-! ## The invariant

It says who has the marks.  The one who has marked the session is on the way to close the channel or
has closed it, the one who has taken the callback is on the way to start it or has started it, and
nobody else is. -/

variable {s : Session}

/-- Behind the lock of `Stop` or `abort`. -/
def Past (p : ClosePoint) : Prop := p ≠ .running ∧ p ≠ .writing ∧ p ≠ .mark

instance : DecidablePred Past := fun _ => inferInstanceAs (Decidable (_ ∧ _ ∧ _))

/-- On the way to the callback. -/
def Pending (p : ClosePoint) : Prop := Closing p ∨ p = .wait ∨ p = .closeOnce

instance : DecidablePred Pending := fun _ => inferInstanceAs (Decidable (_ ∨ _ ∨ _))

/-- Of a `Stop`: behind `wg.Wait()`. -/
def Waited (p : ClosePoint) : Prop := p = .closeOnce ∨ p = .callback ∨ p = .leave

instance : DecidablePred Waited := fun _ => inferInstanceAs (Decidable (_ ∨ _ ∨ _))

/-- Whether a loop has yet to call `wg.Done()`. -/
def inLoop (point : Closer → Option ClosePoint) (l : Closer) : ℕ :=
  if point l = none then 0 else 1

/-- **The invariant.**  The channel is closed by the one who has marked the session, and the
callback is started by the one who has taken it; between the two somebody is on the way from one to
the other.  Whoever is behind `wg.Wait()` has both loops behind him. -/
structure Inv (s : Session) : Prop where
  calm : s.crashed = false
  waitGroup : s.wg = inLoop s.point .readLoop + inLoop s.point .writeLoop
  closing : Points.Once s.point Closing s.closed s.closes
  channel : s.chClosed = decide (0 < s.closes)
  calling : Points.Once s.point (· = .callback) s.onCloseCalled s.started
  unmarked : s.closed = false → Points.Nobody s.point Past ∧ s.wg = 2 ∧ s.returned = false
    ∧ s.onCloseCalled = false
  pending : s.closed = true → s.onCloseCalled = false → ∃ k, Points.At s.point Pending k
  waited : (s.returned = true ∨ ∃ i, Points.At s.point Waited (.stop i)) → s.wg = 0
  told : (s.returned = true ∨ ∃ i, Points.At s.point (· = .leave) (.stop i)) →
    s.onCloseCalled = true

theorem inv_opened (queue : List Bytes) : Inv (opened queue) where
  calm := rfl
  waitGroup := rfl
  closing := .fresh fun k => by cases k <;> rintro ⟨p, hp, hP⟩ <;> cases hp <;> revert hP <;> decide
  channel := rfl
  calling := .fresh fun k => by cases k <;> rintro ⟨p, hp, hP⟩ <;> cases hp <;> cases hP
  unmarked _ := by
    refine ⟨fun k => ?_, rfl, rfl, rfl⟩
    cases k <;> rintro ⟨p, hp, hP⟩ <;> cases hp <;> revert hP <;> decide
  pending h := (Bool.false_ne_true h).elim
  waited := by
    rintro (h | ⟨i, p, hp, -⟩)
    · cases h
    · cases hp
  told := by
    rintro (h | ⟨i, p, hp, -⟩)
    · cases h
    · cases hp

/-- What is not looked at. -/
theorem Inv.congr {s' : Session} (h : Inv s) (hpoint : s'.point = s.point)
    (hflags : (s'.closed, s'.onCloseCalled, s'.chClosed, s'.returned, s'.crashed)
      = (s.closed, s.onCloseCalled, s.chClosed, s.returned, s.crashed))
    (hcounts : (s'.wg, s'.closes, s'.started) = (s.wg, s.closes, s.started)) : Inv s' := by
  obtain ⟨closed, onCloseCalled, cancelled, connOpen, chClosed, queue, wg, point, sends, crashed,
    started, closes, returned, late⟩ := s
  obtain ⟨closed', onCloseCalled', cancelled', connOpen', chClosed', queue', wg', point', sends',
    crashed', started', closes', returned', late'⟩ := s'
  cases hpoint
  cases hflags
  cases hcounts
  exact ⟨h.calm, h.waitGroup, h.closing, h.channel, h.calling, h.unmarked, h.pending, h.waited,
    h.told⟩

/-- A `Stop` is at one of the points after a closer has moved, if one was, or the one that moved. -/
theorem stop_at_goTo {k : Closer} {x : Option ClosePoint} {P : ClosePoint → Prop}
    (h : ∃ i, Points.At (Function.update s.point k x) P (.stop i)) :
    (∃ i, Points.At s.point P (.stop i)) ∨ ∃ i, k = .stop i ∧ ∃ q ∈ x, P q := by
  obtain ⟨i, hat⟩ := h
  by_cases hi : Closer.stop i = k
  · subst hi
    exact Or.inr ⟨i, rfl, Points.at_update_self.mp hat⟩
  · exact Or.inl ⟨i, (Points.at_update_of_ne hi).mp hat⟩

/-- And where the one that moved was at one before, one was. -/
theorem stop_at_of_goTo {k : Closer} {x : Option ClosePoint} {P : ClosePoint → Prop}
    (hk : (∃ q ∈ x, P q) → Points.At s.point P k)
    (h : ∃ i, Points.At (Function.update s.point k x) P (.stop i)) :
    ∃ i, Points.At s.point P (.stop i) := by
  rcases stop_at_goTo h with hat | ⟨i, rfl, hq⟩
  · exact hat
  · exact ⟨i, hk hq⟩

theorem inLoop_update_some {k l : Closer} {q : ClosePoint} (h : k = l → s.point k ≠ none) :
    inLoop (Function.update s.point k (some q)) l = inLoop s.point l := by
  by_cases hkl : l = k
  · subst hkl
    rw [inLoop, inLoop, Function.update_self, if_neg (h rfl), if_neg (Option.some_ne_none q)]
  · rw [inLoop, inLoop, Function.update_of_ne hkl]

/-- Who goes on is still waited for. -/
theorem Inv.waitGroup_goTo (h : Inv s) {k : Closer} {q : ClosePoint}
    (hloop : (∀ i, k ≠ .stop i) → s.point k ≠ none) :
    s.wg = inLoop (Function.update s.point k (some q)) .readLoop
      + inLoop (Function.update s.point k (some q)) .writeLoop := by
  have hread : inLoop (Function.update s.point k (some q)) .readLoop = inLoop s.point .readLoop :=
    inLoop_update_some fun hk => hloop fun i hi => Closer.noConfusion (hk.symm.trans hi)
  have hwrite : inLoop (Function.update s.point k (some q)) .writeLoop
      = inLoop s.point .writeLoop :=
    inLoop_update_some fun hk => hloop fun i hi => Closer.noConfusion (hk.symm.trans hi)
  rw [hread, hwrite]
  exact h.waitGroup

/-- **A closer goes on**, and no flag changes. -/
theorem Inv.move (h : Inv s) {k : Closer} {q : ClosePoint}
    (hloop : (∀ i, k ≠ .stop i) → s.point k ≠ none)
    (hclosing : Points.At s.point Closing k ↔ Closing q)
    (hcalling : Points.At s.point (· = .callback) k ↔ q = .callback)
    (hpast : Past q → s.closed = true)
    (hpending : s.onCloseCalled = false → Points.At s.point Pending k → Pending q)
    (hwaited : ∀ i, k = .stop i → Waited q → s.wg = 0)
    (htold : ∀ i, k = .stop i → q = .leave → s.onCloseCalled = true) :
    Inv (goTo k (some q) s) where
  calm := h.calm
  waitGroup := h.waitGroup_goTo hloop
  closing := h.closing.move (by simpa using hclosing)
  channel := h.channel
  calling := h.calling.move (by simpa using hcalling)
  unmarked hc := by
    obtain ⟨hnobody, hrest⟩ := h.unmarked hc
    refine ⟨hnobody.move fun p hp hP => ?_, hrest⟩
    cases Option.some.inj hp
    exact Bool.false_ne_true (hc.symm.trans (hpast hP))
  pending hc ho := by
    refine Points.exists_at_update (h.pending hc ho) fun hat => ⟨q, rfl, hpending ho hat⟩
  waited := by
    rintro (hr | hat)
    · exact h.waited (Or.inl hr)
    · rcases stop_at_goTo hat with hat | ⟨i, hk, p, hp, hP⟩
      · exact h.waited (Or.inr hat)
      · exact hwaited i hk (Option.some.inj hp ▸ hP)
  told := by
    rintro (hr | hat)
    · exact h.told (Or.inl hr)
    · rcases stop_at_goTo hat with hat | ⟨i, hk, p, hp, hP⟩
      · exact h.told (Or.inr hat)
      · exact htold i hk (Option.some.inj hp ▸ hP)

/-- The same, from a point to another. -/
theorem Inv.moveFrom (h : Inv s) {k : Closer} {p q : ClosePoint} (hp : s.point k = some p)
    (hclosing : Closing p ↔ Closing q) (hcalling : p = .callback ↔ q = .callback)
    (hpast : Past q → s.closed = true)
    (hpending : s.onCloseCalled = false → Pending p → Pending q)
    (hwaited : ∀ i, k = .stop i → Waited q → s.wg = 0)
    (htold : ∀ i, k = .stop i → q = .leave → s.onCloseCalled = true) :
    Inv (goTo k (some q) s) := by
  refine h.move (fun _ => ?_) ?_ ?_ hpast (fun ho hat => ?_) hwaited htold
  · rw [hp]
    exact Option.some_ne_none p
  · rw [Points.at_iff hp, hclosing]
  · rw [Points.at_iff hp, hcalling]
  · exact hpending ho ((Points.at_iff hp).mp hat)

/-- A range of points that leaves out those before the lock. -/
theorem past_of {P : ClosePoint → Prop} (hrunning : ¬ P .running) (hwriting : ¬ P .writing)
    (hmark : ¬ P .mark) {p : ClosePoint} (h : P p) : Past p := by
  refine ⟨?_, ?_, ?_⟩
  · rintro rfl
    exact hrunning h
  · rintro rfl
    exact hwriting h
  · rintro rfl
    exact hmark h

/-- The same, before the lock. -/
theorem Inv.moveEarly (h : Inv s) {k : Closer} {p q : ClosePoint} (hp : s.point k = some p)
    (hbefore : ¬ Past p) (hafter : ¬ Past q) : Inv (goTo k (some q) s) := by
  have hnot : ∀ P : ClosePoint → Prop, ¬ P .running → ¬ P .writing → ¬ P .mark → ¬ P p ∧ ¬ P q :=
    fun P h1 h2 h3 => ⟨fun hP => hbefore (past_of h1 h2 h3 hP),
      fun hP => hafter (past_of h1 h2 h3 hP)⟩
  obtain ⟨hp1, hq1⟩ := hnot Closing (by decide) (by decide) (by decide)
  obtain ⟨hp2, hq2⟩ := hnot (· = .callback) (by decide) (by decide) (by decide)
  exact h.moveFrom hp (iff_of_false hp1 hq1) (iff_of_false hp2 hq2) (fun hP => absurd hP hafter)
    (fun _ hP => absurd hP (hnot Pending (by decide) (by decide) (by decide)).1)
    (fun _ _ hP => absurd hP (hnot Waited (by decide) (by decide) (by decide)).2)
    fun _ _ hP => absurd hP (hnot (· = .leave) (by decide) (by decide) (by decide)).2

/-- Behind the lock the session is marked. -/
theorem Inv.closed_of_past (h : Inv s) {k : Closer} (hat : Points.At s.point Past k) :
    s.closed = true := by
  by_contra hc
  exact (h.unmarked (Bool.not_eq_true _ ▸ hc)).1 k hat

/-- A loop that has not called `wg.Done()` is waited for. -/
theorem Inv.wg_pos (h : Inv s) {l : Closer} (hl : ∀ i, l ≠ .stop i) (hpoint : s.point l ≠ none) :
    0 < s.wg := by
  have hone : inLoop s.point l = 1 := if_neg hpoint
  have hwg := h.waitGroup
  cases l with
  | stop i => exact absurd rfl (hl i)
  | readLoop => omega
  | writeLoop => omega

/-- The one who finds the session open marks it. -/
theorem Inv.marks (h : Inv s) {k : Closer} (hp : s.point k = some .mark) (hc : s.closed = false) :
    Inv (goTo k (some .cancel) { s with closed := true }) where
  calm := h.calm
  waitGroup := h.waitGroup_goTo fun _ => by rw [hp]; exact Option.some_ne_none _
  closing := by
    have hclosing := h.closing
    rw [hc] at hclosing
    exact hclosing.enter (Or.inl rfl)
  channel := h.channel
  calling := h.calling.move (by rw [Points.at_iff hp]; decide)
  unmarked hf := (Bool.false_ne_true hf.symm).elim
  pending _ _ := ⟨k, Points.at_update_self.mpr ⟨_, rfl, Or.inl (Or.inl rfl)⟩⟩
  waited hw := h.waited (hw.imp_right (stop_at_of_goTo fun hq => absurd hq (by decide)))
  told ht := h.told (ht.imp_right (stop_at_of_goTo fun hq => absurd hq (by decide)))

/-- The channel is still open when the one who has marked the session closes it. -/
theorem Inv.closeSendCh_eq (h : Inv s) {k : Closer} (hp : s.point k = some .closeCh) :
    s.closeSendCh = .ok { s with chClosed := true } := by
  have hzero : s.closes = 0 := h.closing.eq_zero ((Points.at_iff hp).mpr (Or.inr (Or.inr rfl)))
  have hopen : s.chClosed = false := by rw [h.channel, hzero]; rfl
  rw [closeSendCh, if_neg (by rw [hopen]; exact Bool.false_ne_true)]

/-- It closes the channel. -/
theorem Inv.closesCh (h : Inv s) {k : Closer} (hp : s.point k = some .closeCh) :
    Inv (goTo k (some k.closedCh)
      { s.recovered s.closeSendCh with closes := s.closes + 1 }) := by
  rw [h.closeSendCh_eq hp]
  have hclosed : s.closed = true := h.closed_of_past ((Points.at_iff hp).mpr (by decide))
  have hnext : k.closedCh = .wait ∨ k.closedCh = .closeOnce ∧ ∀ i, k ≠ .stop i := by
    cases k with
    | stop i => exact Or.inl rfl
    | readLoop | writeLoop => exact Or.inr ⟨rfl, fun _ hk => by cases hk⟩
  refine
    { calm := h.calm
      waitGroup := h.waitGroup_goTo fun _ => by rw [hp]; exact Option.some_ne_none _
      closing := h.closing.leave ((Points.at_iff hp).mpr (Or.inr (Or.inr rfl))) ?_
      channel := (decide_eq_true (Nat.succ_pos s.closes)).symm
      calling := h.calling.move ?_
      unmarked := fun hf => (Bool.false_ne_true (hf.symm.trans hclosed)).elim
      pending := fun _ _ => ⟨k, Points.at_update_self.mpr ⟨_, rfl, ?_⟩⟩
      waited := fun hw => h.waited (hw.imp_right fun hat => ?_)
      told := fun ht => h.told (ht.imp_right (stop_at_of_goTo fun hq => absurd hq ?_)) }
  · rcases hnext with hn | ⟨hn, -⟩ <;> rw [hn] <;> decide
  · rw [Points.at_iff hp]
    rcases hnext with hn | ⟨hn, -⟩ <;> rw [hn] <;> decide
  · rcases hnext with hn | ⟨hn, -⟩ <;> rw [hn] <;> decide
  · rcases stop_at_goTo hat with hat | ⟨i, rfl, q, hq, hw⟩
    · exact hat
    · cases hq
      exact absurd (show Waited .wait from hw) (by decide)
  · rcases hnext with hn | ⟨hn, -⟩ <;> rw [hn] <;> decide

/-- The one who finds the callback there takes it. -/
theorem Inv.takes (h : Inv s) {k : Closer} (hp : s.point k = some .closeOnce)
    (ho : s.onCloseCalled = false) :
    Inv (goTo k (some .callback) { s with onCloseCalled := true }) where
  calm := h.calm
  waitGroup := h.waitGroup_goTo fun _ => by rw [hp]; exact Option.some_ne_none _
  closing := h.closing.move (by rw [Points.at_iff hp]; decide)
  channel := h.channel
  calling := by
    have hcalling := h.calling
    rw [ho] at hcalling
    exact hcalling.enter rfl
  unmarked hf := by
    have hclosed : s.closed = true := h.closed_of_past ((Points.at_iff hp).mpr (by decide))
    exact (Bool.false_ne_true (hf.symm.trans hclosed)).elim
  pending _ hf := (Bool.false_ne_true hf.symm).elim
  waited hw := h.waited (hw.imp_right
    (stop_at_of_goTo fun _ => (Points.at_iff hp).mpr (Or.inl rfl)))
  told _ := rfl

/-- It starts the callback. -/
theorem Inv.starts (h : Inv s) {k : Closer} (hp : s.point k = some .callback) :
    Inv (goTo k (some .leave) { s with started := s.started + 1 }) where
  calm := h.calm
  waitGroup := h.waitGroup_goTo fun _ => by rw [hp]; exact Option.some_ne_none _
  closing := h.closing.move (by rw [Points.at_iff hp]; decide)
  channel := h.channel
  calling := h.calling.leave ((Points.at_iff hp).mpr rfl) (by decide)
  unmarked hf := by
    have hclosed : s.closed = true := h.closed_of_past ((Points.at_iff hp).mpr (by decide))
    exact (Bool.false_ne_true (hf.symm.trans hclosed)).elim
  pending hc ho := by
    exact Points.exists_at_update (h.pending hc ho) fun hat =>
      absurd ((Points.at_iff hp).mp hat) (by decide)
  waited hw := h.waited (hw.imp_right
    (stop_at_of_goTo fun _ => (Points.at_iff hp).mpr (Or.inr (Or.inl rfl))))
  told _ := h.calling.entered_eq ((Points.at_iff hp).mpr rfl)

/-- Who leaves is nowhere. -/
theorem Inv.move_none (h : Inv s) {k : Closer} (hp : s.point k = some .leave) :
    Points.Once (Function.update s.point k none) Closing s.closed s.closes
      ∧ Points.Once (Function.update s.point k none) (· = .callback) s.onCloseCalled s.started
      ∧ s.closed = true
      ∧ (s.onCloseCalled = false → ∃ j, Points.At (Function.update s.point k none) Pending j) := by
  have hclosed : s.closed = true := h.closed_of_past ((Points.at_iff hp).mpr (by decide))
  refine ⟨h.closing.move ?_, h.calling.move ?_, hclosed, fun ho => ?_⟩
  · rw [Points.at_iff hp]
    decide
  · rw [Points.at_iff hp]
    decide
  · exact Points.exists_at_update (h.pending hclosed ho) fun hat =>
      absurd ((Points.at_iff hp).mp hat) (by decide)

/-- A `Stop` returns. -/
theorem Inv.returns (h : Inv s) {i : ℕ} (hp : s.point (.stop i) = some .leave) :
    Inv (goTo (.stop i) none { s with returned := true }) := by
  obtain ⟨hclosing, hcalling, hclosed, hpending⟩ := h.move_none hp
  exact
    { calm := h.calm
      waitGroup := h.waitGroup
      closing := hclosing
      channel := h.channel
      calling := hcalling
      unmarked := fun hf => (Bool.false_ne_true (hf.symm.trans hclosed)).elim
      pending := fun _ => hpending
      waited := fun _ => h.waited (Or.inr ⟨i, (Points.at_iff hp).mpr (Or.inr (Or.inr rfl))⟩)
      told := fun _ => h.told (Or.inr ⟨i, (Points.at_iff hp).mpr rfl⟩) }

/-- **`wg.Done()` does not panic.** -/
theorem Inv.unrecovered_wgDone (h : Inv s) {l : Closer} (hl : ∀ i, l ≠ .stop i)
    (hpoint : s.point l ≠ none) : s.unrecovered s.wgDone = { s with wg := s.wg - 1 } := by
  rw [wgDone, if_neg (h.wg_pos hl hpoint).ne']
  rfl

/-- A loop is done. -/
theorem Inv.done (h : Inv s) {l : Closer} (hl : ∀ i, l ≠ .stop i) (hp : s.point l = some .leave) :
    Inv (goTo l none (s.unrecovered s.wgDone)) := by
  have hpoint : s.point l ≠ none := by rw [hp]; exact Option.some_ne_none _
  have hpos := h.wg_pos hl hpoint
  have hone : inLoop s.point l = 1 := if_neg hpoint
  have hzero : inLoop (Function.update s.point l none) l = 0 := by
    rw [inLoop, Function.update_self]
    rfl
  have hwaiting : ¬ (s.returned = true ∨ ∃ i, Points.At s.point Waited (.stop i)) :=
    fun hw => hpos.ne' (h.waited hw)
  have hstops : ∀ P, (∃ i, Points.At (Function.update s.point l none) P (.stop i)) →
      ∃ i, Points.At s.point P (.stop i) := by
    rintro P ⟨i, hat⟩
    exact ⟨i, (Points.at_update_of_ne (hl i).symm).mp hat⟩
  obtain ⟨hclosing, hcalling, hclosed, hpending⟩ := h.move_none hp
  rw [h.unrecovered_wgDone hl hpoint]
  refine
    { calm := h.calm
      waitGroup := ?_
      closing := hclosing
      channel := h.channel
      calling := hcalling
      unmarked := fun hf => (Bool.false_ne_true (hf.symm.trans hclosed)).elim
      pending := fun _ => hpending
      waited := fun hw => absurd (hw.imp_right (hstops _)) hwaiting
      told := fun ht => h.told (ht.imp_right (hstops _)) }
  have hwg := h.waitGroup
  change s.wg - 1 = inLoop (Function.update s.point l none) .readLoop
    + inLoop (Function.update s.point l none) .writeLoop
  cases l with
  | stop i => exact absurd rfl (hl i)
  | readLoop =>
    have hother : inLoop (Function.update s.point .readLoop none) .writeLoop
        = inLoop s.point .writeLoop := by
      rw [inLoop, inLoop, Function.update_of_ne (by decide)]
    omega
  | writeLoop =>
    have hother : inLoop (Function.update s.point .writeLoop none) .readLoop
        = inLoop s.point .readLoop := by
      rw [inLoop, inLoop, Function.update_of_ne (by decide)]
    omega

/-- **A closer that goes on keeps the invariant.** -/
theorem Inv.goOn (h : Inv s) {k : Closer} {p : ClosePoint} {s' : Session}
    (hp : s.point k = some p) (hstep : s.goOn k p = some s') : Inv s' := by
  have hpast : Past p → s.closed = true := fun hP => h.closed_of_past ((Points.at_iff hp).mpr hP)
  cases p with
  | running | writing => cases hstep
  | mark =>
    cases Option.some.inj hstep
    by_cases hc : s.closed = true
    · rw [if_pos hc]
      cases k with
      | stop i =>
        exact h.moveFrom (q := .wait) hp (by decide) (by decide) (fun _ => hc)
          (fun _ _ => by decide) (fun _ _ hw => absurd hw (by decide)) fun _ _ hq => by cases hq
      | readLoop | writeLoop =>
        exact h.moveFrom (q := .leave) hp (by decide) (by decide) (fun _ => hc)
          (fun _ hP => absurd hP (by decide)) (fun _ hk => by cases hk) fun _ hk => by cases hk
    · rw [if_neg hc]
      exact h.marks hp (Bool.not_eq_true _ ▸ hc)
  | cancel =>
    cases Option.some.inj hstep
    have hcancel : Inv { s with cancelled := true } := h.congr rfl rfl rfl
    exact hcancel.moveFrom (q := .closeConn) hp (by decide) (by decide)
      (fun _ => hpast (by decide)) (fun _ _ => by decide) (fun _ _ hw => absurd hw (by decide))
      fun _ _ hq => by cases hq
  | closeConn =>
    cases Option.some.inj hstep
    have hconn : Inv { s with connOpen := false } := h.congr rfl rfl rfl
    exact hconn.moveFrom (q := .closeCh) hp (by decide) (by decide) (fun _ => hpast (by decide))
      (fun _ _ => by decide) (fun _ _ hw => absurd hw (by decide)) fun _ _ hq => by cases hq
  | closeCh =>
    cases Option.some.inj hstep
    exact h.closesCh hp
  | wait =>
    obtain ⟨hwg, rfl⟩ := Runs.of_guarded hstep
    exact h.moveFrom (q := .closeOnce) hp (by decide) (by decide) (fun _ => hpast (by decide))
      (fun _ _ => by decide) (fun _ _ _ => hwg) fun _ _ hq => by cases hq
  | closeOnce =>
    cases Option.some.inj hstep
    by_cases ho : s.onCloseCalled = true
    · rw [if_pos ho]
      refine h.moveFrom (q := .leave) hp (by decide) (by decide) (fun _ => hpast (by decide))
        (fun hf => (Bool.false_ne_true (hf.symm.trans ho)).elim) (fun i hk _ => ?_) fun _ _ _ => ho
      subst hk
      exact h.waited (Or.inr ⟨i, (Points.at_iff hp).mpr (Or.inl rfl)⟩)
    · rw [if_neg ho]
      exact h.takes hp (Bool.not_eq_true _ ▸ ho)
  | callback =>
    cases Option.some.inj hstep
    exact h.starts hp
  | leave =>
    cases k with
    | stop i =>
      cases Option.some.inj hstep
      exact h.returns hp
    | readLoop =>
      cases Option.some.inj hstep
      exact h.done (fun _ hk => by cases hk) hp
    | writeLoop =>
      cases Option.some.inj hstep
      exact h.done (fun _ hk => by cases hk) hp

/-- **Every step keeps the invariant.** -/
theorem Inv.step (h : Inv s) {a : SessionAction} {s' : Session} (hstep : step s a = some s') :
    Inv s' := by
  cases a with
  | stop i =>
    obtain ⟨hp, rfl⟩ := Runs.of_guarded hstep
    have hnot : ∀ P, ¬ Points.At s.point P (.stop i) := fun P => Points.not_at_of_none hp
    exact h.move (fun hi => absurd rfl (hi i)) (iff_of_false (hnot _) (by decide))
      (iff_of_false (hnot _) (by decide)) (fun hP => absurd hP (by decide))
      (fun _ hat => absurd hat (hnot _)) (fun _ _ hw => absurd hw (by decide))
      fun _ _ hq => by cases hq
  | readEnds =>
    obtain ⟨hp, rfl⟩ := Runs.of_guarded hstep
    exact h.moveEarly hp (by decide) (by decide)
  | writeEnds =>
    obtain ⟨⟨hp, -⟩, rfl⟩ := Runs.of_guarded hstep
    exact h.moveEarly hp (by decide) (by decide)
  | writeTakes =>
    obtain ⟨⟨hp, -⟩, rfl⟩ := Runs.of_guarded hstep
    have htakes : Inv { s with queue := s.queue.tail } := h.congr rfl rfl rfl
    exact htakes.moveEarly hp (by decide) (by decide)
  | wrote ok =>
    cases ok with
    | true =>
      obtain ⟨⟨hp, -⟩, rfl⟩ := Runs.of_guarded hstep
      exact h.moveEarly hp (by decide) (by decide)
    | false =>
      obtain ⟨hp, rfl⟩ := Runs.of_guarded hstep
      have hconn : Inv { s with connOpen := false } := h.congr rfl rfl rfl
      exact hconn.moveEarly hp (by decide) (by decide)
  | goOn k =>
    obtain ⟨p, hp, hgoes⟩ := Option.bind_eq_some_iff.mp hstep
    exact h.goOn hp hgoes
  | send i b =>
    obtain ⟨-, rfl⟩ := Runs.of_guarded hstep
    by_cases hc : s.closed = true
    · rw [if_pos hc]
      exact h.congr rfl rfl rfl
    · rw [if_neg hc]
      exact h.congr rfl rfl rfl
  | sendDone i =>
    obtain ⟨-, rfl⟩ := Runs.of_guarded hstep
    exact h.congr rfl rfl rfl
  | sendPut i =>
    obtain ⟨b, -, hput⟩ := Option.bind_eq_some_iff.mp hstep
    obtain ⟨-, rfl⟩ := Runs.of_guarded hput
    by_cases hc : s.chClosed = true
    · rw [enqueue, if_pos hc]
      exact h.congr rfl rfl rfl
    · rw [enqueue, if_neg hc]
      exact h.congr rfl rfl rfl

/-! ## Frames after a `Stop` has returned

A `Send` that goes on where the channel is closed panics, and recovers.  So the channel is sealed
when it is closed; and where it is not yet, a `Send` that has passed its check is what a late frame
comes from. -/

/-- No `Send` can queue its frame any more. -/
def Sealed (s : Session) : Prop :=
  s.chClosed = true ∨ (∀ k, s.sends k = none) ∨ capacity ≤ s.queue.length

/-- **No frame is queued late.** -/
structure NoLate (s : Session) : Prop where
  inv : Inv s
  sealed : s.returned = true → s.Sealed
  refused : ∀ r ∈ s.late, r = .closedPipe

/-- Whoever has waited, or has been told by one who has, has both loops behind him. -/
theorem Inv.loops_done (h : Inv s) (hwg : s.wg = 0) :
    s.point .readLoop = none ∧ s.point .writeLoop = none := by
  constructor
  · by_contra hpoint
    exact (h.wg_pos (fun _ hk => by cases hk) hpoint).ne' hwg
  · by_contra hpoint
    exact (h.wg_pos (fun _ hk => by cases hk) hpoint).ne' hwg

/-- Once a `Stop` has returned the session is marked. -/
theorem Inv.closed_of_returned (h : Inv s) (hr : s.returned = true) : s.closed = true := by
  by_contra hc
  have hnot := (h.unmarked (Bool.not_eq_true _ ▸ hc)).2.2.1
  exact Bool.false_ne_true (hnot.symm.trans hr)

/-- What a closer leaves alone, and when `returned` changes. -/
theorem goOn_spec {k : Closer} {p : ClosePoint} {s' : Session} (h : s.goOn k p = some s') :
    s'.sends = s.sends ∧ s'.queue = s.queue ∧ s'.late = s.late
      ∧ (s.chClosed = true → s'.chClosed = true)
      ∧ (s'.returned = s.returned ∨ p = .leave ∧ ∃ i, k = .stop i)
      ∧ (s'.started = s.started ∨ p = .callback) := by
  cases p with
  | running | writing => cases h
  | mark =>
    cases Option.some.inj h
    split <;> exact ⟨rfl, rfl, rfl, id, Or.inl rfl, Or.inl rfl⟩
  | cancel | closeConn =>
    cases Option.some.inj h
    exact ⟨rfl, rfl, rfl, id, Or.inl rfl, Or.inl rfl⟩
  | closeCh =>
    cases Option.some.inj h
    rw [closeSendCh]
    split
    · exact ⟨rfl, rfl, rfl, id, Or.inl rfl, Or.inl rfl⟩
    · exact ⟨rfl, rfl, rfl, fun _ => rfl, Or.inl rfl, Or.inl rfl⟩
  | wait =>
    obtain ⟨-, rfl⟩ := Runs.of_guarded h
    exact ⟨rfl, rfl, rfl, id, Or.inl rfl, Or.inl rfl⟩
  | closeOnce =>
    cases Option.some.inj h
    split <;> exact ⟨rfl, rfl, rfl, id, Or.inl rfl, Or.inl rfl⟩
  | callback =>
    cases Option.some.inj h
    exact ⟨rfl, rfl, rfl, id, Or.inl rfl, Or.inr rfl⟩
  | leave =>
    cases k with
    | stop i =>
      cases Option.some.inj h
      exact ⟨rfl, rfl, rfl, id, Or.inr ⟨rfl, i, rfl⟩, Or.inl rfl⟩
    | readLoop | writeLoop =>
      cases Option.some.inj h
      rw [wgDone]
      split <;> exact ⟨rfl, rfl, rfl, id, Or.inl rfl, Or.inl rfl⟩

/-- **A `Stop` that returns on the condition leaves the channel sealed.** -/
theorem Inv.sealed_of_leave (h : Inv s) {i : ℕ} (hp : s.point (.stop i) = some .leave)
    (hok : s.ReturnsSealed (.goOn (.stop i))) : s.Sealed := by
  have hclosed : s.closed = true := h.closed_of_past ((Points.at_iff hp).mpr (by decide))
  obtain ⟨hread, hwrite⟩ := h.loops_done
    (h.waited (Or.inr ⟨i, (Points.at_iff hp).mpr (Or.inr (Or.inr rfl))⟩))
  have hclosing := h.closing
  have hchannel := h.channel
  rw [hclosed] at hclosing
  generalize hn : s.closes = n at hclosing hchannel
  cases hclosing with
  | inside k hk =>
    have hat : Points.At s.point Closing k := (hk k).mpr rfl
    cases k with
    | stop j =>
      have hnot := hok i rfl hp
      by_cases hsends : ∃ k, s.sends k ≠ none
      · exact Or.inr (Or.inr (not_lt.mp fun hroom => hnot ⟨⟨j, hat⟩, hsends, hroom⟩))
      · exact Or.inr (Or.inl fun k => not_not.mp fun hk => hsends ⟨k, hk⟩)
    | readLoop => exact absurd hat (Points.not_at_of_none hread)
    | writeLoop => exact absurd hat (Points.not_at_of_none hwrite)
  | passed => exact Or.inl hchannel

/-- A seal holds while frames are not taken, and calls of `Send` go on only where the session is
marked. -/
theorem Sealed.sendReturns (h : s.Sealed) (i : ℕ) (r : SendOutcome) :
    (s.sendReturns i r).Sealed := by
  refine h.imp_right (Or.imp_left fun hnone k => ?_)
  exact (congrFun (Calls.put_of_eq (hnone i)) k).trans (hnone k)

theorem NoLate.sendReturns (h : NoLate s) (i : ℕ) : NoLate (s.sendReturns i .closedPipe) where
  inv := h.inv.congr rfl rfl rfl
  sealed hr := (h.sealed hr).sendReturns i _
  refused r hmem := by
    change r ∈ (if s.returned then s.late ++ [.closedPipe] else s.late) at hmem
    split at hmem
    · rcases List.mem_append.mp hmem with hmem | hmem
      · exact h.refused r hmem
      · exact List.mem_singleton.mp hmem
    · exact h.refused r hmem

/-- **A step that meets the condition queues no frame late.**  Where a frame is queued, no `Stop`
has returned. -/
theorem NoLate.step (h : NoLate s) {a : SessionAction} {s' : Session} (hok : s.ReturnsSealed a)
    (hstep : step s a = some s') : NoLate s' := by
  have hinv : Inv s' := h.inv.step hstep
  have hloop : ∀ {p}, s.point .writeLoop = some p → s.returned ≠ true := by
    intro p hp hr
    exact Option.some_ne_none p (hp.symm.trans (h.inv.loops_done (h.inv.waited (Or.inl hr))).2)
  cases a with
  | stop i | readEnds =>
    obtain ⟨-, rfl⟩ := Runs.of_guarded hstep
    exact ⟨hinv, h.sealed, h.refused⟩
  | writeEnds =>
    obtain ⟨⟨hp, -⟩, rfl⟩ := Runs.of_guarded hstep
    exact ⟨hinv, fun hr => absurd hr (hloop hp), h.refused⟩
  | writeTakes =>
    obtain ⟨⟨hp, -⟩, rfl⟩ := Runs.of_guarded hstep
    exact ⟨hinv, fun hr => absurd hr (hloop hp), h.refused⟩
  | wrote ok =>
    cases ok with
    | true =>
      obtain ⟨⟨hp, -⟩, rfl⟩ := Runs.of_guarded hstep
      exact ⟨hinv, fun hr => absurd hr (hloop hp), h.refused⟩
    | false =>
      obtain ⟨hp, rfl⟩ := Runs.of_guarded hstep
      exact ⟨hinv, fun hr => absurd hr (hloop hp), h.refused⟩
  | goOn k =>
    obtain ⟨p, hp, hgoes⟩ := Option.bind_eq_some_iff.mp hstep
    obtain ⟨hsends, hqueue, hlate, hch, hreturned, -⟩ := goOn_spec hgoes
    refine ⟨hinv, fun hr => ?_, hlate ▸ h.refused⟩
    have hsealed : s.Sealed := by
      rcases hreturned with hsame | ⟨rfl, i, rfl⟩
      · exact h.sealed (hsame ▸ hr)
      · exact h.inv.sealed_of_leave hp hok
    rw [Sealed, hsends, hqueue]
    exact hsealed.imp_left hch
  | send i b =>
    obtain ⟨-, rfl⟩ := Runs.of_guarded hstep
    by_cases hc : s.closed = true
    · rw [if_pos hc]
      exact h.sendReturns i
    · rw [if_neg hc] at hinv ⊢
      exact ⟨hinv, fun hr => absurd (h.inv.closed_of_returned hr) hc, h.refused⟩
  | sendDone i =>
    obtain ⟨-, rfl⟩ := Runs.of_guarded hstep
    exact h.sendReturns i
  | sendPut i =>
    obtain ⟨b, hb, hput⟩ := Option.bind_eq_some_iff.mp hstep
    obtain ⟨hready, rfl⟩ := Runs.of_guarded hput
    by_cases hc : s.chClosed = true
    · rw [enqueue, if_pos hc]
      exact h.sendReturns i
    · rw [enqueue, if_neg hc] at hinv ⊢
      have hr : s.returned = false := by
        by_contra hr
        rcases h.sealed (Bool.not_eq_false _ ▸ hr) with hch | hnone | hfull
        · exact hc hch
        · exact Option.some_ne_none b (hb.symm.trans (hnone i))
        · rcases hready with hch | hroom
          · exact hc hch
          · exact absurd hroom hfull.not_gt
      refine ⟨hinv, fun hr' => (Bool.false_ne_true (hr.symm.trans hr')).elim, ?_⟩
      change ∀ r ∈ (if s.returned then s.late ++ [.queued] else s.late), r = .closedPipe
      rw [hr]
      exact h.refused

/-! ## The callback after a `Stop` has returned -/

/-- A `Stop` that has returned has told of the close. -/
structure Told (s : Session) : Prop where
  inv : Inv s
  started : s.returned = true → s.started = 1

/-- **A `Stop` that returns on the condition does so after the callback was started.** -/
theorem Inv.started_of_leave (h : Inv s) {i : ℕ} (hp : s.point (.stop i) = some .leave)
    (hok : s.ReturnsStarted (.goOn (.stop i))) : s.started = 1 := by
  have hcalled : s.onCloseCalled = true := h.told (Or.inr ⟨i, (Points.at_iff hp).mpr rfl⟩)
  obtain ⟨hread, hwrite⟩ := h.loops_done
    (h.waited (Or.inr ⟨i, (Points.at_iff hp).mpr (Or.inr (Or.inr rfl))⟩))
  have hcalling := h.calling
  rw [hcalled] at hcalling
  refine hcalling.eq_one fun k hat => ?_
  cases k with
  | stop j =>
    obtain ⟨p, hpoint, rfl⟩ := hat
    exact hok i rfl hp j hpoint
  | readLoop => exact Points.not_at_of_none hread hat
  | writeLoop => exact Points.not_at_of_none hwrite hat

/-- **A step that meets the condition keeps it so.**  Where the callback has not been started, no
`Stop` has returned. -/
theorem Told.step (h : Told s) {a : SessionAction} {s' : Session} (hok : s.ReturnsStarted a)
    (hstep : step s a = some s') : Told s' := by
  refine ⟨h.inv.step hstep, ?_⟩
  cases a with
  | goOn k =>
    obtain ⟨p, hp, hgoes⟩ := Option.bind_eq_some_iff.mp hstep
    obtain ⟨-, -, -, -, hreturned, hstarted⟩ := goOn_spec hgoes
    rcases hstarted with hs | rfl
    · rw [hs]
      rcases hreturned with hr | ⟨rfl, i, rfl⟩
      · rw [hr]
        exact h.started
      · exact fun _ => h.inv.started_of_leave hp hok
    · have hzero : s.started = 0 := h.inv.calling.eq_zero ((Points.at_iff hp).mpr rfl)
      rcases hreturned with hr | ⟨hleave, -⟩
      · rw [hr]
        intro hret
        exact absurd (hzero.symm.trans (h.started hret)) (by decide)
      · cases hleave
  | stop | readEnds | writeEnds | writeTakes | sendDone =>
    obtain ⟨-, rfl⟩ := Runs.of_guarded hstep
    exact h.started
  | wrote ok => cases ok <;> obtain ⟨-, rfl⟩ := Runs.of_guarded hstep <;> exact h.started
  | send i b =>
    obtain ⟨-, rfl⟩ := Runs.of_guarded hstep
    split <;> exact h.started
  | sendPut i =>
    obtain ⟨b, -, hput⟩ := Option.bind_eq_some_iff.mp hstep
    obtain ⟨-, rfl⟩ := Runs.of_guarded hput
    by_cases hc : s.chClosed = true
    · rw [enqueue, if_pos hc]
      exact h.started
    · rw [enqueue, if_neg hc]
      exact h.started

/-! ## Every run -/

/-- The invariant says all but what came of the late `Send`s. -/
theorem Inv.shutOnce (h : Inv s) (hrefused : ∀ r ∈ s.late, r = .closedPipe) : ShutOnce s where
  started_le := h.calling.le_one
  started := by
    intro hended hquiet
    have hnobody : ∀ P : ClosePoint → Prop, ¬ P .running → ¬ P .writing →
        Points.Nobody s.point P := by
      rintro P hrunning hwriting k ⟨p, hp, hP⟩
      rcases hquiet k p hp with rfl | rfl
      · exact hrunning hP
      · exact hwriting hP
    have hclosed : s.closed = true := by
      by_contra hc
      obtain ⟨-, hwg, hr, -⟩ := h.unmarked (Bool.not_eq_true _ ▸ hc)
      rcases hended with hret | hread | hwrite
      · exact Bool.false_ne_true (hr.symm.trans hret)
      · have hsum := h.waitGroup
        rw [hwg, inLoop, if_pos hread, inLoop] at hsum
        split at hsum <;> cases hsum
      · have hsum := h.waitGroup
        rw [hwg, inLoop, inLoop, if_pos hwrite] at hsum
        split at hsum <;> cases hsum
    have hcalled : s.onCloseCalled = true := by
      by_contra ho
      obtain ⟨k, hat⟩ := h.pending hclosed (Bool.not_eq_true _ ▸ ho)
      exact hnobody Pending (by decide) (by decide) k hat
    have hcalling := h.calling
    rw [hcalled] at hcalling
    exact hcalling.eq_one (hnobody _ (by decide) (by decide))
  closes_le := h.closing.le_one
  calm := h.calm
  refused := hrefused
  waited hr := h.loops_done (h.waited (Or.inl hr))

/-- An open channel with room takes the frame. -/
theorem step_sendPut {k : ℕ} {b : Bytes} (hb : s.sends k = some b) (hopen : s.chClosed = false)
    (hroom : s.queue.length < capacity) :
    step s (.sendPut k) = some (sendReturns k .queued { s with queue := s.queue ++ [b] }) := by
  rw [step, hb, Option.bind_some, if_pos (Or.inr hroom), enqueue, if_neg]
  exact Bool.not_eq_true _ ▸ hopen

/-- Off the condition a frame can be queued as soon as the `Stop` has returned. -/
theorem put_of_not_sealed (h : Inv s) {i : ℕ} {s' : Session}
    (hok : ¬ s.ReturnsSealed (.goOn (.stop i))) (hstep : step s (.goOn (.stop i)) = some s') :
    ∃ k s'', step s' (.sendPut k) = some s'' ∧ SendOutcome.queued ∈ s''.late := by
  obtain ⟨i', hok⟩ := not_forall.mp hok
  obtain ⟨hi, hok⟩ := Classical.not_imp.mp hok
  obtain ⟨hp, hok⟩ := Classical.not_imp.mp hok
  obtain ⟨⟨j, hat⟩, ⟨k, hk⟩, hroom⟩ := not_not.mp hok
  cases hi
  obtain ⟨b, hb⟩ := Option.ne_none_iff_exists'.mp hk
  have hopen : s.chClosed = false := by
    rw [h.channel, h.closing.eq_zero hat]
    rfl
  rw [step, hp] at hstep
  cases Option.some.inj hstep
  exact ⟨k, _, step_sendPut hb hopen hroom, List.mem_append_right _ List.mem_cons_self⟩

/-- **A session is shut down once, in every run** in which no `Stop` returns while another has still
to close the channel and a frame can come in between; and a `Stop` that has returned means that the
callback was started, where none returns while another has taken it and not started it.  Off the
first condition a frame is queued late as soon as its `Send` goes on. -/
theorem shutdown_once {queue : List Bytes} {as : List SessionAction} {s : Session}
    (hrun : Runs.run step (opened queue) as = some s) :
    (Runs.Meets step ReturnsSealed (opened queue) as → ShutOnce s)
      ∧ (Runs.Meets step ReturnsStarted (opened queue) as → s.returned = true → s.started = 1)
      ∧ ∀ i s', ¬ s.ReturnsSealed (.goOn (.stop i)) → step s (.goOn (.stop i)) = some s' →
          ∃ k s'', step s' (.sendPut k) = some s'' ∧ SendOutcome.queued ∈ s''.late := by
  refine ⟨fun hok => ?_, fun hok => ?_, fun i s' hoff hstep => ?_⟩
  · have hstart : NoLate (opened queue) :=
      ⟨inv_opened queue, fun h => (Bool.false_ne_true h).elim, fun r hr => by cases hr⟩
    have hlate : NoLate s :=
      Runs.run_invariant NoLate (fun _ _ _ h ho hs => h.step ho hs) hstart hok hrun
    exact hlate.inv.shutOnce hlate.refused
  · have hstart : Told (opened queue) := ⟨inv_opened queue, fun h => (Bool.false_ne_true h).elim⟩
    exact (Runs.run_invariant Told (fun _ _ _ h ho hs => h.step ho hs) hstart hok hrun).started
  · have hinv : Inv s := Runs.run_kept Inv (fun _ _ _ h hs => h.step hs) (inv_opened queue) hrun
    exact put_of_not_sealed hinv hoff hstep

/-- A connection is lost, and both loops end. -/
def lostConnection : List SessionAction :=
  [.readEnds, .goOn .readLoop, .goOn .readLoop, .goOn .readLoop, .goOn .readLoop,
    .goOn .readLoop, .goOn .readLoop, .goOn .readLoop, .writeEnds, .goOn .writeLoop,
    .goOn .writeLoop]

/-- A `Stop`, with nobody to wait for. -/
def lateStop : List SessionAction :=
  [.stop 0, .goOn (.stop 0), .goOn (.stop 0), .goOn (.stop 0), .goOn (.stop 0)]

/-- Where nobody sends, every `Stop` meets the first condition. -/
theorem returnsSealed_of_idle (h : s.sends.Idle) (a : SessionAction) : s.ReturnsSealed a := by
  rintro i - - ⟨-, ⟨k, hk⟩, -⟩
  exact hk (h k)

/-- Where the callback was started, every `Stop` meets the second. -/
theorem returnsStarted_of_nobody (h : Points.Nobody s.point (· = .callback)) (a : SessionAction) :
    s.ReturnsStarted a := fun _ _ _ j hj => h (.stop j) ((Points.at_iff hj).mpr rfl)

/-- A lost connection, and a `Stop` after it. -/
theorem shutdown_lostConnection :
    ∃ s, Runs.run step (opened []) (lostConnection ++ lateStop) = some s
      ∧ s.returned = true ∧ s.started = 1 ∧ ShutOnce s := by
  have hrun : Runs.run step (opened []) (lostConnection ++ lateStop) = some _ := rfl
  have hsealed : Runs.Meets step ReturnsSealed (opened []) (lostConnection ++ lateStop) := by
    iterate 16
      refine (Runs.meets_cons_iff rfl).mpr ⟨returnsSealed_of_idle (fun _ => rfl) _, ?_⟩
    exact trivial
  have hstarted : Runs.Meets step ReturnsStarted (opened []) (lostConnection ++ lateStop) := by
    iterate 15
      refine (Runs.meets_cons_iff rfl).mpr ⟨fun i hi hp => (by cases hi <;> cases hp), ?_⟩
    refine (Runs.meets_cons_iff rfl).mpr ⟨returnsStarted_of_nobody ?_ _, trivial⟩
    rintro ((_ | i) | _ | _) ⟨p, hp, rfl⟩ <;> cases hp
  obtain ⟨honce, hcalled, -⟩ := shutdown_once hrun
  exact ⟨_, hrun, rfl, hcalled hstarted rfl, honce hsealed⟩

/-- A `Stop` marks the session and cancels the context; the loops end, a second `Stop` waits for
them and returns, and then a `Send` goes on that was past its check. -/
def stoppedTwice : List SessionAction :=
  [.send 0 [], .stop 0, .goOn (.stop 0), .goOn (.stop 0), .readEnds, .goOn .readLoop,
    .goOn .readLoop, .writeEnds, .goOn .writeLoop, .goOn .writeLoop, .stop 1, .goOn (.stop 1),
    .goOn (.stop 1), .goOn (.stop 1), .goOn (.stop 1), .goOn (.stop 1), .sendPut 0]

/-- **A frame is queued after a `Stop` has returned.** -/
theorem queued_after_stop :
    ¬ ∀ (queue : List Bytes) (as : List SessionAction) (s : Session),
      Runs.run step (opened queue) as = some s → ShutOnce s := by
  intro h
  have hrun : Runs.run step (opened []) stoppedTwice = some _ := rfl
  have hqueued : SendOutcome.queued ∈ [SendOutcome.queued] := List.mem_cons_self
  exact absurd ((h _ _ _ hrun).refused _ hqueued) (by decide)

end Session

end FixMsg
