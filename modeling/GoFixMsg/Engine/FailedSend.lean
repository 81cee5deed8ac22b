import GoFixMsg.Engine.Resendable
import GoFixMsg.Engine.Stamping

/-!
# Engine/FailedSend — a send that fails has used its number

`SendMessage` draws its number before it can fail, and nothing gives a number back.  So the calls of
a run use one number each, whatever becomes of them (`sends_use_numbers`), and failed calls consume
nothing exactly where no call fails (`failed_sends_consume_nothing_iff`).

A call fails where the application rejects the message, where it does not serialise, or where
neither session nor connection takes the frame.  A message that has a number of its own uses none.
-/

open GoLang

namespace FixMsg

/-- Messages are sent one after the other. -/
def sendAll : Engine → List (Env × CodedMessage) → List SendResult
  | _, [] => []
  | e, (env, m) :: calls => sendMessage env m e :: sendAll (sendMessage env m e).engine calls

/-- Stamping the ids stamps no number. -/
theorem contains_stampCompIDs (sender target : Bytes) (m : CodedMessage) :
    (stampCompIDs sender target m).fields.contains tagMsgSeqNum
      = m.fields.contains tagMsgSeqNum := by
  rw [stampCompIDs, CodedMessage.contains_setIfMissing_of_ne,
    CodedMessage.contains_setIfMissing_of_ne]
  all_goals decide

/-- Drawing reports no error where there is no store or the write succeeds. -/
def SeqManager.Draws (s : SeqManager) (d : Driver) : Prop := s.store = none ∨ s.Writes d

theorem nextSeq_of_draws {s : SeqManager} {d : Driver} (h : s.Draws d) :
    nextSeq d s = int64 (s.numbers.outgoing + 1) := by
  have herr : (s.incrementOutgoing d).2.2 = none := by
    obtain ⟨numbers, store, sid⟩ := s
    rcases h with h | ⟨rfl, ⟨_ | t⟩, hst, hopen⟩
    · dsimp only at h
      subst h
      rfl
    · cases hopen
    · cases hst
      rfl
  rw [nextSeq, seqOrOne, if_pos herr]
  rfl

theorem draws_perform (op : SeqOp) (d d' : Driver) (s : SeqManager) :
    (s.perform op d).1.Draws d' ↔ s.Draws d' := by
  have hnone : (s.perform op d).1.store = none ↔ s.store = none := by
    obtain ⟨numbers, _ | st, sid⟩ := s
    · rfl
    · simp [SeqManager.perform, persist]
  rw [SeqManager.Draws, SeqManager.Draws, hnone, SeqManager.writes_perform]

/-- **A send uses one number**, whatever becomes of it. -/
theorem sendMessage_uses_number {env : Env} {m : CodedMessage} {e : Engine}
    (hnum : m.fields.contains tagMsgSeqNum = false) :
    (sendMessage env m e).engine.seqMgr = (e.seqMgr.perform .incrementOutgoing env.writes).1
      ∧ (sendMessage env m e).stamped = some (nextSeq env.writes e.seqMgr) := by
  obtain ⟨hstamped, hmgr⟩ := @sendMessage_stamped env m e
    ((contains_stampCompIDs _ _ m).trans hnum)
  exact ⟨hmgr, hstamped⟩

/-- **A message that has a number uses none.** -/
theorem sendMessage_uses_none {env : Env} {m : CodedMessage} {e : Engine}
    (hnum : m.fields.contains tagMsgSeqNum = true) :
    (sendMessage env m e).engine.seqMgr = e.seqMgr ∧ (sendMessage env m e).stamped = none := by
  obtain ⟨hmgr, hstamped⟩ := sendMessage_seqMgr env m e
  rw [hmgr, hstamped, stampedSeq, afterToApp, drawSeqNum,
    if_pos ((contains_stampCompIDs _ _ m).trans hnum)]
  exact ⟨rfl, rfl⟩

/-- Drawing on from a number drawn. -/
theorem drawnAt_drawn (c : ℤ) (k : ℕ) :
    Outbound.drawnAt (int64 (c + 1)) k = Outbound.drawnAt c (k + 1) := by
  rw [Outbound.drawnAt, Outbound.drawnAt, int64, int64, int64, Int.bmod_add_bmod, Nat.cast_succ,
    add_assoc, add_comm 1]

/-- **The calls of a run use one number each.**  After the `i`-th call the outgoing number is `i + 1`
numbers on, in memory and, where the writes succeed, in the store; and where no draw reports an error
this is the number stamped on the message.  Whether a call succeeds makes no difference. -/
theorem sends_use_numbers {e : Engine} {calls : List (Env × CodedMessage)}
    (hnum : ∀ c ∈ calls, c.2.fields.contains tagMsgSeqNum = false) {i : ℕ} {r : SendResult}
    (hr : (sendAll e calls)[i]? = some r) :
    r.engine.seqMgr.numbers.outgoing = Outbound.drawnAt e.seqMgr.numbers.outgoing (i + 1)
      ∧ ((∀ c ∈ calls, e.seqMgr.Writes c.1.writes) →
        r.engine.seqMgr.saved.1 = Outbound.drawnAt e.seqMgr.numbers.outgoing (i + 1))
      ∧ ((∀ c ∈ calls, e.seqMgr.Draws c.1.writes) →
        r.stamped = some (Outbound.drawnAt e.seqMgr.numbers.outgoing (i + 1))) := by
  induction calls generalizing e i with
  | nil => cases hr
  | cons c calls ih =>
    obtain ⟨env, m⟩ := c
    obtain ⟨hmgr, hstamped⟩ := @sendMessage_uses_number env m e
      (hnum _ List.mem_cons_self)
    cases i with
    | zero =>
      cases hr
      refine ⟨by rw [hmgr]; rfl, fun hwrites => ?_, fun hdraws => ?_⟩
      · rw [hmgr, SeqManager.saved_perform, if_pos (hwrites _ List.mem_cons_self)]
        rfl
      · rw [hstamped, nextSeq_of_draws (hdraws _ List.mem_cons_self)]
        rfl
    | succ i =>
      obtain ⟨hout, hsaved, hstamps⟩ := @ih (sendMessage env m e).engine
        (fun c hc => hnum c (List.mem_cons_of_mem _ hc)) i hr
      have hnext : (sendMessage env m e).engine.seqMgr.numbers.outgoing
          = int64 (e.seqMgr.numbers.outgoing + 1) := by rw [hmgr]; rfl
      rw [hnext, drawnAt_drawn] at hout hsaved hstamps
      refine ⟨hout, fun hwrites => hsaved fun c hc => ?_, fun hdraws => hstamps fun c hc => ?_⟩
      · rw [hmgr, SeqManager.writes_perform]
        exact hwrites c (List.mem_cons_of_mem _ hc)
      · rw [hmgr, draws_perform]
        exact hdraws c (List.mem_cons_of_mem _ hc)

/-! ## A call that fails has used its number -/

/-- The next call of a run is made. -/
def sendStep (e : Engine) (c : Env × CodedMessage) : Option Engine :=
  some (sendMessage c.1 c.2 e).engine

/-- Where the call fails, the outgoing number is the one before, in memory and in the store. -/
def KeepsOnError (e : Engine) (c : Env × CodedMessage) : Prop :=
  (sendMessage c.1 c.2 e).error ≠ none →
    (sendMessage c.1 c.2 e).engine.seqMgr.numbers.outgoing = e.seqMgr.numbers.outgoing
      ∧ (sendMessage c.1 c.2 e).engine.seqMgr.saved.1 = e.seqMgr.saved.1

/-- The numbers on the frames that go out. -/
def sentNumbers (e : Engine) (calls : List (Env × CodedMessage)) : List ℤ :=
  (sendAll e calls).filterMap fun r => if r.error.isNone then r.stamped else none

/-- **Failed calls consume nothing**: none of them leaves another number behind; and where the writes
to the store succeed, the numbers on the frames that go out are consecutive. -/
def ConsumesNothing (e : Engine) (calls : List (Env × CodedMessage)) : Prop :=
  Runs.Meets sendStep KeepsOnError e calls
    ∧ ((∀ c ∈ calls, e.seqMgr.Writes c.1.writes) →
      sentNumbers e calls = (List.range (sentNumbers e calls).length).map fun k : ℕ =>
        Outbound.drawnAt e.seqMgr.numbers.outgoing (k + 1))

/-- **The condition on a call**: the application accepts the message with its header stamped, this
serialises, and the session or the connection takes the frame. -/
def GoesOut (e : Engine) (c : Env × CodedMessage) : Prop :=
  ∃ m b, askToApp c.1.app (stamped c.1 c.2 e) = (m, none) ∧ (m.toWire c.1.σ c.1.τ).2 = .ok b
    ∧ c.1.takes = true ∧ e.link ≠ .absent

theorem transmit_error_eq_none {takes : Bool} {b : Bytes} {e : Engine} :
    (e.transmit takes b).2 = none ↔ takes = true ∧ e.link ≠ .absent := by
  unfold Engine.transmit
  cases e.link <;> cases takes <;> simp

/-- A call returns no error exactly if its frame goes out. -/
theorem error_eq_none_iff {e : Engine} {c : Env × CodedMessage} :
    (sendMessage c.1 c.2 e).error = none ↔ GoesOut e c := by
  have hlink := (afterToApp_spec c.1 c.2 e).2
  unfold GoesOut
  rcases sendMessage_cases c.1 c.2 e with
    ⟨_, _, hask, heq⟩ | ⟨_, _, _, hask, hwire, heq⟩ | ⟨_, _, b, hask, hwire, heq⟩
  · simp [heq, hask]
  · simp [heq, hask, hwire]
  · simp [heq, hask, hwire, transmit_error_eq_none, hlink]

instance (e : Engine) (c : Env × CodedMessage) : Decidable (GoesOut e c) :=
  decidable_of_iff ((sendMessage c.1 c.2 e).error.isNone = true)
    (Option.isNone_iff_eq_none.trans error_eq_none_iff)

/-- **A call that fails has used a number.** -/
theorem keepsOnError_iff {e : Engine} {c : Env × CodedMessage}
    (hnum : c.2.fields.contains tagMsgSeqNum = false) : KeepsOnError e c ↔ GoesOut e c := by
  rw [← error_eq_none_iff]
  constructor
  · intro hkeeps
    by_contra herr
    obtain ⟨hout, -⟩ := hkeeps herr
    rw [(sendMessage_uses_number hnum).1] at hout
    have hnext : int64 (e.seqMgr.numbers.outgoing + 1) = e.seqMgr.numbers.outgoing := hout
    rw [int64, Int.bmod_def] at hnext
    split at hnext <;> omega
  · exact fun hnone herr => absurd hnone herr

theorem meets_keepsOnError_iff {e : Engine} {calls : List (Env × CodedMessage)}
    (hnum : ∀ c ∈ calls, c.2.fields.contains tagMsgSeqNum = false) :
    Runs.Meets sendStep KeepsOnError e calls ↔ Runs.Meets sendStep GoesOut e calls := by
  induction calls generalizing e with
  | nil => exact Iff.rfl
  | cons c calls ih =>
    exact and_congr (keepsOnError_iff (hnum c List.mem_cons_self)) (forall_congr' fun e' =>
      imp_congr_right fun _ => ih fun d hd => hnum d (List.mem_cons_of_mem _ hd))

/-- Where every frame goes out, their numbers are the next ones. -/
theorem sentNumbers_of_goesOut {e : Engine} {calls : List (Env × CodedMessage)}
    (hnum : ∀ c ∈ calls, c.2.fields.contains tagMsgSeqNum = false)
    (hgo : Runs.Meets sendStep GoesOut e calls)
    (hwrites : ∀ c ∈ calls, e.seqMgr.Writes c.1.writes) :
    sentNumbers e calls = (List.range calls.length).map fun k : ℕ =>
      Outbound.drawnAt e.seqMgr.numbers.outgoing (k + 1) := by
  induction calls generalizing e with
  | nil => rfl
  | cons c calls ih =>
    obtain ⟨hmgr, hstamped⟩ := @sendMessage_uses_number c.1 c.2 e (hnum c List.mem_cons_self)
    have hnone : (sendMessage c.1 c.2 e).error = none := error_eq_none_iff.mpr hgo.1
    have hnext : nextSeq c.1.writes e.seqMgr = int64 (e.seqMgr.numbers.outgoing + 1) :=
      nextSeq_of_draws (Or.inr (hwrites c List.mem_cons_self))
    have hrest := ih (fun d hd => hnum d (List.mem_cons_of_mem _ hd)) (hgo.2 _ rfl) fun d hd => by
      rw [hmgr, SeqManager.writes_perform]
      exact hwrites d (List.mem_cons_of_mem _ hd)
    have hout : (sendMessage c.1 c.2 e).engine.seqMgr.numbers.outgoing
        = int64 (e.seqMgr.numbers.outgoing + 1) := by
      rw [hmgr]
      rfl
    rw [hout] at hrest
    rw [sentNumbers, sendAll, List.filterMap_cons, hnone, hstamped, hnext, ← sentNumbers, hrest,
      List.length_cons, List.range_succ_eq_map, List.map_cons, List.map_map]
    refine congrArg₂ List.cons (by rw [Outbound.drawnAt, Nat.zero_add, Nat.cast_one]) ?_
    exact List.map_congr_left fun k _ => drawnAt_drawn _ _

/-- **Failed calls consume nothing exactly if no call fails**: the application accepts every message
as it is stamped, it serialises, and the session or the connection takes its frame. -/
theorem failed_sends_consume_nothing_iff {e : Engine} {calls : List (Env × CodedMessage)}
    (hnum : ∀ c ∈ calls, c.2.fields.contains tagMsgSeqNum = false) :
    ConsumesNothing e calls ↔ Runs.Meets sendStep GoesOut e calls := by
  have hkeeps := @meets_keepsOnError_iff e calls hnum
  refine ⟨fun h => hkeeps.mp h.1, fun hgo => ⟨hkeeps.mpr hgo, fun hwrites => ?_⟩⟩
  have hsent := sentNumbers_of_goesOut hnum hgo hwrites
  rw [hsent, List.length_map, List.length_range]

/-- Two orders, and between them one whose sender the program has set itself. -/
def threeOrders : List (Env × CodedMessage) :=
  [(Outbound.calm, Outbound.newOrder),
    (Outbound.calm, Outbound.newOrder.set tagSenderCompID (ascii "DESK")),
    (Outbound.calm, Outbound.newOrder)]

/-- The three go out, with the numbers behind that of the engine. -/
theorem failed_sends_consume_nothing_three :
    ConsumesNothing ((engineOn .opened).handle (.setNumber (.setOutgoing 5) .ok)) threeOrders
      ∧ sentNumbers ((engineOn .opened).handle (.setNumber (.setOutgoing 5) .ok)) threeOrders
        = [6, 7, 8] := by
  have hnum : ∀ c ∈ threeOrders, c.2.fields.contains tagMsgSeqNum = false := by decide +kernel
  exact ⟨(failed_sends_consume_nothing_iff hnum).mpr (by decide +kernel), by decide +kernel⟩

/-- An application that rejects what it is to send. -/
def refusing : Env :=
  { Outbound.calm with app := { noOpApplication with toApp := fun m => (m, some (ascii "limit")) } }

/-- An order that the application rejects, and one that goes out. -/
def refusedThenSent : List (Env × CodedMessage) :=
  [(refusing, Outbound.newOrder), (Outbound.calm, Outbound.newOrder)]

/-- The send that fails leaves number 1 used up, in memory and in the store, and the frame that goes
out carries 2. -/
theorem failed_send_burns_number : ¬ ConsumesNothing (engineOn .opened) refusedThenSent
    ∧ (sendAll (engineOn .opened) refusedThenSent).map
      (fun r => (r.error.isSome, r.stamped, r.engine.seqMgr.numbers.outgoing,
        r.engine.seqMgr.saved.1)) = [(true, some 1, 1, 1), (false, some 2, 2, 2)]
      ∧ (engineOn .opened).seqMgr.numbers.outgoing = 0 ∧ (engineOn .opened).seqMgr.saved.1 = 0 := by
  refine ⟨fun h => ?_, by decide +kernel⟩
  have hkeeps := h.1.1
  have herr : (sendMessage refusing Outbound.newOrder (engineOn .opened)).error ≠ none :=
    fun hnone => absurd (Option.isNone_iff_eq_none.mpr hnone) (by decide +kernel)
  exact absurd (hkeeps herr).1 (by decide +kernel)

end FixMsg
