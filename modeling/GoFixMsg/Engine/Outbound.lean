import GoFixMsg.Engine.SendMessage
import GoFixMsg.Machinery.Tickets

/-!
# Engine/Outbound — concurrent calls of `SendMessage` on one session

A call of `SendMessage` is a sequence of steps: it draws a number under the mutex of the
`SeqManager`, persists it, serialises the message, and hands the frame to the session, which queues
it for its write loop.  Calls of different goroutines interleave between these steps.

The numbers behave as `Tickets`: drawn in order, held by the calls, released where a frame enters
the queue (`order`) or where a number is stamped (`stamping`).
-/

open GoLang

namespace FixMsg

/-- How far a call of `SendMessage` has got, with the number it stamped. -/
inductive SendCall where
  /-- The CompIDs are stamped. -/
  | called (m : CodedMessage)
  /-- A number is drawn, the `draw`-th of all, and its snapshot not yet persisted. -/
  | drawn (m : CodedMessage) (snapshot : SeqPair) (draw : ℕ)
  /-- MsgSeqNum is there. -/
  | numbered (m : CodedMessage) (seq : Option ℤ)
  /-- SendingTime is there. -/
  | timed (m : CodedMessage) (seq : Option ℤ)
  /-- The application has accepted the message. -/
  | approved (m : CodedMessage) (seq : Option ℤ)
  /-- The frame is made. -/
  | serialised (b : Bytes) (seq : Option ℤ)
  /-- The attached session is read. -/
  | located (b : Bytes) (seq : Option ℤ)
  /-- The session is not marked closed. -/
  | checked (b : Bytes) (seq : Option ℤ)

/-- The steps of a session going down, in this order: it is marked closed, its context is cancelled,
its queue is closed. -/
inductive SessionPhase where
  | running
  | closed
  | cancelled
  | queueClosed
  deriving DecidableEq

/-- What follows a phase. -/
def SessionPhase.next : SessionPhase → SessionPhase
  | .running => .closed
  | .closed => .cancelled
  | .cancelled | .queueClosed => .queueClosed

/-- The capacity of `sendCh`. -/
def sendChCap : ℕ := 128

/-- One stamped number: which draw it comes from, and whether that draw was persisted. -/
structure Stamp where
  seq : ℤ
  draw : ℕ
  persisted : Bool
  deriving DecidableEq

/-- A frame that entered the queue, with the number `SendMessage` stamped on it. -/
structure Entry where
  seq : Option ℤ
  frame : Bytes

/-- An engine, the session attached to it, and the calls in progress.  Beside them stand the number
of draws, the numbers stamped, and the frames that entered the queue. -/
structure Outbound where
  senderCompID : Bytes
  targetCompID : Bytes
  seqMgr : SeqManager
  attached : Bool
  phase : SessionPhase
  sendCh : List Bytes
  written : List Bytes
  calls : Calls SendCall
  draws : ℕ
  stamps : List Stamp
  entered : List Entry

/-- A step of a call in progress. -/
inductive CallStep where
  /-- Draw a number, where the message has none. -/
  | draw
  /-- Persist the numbers and stamp the message. -/
  | persist (d : Driver)
  /-- A step that touches nothing others can see. -/
  | advance (env : Env)
  /-- Read the attached session. -/
  | locate
  /-- Look whether the session is marked closed. -/
  | check
  /-- Put the frame into the queue, which has room. -/
  | enqueue
  /-- Give up on a session whose context is cancelled. -/
  | abandon

/-- A step of one of the callers, of the session, or of whatever else uses the two. -/
inductive SendAction where
  | call (i : ℕ) (m : CodedMessage)
  | move (i : ℕ) (t : CallStep)
  /-- A frame that does not come from `SendMessage` enters the queue. -/
  | sendOther (b : Bytes)
  /-- The write loop writes a frame out. -/
  | write
  | shutdown
  | detach
  | setOutgoing (n : ℤ) (d : Driver)

/-- The steps of a call that touch nothing others can see: it goes on, or it returns. -/
def SendCall.advance (env : Env) : SendCall → Option (Option SendCall)
  | .numbered m seq => some (some (.timed (stampSendingTime env.now m) seq))
  | .timed m seq =>
      match askToApp env.app m with
      | (m, none) => some (some (.approved m seq))
      | (_, some _) => some none
  | .approved m seq =>
      match (m.toWire env.σ env.τ).2 with
      | .ok b => some (some (.serialised b seq))
      | .error _ => some none
  | .called _ | .drawn .. | .serialised .. | .located .. | .checked .. => none

/-- The number a call has drawn or stamped. -/
def SendCall.number : SendCall → Option ℤ
  | .called _ => none
  | .drawn _ snapshot _ => some snapshot.outgoing
  | .numbered _ seq | .timed _ seq | .approved _ seq | .serialised _ seq | .located _ seq
  | .checked _ seq => seq

/-- The numbers a call is about to persist. -/
def SendCall.unsaved : SendCall → Option SeqPair
  | .drawn _ snapshot _ => some snapshot
  | .called _ | .numbered .. | .timed .. | .approved .. | .serialised .. | .located .. | .checked .. =>
      none

/-- The draw a call has not persisted yet. -/
def SendCall.pending : SendCall → Option ℕ
  | .drawn _ _ draw => some draw
  | _ => none

namespace Outbound

/-- The caller goes on with the given call, or returns. -/
def put (s : Outbound) (i : ℕ) (c : Option SendCall) : Outbound :=
  { s with calls := s.calls.put i c }

/-- A caller whose message has no number draws one. -/
def drawn (s : Outbound) (i : ℕ) (m : CodedMessage) : Outbound :=
  let snapshot := SeqOp.incrementOutgoing.critical s.seqMgr.numbers
  { s with
    seqMgr := { s.seqMgr with numbers := snapshot }
    calls := s.calls.put i (some (.drawn m snapshot (s.draws + 1)))
    draws := s.draws + 1 }

/-- What becomes of the write of a snapshot. -/
def saved (s : Outbound) (snapshot : SeqPair) (d : Driver) :
    Option SQLiteStore × Option StoreError :=
  FixMsg.persist d s.seqMgr.sid snapshot s.seqMgr.store

/-- A caller is through with the store, and stamps the number drawn, or 1. -/
def persisted (s : Outbound) (i : ℕ) (m : CodedMessage) (snapshot : SeqPair) (draw : ℕ)
    (d : Driver) : Outbound :=
  let err := (s.saved snapshot d).2
  let seq := seqOrOne snapshot.outgoing (err.map SeqOp.incrementOutgoing.error)
  { s with
    seqMgr := { s.seqMgr with store := (s.saved snapshot d).1 }
    calls := s.calls.put i (some (.numbered (stampSeqNum seq m) (some seq)))
    stamps := s.stamps ++ [⟨seq, draw, err = none⟩] }

/-- A frame enters the queue. -/
def queue (s : Outbound) (x : Entry) : Outbound :=
  { s with sendCh := s.sendCh ++ [x.frame], entered := s.entered ++ [x] }

/-- The queue takes a frame. -/
def HasRoom (s : Outbound) : Prop := s.phase ≠ .queueClosed ∧ s.sendCh.length < sendChCap

instance (s : Outbound) : Decidable s.HasRoom := inferInstanceAs (Decidable (_ ∧ _))

/-- One step of the call of a caller. -/
def stepCall (s : Outbound) (i : ℕ) : SendCall → CallStep → Option Outbound
  | .called m, .draw =>
      if m.fields.contains tagMsgSeqNum then some (s.put i (some (.numbered m none)))
      else some (s.drawn i m)
  | .drawn m snapshot draw, .persist d => some (s.persisted i m snapshot draw d)
  | .numbered m seq, .advance env => ((SendCall.numbered m seq).advance env).map (s.put i)
  | .timed m seq, .advance env => ((SendCall.timed m seq).advance env).map (s.put i)
  | .approved m seq, .advance env => ((SendCall.approved m seq).advance env).map (s.put i)
  | .serialised b seq, .locate =>
      -- without a session the frame goes straight to the connection
      some (s.put i (if s.attached then some (.located b seq) else none))
  | .located b seq, .check =>
      some (s.put i (if s.phase = .running then some (.checked b seq) else none))
  | .checked b seq, .enqueue =>
      if s.HasRoom then some ((s.queue ⟨seq, b⟩).put i none) else none
  | .checked _ _, .abandon =>
      if s.phase = .cancelled ∨ s.phase = .queueClosed then some (s.put i none) else none
  | _, _ => none

/-- **One step.** -/
def step (s : Outbound) : SendAction → Option Outbound
  | .call i m =>
      match s.calls i with
      | some _ => none
      | none => some (s.put i (some (.called (stampCompIDs s.senderCompID s.targetCompID m))))
  | .move i t => (s.calls i).bind fun c => s.stepCall i c t
  | .sendOther b => if s.HasRoom then some (s.queue ⟨none, b⟩) else none
  | .write =>
      match s.sendCh with
      | [] => none
      | b :: rest => some { s with sendCh := rest, written := s.written ++ [b] }
  | .shutdown => some { s with phase := s.phase.next }
  | .detach => some { s with attached := false }
  | .setOutgoing n d => some { s with seqMgr := (s.seqMgr.setOutgoing n d).1 }

/-! ## What a step of a call can do -/

/-- **The effects of a step of a call.**  All but three steps are seen by the caller alone: it goes
on with the number it had, or returns. -/
inductive Effect (s : Outbound) (i : ℕ) (c : SendCall) : CallStep → Outbound → Prop where
  | silent {t : CallStep} (x : Option SendCall) (hpending : c.pending = none)
      (hx : ∀ y ∈ x, y.number = c.number ∧ y.pending = none) : Effect s i c t (s.put i x)
  | draw {m : CodedMessage} (hc : c = .called m) : Effect s i c .draw (s.drawn i m)
  | persist {m : CodedMessage} {snapshot : SeqPair} {draw : ℕ} {d : Driver}
      (hc : c = .drawn m snapshot draw) : Effect s i c (.persist d) (s.persisted i m snapshot draw d)
  | enqueue {b : Bytes} {seq : Option ℤ} (hc : c = .checked b seq) (hroom : s.HasRoom) :
      Effect s i c .enqueue ((s.queue ⟨seq, b⟩).put i none)

/-- A step of a call that others cannot see keeps its number. -/
theorem advance_spec {env : Env} {c : SendCall} {x : Option SendCall}
    (h : c.advance env = some x) :
    c.pending = none ∧ ∀ y ∈ x, y.number = c.number ∧ y.pending = none := by
  cases c with
  | numbered m seq =>
    cases h
    exact ⟨rfl, fun y hy => by cases hy; exact ⟨rfl, rfl⟩⟩
  | timed m seq =>
    rw [SendCall.advance] at h
    split at h <;> cases h
    · exact ⟨rfl, fun y hy => by cases hy; exact ⟨rfl, rfl⟩⟩
    · exact ⟨rfl, nofun⟩
  | approved m seq =>
    rw [SendCall.advance] at h
    split at h <;> cases h
    · exact ⟨rfl, fun y hy => by cases hy; exact ⟨rfl, rfl⟩⟩
    · exact ⟨rfl, nofun⟩
  | called | drawn | serialised | located | checked => cases h

theorem effect_of_advance {s s' : Outbound} {i : ℕ} {c : SendCall} {env : Env}
    (h : (c.advance env).map (s.put i) = some s') : Effect s i c (.advance env) s' := by
  obtain ⟨x, hx, rfl⟩ := Option.map_eq_some_iff.mp h
  obtain ⟨hpending, hnumber⟩ := advance_spec hx
  exact .silent x hpending hnumber

/-- **Every step of a call has one of the effects.** -/
theorem effect_of_stepCall {s s' : Outbound} {i : ℕ} {c : SendCall} {t : CallStep}
    (h : s.stepCall i c t = some s') : Effect s i c t s' := by
  unfold stepCall at h
  split at h
  case h_1 =>
    split at h <;> cases h
    · exact .silent _ rfl fun y hy => by cases hy; exact ⟨rfl, rfl⟩
    · exact .draw rfl
  case h_2 =>
    cases h
    exact .persist rfl
  case h_3 => exact effect_of_advance h
  case h_4 => exact effect_of_advance h
  case h_5 => exact effect_of_advance h
  case h_6 =>
    cases h
    refine .silent _ rfl fun y hy => ?_
    split at hy <;> cases hy
    exact ⟨rfl, rfl⟩
  case h_7 =>
    cases h
    refine .silent _ rfl fun y hy => ?_
    split at hy <;> cases hy
    exact ⟨rfl, rfl⟩
  case h_8 =>
    split at h
    · next hroom =>
      cases h
      exact .enqueue rfl hroom
    · cases h
  case h_9 =>
    split at h <;> cases h
    exact .silent none rfl nofun
  case h_10 => cases h

theorem step_move {s s' : Outbound} {i : ℕ} {t : CallStep} (h : s.step (.move i t) = some s') :
    ∃ c, s.calls i = some c ∧ Effect s i c t s' := by
  obtain ⟨c, hc, hstep⟩ := Option.bind_eq_some_iff.mp h
  exact ⟨c, hc, effect_of_stepCall hstep⟩

theorem step_call {s s' : Outbound} {i : ℕ} {m : CodedMessage} (h : s.step (.call i m) = some s') :
    s.calls i = none
      ∧ s' = s.put i (some (.called (stampCompIDs s.senderCompID s.targetCompID m))) := by
  rw [step] at h
  split at h
  · cases h
  · next hi => exact ⟨hi, (Option.some.inj h).symm⟩

/-! ## A call that nothing interrupts -/

/-- The steps of one call. -/
def uninterrupted (i : ℕ) (m : CodedMessage) (env : Env) : List SendAction :=
  [.call i m, .move i .draw, .move i (.persist env.writes), .move i (.advance env),
    .move i (.advance env), .move i (.advance env), .move i .locate, .move i .check,
    .move i .enqueue]

/-- An engine that this session is attached to. -/
structure Agrees (e : Engine) (s : Outbound) : Prop where
  attached : s.attached = true
  running : s.phase = .running
  seqMgr : e.seqMgr = s.seqMgr
  sender : e.senderCompID = s.senderCompID
  target : e.targetCompID = s.targetCompID

theorem step_move_eq {s : Outbound} {i : ℕ} {c : SendCall} (hi : s.calls i = some c)
    (t : CallStep) : s.step (.move i t) = s.stepCall i c t := by
  rw [step, hi, Option.bind_some]

theorem put_put (s : Outbound) (i : ℕ) (x y : Option SendCall) :
    (s.put i x).put i y = s.put i y := by
  rw [put, put, put, Calls.put_put]

/-- A step of a caller that has just gone on. -/
theorem step_put (s : Outbound) (i : ℕ) (c : SendCall) (t : CallStep) :
    (s.put i (some c)).step (.move i t) = (s.put i (some c)).stepCall i c t :=
  step_move_eq (Calls.put_self _ _ _) t

/-- From the number on, a call that nothing interrupts queues its frame. -/
theorem run_numbered {s : Outbound} {i : ℕ} {m m' : CodedMessage} {seq : Option ℤ} {env : Env}
    {b : Bytes} (hi : s.calls i = some (.numbered m seq)) (hattached : s.attached = true)
    (hrunning : s.phase = .running) (hroom : s.sendCh.length < sendChCap)
    (hask : askToApp env.app (stampSendingTime env.now m) = (m', none))
    (hwire : (m'.toWire env.σ env.τ).2 = .ok b) :
    Runs.run step s [.move i (.advance env), .move i (.advance env), .move i (.advance env),
      .move i .locate, .move i .check, .move i .enqueue] = some ((s.queue ⟨seq, b⟩).put i none) := by
  have htimed : s.step (.move i (.advance env))
      = some (s.put i (some (.timed (stampSendingTime env.now m) seq))) := by
    rw [step_move_eq hi]
    rfl
  have happroved : (s.put i (some (.timed (stampSendingTime env.now m) seq))).step
      (.move i (.advance env)) = some (s.put i (some (.approved m' seq))) := by
    rw [step_put, stepCall, SendCall.advance, hask]
    exact congrArg some (put_put s i _ _)
  have hserialised : (s.put i (some (.approved m' seq))).step (.move i (.advance env))
      = some (s.put i (some (.serialised b seq))) := by
    rw [step_put, stepCall, SendCall.advance, hwire]
    exact congrArg some (put_put s i _ _)
  have hlocated : (s.put i (some (.serialised b seq))).step (.move i .locate)
      = some (s.put i (some (.located b seq))) := by
    rw [step_put, stepCall, put_put]
    exact congrArg (fun x => some (s.put i x)) (if_pos hattached)
  have hchecked : (s.put i (some (.located b seq))).step (.move i .check)
      = some (s.put i (some (.checked b seq))) := by
    rw [step_put, stepCall, put_put]
    exact congrArg (fun x => some (s.put i x)) (if_pos hrunning)
  have hqueued : (s.put i (some (.checked b seq))).step (.move i .enqueue)
      = some ((s.queue ⟨seq, b⟩).put i none) := by
    have hputroom : (s.put i (some (.checked b seq))).HasRoom := by
      refine ⟨?_, hroom⟩
      change s.phase ≠ .queueClosed
      rw [hrunning]
      decide
    rw [step_put, stepCall, if_pos hputroom]
    exact congrArg some (put_put (s.queue ⟨seq, b⟩) i _ _)
  simp only [Runs.run, htimed, happroved, hserialised, hlocated, hchecked, hqueued,
    Option.bind_some]

/-- **A call that nothing interrupts is `SendMessage`**: it queues the same frame with the same
number, and leaves the same numbers behind. -/
theorem run_uninterrupted {s : Outbound} {e : Engine} {i : ℕ} {m : CodedMessage} {env : Env}
    (hi : s.calls i = none) (hsame : Agrees e s) (hroom : s.sendCh.length < sendChCap)
    (hnum : (stampCompIDs e.senderCompID e.targetCompID m).fields.contains tagMsgSeqNum = false)
    (hsend : (sendMessage env m e).error = none) :
    ∃ s' b, Runs.run step s (uninterrupted i m env) = some s' ∧ s'.calls = s.calls
      ∧ s'.seqMgr = (sendMessage env m e).engine.seqMgr
      ∧ (sendMessage env m e).engine.sent = e.sent ++ [b] ∧ s'.sendCh = s.sendCh ++ [b]
      ∧ s'.entered = s.entered ++ [⟨(sendMessage env m e).stamped, b⟩] := by
  obtain ⟨m', b, hask, hwire, hsent⟩ := sendMessage_of_nil hsend
  obtain ⟨hstamped, hmgr⟩ := @sendMessage_stamped env m e hnum
  rw [hstamped, hmgr]
  obtain ⟨hattached, hrunning, hseqMgr, hsender, htarget⟩ := hsame
  rw [stamped, drawSeqNum, if_neg (by rw [hnum]; decide)] at hask
  rw [hsender, htarget] at hnum hask
  rw [hseqMgr] at hask ⊢
  generalize hm₁ : stampCompIDs s.senderCompID s.targetCompID m = m₁ at hnum hask
  generalize hseq : nextSeq env.writes s.seqMgr = seq at hask ⊢
  let snapshot := SeqOp.incrementOutgoing.critical s.seqMgr.numbers
  let s₁ := s.put i (some (.called m₁))
  let s₂ := s₁.drawn i m₁
  let s₃ := s₂.persisted i m₁ snapshot (s.draws + 1) env.writes
  have hi₁ : s₁.calls i = some (.called m₁) := Calls.put_self _ _ _
  have hi₂ : s₂.calls i = some (.drawn m₁ snapshot (s.draws + 1)) := Calls.put_self _ _ _
  have hi₃ : s₃.calls i = some (.numbered (stampSeqNum seq m₁) (some seq)) := by
    rw [← hseq]
    exact Calls.put_self _ _ _
  have hcalls : s₃.calls.put i none = s.calls := by
    change (((s.calls.put i _).put i _).put i _).put i none = s.calls
    rw [Calls.put_put, Calls.put_put, Calls.put_put, Calls.put_of_eq hi]
  have h₁ : s.step (.call i m) = some s₁ := by rw [step, hi, hm₁]
  have h₂ : s₁.step (.move i .draw) = some s₂ := by
    rw [step_move_eq hi₁, stepCall, if_neg (by rw [hnum]; decide)]
  have h₃ : s₂.step (.move i (.persist env.writes)) = some s₃ := by rw [step_move_eq hi₂, stepCall]
  have hrest := run_numbered hi₃ hattached hrunning hroom hask hwire
  refine ⟨(s₃.queue ⟨some seq, b⟩).put i none, b, ?_, hcalls, rfl, hsent, rfl, rfl⟩
  rw [uninterrupted, Runs.run, h₁, Option.bind_some, Runs.run, h₂, Option.bind_some, Runs.run, h₃,
    Option.bind_some]
  exact hrest

end Outbound

end FixMsg
