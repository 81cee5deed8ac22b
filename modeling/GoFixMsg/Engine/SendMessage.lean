import GoFixMsg.Engine.Application

/-!
# Engine/SendMessage — sending a message with the fields it still lacks

`SendMessage` stamps CompIDs, MsgSeqNum and SendingTime where the message lacks them, asks the
application, serialises, and hands the frame on.  Its steps are definitions of their own:
`Engine/Outbound` interleaves them with those of other calls.

The number is drawn before the application is asked, and before anything can fail.  A write that
fails is logged, and the message goes on with the number 1.  Whoever calls, what comes back is one
of three: the application has rejected the message, the link has not taken the frame, or the frame
is out (`sendMessage_cases`).
-/

open GoLang

namespace FixMsg

/-- `IsAdminMessageType`. -/
def isAdminMessageType (msgType : Bytes) : Bool :=
  msgType ∈ [ascii "A", ascii "5", ascii "0", ascii "1", ascii "2", ascii "3", ascii "4"]

/-- The message is one `SendMessage` shows to `ToApp`: its type is not empty and not an admin one. -/
def CodedMessage.isApplication (m : CodedMessage) : Bool :=
  m.fields.getD tagMsgType ≠ [] && !isAdminMessageType (m.fields.getD tagMsgType)

/-- A configured text, or the default where it is empty. -/
def orDefault (text default : Bytes) : Bytes := if text = [] then default else text

/-- SenderCompID and TargetCompID, where they are missing. -/
def stampCompIDs (sender target : Bytes) (m : CodedMessage) : CodedMessage :=
  (m.setIfMissing tagSenderCompID (orDefault sender (ascii "S"))).setIfMissing
    tagTargetCompID (orDefault target (ascii "T"))

/-- The number `SendMessage` goes on with: the one drawn, or 1 where drawing it reported an
error. -/
def seqOrOne (n : ℤ) (err : Option SeqError) : ℤ := if err = none then n else 1

/-- MsgSeqNum. -/
def stampSeqNum (seq : ℤ) (m : CodedMessage) : CodedMessage := m.set tagMsgSeqNum (itoa seq)

/-- SendingTime, where it is missing. -/
def stampSendingTime (now : Timestamp) (m : CodedMessage) : CodedMessage :=
  m.setIfMissing tagSendingTime now.text

/-- `ToApp`, for an application message. -/
def askToApp (app : Application) (m : CodedMessage) : CodedMessage × Option Bytes :=
  if m.isApplication then app.toApp m else (m, none)

/-- The callbacks of `askToApp`: a rejected message goes to `OnReject` as `ToApp` left it. -/
def toAppCalls (app : Application) (m : CodedMessage) : List AppCall :=
  if m.isApplication then
    .toApp m :: (app.toApp m).2.toList.map fun err =>
      .onReject (app.toApp m).1 (ascii "ToApp rejected: " ++ err)
  else []

/-- What `SendMessage` leaves behind: the engine, the message, the number it stamped, and its
error. -/
structure SendResult where
  engine : Engine
  message : CodedMessage
  stamped : Option ℤ
  error : Option SendError

/-- The number `SendMessage` stamps on a message that has none. -/
def nextSeq (d : Driver) (s : SeqManager) : ℤ :=
  seqOrOne (s.incrementOutgoing d).2.1 (s.incrementOutgoing d).2.2

/-- Draw a number and stamp it, where the message has none. -/
def drawSeqNum (d : Driver) (m : CodedMessage) (e : Engine) : Engine × CodedMessage × Option ℤ :=
  if m.fields.contains tagMsgSeqNum then (e, m, none)
  else
    ({ e with seqMgr := (e.seqMgr.incrementOutgoing d).1 }, stampSeqNum (nextSeq d e.seqMgr) m,
      some (nextSeq d e.seqMgr))

/-- **`SendMessage`**. -/
def sendMessage (env : Env) (m : CodedMessage) (e : Engine) : SendResult :=
  let (e, m, stamped) := drawSeqNum env.writes (stampCompIDs e.senderCompID e.targetCompID m) e
  let m := stampSendingTime env.now m
  let e := { e with calls := e.calls ++ toAppCalls env.app m }
  match askToApp env.app m with
  | (m, some err) => ⟨e, m, stamped, some (.rejected err)⟩
  | (m, none) =>
      match m.toWire env.σ env.τ with
      | (m, .error f) => ⟨e, m, stamped, some (.fault f)⟩
      | (m, .ok b) =>
          let (e, err) := e.transmit env.takes b
          ⟨e, m, stamped, err⟩

/-- The message as `ToApp` is shown it. -/
def stamped (env : Env) (m : CodedMessage) (e : Engine) : CodedMessage :=
  stampSendingTime env.now
    (drawSeqNum env.writes (stampCompIDs e.senderCompID e.targetCompID m) e).2.1

/-- The engine once `ToApp` has been asked. -/
def afterToApp (env : Env) (m : CodedMessage) (e : Engine) : Engine :=
  let drawn := (drawSeqNum env.writes (stampCompIDs e.senderCompID e.targetCompID m) e).1
  { drawn with calls := drawn.calls ++ toAppCalls env.app (stamped env m e) }

/-- The number stamped, if one is. -/
def stampedSeq (env : Env) (m : CodedMessage) (e : Engine) : Option ℤ :=
  (drawSeqNum env.writes (stampCompIDs e.senderCompID e.targetCompID m) e).2.2

/-- **What a call does**: the application rejects the message, or it does not serialise, or its frame
is handed on. -/
theorem sendMessage_cases (env : Env) (m : CodedMessage) (e : Engine) :
    (∃ m' err, askToApp env.app (stamped env m e) = (m', some err)
      ∧ sendMessage env m e = ⟨afterToApp env m e, m', stampedSeq env m e, some (.rejected err)⟩)
    ∨ (∃ m' m'' f, askToApp env.app (stamped env m e) = (m', none)
      ∧ m'.toWire env.σ env.τ = (m'', .error f)
      ∧ sendMessage env m e = ⟨afterToApp env m e, m'', stampedSeq env m e, some (.fault f)⟩)
    ∨ ∃ m' m'' b, askToApp env.app (stamped env m e) = (m', none)
      ∧ m'.toWire env.σ env.τ = (m'', .ok b)
      ∧ sendMessage env m e = ⟨((afterToApp env m e).transmit env.takes b).1, m'', stampedSeq env m e,
        ((afterToApp env m e).transmit env.takes b).2⟩ := by
  have hcall : sendMessage env m e = match askToApp env.app (stamped env m e) with
    | (m', some err) => ⟨afterToApp env m e, m', stampedSeq env m e, some (.rejected err)⟩
    | (m', none) =>
        match m'.toWire env.σ env.τ with
        | (m'', .error f) => ⟨afterToApp env m e, m'', stampedSeq env m e, some (.fault f)⟩
        | (m'', .ok b) => ⟨((afterToApp env m e).transmit env.takes b).1, m'', stampedSeq env m e,
            ((afterToApp env m e).transmit env.takes b).2⟩ := rfl
  rw [hcall]
  cases hask : askToApp env.app (stamped env m e) with
  | mk m' err =>
    cases err with
    | some err => exact Or.inl ⟨m', err, rfl, rfl⟩
    | none =>
      dsimp only
      cases hwire : m'.toWire env.σ env.τ with
      | mk m'' out =>
        cases out with
        | error f => exact Or.inr (Or.inl ⟨m', m'', f, rfl, hwire, rfl⟩)
        | ok b => exact Or.inr (Or.inr ⟨m', m'', b, rfl, hwire, rfl⟩)

/-- A message that lacks a number is given the next one. -/
theorem message_drawSeqNum (d : Driver) (m : CodedMessage) (e : Engine) :
    (drawSeqNum d m e).2.1 = m.setIfMissing tagMsgSeqNum (itoa (nextSeq d e.seqMgr)) := by
  unfold drawSeqNum CodedMessage.setIfMissing
  split <;> rfl

/-- Drawing a number sends nothing and detaches nothing. -/
theorem afterToApp_spec (env : Env) (m : CodedMessage) (e : Engine) :
    (afterToApp env m e).sent = e.sent ∧ (afterToApp env m e).link = e.link := by
  unfold afterToApp drawSeqNum
  dsimp only
  split <;> exact ⟨rfl, rfl⟩

/-- The numbers are those a call leaves behind `ToApp`. -/
theorem sendMessage_seqMgr (env : Env) (m : CodedMessage) (e : Engine) :
    (sendMessage env m e).engine.seqMgr = (afterToApp env m e).seqMgr
      ∧ (sendMessage env m e).stamped = stampedSeq env m e := by
  rcases sendMessage_cases env m e with ⟨_, _, -, h⟩ | ⟨_, _, _, -, -, h⟩ | ⟨_, _, _, -, -, h⟩
  all_goals rw [h]
  · exact ⟨rfl, rfl⟩
  · exact ⟨rfl, rfl⟩
  · exact ⟨Engine.seqMgr_transmit _ _ _, rfl⟩

/-- **Sending stores no message.** -/
theorem messages_sendMessage (env : Env) (m : CodedMessage) (e : Engine) :
    (sendMessage env m e).engine.seqMgr.messages = e.seqMgr.messages := by
  rw [(sendMessage_seqMgr env m e).1]
  unfold afterToApp drawSeqNum
  dsimp only
  split
  · rfl
  · exact SeqManager.messages_perform .incrementOutgoing env.writes e.seqMgr

/-- **What a call does that returns no error**: the application accepts the message, and its frame
goes out. -/
theorem sendMessage_of_nil {env : Env} {m : CodedMessage} {e : Engine}
    (h : (sendMessage env m e).error = none) :
    ∃ m' b, askToApp env.app (stamped env m e) = (m', none)
      ∧ (m'.toWire env.σ env.τ).2 = .ok b
      ∧ (sendMessage env m e).engine.sent = e.sent ++ [b] := by
  rcases sendMessage_cases env m e with
    ⟨_, _, -, heq⟩ | ⟨_, _, _, -, -, heq⟩ | ⟨m', m'', b, hask, hwire, heq⟩
  · rw [heq] at h
    cases h
  · rw [heq] at h
    cases h
  · rw [heq] at h ⊢
    refine ⟨m', b, hask, by rw [hwire], ?_⟩
    rw [Engine.transmit_of_nil h, (afterToApp_spec env m e).1]

/-- **At most one frame goes out**: that of the message as the application accepts it. -/
theorem sent_sendMessage (env : Env) (m : CodedMessage) (e : Engine) :
    (sendMessage env m e).engine.sent = e.sent
      ∨ ∃ m' b, askToApp env.app (stamped env m e) = (m', none)
        ∧ (m'.toWire env.σ env.τ).2 = .ok b
        ∧ (sendMessage env m e).engine.sent = e.sent ++ [b] := by
  have hsent := (afterToApp_spec env m e).1
  rcases sendMessage_cases env m e with
    ⟨_, _, -, heq⟩ | ⟨_, _, _, -, -, heq⟩ | ⟨m', m'', b, hask, hwire, heq⟩
  · exact Or.inl (by rw [heq, hsent])
  · exact Or.inl (by rw [heq, hsent])
  · rw [heq, ← hsent]
    exact ((afterToApp env m e).sent_transmit env.takes b).imp id fun h =>
      ⟨m', b, hask, by rw [hwire], h⟩

theorem isInt64_nextSeq (d : Driver) (s : SeqManager) : IsInt64 (nextSeq d s) := by
  unfold nextSeq seqOrOne
  split
  · exact isInt64_int64 _
  · decide

/-- The number stamped is the next one. -/
theorem nextSeq_of_stamped {env : Env} {m : CodedMessage} {e : Engine} {n : ℤ}
    (h : (sendMessage env m e).stamped = some n) : n = nextSeq env.writes e.seqMgr := by
  rw [(sendMessage_seqMgr env m e).2, stampedSeq, drawSeqNum] at h
  split at h <;> cases h
  rfl

/-- The number a message without one is stamped with, and what becomes of the numbers. -/
theorem sendMessage_stamped {env : Env} {m : CodedMessage} {e : Engine}
    (hnum : (stampCompIDs e.senderCompID e.targetCompID m).fields.contains tagMsgSeqNum = false) :
    (sendMessage env m e).stamped = some (nextSeq env.writes e.seqMgr)
      ∧ (sendMessage env m e).engine.seqMgr = (e.seqMgr.incrementOutgoing env.writes).1 := by
  obtain ⟨hmgr, hstamped⟩ := sendMessage_seqMgr env m e
  rw [hmgr, hstamped, stampedSeq, afterToApp, drawSeqNum, if_neg (by rw [hnum]; decide)]
  exact ⟨rfl, rfl⟩

end FixMsg
