import GoFixMsg.Codec.Flat
import GoFixMsg.Engine.SeqManager
import GoFixMsg.State.StateMachine

/-!
# Engine/Application — the engine, its environment and its application

Whatever an engine does not decide itself is in `Env`, one for each message it sends or answers
with: what the application makes of the message, the clock, what the store's driver and the
connection answer, and the order of Go's maps.

A callback gets the message itself and may change it, so what comes back from one is the message
that goes on.  It may be asked about a message that it need not be shown, in which case nothing is
recorded of it.

What the engine emits is recorded in order: the callbacks it made, each with the message as it was
given, and the frames that were handed to the session or to the connection.
-/

open GoLang

namespace FixMsg

/-- A `*FixMessage`: its fields, and the codec it carries if it carries one. -/
structure CodedMessage extends FixMessage where
  codec : Option Codec

namespace CodedMessage

/-- `NewFixMessage`. -/
def empty : CodedMessage := ⟨.empty, none⟩

/-- `Set`. -/
def set (m : CodedMessage) (tag : ℤ) [h : IntTag tag] (value : Bytes) : CodedMessage :=
  ⟨m.toFixMessage.set tag h.isInt64 value, m.codec⟩

/-- `Set` on a tag the message does not contain yet. -/
def setIfMissing (m : CodedMessage) (tag : ℤ) [IntTag tag] (value : Bytes) : CodedMessage :=
  if m.fields.contains tag then m else m.set tag value

/-- `SetLenAndChecksum`, of a message that holds no nil group to fault on. -/
def setLenAndChecksum (σ : SortSlice) (m : CodedMessage) : CodedMessage :=
  match FixMsg.setLenAndChecksum σ m.toFixMessage with
  | .ok m' => ⟨m', m.codec⟩
  | .error _ => m

/-- `ToWire`. -/
def toWire (σ τ : SortSlice) (m : CodedMessage) : CodedMessage × Except Fault Bytes :=
  let out := FixMsg.toWire σ τ m.codec m.toFixMessage
  (⟨out.1, m.codec⟩, out.2)

@[simp] theorem fields_set (m : CodedMessage) (tag : ℤ) [IntTag tag] (value : Bytes) :
    (m.set tag value).fields = m.fields.set tag value := rfl

/-- Setting a tag makes no other one appear. -/
theorem contains_set_of_ne {tag u : ℤ} [IntTag tag] (h : u ≠ tag) (m : CodedMessage)
    (value : Bytes) : (m.set tag value).fields.contains u = m.fields.contains u := by
  rw [fields_set, FixFragment.contains_set, decide_eq_false h, Bool.false_or]

theorem contains_setIfMissing_of_ne {tag u : ℤ} [IntTag tag] (h : u ≠ tag) (m : CodedMessage)
    (value : Bytes) : (m.setIfMissing tag value).fields.contains u = m.fields.contains u := by
  unfold setIfMissing
  split
  · rfl
  · exact contains_set_of_ne h m value

theorem setIfMissing_of_missing {m : CodedMessage} {tag : ℤ} [IntTag tag]
    (h : m.fields.contains tag = false) (value : Bytes) :
    m.setIfMissing tag value = m.set tag value := by
  rw [setIfMissing, h]
  rfl

/-- `LoadFix` into a fresh message. -/
def loadFix (buf : Bytes) : Except ParseError CodedMessage :=
  match h : FixMsg.loadFix none [] buf with
  | .error e => .error e
  | .ok f => .ok ⟨⟨f, (parsed_defaultParse (loadFix_fresh buf ▸ h)).wf⟩, none⟩

/-- `LoadFix` into a fresh message loads what the built-in parser reads. -/
theorem loadFix_eq (buf : Bytes) :
    (∃ e, defaultParse buf = .error e ∧ loadFix buf = .error e)
      ∨ ∃ m, defaultParse buf = .ok m.fields ∧ loadFix buf = .ok m ∧ m.codec = none := by
  unfold loadFix
  split
  · next e h => exact Or.inl ⟨e, loadFix_fresh buf ▸ h, rfl⟩
  · next f h => exact Or.inr ⟨_, loadFix_fresh buf ▸ h, rfl, rfl⟩

end CodedMessage

/-- A callback that may change the message it is given, and may reject it with an error. -/
abbrev Callback := CodedMessage → CodedMessage × Option Bytes

/-- `Application`: the callbacks with an answer. -/
structure Application where
  toAdmin : Callback
  fromAdmin : Callback
  toApp : Callback
  fromApp : Callback

/-- A callback that accepts every message as it is. -/
def acceptAll : Callback := fun m => (m, none)

/-- `NoOpApplication`. -/
def noOpApplication : Application := ⟨acceptAll, acceptAll, acceptAll, acceptAll⟩

/-- A callback the engine made, with the message as it was given. -/
inductive AppCall where
  | onCreate
  | onLogon
  | onLogout
  | toAdmin (m : CodedMessage)
  | fromAdmin (m : CodedMessage)
  | toApp (m : CodedMessage)
  | onReject (m : CodedMessage) (reason : Bytes)

/-- **A callback is asked**: the calls that makes, and the message as the application leaves it or
the error it returns, which `OnReject` is told of. -/
def ask (shown : CodedMessage → AppCall) (rejected : Bytes) (callback : Callback)
    (m : CodedMessage) : List AppCall × Except Bytes CodedMessage :=
  match callback m with
  | (m', none) => ([shown m], .ok m')
  | (m', some err) => ([shown m, .onReject m' (rejected ++ err)], .error err)

namespace Application

/-- `ToAdmin`. -/
def askToAdmin (app : Application) : CodedMessage → List AppCall × Except Bytes CodedMessage :=
  ask .toAdmin (ascii "ToAdmin rejected: ") app.toAdmin

/-- `FromAdmin`. -/
def askFromAdmin (app : Application) : CodedMessage → List AppCall × Except Bytes CodedMessage :=
  ask .fromAdmin (ascii "FromAdmin rejected: ") app.fromAdmin

end Application

/-- What an accepting callback leaves. -/
theorem ask_of_accepted {shown : CodedMessage → AppCall} {rejected : Bytes} {callback : Callback}
    {m m' : CodedMessage} (h : callback m = (m', none)) :
    ask shown rejected callback m = ([shown m], .ok m') := by
  rw [ask, h]

/-- The clock in the format of SendingTime. -/
structure Timestamp where
  text : Bytes
  sohFree : SohFree text

/-- **What an engine meets outside itself** while it sends one message. -/
structure Env where
  app : Application
  /-- `time.Now()`. -/
  now : Timestamp
  /-- What the driver makes of the write of the sequence numbers. -/
  writes : Driver
  /-- What the driver makes of the read of a message. -/
  reads : Driver
  /-- The orders of the map in a constructor's `SetLenAndChecksum`, and in the two of `ToWire`. -/
  ρ : SortSlice
  σ : SortSlice
  τ : SortSlice
  /-- The session or the connection takes the frame. -/
  takes : Bool

/-- Where frames go: to the attached session, straight to the connection, or nowhere. -/
inductive Link where
  | session
  | conn
  | absent
  deriving DecidableEq

/-- Why a frame did not go out. -/
inductive SendError where
  | rejected (reason : Bytes)
  | fault (f : Fault)
  | closedPipe
  | write
  | noConnection

/-- `FixEngine`, as `SetupComponents` wires it: the store of the handlers is that of `SeqMgr`.
`sent` lists the frames that went out, `calls` the callbacks that were made. -/
structure Engine where
  senderCompID : Bytes
  targetCompID : Bytes
  sessionID : Bytes
  seqMgr : SeqManager
  sm : State
  link : Link
  sent : List Bytes
  calls : List AppCall

namespace Engine

/-- A callback is made. -/
def call (e : Engine) (c : AppCall) : Engine := { e with calls := e.calls ++ [c] }

/-- A frame is handed to the session, or to the connection where there is no session. -/
def transmit (takes : Bool) (b : Bytes) (e : Engine) : Engine × Option SendError :=
  match e.link, takes with
  | .session, true | .conn, true => ({ e with sent := e.sent ++ [b] }, none)
  | .session, false => (e, some .closedPipe)
  | .conn, false => (e, some .write)
  | .absent, _ => (e, some .noConnection)

/-- `SessionSend`. -/
def sessionSend (takes : Bool) (b : Bytes) (e : Engine) : Engine × Option SendError :=
  e.transmit takes b

@[simp] theorem seqMgr_transmit (takes : Bool) (b : Bytes) (e : Engine) :
    (e.transmit takes b).1.seqMgr = e.seqMgr := by
  unfold transmit
  split <;> rfl

@[simp] theorem seqMgr_sessionSend (takes : Bool) (b : Bytes) (e : Engine) :
    (e.sessionSend takes b).1.seqMgr = e.seqMgr := seqMgr_transmit takes b e

/-- A frame goes out, or it does not. -/
theorem sent_transmit (takes : Bool) (b : Bytes) (e : Engine) :
    (e.transmit takes b).1.sent = e.sent ∨ (e.transmit takes b).1.sent = e.sent ++ [b] := by
  unfold transmit
  split
  iterate 2 exact Or.inr rfl
  all_goals exact Or.inl rfl

theorem sent_sessionSend (takes : Bool) (b : Bytes) (e : Engine) :
    (e.sessionSend takes b).1.sent = e.sent ∨ (e.sessionSend takes b).1.sent = e.sent ++ [b] :=
  sent_transmit takes b e

/-- Where no error is returned, it goes out, and nothing else changes. -/
theorem transmit_of_nil {takes : Bool} {b : Bytes} {e : Engine}
    (h : (e.transmit takes b).2 = none) :
    (e.transmit takes b).1 = { e with sent := e.sent ++ [b] } := by
  unfold transmit at h ⊢
  split at h
  iterate 2 rfl
  all_goals cases h

/-- A frame that is taken goes out, and the engine stays attached. -/
theorem sessionSend_taken {e : Engine} (hlink : e.link ≠ .absent) (b : Bytes) :
    (e.sessionSend true b).1.link = e.link ∧ (e.sessionSend true b).1.sent = e.sent ++ [b] := by
  unfold sessionSend transmit
  cases hl : e.link with
  | absent => exact absurd hl hlink
  | session | conn => exact ⟨rfl, rfl⟩

end Engine

end FixMsg
