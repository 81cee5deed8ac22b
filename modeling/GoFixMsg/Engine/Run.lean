import GoFixMsg.Handler.Handlers

/-!
# Engine/Run — the life of an engine

Sessions come and go, messages are sent and received, the numbers are set from outside, and the
process restarts on the same store.  Through all of it the engine stores no message
(`messages_handle`).

The program around an engine has the store in its hands, too, and may save messages there itself.
So what the store holds at the end of a run is what it held before, overwritten with what the
program has saved (`messages_runProgram`).

An event whose handler does not return is the last one (`handle?`): the read loop is in it, and
takes no further message out of the connection.  Properties of runs that speak of later messages are
stated over such runs.
-/

open GoLang

namespace FixMsg

/-- What happens to an engine. -/
inductive EngineEvent where
  | attach
  /-- The session is detached; the engine keeps a connection it dialled itself. -/
  | detach (dialled : Bool)
  | send (env : Env) (m : CodedMessage)
  | receive (env : ℕ → Env) (fuel : ℕ) (m : CodedMessage)
  | setNumber (op : SeqOp) (d : Driver)
  /-- `SetupComponents` once more, on the same store and session id. -/
  | restart (d : Driver)

namespace Engine

/-- One event.  A handler makes as many passes as it is given fuel for; what it has done by then is
what it leaves, whether it has returned (`handle?`) or would go on. -/
def handle (e : Engine) : EngineEvent → Engine
  | .attach => { e with link := .session, calls := e.calls ++ [.onCreate] }
  | .detach dialled => { e with link := if dialled then .conn else .absent }
  | .send env m => (sendMessage env m e).engine
  | .receive env fuel m => (process env fuel m e).engine
  | .setNumber op d => { e with seqMgr := (e.seqMgr.perform op d).1 }
  | .restart d =>
      { e with
        seqMgr := .new d e.seqMgr.store e.seqMgr.sid, sm := .disconnected, link := .absent }

/-- The events one after the other. -/
def run (e : Engine) (events : List EngineEvent) : Engine := events.foldl handle e

/-- The handler of an event returns. -/
def Returns (e : Engine) : EngineEvent → Prop
  | .receive env fuel m => (process env fuel m e).finished = true
  | .attach | .detach _ | .send _ _ | .setNumber _ _ | .restart _ => True

instance (e : Engine) (x : EngineEvent) : Decidable (e.Returns x) :=
  match x with
  | .receive env fuel m => inferInstanceAs (Decidable ((process env fuel m e).finished = true))
  | .attach | .detach _ | .send _ _ | .setNumber _ _ | .restart _ => inferInstanceAs (Decidable True)

/-- One event, if its handler returns: a read loop does not come back from one that does not, and
handles nothing more. -/
def handle? (e : Engine) (x : EngineEvent) : Option Engine :=
  if e.Returns x then some (e.handle x) else none

/-- **No event stores a message.** -/
theorem messages_handle (e : Engine) (x : EngineEvent) :
    (e.handle x).seqMgr.messages = e.seqMgr.messages := by
  cases x with
  | attach | detach | restart => rfl
  | send env m => exact messages_sendMessage env m e
  | receive env fuel m => exact messages_process env fuel m e
  | setNumber op d => exact SeqManager.messages_perform op d e.seqMgr

/-- `SaveMessage` on the store of the engine, by the program. -/
def saveMessage (e : Engine) (d : Driver) (m : StoredMessage) : Engine :=
  { e with seqMgr :=
      { e.seqMgr with store := e.seqMgr.store.map fun st => (st.saveMessage d m).1 } }

end Engine

/-- What happens to an engine and its store. -/
inductive ProgramEvent where
  | engine (x : EngineEvent)
  /-- The program calls `SaveMessage` on the store of the engine. -/
  | saveMessage (d : Driver) (m : StoredMessage)

namespace Engine

/-- One event. -/
def handleProgram (e : Engine) : ProgramEvent → Engine
  | .engine x => e.handle x
  | .saveMessage d m => e.saveMessage d m

/-- The events one after the other. -/
def runProgram (e : Engine) (events : List ProgramEvent) : Engine := events.foldl handleProgram e

/-- The messages that the program saves in a run, where the write succeeds. -/
def savedMessages (e : Engine) : List ProgramEvent → List StoredMessage
  | [] => []
  | .engine x :: events => (e.handle x).savedMessages events
  | .saveMessage d m :: events =>
      (if e.seqMgr.Writes d then [m] else []) ++ (e.saveMessage d m).savedMessages events

end Engine

/-- The rows of the messages, after some have been saved: a message stands in the place of one under
the same key. -/
def withSaved (rows : MessageKey → Option MessageRow) (saved : List StoredMessage) :
    MessageKey → Option MessageRow :=
  saved.foldl (fun rows m => Function.update rows
    ⟨m.beginString, m.senderCompID, m.targetCompID, m.msgSeqNum⟩
    (some ⟨m.msgType, m.body, m.created⟩)) rows

namespace Engine

/-- **What a program saves is stored**, if the write succeeds. -/
theorem messages_saveMessage (e : Engine) (d : Driver) (m : StoredMessage) :
    (e.saveMessage d m).seqMgr.messages
      = withSaved e.seqMgr.messages (if e.seqMgr.Writes d then [m] else []) := by
  obtain ⟨sender, target, sid, ⟨numbers, store, key⟩, sm, link, sent, calls⟩ := e
  rcases store with _ | ⟨_ | t⟩
  · rw [if_neg fun h => by obtain ⟨-, st, hst, -⟩ := h; cases hst]
    rfl
  · rw [if_neg fun h => by
      obtain ⟨-, st, hst, hopen⟩ := h
      cases hst
      exact absurd hopen (by decide)]
    cases d <;> rfl
  · cases d with
    | ok =>
      rw [if_pos ⟨rfl, _, rfl, rfl⟩]
      rfl
    | fail =>
      rw [if_neg fun h => by cases h.1]
      rfl

/-- **What the store holds behind a run** is what it held before, and what the program has saved. -/
theorem messages_runProgram (e : Engine) (events : List ProgramEvent) :
    (e.runProgram events).seqMgr.messages
      = withSaved e.seqMgr.messages (e.savedMessages events) := by
  induction events generalizing e with
  | nil => rfl
  | cons x events ih =>
    cases x with
    | engine x => exact (ih (e.handle x)).trans (by rw [messages_handle, savedMessages])
    | saveMessage d m =>
      refine (ih (e.saveMessage d m)).trans ?_
      rw [messages_saveMessage, savedMessages, withSaved, withSaved, withSaved, List.foldl_append]

end Engine

end FixMsg
