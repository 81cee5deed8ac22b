import GoFixMsg.Handler.Resend

/-!
# Handler/Handlers — the default handlers, and their dispatch

`RegisterDefaultHandlers` registers one handler for each admin type but Reject.  Each asks
`FromAdmin` first and goes on with the message as the application leaves it (`withFromAdmin`).  A
handler takes an environment for each message it sends.

What a handler leaves behind is the engine, the frames of a resend, whether it has come to its end,
and its error.  It always has come to its end, but for that of a ResendRequest, whose loop goes
through no more passes than it is given.
-/

open GoLang

namespace FixMsg

/-- Why a message was not handled. -/
inductive HandlerError where
  | rejected (reason : Bytes)
  | missingBeginSeqNo
  | missingMsgType
  | noHandler (msgType : Bytes)
  deriving DecidableEq

/-- What the handling of a message leaves behind: the engine, the frames of the resend loop, whether
that loop came to its end within the fuel, and the error. -/
structure Handled where
  engine : Engine
  emitted : List Emission
  finished : Bool
  error : Option HandlerError

/-- Handled without a resend. -/
def Handled.of (e : Engine) (error : Option HandlerError) : Handled := ⟨e, [], true, error⟩

/-- A handler, from `FromAdmin` on. -/
abbrev Handler := CodedMessage → Engine → Handled

/-- The calls made, in the engine's record. -/
def Engine.record (e : Engine) (calls : List AppCall) : Engine := { e with calls := e.calls ++ calls }

/-- `FromAdmin` before a handler. -/
def withFromAdmin (app : Application) (handle : Handler) : Handler := fun m e =>
  let asked := app.askFromAdmin m
  match asked.2 with
  | .error err => .of (e.record asked.1) (some (.rejected err))
  | .ok m => handle m (e.record asked.1)

/-- A reply, with the consent of the application; an error of `SendMessage` is logged. -/
def reply (consent send : Env) (out : CodedMessage) (e : Engine) :
    Engine × Option HandlerError :=
  let asked := consent.app.askToAdmin out
  match asked.2 with
  | .error err => (e.record asked.1, some (.rejected err))
  | .ok out => ((sendMessage send out (e.record asked.1)).engine, none)

/-- Both numbers are set to 1; errors are logged, or not even that. -/
def SeqManager.resetToOne (outgoing incoming : Driver) (s : SeqManager) : SeqManager :=
  ((s.setOutgoing 1 outgoing).1.setIncoming 1 incoming).1

/-- Logon. -/
def logonHandler (env : ℕ → Env) : Handler := fun m e =>
  let reset := m.fields.getD 141 = ascii "Y" ∧ e.seqMgr.store.isSome
  let seqMgr := if reset then e.seqMgr.resetToOne (env 0).writes (env 1).writes else e.seqMgr
  .of { e with
    seqMgr := seqMgr, sm := (e.sm.onEvent .logonReceived).1, calls := e.calls ++ [.onLogon] } none

/-- Logout: the reply goes to the sender, then the session is logged out. -/
def logoutHandler (env : ℕ → Env) : Handler := fun m e =>
  let out := newLogoutMessage (env 0).ρ (m.fields.getD tagTargetCompID)
    (m.fields.getD tagSenderCompID)
  match reply (env 0) (env 1) out e with
  | (e, some err) => .of e (some err)
  | (e, none) =>
      .of { e with sm := (e.sm.onEvent .logoutReceived).1, calls := e.calls ++ [.onLogout] } none

/-- BeginSeqNo. -/
def beginSeqNo (m : CodedMessage) : ℤ := (atoi (m.fields.getD 7)).1

/-- EndSeqNo, where 0 stands for the last number used. -/
def endSeqNo (m : CodedMessage) (s : SeqManager) : ℤ :=
  let ei := if m.fields.getD 16 = [] then 0 else (atoi (m.fields.getD 16)).1
  if ei = 0 then s.numbers.outgoing else ei

/-- ResendRequest. -/
def resendRequestHandler (env : ℕ → Env) (fuel : ℕ) : Handler := fun m e =>
  if m.fields.getD 7 = [] then .of e (some .missingBeginSeqNo)
  else
    match e.seqMgr.store with
    | none => .of e none
    | some _ =>
        let r := resendLoop (fun k => env (k + 1)) (m.fields.getD tagTargetCompID)
          (m.fields.getD tagSenderCompID) (endSeqNo m e.seqMgr) fuel 0 (beginSeqNo m) e
        ⟨r.engine, r.emitted, r.finished, none⟩

/-- SequenceReset: NewSeqNo less one becomes the *outgoing* number. -/
def sequenceResetHandler (env : ℕ → Env) : Handler := fun m e =>
  let v := m.fields.getD 36
  if v = [] then .of e none
  else
    .of { e with seqMgr := (e.seqMgr.setOutgoing (int64 ((atoi v).1 - 1)) (env 0).writes).1 } none

/-- TestRequest: a Heartbeat with the same TestReqID. -/
def testRequestHandler (env : ℕ → Env) : Handler := fun m e =>
  let trid := m.fields.getD 112
  let hb := newHeartbeatMessage (env 0).ρ (m.fields.getD tagTargetCompID)
    (m.fields.getD tagSenderCompID)
  let replied := reply (env 0) (env 1) (if trid = [] then hb else hb.set 112 trid) e
  .of replied.1 replied.2

/-- Heartbeat. -/
def heartbeatHandler : Handler := fun _ e => .of e none

/-- `RegisterDefaultHandlers`. -/
def defaultHandlers (env : ℕ → Env) (fuel : ℕ) : List (Bytes × Handler) :=
  [(ascii "A", logonHandler env),
   (ascii "5", logoutHandler env),
   (ascii "2", resendRequestHandler env fuel),
   (ascii "4", sequenceResetHandler env),
   (ascii "1", testRequestHandler env),
   (ascii "0", heartbeatHandler)]

/-- **`Process`**, and so `HandleIncoming`, with the default handlers and no validation. -/
def process (env : ℕ → Env) (fuel : ℕ) (m : CodedMessage) (e : Engine) : Handled :=
  let mt := m.fields.getD tagMsgType
  if mt = [] then .of e (some .missingMsgType)
  else
    match (defaultHandlers env fuel).lookup mt with
    | some handle => withFromAdmin (env 0).app handle m e
    | none => .of e (some (.noHandler mt))

/-! ## What the handlers leave alone -/

@[simp] theorem seqMgr_record (e : Engine) (calls : List AppCall) :
    (e.record calls).seqMgr = e.seqMgr := rfl

theorem messages_reply (consent send : Env) (out : CodedMessage) (e : Engine) :
    (reply consent send out e).1.seqMgr.messages = e.seqMgr.messages := by
  unfold reply
  dsimp only
  split
  · rfl
  · exact messages_sendMessage _ _ _

/-- **No handler stores a message.** -/
theorem messages_defaultHandlers (env : ℕ → Env) (fuel : ℕ) :
    ∀ p ∈ defaultHandlers env fuel, ∀ m e,
      (p.2 m e).engine.seqMgr.messages = e.seqMgr.messages := by
  have hlogon : ∀ m e, (logonHandler env m e).engine.seqMgr.messages = e.seqMgr.messages := by
    intro m e
    unfold logonHandler
    dsimp only [Handled.of]
    split
    · exact (SeqManager.messages_perform _ _ _).trans (SeqManager.messages_perform _ _ _)
    · rfl
  have hlogout : ∀ m e, (logoutHandler env m e).engine.seqMgr.messages = e.seqMgr.messages := by
    intro m e
    unfold logoutHandler
    dsimp only
    split
    all_goals
      next hreply =>
      exact (congrArg (fun r => r.1.seqMgr.messages) hreply.symm).trans (messages_reply _ _ _ _)
  have hresend : ∀ m e,
      (resendRequestHandler env fuel m e).engine.seqMgr.messages = e.seqMgr.messages := by
    intro m e
    unfold resendRequestHandler
    split
    · rfl
    · split
      · rfl
      · exact congrArg SeqManager.messages (seqMgr_resendLoop ..)
  have hreset : ∀ m e,
      (sequenceResetHandler env m e).engine.seqMgr.messages = e.seqMgr.messages := by
    intro m e
    unfold sequenceResetHandler
    dsimp only
    split
    · rfl
    · exact SeqManager.messages_perform _ _ _
  have htest : ∀ m e, (testRequestHandler env m e).engine.seqMgr.messages = e.seqMgr.messages :=
    fun m e => messages_reply _ _ _ _
  simp only [defaultHandlers, List.forall_mem_cons]
  exact ⟨hlogon, hlogout, hresend, hreset, htest, fun _ _ => rfl, by simp⟩

/-- The handler of a type is one of the list. -/
theorem mem_of_lookup {α β : Type*} [BEq α] [LawfulBEq α] {l : List (α × β)} {a : α} {b : β}
    (h : l.lookup a = some b) : (a, b) ∈ l := by
  obtain ⟨l₁, l₂, rfl, -⟩ := List.lookup_eq_some_iff.mp h
  exact List.mem_append_right _ List.mem_cons_self

/-- **Handling a message stores none.** -/
theorem messages_process (env : ℕ → Env) (fuel : ℕ) (m : CodedMessage) (e : Engine) :
    (process env fuel m e).engine.seqMgr.messages = e.seqMgr.messages := by
  unfold process
  dsimp only
  split
  · rfl
  · split
    · next handle hlookup =>
      have hhandle := messages_defaultHandlers env fuel _ (mem_of_lookup hlookup)
      unfold withFromAdmin
      dsimp only
      split
      · rfl
      · exact hhandle _ _
    · rfl

/-- **A message the application accepts goes to the handler of its type.** -/
theorem process_of_accepted {env : ℕ → Env} {fuel : ℕ} {msgType : Bytes} {handle : Handler}
    (hlookup : (defaultHandlers env fuel).lookup msgType = some handle) (hne : msgType ≠ [])
    {req m : CodedMessage} (htype : req.fields.getD tagMsgType = msgType)
    (haccept : (env 0).app.fromAdmin req = (m, none)) (e : Engine) :
    process env fuel req e = handle m (e.record [.fromAdmin req]) := by
  unfold process
  rw [htype, if_neg hne, hlookup]
  dsimp only
  rw [withFromAdmin, Application.askFromAdmin, ask_of_accepted haccept]

/-- One it rejects goes no further. -/
theorem process_of_rejected {env : ℕ → Env} {fuel : ℕ} {msgType : Bytes} {handle : Handler}
    (hlookup : (defaultHandlers env fuel).lookup msgType = some handle) (hne : msgType ≠ [])
    {req m : CodedMessage} (htype : req.fields.getD tagMsgType = msgType) {reason : Bytes}
    (hreject : (env 0).app.fromAdmin req = (m, some reason)) (e : Engine) :
    ∃ calls, process env fuel req e = .of (e.record calls) (some (.rejected reason)) := by
  unfold process
  rw [htype, if_neg hne, hlookup]
  dsimp only
  rw [withFromAdmin, Application.askFromAdmin, ask, hreject]
  exact ⟨_, rfl⟩

end FixMsg
