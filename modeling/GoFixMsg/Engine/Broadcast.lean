import GoFixMsg.Handler.Rejected

/-!
# Engine/Broadcast — `BroadcastMessage` hands the message to the inbound handlers

`BroadcastMessage` is to send a message to every active session.  What it calls on each is
`HandleIncoming`: the message is processed as if the counterparty had sent it.  A default handler
then tells the application of it by `FromAdmin`, and queues a frame only to answer it; where there
is no handler, nothing happens at all.

So the message goes out exactly where it comes to a handler that the program itself has registered,
and this handler sends it (`broadcastsOnce_iff`); with the default handlers alone, on no session
(`broadcastsOnce_setUp`).
-/

open GoLang

namespace FixMsg

/-- A session of a `MultiSessionEngine`.  `around` is what a message meets in its processor, `env`
what a send meets; `leaves` is what the processing of a message leaves of it, as the handlers and
callbacks may change it. -/
structure ActiveSession where
  engine : Engine
  proc : Option Processor
  around : StatefulSurroundings
  env : Env
  leaves : CodedMessage → CodedMessage

namespace ActiveSession

/-- `HandleIncoming`. -/
def handleIncoming (x : ActiveSession) (m : CodedMessage) : Processed :=
  match x.proc with
  | none => ⟨x.engine, [], some (.failed (ascii "processor not configured"))⟩
  | some p => p.statefulProcess x.around m x.engine

end ActiveSession

/-- The loop of `BroadcastMessage`: the engines of the sessions, and the last error.  The sessions
come in the order in which the map is ranged over, and share the one message. -/
def broadcastLoop : List ActiveSession → CodedMessage → Option ProcessError →
    List Engine × Option ProcessError
  | [], _, lastErr => ([], lastErr)
  | x :: sessions, m, lastErr =>
      let r := x.handleIncoming m
      let rest := broadcastLoop sessions (x.leaves m) (r.error.or lastErr)
      (r.engine :: rest.1, rest.2)

/-- **`BroadcastMessage`**. -/
def broadcastMessage (sessions : List ActiveSession) (m : CodedMessage) :
    List Engine × Option ProcessError :=
  broadcastLoop sessions m none

/-! ## Sending once on a session -/

namespace ActiveSession

/-- The message with the header of a session: its CompIDs, its next number, and the time. -/
def headed (x : ActiveSession) (m : CodedMessage) : CodedMessage :=
  (((m.set tagSenderCompID (orDefault x.engine.senderCompID (ascii "S"))).set
    tagTargetCompID (orDefault x.engine.targetCompID (ascii "T"))).set
    tagMsgSeqNum (itoa (x.engine.seqMgr.incrementOutgoing x.env.writes).2.1)).set
    tagSendingTime x.env.now.text

/-- **One frame is queued**, that of the message with the header of the session and as `ToApp`
accepts it; and but for the number and the callback nothing changes. -/
def QueuesOnce (x : ActiveSession) (m : CodedMessage) (e' : Engine) : Prop :=
  ∃ out b, askToApp x.env.app (x.headed m) = (out, none)
    ∧ (out.toWire x.env.σ x.env.τ).2 = .ok b
    ∧ e' = { x.engine with
        seqMgr := (x.engine.seqMgr.incrementOutgoing x.env.writes).1
        calls := x.engine.calls ++ toAppCalls x.env.app (x.headed m)
        sent := x.engine.sent ++ [b] }

end ActiveSession

/-- **Every session queues the message once.** -/
def BroadcastsOnce (sessions : List ActiveSession) (m : CodedMessage) : Prop :=
  List.Forall₂ (fun x e' => x.QueuesOnce m e') sessions (broadcastMessage sessions m).1

/-! ### It is what `SendMessage` does -/

/-- A message without a header: none of the tags that `SendMessage` stamps. -/
structure CodedMessage.Headless (m : CodedMessage) : Prop where
  sender : m.fields.contains tagSenderCompID = false
  target : m.fields.contains tagTargetCompID = false
  seqNum : m.fields.contains tagMsgSeqNum = false
  sendingTime : m.fields.contains tagSendingTime = false

namespace ActiveSession

variable {x : ActiveSession} {m : CodedMessage}

theorem stampCompIDs_headless (h : m.Headless) (sender target : Bytes) :
    stampCompIDs sender target m
      = (m.set tagSenderCompID (orDefault sender (ascii "S"))).set tagTargetCompID
        (orDefault target (ascii "T")) := by
  rw [stampCompIDs, CodedMessage.setIfMissing_of_missing h.sender]
  refine CodedMessage.setIfMissing_of_missing ?_ _
  rw [CodedMessage.contains_set_of_ne]
  · exact h.target
  · decide

theorem drawSeqNum_headless (h : m.Headless)
    (hdraw : (x.engine.seqMgr.incrementOutgoing x.env.writes).2.2 = none) :
    drawSeqNum x.env.writes (stampCompIDs x.engine.senderCompID x.engine.targetCompID m) x.engine
      = ({ x.engine with seqMgr := (x.engine.seqMgr.incrementOutgoing x.env.writes).1 },
        stampSeqNum (x.engine.seqMgr.incrementOutgoing x.env.writes).2.1
          (stampCompIDs x.engine.senderCompID x.engine.targetCompID m),
        some (x.engine.seqMgr.incrementOutgoing x.env.writes).2.1) := by
  have hnext : nextSeq x.env.writes x.engine.seqMgr
      = (x.engine.seqMgr.incrementOutgoing x.env.writes).2.1 := by
    rw [nextSeq, seqOrOne, if_pos hdraw]
  have hseqNum : (stampCompIDs x.engine.senderCompID x.engine.targetCompID m).fields.contains
      tagMsgSeqNum = false := by
    rw [stampCompIDs_headless h, CodedMessage.contains_set_of_ne, CodedMessage.contains_set_of_ne]
    · exact h.seqNum
    all_goals decide
  rw [drawSeqNum, hseqNum, hnext]
  rfl

theorem stamped_headless (h : m.Headless)
    (hdraw : (x.engine.seqMgr.incrementOutgoing x.env.writes).2.2 = none) :
    stamped x.env m x.engine = x.headed m := by
  rw [stamped, drawSeqNum_headless h hdraw, stampCompIDs_headless h]
  refine CodedMessage.setIfMissing_of_missing ?_ _
  rw [stampSeqNum, CodedMessage.contains_set_of_ne, CodedMessage.contains_set_of_ne,
    CodedMessage.contains_set_of_ne]
  · exact h.sendingTime
  all_goals decide

/-- **A `SendMessage` of a copy that succeeds queues the message once.** -/
theorem queuesOnce_sendMessage (h : m.Headless)
    (hdraw : (x.engine.seqMgr.incrementOutgoing x.env.writes).2.2 = none)
    (hsent : (sendMessage x.env m x.engine).error = none) :
    x.QueuesOnce m (sendMessage x.env m x.engine).engine := by
  have hstamped := stamped_headless h hdraw
  have hafter : afterToApp x.env m x.engine = { x.engine with
      seqMgr := (x.engine.seqMgr.incrementOutgoing x.env.writes).1
      calls := x.engine.calls ++ toAppCalls x.env.app (x.headed m) } := by
    rw [afterToApp, hstamped, drawSeqNum_headless h hdraw]
  rcases sendMessage_cases x.env m x.engine with
    ⟨_, _, -, heq⟩ | ⟨_, _, _, -, -, heq⟩ | ⟨out, m'', b, hask, hwire, heq⟩
  · rw [heq] at hsent
    cases hsent
  · rw [heq] at hsent
    cases hsent
  · rw [heq] at hsent ⊢
    refine ⟨out, b, hstamped ▸ hask, by rw [hwire], ?_⟩
    rw [Engine.transmit_of_nil hsent, hafter]

end ActiveSession

/-! ## What a message reaches -/

/-- What `Register` passes on to the handler of a type: the message as the callbacks leave it,
behind what has occurred; nothing where `FromApp` rejects it. -/
def passedOn (apps : AppId → StatefulApp) (app : Option AppId) (sessionID msgType : Bytes)
    (told : List Occurrence) (m : CodedMessage) : Option (List Occurrence × CodedMessage) :=
  if isAdminMessageType msgType then some (told, m)
  else
    match app with
    | none => some (told, m)
    | some a =>
        match ((apps a).answers told).fromApp m with
        | (_, some _) => none
        | (m', none) =>
            some (told ++ [.call a sessionID (.fromApp m), .call a sessionID (.onMessage m')],
              (apps a).onMessage told m')

/-- A wrapped handler acts on the message that is passed on. -/
theorem engine_statefulWrap (apps : AppId → StatefulApp) (app : Option AppId)
    (sid msgType : Bytes) (fn : List Occurrence → WrappedFn) (told : List Occurrence)
    (m : CodedMessage) (e : Engine) :
    (statefulWrap apps app sid msgType fn told m e).engine
      = match passedOn apps app sid msgType told m with
        | none => e
        | some (told', m') => (fn told' m' e).engine := by
  unfold statefulWrap passedOn
  split
  · rfl
  cases app with
  | none => rfl
  | some a =>
    dsimp only
    cases ((apps a).answers told).fromApp m with
    | mk m' answer =>
      cases answer with
      | some err => rfl
      | none => rfl

namespace Processor

/-- **The handler of the program's own that a message reaches**, one that it has registered itself,
and the message this handler gets. -/
def ownHandler (p : Processor) (s : StatefulSurroundings) (m : CodedMessage) (e : Engine) :
    Option (HandlerFn × CodedMessage) :=
  if (p.validate m).isSome then none
  else
    let mt := (s.checked m).fields.getD tagMsgType
    if mt = [] then none
    else
      match p.h.lookup mt with
      | none | some .default => none
      | some (.plain fn) =>
          (passedOn s.apps p.app (p.sessionID e.sessionID) mt [] (s.checked m)).map fun r =>
            (fn, r.2)
      | some (.withFromApp sessionID fn) =>
          (passedOn s.apps p.app (p.sessionID e.sessionID) mt [] (s.checked m)).bind fun r =>
            (passedOn s.apps p.app sessionID mt r.1 r.2).map fun r => (fn, r.2)

/-- Whatever else it reaches does nothing, or asks `FromAdmin` first. -/
def OnlyAnswers (e e' : Engine) : Prop :=
  e' = e ∨ ∃ m new, e'.calls = e.calls ++ .fromAdmin m :: new

/-- What becomes of an engine, by the handler that is reached. -/
def Acts (e e' : Engine) : Option (HandlerFn × CodedMessage) → Prop
  | some (fn, m) => e' = (fn m e).1
  | none => OnlyAnswers e e'

theorem onlyAnswers_runDefault (s : Surroundings) {handle : Handler}
    (hhandle : ∀ m e, ∃ new, (handle m e).engine.calls = e.calls ++ new ∧ ∀ c ∈ new, c.OfHandler)
    (m : CodedMessage) (e : Engine) : OnlyAnswers e (runDefault s handle m e).engine := by
  unfold runDefault Application.askFromAdmin ask
  cases (s.apps s.engineApp).fromAdmin m with
  | mk m' answer =>
    cases answer with
    | some err => exact .inr ⟨m, _, rfl⟩
    | none =>
      obtain ⟨new, hcalls, -⟩ := hhandle m' (e.record [.fromAdmin m])
      refine .inr ⟨m, new, hcalls.trans ?_⟩
      exact List.append_assoc e.calls [.fromAdmin m] new

/-- A default registration has no body of the program's own. -/
theorem onlyAnswers_default (p : Processor) (s : StatefulSurroundings) (msgType : Bytes)
    (told : List Occurrence) (m : CodedMessage) (e : Engine) :
    OnlyAnswers e (p.statefulInner s msgType .default told m e).engine := by
  unfold statefulInner
  dsimp only
  by_cases hdefault : msgType ∈ defaultTypes
  · obtain ⟨-, handle, hmem, hlookup⟩ := lookup_defaultHandlers hdefault s.env s.fuel
    rw [hlookup]
    exact onlyAnswers_runDefault _ (calls_defaultHandlers _ _ _ hmem) m e
  · rw [lookup_defaultHandlers_none hdefault]
    exact .inl rfl

/-- **What `Process` does to the engine**: what the program's own handler does, where the message
reaches one. -/
theorem acts_statefulProcess (p : Processor) (s : StatefulSurroundings) (m : CodedMessage)
    (e : Engine) : Acts e (p.statefulProcess s m e).engine (p.ownHandler s m e) := by
  unfold ownHandler statefulProcess
  cases p.validate m with
  | some err => exact .inl rfl
  | none =>
    dsimp only [Option.isSome_none]
    rw [if_neg Bool.false_ne_true]
    split
    · exact .inl rfl
    cases hr : p.h.lookup ((s.checked m).fields.getD tagMsgType) with
    | none => exact .inl rfl
    | some r =>
      dsimp only
      rw [engine_statefulWrap]
      cases r with
      | default =>
        split
        · exact .inl rfl
        · exact onlyAnswers_default _ _ _ _ _ _
      | plain fn =>
        dsimp only
        cases passedOn s.apps p.app (p.sessionID e.sessionID)
          ((s.checked m).fields.getD tagMsgType) [] (s.checked m) with
        | none => exact .inl rfl
        | some passed => rfl
      | withFromApp sid fn =>
        dsimp only
        cases passedOn s.apps p.app (p.sessionID e.sessionID)
          ((s.checked m).fields.getD tagMsgType) [] (s.checked m) with
        | none => exact .inl rfl
        | some passed =>
          dsimp only [statefulInner, Option.bind_some]
          rw [engine_statefulWrap]
          cases passedOn s.apps p.app sid ((s.checked m).fields.getD tagMsgType) passed.1
            passed.2 with
          | none => exact .inl rfl
          | some passed => rfl

end Processor

/-! ## Who sends the message -/

namespace ActiveSession

variable {x : ActiveSession} {m : CodedMessage}

/-- The handler of the program's own that a message reaches on a session. -/
def ownHandler (x : ActiveSession) (m : CodedMessage) : Option (HandlerFn × CodedMessage) :=
  x.proc.bind fun p => p.ownHandler x.around m x.engine

theorem acts_handleIncoming (x : ActiveSession) (m : CodedMessage) :
    Processor.Acts x.engine (x.handleIncoming m).engine (x.ownHandler m) := by
  unfold handleIncoming ownHandler
  cases x.proc with
  | none => exact .inl rfl
  | some p => exact p.acts_statefulProcess x.around m x.engine

/-- A callback that sends is `ToApp`. -/
theorem ne_toAppCalls (app : Application) (m m' : CodedMessage) (new : List AppCall) :
    .fromAdmin m' :: new ≠ toAppCalls app m := by
  unfold toAppCalls
  split
  · simp
  · simp

/-- **A handler that only answers does not queue the message.** -/
theorem not_queuesOnce_of_onlyAnswers {e' : Engine} (h : Processor.OnlyAnswers x.engine e') :
    ¬ x.QueuesOnce m e' := by
  rintro ⟨out, b, -, -, rfl⟩
  rcases h with h | ⟨m', new, hcalls⟩
  · have hsent := congrArg Engine.sent h
    simp at hsent
  · exact ne_toAppCalls _ _ _ _ (List.append_cancel_left hcalls).symm

/-- A handler of the program's own is reached, and queues the message. -/
def OwnHandlerQueues (x : ActiveSession) (m m' : CodedMessage) : Prop :=
  ∃ fn m'', x.ownHandler m' = some (fn, m'') ∧ x.QueuesOnce m (fn m'' x.engine).1

theorem queuesOnce_handleIncoming_iff (x : ActiveSession) (m m' : CodedMessage) :
    x.QueuesOnce m (x.handleIncoming m').engine ↔ x.OwnHandlerQueues m m' := by
  have hacts := x.acts_handleIncoming m'
  cases hown : x.ownHandler m' with
  | none =>
    rw [hown] at hacts
    refine iff_of_false (not_queuesOnce_of_onlyAnswers hacts) ?_
    rintro ⟨fn, m'', h, -⟩
    rw [hown] at h
    cases h
  | some r =>
    obtain ⟨fn, m''⟩ := r
    rw [hown] at hacts
    rw [show (x.handleIncoming m').engine = (fn m'' x.engine).1 from hacts]
    constructor
    · intro h
      exact ⟨fn, m'', hown, h⟩
    · rintro ⟨fn', m₁, h, hqueues⟩
      rw [hown] at h
      cases h
      exact hqueues

end ActiveSession

/-- On every session a handler of the program's own is reached, by the message as the sessions
before have left it, and queues the message. -/
def OwnHandlersQueue (m : CodedMessage) : List ActiveSession → CodedMessage → Prop
  | [], _ => True
  | x :: sessions, m' => x.OwnHandlerQueues m m' ∧ OwnHandlersQueue m sessions (x.leaves m')

theorem broadcastLoop_iff (m : CodedMessage) (sessions : List ActiveSession) (m' : CodedMessage)
    (lastErr : Option ProcessError) :
    List.Forall₂ (fun x e' => x.QueuesOnce m e') sessions (broadcastLoop sessions m' lastErr).1
      ↔ OwnHandlersQueue m sessions m' := by
  induction sessions generalizing m' lastErr with
  | nil => exact iff_of_true .nil trivial
  | cons x sessions ih =>
    rw [broadcastLoop, List.forall₂_cons, ActiveSession.queuesOnce_handleIncoming_iff, ih]
    rfl

/-- **`BroadcastMessage` queues a message once on every session, exactly if** on each of them a
handler of the program's own is reached and does it. -/
theorem broadcastsOnce_iff (sessions : List ActiveSession) (m : CodedMessage) :
    BroadcastsOnce sessions m ↔ OwnHandlersQueue m sessions m :=
  broadcastLoop_iff m sessions m none

/-- A heartbeat, without a header. -/
def bareHeartbeat : CodedMessage :=
  (CodedMessage.empty.set tagBeginString (ascii "FIX.4.4")).set tagMsgType (ascii "0")

/-- A session that `handleNewConnection` has set up, logged on. -/
def loggedOnSession : ActiveSession where
  engine := { idleEngine with sm := .active, link := .session }
  proc := some (.setUp 0)
  around := accepting.stateful
  env := Outbound.calm
  leaves m := m

/-- **A heartbeat is broadcast to one session**, and is not queued. -/
theorem not_broadcastsOnce_heartbeat :
    bareHeartbeat.Headless ∧ ¬ BroadcastsOnce [loggedOnSession] bareHeartbeat := by
  refine ⟨⟨by decide, by decide, by decide, by decide⟩, ?_⟩
  rw [BroadcastsOnce, broadcastMessage, broadcastLoop_iff]
  rintro ⟨⟨fn, m', hown, -⟩, -⟩
  cases hown

/-! ## With and without handlers of the program's own -/

namespace Processor

/-- The default handlers are not the program's own. -/
theorem ownHandler_setUp (a : AppId) (s : StatefulSurroundings) (m : CodedMessage) (e : Engine) :
    (setUp a).ownHandler s m e = none := by
  have hlookup : ∀ t, (setUp a).h.lookup t = none ∨ (setUp a).h.lookup t = some .default := by
    intro t
    rw [setUp, (registerDefaultHandlers_spec _).2]
    split
    · exact .inr rfl
    · exact .inl rfl
  unfold ownHandler
  dsimp only
  split
  · rfl
  split
  · rfl
  rcases hlookup ((s.checked m).fields.getD tagMsgType) with hnone | hdefault
  · rw [hnone]
  · rw [hdefault]

end Processor

/-- **With the default handlers alone no session queues the message.** -/
theorem broadcastsOnce_setUp {sessions : List ActiveSession}
    (h : ∀ x ∈ sessions, ∃ a, x.proc = some (.setUp a)) (m : CodedMessage) :
    BroadcastsOnce sessions m ↔ sessions = [] := by
  rw [BroadcastsOnce, broadcastMessage, broadcastLoop_iff]
  cases sessions with
  | nil => exact iff_of_true trivial rfl
  | cons x sessions =>
    refine iff_of_false ?_ (List.cons_ne_nil x sessions)
    rintro ⟨⟨fn, m', hown, -⟩, -⟩
    obtain ⟨a, ha⟩ := h x List.mem_cons_self
    rw [ActiveSession.ownHandler, ha, Option.bind_some, Processor.ownHandler_setUp] at hown
    cases hown

/-- A session where the handler of the message's type sends a copy of what it gets. -/
structure ActiveSession.Forwards (x : ActiveSession) (m : CodedMessage) : Prop where
  proc : ∃ p, x.proc = some p ∧ p.validate m = none
    ∧ p.h.lookup (m.fields.getD tagMsgType)
      = some (.plain fun m e => ((sendMessage x.env m e).engine, none))
  checked : x.around.checked m = m
  leaves : x.leaves m = m
  draws : (x.engine.seqMgr.incrementOutgoing x.env.writes).2.2 = none
  sends : (sendMessage x.env m x.engine).error = none

theorem ActiveSession.Forwards.queues {x : ActiveSession} {m : CodedMessage} (h : x.Forwards m)
    (hheadless : m.Headless) (hadmin : isAdminMessageType (m.fields.getD tagMsgType) = true) :
    x.OwnHandlerQueues m m := by
  obtain ⟨p, hproc, hvalid, hlookup⟩ := h.proc
  have htype : m.fields.getD tagMsgType ≠ [] := by
    intro hnil
    rw [hnil] at hadmin
    exact absurd hadmin (by decide)
  refine ⟨fun m e => ((sendMessage x.env m e).engine, none), m, ?_,
    queuesOnce_sendMessage hheadless h.draws h.sends⟩
  rw [ownHandler, hproc, Option.bind_some, Processor.ownHandler, hvalid, h.checked]
  dsimp only [Option.isSome_none]
  rw [if_neg Bool.false_ne_true, if_neg htype, hlookup]
  have hpassed : passedOn x.around.apps p.app (p.sessionID x.engine.sessionID)
      (m.fields.getD tagMsgType) [] m = some ([], m) := if_pos hadmin
  dsimp only
  rw [hpassed]
  rfl

/-- **A program that has such a handler on every session** for an admin type, whatever the order of
the sessions. -/
theorem broadcastsOnce_of_forwards {sessions : List ActiveSession} {m : CodedMessage}
    (hheadless : m.Headless) (hadmin : isAdminMessageType (m.fields.getD tagMsgType) = true)
    (h : ∀ x ∈ sessions, x.Forwards m) : BroadcastsOnce sessions m := by
  rw [BroadcastsOnce, broadcastMessage, broadcastLoop_iff]
  induction sessions with
  | nil => trivial
  | cons x sessions ih =>
    have hx := h x List.mem_cons_self
    refine ⟨hx.queues hheadless hadmin, ?_⟩
    rw [hx.leaves]
    exact ih fun y hy => h y (List.mem_cons_of_mem _ hy)

end FixMsg
