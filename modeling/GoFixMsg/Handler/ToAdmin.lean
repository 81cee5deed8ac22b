import GoFixMsg.Engine.FailedSend
import GoFixMsg.Engine.Run

/-!
# Handler/ToAdmin — which admin frames the application is asked about

The engine makes admin messages of its own: heartbeats and TestRequests on a timer, replies, and gap
fills.  Each place asks `ToAdmin` by hand, or does not.  `Engine.dispatches` lists what a step
sends, with what `ToAdmin` was asked on the way; that the frames and the callbacks of the engine are
those of the list is `follows_handle`.

The timers never ask, and neither does the gap fill for a stored message that cannot be read.  So
`ToAdmin` gates every frame exactly if none of these is queued (`toAdmin_gates_iff`).
-/

open GoLang

namespace FixMsg

/-! ## Dispatches

A dispatch is a message on its way out: where it comes from, what `ToAdmin` was asked, and what was
queued of it, if anything.  The handlers are gone through once to list theirs, with the definitions
that send left as they are. -/

/-- Where a message that is sent comes from. -/
inductive Origin where
  /-- `SendMessage`, called by the application. -/
  | application
  /-- The store. -/
  | replay
  | heartbeat
  | testRequest
  | reply
  | gapFill
  deriving DecidableEq

/-- The engine makes the message itself. -/
def Origin.engineMade : Origin → Bool
  | .application | .replay => false
  | .heartbeat | .testRequest | .reply | .gapFill => true

/-- **A message on its way out**: as it was built, what `ToAdmin` was shown, with its answers, and
what was queued, if it was: the message as it was serialised, and its frame. -/
structure Dispatch where
  origin : Origin
  built : CodedMessage
  asked : List (CodedMessage × CodedMessage × Option Bytes)
  queued : Option (CodedMessage × Bytes)

/-- The tags the engine stamps on its way. -/
def tagsStamped : List ℤ :=
  [tagBodyLength, tagCheckSum, tagSenderCompID, tagTargetCompID, tagMsgSeqNum, tagSendingTime]

/-- **`ToAdmin` gates a message**: if it is queued, `ToAdmin` was shown it once, as it was built,
and let it pass, and it holds what `ToAdmin` left but for the stamped tags.  A message that
`ToAdmin` has made one of the application is left to `ToApp`. -/
def Dispatch.Gated (d : Dispatch) : Prop :=
  ∀ m b, d.queued = some (m, b) → ∃ m', d.asked = [(d.built, m', none)]
    ∧ (m'.isApplication = false → ∀ t ∉ tagsStamped,
      Assoc.find? t m.fields = Assoc.find? t m'.fields)

/-- The session or the connection takes a frame. -/
def Link.TakesFrame (l : Link) (takes : Bool) : Prop := takes = true ∧ l ≠ .absent

instance (l : Link) (takes : Bool) : Decidable (l.TakesFrame takes) :=
  inferInstanceAs (Decidable (_ ∧ _))

/-- What is queued of a message that is serialised and handed on. -/
def queueFrame (env : Env) (m : CodedMessage) (e : Engine) : Option (CodedMessage × Bytes) :=
  match m.toWire env.σ env.τ with
  | (_, .error _) => none
  | (m', .ok b) => if e.link.TakesFrame env.takes then some (m', b) else none

/-- What is queued of a message that is given to `SendMessage`. -/
def queueSend (env : Env) (m : CodedMessage) (e : Engine) : Option (CodedMessage × Bytes) :=
  match askToApp env.app (stamped env m e) with
  | (_, some _) => none
  | (m', none) => queueFrame env m' e

/-- A message that `ToAdmin` is asked about first. -/
def gatedDispatch (origin : Origin) (app : Application) (m : CodedMessage)
    (queue : CodedMessage → Option (CodedMessage × Bytes)) : Dispatch :=
  ⟨origin, m, [(m, app.toAdmin m)],
    match app.toAdmin m with
    | (_, some _) => none
    | (m', none) => queue m'⟩

/-- `reply`. -/
def replyDispatch (consent send : Env) (out : CodedMessage) (e : Engine) : Dispatch :=
  gatedDispatch .reply consent.app out fun m =>
    queueSend send m (e.record (consent.app.askToAdmin out).1)

/-- `fillGap`. -/
def fillGapDispatch (env : Env) (sender target : Bytes) (seq : ℤ) (e : Engine) : Dispatch :=
  gatedDispatch .gapFill env.app (gapFillMessage env.ρ sender target seq) fun m =>
    queueFrame env m e

/-- `resendPass`. -/
def passDispatch (env : Env) (sender target : Bytes) (seq : ℤ) (e : Engine) :
    Option StoredMessage → Dispatch
  | none => fillGapDispatch env sender target seq e
  | some stored =>
      match CodedMessage.loadFix stored.body with
      | .error _ =>
          let sr := gapFillMessage env.ρ sender target seq
          ⟨.gapFill, sr, [], queueFrame env sr e⟩
      | .ok m =>
          if m.fields.getD tagMsgType ∈ gapFilledTypes then fillGapDispatch env sender target seq e
          else ⟨.replay, m, [], queueFrame env (replayMessage env.now m) e⟩

/-- `resendLoop`. -/
def loopDispatches (env : ℕ → Env) (sender target : Bytes) (ei : ℤ) :
    ℕ → ℕ → ℤ → Engine → List Dispatch
  | 0, _, _, _ => []
  | fuel + 1, k, seq, e =>
      if seq ≤ ei then
        let found := lookup (env k).reads sender target seq e.seqMgr
        passDispatch (env k) sender target seq e found
          :: loopDispatches env sender target ei fuel (k + 1) (int64 (seq + 1))
            (afterPass (env k).takes (resendPass (env k) sender target seq found) e)
      else []

/-- The default handlers, by message type. -/
def handlerDispatches (env : ℕ → Env) (fuel : ℕ) (msgType : Bytes) (m : CodedMessage) (e : Engine) :
    List Dispatch :=
  let sender := m.fields.getD tagTargetCompID
  let target := m.fields.getD tagSenderCompID
  if msgType = ascii "5" then
    [replyDispatch (env 0) (env 1) (newLogoutMessage (env 0).ρ sender target) e]
  else if msgType = ascii "2" then
    if m.fields.getD 7 = [] then []
    else
      match e.seqMgr.store with
      | none => []
      | some _ =>
          loopDispatches (fun k => env (k + 1)) sender target (endSeqNo m e.seqMgr) fuel 0
            (beginSeqNo m) e
  else if msgType = ascii "1" then
    let trid := m.fields.getD 112
    let hb := newHeartbeatMessage (env 0).ρ sender target
    [replyDispatch (env 0) (env 1) (if trid = [] then hb else hb.set 112 trid) e]
  else []

/-- `process`. -/
def processDispatches (env : ℕ → Env) (fuel : ℕ) (m : CodedMessage) (e : Engine) : List Dispatch :=
  match (env 0).app.fromAdmin m with
  | (_, some _) => []
  | (m', none) =>
      handlerDispatches env fuel (m.fields.getD tagMsgType) m' (e.record [.fromAdmin m])

/-! ## The timers

The heartbeat sender and the monitor call `SendMessage` on messages of their own.  That shows
application messages to `ToApp`, and asks nobody about these. -/

/-- What happens to an engine with a session attached: the events of its life, the ticks of the
heartbeat sender, and the TestRequests of the monitor. -/
inductive TimedEvent where
  | event (x : EngineEvent)
  | heartbeat (env : Env)
  /-- At a time in nanoseconds. -/
  | testRequest (env : Env) (nanos : ℤ)

/-- The TestRequest of the monitor. -/
def monitorTestRequest (ρ : SortSlice) (sender target : Bytes) (nanos : ℤ) : CodedMessage :=
  ((adminHeader (ascii "1") sender target).set 112 (ascii "TR-" ++ itoa nanos)).setLenAndChecksum ρ

namespace Engine

/-- The heartbeat of the sender. -/
def timedHeartbeat (e : Engine) (ρ : SortSlice) : CodedMessage :=
  newHeartbeatMessage ρ (orDefault e.senderCompID (ascii "S"))
    (orDefault e.targetCompID (ascii "T"))

/-- The TestRequest of the monitor, from this engine. -/
def timedTestRequest (e : Engine) (ρ : SortSlice) (nanos : ℤ) : CodedMessage :=
  monitorTestRequest ρ (orDefault e.senderCompID (ascii "S")) (orDefault e.targetCompID (ascii "T"))
    nanos

/-- One event. -/
def handleTimed (e : Engine) : TimedEvent → Engine
  | .event x => e.handle x
  | .heartbeat env => (sendMessage env (e.timedHeartbeat env.ρ) e).engine
  | .testRequest env nanos => (sendMessage env (e.timedTestRequest env.ρ nanos) e).engine

/-- One event, as a step of a run. -/
def timedStep (e : Engine) (x : TimedEvent) : Option Engine := some (e.handleTimed x)

/-- **What an event sends.** -/
def dispatches (e : Engine) : TimedEvent → List Dispatch
  | .event (.send env m) => [⟨.application, m, [], queueSend env m e⟩]
  | .event (.receive env fuel m) => processDispatches env fuel m e
  | .event _ => []
  | .heartbeat env =>
      let hb := e.timedHeartbeat env.ρ
      [⟨.heartbeat, hb, [], queueSend env hb e⟩]
  | .testRequest env nanos =>
      let tr := e.timedTestRequest env.ρ nanos
      [⟨.testRequest, tr, [], queueSend env tr e⟩]

end Engine

/-! ## The frames and the callbacks are those of the dispatches -/

/-- What `ToAdmin` has been shown. -/
def shownToAdmin (calls : List AppCall) : List CodedMessage :=
  calls.filterMap fun
    | .toAdmin m => some m
    | _ => none

/-- **The frames sent and what `ToAdmin` was shown are those of the dispatches.** -/
structure Follows (e e' : Engine) (ds : List Dispatch) : Prop where
  sent : e'.sent = e.sent ++ ds.flatMap fun d => (d.queued.map Prod.snd).toList
  shown : shownToAdmin e'.calls = shownToAdmin e.calls ++ ds.flatMap fun d => d.asked.map Prod.fst

theorem shownToAdmin_append (calls calls' : List AppCall) :
    shownToAdmin (calls ++ calls') = shownToAdmin calls ++ shownToAdmin calls' :=
  List.filterMap_append

theorem shownToAdmin_askToAdmin (app : Application) (m : CodedMessage) :
    shownToAdmin (app.askToAdmin m).1 = [m] := by
  unfold Application.askToAdmin ask
  split <;> rfl

theorem shownToAdmin_toAppCalls (app : Application) (m : CodedMessage) :
    shownToAdmin (toAppCalls app m) = [] := by
  unfold toAppCalls
  split
  · cases (app.toApp m).2 <;> rfl
  · rfl

section Follows

variable {e e' e'' : Engine} {ds ds' : List Dispatch}

/-- Where nothing is sent, and `ToAdmin` is not asked. -/
theorem Follows.none (hsent : e'.sent = e.sent)
    (hshown : shownToAdmin e'.calls = shownToAdmin e.calls) : Follows e e' [] :=
  ⟨hsent.trans (List.append_nil _).symm, hshown.trans (List.append_nil _).symm⟩

theorem Follows.trans (h : Follows e e' ds) (h' : Follows e' e'' ds') :
    Follows e e'' (ds ++ ds') := by
  obtain ⟨hsent, hshown⟩ := h
  obtain ⟨hsent', hshown'⟩ := h'
  refine ⟨?_, ?_⟩
  · rw [hsent', hsent, List.flatMap_append, List.append_assoc]
  · rw [hshown', hshown, List.flatMap_append, List.append_assoc]

/-- What follows another way to the same frames and callbacks. -/
theorem Follows.congr (h : Follows e e' ds) (hsent : e''.sent = e'.sent)
    (hshown : shownToAdmin e''.calls = shownToAdmin e'.calls) : Follows e e'' ds :=
  ⟨hsent.trans h.sent, hshown.trans h.shown⟩

end Follows

theorem transmit_eq (takes : Bool) (b : Bytes) (e : Engine) :
    (e.transmit takes b).1
      = if e.link.TakesFrame takes then { e with sent := e.sent ++ [b] } else e := by
  obtain ⟨sender, target, sid, mgr, sm, link, sent, calls⟩ := e
  cases link <;> cases takes <;> rfl

/-- **A frame is handed on**: the engine sends what is queued of the message. -/
theorem sent_queueFrame {env : Env} {m m' : CodedMessage} {b : Bytes} {e : Engine}
    (hwire : m.toWire env.σ env.τ = (m', .ok b)) :
    (e.transmit env.takes b).1.sent
        = e.sent ++ ((queueFrame env m e).map Prod.snd).toList
      ∧ (e.transmit env.takes b).1.calls = e.calls := by
  rw [transmit_eq, queueFrame, hwire]
  dsimp only
  split
  · exact ⟨rfl, rfl⟩
  · exact ⟨(List.append_nil _).symm, rfl⟩

theorem queueFrame_of_error {env : Env} {m m' : CodedMessage} {f : Fault} {e : Engine}
    (hwire : m.toWire env.σ env.τ = (m', .error f)) : queueFrame env m e = none := by
  rw [queueFrame, hwire]

/-- What `ToApp` rejects is not queued. -/
theorem queueSend_of_rejected {env : Env} {m m' : CodedMessage} {err : Bytes} {e : Engine}
    (h : askToApp env.app (stamped env m e) = (m', some err)) : queueSend env m e = none := by
  delta queueSend
  rw [h]

/-- And what it passes goes out as it left it. -/
theorem queueSend_of_passed {env : Env} {m m' : CodedMessage} {e : Engine}
    (h : askToApp env.app (stamped env m e) = (m', none)) :
    queueSend env m e = queueFrame env m' e := by
  delta queueSend
  rw [h]

theorem follows_sendMessage (env : Env) (m : CodedMessage) (e : Engine) (origin : Origin)
    (built : CodedMessage) :
    Follows e (sendMessage env m e).engine [⟨origin, built, [], queueSend env m e⟩] := by
  have hasked : (afterToApp env m e).sent = e.sent
      ∧ shownToAdmin (afterToApp env m e).calls = shownToAdmin e.calls := by
    refine ⟨(afterToApp_spec env m e).1, ?_⟩
    have hdrawn : ∀ m', (drawSeqNum env.writes m' e).1.calls = e.calls := by
      intro m'
      unfold drawSeqNum
      split <;> rfl
    rw [afterToApp, shownToAdmin_append, shownToAdmin_toAppCalls, List.append_nil, hdrawn]
  have hlink : ∀ m', queueFrame env m' (afterToApp env m e) = queueFrame env m' e := fun m' => by
    rw [queueFrame, queueFrame, (afterToApp_spec env m e).2]
  rcases sendMessage_cases env m e with
    ⟨_, _, hask, heq⟩ | ⟨_, _, _, hask, hwire, heq⟩ | ⟨_, _, b, hask, hwire, heq⟩
  · rw [heq, queueSend_of_rejected hask]
    exact ⟨hasked.1.trans (List.append_nil _).symm, hasked.2.trans (List.append_nil _).symm⟩
  · rw [heq, queueSend_of_passed hask, queueFrame_of_error hwire]
    exact ⟨hasked.1.trans (List.append_nil _).symm, hasked.2.trans (List.append_nil _).symm⟩
  · obtain ⟨hsent, hcalls⟩ := @sent_queueFrame env _ _ b (afterToApp env m e) hwire
    rw [heq, queueSend_of_passed hask]
    refine ⟨?_, ?_⟩
    · rw [hsent, hasked.1, hlink, List.flatMap_singleton]
    · rw [hcalls, hasked.2]
      exact (List.append_nil _).symm

/-- **A gated message**: `ToAdmin` is asked, and what it lets pass goes on. -/
theorem follows_gatedDispatch {origin : Origin} {app : Application} {m : CodedMessage}
    {queue : CodedMessage → Option (CodedMessage × Bytes)} {e e' : Engine}
    (hrejected : ∀ err, (app.toAdmin m).2 = some err → e' = e.record (app.askToAdmin m).1)
    (haccepted : (app.toAdmin m).2 = none → Follows (e.record (app.askToAdmin m).1) e'
      [⟨origin, m, [], queue (app.toAdmin m).1⟩]) :
    Follows e e' [gatedDispatch origin app m queue] := by
  have hrecord : shownToAdmin (e.record (app.askToAdmin m).1).calls
      = shownToAdmin e.calls ++ [m] := by
    rw [Engine.record, shownToAdmin_append, shownToAdmin_askToAdmin]
  unfold gatedDispatch
  rcases hanswer : app.toAdmin m with ⟨m', _ | err⟩
  · obtain ⟨hsent, hshown⟩ := haccepted (by rw [hanswer])
    rw [hanswer] at hsent
    refine ⟨hsent, ?_⟩
    rw [hshown, hrecord]
    exact List.append_nil _
  · rw [hrejected err (by rw [hanswer])]
    exact ⟨(List.append_nil _).symm, hrecord⟩

theorem follows_reply (consent send : Env) (out : CodedMessage) (e : Engine) :
    Follows e (reply consent send out e).1 [replyDispatch consent send out e] := by
  refine follows_gatedDispatch (fun err herr => ?_) fun hnone => ?_
  · rw [reply, Application.askToAdmin, ask]
    rcases hanswer : consent.app.toAdmin out with ⟨m', _ | err'⟩
    · rw [hanswer] at herr
      cases herr
    · rfl
  · rw [reply, Application.askToAdmin, ask]
    rcases hanswer : consent.app.toAdmin out with ⟨m', _ | err'⟩
    · exact follows_sendMessage send m' _ .reply out
    · rw [hanswer] at hnone
      cases hnone

/-- What a pass of the loop emits follows from what is queued of it. -/
theorem follows_emit {env : Env} {kind : EmissionKind} {seq : ℤ} {m : CodedMessage}
    {calls : List AppCall} {e : Engine} (origin : Origin) (built : CodedMessage) :
    Follows (e.record calls) (afterPass env.takes (calls, emit env kind seq m) e)
      [⟨origin, built, [], queueFrame env m e⟩] := by
  unfold afterPass emit
  rcases hwire : m.toWire env.σ env.τ with ⟨m', f | b⟩
  · rw [queueFrame_of_error hwire]
    exact ⟨(List.append_nil _).symm, (List.append_nil _).symm⟩
  · obtain ⟨hsent, hcalls⟩ := @sent_queueFrame env m m' b (e.record calls) hwire
    refine ⟨?_, ?_⟩
    · rw [List.flatMap_singleton]
      exact hsent
    · exact (congrArg shownToAdmin hcalls).trans (List.append_nil _).symm

theorem follows_fillGap (env : Env) (sender target : Bytes) (seq : ℤ) (e : Engine) :
    Follows e (afterPass env.takes (fillGap env sender target seq) e)
      [fillGapDispatch env sender target seq e] := by
  refine follows_gatedDispatch (fun err herr => ?_) fun hnone => ?_
  · rw [fillGap, Application.askToAdmin, ask]
    rcases hanswer : env.app.toAdmin (gapFillMessage env.ρ sender target seq) with ⟨m', _ | err'⟩
    · rw [hanswer] at herr
      cases herr
    · rfl
  · rw [fillGap, Application.askToAdmin, ask]
    rcases hanswer : env.app.toAdmin (gapFillMessage env.ρ sender target seq) with ⟨m', _ | err'⟩
    · exact follows_emit .gapFill _
    · rw [hanswer] at hnone
      cases hnone

theorem follows_pass (env : Env) (sender target : Bytes) (seq : ℤ) (found : Option StoredMessage)
    (e : Engine) :
    Follows e (afterPass env.takes (resendPass env sender target seq found) e)
      [passDispatch env sender target seq e found] := by
  have hself : e.record [] = e := by
    rw [Engine.record, List.append_nil]
  cases found with
  | none => exact follows_fillGap env sender target seq e
  | some stored =>
    rw [resendPass, passDispatch]
    cases CodedMessage.loadFix stored.body with
    | error err =>
      have h := @follows_emit env .gapFill seq (gapFillMessage env.ρ sender target seq) [] e
        .gapFill (gapFillMessage env.ρ sender target seq)
      rwa [hself] at h
    | ok m =>
      dsimp only
      split
      · exact follows_fillGap env sender target seq e
      · have h := @follows_emit env .replay seq (replayMessage env.now m) [] e .replay m
        rwa [hself] at h

theorem follows_resendLoop (env : ℕ → Env) (sender target : Bytes) (ei : ℤ) (fuel k : ℕ) (seq : ℤ)
    (e : Engine) :
    Follows e (resendLoop env sender target ei fuel k seq e).engine
      (loopDispatches env sender target ei fuel k seq e) := by
  induction fuel generalizing k seq e with
  | zero => exact .none rfl rfl
  | succ fuel ih =>
    rw [resendLoop, loopDispatches]
    split
    · exact (follows_pass (env k) sender target seq _ e).trans (ih _ _ _)
    · exact .none rfl rfl

/-! ## The handlers -/

theorem follows_logoutHandler (env : ℕ → Env) (fuel : ℕ) (m : CodedMessage) (e : Engine) :
    Follows e (logoutHandler env m e).engine (handlerDispatches env fuel (ascii "5") m e) := by
  have hreply := follows_reply (env 0) (env 1) (newLogoutMessage (env 0).ρ
    (m.fields.getD tagTargetCompID) (m.fields.getD tagSenderCompID)) e
  unfold logoutHandler
  dsimp only
  rw [handlerDispatches, if_pos rfl]
  split
  · next e' err heq =>
    rw [heq] at hreply
    exact hreply
  · next e' heq =>
    rw [heq] at hreply
    exact hreply.congr rfl ((shownToAdmin_append _ _).trans (List.append_nil _))

theorem follows_resendRequestHandler (env : ℕ → Env) (fuel : ℕ) (m : CodedMessage) (e : Engine) :
    Follows e (resendRequestHandler env fuel m e).engine
      (handlerDispatches env fuel (ascii "2") m e) := by
  have h5 : ascii "2" ≠ ascii "5" := by decide
  unfold resendRequestHandler
  rw [handlerDispatches, if_neg h5, if_pos rfl]
  split
  · exact .none rfl rfl
  · cases e.seqMgr.store with
    | none => exact .none rfl rfl
    | some st => exact follows_resendLoop ..

theorem follows_testRequestHandler (env : ℕ → Env) (fuel : ℕ) (m : CodedMessage) (e : Engine) :
    Follows e (testRequestHandler env m e).engine (handlerDispatches env fuel (ascii "1") m e) := by
  have h5 : ascii "1" ≠ ascii "5" := by decide
  have h2 : ascii "1" ≠ ascii "2" := by decide
  unfold testRequestHandler
  rw [handlerDispatches, if_neg h5, if_neg h2, if_pos rfl]
  exact follows_reply _ _ _ _

/-- **Each default handler sends its dispatches.** -/
theorem follows_defaultHandlers (env : ℕ → Env) (fuel : ℕ) :
    ∀ p ∈ defaultHandlers env fuel, ∀ m e,
      Follows e (p.2 m e).engine (handlerDispatches env fuel p.1 m e) := by
  have hnone : ∀ {msgType : Bytes}, msgType ≠ ascii "5" → msgType ≠ ascii "2" →
      msgType ≠ ascii "1" → ∀ m e, handlerDispatches env fuel msgType m e = [] := by
    intro msgType h5 h2 h1 m e
    rw [handlerDispatches, if_neg h5, if_neg h2, if_neg h1]
  have hlogon : ∀ m e, Follows e (logonHandler env m e).engine
      (handlerDispatches env fuel (ascii "A") m e) := by
    intro m e
    rw [hnone (by decide) (by decide) (by decide)]
    refine .none rfl ?_
    exact (shownToAdmin_append _ _).trans (List.append_nil _)
  have hreset : ∀ m e, Follows e (sequenceResetHandler env m e).engine
      (handlerDispatches env fuel (ascii "4") m e) := by
    intro m e
    rw [hnone (by decide) (by decide) (by decide)]
    unfold sequenceResetHandler
    dsimp only
    split <;> exact .none rfl rfl
  have hheartbeat : ∀ m e, Follows e (heartbeatHandler m e).engine
      (handlerDispatches env fuel (ascii "0") m e) := by
    intro m e
    rw [hnone (by decide) (by decide) (by decide)]
    exact .none rfl rfl
  rw [defaultHandlers]
  iterate 6 rw [List.forall_mem_cons]
  exact ⟨hlogon, follows_logoutHandler env fuel, follows_resendRequestHandler env fuel, hreset,
    follows_testRequestHandler env fuel, hheartbeat, fun _ hp => absurd hp List.not_mem_nil⟩

theorem follows_process (env : ℕ → Env) (fuel : ℕ) (m : CodedMessage) (e : Engine) :
    Follows e (process env fuel m e).engine (processDispatches env fuel m e) := by
  have hother : (defaultHandlers env fuel).lookup (m.fields.getD tagMsgType) = none →
      processDispatches env fuel m e = [] := by
    intro hlookup
    have hne : ∀ p ∈ defaultHandlers env fuel, m.fields.getD tagMsgType ≠ p.1 := by
      intro p hp heq
      exact absurd (List.lookup_eq_none_iff.mp hlookup p hp) (by simp [heq])
    rw [defaultHandlers] at hne
    iterate 6 rw [List.forall_mem_cons] at hne
    obtain ⟨-, h5, h2, -, h1, -, -⟩ := hne
    rw [processDispatches]
    split
    · rfl
    · rw [handlerDispatches, if_neg h5, if_neg h2, if_neg h1]
  unfold process
  dsimp only
  split
  · next hempty =>
    rw [hother (by rw [hempty]; rfl)]
    exact .none rfl rfl
  · split
    · next handle hlookup =>
      have hhandle := follows_defaultHandlers env fuel _ (mem_of_lookup hlookup)
      rw [withFromAdmin, Application.askFromAdmin, ask, processDispatches]
      rcases hanswer : (env 0).app.fromAdmin m with ⟨m', _ | err⟩
      · have hrecord : Follows e (e.record [.fromAdmin m]) [] :=
          .none rfl ((shownToAdmin_append _ _).trans (List.append_nil _))
        exact hrecord.trans (hhandle m' (e.record [.fromAdmin m]))
      · exact .none rfl ((shownToAdmin_append _ _).trans (List.append_nil _))
    · next hlookup =>
      rw [hother hlookup]
      exact .none rfl rfl

/-- **An event sends what its dispatches say, and shows `ToAdmin` what they say.** -/
theorem follows_handle (e : Engine) (x : TimedEvent) :
    Follows e (e.handleTimed x) (e.dispatches x) := by
  cases x with
  | heartbeat env => exact follows_sendMessage ..
  | testRequest env nanos => exact follows_sendMessage ..
  | event x =>
    cases x with
    | attach => exact .none rfl ((shownToAdmin_append _ _).trans (List.append_nil _))
    | detach | setNumber | restart => exact .none rfl rfl
    | send env m => exact follows_sendMessage ..
    | receive env fuel m => exact follows_process env fuel m e

/-! ## What goes by `ToAdmin`

The condition is on events: no timer queues a frame, and no ResendRequest queues one for a stored
message that cannot be read.  A frame that the link does not take is not queued. -/

/-- `ToAdmin` gates every message the engine makes. -/
def Gates (e : Engine) (x : TimedEvent) : Prop :=
  ∀ d ∈ e.dispatches x, d.origin.engineMade = true → d.Gated

/-- A pass of the resend loop sends nothing, or what the store has under the number can be read. -/
def PassConsults (env : Env) (sender target : Bytes) (seq : ℤ) (e : Engine) : Prop :=
  e.link.TakesFrame env.takes → ∀ stored,
    lookup env.reads sender target seq e.seqMgr = some stored →
      ∃ m, CodedMessage.loadFix stored.body = .ok m

/-- The same for every pass the loop gets to. -/
def LoopConsults (env : ℕ → Env) (sender target : Bytes) (ei : ℤ) (fuel k : ℕ) (seq : ℤ)
    (e : Engine) : Prop :=
  ∀ n < fuel, (∀ j ≤ n, int64 (seq + j) ≤ ei) →
    PassConsults (env (k + n)) sender target (int64 (seq + n)) e

/-- **The condition on an event**: a timer queues nothing, and a ResendRequest that gets through
`FromAdmin` meets no unreadable message. -/
def Consults (e : Engine) : TimedEvent → Prop
  | .heartbeat env | .testRequest env _ => ¬ e.link.TakesFrame env.takes
  | .event (.receive env fuel m) => ∀ m', (env 0).app.fromAdmin m = (m', none) →
      m.fields.getD tagMsgType = ascii "2" → m'.fields.getD 7 ≠ [] →
        LoopConsults (fun k => env (k + 1)) (m'.fields.getD tagTargetCompID)
          (m'.fields.getD tagSenderCompID) (endSeqNo m' e.seqMgr) fuel 0 (beginSeqNo m') e
  | .event _ => True

/-! ## The messages the engine makes serialise -/

namespace CodedMessage

/-- Stamping a missing tag leaves the other ones. -/
theorem find?_setIfMissing {m : CodedMessage} {tag : ℤ} [IntTag tag] {s : Bytes} {t : ℤ}
    (h : t ≠ tag) : Assoc.find? t (m.setIfMissing tag s).fields = Assoc.find? t m.fields := by
  unfold setIfMissing
  split
  · rfl
  · exact Assoc.find?_insert_of_ne h _ _

theorem plain_set {m : CodedMessage} (h : m.fields.Plain) (tag : ℤ) [IntTag tag] (s : Bytes) :
    (m.set tag s).fields.Plain := h.set tag s

theorem plain_setIfMissing {m : CodedMessage} (h : m.fields.Plain) (tag : ℤ) [IntTag tag]
    (s : Bytes) : (m.setIfMissing tag s).fields.Plain := by
  unfold setIfMissing
  split
  · exact h
  · exact h.set tag s

theorem plain_setLenAndChecksum {m : CodedMessage} (h : m.fields.Plain) (ρ : SortSlice) :
    (m.setLenAndChecksum ρ).fields.Plain := by
  unfold setLenAndChecksum FixMsg.setLenAndChecksum
  cases buildBody ρ m.fields with
  | error f => exact h
  | ok body => exact (h.set _ _).set _ _

/-- Serialising stamps the length and the checksum alone. -/
theorem find?_toWire {σ τ : SortSlice} {m : CodedMessage} {t : ℤ} (h9 : t ≠ tagBodyLength)
    (h10 : t ≠ tagCheckSum) :
    Assoc.find? t (m.toWire σ τ).1.fields = Assoc.find? t m.fields := by
  unfold toWire FixMsg.toWire FixMsg.setLenAndChecksum
  cases buildBody σ m.fields with
  | error f => rfl
  | ok body =>
    cases m.codec with
    | none => exact find?_stampBody h9 h10
    | some c => exact find?_stampBody h9 h10

end CodedMessage

/-- `SendMessage` stamps four tags at most before it asks `ToApp`. -/
theorem find?_stamped {env : Env} {m : CodedMessage} {e : Engine} {t : ℤ}
    (h49 : t ≠ tagSenderCompID) (h56 : t ≠ tagTargetCompID) (h34 : t ≠ tagMsgSeqNum)
    (h52 : t ≠ tagSendingTime) :
    Assoc.find? t (stamped env m e).fields = Assoc.find? t m.fields := by
  rw [stamped, stampSendingTime, CodedMessage.find?_setIfMissing h52, message_drawSeqNum,
    CodedMessage.find?_setIfMissing h34, stampCompIDs, CodedMessage.find?_setIfMissing h56,
    CodedMessage.find?_setIfMissing h49]

theorem plain_stamped {m : CodedMessage} (h : m.fields.Plain) (env : Env) (e : Engine) :
    (stamped env m e).fields.Plain := by
  rw [stamped, stampSendingTime, message_drawSeqNum, stampCompIDs]
  exact CodedMessage.plain_setIfMissing (CodedMessage.plain_setIfMissing
    (CodedMessage.plain_setIfMissing (CodedMessage.plain_setIfMissing h _ _) _ _) _ _) _ _

/-- A message of the engine stays one when it is stamped, and `ToApp` is not asked. -/
theorem askToApp_stamped {m : CodedMessage} (h : m.isApplication = false) (env : Env) (e : Engine) :
    askToApp env.app (stamped env m e) = (stamped env m e, none) := by
  have htype : (stamped env m e).fields.getD tagMsgType = m.fields.getD tagMsgType := by
    rw [FixFragment.getD, FixFragment.get, find?_stamped (by decide) (by decide) (by decide)
      (by decide), FixFragment.getD, FixFragment.get]
  rw [askToApp, CodedMessage.isApplication, htype, ← CodedMessage.isApplication, h]
  rfl

/-- A plain message is queued exactly if its frame is taken. -/
theorem queueFrame_eq_none {env : Env} {m : CodedMessage} {e : Engine} (h : m.fields.Plain) :
    queueFrame env m e = none ↔ ¬ e.link.TakesFrame env.takes := by
  obtain ⟨body, -, hout⟩ := @toWire_written env.σ env.τ m.codec m.toFixMessage h
  have hwire : ∃ m' b, m.toWire env.σ env.τ = (m', .ok b) := ⟨_, _, Prod.ext rfl hout⟩
  obtain ⟨m', b, hwire⟩ := hwire
  rw [queueFrame, hwire]
  dsimp only
  split
  · next htakes => simp [htakes]
  · next htakes => simp [htakes]

theorem queueSend_eq_none {env : Env} {m : CodedMessage} {e : Engine} (h : m.fields.Plain)
    (hadmin : m.isApplication = false) :
    queueSend env m e = none ↔ ¬ e.link.TakesFrame env.takes := by
  rw [queueSend_of_passed (askToApp_stamped hadmin env e)]
  exact queueFrame_eq_none (plain_stamped h env e)

theorem plain_adminHeader (msgType sender target : Bytes) :
    (adminHeader msgType sender target).fields.Plain := by
  have hempty : CodedMessage.empty.fields.Plain := by decide
  exact CodedMessage.plain_set (CodedMessage.plain_set (CodedMessage.plain_set
    (CodedMessage.plain_set hempty _ _) _ _) _ _) _ _

theorem plain_gapFillMessage (ρ : SortSlice) (sender target : Bytes) (seq : ℤ) :
    (gapFillMessage ρ sender target seq).fields.Plain := by
  refine CodedMessage.plain_set (CodedMessage.plain_set
    (CodedMessage.plain_setLenAndChecksum ?_ ρ) _ _) _ _
  exact CodedMessage.plain_set (CodedMessage.plain_set (plain_adminHeader _ _ _) _ _) _ _

/-- A message of an admin type, whatever is stamped on it. -/
theorem isApplication_setLenAndChecksum {m : CodedMessage} (ρ : SortSlice) :
    (m.setLenAndChecksum ρ).isApplication = m.isApplication := by
  have htype : (m.setLenAndChecksum ρ).fields.getD tagMsgType = m.fields.getD tagMsgType := by
    unfold CodedMessage.setLenAndChecksum FixMsg.setLenAndChecksum
    cases buildBody ρ m.fields with
    | error f => rfl
    | ok body =>
      change (stampBody m.fields body).getD tagMsgType = _
      rw [FixFragment.getD, get_stampBody (by decide) (by decide), FixFragment.getD]
  rw [CodedMessage.isApplication, htype, CodedMessage.isApplication]

theorem isApplication_adminHeader {msgType sender target : Bytes}
    (h : isAdminMessageType msgType = true) :
    (adminHeader msgType sender target).isApplication = false := by
  have htype : (adminHeader msgType sender target).fields.getD tagMsgType = msgType := rfl
  rw [CodedMessage.isApplication, htype, h, Bool.not_true, Bool.and_false]

/-- The heartbeat of the sender goes out exactly if its frame is taken. -/
theorem queueSend_timedHeartbeat {env : Env} {e : Engine} :
    queueSend env (e.timedHeartbeat env.ρ) e = none ↔ ¬ e.link.TakesFrame env.takes := by
  refine queueSend_eq_none (CodedMessage.plain_setLenAndChecksum (plain_adminHeader _ _ _) _) ?_
  rw [Engine.timedHeartbeat, newHeartbeatMessage, isApplication_setLenAndChecksum]
  exact isApplication_adminHeader (by decide)

/-- So does the TestRequest of the monitor. -/
theorem queueSend_timedTestRequest {env : Env} {e : Engine} {nanos : ℤ} :
    queueSend env (e.timedTestRequest env.ρ nanos) e = none ↔ ¬ e.link.TakesFrame env.takes := by
  refine queueSend_eq_none
    (CodedMessage.plain_setLenAndChecksum (CodedMessage.plain_set (plain_adminHeader _ _ _) _ _) _)
    ?_
  rw [Engine.timedTestRequest, monitorTestRequest, isApplication_setLenAndChecksum,
    CodedMessage.isApplication]
  have htype : ∀ sender target : Bytes,
      ((adminHeader (ascii "1") sender target).set 112 (ascii "TR-" ++ itoa nanos)).fields.getD
        tagMsgType = ascii "1" := fun _ _ => rfl
  rw [htype]
  rfl

/-! ## Gated and not gated -/

/-- What goes through `ToAdmin` is gated, if what is queued holds what `ToAdmin` left. -/
theorem gated_gatedDispatch {origin : Origin} {app : Application} {m : CodedMessage}
    {queue : CodedMessage → Option (CodedMessage × Bytes)}
    (h : ∀ m' m'' b, queue m' = some (m'', b) → m'.isApplication = false → ∀ t ∉ tagsStamped,
      Assoc.find? t m''.fields = Assoc.find? t m'.fields) :
    (gatedDispatch origin app m queue).Gated := by
  intro m'' b hqueued
  unfold gatedDispatch at hqueued ⊢
  rcases hanswer : app.toAdmin m with ⟨m', _ | err⟩
  · rw [hanswer] at hqueued
    exact ⟨m', rfl, fun hadmin => h m' m'' b hqueued hadmin⟩
  · rw [hanswer] at hqueued
    cases hqueued

/-- A message nobody was asked about is gated exactly if it is not queued. -/
theorem gated_unasked {origin : Origin} {built : CodedMessage}
    {queued : Option (CodedMessage × Bytes)} :
    Dispatch.Gated ⟨origin, built, [], queued⟩ ↔ queued = none := by
  constructor
  · intro h
    cases queued with
    | none => rfl
    | some x =>
      obtain ⟨m', hasked, -⟩ := h x.1 x.2 rfl
      cases hasked
  · rintro rfl m b hqueued
    cases hqueued

theorem find?_queueFrame {env : Env} {m m' : CodedMessage} {b : Bytes} {e : Engine}
    (h : queueFrame env m e = some (m', b)) {t : ℤ} (h9 : t ≠ tagBodyLength)
    (h10 : t ≠ tagCheckSum) : Assoc.find? t m'.fields = Assoc.find? t m.fields := by
  have hfind := @CodedMessage.find?_toWire env.σ env.τ m t h9 h10
  rw [queueFrame] at h
  split at h
  · cases h
  · next m'' b' hwire =>
    rw [hwire] at hfind
    split at h
    · cases h
      exact hfind
    · cases h

theorem ne_of_not_mem_tagsStamped {t : ℤ} (h : t ∉ tagsStamped) :
    t ≠ tagBodyLength ∧ t ≠ tagCheckSum ∧ t ≠ tagSenderCompID ∧ t ≠ tagTargetCompID
      ∧ t ≠ tagMsgSeqNum ∧ t ≠ tagSendingTime := by
  simpa [tagsStamped] using h

/-- **A reply is gated.** -/
theorem gated_replyDispatch (consent send : Env) (out : CodedMessage) (e : Engine) :
    (replyDispatch consent send out e).Gated := by
  refine gated_gatedDispatch fun m' m'' b hqueued hadmin t ht => ?_
  obtain ⟨h9, h10, h49, h56, h34, h52⟩ := ne_of_not_mem_tagsStamped ht
  rw [queueSend_of_passed (askToApp_stamped hadmin _ _)] at hqueued
  exact (find?_queueFrame hqueued h9 h10).trans (find?_stamped h49 h56 h34 h52)

/-- **So is a gap fill that `ToAdmin` is asked about.** -/
theorem gated_fillGapDispatch (env : Env) (sender target : Bytes) (seq : ℤ) (e : Engine) :
    (fillGapDispatch env sender target seq e).Gated := by
  refine gated_gatedDispatch fun m' m'' b hqueued _ t ht => ?_
  obtain ⟨h9, h10, -⟩ := ne_of_not_mem_tagsStamped ht
  exact find?_queueFrame hqueued h9 h10

/-- **A pass is gated exactly if it consults.** -/
theorem gated_passDispatch_iff {env : Env} {sender target : Bytes} {seq : ℤ} {e : Engine}
    {d : Dispatch}
    (hd : passDispatch env sender target seq e (lookup env.reads sender target seq e.seqMgr) = d) :
    (d.origin.engineMade = true → d.Gated) ↔ PassConsults env sender target seq e := by
  subst hd
  unfold PassConsults
  cases lookup env.reads sender target seq e.seqMgr with
  | none => exact iff_of_true (fun _ => gated_fillGapDispatch _ _ _ _ _) fun _ _ h => by cases h
  | some stored =>
    rw [passDispatch]
    cases hload : CodedMessage.loadFix stored.body with
    | error err =>
      have hgated := @gated_unasked .gapFill (gapFillMessage env.ρ sender target seq)
        (queueFrame env (gapFillMessage env.ρ sender target seq) e)
      rw [queueFrame_eq_none (plain_gapFillMessage _ _ _ _)] at hgated
      refine (imp_iff_right rfl).trans (hgated.trans ?_)
      refine imp_congr_right fun _ => iff_of_false id fun h => ?_
      obtain ⟨m, hm⟩ := h stored rfl
      rw [hload] at hm
      cases hm
    | ok m =>
      refine iff_of_true ?_ fun _ stored' h => ?_
      · dsimp only
        split
        · exact fun _ => gated_fillGapDispatch _ _ _ _ _
        · exact fun h => (Bool.false_ne_true h).elim
      · cases h
        exact ⟨m, hload⟩

theorem link_afterPass (takes : Bool) (pass : List AppCall × Option Emission) (e : Engine) :
    (afterPass takes pass e).link = e.link := by
  unfold afterPass Engine.sessionSend
  dsimp only
  split
  · rfl
  · rw [transmit_eq]
    split <;> rfl

/-- **The loop is gated exactly if every pass it gets to consults.** -/
theorem gated_loopDispatches_iff {env : ℕ → Env} {sender target : Bytes} {ei : ℤ} {fuel k : ℕ}
    {seq : ℤ} (hseq : IsInt64 seq) {e : Engine} :
    (∀ d ∈ loopDispatches env sender target ei fuel k seq e, d.origin.engineMade = true → d.Gated)
      ↔ LoopConsults env sender target ei fuel k seq e := by
  induction fuel generalizing k seq e with
  | zero =>
    exact iff_of_true (fun _ h => absurd h List.not_mem_nil)
      fun n hn => absurd hn (Nat.not_lt_zero n)
  | succ fuel ih =>
    have hself : int64 (seq + (0 : ℕ)) = seq := by simp [int64_of_isInt64 hseq]
    have hpass : ∀ {e' : Engine} {j : ℕ} {u : ℤ}, e'.seqMgr = e.seqMgr → e'.link = e.link →
        (PassConsults (env j) sender target u e' ↔ PassConsults (env j) sender target u e) := by
      intro e' j u hmgr hlink
      rw [PassConsults, PassConsults, hmgr, hlink]
    rw [loopDispatches]
    split
    · next hle =>
      rw [List.forall_mem_cons, gated_passDispatch_iff rfl, ih (isInt64_int64 _)]
      constructor
      · rintro ⟨hfirst, hrest⟩ n hn hreached
        cases n with
        | zero => rwa [hself]
        | succ n =>
          have h := hrest n (Nat.lt_of_succ_lt_succ hn) fun j hj => by
            rw [int64_pass]
            exact hreached (j + 1) (Nat.succ_le_succ hj)
          rw [int64_pass, Nat.add_right_comm] at h
          exact (hpass (seqMgr_afterPass _ _ _) (link_afterPass _ _ _)).mp h
      · intro h
        refine ⟨?_, fun n hn hreached => ?_⟩
        · have hfirst := h 0 (Nat.succ_pos fuel) fun j hj => by
            rw [Nat.le_zero.mp hj, hself]
            exact hle
          rwa [hself] at hfirst
        · refine (hpass (seqMgr_afterPass _ _ _) (link_afterPass _ _ _)).mpr ?_
          rw [int64_pass, Nat.add_right_comm]
          refine h (n + 1) (Nat.succ_lt_succ hn) fun j hj => ?_
          cases j with
          | zero => exact hself.trans_le hle
          | succ j =>
            rw [← int64_pass]
            exact hreached j (Nat.le_of_succ_le_succ hj)
    · next hgt =>
      refine iff_of_true (fun _ h => absurd h List.not_mem_nil) fun n _ hreached => ?_
      exact absurd (hself ▸ hreached 0 (Nat.zero_le n)) hgt

/-- A message that comes in is gated exactly if its ResendRequest consults. -/
theorem gates_receive_iff (e : Engine) (env : ℕ → Env) (fuel : ℕ) (m : CodedMessage) :
    Gates e (.event (.receive env fuel m)) ↔ Consults e (.event (.receive env fuel m)) := by
  have hnone : ∀ d ∈ ([] : List Dispatch), d.origin.engineMade = true → d.Gated :=
    fun _ h => absurd h List.not_mem_nil
  have hreply : ∀ {consent send out e'}, ∀ d ∈ [replyDispatch consent send out e'],
      d.origin.engineMade = true → d.Gated := fun d hd _ => by
    rw [List.mem_singleton.mp hd]
    exact gated_replyDispatch _ _ _ _
  rw [Gates, Engine.dispatches, processDispatches, Consults]
  rcases (env 0).app.fromAdmin m with ⟨m', _ | err⟩
  · dsimp only
    rw [handlerDispatches]
    by_cases h5 : m.fields.getD tagMsgType = ascii "5"
    · rw [if_pos h5]
      exact iff_of_true hreply fun _ _ h2 => absurd (h5.symm.trans h2) (by decide)
    rw [if_neg h5]
    by_cases h2 : m.fields.getD tagMsgType = ascii "2"
    · rw [if_pos h2]
      split
      · next h7 =>
        refine iff_of_true hnone fun m'' hm _ h7' => ?_
        cases hm
        exact absurd h7 h7'
      · next h7 =>
        have hloop : (∀ m'', (m', (none : Option Bytes)) = (m'', none) →
            m.fields.getD tagMsgType = ascii "2" → m''.fields.getD 7 ≠ [] →
              LoopConsults (fun k => env (k + 1)) (m''.fields.getD tagTargetCompID)
                (m''.fields.getD tagSenderCompID) (endSeqNo m'' e.seqMgr) fuel 0 (beginSeqNo m'') e)
            ↔ LoopConsults (fun k => env (k + 1)) (m'.fields.getD tagTargetCompID)
                (m'.fields.getD tagSenderCompID) (endSeqNo m' e.seqMgr) fuel 0 (beginSeqNo m')
                (e.record [.fromAdmin m]) := by
          constructor
          · exact fun h => h m' rfl h2 h7
          · rintro h m'' hm - -
            cases hm
            exact h
        rw [hloop]
        cases hstore : (e.record [.fromAdmin m]).seqMgr.store with
        | none =>
          refine iff_of_true hnone fun n _ _ _ stored hstored => ?_
          rw [lookup, hstore] at hstored
          cases hstored
        | some st => exact gated_loopDispatches_iff (isInt64_atoi _)
    · rw [if_neg h2]
      refine iff_of_true ?_ fun _ _ h => absurd h h2
      split
      · exact hreply
      · exact hnone
  · exact iff_of_true hnone fun m' h => by cases h

/-- **An event is gated exactly if it consults.** -/
theorem gates_iff (e : Engine) (x : TimedEvent) : Gates e x ↔ Consults e x := by
  have hnil : ∀ {x}, e.dispatches x = [] → Gates e x := by
    intro x h d hd
    rw [h] at hd
    cases hd
  cases x with
  | heartbeat env =>
    exact (List.forall_mem_singleton.trans ((imp_iff_right rfl).trans gated_unasked)).trans
      queueSend_timedHeartbeat
  | testRequest env nanos =>
    exact (List.forall_mem_singleton.trans ((imp_iff_right rfl).trans gated_unasked)).trans
      queueSend_timedTestRequest
  | event x =>
    cases x with
    | attach | detach | setNumber | restart => exact iff_of_true (hnil rfl) trivial
    | send env m =>
      refine iff_of_true (List.forall_mem_singleton.mpr fun h => ?_) trivial
      exact (Bool.false_ne_true h).elim
    | receive env fuel m => exact gates_receive_iff e env fuel m

/-- **In every run `ToAdmin` gates every admin frame the engine makes, exactly if no timer queues
one and no ResendRequest meets an unreadable message.** -/
theorem toAdmin_gates_iff (e : Engine) (events : List TimedEvent) :
    Runs.Meets Engine.timedStep Gates e events
      ↔ Runs.Meets Engine.timedStep Consults e events := by
  induction events generalizing e with
  | nil => exact Iff.rfl
  | cons x events ih =>
    rw [Runs.meets_cons_iff rfl, Runs.meets_cons_iff rfl, gates_iff, ih]

/-- The heartbeat of an attached engine goes by `ToAdmin`. -/
theorem heartbeat_goes_by : ¬ ∀ (e : Engine) (events : List TimedEvent),
    Runs.Meets Engine.timedStep Gates e events := by
  intro h
  have hgates := (h (engineOn .opened) [.heartbeat Outbound.calm]).1
  exact (gates_iff _ _).mp hgates ⟨rfl, by decide⟩

end FixMsg
