import GoFixMsg.Codec.Parsers
import GoFixMsg.Handler.Replies
import GoFixMsg.Handler.ToAdmin
import Mathlib.Data.Prod.Lex

/-!
# Handler/Exchange — two engines that answer each other

Two engines with the default handlers are connected: what the one sends, the other handles, and what
that sends comes back.  The replies to a TestRequest and to a ResendRequest are not answered, so an
exchange comes to its end (`exchange_settles`), but for one kind of message: a Logout is answered
with a Logout in every state.  Where the applications let it pass, the Logouts on their way never
get fewer, so one that has been sent goes to and fro for good (`logouts_never_end`).

An exchange is a sequence of deliveries and of messages that the applications send, in any order.  A
delivery takes the first frame that is on its way to an engine, makes a message of it as the read
loop would, has the engine handle it, and puts what it sends behind the frames on their way to the
other.  The handler of a ResendRequest for the numbers up to the greatest `int` never returns and
sends frames for good (`resendLoop_endless`); such a delivery is no step of an exchange, and what is
said here is said of handlers that return.

What makes an exchange end is a measure: a TestRequest or a ResendRequest is answered with frames
that are neither, and nothing else but a Logout is answered at all.  So every delivery takes a
request off, or leaves the requests as many and takes a frame off (`step_descends`).
-/

open GoLang

namespace FixMsg

theorem parse_new_none (b : Bytes) : (Codec.new none).parse b = defaultParse b :=
  parse_of_flat rfl fun _ _ => rfl

/-- The message the read loop makes of a frame. -/
def received (b : Bytes) : Option CodedMessage :=
  match h : (Codec.new none).parse b with
  | .error _ => none
  | .ok f => some ⟨⟨f, (parsed_defaultParse (parse_new_none b ▸ h)).wf⟩, none⟩

/-- The MsgType of a frame, empty where it cannot be read. -/
def frameType (b : Bytes) : Bytes :=
  match received b with
  | none => []
  | some m => m.fields.getD tagMsgType

/-- The two engines. -/
inductive Peer where
  | initiator
  | acceptor
  deriving DecidableEq

/-- The other one. -/
def Peer.other : Peer → Peer
  | .initiator => .acceptor
  | .acceptor => .initiator

/-- **Two engines that are connected**, with the frames on their way to either. -/
structure Exchange where
  engine : Peer → Engine
  toward : Peer → List Bytes

/-- The frames that the handling of a message sends. -/
def replies (env : ℕ → Env) (fuel : ℕ) (m : CodedMessage) (e : Engine) : List Bytes :=
  (process env fuel m e).engine.sent.drop e.sent.length

namespace Exchange

/-- **The first frame on its way to an engine arrives**: it is handled, and what that sends is on
its way back.  A frame that cannot be read is dropped.  There is no step for a handler that does not
return, which would send frames for good: exchanges are those whose handlers return. -/
def deliver (p : Peer) (env : ℕ → Env) (fuel : ℕ) (x : Exchange) : Option Exchange :=
  match x.toward p with
  | [] => none
  | b :: rest =>
      match received b with
      | none => some { x with toward := Function.update x.toward p rest }
      | some m =>
          let r := process env fuel m (x.engine p)
          if r.finished then
            some ⟨Function.update x.engine p r.engine,
              Function.update (Function.update x.toward p rest) p.other
                (x.toward p.other ++ replies env fuel m (x.engine p))⟩
          else none

/-- The application of an engine sends a message. -/
def send (p : Peer) (env : Env) (m : CodedMessage) (x : Exchange) : Exchange :=
  let r := sendMessage env m (x.engine p)
  ⟨Function.update x.engine p r.engine,
    Function.update x.toward p.other
      (x.toward p.other ++ r.engine.sent.drop (x.engine p).sent.length)⟩

/-- The number of frames of a kind on their way. -/
def count (P : Bytes → Bool) (x : Exchange) : ℕ :=
  (x.toward .initiator).countP P + (x.toward .acceptor).countP P

/-- The Logouts on their way. -/
def logouts : Exchange → ℕ := count fun b => frameType b = ascii "5"

/-- The requests on their way. -/
def requests : Exchange → ℕ := count fun b => frameType b ∈ [ascii "1", ascii "2"]

end Exchange

/-- **An application that leaves the messages of the session readable**: their header tags, that is,
in those it is asked about, and strings without SOH in those it is shown. -/
structure Application.Tame (app : Application) : Prop where
  fromAdmin : ∀ m, m.Simple → (app.fromAdmin m).1.Simple
  toAdmin : app.KeepsHeaders

theorem tame_noOp : noOpApplication.Tame :=
  ⟨fun _ h => h, fun _ h => h, fun _ _ _ => rfl⟩

/-! ## What the read loop makes of a frame -/

theorem received_of_parse {b : Bytes} {f : FixFragment} (h : defaultParse b = .ok f) :
    ∃ m, received b = some m ∧ m.fields = f := by
  rw [← parse_new_none] at h
  unfold received
  split
  · next e herr =>
    rw [h] at herr
    cases herr
  · next g hok =>
    rw [h] at hok
    cases hok
    exact ⟨_, rfl, rfl⟩

theorem simple_received {b : Bytes} {m : CodedMessage} (h : received b = some m) : m.Simple := by
  unfold received at h
  split at h
  · cases h
  · next f hok =>
    cases h
    exact ⟨parsed_defaultParse (parse_new_none b ▸ hok), rfl⟩

theorem frameType_received {b : Bytes} {m : CodedMessage} (h : received b = some m) :
    frameType b = m.fields.getD tagMsgType := by
  rw [frameType, h]

/-- **The frame of a simple message has its type.** -/
theorem frameType_toWire {m : CodedMessage} (h : m.Simple) {σ τ : SortSlice} {b : Bytes}
    (hwire : (m.toWire σ τ).2 = .ok b) : frameType b = m.fields.getD tagMsgType := by
  obtain ⟨body, out, hout, -, hparse⟩ := h.toWire σ τ
  obtain rfl := Except.ok.inj (hout.symm.trans hwire)
  obtain ⟨m', hm', hfields⟩ := received_of_parse hparse
  rw [frameType_received hm', hfields, FixFragment.getD, FixFragment.getD,
    get_stampBody (by decide) (by decide)]

theorem frameType_queueFrame {m m' : CodedMessage} (h : m.Simple) {env : Env} {e : Engine}
    {b : Bytes} (hqueued : queueFrame env m e = some (m', b)) :
    frameType b = m.fields.getD tagMsgType := by
  unfold queueFrame at hqueued
  split at hqueued
  · cases hqueued
  · next m'' b' hwire =>
    split at hqueued
    · cases hqueued
      exact frameType_toWire h (congrArg Prod.snd hwire)
    · cases hqueued

/-! ## What is sent in reply

The types of the replies are gone through, handler by handler: a TestRequest is answered with a
heartbeat, a Logout with a Logout, and a ResendRequest with gap fills and with messages that are
none of the session.  Nothing else is answered. -/

/-- What is sent when a message is handled. -/
theorem replies_eq (env : ℕ → Env) (fuel : ℕ) (m : CodedMessage) (e : Engine) :
    replies env fuel m e
      = (processDispatches env fuel m e).flatMap fun d => (d.queued.map Prod.snd).toList := by
  rw [replies, (follows_process env fuel m e).sent, List.drop_left' rfl]

/-- A message that `ToAdmin` is asked about keeps its type. -/
theorem getD_toAdmin {app : Application} (happ : app.KeepsHeaders) {m m' : CodedMessage}
    {err : Option Bytes} (h : app.toAdmin m = (m', err)) :
    m'.fields.getD tagMsgType = m.fields.getD tagMsgType := by
  have hget := happ.get m tagMsgType (by decide)
  rw [h] at hget
  rw [FixFragment.getD, FixFragment.getD, hget]

/-- `ToAdmin` leaves a reply one. -/
theorem Replying.toAdmin {u p : Bytes} {out out' : CodedMessage} (h : Replying u p out)
    {app : Application} (happ : app.KeepsHeaders) {err : Option Bytes}
    (hout : app.toAdmin out = (out', err)) : Replying u p out' := by
  have hkept := happ.get out
  have hsimple := happ.simple out h.simple
  rw [hout] at hkept hsimple
  obtain ⟨s, hs⟩ := h.simple.parsed.flat.get h.begins
  obtain ⟨-, ⟨msgType, htype, hadmin⟩, -, hsender, htarget⟩ := h
  refine ⟨hsimple, ⟨msgType, ?_, hadmin⟩, ?_, ?_, ?_⟩
  · rw [hkept _ (by decide), htype]
  · exact FixFragment.mem_tags_of_get ((hkept _ (by decide)).trans hs)
  · rw [hkept _ (by decide), hsender]
  · rw [hkept _ (by decide), htarget]

/-- **A reply has the type of the message it was made of.** -/
theorem frameType_reply {u p : Bytes} {out : CodedMessage} (h : Replying u p out)
    {consent send : Env} (happ : consent.app.KeepsHeaders) {e : Engine} {m' : CodedMessage}
    {b : Bytes} (hqueued : (replyDispatch consent send out e).queued = some (m', b)) :
    frameType b = out.fields.getD tagMsgType := by
  unfold replyDispatch gatedDispatch at hqueued
  dsimp only at hqueued
  split at hqueued
  · cases hqueued
  · next out' hout =>
    obtain ⟨hsimple, -, hask⟩ := (h.toAdmin happ hout).heads_stamped send
      (e.record (consent.app.askToAdmin out).1)
    rw [queueSend_of_passed hask] at hqueued
    rw [frameType_queueFrame hsimple hqueued, ← getD_toAdmin happ hout, FixFragment.getD,
      FixFragment.getD, FixFragment.get, FixFragment.get,
      find?_stamped (by decide) (by decide) (by decide) (by decide)]

/-- **A reply that the application lets pass is queued.** -/
theorem queued_reply {u p : Bytes} {out : CodedMessage} (h : Replying u p out) {consent send : Env}
    (happ : consent.app.KeepsHeaders) (hpass : (consent.app.toAdmin out).2 = none) {e : Engine}
    (hlink : e.link.TakesFrame send.takes) :
    ∃ m' b, (replyDispatch consent send out e).queued = some (m', b) := by
  rcases hout : consent.app.toAdmin out with ⟨out', _ | err⟩
  · obtain ⟨hsimple, -, hask⟩ := (h.toAdmin happ hout).heads_stamped send
      (e.record (consent.app.askToAdmin out).1)
    obtain ⟨-, b, hwire, -, -⟩ := hsimple.toWire send.σ send.τ
    unfold replyDispatch gatedDispatch
    dsimp only
    rw [hout]
    dsimp only
    rw [queueSend_of_passed hask, queueFrame]
    generalize (stamped send out' (e.record (consent.app.askToAdmin out).1)).toWire send.σ send.τ
      = w at hwire
    obtain ⟨m', r⟩ := w
    dsimp only at hwire
    rw [hwire]
    exact ⟨m', b, if_pos hlink⟩
  · rw [hout] at hpass
    cases hpass

/-- What is queued of a gap fill is a SequenceReset. -/
theorem frameType_fillGap {env : Env} (happ : env.app.KeepsHeaders) {u p : Bytes} (hu : SohFree u)
    (hp : SohFree p) {seq : ℤ} {e : Engine} {m' : CodedMessage} {b : Bytes}
    (hqueued : (fillGapDispatch env u p seq e).queued = some (m', b)) :
    frameType b = ascii "4" := by
  obtain ⟨hsimple, hget⟩ := get_gapFillMessage hu hp env.ρ seq
  have htype : (gapFillMessage env.ρ u p seq).fields.getD tagMsgType = ascii "4" :=
    FixFragment.getD_of_get (hget tagMsgType (by decide) (by decide))
  unfold fillGapDispatch gatedDispatch at hqueued
  dsimp only at hqueued
  split at hqueued
  · cases hqueued
  · next out hout =>
    have hsimple' := happ.simple _ hsimple
    rw [hout] at hsimple'
    rw [frameType_queueFrame hsimple' hqueued, getD_toAdmin happ hout, htype]

/-- **What a pass of the resend loop queues is a gap fill, or no message of the session.** -/
theorem frameType_pass {env : Env} (happ : env.app.KeepsHeaders) {u p : Bytes} (hu : SohFree u)
    (hp : SohFree p) {seq : ℤ} {e : Engine} {found : Option StoredMessage} {m' : CodedMessage}
    {b : Bytes} (hqueued : (passDispatch env u p seq e found).queued = some (m', b)) :
    frameType b = ascii "4" ∨ frameType b ∉ gapFilledTypes := by
  cases found with
  | none => exact Or.inl (frameType_fillGap happ hu hp hqueued)
  | some stored =>
    rcases CodedMessage.loadFix_eq stored.body with ⟨err, -, hload⟩ | ⟨m, hparse, hload, hcodec⟩
    · rw [passDispatch, hload] at hqueued
      dsimp only at hqueued
      obtain ⟨hsimple, hget⟩ := get_gapFillMessage hu hp env.ρ seq
      left
      rw [frameType_queueFrame hsimple hqueued]
      exact FixFragment.getD_of_get (hget tagMsgType (by decide) (by decide))
    · rw [passDispatch, hload] at hqueued
      dsimp only at hqueued
      split at hqueued
      · exact Or.inl (frameType_fillGap happ hu hp hqueued)
      · next htype =>
        right
        obtain ⟨hsimple, hget⟩ := get_replayMessage ⟨parsed_defaultParse hparse, hcodec⟩ env.now
        rw [frameType_queueFrame hsimple hqueued, FixFragment.getD, hget tagMsgType, replayedField,
          if_neg (by decide), if_neg (by decide), if_neg (by decide)]
        exact htype

theorem frameType_loop {env : ℕ → Env} (happ : ∀ k, (env k).app.KeepsHeaders) {u p : Bytes}
    (hu : SohFree u) (hp : SohFree p) {ei : ℤ} {fuel k : ℕ} {seq : ℤ} {e : Engine} {d : Dispatch}
    (hd : d ∈ loopDispatches env u p ei fuel k seq e) {m' : CodedMessage} {b : Bytes}
    (hqueued : d.queued = some (m', b)) :
    frameType b = ascii "4" ∨ frameType b ∉ gapFilledTypes := by
  induction fuel generalizing k seq e with
  | zero => exact absurd hd List.not_mem_nil
  | succ fuel ih =>
    rw [loopDispatches] at hd
    split at hd
    · rcases List.mem_cons.mp hd with rfl | hrest
      · exact frameType_pass (happ k) hu hp hqueued
      · exact ih hrest
    · exact absurd hd List.not_mem_nil

/-- A message with the header of the session's messages has the type it was made with. -/
theorem type_adminHeader {msgType sender target : Bytes} (htype : SohFree msgType)
    (hs : SohFree sender) (ht : SohFree target) (ρ : SortSlice) :
    ((adminHeader msgType sender target).setLenAndChecksum ρ).fields.getD tagMsgType = msgType := by
  have hget := ((simple_adminHeader htype hs ht).setLenAndChecksum ρ).2 tagMsgType (by decide)
    (by decide)
  exact FixFragment.getD_of_get (hget.trans (get_adminHeader msgType sender target tagMsgType))

/-- The strings of a simple message have no SOH. -/
theorem CodedMessage.Simple.sohFree_getD {m : CodedMessage} (h : m.Simple) (t : ℤ) :
    SohFree (m.fields.getD t) := by
  cases hget : m.fields.get t with
  | none =>
    rw [FixFragment.getD, hget]
    exact List.not_mem_nil
  | some s =>
    rw [FixFragment.getD_of_get hget]
    exact h.sohFree hget

section Replies

variable {env : ℕ → Env} (happ : ∀ k, (env k).app.Tame) {m : CodedMessage} (hm : m.Simple)

include happ hm

/-- **What is sent in reply**: a Logout for a Logout, and for a TestRequest or a ResendRequest
nothing that is answered.  Other messages have no reply. -/
theorem frameType_replies {fuel : ℕ} {e : Engine} {b : Bytes} (hb : b ∈ replies env fuel m e) :
    (m.fields.getD tagMsgType = ascii "5" ∧ frameType b = ascii "5")
      ∨ (m.fields.getD tagMsgType ∈ [ascii "1", ascii "2"]
        ∧ frameType b ∉ [ascii "5", ascii "1", ascii "2"]) := by
  rw [replies_eq, List.mem_flatMap] at hb
  obtain ⟨d, hd, hqueued⟩ := hb
  rw [Option.mem_toList, Option.map_eq_some_iff] at hqueued
  obtain ⟨⟨m', b'⟩, hqueued, rfl⟩ := hqueued
  have hsimple := (happ 0).fromAdmin m hm
  unfold processDispatches at hd
  rcases hfrom : (env 0).app.fromAdmin m with ⟨q, _ | err⟩
  · rw [hfrom] at hd hsimple
    dsimp only at hd hsimple
    have hu := hsimple.sohFree_getD tagTargetCompID
    have hp := hsimple.sohFree_getD tagSenderCompID
    rw [handlerDispatches] at hd
    by_cases h5 : m.fields.getD tagMsgType = ascii "5"
    · rw [if_pos h5, List.mem_singleton] at hd
      subst hd
      left
      refine ⟨h5, ?_⟩
      rw [frameType_reply (replying_adminHeader (by decide) (by decide) hu hp _) (happ 0).toAdmin
        hqueued]
      exact type_adminHeader (by decide) hu hp _
    · right
      rw [if_neg h5] at hd
      by_cases h2 : m.fields.getD tagMsgType = ascii "2"
      · rw [if_pos h2] at hd
        refine ⟨by simp [h2], ?_⟩
        have htypes : ∀ t : Bytes, (t = ascii "4" ∨ t ∉ gapFilledTypes) →
            t ∉ [ascii "5", ascii "1", ascii "2"] := by
          rintro t (rfl | ht) hmem
          · exact absurd hmem (by decide)
          · exact ht ((show [ascii "5", ascii "1", ascii "2"] ⊆ gapFilledTypes by decide) hmem)
        split at hd
        · exact absurd hd List.not_mem_nil
        · split at hd
          · exact absurd hd List.not_mem_nil
          · exact htypes _ (frameType_loop (fun k => (happ (k + 1)).toAdmin) hu hp hd hqueued)
      · rw [if_neg h2] at hd
        split at hd
        · next h1 =>
          refine ⟨by simp [h1], ?_⟩
          rw [List.mem_singleton] at hd
          subst hd
          have hhb : Replying (q.fields.getD tagTargetCompID) (q.fields.getD tagSenderCompID)
              (newHeartbeatMessage (env 0).ρ (q.fields.getD tagTargetCompID)
                (q.fields.getD tagSenderCompID)) :=
            replying_adminHeader (by decide) (by decide) hu hp _
          have htype : (newHeartbeatMessage (env 0).ρ (q.fields.getD tagTargetCompID)
              (q.fields.getD tagSenderCompID)).fields.getD tagMsgType = ascii "0" :=
            type_adminHeader (by decide) hu hp _
          by_cases htrid : q.fields.getD 112 = []
          · rw [if_pos htrid] at hqueued
            rw [frameType_reply hhb (happ 0).toAdmin hqueued, htype]
            decide
          · rw [if_neg htrid] at hqueued
            rw [frameType_reply (hhb.set_testReqID (hsimple.sohFree_getD 112)) (happ 0).toAdmin
              hqueued, CodedMessage.fields_set, FixFragment.getD,
              FixFragment.get_set_of_ne _ (by decide), ← FixFragment.getD, htype]
            decide
        · exact absurd hd List.not_mem_nil
  · rw [hfrom] at hd
    exact absurd hd List.not_mem_nil

/-- **A Logout that the application lets pass is answered once**, where the engine can send. -/
theorem replies_logout (htype : m.fields.getD tagMsgType = ascii "5")
    (hfrom : ((env 0).app.fromAdmin m).2 = none)
    (hto : ∀ out : CodedMessage, out.fields.getD tagMsgType = ascii "5" →
      ((env 0).app.toAdmin out).2 = none) {fuel : ℕ} {e : Engine}
    (hlink : e.link.TakesFrame (env 1).takes) : ∃ b, replies env fuel m e = [b] := by
  have hsimple := (happ 0).fromAdmin m hm
  rw [replies_eq, processDispatches]
  rcases hq : (env 0).app.fromAdmin m with ⟨q, _ | err⟩
  · rw [hq] at hsimple
    dsimp only at hsimple ⊢
    have hu := hsimple.sohFree_getD tagTargetCompID
    have hp := hsimple.sohFree_getD tagSenderCompID
    have hout : Replying (q.fields.getD tagTargetCompID) (q.fields.getD tagSenderCompID)
        (newLogoutMessage (env 0).ρ (q.fields.getD tagTargetCompID)
          (q.fields.getD tagSenderCompID)) :=
      replying_adminHeader (by decide) (by decide) hu hp _
    obtain ⟨m', b, hqueued⟩ := @queued_reply _ _ _ hout (env 0) (env 1) (happ 0).toAdmin
      (hto _ (type_adminHeader (by decide) hu hp _)) (e.record [.fromAdmin m]) hlink
    refine ⟨b, ?_⟩
    rw [handlerDispatches, if_pos htype, List.flatMap_singleton, hqueued]
    rfl
  · rw [hq] at hfrom
    cases hfrom

end Replies

/-! ## The link stays -/

theorem link_transmit (takes : Bool) (b : Bytes) (e : Engine) :
    (e.transmit takes b).1.link = e.link := by
  rw [transmit_eq]
  split <;> rfl

theorem link_sendMessage (env : Env) (m : CodedMessage) (e : Engine) :
    (sendMessage env m e).engine.link = e.link := by
  have hasked := (afterToApp_spec env m e).2
  rcases sendMessage_cases env m e with ⟨_, _, -, heq⟩ | ⟨_, _, _, -, -, heq⟩ | ⟨_, _, _, -, -, heq⟩
  · rw [heq, hasked]
  · rw [heq, hasked]
  · rw [heq, ← hasked]
    exact link_transmit _ _ _

theorem link_reply (consent send : Env) (out : CodedMessage) (e : Engine) :
    (reply consent send out e).1.link = e.link := by
  unfold reply
  dsimp only
  split
  · rfl
  · exact link_sendMessage _ _ _

theorem link_resendLoop (env : ℕ → Env) (sender target : Bytes) (ei : ℤ) (fuel k : ℕ) (seq : ℤ)
    (e : Engine) : (resendLoop env sender target ei fuel k seq e).engine.link = e.link := by
  induction fuel generalizing k seq e with
  | zero => rfl
  | succ fuel ih =>
    rw [resendLoop]
    split
    · exact (ih _ _ _).trans (link_afterPass _ _ _)
    · rfl

/-- **No handler detaches the engine.** -/
theorem link_defaultHandlers (env : ℕ → Env) (fuel : ℕ) :
    ∀ p ∈ defaultHandlers env fuel, ∀ m e, (p.2 m e).engine.link = e.link := by
  have hlogout : ∀ m e, (logoutHandler env m e).engine.link = e.link := by
    intro m e
    unfold logoutHandler
    dsimp only
    split
    all_goals
      next hreply =>
      exact (congrArg (fun r => r.1.link) hreply.symm).trans (link_reply _ _ _ _)
  have hresend : ∀ m e, (resendRequestHandler env fuel m e).engine.link = e.link := by
    intro m e
    unfold resendRequestHandler
    split
    · rfl
    · split
      · rfl
      · exact link_resendLoop ..
  have hreset : ∀ m e, (sequenceResetHandler env m e).engine.link = e.link := by
    intro m e
    unfold sequenceResetHandler
    dsimp only
    split <;> rfl
  simp only [defaultHandlers, List.forall_mem_cons]
  exact ⟨fun _ _ => rfl, hlogout, hresend, hreset, fun _ _ => link_reply _ _ _ _, fun _ _ => rfl,
    by simp⟩

theorem link_process (env : ℕ → Env) (fuel : ℕ) (m : CodedMessage) (e : Engine) :
    (process env fuel m e).engine.link = e.link := by
  unfold process
  dsimp only
  split
  · rfl
  · split
    · next handle hlookup =>
      have hhandle := link_defaultHandlers env fuel _ (mem_of_lookup hlookup)
      unfold withFromAdmin
      dsimp only
      split
      · rfl
      · exact hhandle _ _
    · rfl

/-! ## Steps of an exchange

A delivery takes one frame off and puts those of its replies on the other side.  So the frames of a
kind change by the ones that are in the reply, and it is their number that the two theorems are
about. -/

/-- What happens in an exchange: a frame arrives, or an application sends. -/
inductive ExchangeStep where
  | deliver (p : Peer) (env : ℕ → Env) (fuel : ℕ)
  | send (p : Peer) (env : Env) (m : CodedMessage)

/-- The arrival of a frame at an application that leaves messages readable. -/
def ExchangeStep.TameDelivery : ExchangeStep → Prop
  | .deliver _ env _ => ∀ k, (env k).app.Tame
  | .send _ _ _ => False

/-- The arrival of a frame, and no sending. -/
def ExchangeStep.isDelivery : ExchangeStep → Bool
  | .deliver _ _ _ => true
  | .send _ _ _ => false

/-- An arrival at an application that lets Logouts pass, over a link that takes the reply. -/
def ExchangeStep.Willing : ExchangeStep → Prop
  | .deliver _ env _ =>
      (∀ k, (env k).app.Tame)
        ∧ (∀ m : CodedMessage, m.fields.getD tagMsgType = ascii "5" →
          ((env 0).app.fromAdmin m).2 = none ∧ ((env 0).app.toAdmin m).2 = none)
        ∧ (env 1).takes = true
  | .send _ _ _ => True

namespace Exchange

/-- One step. -/
def step (x : Exchange) : ExchangeStep → Option Exchange
  | .deliver p env fuel => x.deliver p env fuel
  | .send p env m => some (x.send p env m)

variable {p : Peer} {x y : Exchange}

/-- **What a delivery does**: the frame is gone, its replies are on their way. -/
theorem deliver_cases {env : ℕ → Env} {fuel : ℕ} (h : x.deliver p env fuel = some y) :
    ∃ b rest new, x.toward p = b :: rest
      ∧ y.toward = Function.update (Function.update x.toward p rest) p.other
        (x.toward p.other ++ new)
      ∧ ((received b = none ∧ new = [] ∧ y.engine = x.engine)
        ∨ ∃ m, received b = some m ∧ new = replies env fuel m (x.engine p)
          ∧ y.engine = Function.update x.engine p (process env fuel m (x.engine p)).engine) := by
  have hother : p.other ≠ p := by cases p <;> decide
  unfold deliver at h
  split at h
  · cases h
  · next b rest htoward =>
    split at h
    · next hnone =>
      cases h
      refine ⟨b, rest, [], htoward, ?_, Or.inl ⟨hnone, rfl, rfl⟩⟩
      rw [List.append_nil, ← Function.update_of_ne hother rest x.toward, Function.update_eq_self]
    · next m hm =>
      obtain ⟨-, rfl⟩ := Runs.of_guarded h
      exact ⟨b, rest, _, htoward, rfl, Or.inr ⟨m, hm, rfl, rfl⟩⟩

/-- **The frames of a kind on their way**: one fewer if the one that arrived is, and those among its
replies. -/
theorem count_deliver {b : Bytes} {rest new : List Bytes} (P : Bytes → Bool)
    (hb : x.toward p = b :: rest) (hy : y.toward = Function.update (Function.update x.toward p rest)
      p.other (x.toward p.other ++ new)) :
    y.count P + (if P b then 1 else 0) = x.count P + new.countP P := by
  rw [count, count, hy]
  cases p with
  | initiator =>
    rw [hb]
    simp only [Peer.other, Function.update_self, ne_eq, reduceCtorEq, not_false_eq_true,
      Function.update_of_ne, List.countP_append, List.countP_cons]
    omega
  | acceptor =>
    rw [hb]
    simp only [Peer.other, Function.update_self, ne_eq, reduceCtorEq, not_false_eq_true,
      Function.update_of_ne, List.countP_append, List.countP_cons]
    omega

/-- A frame on its way counts. -/
theorem count_pos {P : Bytes → Bool} {b : Bytes} (hb : b ∈ x.toward p) (h : P b = true) :
    0 < x.count P := by
  have hpos : 0 < (x.toward p).countP P := List.countP_pos_iff.mpr ⟨b, hb, h⟩
  rw [count]
  cases p with
  | initiator => exact Nat.add_pos_left hpos _
  | acceptor => exact Nat.add_pos_right _ hpos

/-- **A delivery without Logouts**: none appears, and there are fewer requests, or as many of them
and fewer frames.  Only a Logout is answered with a Logout. -/
theorem deliver_descends {env : ℕ → Env} (happ : ∀ k, (env k).app.Tame) {fuel : ℕ}
    (hx : x.logouts = 0) (h : x.deliver p env fuel = some y) :
    y.logouts = 0 ∧ toLex (y.requests, y.count fun _ => true)
      < toLex (x.requests, x.count fun _ => true) := by
  obtain ⟨b, rest, new, hb, hy, hcase⟩ := deliver_cases h
  have hlogouts := count_deliver (fun b => frameType b = ascii "5") hb hy
  have hrequests := count_deliver (fun b => frameType b ∈ [ascii "1", ascii "2"]) hb hy
  have htotal := count_deliver (fun _ => true) hb hy
  change y.logouts + _ = x.logouts + _ at hlogouts
  change y.requests + _ = x.requests + _ at hrequests
  have hnone : ∀ b' ∈ new, frameType b' ∉ [ascii "5", ascii "1", ascii "2"]
      ∧ frameType b ∈ [ascii "1", ascii "2"] := by
    rcases hcase with ⟨-, rfl, -⟩ | ⟨m, hm, rfl, -⟩
    · exact fun b' hb' => absurd hb' List.not_mem_nil
    · intro b' hb'
      rw [frameType_received hm]
      rcases frameType_replies happ (simple_received hm) hb' with ⟨h5, -⟩ | ⟨htype, hnot⟩
      · have hpos : 0 < x.logouts := count_pos (hb ▸ List.mem_cons_self)
          (decide_eq_true ((frameType_received hm).trans h5))
        omega
      · exact ⟨hnot, htype⟩
  have hzero : ∀ P : Bytes → Prop, (∀ t, P t → t ∈ [ascii "5", ascii "1", ascii "2"]) →
      ∀ [DecidablePred P], (new.countP fun b => P (frameType b)) = 0 := by
    intro P hP _
    refine List.countP_eq_zero.mpr fun b' hb' htrue => ?_
    exact (hnone b' hb').1 (hP _ (of_decide_eq_true htrue))
  rw [hx, hzero (· = ascii "5") (by simp)] at hlogouts
  rw [hzero (· ∈ [ascii "1", ascii "2"]) (by simp)] at hrequests
  refine ⟨by omega, ?_⟩
  rw [Prod.Lex.toLex_lt_toLex]
  by_cases htype : frameType b ∈ [ascii "1", ascii "2"]
  · rw [if_pos (decide_eq_true htype)] at hrequests
    left
    dsimp only
    omega
  · have hnil : new = [] := by
      cases new with
      | nil => rfl
      | cons b' new => exact absurd (hnone b' List.mem_cons_self).2 htype
    rw [if_neg (by simpa using htype)] at hrequests
    rw [hnil] at htotal
    right
    dsimp only
    simp only [List.countP_nil, if_true] at htotal
    omega

/-- The same, of a step of an exchange. -/
theorem step_descends {a : ExchangeStep} (ha : a.TameDelivery) (hx : x.logouts = 0)
    (h : step x a = some y) :
    y.logouts = 0 ∧ toLex (y.requests, y.count fun _ => true)
      < toLex (x.requests, x.count fun _ => true) := by
  cases a with
  | deliver p env fuel => exact deliver_descends ha hx h
  | send p env m => exact ha.elim

/-- **Where no Logout is on its way, the deliveries come to an end**, in whatever order the frames
arrive. -/
theorem exchange_settles (x : Exchange) (hx : x.logouts = 0) :
    Acc (fun y x => ∃ a : ExchangeStep, a.TameDelivery ∧ step x a = some y) x :=
  Runs.acc_of_descent (fun x => x.logouts = 0) wellFounded_lt
    (fun x => toLex (x.requests, x.count fun _ => true))
    (fun _ _ _ hx ha h => step_descends ha hx h) hx

/-- Two engines with a frame on its way to the initiator. -/
def between (b : Bytes) : Exchange where
  engine _ := engineOn .opened
  toward
    | .initiator => [b]
    | .acceptor => []

/-- An exchange that starts with a TestRequest ends. -/
theorem exchange_settles_test :
    Acc (fun y x => ∃ a : ExchangeStep, a.TameDelivery ∧ step x a = some y)
      (between (ascii "8=FIX.4.4\x0135=1\x0149=T\x0156=S\x01112=id\x01")) :=
  exchange_settles _ (by decide)

/-- Both engines can send. -/
def Connected (x : Exchange) : Prop := ∀ p, (x.engine p).link ≠ .absent

/-- A step keeps the engines connected. -/
theorem Connected.step {a : ExchangeStep} (hx : x.Connected) (h : step x a = some y) :
    y.Connected := by
  cases a with
  | deliver q env fuel =>
    obtain ⟨b, rest, new, -, -, ⟨-, -, he⟩ | ⟨m, -, -, he⟩⟩ := deliver_cases h
    · exact fun p => he ▸ hx p
    · intro p
      rw [he]
      by_cases hp : p = q
      · subst hp
        rw [Function.update_self, link_process]
        exact hx p
      · rw [Function.update_of_ne hp]
        exact hx p
  | send q env m =>
    cases h
    intro p
    unfold send
    dsimp only
    by_cases hp : p = q
    · subst hp
      rw [Function.update_self, link_sendMessage]
      exact hx p
    · rw [Function.update_of_ne hp]
      exact hx p

/-- **A willing delivery keeps the number of Logouts.** -/
theorem logouts_deliver (hx : x.Connected) {env : ℕ → Env} {fuel : ℕ}
    (ha : (ExchangeStep.deliver p env fuel).Willing) (h : x.deliver p env fuel = some y) :
    y.logouts = x.logouts := by
  obtain ⟨happ, hpass, htakes⟩ := ha
  obtain ⟨b, rest, new, hb, hy, hcase⟩ := deliver_cases h
  have hcount := count_deliver (fun b => frameType b = ascii "5") hb hy
  change y.logouts + _ = x.logouts + _ at hcount
  rcases hcase with ⟨hnone, rfl, -⟩ | ⟨m, hm, rfl, -⟩
  · rw [if_neg (by simp [frameType, hnone, ascii])] at hcount
    exact hcount
  · have hsimple := simple_received hm
    have htypes := fun b' => @frameType_replies env happ m hsimple fuel (x.engine p) b'
    rw [frameType_received hm] at hcount
    by_cases h5 : m.fields.getD tagMsgType = ascii "5"
    · obtain ⟨b', hb'⟩ := @replies_logout env happ m hsimple h5 (hpass m h5).1
        (fun out hout => (hpass out hout).2) fuel (x.engine p) ⟨htakes, hx p⟩
      rcases htypes b' (hb' ▸ List.mem_singleton.mpr rfl) with ⟨-, h5'⟩ | ⟨htype, -⟩
      · rw [if_pos (decide_eq_true h5), hb', List.countP_cons, if_pos (decide_eq_true h5'),
          List.countP_nil] at hcount
        omega
      · rw [h5] at htype
        exact absurd htype (by decide)
    · have hzero : (replies env fuel m (x.engine p)).countP (fun b => frameType b = ascii "5")
          = 0 := by
        refine List.countP_eq_zero.mpr fun b' hb' htrue => ?_
        rcases htypes b' hb' with ⟨h, -⟩ | ⟨-, hnot⟩
        · exact h5 h
        · exact hnot (by simp [of_decide_eq_true htrue])
      rw [if_neg (by simpa using h5), hzero] at hcount
      exact hcount

/-- **A Logout that is on its way never comes to rest**: in no run of willing engines are there
fewer of them than before, and deliveries alone keep their number. -/
theorem logouts_never_end {as : List ExchangeStep} (hx : x.Connected) (has : ∀ a ∈ as, a.Willing)
    (hrun : Runs.run step x as = some y) :
    x.logouts ≤ y.logouts
      ∧ ((∀ a ∈ as, a.isDelivery = true) → y.logouts = x.logouts) := by
  induction as generalizing x with
  | nil =>
    cases hrun
    exact ⟨le_refl _, fun _ => rfl⟩
  | cons a as ih =>
    obtain ⟨z, hz, hrest⟩ := Runs.run_cons_eq_some.mp hrun
    obtain ⟨hle, heq⟩ := ih (hx.step hz) (fun a' ha' => has a' (List.mem_cons_of_mem _ ha')) hrest
    have ha := has a List.mem_cons_self
    cases a with
    | deliver p env fuel =>
      have hkept := logouts_deliver hx ha hz
      exact ⟨hkept ▸ hle, fun h => hkept ▸ heq fun a' ha' => h a' (List.mem_cons_of_mem _ ha')⟩
    | send p env m =>
      refine ⟨le_trans ?_ hle, fun h => absurd (h _ List.mem_cons_self) Bool.false_ne_true⟩
      cases hz
      cases p with
      | initiator =>
        exact Nat.add_le_add_left (List.countP_append ▸ Nat.le_add_right _ _) _
      | acceptor =>
        exact Nat.add_le_add_right (List.countP_append ▸ Nat.le_add_right _ _) _

/-- A Logout that comes in is on its way back. -/
theorem logouts_never_end_once : ∃ y,
    (between (ascii "8=FIX.4.4\x0135=5\x0149=T\x0156=S\x01")).deliver .initiator
      (fun _ => Outbound.calm) 0 = some y ∧ y.logouts = 1 := by
  have hsome : ((between (ascii "8=FIX.4.4\x0135=5\x0149=T\x0156=S\x01")).deliver .initiator
      (fun _ => Outbound.calm) 0).isSome = true := by decide
  obtain ⟨y, hy⟩ := Option.isSome_iff_exists.mp hsome
  have hrun : Runs.run step (between (ascii "8=FIX.4.4\x0135=5\x0149=T\x0156=S\x01"))
      [.deliver .initiator (fun _ => Outbound.calm) 0] = some y :=
    Runs.run_cons_eq_some.mpr ⟨y, hy, rfl⟩
  have hwilling : ∀ a ∈ [ExchangeStep.deliver .initiator (fun _ => Outbound.calm) 0],
      a.Willing :=
    List.forall_mem_singleton.mpr ⟨fun _ => tame_noOp, fun _ _ => ⟨rfl, rfl⟩, rfl⟩
  refine ⟨y, hy, ((logouts_never_end (fun p => ?_) hwilling hrun).2 ?_).trans ?_⟩
  · cases p <;> decide
  · exact List.forall_mem_singleton.mpr rfl
  · decide

end Exchange

end FixMsg
