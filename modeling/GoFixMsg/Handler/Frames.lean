import GoFixMsg.Handler.ToAdmin
import GoFixMsg.Session.Delivery

/-!
# Handler/Frames — whatever an engine sends can be told apart again

The bytes of the frames follow one another on the wire, and the read loop of the peer has nothing
but the bytes to find the frames in.  It does find them, however they arrive: what the engine makes
itself has a BeginString and tags in range, `SendMessage` and the resend loop leave both to a
message that has them, and so all that a run sends are whole frames (`sent_reads_back`).

The conditions are on what comes from outside: the messages that the program gives to `SendMessage`,
what the application makes of them, and what can be read of the store.  A SOH in BeginString would
end the field early, a tag out of range would not be read back, and another separator makes no
frame.
-/

open GoLang

namespace FixMsg

/-- A message that goes out as a whole frame: a BeginString without SOH, tags in range, and SOH as
the separator. -/
structure CodedMessage.Framable (m : CodedMessage) : Prop where
  begins : ∃ v, m.fields.get tagBeginString = some v ∧ SohFree v
  tags : m.fields.AllTags InTagRange
  codec : ∀ c ∈ m.codec, c.separator = soh

/-- An application that leaves BeginString and the range of the tags to the messages it is asked
about. -/
structure Application.KeepsFramable (app : Application) : Prop where
  toApp : ∀ m, m.Framable → (app.toApp m).1.Framable
  toAdmin : ∀ m, m.Framable → (app.toAdmin m).1.Framable

theorem keepsFramable_noOp : noOpApplication.KeepsFramable := ⟨fun _ h => h, fun _ h => h⟩

/-- What can be read of the messages stored has a BeginString, and tags in range. -/
def SeqManager.StoresFramable (s : SeqManager) : Prop :=
  ∀ key row f, s.messages key = some row → defaultParse row.body = .ok f →
    (∃ v, f.get tagBeginString = some v) ∧ f.AllTags InTagRange

namespace CodedMessage

variable {m : CodedMessage}

/-! ## The messages the engine makes -/

theorem Framable.set (h : m.Framable) {tag : ℤ} [IntTag tag] (hne : tagBeginString ≠ tag)
    (htag : InTagRange tag) (value : Bytes) : (m.set tag value).Framable := by
  obtain ⟨⟨v, hv, hsoh⟩, htags, hcodec⟩ := h
  exact ⟨⟨v, (FixFragment.get_set_of_ne _ hne _).trans hv, hsoh⟩, htags.set htag value, hcodec⟩

theorem Framable.setIfMissing (h : m.Framable) {tag : ℤ} [IntTag tag] (hne : tagBeginString ≠ tag)
    (htag : InTagRange tag) (value : Bytes) : (m.setIfMissing tag value).Framable := by
  unfold CodedMessage.setIfMissing
  split
  · exact h
  · exact h.set hne htag value

theorem Framable.setLenAndChecksum (h : m.Framable) (ρ : SortSlice) :
    (m.setLenAndChecksum ρ).Framable := by
  unfold CodedMessage.setLenAndChecksum FixMsg.setLenAndChecksum
  cases buildBody ρ m.fields with
  | error f => exact h
  | ok body =>
    obtain ⟨⟨v, hv, hsoh⟩, htags, hcodec⟩ := h
    exact ⟨⟨v, (get_stampBody (by decide) (by decide)).trans hv, hsoh⟩, AllTags.stampBody htags body,
      hcodec⟩

theorem framable_adminHeader (msgType sender target : Bytes) :
    (adminHeader msgType sender target).Framable := by
  have hbegins : (CodedMessage.empty.set tagBeginString (ascii "FIX.4.4")).Framable :=
    ⟨⟨ascii "FIX.4.4", by decide, by decide⟩, by decide, nofun⟩
  exact ((hbegins.set (by decide) (by decide) _).set (by decide) (by decide) _).set (by decide)
    (by decide) _

theorem framable_gapFillMessage (ρ : SortSlice) (sender target : Bytes) (seq : ℤ) :
    (gapFillMessage ρ sender target seq).Framable := by
  have hmade : (newSequenceResetMessage ρ target sender (int64 (seq + 1)) true).Framable :=
    (((framable_adminHeader _ _ _).set (by decide) (by decide) _).set (by decide) (by decide)
      _).setLenAndChecksum ρ
  exact (hmade.set (by decide) (by decide) _).set (by decide) (by decide) _

/-- A stored message that is replayed keeps its BeginString. -/
theorem Framable.replayMessage (h : m.Framable) (now : Timestamp) :
    (replayMessage now m).Framable := by
  have hcopied : ∀ m : CodedMessage, m.Framable → (copySendingTime m).Framable := by
    intro m h
    unfold copySendingTime
    split
    · split
      · exact h
      · exact h.set (by decide) (by decide) _
    · exact h
  exact (hcopied _ (h.set (by decide) (by decide) _)).set (by decide) (by decide) _

/-- `SendMessage` stamps four tags, none of which is BeginString. -/
theorem Framable.stamped (h : m.Framable) (env : Env) (e : Engine) :
    (stamped env m e).Framable := by
  rw [FixMsg.stamped, stampSendingTime, message_drawSeqNum, stampCompIDs]
  exact (((h.setIfMissing (by decide) (by decide) _).setIfMissing (by decide) (by decide)
    _).setIfMissing (by decide) (by decide) _).setIfMissing (by decide) (by decide) _

/-- What the store has can be framed, if it can be read. -/
theorem framable_loaded {stored : StoredMessage} {m : CodedMessage} {s : SeqManager}
    (hs : s.StoresFramable) {d : Driver} {sender target : Bytes} {seq : ℤ}
    (hfound : lookup d sender target seq s = some stored)
    (hparse : defaultParse stored.body = .ok m.fields) (hcodec : m.codec = none) : m.Framable := by
  obtain ⟨row, hrow, hbody⟩ := messages_of_lookup hfound
  rw [← hbody] at hparse
  obtain ⟨⟨v, hv⟩, htags⟩ := hs _ row _ hrow hparse
  have hsimple : m.Simple := ⟨parsed_defaultParse hparse, hcodec⟩
  refine ⟨⟨v, hv, hsimple.sohFree hv⟩, htags, ?_⟩
  rw [hcodec]
  exact nofun

end CodedMessage

/-! ## What is queued of them

The dispatches of a step say what is queued and of which message.  Each is framed if its message is,
with the application in between. -/

/-- What is queued of a message is a whole frame.  The length of a Go slice is an `int`. -/
def Dispatch.Framed (d : Dispatch) : Prop :=
  ∀ m b, d.queued = some (m, b) → b.length < 2 ^ 63 → IsFrame b

section Queued

variable {env : Env} {e : Engine} {m m' : CodedMessage} {b : Bytes}

theorem isFrame_queueFrame (h : m.Framable) (hq : queueFrame env m e = some (m', b))
    (hlen : b.length < 2 ^ 63) : IsFrame b := by
  obtain ⟨⟨v, hv, hsoh⟩, htags, hcodec⟩ := h
  unfold queueFrame at hq
  split at hq
  · cases hq
  · next hwire =>
    obtain ⟨-, heq⟩ := Option.ite_none_right_eq_some.mp hq
    cases heq
    exact isFrame_toWire (wireSep_eq_soh hcodec) hv hsoh htags (congrArg Prod.snd hwire) hlen

theorem isFrame_queueSend (happ : env.app.KeepsFramable) (h : m.Framable)
    (hq : queueSend env m e = some (m', b)) (hlen : b.length < 2 ^ 63) : IsFrame b := by
  have hstamped := h.stamped env e
  unfold queueSend at hq
  split at hq
  · cases hq
  · next m'' hask =>
    refine isFrame_queueFrame (m := m'') ?_ hq hlen
    unfold askToApp at hask
    split at hask
    · have hkept := happ.toApp _ hstamped
      rw [hask] at hkept
      exact hkept
    · cases hask
      exact hstamped

/-- A message that the application lets pass goes on as it left it. -/
theorem framed_gatedDispatch {origin : Origin} {app : Application} (happ : app.KeepsFramable)
    (h : m.Framable) {queue : CodedMessage → Option (CodedMessage × Bytes)}
    (hqueue : ∀ m' : CodedMessage, m'.Framable → ∀ m'' b, queue m' = some (m'', b) →
      b.length < 2 ^ 63 → IsFrame b) : (gatedDispatch origin app m queue).Framed := by
  intro m'' b hq hlen
  have hkept := happ.toAdmin m h
  unfold gatedDispatch at hq
  dsimp only at hq
  split at hq
  · cases hq
  · next m' hout =>
    rw [hout] at hkept
    exact hqueue m' hkept m'' b hq hlen

theorem framed_replyDispatch {consent send : Env} (hconsent : consent.app.KeepsFramable)
    (hsend : send.app.KeepsFramable) {out : CodedMessage} (h : out.Framable) (e : Engine) :
    (replyDispatch consent send out e).Framed :=
  framed_gatedDispatch hconsent h fun _ h' _ _ hq hlen => isFrame_queueSend hsend h' hq hlen

/-- **What a pass of the resend loop queues is a whole frame**, be it a gap fill or a replay. -/
theorem framed_passDispatch (happ : env.app.KeepsFramable) {sender target : Bytes} {seq : ℤ}
    {s : SeqManager} (hs : s.StoresFramable) (d : Driver) (e : Engine) :
    (passDispatch env sender target seq e (lookup d sender target seq s)).Framed := by
  have hgap := CodedMessage.framable_gapFillMessage env.ρ sender target seq
  have hfill : (fillGapDispatch env sender target seq e).Framed :=
    framed_gatedDispatch happ hgap fun _ h' _ _ hq hlen => isFrame_queueFrame h' hq hlen
  cases hfound : lookup d sender target seq s with
  | none => exact hfill
  | some stored =>
    rcases CodedMessage.loadFix_eq stored.body with ⟨err, -, hload⟩ | ⟨m, hparse, hload, hcodec⟩
    · rw [passDispatch, hload]
      exact fun _ _ hq hlen => isFrame_queueFrame hgap hq hlen
    · rw [passDispatch, hload]
      dsimp only
      split
      · exact hfill
      · have hm := CodedMessage.framable_loaded hs hfound hparse hcodec
        exact fun _ _ hq hlen => isFrame_queueFrame (hm.replayMessage env.now) hq hlen

end Queued

theorem framed_loopDispatches {env : ℕ → Env} (happ : ∀ k, (env k).app.KeepsFramable)
    {sender target : Bytes} {ei : ℤ} {fuel k : ℕ} {seq : ℤ} {e : Engine}
    (hs : e.seqMgr.StoresFramable) :
    ∀ d ∈ loopDispatches env sender target ei fuel k seq e, d.Framed := by
  induction fuel generalizing k seq e with
  | zero => exact fun _ hd => absurd hd List.not_mem_nil
  | succ fuel ih =>
    rw [loopDispatches]
    split
    · refine List.forall_mem_cons.mpr ⟨framed_passDispatch (happ k) hs _ e, ih ?_⟩
      rw [seqMgr_afterPass]
      exact hs
    · exact fun _ hd => absurd hd List.not_mem_nil

/-- **What the handlers send are whole frames.** -/
theorem framed_processDispatches {env : ℕ → Env} (happ : ∀ k, (env k).app.KeepsFramable) {fuel : ℕ}
    {m : CodedMessage} {e : Engine} (hs : e.seqMgr.StoresFramable) :
    ∀ d ∈ processDispatches env fuel m e, d.Framed := by
  have hnone : ∀ d ∈ ([] : List Dispatch), d.Framed := fun _ hd => absurd hd List.not_mem_nil
  have hmade : ∀ msgType sender target : Bytes,
      ((adminHeader msgType sender target).setLenAndChecksum (env 0).ρ).Framable :=
    fun _ _ _ => (CodedMessage.framable_adminHeader _ _ _).setLenAndChecksum _
  unfold processDispatches
  split
  · exact hnone
  · unfold handlerDispatches
    dsimp only
    split
    · exact List.forall_mem_singleton.mpr
        (framed_replyDispatch (happ 0) (happ 1) (hmade _ _ _) _)
    · split
      · split
        · exact hnone
        · split
          · exact hnone
          · exact framed_loopDispatches (fun k => happ (k + 1)) hs
      · split
        · refine List.forall_mem_singleton.mpr (framed_replyDispatch (happ 0) (happ 1) ?_ _)
          split
          · exact hmade _ _ _
          · exact (hmade _ _ _).set (by decide) (by decide) _
        · exact hnone

/-! ## A run -/

/-- An event whose messages can be framed. -/
def TimedEvent.Framing : TimedEvent → Prop
  | .event (.send env m) => m.Framable ∧ env.app.KeepsFramable
  | .event (.receive env _ _) => ∀ k, (env k).app.KeepsFramable
  | .event _ => True
  | .heartbeat env | .testRequest env _ => env.app.KeepsFramable

/-- **What an event sends are whole frames.** -/
theorem framed_dispatches {e : Engine} (hs : e.seqMgr.StoresFramable) {x : TimedEvent}
    (hx : x.Framing) : ∀ d ∈ e.dispatches x, d.Framed := by
  have hmade : ∀ msgType sender target : Bytes,
      (adminHeader msgType sender target).Framable := CodedMessage.framable_adminHeader
  have hsent : ∀ {env : Env} {m : CodedMessage} {origin : Origin}, env.app.KeepsFramable →
      m.Framable → ∀ d ∈ [Dispatch.mk origin m [] (queueSend env m e)], d.Framed :=
    fun happ hm => List.forall_mem_singleton.mpr fun _ _ hq hlen => isFrame_queueSend happ hm hq hlen
  cases x with
  | heartbeat env => exact hsent hx ((hmade _ _ _).setLenAndChecksum _)
  | testRequest env nanos =>
    exact hsent hx (((hmade _ _ _).set (by decide) (by decide) _).setLenAndChecksum _)
  | event x =>
    cases x with
    | send env m => exact hsent hx.2 hx.1
    | receive env fuel m => exact framed_processDispatches hx hs
    | attach | detach | setNumber | restart => exact fun _ hd => absurd hd List.not_mem_nil

namespace Engine

/-- **An event sends whole frames only.** -/
theorem sent_handleTimed {e : Engine} (hs : e.seqMgr.StoresFramable) {x : TimedEvent}
    (hx : x.Framing) : ∃ new, (e.handleTimed x).sent = e.sent ++ new
      ∧ ∀ b ∈ new, b.length < 2 ^ 63 → IsFrame b := by
  refine ⟨_, (follows_handle e x).sent, fun b hb hlen => ?_⟩
  obtain ⟨d, hd, hqueued⟩ := List.mem_flatMap.mp hb
  rw [Option.mem_toList, Option.map_eq_some_iff] at hqueued
  obtain ⟨⟨m, b'⟩, hqueued, rfl⟩ := hqueued
  exact framed_dispatches hs hx d hd m b' hqueued hlen

theorem messages_handleTimed (e : Engine) (x : TimedEvent) :
    (e.handleTimed x).seqMgr.messages = e.seqMgr.messages := by
  cases x with
  | event x => exact messages_handle e x
  | heartbeat env => exact messages_sendMessage env _ e
  | testRequest env nanos => exact messages_sendMessage env _ e

/-- **The read loop of the peer finds the frames again**: over every run of an engine, in whatever
pieces the bytes of all it sends arrive, they are cut into the frames it sent, in their order. -/
theorem sent_reads_back {e e' : Engine} {events : List TimedEvent} (hnew : e.sent = [])
    (hs : e.seqMgr.StoresFramable) (hevents : ∀ x ∈ events, x.Framing)
    (hrun : Runs.run timedStep e events = some e') (hlen : ∀ b ∈ e'.sent, b.length < 2 ^ 63)
    (w : Receivers) {reads : List ReadResult} (hup : StaysUp reads)
    (hreads : stream reads = e'.sent.flatten) :
    (readLoop w [] reads).1 = e'.sent.flatMap (dispatch w) := by
  have hframes : ∀ b ∈ e'.sent, b.length < 2 ^ 63 → IsFrame b := by
    have hstart : ∀ b ∈ e.sent, b.length < 2 ^ 63 → IsFrame b := by
      rw [hnew]
      exact fun _ hb => absurd hb List.not_mem_nil
    refine (Runs.run_invariant
      (fun e => e.seqMgr.StoresFramable ∧ ∀ b ∈ e.sent, b.length < 2 ^ 63 → IsFrame b)
      (fun e x e' ⟨hs, hsent⟩ hx hstep => ?_) ⟨hs, hstart⟩
      (Runs.meets_of_forall (fun x hx _ => hevents x hx) e) hrun).2
    obtain rfl := Option.some.inj hstep
    obtain ⟨new, hnew, hwhole⟩ := sent_handleTimed hs hx
    refine ⟨?_, ?_⟩
    · intro key row f hrow
      rw [messages_handleTimed] at hrow
      exact hs key row f hrow
    · rw [hnew]
      exact List.forall_mem_append.mpr ⟨hsent, hwhole⟩
  have hself : ∀ b ∈ e'.sent, Framing.SelfFraming scanFrame b := fun b hb =>
    selfFraming_of_isFrame (hframes b hb (hlen b hb)) (hlen b hb)
  refine readLoop_events w hup (Framing.feed_flatten hself rfl ?_ ?_)
  · exact fun b hb => (hself b (List.mem_of_mem_head? hb)).pos
  · rw [List.nil_append, flatten_chunks, hreads]

end Engine

theorem storesFramable_engineOn : (engineOn .opened).seqMgr.StoresFramable := fun _ _ _ h => by
  cases h

/-- An engine sends a message with a group, and a heartbeat, and answers a ResendRequest. -/
def sendThree : List TimedEvent :=
  [.event (.send Outbound.calm ⟨partyMessage, none⟩), .heartbeat Outbound.calm,
    .event (.receive (fun _ => Outbound.calm) 2 (resendRequest (ascii "1") (ascii "1")))]

/-- Byte by byte, the peer gets all three. -/
theorem sent_reads_back_bytewise :
    ∃ e, Runs.run Engine.timedStep (engineOn .opened) sendThree = some e ∧ e.sent.length = 3
      ∧ (readLoop ⟨true, false⟩ [] (e.sent.flatten.map fun b => ⟨[b], none⟩)).1
        = e.sent.flatMap (dispatch ⟨true, false⟩) := by
  have hmessage : CodedMessage.Framable ⟨partyMessage, none⟩ :=
    ⟨⟨ascii "F", by decide, by decide⟩, by decide, nofun⟩
  have hevents : ∀ x ∈ sendThree, x.Framing :=
    List.forall_mem_cons.mpr ⟨⟨hmessage, keepsFramable_noOp⟩, List.forall_mem_cons.mpr
      ⟨keepsFramable_noOp, List.forall_mem_singleton.mpr fun _ => keepsFramable_noOp⟩⟩
  have hsent : ∀ e, Runs.run Engine.timedStep (engineOn .opened) sendThree = some e →
      e.sent.length = 3 ∧ ∀ b ∈ e.sent, b.length < 2 ^ 63 := by
    rintro _ ⟨⟩
    decide +kernel
  refine ⟨_, rfl, (hsent _ rfl).1, Engine.sent_reads_back rfl storesFramable_engineOn hevents rfl
    (hsent _ rfl).2 _ (fun r hr => ?_) ?_⟩
  · obtain ⟨b, -, rfl⟩ := List.mem_map.mp (List.dropLast_subset _ hr)
    exact Or.inl rfl
  · rw [stream, List.flatMap_map]
    exact List.flatMap_singleton' _

end FixMsg
