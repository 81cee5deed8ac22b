import GoFixMsg.Engine.Resendable
import GoFixMsg.Engine.Validator
import GoFixMsg.Session.Delivery

/-!
# Engine/Acceptable — can the peer accept what `SendMessage` accepts?

`SendMessage` stamps CompIDs, MsgSeqNum and SendingTime, and `ToWire` BodyLength and CheckSum.  That
leaves two of the mandatory tags, BeginString and MsgType: a message without one of them is neither
completed nor refused, and goes out as a frame the peer cannot accept (`acceptable_iff`).

Accepting a frame is two things: the framer of the peer cuts it out whole, and `ValidateMessage`
finds the mandatory tags on what `Process` has made of it.  The message may have been changed on the
way by `ToApp`, so the condition is on what `ToApp` leaves.
-/

open GoLang

namespace FixMsg

/-- **The peer accepts a frame**: its framer takes it whole, and it parses to a message that holds
the mandatory tags. -/
def PeerAccepts (b : Bytes) : Prop :=
  findBodyLengthFrameEnd b = .ok b.length
    ∧ ∃ f, (Codec.new none).parse b = .ok f ∧ validateMandatory f = none

/-- A message of SOH-free strings under tags in range. -/
structure CodedMessage.StringsInRange (m : CodedMessage) : Prop where
  parsed : m.fields.Parsed
  tags : m.fields.AllTags InTagRange

/-- The tags a message must have before `ToWire` for the peer to accept it. -/
def headerOnWire : List ℤ :=
  [tagBeginString, tagMsgType, tagSenderCompID, tagTargetCompID, tagMsgSeqNum, tagSendingTime]

/-- **The condition**: the message has all of them, and separates its fields by `SOH`. -/
structure CodedMessage.HeaderComplete (m : CodedMessage) : Prop where
  tags : ∀ t ∈ headerOnWire, t ∈ m.fields.tags
  separator : wireSep m.codec = soh

/-! ## What the peer makes of a frame

The peer splits at SOH and checks no dictionary here.  On a wire with another separator its framer
finds no frame; otherwise the tags it reads are those of the message. -/

/-- **The peer accepts the wire of a message exactly if the message has the header and separates by
`SOH`.**  With another separator the framer finds no frame. -/
theorem CodedMessage.StringsInRange.peerAccepts_iff {m : CodedMessage} (h : m.StringsInRange)
    {σ τ : SortSlice} {b : Bytes} (hwire : (m.toWire σ τ).2 = .ok b) (hlen : b.length < 2 ^ 63) :
    PeerAccepts b ↔ m.HeaderComplete := by
  obtain ⟨body, hout, -, hsoh, hint⟩ := toWire_fields σ τ m.codec h.parsed.flat.plain h.parsed.values
  obtain ⟨hflat, hwf, -⟩ := h.parsed.stampBody body
  have hb : b = wireText (wireSep m.codec) (writtenFields τ (stampBody m.fields body)) :=
    (Except.ok.inj (hout.symm.trans hwire)).symm
  by_cases hsep : wireSep m.codec = soh
  swap
  · refine ⟨?_, fun hcomplete => absurd hcomplete.separator hsep⟩
    rintro ⟨hframe, -⟩
    rcases frameEnd_cases b with hnone | ⟨v, s, rest, -, -, heq⟩
    · rw [hnone] at hframe
      exact absurd (Except.ok.inj hframe) (by omega)
    · refine absurd ?_ (hb ▸ sohFree_wireText hsep hsoh)
      rw [heq, headText]
      simp
  have hparse : (Codec.new none).parse b = .ok (stampBody m.fields body) := by
    rw [hb, hsep, parse_wireText hsoh hint, setFields_writtenFields hflat hwf.sorted]
  constructor
  · rintro ⟨-, f, hf, hvalid⟩
    rw [hparse] at hf
    cases hf
    exact ⟨validateMandatory_stampBody.mp hvalid, hsep⟩
  · rintro ⟨htags, -⟩
    refine ⟨?_, _, hparse, validateMandatory_stampBody.mpr htags⟩
    obtain ⟨v, hv⟩ := h.parsed.flat.get (htags tagBeginString List.mem_cons_self)
    have hv_soh : SohFree v := h.parsed.values _ (self_mem_fragments _) _
      (Assoc.mem_of_find? (FixFragment.get_eq_some_iff.mp hv)) v rfl
    have hend := frameEnd_of_isFrame (isFrame_toWire hsep hv hv_soh h.tags hwire hlen) hlen []
    rwa [List.append_nil] at hend

/-! ## What `SendMessage` stamps

The four fields are stamped only where they are missing, before `ToApp` is asked.  So every message
has them there, and what is asked of the application is that it takes none of them away. -/

theorem CodedMessage.mem_tags_setIfMissing {m : CodedMessage} {tag t : ℤ} [IntTag tag] {s : Bytes} :
    t ∈ (m.setIfMissing tag s).fields.tags ↔ t = tag ∨ t ∈ m.fields.tags := by
  unfold CodedMessage.setIfMissing
  split
  · next hcontains =>
    refine ⟨Or.inr, fun h => h.elim (fun heq => ?_) id⟩
    rw [heq]
    exact FixFragment.contains_iff.mp hcontains
  · rw [CodedMessage.fields_set]
    exact FixFragment.mem_tags_set

theorem CodedMessage.StringsInRange.setIfMissing {m : CodedMessage} (h : m.StringsInRange) {tag : ℤ}
    [ht : IntTag tag] (hrange : InTagRange tag) {s : Bytes} (hs : SohFree s) :
    (m.setIfMissing tag s).StringsInRange := by
  unfold CodedMessage.setIfMissing
  split
  · exact h
  · exact ⟨h.parsed.set ht.isInt64 hs, h.tags.set hrange s⟩

theorem CodedMessage.codec_setIfMissing (m : CodedMessage) (tag : ℤ) [IntTag tag] (s : Bytes) :
    (m.setIfMissing tag s).codec = m.codec := by
  unfold CodedMessage.setIfMissing
  split <;> rfl

/-- The CompIDs of the engine are SOH-free, as values of a message are. -/
def Engine.SohFreeIDs (e : Engine) : Prop := SohFree e.senderCompID ∧ SohFree e.targetCompID

theorem sohFree_orDefault {text default : Bytes} (h : SohFree text) (h' : SohFree default) :
    SohFree (orDefault text default) := by
  unfold orDefault
  split
  · exact h'
  · exact h

/-- **What `SendMessage` stamps**: four of the header tags, and nothing else. -/
theorem stamped_spec {m : CodedMessage} (h : m.StringsInRange) {e : Engine} (hids : e.SohFreeIDs)
    (env : Env) : (stamped env m e).StringsInRange ∧ (stamped env m e).codec = m.codec
      ∧ ∀ t, t ∈ (stamped env m e).fields.tags ↔
        t ∈ [tagSendingTime, tagMsgSeqNum, tagTargetCompID, tagSenderCompID] ∨ t ∈ m.fields.tags := by
  have hsender : SohFree (orDefault e.senderCompID (ascii "S")) :=
    sohFree_orDefault hids.1 (by decide)
  have htarget : SohFree (orDefault e.targetCompID (ascii "T")) :=
    sohFree_orDefault hids.2 (by decide)
  rw [stamped, message_drawSeqNum, stampCompIDs, stampSendingTime]
  refine ⟨?_, ?_, fun t => ?_⟩
  · exact (((h.setIfMissing (by decide) hsender).setIfMissing (by decide) htarget).setIfMissing
      (by decide) (sohFree_itoa _)).setIfMissing (by decide) env.now.sohFree
  · simp only [CodedMessage.codec_setIfMissing]
  · simp only [CodedMessage.mem_tags_setIfMissing, List.mem_cons, List.not_mem_nil, or_false, or_assoc]

/-- `ToApp` leaves SOH-free strings under tags in range. -/
def Application.KeepsStringsInRange (app : Application) : Prop :=
  ∀ m, m.StringsInRange → (app.toApp m).1.StringsInRange

/-- `ToApp` changes neither which of the header tags a message has nor its codec. -/
def Application.KeepsHeader (app : Application) : Prop :=
  ∀ m, (app.toApp m).1.codec = m.codec
    ∧ ∀ t ∈ headerOnWire, t ∈ (app.toApp m).1.fields.tags ↔ t ∈ m.fields.tags

/-- So does being asked about a message that need not be shown. -/
theorem Application.KeepsStringsInRange.ask {app : Application} (h : app.KeepsStringsInRange)
    {m : CodedMessage} (hm : m.StringsInRange) : (askToApp app m).1.StringsInRange := by
  unfold askToApp
  split
  · exact h m hm
  · exact hm

theorem Application.KeepsHeader.ask {app : Application} (h : app.KeepsHeader) (m : CodedMessage) :
    (askToApp app m).1.codec = m.codec
      ∧ ∀ t ∈ headerOnWire, t ∈ (askToApp app m).1.fields.tags ↔ t ∈ m.fields.tags := by
  unfold askToApp
  split
  · exact h m
  · exact ⟨rfl, fun _ _ => Iff.rfl⟩

/-- **What `SendMessage` accepts the peer can accept exactly if** the message has the header as
`ToApp` leaves it: for an application that does not touch the header, if it has BeginString and
MsgType. -/
theorem acceptable_iff {env : Env} {m : CodedMessage} {e : Engine} {b : Bytes} (hm : m.StringsInRange)
    (hids : e.SohFreeIDs) (happ : env.app.KeepsStringsInRange)
    (hnil : (sendMessage env m e).error = none)
    (hsent : (sendMessage env m e).engine.sent = e.sent ++ [b]) (hlen : b.length < 2 ^ 63) :
    (PeerAccepts b ↔ (askToApp env.app (stamped env m e)).1.HeaderComplete)
      ∧ (env.app.KeepsHeader → (PeerAccepts b ↔ tagBeginString ∈ m.fields.tags
        ∧ tagMsgType ∈ m.fields.tags ∧ wireSep m.codec = soh)) := by
  obtain ⟨m', b', hask, hwire, hsent'⟩ := sendMessage_of_nil hnil
  obtain rfl : b = b' := List.singleton_inj.mp (List.append_cancel_left (hsent.symm.trans hsent'))
  obtain ⟨hstamped, hcodec, htags⟩ := stamped_spec hm hids env
  have hstrings := happ.ask hstamped
  rw [hask] at hstrings
  have hiff := hstrings.peerAccepts_iff hwire hlen
  rw [hask]
  refine ⟨hiff, fun hkeeps => hiff.trans ?_⟩
  have hleft := hkeeps.ask (stamped env m e)
  rw [hask, hcodec] at hleft
  have hkept : ∀ t ∈ headerOnWire, t ∈ m'.fields.tags ↔
      t ∈ [tagSendingTime, tagMsgSeqNum, tagTargetCompID, tagSenderCompID] ∨ t ∈ m.fields.tags :=
    fun t ht => (hleft.2 t ht).trans (htags t)
  rw [← hleft.1]
  constructor
  · rintro ⟨hheader, hsep⟩
    refine ⟨?_, ?_, hsep⟩
    · exact ((hkept _ (by decide)).mp (hheader _ (by decide))).resolve_left (by decide)
    · exact ((hkept _ (by decide)).mp (hheader _ (by decide))).resolve_left (by decide)
  · rintro ⟨h8, h35, hsep⟩
    refine ⟨fun t ht => (hkept t ht).mpr ?_, hsep⟩
    simp only [headerOnWire, List.mem_cons, List.not_mem_nil, or_false] at ht
    rcases ht with rfl | rfl | ht
    · exact Or.inr h8
    · exact Or.inr h35
    · rcases ht with rfl | rfl | rfl | rfl <;> exact Or.inl (by decide)

/-- `NoOpApplication` keeps every message. -/
theorem keeps_noOp : noOpApplication.KeepsStringsInRange ∧ noOpApplication.KeepsHeader :=
  ⟨fun _ h => h, fun _ => ⟨rfl, fun _ _ => Iff.rfl⟩⟩

/-- An order with BeginString and MsgType. -/
theorem acceptable_newOrder : ∃ b, (sendMessage Outbound.calm Outbound.newOrder
    (engineOn .opened)).engine.sent = [b] ∧ PeerAccepts b := by
  have hnil : (sendMessage Outbound.calm Outbound.newOrder (engineOn .opened)).error = none :=
    Option.isNone_iff_eq_none.mp (by decide +kernel)
  obtain ⟨-, b, -, -, hsent⟩ := sendMessage_of_nil hnil
  have hlen : ∀ b ∈ (sendMessage Outbound.calm Outbound.newOrder (engineOn .opened)).engine.sent,
      b.length < 2 ^ 63 := by decide +kernel
  refine ⟨b, hsent, ((acceptable_iff ⟨⟨by decide, by decide, by decide⟩, by decide⟩
    ⟨by decide, by decide⟩ keeps_noOp.1 hnil hsent (hlen b ?_)).2 keeps_noOp.2).mpr
      ⟨by decide, by decide, rfl⟩⟩
  rw [hsent]
  exact List.mem_cons_self

/-- An order without MsgType. -/
def untypedOrder : CodedMessage where
  fields := [(8, .str (ascii "FIX.4.4")), (55, .str (ascii "IBM"))]
  wf := by decide
  codec := none

/-- `SendMessage` accepts it and uses up a number, and the peer cannot accept what goes out. -/
theorem unacceptable_untyped : untypedOrder.StringsInRange
    ∧ (sendMessage Outbound.calm untypedOrder (engineOn .opened)).error = none
    ∧ ∃ b, (sendMessage Outbound.calm untypedOrder (engineOn .opened)).engine.sent = [b]
      ∧ ¬ PeerAccepts b := by
  have hnil : (sendMessage Outbound.calm untypedOrder (engineOn .opened)).error = none :=
    Option.isNone_iff_eq_none.mp (by decide +kernel)
  obtain ⟨-, b, -, -, hsent⟩ := sendMessage_of_nil hnil
  refine ⟨⟨⟨by decide, by decide, by decide⟩, by decide⟩, hnil, b, hsent, ?_⟩
  rintro ⟨-, f, hf, hvalid⟩
  have htags : ∀ b ∈ (sendMessage Outbound.calm untypedOrder (engineOn .opened)).engine.sent,
      ((Codec.new none).parse b).map (FixFragment.contains · tagMsgType) = .ok false := by
    decide +kernel
  have hfalse := htags b (hsent ▸ List.mem_cons_self)
  rw [hf] at hfalse
  have hcontains : f.contains tagMsgType = false := Except.ok.inj hfalse
  have hmem := validateMandatory_eq_none.mp hvalid tagMsgType (by decide)
  rw [← FixFragment.contains_iff, hcontains] at hmem
  cases hmem

end FixMsg
