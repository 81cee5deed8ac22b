import GoFixMsg.Engine.FailedSend
import GoFixMsg.Engine.Validator

/-!
# Handler/Replies — how the replies of the default handlers are headed

A reply by `SendMessage` goes back to the sender of the request and has every mandatory tag, and so
has the replay of a message that has them.  A gap fill has its ids the wrong way round and no
SendingTime.  So the replies are well headed exactly if there is no gap fill among them
(`replies_headed_iff`).

A frame is well headed if it goes from the one to the other and has all mandatory tags.  Two ways
lead out: `SendMessage`, which completes what is missing, and `SessionSend`, which completes
nothing.  The resend loop takes the second for gap fills and for replays alike; a replay brings
along the header it was stored with, and is given a new SendingTime.
-/

open GoLang

namespace FixMsg

/-- A frame from `u` to `p` with every mandatory tag. -/
def WellHeaded (u p : Bytes) (frame : Bytes) : Prop :=
  ∃ f, defaultParse frame = .ok f ∧ f.get tagSenderCompID = some u
    ∧ f.get tagTargetCompID = some p ∧ validateMandatory f = none

/-- What makes the frame of a message well headed. -/
structure Heads (u p : Bytes) (f : FixFragment) : Prop where
  sender : f.get tagSenderCompID = some u
  target : f.get tagTargetCompID = some p
  tags : ∀ t ∈ [tagBeginString, tagMsgType, tagMsgSeqNum, tagSendingTime], t ∈ f.tags

/-- The frame of a simple message is well headed exactly if the message is. -/
theorem CodedMessage.Simple.wellHeaded_iff {m : CodedMessage} (h : m.Simple) {u p : Bytes}
    {σ τ : SortSlice} {out : Bytes} (hout : (m.toWire σ τ).2 = .ok out) :
    WellHeaded u p out ↔ Heads u p m.fields := by
  obtain ⟨body, out', hout', -, hparse⟩ := h.toWire σ τ
  rw [hout] at hout'
  cases hout'
  have hsender : (stampBody m.fields body).get tagSenderCompID = m.fields.get tagSenderCompID :=
    get_stampBody (by decide) (by decide)
  have htarget : (stampBody m.fields body).get tagTargetCompID = m.fields.get tagTargetCompID :=
    get_stampBody (by decide) (by decide)
  constructor
  · rintro ⟨f, hf, h49, h56, hvalid⟩
    rw [hparse] at hf
    cases hf
    rw [validateMandatory_stampBody] at hvalid
    refine ⟨hsender ▸ h49, htarget ▸ h56, fun t ht => hvalid t ?_⟩
    simp only [List.mem_cons, List.not_mem_nil, or_false] at ht ⊢
    rcases ht with rfl | rfl | rfl | rfl <;> simp
  · rintro ⟨h49, h56, htags⟩
    refine ⟨_, hparse, hsender.trans h49, htarget.trans h56, validateMandatory_stampBody.mpr ?_⟩
    have hfrom := FixFragment.mem_tags_of_get h49
    have hto := FixFragment.mem_tags_of_get h56
    simp only [List.forall_mem_cons, List.not_mem_nil, false_implies, implies_true, and_true]
      at htags ⊢
    exact ⟨htags.1, htags.2.1, hfrom, hto, htags.2.2.1, htags.2.2.2⟩

theorem emit_wellHeaded_iff {m : CodedMessage} (h : m.Simple) (u p : Bytes) (env : Env)
    (kind : EmissionKind) (seq : ℤ) :
    (∀ x, emit env kind seq m = some x → WellHeaded u p x.frame) ↔ Heads u p m.fields := by
  obtain ⟨-, out, hout, -, -⟩ := h.toWire env.σ env.τ
  have hemit : emit env kind seq m = some ⟨seq, kind, out⟩ := by
    rw [emit, hout]
  rw [← h.wellHeaded_iff hout]
  constructor
  · exact fun hx => hx _ hemit
  · intro hwell x hx
    rw [hemit] at hx
    cases hx
    exact hwell

/-- `ToAdmin` keeps the header tags. -/
structure Application.KeepsHeaders (app : Application) : Prop where
  simple : ∀ m, m.Simple → (app.toAdmin m).1.Simple
  get : ∀ m, ∀ t ∈ [tagBeginString, tagMsgType, tagSenderCompID, tagTargetCompID, tagSendingTime],
    (app.toAdmin m).1.fields.get t = m.fields.get t

/-! ## Replies by `SendMessage` -/

theorem CodedMessage.setIfMissing_of_mem {m : CodedMessage} {tag : ℤ} [IntTag tag]
    (h : tag ∈ m.fields.tags) (s : Bytes) : m.setIfMissing tag s = m :=
  if_pos (FixFragment.contains_iff.mpr h)

/-- A simple message stays one, and its fields stay. -/
theorem CodedMessage.Simple.setIfMissing {m : CodedMessage} (h : m.Simple) (tag : ℤ) [IntTag tag]
    {s : Bytes} (hs : SohFree s) :
    (m.setIfMissing tag s).Simple ∧ tag ∈ (m.setIfMissing tag s).fields.tags
      ∧ (∀ t ∈ m.fields.tags, t ∈ (m.setIfMissing tag s).fields.tags)
      ∧ ∀ t ≠ tag, (m.setIfMissing tag s).fields.get t = m.fields.get t := by
  unfold CodedMessage.setIfMissing
  split
  · next hcontains =>
    exact ⟨h, FixFragment.contains_iff.mp hcontains, fun _ ht => ht, fun _ _ => rfl⟩
  · rw [CodedMessage.fields_set]
    exact ⟨h.set hs, FixFragment.mem_tags_set.mpr (Or.inl rfl),
      fun t ht => FixFragment.mem_tags_set.mpr (Or.inr ht),
      fun t ht => FixFragment.get_set_of_ne _ ht s⟩

/-- The header of a reply that `SendMessage` completes. -/
structure Replying (u p : Bytes) (m : CodedMessage) : Prop where
  simple : m.Simple
  admin : ∃ s, m.fields.get tagMsgType = some s ∧ isAdminMessageType s = true
  begins : tagBeginString ∈ m.fields.tags
  sender : m.fields.get tagSenderCompID = some u
  target : m.fields.get tagTargetCompID = some p

/-- **`SendMessage` completes the header of a reply.** -/
theorem Replying.heads_stamped {u p : Bytes} {m : CodedMessage} (h : Replying u p m) (env : Env)
    (e : Engine) :
    (stamped env m e).Simple ∧ Heads u p (stamped env m e).fields
      ∧ askToApp env.app (stamped env m e) = (stamped env m e, none) := by
  obtain ⟨hsimple, ⟨msgType, htype, hadmin⟩, hbegin, hsender, htarget⟩ := h
  have hids : stampCompIDs e.senderCompID e.targetCompID m = m := by
    rw [stampCompIDs, CodedMessage.setIfMissing_of_mem (FixFragment.mem_tags_of_get hsender),
      CodedMessage.setIfMissing_of_mem (FixFragment.mem_tags_of_get htarget)]
  have hdrawn : ∃ m', (drawSeqNum env.writes m e).2.1 = m' ∧ m'.Simple
      ∧ tagMsgSeqNum ∈ m'.fields.tags ∧ (∀ t ∈ m.fields.tags, t ∈ m'.fields.tags)
      ∧ ∀ t ≠ tagMsgSeqNum, m'.fields.get t = m.fields.get t := by
    exact ⟨_, message_drawSeqNum env.writes m e, hsimple.setIfMissing tagMsgSeqNum (sohFree_itoa _)⟩
  obtain ⟨m', hm', hsimple', h34, htags, hget⟩ := hdrawn
  obtain ⟨hsimple'', h52, htags', hget'⟩ :=
    hsimple'.setIfMissing tagSendingTime env.now.sohFree
  have hstamped : stamped env m e = m'.setIfMissing tagSendingTime env.now.text := by
    rw [stamped, hids, hm']
    rfl
  rw [hstamped]
  have hkept : ∀ t ≠ tagSendingTime, t ≠ tagMsgSeqNum →
      (m'.setIfMissing tagSendingTime env.now.text).fields.get t = m.fields.get t :=
    fun t ht ht' => (hget' t ht).trans (hget t ht')
  refine ⟨hsimple'', ⟨?_, ?_, ?_⟩, ?_⟩
  · rw [hkept _ (by decide) (by decide), hsender]
  · rw [hkept _ (by decide) (by decide), htarget]
  · simp only [List.forall_mem_cons, List.not_mem_nil, false_implies, implies_true, and_true]
    exact ⟨htags' _ (htags _ hbegin), htags' _ (htags _ (FixFragment.mem_tags_of_get htype)),
      htags' _ h34, h52⟩
  · have hnot : (m'.setIfMissing tagSendingTime env.now.text).isApplication = false := by
      rw [CodedMessage.isApplication, FixFragment.getD, hkept _ (by decide) (by decide), htype,
        Option.getD_some, hadmin, Bool.not_true, Bool.and_false]
    rw [askToApp, if_neg (by rw [hnot]; decide)]

/-- What goes out beside `before` is well headed. -/
def SendsHeaded (u p : Bytes) (before after : List Bytes) : Prop :=
  ∃ frames, after = before ++ frames ∧ ∀ b ∈ frames, WellHeaded u p b

theorem sendsHeaded_refl (u p : Bytes) (l : List Bytes) : SendsHeaded u p l l :=
  ⟨[], (List.append_nil l).symm, fun _ hb => absurd hb List.not_mem_nil⟩

theorem Replying.sendsHeaded {u p : Bytes} {m : CodedMessage} (h : Replying u p m) (env : Env)
    (e : Engine) : SendsHeaded u p e.sent (sendMessage env m e).engine.sent := by
  obtain ⟨hsimple, hheads, hask⟩ := h.heads_stamped env e
  rcases sent_sendMessage env m e with hsent | ⟨m', b, hm', hwire, hsent⟩
  · rw [hsent]
    exact sendsHeaded_refl u p _
  · rw [hask] at hm'
    cases hm'
    refine ⟨[b], hsent, fun b' hb' => ?_⟩
    rw [List.mem_singleton.mp hb']
    exact (hsimple.wellHeaded_iff hwire).mpr hheads

/-- **A reply is well headed**, if it goes out. -/
theorem Replying.reply {u p : Bytes} {out : CodedMessage} (h : Replying u p out) {consent : Env}
    (happ : consent.app.KeepsHeaders) (send : Env) (e : Engine) :
    SendsHeaded u p e.sent (FixMsg.reply consent send out e).1.sent := by
  unfold FixMsg.reply Application.askToAdmin ask
  cases hout : consent.app.toAdmin out with
  | mk out' rejected =>
    cases rejected with
    | some reason => exact sendsHeaded_refl u p _
    | none =>
      have hkept := happ.get out
      have hsimple := happ.simple out h.simple
      rw [hout] at hkept hsimple
      obtain ⟨s, hs⟩ := h.simple.parsed.flat.get h.begins
      have hreply : Replying u p out' := by
        obtain ⟨-, ⟨msgType, htype, hadmin⟩, -, hsender, htarget⟩ := h
        refine ⟨hsimple, ⟨msgType, ?_, hadmin⟩, ?_, ?_, ?_⟩
        · rw [hkept _ (by decide), htype]
        · exact FixFragment.mem_tags_of_get ((hkept _ (by decide)).trans hs)
        · rw [hkept _ (by decide), hsender]
        · rw [hkept _ (by decide), htarget]
      exact hreply.sendsHeaded send (e.record [.toAdmin out])

/-- The replies the handlers make are addressed to the sender. -/
theorem replying_adminHeader {msgType : Bytes} (hadmin : isAdminMessageType msgType = true)
    (htype : SohFree msgType) {u p : Bytes} (hu : SohFree u) (hp : SohFree p) (ρ : SortSlice) :
    Replying u p ((adminHeader msgType u p).setLenAndChecksum ρ) := by
  obtain ⟨hsimple, hget⟩ := (simple_adminHeader htype hu hp).setLenAndChecksum ρ
  have hfield : ∀ t, t ≠ tagBodyLength → t ≠ tagCheckSum →
      ((adminHeader msgType u p).setLenAndChecksum ρ).fields.get t
        = [(tagTargetCompID, p), (tagSenderCompID, u), (tagMsgType, msgType),
           (tagBeginString, ascii "FIX.4.4")].lookup t :=
    fun t h9 h10 => (hget t h9 h10).trans (get_adminHeader msgType u p t)
  refine ⟨hsimple, ⟨msgType, ?_, hadmin⟩, ?_, ?_, ?_⟩
  · exact hfield _ (by decide) (by decide)
  · exact FixFragment.mem_tags_of_get (hfield tagBeginString (by decide) (by decide))
  · exact hfield _ (by decide) (by decide)
  · exact hfield _ (by decide) (by decide)

/-- A TestReqID changes nothing of it. -/
theorem Replying.set_testReqID {u p : Bytes} {m : CodedMessage} (h : Replying u p m) {s : Bytes}
    (hs : SohFree s) : Replying u p (m.set 112 s) := by
  obtain ⟨hsimple, ⟨msgType, htype, hadmin⟩, hbegin, hsender, htarget⟩ := h
  refine ⟨hsimple.set hs, ⟨msgType, ?_, hadmin⟩, FixFragment.mem_tags_set.mpr (Or.inr hbegin),
    ?_, ?_⟩
  · rw [← htype]
    exact FixFragment.get_set_of_ne _ (by decide) s
  · rw [← hsender]
    exact FixFragment.get_set_of_ne _ (by decide) s
  · rw [← htarget]
    exact FixFragment.get_set_of_ne _ (by decide) s

/-! ## The frames of a resend

Gap fills are addressed with the ids of the request as they stand, and are not given a SendingTime.
A replay has what was stored, so the store is to hold messages of the session. -/

/-- The bodies stored for messages from `u` to `p` that can be read are from `u` to `p`. -/
def SeqManager.StoresSent (s : SeqManager) (u p : Bytes) : Prop :=
  ∀ seq row f, s.messages ⟨ascii "FIX.4.4", u, p, seq⟩ = some row →
    defaultParse row.body = .ok f → f.get tagSenderCompID = some u ∧ f.get tagTargetCompID = some p

/-- The application refuses the gap fill of a number. -/
def RefusesGapFill (env : Env) (u p : Bytes) (seq : ℤ) : Prop :=
  (env.app.toAdmin (gapFillMessage env.ρ u p seq)).2 ≠ none

/-- A pass sends no gap fill: it replays a message with BeginString, MsgType and MsgSeqNum, or the
application refuses the gap fill. -/
def FillsNoGap (env : Env) (u p : Bytes) (seq : ℤ) (s : SeqManager) : Prop :=
  match lookup env.reads u p seq s with
  | none => RefusesGapFill env u p seq
  | some stored =>
      match defaultParse stored.body with
      | .error _ => False
      | .ok f =>
          if f.getD tagMsgType ∈ gapFilledTypes then RefusesGapFill env u p seq
          else ∀ t ∈ [tagBeginString, tagMsgType, tagMsgSeqNum], t ∈ f.tags

/-- A message without SendingTime heads no frame. -/
theorem not_heads_of_untimed {m : CodedMessage} (h : m.Simple) {u p : Bytes}
    (huntimed : m.fields.get tagSendingTime = none) : ¬ Heads u p m.fields := by
  rintro ⟨-, -, htags⟩
  obtain ⟨s, hs⟩ := h.parsed.flat.get (htags tagSendingTime (by decide))
  rw [huntimed] at hs
  cases hs

/-- A replayed message has the fields of the stored one, and SendingTime: it heads a frame from `u`
to `p` exactly if it had BeginString, MsgType and MsgSeqNum. -/
theorem heads_replayMessage_iff {m : CodedMessage} (hm : m.Simple) {u p : Bytes}
    (hsender : m.fields.get tagSenderCompID = some u)
    (htarget : m.fields.get tagTargetCompID = some p) (now : Timestamp) :
    Heads u p (replayMessage now m).fields
      ↔ ∀ t ∈ [tagBeginString, tagMsgType, tagMsgSeqNum], t ∈ m.fields.tags := by
  obtain ⟨hsimple, hget⟩ := get_replayMessage hm now
  have hkept : ∀ t, t ≠ tagSendingTime → t ≠ tagPossDupFlag → t ≠ tagOrigSendTime →
      (replayMessage now m).fields.get t = m.fields.get t := by
    intro t h52 h43 h122
    rw [hget t, replayedField, if_neg h52, if_neg h43, if_neg h122]
  have hmem : ∀ t, t ≠ tagSendingTime → t ≠ tagPossDupFlag → t ≠ tagOrigSendTime →
      (t ∈ (replayMessage now m).fields.tags ↔ t ∈ m.fields.tags) := by
    intro t h52 h43 h122
    rw [hsimple.parsed.flat.mem_tags_iff, hm.parsed.flat.mem_tags_iff, hkept t h52 h43 h122]
  have htimed : tagSendingTime ∈ (replayMessage now m).fields.tags :=
    FixFragment.mem_tags_of_get (hget tagSendingTime)
  have h8 := hmem tagBeginString (by decide) (by decide) (by decide)
  have h35 := hmem tagMsgType (by decide) (by decide) (by decide)
  have h34 := hmem tagMsgSeqNum (by decide) (by decide) (by decide)
  constructor
  · rintro ⟨-, -, htags⟩
    simp only [List.forall_mem_cons, List.not_mem_nil, false_implies, implies_true, and_true]
      at htags ⊢
    exact ⟨h8.mp htags.1, h35.mp htags.2.1, h34.mp htags.2.2.1⟩
  · intro htags
    refine ⟨?_, ?_, ?_⟩
    · rw [hkept _ (by decide) (by decide) (by decide), hsender]
    · rw [hkept _ (by decide) (by decide) (by decide), htarget]
    · simp only [List.forall_mem_cons, List.not_mem_nil, false_implies, implies_true, and_true]
        at htags ⊢
      exact ⟨h8.mpr htags.1, h35.mpr htags.2.1, h34.mpr htags.2.2, htimed⟩

section Pass

variable {u p : Bytes} (hu : SohFree u) (hp : SohFree p)

include hu hp

theorem untimed_gapFillMessage (ρ : SortSlice) (seq : ℤ) :
    (gapFillMessage ρ u p seq).fields.get tagSendingTime = none :=
  (get_gapFillMessage hu hp ρ seq).2 tagSendingTime (by decide) (by decide)

/-- **A gap fill is not well headed**: it has no SendingTime. -/
theorem fillGap_wellHeaded_iff {env : Env} (happ : env.app.KeepsHeaders) (seq : ℤ) :
    (∀ x, (fillGap env u p seq).2 = some x → WellHeaded u p x.frame)
      ↔ RefusesGapFill env u p seq := by
  have hsimple := (get_gapFillMessage hu hp env.ρ seq).1
  have huntimed := untimed_gapFillMessage hu hp env.ρ seq
  unfold RefusesGapFill fillGap Application.askToAdmin ask
  generalize gapFillMessage env.ρ u p seq = m at hsimple huntimed
  have hkept := happ.get m tagSendingTime (by decide)
  have hsimple' := happ.simple m hsimple
  cases hout : env.app.toAdmin m with
  | mk m' rejected =>
    rw [hout] at hkept hsimple'
    cases rejected with
    | some reason => exact iff_of_true (fun x hx => absurd hx (Option.some_ne_none x).symm) (by simp)
    | none =>
      have hnot := not_heads_of_untimed (u := u) (p := p) hsimple' (hkept.trans huntimed)
      exact iff_of_false (fun h => hnot ((emit_wellHeaded_iff hsimple' u p env _ seq).mp h))
        (fun h => h rfl)

/-- **What a pass sends is well headed exactly if it is no gap fill.** -/
theorem emission_wellHeaded_iff {env : ℕ → Env} (happ : ∀ k, (env k).app.KeepsHeaders)
    {s : SeqManager} (hstored : s.StoresSent u p) (k : ℕ) (seq : ℤ) :
    (∀ x, emission env u p s k seq = some x → WellHeaded u p x.frame)
      ↔ FillsNoGap (env k) u p seq s := by
  unfold emission FillsNoGap
  cases hfound : lookup (env k).reads u p seq s with
  | none => exact fillGap_wellHeaded_iff hu hp (happ k) seq
  | some stored =>
    rcases CodedMessage.loadFix_eq stored.body with ⟨err, herr, hload⟩ | ⟨m, hparse, hload, hcodec⟩
    · rw [resendPass, hload]
      dsimp only
      rw [herr]
      have hsimple := (get_gapFillMessage hu hp (env k).ρ seq).1
      have hnot := not_heads_of_untimed (u := u) (p := p) hsimple
        (untimed_gapFillMessage hu hp (env k).ρ seq)
      exact iff_of_false (fun h => hnot ((emit_wellHeaded_iff hsimple u p (env k) _ seq).mp h)) id
    · rw [resendPass, hload]
      dsimp only
      rw [hparse]
      dsimp only
      by_cases htype : m.fields.getD tagMsgType ∈ gapFilledTypes
      · rw [if_pos htype, if_pos htype]
        exact fillGap_wellHeaded_iff hu hp (happ k) seq
      · rw [if_neg htype, if_neg htype]
        obtain ⟨row, hrow, hbody⟩ := messages_of_lookup hfound
        rw [← hbody] at hparse
        obtain ⟨hsender, htarget⟩ := hstored seq row _ hrow hparse
        have hm : m.Simple := ⟨parsed_defaultParse hparse, hcodec⟩
        exact (emit_wellHeaded_iff (get_replayMessage hm (env k).now).1 u p (env k) .replay seq).trans
          (heads_replayMessage_iff hm hsender htarget (env k).now)

/-- **All the loop ever sends is well headed exactly if no pass it gets to sends a gap fill.** -/
theorem resendLoop_wellHeaded_iff {env : ℕ → Env} (happ : ∀ k, (env k).app.KeepsHeaders)
    {e : Engine} (hstored : e.seqMgr.StoresSent u p) {bi : ℤ} (hbi : IsInt64 bi) (ei : ℤ) :
    (∀ fuel, ∀ x ∈ (resendLoop env u p ei fuel 0 bi e).emitted, WellHeaded u p x.frame)
      ↔ ∀ k : ℕ, (∀ j : ℕ, j ≤ k → int64 (bi + j) ≤ ei) →
        FillsNoGap (env k) u p (int64 (bi + k)) e.seqMgr := by
  constructor
  · intro hwell k hreached
    rw [← emission_wellHeaded_iff hu hp happ hstored]
    intro x hx
    rw [← Nat.zero_add k] at hx
    obtain ⟨fuel, hmem⟩ := (@exists_mem_resendLoop_iff env u p ei 0 bi hbi e x).mpr
      ⟨k, hreached, by simpa using hx⟩
    exact hwell fuel x hmem
  · intro hpasses fuel x hmem
    obtain ⟨n, hreached, hx⟩ := exists_mem_resendLoop_iff hbi |>.mp ⟨fuel, hmem⟩
    rw [Nat.zero_add] at hx
    exact (emission_wellHeaded_iff hu hp happ hstored n _).mpr (hpasses n hreached) x hx

end Pass

/-! ## The replies of the handlers -/

/-- The frames of a handled message are well headed: those the loop hands on, and those that go
out. -/
def RepliesHeaded (u p : Bytes) (e : Engine) (r : Handled) : Prop :=
  (∀ x ∈ r.emitted, WellHeaded u p x.frame) ∧ SendsHeaded u p e.sent r.engine.sent

/-- No gap fill is sent: the request is rejected, or is no ResendRequest, or has no BeginSeqNo, or
there is no store, or no pass for the numbers asked for sends one. -/
def NoGapFill (env : ℕ → Env) (req q : CodedMessage) (rejected : Option Bytes) (u p : Bytes)
    (s : SeqManager) : Prop :=
  rejected ≠ none ∨ req.fields.getD tagMsgType ≠ ascii "2" ∨ q.fields.getD 7 = []
    ∨ s.store = none ∨ ∀ k : ℕ, (∀ j : ℕ, j ≤ k → int64 (beginSeqNo q + j) ≤ endSeqNo q s) →
      FillsNoGap (env (k + 1)) u p (int64 (beginSeqNo q + k)) s

/-- Where no frame is made, none is badly headed. -/
theorem repliesHeaded_of (u p : Bytes) {e e' : Engine} (h : e'.sent = e.sent)
    (error : Option HandlerError) : RepliesHeaded u p e (.of e' error) := by
  refine ⟨fun x hx => absurd hx List.not_mem_nil, ?_⟩
  change SendsHeaded u p e.sent e'.sent
  rw [h]
  exact sendsHeaded_refl u p _

section Handlers

variable {env : ℕ → Env} {q : CodedMessage} {u p : Bytes} (hq : q.Simple)
variable (hp : q.fields.get tagSenderCompID = some p) (hu : q.fields.get tagTargetCompID = some u)
variable (happ : ∀ k, (env k).app.KeepsHeaders)

include hq hp hu happ

theorem testRequestHandler_headed (e : Engine) :
    RepliesHeaded u p e (testRequestHandler env q e) := by
  have hhb : Replying u p (newHeartbeatMessage (env 0).ρ u p) :=
    replying_adminHeader (by decide) (by decide) (hq.sohFree hu) (hq.sohFree hp) (env 0).ρ
  refine ⟨fun x hx => absurd hx List.not_mem_nil, ?_⟩
  unfold testRequestHandler
  rw [FixFragment.getD_of_get hp, FixFragment.getD_of_get hu]
  dsimp only
  split
  · exact hhb.reply (happ 0) (env 1) e
  · next htrid =>
    cases hget : q.fields.get 112 with
    | none =>
      rw [FixFragment.getD, hget] at htrid
      exact absurd rfl htrid
    | some trid =>
      rw [FixFragment.getD_of_get hget]
      exact (hhb.set_testReqID (hq.sohFree hget)).reply (happ 0) (env 1) e

theorem logoutHandler_headed (e : Engine) : RepliesHeaded u p e (logoutHandler env q e) := by
  have hout : Replying u p (newLogoutMessage (env 0).ρ u p) :=
    replying_adminHeader (by decide) (by decide) (hq.sohFree hu) (hq.sohFree hp) (env 0).ρ
  have hreply := hout.reply (happ 0) (env 1) e
  unfold logoutHandler
  rw [FixFragment.getD_of_get hp, FixFragment.getD_of_get hu]
  dsimp only
  split
  all_goals
    next heq =>
    rw [heq] at hreply
    exact ⟨fun x hx => absurd hx List.not_mem_nil, hreply⟩

theorem resendRequestHandler_headed_iff {e : Engine} (hstored : e.seqMgr.StoresSent u p) :
    (∀ fuel, RepliesHeaded u p e (resendRequestHandler env fuel q e))
      ↔ q.fields.getD 7 = [] ∨ e.seqMgr.store = none
        ∨ ∀ k : ℕ, (∀ j : ℕ, j ≤ k → int64 (beginSeqNo q + j) ≤ endSeqNo q e.seqMgr) →
          FillsNoGap (env (k + 1)) u p (int64 (beginSeqNo q + k)) e.seqMgr := by
  by_cases hbegin : q.fields.getD 7 = []
  · refine iff_of_true (fun fuel => ?_) (Or.inl hbegin)
    rw [resendRequestHandler, if_pos hbegin]
    exact repliesHeaded_of u p rfl _
  rw [or_iff_right hbegin]
  cases hstore : e.seqMgr.store with
  | none =>
    refine iff_of_true (fun fuel => ?_) (Or.inl rfl)
    rw [resendRequestHandler, if_neg hbegin, hstore]
    exact repliesHeaded_of u p rfl _
  | some st =>
    have hbi : IsInt64 (beginSeqNo q) := isInt64_atoi _
    rw [or_iff_right (Option.some_ne_none st),
      ← resendLoop_wellHeaded_iff (hq.sohFree hu) (hq.sohFree hp) (fun k => happ (k + 1)) hstored hbi]
    refine forall_congr' fun fuel => ?_
    rw [resendRequestHandler, if_neg hbegin, hstore, FixFragment.getD_of_get hp,
      FixFragment.getD_of_get hu]
    dsimp only [RepliesHeaded]
    refine and_iff_left_of_imp fun hwell => ?_
    obtain ⟨frames, hsent, hframes⟩ := exists_sent_resendLoop (fun k => env (k + 1)) u p
      (endSeqNo q e.seqMgr) fuel 0 (beginSeqNo q) e
    refine ⟨frames, hsent, fun b hb => ?_⟩
    obtain ⟨x, hx, rfl⟩ := hframes b hb
    exact hwell x hx

end Handlers

/-- **The replies to a ResendRequest, a TestRequest or a Logout from `p` to `u` are from `u` to `p`
and have every mandatory tag exactly if no gap fill is among them.** -/
theorem replies_headed_iff {env : ℕ → Env} {req q : CodedMessage} {rejected : Option Bytes}
    {e : Engine} {u p : Bytes}
    (htype : req.fields.getD tagMsgType ∈ [ascii "2", ascii "1", ascii "5"])
    (hasked : (env 0).app.fromAdmin req = (q, rejected)) (hq : q.Simple)
    (hp : q.fields.get tagSenderCompID = some p) (hu : q.fields.get tagTargetCompID = some u)
    (happ : ∀ k, (env k).app.KeepsHeaders) (hstored : e.seqMgr.StoresSent u p) :
    (∀ fuel, RepliesHeaded u p e (process env fuel req e))
      ↔ NoGapFill env req q rejected u p e.seqMgr := by
  have hlookup : ∃ handle : ℕ → Handler,
      (∀ fuel, (defaultHandlers env fuel).lookup (req.fields.getD tagMsgType)
        = some (handle fuel))
      ∧ ((∀ fuel, RepliesHeaded u p e (handle fuel q (e.record [.fromAdmin req])))
        ↔ NoGapFill env req q none u p e.seqMgr) := by
    simp only [List.mem_cons, List.not_mem_nil, or_false] at htype
    rcases htype with h2 | h1 | h5
    · refine ⟨fun fuel => resendRequestHandler env fuel, fun fuel => by rw [h2]; rfl, ?_⟩
      have hloop := resendRequestHandler_headed_iff (e := e.record [.fromAdmin req]) hq hp hu happ
        hstored
      rw [NoGapFill, h2, or_iff_right (not_not.mpr rfl), or_iff_right (not_not.mpr rfl)]
      exact hloop
    · refine ⟨fun _ => testRequestHandler env, fun fuel => by rw [h1]; rfl, ?_⟩
      refine iff_of_true (fun _ => testRequestHandler_headed hq hp hu happ _) (Or.inr (Or.inl ?_))
      rw [h1]
      decide
    · refine ⟨fun _ => logoutHandler env, fun fuel => by rw [h5]; rfl, ?_⟩
      refine iff_of_true (fun _ => logoutHandler_headed hq hp hu happ _) (Or.inr (Or.inl ?_))
      rw [h5]
      decide
  have hne : req.fields.getD tagMsgType ≠ [] := by
    intro hnil
    rw [hnil] at htype
    exact absurd htype (by decide)
  obtain ⟨handle, hhandle, hheaded⟩ := hlookup
  cases rejected with
  | none =>
    rw [← hheaded]
    refine forall_congr' fun fuel => ?_
    rw [process_of_accepted (hhandle fuel) hne rfl hasked]
  | some reason =>
    refine iff_of_true (fun fuel => ?_) (Or.inl (Option.some_ne_none reason))
    obtain ⟨calls, hprocess⟩ := process_of_rejected (hhandle fuel) hne rfl hasked e
    rw [hprocess]
    exact repliesHeaded_of u p rfl _

/-- A TestRequest of the peer of `engineOn`. -/
def testRequest : CodedMessage := (adminHeader (ascii "1") (ascii "T") (ascii "S")).set 112 (ascii "id")

/-- Its answer is well headed. -/
theorem replies_headed_test : RepliesHeaded (ascii "S") (ascii "T") (engineOn .opened)
    (process (fun _ => Outbound.calm) 0 testRequest (engineOn .opened)) := by
  have hsimple : testRequest.Simple :=
    (simple_adminHeader (by decide) (by decide) (by decide)).set (by decide)
  have hstored : (engineOn .opened).seqMgr.StoresSent (ascii "S") (ascii "T") := by
    intro seq row f hrow
    cases hrow
  exact (@replies_headed_iff (fun _ => Outbound.calm) testRequest testRequest none (engineOn .opened)
    (ascii "S") (ascii "T") (by decide) rfl hsimple rfl rfl
    (fun _ => ⟨fun _ h => h, fun _ _ _ => rfl⟩) hstored).mpr
    (Or.inr (Or.inl (by decide))) 0

/-- The gap fill in answer to a request from `T` to `S`. -/
theorem gapFill_header :
    (process (fun _ => Outbound.calm) 2 (resendRequest (ascii "1") (ascii "1"))
      (engineOn .opened)).emitted.map (fun x => (defaultParse x.frame).toOption.map fun f =>
        (f.get tagSenderCompID, f.get tagTargetCompID, validateMandatory f))
      = [some (some (ascii "T"), some (ascii "S"), some (ascii "missing mandatory tag 52"))] := by
  decide +kernel

/-- It is from `T` to `S` itself, and has no SendingTime. -/
theorem gapFill_misheaded : ¬ RepliesHeaded (ascii "S") (ascii "T") (engineOn .opened)
    (process (fun _ => Outbound.calm) 2 (resendRequest (ascii "1") (ascii "1"))
      (engineOn .opened)) := by
  rintro ⟨hwell, -⟩
  obtain ⟨x, hemitted, hx⟩ := List.map_eq_singleton_iff.mp gapFill_header
  rw [hemitted] at hwell
  obtain ⟨f, hf, -, -, hvalid⟩ := hwell x List.mem_cons_self
  rw [hf] at hx
  have hmissing := congrArg (fun o => o.bind fun y => y.2.2) hx
  rw [Except.toOption, Option.map_some, Option.bind_some, hvalid] at hmissing
  exact (Option.some_ne_none (ascii "missing mandatory tag 52")).symm hmissing

end FixMsg
