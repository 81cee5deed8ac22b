import GoFixMsg.Handler.Handlers

/-!
# Handler/Replay — what the frames of a resend carry

A gap fill is made from nothing but the ids and the number; a replay is the stored message with
PossDupFlag, OrigSendingTime and SendingTime set.  Both read back as they were serialised, length
and checksum apart (`emit_simple`).

So it is enough to know the message, and the frame need not be looked at.  What is in a message is
read tag by tag, which for a gap fill leaves nothing open and for a replay refers to the stored
message.
-/

open GoLang

namespace FixMsg

/-- **A simple message is emitted**, as a frame that reads back as the message. -/
theorem emit_simple {m : CodedMessage} (h : m.Simple) (env : Env) (kind : EmissionKind) (seq : ℤ) :
    ∃ body out, emit env kind seq m = some ⟨seq, kind, out⟩
      ∧ out = wireText soh (writtenFields env.τ (stampBody m.fields body))
      ∧ defaultParse out = .ok (stampBody m.fields body) := by
  obtain ⟨body, out, hout, htext, hparse⟩ := h.toWire env.σ env.τ
  refine ⟨body, out, ?_, htext, hparse⟩
  rw [emit, hout]

/-! ## Gap fills -/

/-- What a gap fill holds beside the length and the checksum. -/
def gapFillFields (sender target : Bytes) (seq : ℤ) : List (ℤ × Bytes) :=
  [(tagPossDupFlag, ascii "Y"), (tagMsgSeqNum, itoa seq), (123, ascii "Y"),
   (36, itoa (int64 (seq + 1))), (tagTargetCompID, sender), (tagSenderCompID, target),
   (tagMsgType, ascii "4"), (tagBeginString, ascii "FIX.4.4")]

/-- A field set stands before those that were there. -/
theorem get_set_eq_lookup {m : CodedMessage} {l : List (ℤ × Bytes)} {u : ℤ}
    (h : m.fields.get u = l.lookup u) (tag : ℤ) [IntTag tag] (s : Bytes) :
    (m.set tag s).fields.get u = ((tag, s) :: l).lookup u := by
  rw [CodedMessage.fields_set, FixFragment.get_set, List.lookup_cons, h]
  by_cases hu : u = tag
  · simp [hu]
  · rw [if_neg hu, beq_false_of_ne hu]

theorem get_adminHeader (msgType sender target : Bytes) (t : ℤ) :
    (adminHeader msgType sender target).fields.get t
      = [(tagTargetCompID, target), (tagSenderCompID, sender), (tagMsgType, msgType),
         (tagBeginString, ascii "FIX.4.4")].lookup t := by
  have hnil : CodedMessage.empty.fields.get t = ([] : List (ℤ × Bytes)).lookup t := rfl
  exact get_set_eq_lookup (get_set_eq_lookup (get_set_eq_lookup (get_set_eq_lookup hnil _ _)
    _ _) _ _) _ _

/-- **A gap fill holds its ids and numbers**, and nothing else. -/
theorem get_gapFillMessage {sender target : Bytes} (hs : SohFree sender) (ht : SohFree target)
    (ρ : SortSlice) (seq : ℤ) :
    (gapFillMessage ρ sender target seq).Simple
      ∧ ∀ t, t ≠ tagBodyLength → t ≠ tagCheckSum →
        (gapFillMessage ρ sender target seq).fields.get t
          = (gapFillFields sender target seq).lookup t := by
  have hY : SohFree (ascii "Y") := by decide
  have hheader := simple_adminHeader (show SohFree (ascii "4") by decide) ht hs
  have hmade : (((adminHeader (ascii "4") target sender).set 36 (itoa (int64 (seq + 1)))).set 123
      (ascii "Y")).Simple := (hheader.set (sohFree_itoa _)).set hY
  obtain ⟨hsimple, hget⟩ := hmade.setLenAndChecksum ρ
  refine ⟨(hsimple.set (sohFree_itoa seq)).set hY, fun t h9 h10 => ?_⟩
  refine get_set_eq_lookup (get_set_eq_lookup ((hget t h9 h10).trans ?_) _ _) _ _
  exact get_set_eq_lookup (get_set_eq_lookup (get_adminHeader _ _ _ t) _ _) _ _

/-! ## Replays

Three tags are set, of which OrigSendingTime only where it is missing.  All others are those of the
stored message, MsgSeqNum among them. -/

theorem simple_copySendingTime {m : CodedMessage} (h : m.Simple) : (copySendingTime m).Simple := by
  unfold copySendingTime
  split
  · next origTime hget =>
    split
    · exact h
    · exact h.set (h.sohFree hget)
  · exact h

/-- OrigSendingTime is SendingTime where it was missing; no other field changes. -/
theorem get_copySendingTime {m : CodedMessage} (h : m.Simple) (t : ℤ) :
    (copySendingTime m).fields.get t
      = if t = tagOrigSendTime then (m.fields.get t).or (m.fields.get tagSendingTime)
        else m.fields.get t := by
  unfold copySendingTime
  cases htime : m.fields.get tagSendingTime with
  | none => simp
  | some origTime =>
    dsimp only
    split
    · next hcontains =>
      obtain ⟨s, hs⟩ := h.parsed.flat.get (FixFragment.contains_iff.mp hcontains)
      split
      · next ht => rw [ht, hs, Option.some_or]
      · rfl
    · next hcontains =>
      have hnone : m.fields.get tagOrigSendTime = none := by
        rw [Option.eq_none_iff_forall_ne_some]
        exact fun s hs => hcontains (FixFragment.contains_of_get hs)
      rw [CodedMessage.fields_set, FixFragment.get_set]
      split
      · next ht => rw [ht, hnone, Option.none_or]
      · rfl

/-- The field of a replay under a tag other than 9 and 10: that of the stored message, with
PossDupFlag, SendingTime and, where it can be known, OrigSendingTime. -/
def replayedField (now : Bytes) (f : FixFragment) (t : ℤ) : Option Bytes :=
  if t = tagSendingTime then some now
  else if t = tagPossDupFlag then some (ascii "Y")
  else if t = tagOrigSendTime then (f.get t).or (f.get tagSendingTime)
  else f.get t

theorem get_replayMessage {m : CodedMessage} (h : m.Simple) (now : Timestamp) :
    (replayMessage now m).Simple
      ∧ ∀ t, (replayMessage now m).fields.get t = replayedField now.text m.fields t := by
  have hdup : (m.set tagPossDupFlag (ascii "Y")).Simple := h.set (by decide)
  refine ⟨(simple_copySendingTime hdup).set now.sohFree, fun t => ?_⟩
  rw [replayMessage, CodedMessage.fields_set, FixFragment.get_set, get_copySendingTime hdup,
    CodedMessage.fields_set, FixFragment.get_set, FixFragment.get_set, replayedField,
    if_neg (show tagSendingTime ≠ tagPossDupFlag by decide)]
  by_cases h43 : t = tagPossDupFlag
  · rw [h43, if_neg (by decide), if_neg (by decide), if_pos rfl, if_neg (by decide), if_pos rfl]
  · rw [if_neg h43, if_neg h43]

/-! ## The frames of a pass -/

/-- The frame reads as these fields, length and checksum apart. -/
def ReadsAs (frame : Bytes) (field : ℤ → Option Bytes) : Prop :=
  ∃ f, defaultParse frame = .ok f ∧ ∀ t, t ≠ tagBodyLength → t ≠ tagCheckSum → f.get t = field t

theorem ReadsAs.get {frame : Bytes} {field : ℤ → Option Bytes} (h : ReadsAs frame field)
    {f : FixFragment} (hf : defaultParse frame = .ok f) {t : ℤ} (h9 : t ≠ tagBodyLength)
    (h10 : t ≠ tagCheckSum) : f.get t = field t := by
  obtain ⟨g, hg, hget⟩ := h
  rw [hf] at hg
  cases hg
  exact hget t h9 h10

theorem emit_readsAs {m : CodedMessage} (h : m.Simple) (env : Env) (kind : EmissionKind) (seq : ℤ) :
    ∃ x, emit env kind seq m = some x ∧ x.seq = seq ∧ x.kind = kind
      ∧ ReadsAs x.frame m.fields.get := by
  obtain ⟨body, out, hemit, -, hparse⟩ := emit_simple h env kind seq
  exact ⟨_, hemit, rfl, rfl, _, hparse, fun t h9 h10 => get_stampBody h9 h10⟩

/-- **A pass that replays** sends the stored message as its replay. -/
theorem emit_replay {m : CodedMessage} (h : m.Simple) (env : Env) (seq : ℤ) :
    ∃ x, emit env .replay seq (replayMessage env.now m) = some x ∧ x.seq = seq ∧ x.kind = .replay
      ∧ ReadsAs x.frame (replayedField env.now.text m.fields) := by
  obtain ⟨hsimple, hget⟩ := get_replayMessage h env.now
  obtain ⟨x, hemit, hseq, hkind, hreads⟩ := emit_readsAs hsimple env .replay seq
  rw [funext hget] at hreads
  exact ⟨x, hemit, hseq, hkind, hreads⟩

/-- With the driver's consent the loop finds the row of the table. -/
theorem lookup_ok (sender target : Bytes) (seq : ℤ) (s : SeqManager) :
    lookup .ok sender target seq s = (s.messages ⟨ascii "FIX.4.4", sender, target, seq⟩).map
      fun row => ⟨ascii "FIX.4.4", sender, target, seq, row.msgType, row.body, row.created⟩ := by
  unfold lookup SeqManager.messages
  cases s.store with
  | none => rfl
  | some st =>
    obtain ⟨_ | t⟩ := st
    · rfl
    · rfl

/-- What the loop finds is in the table, whatever the driver does. -/
theorem messages_of_lookup {d : Driver} {sender target : Bytes} {seq : ℤ} {s : SeqManager}
    {stored : StoredMessage} (h : lookup d sender target seq s = some stored) :
    ∃ row, s.messages ⟨ascii "FIX.4.4", sender, target, seq⟩ = some row
      ∧ row.body = stored.body := by
  cases d with
  | ok =>
    rw [lookup_ok] at h
    obtain ⟨row, hrow, rfl⟩ := Option.map_eq_some_iff.mp h
    exact ⟨row, hrow, rfl⟩
  | fail =>
    unfold lookup at h
    split at h
    · cases h
    · next st hst =>
      obtain ⟨_ | t⟩ := st <;> cases h

/-- A stored message of a type that is replayed is loaded and replayed. -/
theorem resendPass_loaded {env : Env} {sender target : Bytes} {seq : ℤ} {stored : StoredMessage}
    {f : FixFragment} (hparse : defaultParse stored.body = .ok f)
    (htype : f.getD tagMsgType ∉ gapFilledTypes) :
    ∃ m : CodedMessage, m.fields = f ∧ m.Simple
      ∧ (resendPass env sender target seq (some stored)).2
        = emit env .replay seq (replayMessage env.now m) := by
  rcases CodedMessage.loadFix_eq stored.body with ⟨err, herr, -⟩ | ⟨m, hm, hload, hcodec⟩
  · rw [hparse] at herr
    cases herr
  · rw [hparse] at hm
    cases hm
    refine ⟨m, rfl, ⟨parsed_defaultParse hparse, hcodec⟩, ?_⟩
    rw [resendPass, hload]
    dsimp only
    rw [if_neg htype]

theorem resendPass_replay {env : Env} {sender target : Bytes} {seq : ℤ} {stored : StoredMessage}
    {f : FixFragment} (hparse : defaultParse stored.body = .ok f)
    (htype : f.getD tagMsgType ∉ gapFilledTypes) :
    ∃ x, (resendPass env sender target seq (some stored)).2 = some x ∧ x.seq = seq
      ∧ x.kind = .replay ∧ ReadsAs x.frame (replayedField env.now.text f) := by
  obtain ⟨m, rfl, hsimple, hpass⟩ := @resendPass_loaded env sender target seq stored f hparse htype
  rw [hpass]
  exact emit_replay hsimple env seq

/-- A pass that replays has found the message it replays. -/
theorem replay_of_resendPass {env : Env} {sender target : Bytes} {seq : ℤ}
    {found : Option StoredMessage} {x : Emission}
    (h : (resendPass env sender target seq found).2 = some x) (hkind : x.kind = .replay) :
    ∃ stored f, found = some stored ∧ defaultParse stored.body = .ok f
      ∧ f.getD tagMsgType ∉ gapFilledTypes ∧ ReadsAs x.frame (replayedField env.now.text f) := by
  obtain ⟨stored, m, rfl, hparse, hcodec, htype, hemit⟩ := (resendPass_spec h).2 hkind
  obtain ⟨y, hy, -, -, hreads⟩ := emit_replay ⟨parsed_defaultParse hparse, hcodec⟩ env seq
  rw [hemit] at hy
  cases hy
  exact ⟨stored, m.fields, rfl, hparse, htype, hreads⟩

/-! ## Asking for a number

The bounds of a request are texts.  What is asked for is read off them as the handler reads them,
with 0 for the last number used. -/

/-- A ResendRequest asks for a number: `FromAdmin` accepts it and leaves `q`, whose range takes the
number in. -/
structure Asked (env : ℕ → Env) (fuel : ℕ) (req q : CodedMessage) (e : Engine) (n : ℤ) : Prop where
  msgType : req.fields.getD tagMsgType = ascii "2"
  accepted : (env 0).app.fromAdmin req = (q, none)
  begins : q.fields.getD 7 ≠ []
  le : beginSeqNo q ≤ n
  ge : n ≤ endSeqNo q e.seqMgr
  fuel : n - beginSeqNo q < fuel

/-- An accepted ResendRequest goes to its handler. -/
theorem process_resendRequest {env : ℕ → Env} {fuel : ℕ} {req q : CodedMessage}
    (htype : req.fields.getD tagMsgType = ascii "2")
    (haccept : (env 0).app.fromAdmin req = (q, none)) (e : Engine) :
    process env fuel req e = resendRequestHandler env fuel q (e.record [.fromAdmin req]) := by
  have hlookup : (defaultHandlers env fuel).lookup (ascii "2")
      = some (resendRequestHandler env fuel) := rfl
  exact process_of_accepted hlookup (by decide) htype haccept e

/-- **What the passes for a number emit is what is emitted for it.** -/
theorem Asked.exists_emitted_iff {env : ℕ → Env} {fuel : ℕ} {req q : CodedMessage} {e : Engine}
    {n : ℤ} (h : Asked env fuel req q e n) (hint : IsInt64 n) {P : Emission → Prop} {Q : Prop}
    (hpass : ∀ k, (∃ x ∈ emission (fun k => env (k + 1)) (q.fields.getD tagTargetCompID)
      (q.fields.getD tagSenderCompID) e.seqMgr k n, P x) ↔ Q)
    (hstore : Q → e.seqMgr.store ≠ none) :
    (∃ x ∈ (process env fuel req e).emitted, x.seq = n ∧ P x) ↔ Q := by
  obtain ⟨htype, haccept, hbegin, hlo, hhi, hfuel⟩ := h
  rw [process_resendRequest htype haccept, resendRequestHandler, if_neg hbegin, seqMgr_record]
  cases hst : e.seqMgr.store with
  | none => exact ⟨fun ⟨x, hx, _⟩ => absurd hx List.not_mem_nil, fun hQ => absurd hst (hstore hQ)⟩
  | some st =>
    dsimp only
    constructor
    · rintro ⟨x, hx, hseq, hP⟩
      obtain ⟨j, hj⟩ := emission_of_mem hx
      rw [hseq] at hj
      exact (hpass j).mp ⟨x, hj, hP⟩
    · intro hQ
      obtain ⟨k, hk⟩ : ∃ k : ℕ, beginSeqNo q + k = n := ⟨(n - beginSeqNo q).toNat, by omega⟩
      obtain ⟨x, hx, hP⟩ := (hpass (0 + k)).mpr hQ
      refine ⟨x, mem_resendLoop (n := k) (isInt64_atoi _) (hk.trans_le hhi) (hk.trans_lt hint.2)
        (by omega) ?_, (resendPass_spec hx).1, hP⟩
      change emission _ _ _ _ (0 + k) (beginSeqNo q + k) = some x
      rw [hk]
      exact hx

end FixMsg
