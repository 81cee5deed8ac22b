import GoFixMsg.Engine.SendMessage

/-!
# Handler/Messages — the admin messages the engine makes

A Logout, a Heartbeat and a SequenceReset are made of a header and at most a few fields of their
own; the ids come from whoever makes them.  Neither MsgSeqNum nor SendingTime is among the fields:
`SendMessage` completes both, and where a message does not go through it, they are missing.
-/

open GoLang

namespace FixMsg

/-- BeginString, MsgType and the CompIDs. -/
def adminHeader (msgType sender target : Bytes) : CodedMessage :=
  (((CodedMessage.empty.set tagBeginString (ascii "FIX.4.4")).set tagMsgType msgType).set
    tagSenderCompID sender).set tagTargetCompID target

/-- `NewLogoutMessage`. -/
def newLogoutMessage (ρ : SortSlice) (sender target : Bytes) : CodedMessage :=
  (adminHeader (ascii "5") sender target).setLenAndChecksum ρ

/-- `NewHeartbeatMessage`. -/
def newHeartbeatMessage (ρ : SortSlice) (sender target : Bytes) : CodedMessage :=
  (adminHeader (ascii "0") sender target).setLenAndChecksum ρ

/-- `NewSequenceResetMessage`. -/
def newSequenceResetMessage (ρ : SortSlice) (sender target : Bytes) (newSeq : ℤ) (gapFill : Bool) :
    CodedMessage :=
  let m := (adminHeader (ascii "4") sender target).set 36 (itoa newSeq)
  (if gapFill then m.set 123 (ascii "Y") else m).setLenAndChecksum ρ

/-! ## Messages of strings without SOH -/

/-- A message as the built-in parser could have read it. -/
structure CodedMessage.Simple (m : CodedMessage) : Prop where
  parsed : m.fields.Parsed
  codec : m.codec = none

theorem simple_empty : CodedMessage.empty.Simple := ⟨parsed_nil, rfl⟩

namespace CodedMessage

theorem Simple.set {m : CodedMessage} (h : m.Simple) {tag : ℤ} [ht : IntTag tag] {value : Bytes}
    (hs : SohFree value) : (m.set tag value).Simple :=
  ⟨h.parsed.set ht.isInt64 hs, h.codec⟩

theorem Simple.sohFree {m : CodedMessage} (h : m.Simple) {t : ℤ} {s : Bytes}
    (hget : m.fields.get t = some s) : SohFree s :=
  h.parsed.values m.fields (self_mem_fragments _) (t, .str s)
    (Assoc.mem_of_find? (FixFragment.get_eq_some_iff.mp hget)) s rfl

/-- `SetLenAndChecksum` stores the length and the checksum, and nothing else. -/
theorem Simple.setLenAndChecksum {m : CodedMessage} (h : m.Simple) (ρ : SortSlice) :
    (m.setLenAndChecksum ρ).Simple ∧ ∀ t, t ≠ tagBodyLength → t ≠ tagCheckSum →
      (m.setLenAndChecksum ρ).fields.get t = m.fields.get t := by
  unfold CodedMessage.setLenAndChecksum FixMsg.setLenAndChecksum
  cases buildBody ρ m.fields with
  | error e => exact ⟨h, fun _ _ _ => rfl⟩
  | ok body =>
    refine ⟨⟨h.parsed.stampBody body, h.codec⟩, fun t h9 h10 => ?_⟩
    change (stampBody m.fields body).get t = _
    rw [stampBody, FixFragment.get_set_of_ne _ h10, FixFragment.get_set_of_ne _ h9]

/-- **A simple message goes out as a frame that reads back as the message**, length and checksum
apart. -/
theorem Simple.toWire {m : CodedMessage} (h : m.Simple) (σ τ : SortSlice) :
    ∃ body out, (m.toWire σ τ).2 = .ok out
      ∧ out = wireText soh (writtenFields τ (stampBody m.fields body))
      ∧ defaultParse out = .ok (stampBody m.fields body) := by
  have hcodec : ∀ c ∈ m.codec, c.separator = soh := by
    rw [h.codec]
    exact nofun
  obtain ⟨body, out, -, hout, htext, hparse⟩ := defaultParse_toWire (σ := σ) (τ := τ) hcodec h.parsed
  exact ⟨body, out, hout, htext, hparse⟩

end CodedMessage

/-- A field other than the length and the checksum is not stamped. -/
theorem get_stampBody {f : FixFragment} {body : Bytes} {t : ℤ} (h9 : t ≠ tagBodyLength)
    (h10 : t ≠ tagCheckSum) : (stampBody f body).get t = f.get t := by
  rw [FixFragment.get, find?_stampBody h9 h10, FixFragment.get]

theorem simple_adminHeader {msgType sender target : Bytes} (ht : SohFree msgType)
    (hs : SohFree sender) (hu : SohFree target) : (adminHeader msgType sender target).Simple :=
  (((simple_empty.set (by decide)).set ht).set hs).set hu

end FixMsg
