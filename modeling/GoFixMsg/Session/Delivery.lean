import GoFixMsg.Codec.Flat
import GoFixMsg.Session.ReadLoop

/-!
# Session/Delivery — what one side writes, the other side reads

The wire of a message is a whole frame (`isFrame_wire`), whatever bytes its values hold; so the
framer finds its end behind any bytes that follow, and a sequence of wires is cut into the messages
again at the receiving end.
-/

open GoLang

namespace FixMsg

/-! ## The wire of a message is a frame

BodyLength is written behind the body has been, and so counts the bytes that stand between it and
CheckSum.  None of them is looked at by the framer: it goes by the count, and finds the trailer
where the count says it is. -/

/-- BeginString and BodyLength on the wire are the head of a frame. -/
theorem wirePrefix_eq (v : Bytes) (n : ℕ) : wirePrefix v n = headText v (itoa n) := by
  have h8 : itoa tagBeginString = [56] := by decide
  have h9 : itoa tagBodyLength = [57] := by decide
  simp [wirePrefix, headText, fieldText, h8, h9, ascii]

/-- CheckSum on the wire is a trailer. -/
theorem isTrailer_checkSum (v body : Bytes) :
    IsTrailer (fieldText soh tagCheckSum (checkSum v body)) := by
  have h10 : itoa tagCheckSum = [49, 48] := by decide
  have hlt : (byteSum (wirePrefix v body.length) + byteSum body) % 256 < 1000 :=
    (Nat.mod_lt _ (by decide)).trans (by decide)
  rw [checkSum]
  generalize (byteSum (wirePrefix v body.length) + byteSum body) % 256 = n at hlt ⊢
  refine ⟨Decimal.digit (n / 100), Decimal.digit (n / 10 % 10), Decimal.digit (n % 10), ?_,
    Decimal.isDigit_digit (by omega), Decimal.isDigit_digit (by omega),
    Decimal.isDigit_digit (by omega)⟩
  rw [Decimal.padded3_eq n hlt, fieldText, h10]
  rfl

/-- **The wire of a message is a whole frame.** -/
theorem isFrame_wire {v body : Bytes} (hv : SohFree v) (hlen : body.length < 2 ^ 63) :
    IsFrame (wirePrefix v body.length
      ++ (body ++ fieldText soh tagCheckSum (checkSum v body))) := by
  refine ⟨v, itoa body.length, body, _, by rw [wirePrefix_eq], hv,
    sohFree_itoa _, ?_, isTrailer_checkSum v body⟩
  rw [itoa_natCast]
  exact sscanfInt_numeral hlen

/-- So is whatever `ToWire` makes of a message in range. -/
theorem isFrame_toWire {σ τ : SortSlice} {codec : Option Codec} (hsep : wireSep codec = soh)
    {m : FixMessage} {v out : Bytes} (hv : m.fields.get tagBeginString = some v) (hsoh : SohFree v)
    (htags : m.fields.AllTags InTagRange) (h : (toWire σ τ codec m).2 = .ok out)
    (hlen : out.length < 2 ^ 63) : IsFrame out := by
  obtain ⟨body, -, -, hout⟩ := toWire_layout hsep hv htags h
  rw [hout] at hlen ⊢
  simp only [List.length_append] at hlen
  exact isFrame_wire hsoh (by omega)

/-- **BodyLength, CheckSum and self-framing.**  Whatever the groups, the values and the earlier
contents of 9 and 10, a message that `ToWire` serialises comes out as BeginString, the exact length
of the body, the body, and the sum of everything before CheckSum; and the framer finds its end
whatever follows it.  The length of a Go slice is an `int`. -/
theorem toWire_selfFraming {σ τ : SortSlice} {codec : Option Codec}
    (hcodec : ∀ c ∈ codec, c.separator = soh) {m : FixMessage} {v out : Bytes}
    (hv : m.fields.get tagBeginString = some v) (hsoh : SohFree v)
    (htags : m.fields.AllTags InTagRange) (h : (toWire σ τ codec m).2 = .ok out)
    (hlen : out.length < 2 ^ 63) :
    (∃ body beforeSum, beforeSum = fieldText soh 8 v ++ fieldText soh 9 (itoa body.length) ++ body
        ∧ out = beforeSum ++ fieldText soh 10 (Decimal.padded3 (byteSum beforeSum % 256)))
      ∧ ∀ rest, findBodyLengthFrameEnd (out ++ rest) = .ok out.length := by
  have hsep := wireSep_eq_soh hcodec
  refine ⟨?_, fun rest => frameEnd_of_isFrame (isFrame_toWire hsep hv hsoh htags h hlen) hlen rest⟩
  obtain ⟨body, -, -, hout⟩ := toWire_layout hsep hv htags h
  refine ⟨body, wirePrefix v body.length ++ body, rfl, ?_⟩
  rw [hout, List.append_assoc, checkSum, byteSum, byteSum, byteSum, List.map_append, List.sum_append]
  rfl

/-- A message with a repeating group, a CheckSum of its own and `10=` inside a value. -/
def partyMessage : FixMessage where
  fields := [(8, .str (ascii "F")), (10, .str (ascii "?")), (58, .str (ascii "x\x0110=y")),
    (453, .group 453 448 [[(447, .str (ascii "D")), (448, .str (ascii "a"))]])]
  wf := by decide

/-- Its wire, followed by the first bytes of another. -/
theorem toWire_selfFraming_party : findBodyLengthFrameEnd
    (ascii "8=F\x019=28\x0158=x\x0110=y\x01453=1\x01447=D\x01448=a\x0110=067\x01" ++ ascii "8=F")
      = .ok 44 := by
  have h := @toWire_selfFraming .stable .stable (some (Codec.new none)) (by decide) partyMessage
    (ascii "F") (ascii "8=F\x019=28\x0158=x\x0110=y\x01453=1\x01447=D\x01448=a\x0110=067\x01")
    (by decide) (by decide) (by decide) (by decide +kernel) (by decide)
  exact h.2 _

/-! ## A sequence of messages is delivered -/

/-- One message being sent: the codec it carries, and the choices of order its two traversals
make. -/
structure Sending where
  message : FixMessage
  codec : Option Codec
  σ : SortSlice
  τ : SortSlice

namespace Sending

/-- `ToWire` of the message. -/
def toWire (s : Sending) : FixMessage × Except Fault Bytes :=
  FixMsg.toWire s.σ s.τ s.codec s.message

/-- The bytes that go out. -/
def wire (s : Sending) : Bytes :=
  match s.toWire.2 with
  | .ok out => out
  | .error _ => []

/-- The message is flat: strings without SOH under tags in range, 8 among them. -/
structure FlatMessage (s : Sending) : Prop where
  flat : s.message.fields.Flat
  tags : s.message.fields.AllTags InTagRange
  beginString : tagBeginString ∈ s.message.fields.tags
  values : s.message.fields.AllStrings SohFree
  codec : ∀ c ∈ s.codec, c.separator = soh

/-- The wire of a flat message holds the fields of the stamped one. -/
theorem FlatMessage.wire_eq {s : Sending} (h : s.FlatMessage) :
    s.toWire.2 = .ok s.wire ∧ s.wire = wireText soh (writtenFields s.τ s.toWire.1.fields)
      ∧ ∃ body, s.toWire.1.fields = stampBody s.message.fields body := by
  obtain ⟨body, hfields, hout⟩ := toWire_of_plain (σ := s.σ) (τ := s.τ) h.codec h.flat.plain
  have hwire : s.wire = wireText soh (writtenFields s.τ (stampBody s.message.fields body)) := by
    rw [wire, toWire, hout]
  refine ⟨?_, ?_, body, hfields⟩
  · rw [hwire]
    exact hout
  · rw [hwire, toWire, hfields]

/-- **The receiving codec reads the stamped message back.** -/
theorem FlatMessage.parse_wire {s : Sending} (h : s.FlatMessage) :
    (Codec.new none).parse s.wire = .ok s.toWire.1.fields := by
  obtain ⟨-, hwire, body, hfields⟩ := h.wire_eq
  have hparsed : s.message.fields.Parsed := ⟨h.flat, s.message.wf, h.values⟩
  obtain ⟨hflat, hwf, hvalues⟩ := hparsed.stampBody body
  rw [hwire, hfields, parse_wireText (sohFree_writtenFields hflat.plain hvalues s.τ)
    (isInt64_writtenFields hflat.plain hwf s.τ), setFields_writtenFields hflat hwf.sorted]

/-- The wire of a flat message is a whole frame. -/
theorem FlatMessage.isFrame {s : Sending} (h : s.FlatMessage) (hlen : s.wire.length < 2 ^ 63) :
    IsFrame s.wire := by
  obtain ⟨v, hv⟩ := h.flat.get h.beginString
  have hsoh : SohFree v := h.values _ (self_mem_fragments _) _
    (Assoc.mem_of_find? (FixFragment.get_eq_some_iff.mp hv)) v rfl
  exact isFrame_toWire (wireSep_eq_soh h.codec) hv hsoh h.tags h.wire_eq.1 hlen

end Sending

/-- **End-to-end delivery.**  However the concatenation of the wires of flat messages is cut into
reads, `OnMessage` is handed these messages in the order they were sent, each as `ToWire` left it:
with BodyLength and CheckSum stamped, and its other fields as they were. -/
theorem readLoop_delivers {sends : List Sending} (h : ∀ s ∈ sends, s.FlatMessage)
    (hlen : ∀ s ∈ sends, s.wire.length < 2 ^ 63) {w : Receivers} (hw : w.onMessage = true)
    {reads : List ReadResult} (hup : StaysUp reads)
    (hreads : stream reads = sends.flatMap Sending.wire) :
    (∀ s ∈ sends, s.toWire.2 = .ok s.wire
        ∧ ∃ body, s.toWire.1.fields = stampBody s.message.fields body)
      ∧ (readLoop w [] reads).1 = sends.map fun s => .onMessage s.toWire.1.fields := by
  refine ⟨fun s hs => ⟨(h s hs).wire_eq.1, (h s hs).wire_eq.2.2⟩, ?_⟩
  have hself : ∀ f ∈ sends.map Sending.wire, Framing.SelfFraming scanFrame f := by
    intro f hf
    obtain ⟨s, hs, rfl⟩ := List.mem_map.mp hf
    exact selfFraming_of_isFrame ((h s hs).isFrame (hlen s hs)) (hlen s hs)
  have hfeed : Framing.feed scanFrame [] (chunks reads) = (sends.map Sending.wire, .ok []) := by
    refine Framing.feed_flatten hself rfl ?_ ?_
    · intro f hf
      exact (hself f (List.mem_of_mem_head? hf)).pos
    · rw [List.nil_append, flatten_chunks, hreads, List.flatMap_def]
  rw [readLoop_events w hup hfeed, List.flatMap_map, List.map_eq_flatMap]
  refine List.flatMap_congr fun s hs => ?_
  rw [dispatch, (h s hs).parse_wire]
  exact if_pos hw

/-- A heartbeat. -/
def heartbeat : FixMessage where
  fields := [(8, .str (ascii "FIX.4.4")), (35, .str (ascii "0"))]
  wf := by decide

/-- A TestRequest, with a number and what is asked. -/
def numberedTest : FixMessage where
  fields := [(8, .str (ascii "FIX.4.4")), (34, .str (ascii "7")), (35, .str (ascii "1")),
    (112, .str (ascii "A=B"))]
  wf := by decide

/-- The heartbeat and the TestRequest on the wire, read in three goes. -/
def twoMessageReads : List ReadResult :=
  [⟨ascii "8=FIX.4.4\x019=5", none⟩, ⟨[], some .timeout⟩,
    ⟨ascii "\x0135=0\x0110=163\x018=FIX.4.4\x019=18\x0135=1\x0134=7\x01112=A=B\x0110=070\x01",
      some .eof⟩]

/-- Both arrive, the heartbeat first. -/
theorem readLoop_delivers_two :
    (readLoop ⟨true, false⟩ [] twoMessageReads).1 =
      [.onMessage [(8, .str (ascii "FIX.4.4")), (9, .str (ascii "5")), (10, .str (ascii "163")),
        (35, .str (ascii "0"))],
      .onMessage [(8, .str (ascii "FIX.4.4")), (9, .str (ascii "18")), (10, .str (ascii "070")),
        (34, .str (ascii "7")), (35, .str (ascii "1")), (112, .str (ascii "A=B"))]] := by
  have hflat : ∀ s ∈ [Sending.mk heartbeat none .stable .stable,
      Sending.mk numberedTest none .stable .stable], s.FlatMessage := by
    intro s hs
    rcases List.mem_pair.mp hs with rfl | rfl <;>
      exact ⟨by decide, by decide, by decide, by decide, fun c hc => by cases hc⟩
  have hfirst : (Sending.mk heartbeat none .stable .stable).wire
      = ascii "8=FIX.4.4\x019=5\x0135=0\x0110=163\x01" := by decide +kernel
  have hsecond : (Sending.mk numberedTest none .stable .stable).wire
      = ascii "8=FIX.4.4\x019=18\x0135=1\x0134=7\x01112=A=B\x0110=070\x01" := by decide +kernel
  have h := readLoop_delivers (w := ⟨true, false⟩) hflat ?_ rfl
    (show StaysUp twoMessageReads by decide) ?_
  · rw [h.2]
    exact congrArg₂ (fun f g => [Event.onMessage f, Event.onMessage g]) rfl rfl
  · intro s hs
    rcases List.mem_pair.mp hs with rfl | rfl
    · rw [hfirst]
      decide
    · rw [hsecond]
      decide
  · simp only [List.flatMap_cons, List.flatMap_nil, List.append_nil, hfirst, hsecond]
    decide +kernel

end FixMsg
