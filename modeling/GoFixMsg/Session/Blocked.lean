import GoFixMsg.Session.Malformed

/-!
# Session/Blocked — a damaged frame blocks the session

`readLoop` takes `-1` from the framer as "wait for more" even where no more bytes can help.  So a
session whose stream is malformed behind some whole frames stays open with a doomed buffer, and
hands nothing on any more; and this is the only way to get there (`not_blocks_iff`).

The proof goes by what the loop waits with.  A stream is cut into whole frames in one way only, so
what is left in the buffer is what the stream has behind them; and that no continuation of it begins
with a frame is a property of these bytes alone, which a grammar decides.
-/

open GoLang

namespace FixMsg

/-- **At some point of the run the session is open, and its buffer is doomed.** -/
def Blocks (w : Receivers) (reads : List ReadResult) : Prop :=
  ∃ l buf, l <+: reads ∧ (readLoop w [] l).2 = .waiting buf ∧ Doomed buf

/-- **Behind some whole frames, the stream is malformed.** -/
def MalformedBehindFrames (s : Bytes) : Prop :=
  ∃ frames q, s = List.flatten frames ++ q ∧ (∀ f ∈ frames, IsFrame f ∧ f.length < 2 ^ 63)
    ∧ Malformed q

/-- Every buffer the loop fills is a Go slice, and none of them comes near the top of `int`. -/
def BuffersFit (w : Receivers) (buf : Bytes) (reads : List ReadResult) : Prop :=
  ∀ l d b, l ++ [d] <+: reads → (readLoop w buf l).2 = .waiting b →
    (b ++ d.data).length + 16 < 2 ^ 63

/-! ## A stream is cut in one way

A frame declares its own length, so it is not the beginning of a longer one.  From there on the
frames of two cuts agree one by one, and so do their rests. -/

/-- Two frames at the head of one text are the same. -/
theorem isFrame_unique {f g x y : Bytes} (hf : IsFrame f) (hg : IsFrame g) (h : f ++ x = g ++ y) :
    f = g ∧ x = y := by
  obtain ⟨v, s, body, c, rfl, hv, hs, hL, hc⟩ := hf
  obtain ⟨v', s', body', c', rfl, hv', hs', hL', hc'⟩ := hg
  rw [List.append_assoc, List.append_assoc (headText v' s')] at h
  obtain ⟨rfl, rfl, hrest⟩ := headText_inj hv hv' hs hs' h
  rw [hL] at hL'
  have hlen : body.length = body'.length := Int.ofNat.inj (Option.some.inj hL')
  rw [List.append_assoc, List.append_assoc] at hrest
  obtain ⟨rfl, htail⟩ := List.append_inj hrest hlen
  obtain ⟨rfl, hxy⟩ := List.append_inj htail
    ((length_of_isTrailer hc).trans (length_of_isTrailer hc').symm)
  exact ⟨rfl, hxy⟩

/-- Two ways of cutting a text into frames and a rest that begins with none of them leave the same
rest. -/
theorem rest_unique {frames frames' : List Bytes} {r q : Bytes} (hf : ∀ f ∈ frames, IsFrame f)
    (hf' : ∀ f ∈ frames', IsFrame f) (hr : ∀ f ∈ frames', ∀ y, r ≠ f ++ y)
    (hq : ∀ f ∈ frames, ∀ y, q ≠ f ++ y)
    (h : frames.flatten ++ r = frames'.flatten ++ q) : r = q := by
  induction frames generalizing frames' with
  | nil =>
    cases frames' with
    | nil => exact h
    | cons f' fs' =>
      rw [List.flatten_nil, List.nil_append, List.flatten_cons, List.append_assoc] at h
      exact absurd h (hr f' List.mem_cons_self _)
  | cons f fs ih =>
    rw [List.flatten_cons, List.append_assoc] at h
    cases frames' with
    | nil =>
      rw [List.flatten_nil, List.nil_append] at h
      exact absurd h.symm (hq f List.mem_cons_self _)
    | cons f' fs' =>
      rw [List.flatten_cons, List.append_assoc] at h
      obtain ⟨rfl, hrest⟩ :=
        isFrame_unique (hf f List.mem_cons_self) (hf' f' List.mem_cons_self) h
      exact ih (fun g hg => hf g (List.mem_cons_of_mem _ hg))
        (fun g hg => hf' g (List.mem_cons_of_mem _ hg))
        (fun g hg => hr g (List.mem_cons_of_mem _ hg))
        (fun g hg => hq g (List.mem_cons_of_mem _ hg)) hrest

/-- A stream that is malformed behind whole frames does not overflow behind any. -/
theorem MalformedBehindFrames.not_overflows {s : Bytes} (h : MalformedBehindFrames s) :
    ¬ StreamOverflows s := by
  rintro ⟨frames, r, rfl, hframes, hr⟩
  obtain ⟨frames', q, heq, hframes', hq⟩ := h
  have hsame : r = q := by
    refine rest_unique hframes (fun f hf => (hframes' f hf).1) (fun f hf y hry => ?_)
      (fun f hf => hq.ne_frame (hframes f hf)) heq
    obtain ⟨hframe, hlen⟩ := hframes' f hf
    exact hframe.not_overflows hlen y (hry ▸ hr)
  exact hq.not_overflows [] (by rwa [List.append_nil, ← hsame])

/-! ## What the loop waits with -/

theorem not_overflows_of_scanFrame {b : Bytes} {n : ℕ} (hlen : b.length + 7 < 2 ^ 63)
    (hscan : scanFrame b = .frame n) : ¬ LengthOverflows b := by
  intro hover
  obtain ⟨e, he⟩ := frameEnd_of_overflows hover hlen
  rw [scanFrame, he] at hscan
  cases hscan

/-- **On buffers that are Go slices the scanner is sound**, whatever they declare. -/
theorem sound_scanFrame : Framing.Sound scanFrame fun b => b.length + 7 < 2 ^ 63 where
  bounds hb hscan := by
    obtain ⟨f, rest, rfl, hf, hlen, rfl⟩ :=
      isFrame_of_scanFrame (not_overflows_of_scanFrame hb hscan) hscan
    exact ⟨(selfFraming_of_isFrame hf hlen).pos, by rw [List.length_append]; omega⟩
  rest hb _ := by
    rw [List.length_drop]
    omega

/-- **What a read adds is drained** together with what the buffer holds; a read of no bytes adds
nothing. -/
theorem frameLoop_eq_drain (w : Receivers) {buf : Bytes} (hmore : scanFrame buf = .more)
    (data : Bytes) :
    (if 0 < data.length then frameLoop w ((buf ++ data).length + 1) (buf ++ data) else ([], .ok buf))
      = ((Framing.drain scanFrame (buf ++ data)).1.flatMap (dispatch w),
        (Framing.drain scanFrame (buf ++ data)).2) := by
  split
  · rw [frameLoop_eq, Framing.drain]
  · next hnil =>
    have hdata : data = [] := by simpa using hnil
    rw [hdata, List.append_nil, Framing.drain_of_more hmore]
    rfl

/-- **One read**: the loop drains what has arrived, and goes on with what is left. -/
theorem readLoop_cons_waiting (w : Receivers) {buf r : Bytes} {d : ReadResult}
    {reads : List ReadResult} (hmore : scanFrame buf = .more) :
    (readLoop w buf (d :: reads)).2 = .waiting r
      ↔ ∃ frames b, Framing.drain scanFrame (buf ++ d.data) = (frames, .ok b)
        ∧ (d.err = none ∨ d.err = some .timeout) ∧ (readLoop w b reads).2 = .waiting r := by
  rw [readLoop, frameLoop_eq_drain w hmore]
  obtain ⟨frames, res⟩ := Framing.drain scanFrame (buf ++ d.data)
  cases res with
  | error e => simp
  | ok b => by_cases hup : d.err = none ∨ d.err = some .timeout <;> simp [hup]

/-- **A loop left waiting has taken whole frames off the stream**, and waits with the rest. -/
theorem frames_of_waiting (w : Receivers) {reads : List ReadResult} {buf r : Bytes}
    (hmore : scanFrame buf = .more) (hlen : buf.length + 16 < 2 ^ 63)
    (hfit : BuffersFit w buf reads) (h : (readLoop w buf reads).2 = .waiting r) :
    ∃ frames, buf ++ stream reads = List.flatten frames ++ r
      ∧ (∀ f ∈ frames, IsFrame f ∧ f.length < 2 ^ 63) ∧ scanFrame r = .more
      ∧ r.length + 16 < 2 ^ 63 := by
  induction reads generalizing buf with
  | nil =>
    rw [readLoop] at h
    obtain rfl := LoopState.waiting.inj h
    exact ⟨[], List.append_nil _, fun _ hf => absurd hf List.not_mem_nil, hmore, hlen⟩
  | cons d reads ih =>
    obtain ⟨frames, b, hd, hup, hgo⟩ := (readLoop_cons_waiting w hmore).mp h
    have hbd : (buf ++ d.data).length + 16 < 2 ^ 63 :=
      hfit [] d buf (List.prefix_append [d] reads) rfl
    obtain ⟨hflat, hb, hframes⟩ := sound_scanFrame.drain_ok (by omega) hd
    have hblen : b.length + 16 < 2 ^ 63 := by
      rw [← hflat, List.length_append] at hbd
      omega
    have hfit' : BuffersFit w b reads := by
      intro l e b' hl hwait
      exact hfit (d :: l) e b' ((List.prefix_cons_inj d).mpr hl)
        ((readLoop_cons_waiting w hmore).mpr ⟨frames, b, hd, hup, hwait⟩)
    obtain ⟨frames', hstream, hframes', hr, hrlen⟩ := ih hb hblen hfit' hgo
    refine ⟨frames ++ frames', ?_, fun f hf => ?_, hr, hrlen⟩
    · rw [stream, List.flatMap_cons, ← stream, ← List.append_assoc, ← hflat, List.append_assoc,
        hstream, List.flatten_append, List.append_assoc]
    · rcases List.mem_append.mp hf with hf | hf
      · obtain ⟨x, hfx, hscan⟩ := hframes f hf
        obtain ⟨g, y, heq, hg, hglen, hfg⟩ :=
          isFrame_of_scanFrame (not_overflows_of_scanFrame hfx hscan) hscan
        rw [(List.append_inj heq hfg).1]
        exact ⟨hg, hglen⟩
      · exact hframes' f hf

/-- A rest that asks for more begins with no frame. -/
theorem ne_frame_of_more {r f : Bytes} (hmore : findBodyLengthFrameEnd r = .ok (-1))
    (hf : IsFrame f) (hlen : f.length < 2 ^ 63) (y : Bytes) : r ≠ f ++ y := by
  rintro rfl
  rw [frameEnd_of_isFrame hf hlen y] at hmore
  have hneg := Except.ok.inj hmore
  omega

theorem Doomed.scanFrame_eq {buf : Bytes} (h : Doomed buf) : scanFrame buf = .more := by
  have hmore := h []
  rw [List.append_nil] at hmore
  rw [scanFrame, hmore]
  rfl

theorem readLoop_of_doomed (w : Receivers) {buf : Bytes} {d : ReadResult}
    (hmore : scanFrame buf = .more) (h : Doomed (buf ++ d.data)) (reads : List ReadResult) :
    readLoop w buf (d :: reads)
      = if d.err = none ∨ d.err = some .timeout then readLoop w (buf ++ d.data) reads
        else ([], .returned) := by
  rw [readLoop, frameLoop_eq_drain w hmore, Framing.drain_of_more h.scanFrame_eq]
  rfl

/-- **A blocked session stays blocked**: it hands nothing on, and every byte that arrives stays in
the buffer. -/
theorem Doomed.readLoop_silent {buf : Bytes} (h : Doomed buf) (w : Receivers)
    (reads : List ReadResult) :
    (readLoop w buf reads).1 = []
      ∧ ((∀ d ∈ reads, d.err = none ∨ d.err = some .timeout) →
        (readLoop w buf reads).2 = .waiting (buf ++ stream reads)) := by
  induction reads generalizing buf with
  | nil =>
    refine ⟨rfl, fun _ => ?_⟩
    rw [readLoop, stream, List.flatMap_nil, List.append_nil]
  | cons d reads ih =>
    obtain ⟨hnone, hstays⟩ := ih (h.append d.data)
    rw [readLoop_of_doomed w h.scanFrame_eq (h.append d.data)]
    refine ⟨?_, fun hup => ?_⟩
    · split
      · exact hnone
      · rfl
    · obtain ⟨hd, hreads⟩ := List.forall_mem_cons.mp hup
      rw [if_pos hd, hstays hreads, List.append_assoc, stream, stream, List.flatMap_cons]

/-- **The session is never blocked exactly if no reads bring a stream that is malformed behind whole
frames.**  Blocked it stays: a doomed buffer is doomed however it grows. -/
theorem not_blocks_iff (w : Receivers) {reads : List ReadResult} (hfit : BuffersFit w [] reads) :
    ¬ Blocks w reads ↔ ∀ l, l <+: reads → (∀ d ∈ l, d.err = none ∨ d.err = some .timeout) →
      ¬ MalformedBehindFrames (stream l) := by
  constructor
  · intro hno l hl hup hbad
    obtain ⟨frames, rest, hflat, hframes, hmore, hfeed⟩ :=
      exists_feed_of_not_overflows hbad.not_overflows
    have hwait : (readLoop w [] l).2 = .waiting rest :=
      (readLoop_waiting_iff w).mpr ⟨hup, congrArg Prod.snd (hfeed _ (flatten_chunks l))⟩
    obtain ⟨frames', q, heq, hframes', hq⟩ := hbad
    have hsame : rest = q := rest_unique hframes (fun f hf => (hframes' f hf).1)
      (fun f hf => ne_frame_of_more hmore (hframes' f hf).1 (hframes' f hf).2)
      (fun f hf => hq.ne_frame (hframes f hf)) (hflat.trans heq)
    exact hno ⟨l, rest, hl, hwait, hsame ▸ hq.doomed⟩
  · rintro hall ⟨l, buf, hl, hwait, hdoomed⟩
    have hup := ((readLoop_waiting_iff w).mp hwait).1
    obtain ⟨frames, hstream, hframes, -, hlen⟩ := frames_of_waiting w rfl (by decide)
      (fun l' d b hl' => hfit l' d b (hl'.trans hl)) hwait
    exact hall l hl hup ⟨frames, buf, hstream, hframes, (doomed_iff_malformed hlen).mp hdoomed⟩

/-- One byte that is not the beginning of `8=` blocks the session. -/
theorem blocks_behind_garbage : Blocks ⟨true, false⟩ [⟨ascii "X", none⟩] := by
  have hfit : BuffersFit ⟨true, false⟩ [] [⟨ascii "X", none⟩] := by
    intro l d b hl hwait
    have hlen := hl.length_le
    rw [List.length_append, List.length_singleton, List.length_singleton] at hlen
    obtain rfl : l = [] := List.length_eq_zero_iff.mp (by omega)
    obtain rfl := LoopState.waiting.inj hwait
    obtain rfl := (List.cons_prefix_cons.mp hl).1
    decide
  by_contra hno
  refine (not_blocks_iff ⟨true, false⟩ hfit).mp hno _ (List.prefix_refl _) (by decide)
    ⟨[], ascii "X", rfl, fun _ hf => absurd hf List.not_mem_nil, .beginString ⟨by decide, by decide⟩⟩

/-- A frame whose BodyLength is no number, and a heartbeat behind it. -/
def damagedStream : Bytes :=
  ascii "8=FIX.4.4\x019=ABC\x018=FIX.4.4\x019=5\x0135=0\x0110=163\x01"

/-- The damaged frame blocks the session: nothing is handed on, neither the heartbeat nor whatever
comes later. -/
theorem blocks_behind_bad_length :
    Blocks ⟨true, false⟩ [⟨damagedStream, none⟩]
      ∧ ∀ reads, (readLoop ⟨true, false⟩ [] (⟨damagedStream, none⟩ :: reads)).1 = [] := by
  have hno : ¬ ScansNat (ascii "ABC") := by
    rintro ⟨n, hn⟩
    rw [show sscanfInt (ascii "ABC") = none by decide] at hn
    cases hn
  have hdoomed : Doomed damagedStream := by
    have hsplit : damagedStream = headText (ascii "FIX.4.4") (ascii "ABC")
        ++ ascii "8=FIX.4.4\x019=5\x0135=0\x0110=163\x01" := by decide
    rw [hsplit]
    exact (Malformed.value (by decide) (by decide) hno).doomed
  have hread : ∀ reads, readLoop ⟨true, false⟩ [] (⟨damagedStream, none⟩ :: reads)
      = readLoop ⟨true, false⟩ damagedStream reads := fun reads =>
    @readLoop_of_doomed ⟨true, false⟩ [] ⟨damagedStream, none⟩ rfl hdoomed reads
  refine ⟨⟨_, damagedStream, List.prefix_refl _, ?_, hdoomed⟩, fun reads => ?_⟩
  · rw [hread, readLoop]
  · rw [hread]
    exact (hdoomed.readLoop_silent _ reads).1

end FixMsg
