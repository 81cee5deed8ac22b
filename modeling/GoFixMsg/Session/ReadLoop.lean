import GoFixMsg.Session.Framer

/-!
# Session/ReadLoop — the receiving half of a session

`readLoop` appends what each `Conn.Read` returns to its buffer, takes the frames off it and hands
the message each of them parses to on.  Its extraction is `Framing.feed` with the framer as the
scanner (`readLoop_events`).

Reads return some bytes, or a time-out, or an error, and may return bytes along with either.  The
loop goes on over a time-out and ends at an error; it is left waiting where the reads are over and
it is still up.  A frame is parsed without a dictionary, and goes to `OnMessage` or, where there is
none, to the processor.
-/

open GoLang

namespace FixMsg

/-- The errors of `Conn.Read` the loop tells apart. -/
inductive ReadError where
  | eof
  | timeout
  | other
  deriving DecidableEq

/-- What one `Conn.Read` returned. -/
structure ReadResult where
  data : Bytes
  err : Option ReadError

/-- Which of `OnMessage` and `Processor` a session has. -/
structure Receivers where
  onMessage : Bool
  processor : Bool

/-- What the loop does with a frame. -/
inductive Event where
  | onMessage (msg : FixFragment)
  | process (msg : FixFragment)
  | parseFailed (frame : Bytes)

/-- How the loop stands when the reads are over: it has returned, panicked, or waits for more with
this buffer. -/
inductive LoopState where
  | returned
  | panicked (e : BoundsPanic)
  | waiting (buf : Bytes)

/-- Parse a frame and hand the message on. -/
def dispatch (w : Receivers) (frame : Bytes) : List Event :=
  match (Codec.new none).parse frame with
  | .error _ => [.parseFailed frame]
  | .ok msg =>
      if w.onMessage then [.onMessage msg]
      else if w.processor then [.process msg]
      else []

/-- The inner loop: take frames off the buffer for as long as the framer finds one. -/
def frameLoop (w : Receivers) : ℕ → Bytes → List Event × Except BoundsPanic Bytes
  | 0, buf => ([], .ok buf)
  | k + 1, buf =>
      match findBodyLengthFrameEnd buf with
      | .error e => ([], .error e)
      | .ok frameEnd =>
          if frameEnd < 0 then ([], .ok buf)
          else
            let rest := frameLoop w k (buf.drop frameEnd.toNat)
            (dispatch w (buf.take frameEnd.toNat) ++ rest.1, rest.2)

/-- **`readLoop`**, over the results its reads return.  Every frame is nonempty, so the length of
the buffer bounds the passes of the inner loop. -/
def readLoop (w : Receivers) : Bytes → List ReadResult → List Event × LoopState
  | buf, [] => ([], .waiting buf)
  | buf, r :: reads =>
      let drained : List Event × Except BoundsPanic Bytes :=
        if 0 < r.data.length then frameLoop w ((buf ++ r.data).length + 1) (buf ++ r.data)
        else ([], .ok buf)
      match drained.2 with
      | .error e => (drained.1, .panicked e)
      | .ok buf =>
          if r.err = none ∨ r.err = some .timeout then
            (drained.1 ++ (readLoop w buf reads).1, (readLoop w buf reads).2)
          else (drained.1, .returned)

/-- The bytes of a list of reads. -/
def stream (reads : List ReadResult) : Bytes := reads.flatMap ReadResult.data

/-- The chunks the loop appends to its buffer: a read of no bytes appends nothing. -/
def chunks (reads : List ReadResult) : List Bytes :=
  (reads.map ReadResult.data).filter fun data => 0 < data.length

/-- Every read but the last leaves the connection up. -/
def StaysUp (reads : List ReadResult) : Prop :=
  ∀ r ∈ reads.dropLast, r.err = none ∨ r.err = some .timeout

instance (reads : List ReadResult) : Decidable (StaysUp reads) :=
  inferInstanceAs (Decidable (∀ r ∈ reads.dropLast, _))

theorem chunks_cons (r : ReadResult) (reads : List ReadResult) :
    chunks (r :: reads) = if 0 < r.data.length then r.data :: chunks reads else chunks reads := by
  rw [chunks, List.map_cons, List.filter_cons]
  simp only [decide_eq_true_eq]
  rfl

theorem flatten_chunks (reads : List ReadResult) : (chunks reads).flatten = stream reads := by
  induction reads with
  | nil => rfl
  | cons r reads ih =>
    rw [stream, List.flatMap_cons, ← stream, ← ih, chunks_cons]
    split
    · rfl
    · next h =>
      have hnil : r.data = [] := by simpa using h
      rw [hnil]
      rfl

/-- **The inner loop drains the buffer.** -/
theorem frameLoop_eq (w : Receivers) (k : ℕ) (buf : Bytes) :
    frameLoop w k buf = ((Framing.drainUpTo scanFrame k buf).1.flatMap (dispatch w),
      (Framing.drainUpTo scanFrame k buf).2) := by
  induction k generalizing buf with
  | zero => rfl
  | succ k ih =>
    rw [frameLoop, Framing.drainUpTo, scanFrame]
    cases findBodyLengthFrameEnd buf with
    | error e => rfl
    | ok n =>
      dsimp only
      split
      · rfl
      · dsimp only
        rw [ih, List.flatMap_cons]

/-- **On a connection that stays up, the read loop hands on what feeding the chunks yields.**  The
last read may bring it down: there is nothing behind it to hand on. -/
theorem readLoop_events (w : Receivers) {reads : List ReadResult} (hup : StaysUp reads)
    {buf r : Bytes} {frames : List Bytes}
    (h : Framing.feed scanFrame buf (chunks reads) = (frames, .ok r)) :
    (readLoop w buf reads).1 = frames.flatMap (dispatch w) := by
  induction reads generalizing buf frames with
  | nil =>
    cases h
    rfl
  | cons read reads ih =>
    have htail : StaysUp reads := by
      cases reads with
      | nil => exact fun _ hmem => absurd hmem List.not_mem_nil
      | cons => exact fun d hd => hup d (List.mem_cons_of_mem _ hd)
    have hgo : ∀ buf, (if read.err = none ∨ read.err = some .timeout then
        (readLoop w buf reads).1 else []) = (readLoop w buf reads).1 := by
      intro buf
      cases reads with
      | nil => exact ite_self _
      | cons => exact if_pos (hup read List.mem_cons_self)
    rw [chunks_cons] at h
    rw [readLoop]
    by_cases hlen : 0 < read.data.length
    · rw [if_pos hlen, Framing.feed] at h
      rw [if_pos hlen, frameLoop_eq]
      dsimp only at h ⊢
      cases hd : (Framing.drainUpTo scanFrame ((buf ++ read.data).length + 1)
          (buf ++ read.data)).2 with
      | error e =>
        rw [hd] at h
        cases h
      | ok buf' =>
        rw [hd] at h
        obtain ⟨hfs, hr⟩ := Prod.mk.inj h
        have hrest := ih htail (Prod.ext rfl hr)
        dsimp only
        rw [← hfs, List.flatMap_append, ← hrest, ← hgo buf']
        split <;> simp
    · rw [if_neg hlen] at h
      rw [if_neg hlen]
      have hrest := ih htail h
      dsimp only
      rw [← hrest, ← hgo buf]
      split <;> simp

/-- **The read loop is left waiting** exactly if every read leaves the connection up, and then with
what feeding the chunks leaves. -/
theorem readLoop_waiting_iff (w : Receivers) {reads : List ReadResult} {buf r : Bytes} :
    (readLoop w buf reads).2 = .waiting r
      ↔ (∀ d ∈ reads, d.err = none ∨ d.err = some .timeout)
        ∧ (Framing.feed scanFrame buf (chunks reads)).2 = .ok r := by
  induction reads generalizing buf with
  | nil =>
    rw [readLoop]
    exact ⟨fun h => ⟨fun _ hd => absurd hd List.not_mem_nil, by cases h; rfl⟩,
      fun h => by cases h.2; rfl⟩
  | cons read reads ih =>
    rw [readLoop, chunks_cons, List.forall_mem_cons, and_assoc]
    by_cases hlen : 0 < read.data.length
    · rw [if_pos hlen, if_pos hlen, frameLoop_eq, Framing.feed]
      dsimp only
      cases (Framing.drainUpTo scanFrame ((buf ++ read.data).length + 1) (buf ++ read.data)).2 with
      | error e => simp
      | ok buf' =>
        dsimp only
        rw [← ih]
        by_cases hup : read.err = none ∨ read.err = some .timeout <;> simp [hup]
    · rw [if_neg hlen, if_neg hlen]
      dsimp only
      rw [← ih]
      by_cases hup : read.err = none ∨ read.err = some .timeout <;> simp [hup]

/-! ## When the goroutine panics

The framer panics on a declared length that carries a position past the top of `int`, and on nothing
else.  Such a length may stand behind frames that are taken off in good order. -/

/-- The framer stays within the buffer: its result is `-1`, or an end inside the buffer. -/
def FrameEndSafe (buf : Bytes) : Prop :=
  ∃ n, findBodyLengthFrameEnd buf = .ok n ∧ (n = -1 ∨ (0 < n ∧ n ≤ buf.length))

/-- **Behind some whole frames, the stream declares a length that overflows.** -/
def StreamOverflows (s : Bytes) : Prop :=
  ∃ frames q, s = List.flatten frames ++ q ∧ (∀ f ∈ frames, IsFrame f) ∧ LengthOverflows q

theorem StreamOverflows.append {s : Bytes} (h : StreamOverflows s) (x : Bytes) :
    StreamOverflows (s ++ x) := by
  obtain ⟨frames, q, rfl, hframes, hq⟩ := h
  exact ⟨frames, q ++ x, List.append_assoc _ _ _, hframes, hq.append x⟩

theorem StreamOverflows.prepend {s f : Bytes} (h : StreamOverflows s) (hf : IsFrame f) :
    StreamOverflows (f ++ s) := by
  obtain ⟨frames, q, rfl, hframes, hq⟩ := h
  refine ⟨f :: frames, q, by rw [List.flatten_cons, List.append_assoc], fun g hg => ?_, hq⟩
  rcases List.mem_cons.mp hg with rfl | hg
  · exact hf
  · exact hframes g hg

theorem StreamOverflows.of_lengthOverflows {s : Bytes} (h : LengthOverflows s) :
    StreamOverflows s := ⟨[], s, rfl, fun _ hf => absurd hf List.not_mem_nil, h⟩

/-- The inner loop takes whole frames off the buffer and does not panic. -/
theorem frameLoop_of_not_overflows (w : Receivers) (k : ℕ) {buf : Bytes}
    (h : ¬ StreamOverflows buf) :
    ∃ r, (frameLoop w k buf).2 = .ok r
      ∧ ∀ x, StreamOverflows (r ++ x) → StreamOverflows (buf ++ x) := by
  induction k generalizing buf with
  | zero => exact ⟨buf, rfl, fun _ hx => hx⟩
  | succ k ih =>
    have hsafe : ¬ LengthOverflows buf := fun hbuf => h (.of_lengthOverflows hbuf)
    rw [frameLoop]
    rcases frameEnd_of_not_overflows hsafe with hmore | ⟨f, rest, rfl, hf, -, hend⟩
    · rw [hmore]
      exact ⟨buf, rfl, fun _ hx => hx⟩
    · obtain ⟨r, hr, hx⟩ := ih (show ¬ StreamOverflows rest from fun hrest => h (hrest.prepend hf))
      refine ⟨r, ?_, fun x hrx => ?_⟩
      · rw [hend]
        dsimp only
        rw [if_neg (by omega), Int.toNat_natCast, List.drop_left' rfl, hr]
      · rw [List.append_assoc]
        exact (hx x hrx).prepend hf

/-- **A stream whose declared lengths do not overflow makes no read loop panic.** -/
theorem readLoop_not_panicked (w : Receivers) {reads : List ReadResult} {buf : Bytes}
    (h : ¬ StreamOverflows (buf ++ stream reads)) (e : BoundsPanic) :
    (readLoop w buf reads).2 ≠ .panicked e := by
  induction reads generalizing buf with
  | nil => exact nofun
  | cons read reads ih =>
    rw [stream, List.flatMap_cons, ← stream, ← List.append_assoc] at h
    have hnow : ¬ StreamOverflows (buf ++ read.data) := fun hbuf => h (hbuf.append _)
    obtain ⟨r, hr, hx⟩ : ∃ r,
        (if 0 < read.data.length
          then frameLoop w ((buf ++ read.data).length + 1) (buf ++ read.data)
          else ([], .ok buf) : List Event × Except BoundsPanic Bytes).2 = .ok r
        ∧ ∀ x, StreamOverflows (r ++ x) → StreamOverflows (buf ++ read.data ++ x) := by
      split
      · exact frameLoop_of_not_overflows w _ hnow
      · next hnil =>
        have hdata : read.data = [] := by simpa using hnil
        exact ⟨buf, rfl, fun x hx => by rwa [hdata, List.append_nil]⟩
    rw [readLoop]
    simp only [hr]
    split
    · exact ih fun hrest => h (hx _ hrest)
    · exact nofun

/-- **The framer is safe on a buffer exactly if the declared length does not overflow there**, and
so is the read loop on a stream without such a length behind its frames.  No Go slice is so long
that its length plus 7 overflows. -/
theorem framer_safe_iff (w : Receivers) (reads : List ReadResult) {buf : Bytes}
    (hlen : buf.length + 7 < 2 ^ 63) :
    (FrameEndSafe buf ↔ ¬ LengthOverflows buf)
      ∧ (¬ StreamOverflows (stream reads) → ∀ e, (readLoop w [] reads).2 ≠ .panicked e) := by
  refine ⟨⟨?_, fun h => ?_⟩, fun h e => readLoop_not_panicked w h e⟩
  · rintro ⟨n, hok, -⟩ hover
    obtain ⟨e, herr⟩ := frameEnd_of_overflows hover hlen
    rw [hok] at herr
    cases herr
  · rcases frameEnd_of_not_overflows h with hmore | ⟨f, rest, rfl, hf, -, hend⟩
    · exact ⟨-1, hmore, Or.inl rfl⟩
    · refine ⟨f.length, hend, Or.inr ⟨?_, by rw [List.length_append]; omega⟩⟩
      obtain ⟨v, s, body, trailer, rfl, -⟩ := hf
      have hhead := length_headText v s
      rw [List.length_append]
      omega

/-- A heartbeat is safe, and so is a loop that reads a single byte. -/
theorem framer_safe_heartbeat :
    ¬ LengthOverflows (ascii "8=FIX.4.4\x019=5\x0135=0\x0110=163\x01")
      ∧ (readLoop ⟨true, false⟩ [] [⟨[56], none⟩]).2 ≠ .panicked .slice := by
  have h := framer_safe_iff ⟨true, false⟩ [⟨[56], none⟩]
    (show (ascii "8=FIX.4.4\x019=5\x0135=0\x0110=163\x01").length + 7 < 2 ^ 63 by decide)
  refine ⟨h.1.mp ⟨26, by decide +kernel, by decide⟩, h.2 ?_ .slice⟩
  rintro ⟨frames, q, hs, -, v, s, rest, L, rfl, -⟩
  have hlen := congrArg List.length hs
  have hhead := length_headText v s
  simp [stream] at hlen
  omega

/-- A peer's first bytes that make the read loop panic. -/
theorem framer_unsafe :
    ¬ FrameEndSafe (ascii "8=\x019=9223372036854775807\x01")
      ∧ (readLoop ⟨true, false⟩ [] [⟨ascii "8=\x019=9223372036854775807\x01", none⟩]).2
        = .panicked .slice := by
  have hpanic : findBodyLengthFrameEnd (ascii "8=\x019=9223372036854775807\x01")
      = .error .slice := by decide +kernel
  refine ⟨fun ⟨n, hok, _⟩ => ?_, ?_⟩
  · rw [hpanic] at hok
    cases hok
  · rw [readLoop, if_pos (by decide), List.nil_append, frameLoop, hpanic]

end FixMsg
