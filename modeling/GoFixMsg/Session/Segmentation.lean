import GoFixMsg.Session.ReadLoop

/-!
# Session/Segmentation — the frames of a stream do not depend on how it was cut

An accepted frame stays accepted when bytes are appended, so the framer is a stable scanner on the
streams whose declared lengths do not overflow (`stable_scanFrame`).  Garbage is no exception: it
stays in the buffer, and no later byte changes the frames in front of it.

A stable scanner gives the frames of a stream in one way, by the theory of `Framing`.  What the
framer adds to it is that it is stable where no length overflows, and that the frames and the rest
put together are the stream again.
-/

open GoLang

namespace FixMsg

/-- A frame the scanner finds is a whole frame at the head of the buffer. -/
theorem isFrame_of_scanFrame {b : Bytes} {n : ℕ} (h : ¬ LengthOverflows b)
    (hscan : scanFrame b = .frame n) :
    ∃ f rest, b = f ++ rest ∧ IsFrame f ∧ f.length < 2 ^ 63 ∧ n = f.length := by
  rw [scanFrame] at hscan
  rcases frameEnd_of_not_overflows h with hmore | ⟨f, rest, hb, hf, hlen, hend⟩
  · rw [hmore] at hscan
    cases hscan
  · rw [hend] at hscan
    dsimp only at hscan
    rw [if_neg (by omega), Int.toNat_natCast] at hscan
    exact ⟨f, rest, hb, hf, hlen, (Framing.Verdict.frame.inj hscan).symm⟩

/-- A scanner that asks for more does so because the framer returns `-1`. -/
theorem scanFrame_eq_more {b : Bytes} (h : ¬ LengthOverflows b) :
    scanFrame b = .more ↔ findBodyLengthFrameEnd b = .ok (-1) := by
  rw [scanFrame]
  rcases frameEnd_of_not_overflows h with hmore | ⟨f, rest, -, -, -, hend⟩
  · rw [hmore]
    exact ⟨fun _ => rfl, fun _ => rfl⟩
  · rw [hend]
    dsimp only
    rw [if_neg (by omega)]
    constructor
    · intro hm
      cases hm
    · intro hm
      have hlen := Except.ok.inj hm
      omega

/-- **The framer is stable on the streams whose declared lengths do not overflow.** -/
theorem stable_scanFrame : Framing.Stable scanFrame fun b => ¬ StreamOverflows b where
  bounds hb hscan := by
    obtain ⟨f, rest, rfl, hf, hlen, rfl⟩ :=
      isFrame_of_scanFrame (fun h => hb (.of_lengthOverflows h)) hscan
    exact ⟨(selfFraming_of_isFrame hf hlen).pos, by rw [List.length_append]; omega⟩
  rest hb hscan := by
    obtain ⟨f, rest, rfl, hf, -, rfl⟩ :=
      isFrame_of_scanFrame (fun h => hb (.of_lengthOverflows h)) hscan
    rw [List.drop_left' rfl]
    exact fun hrest => hb (hrest.prepend hf)
  of_append hb hover := hb (hover.append _)
  frame hb hscan := by
    obtain ⟨f, rest, rfl, hf, hlen, rfl⟩ :=
      isFrame_of_scanFrame (fun h => hb ((StreamOverflows.of_lengthOverflows h).append _)) hscan
    rw [List.append_assoc]
    exact (selfFraming_of_isFrame hf hlen).frame _
  not_fail hb hscan := by
    rw [scanFrame] at hscan
    rcases frameEnd_of_not_overflows fun h => hb (.of_lengthOverflows h) with
      hmore | ⟨f, rest, -, -, -, hend⟩
    · rw [hmore] at hscan
      cases hscan
    · rw [hend] at hscan
      dsimp only at hscan
      rw [if_neg (by omega)] at hscan
      cases hscan

/-- **Draining a stream cuts it into frames and a rest**, and so does feeding its chunks. -/
theorem exists_feed_of_not_overflows {s : Bytes} (h : ¬ StreamOverflows s) :
    ∃ frames rest, List.flatten frames ++ rest = s ∧ (∀ f ∈ frames, IsFrame f)
      ∧ findBodyLengthFrameEnd rest = .ok (-1)
      ∧ ∀ cs : List Bytes, cs.flatten = s → Framing.feed scanFrame [] cs = (frames, .ok rest) := by
  obtain ⟨frames, rest, hd⟩ := stable_scanFrame.exists_drain h
  obtain ⟨hflat, hmore, hframes⟩ := stable_scanFrame.drain_ok h hd
  have hrest : ¬ StreamOverflows rest := by
    have hrest := (stable_scanFrame.drain_append (y := []) (by rwa [List.append_nil]) hd).1
    rwa [List.append_nil] at hrest
  refine ⟨frames, rest, hflat, fun f hf => ?_,
    (scanFrame_eq_more fun hl => hrest (.of_lengthOverflows hl)).mp hmore, fun cs hcs => ?_⟩
  · obtain ⟨x, hok, hscan⟩ := hframes f hf
    obtain ⟨g, y, heq, hg, -, hlen⟩ :=
      isFrame_of_scanFrame (fun hl => hok (.of_lengthOverflows hl)) hscan
    rwa [(List.append_inj heq hlen).1]
  · have hnil : scanFrame [] = .more := rfl
    rw [stable_scanFrame.feed_eq_drain (by rwa [List.nil_append, hcs]) hnil, List.nil_append, hcs, hd]

/-- **A stream has one list of frames and one rest**, and they are the stream again: any way of
cutting it into chunks extracts these frames and leaves this rest, and so does the read loop,
whichever reads bring the stream. -/
theorem segmentation_independent {s : Bytes} (h : ¬ StreamOverflows s) :
    ∃ frames rest, List.flatten frames ++ rest = s ∧ (∀ f ∈ frames, IsFrame f)
      ∧ findBodyLengthFrameEnd rest = .ok (-1)
      ∧ (∀ cs : List Bytes, cs.flatten = s → Framing.feed scanFrame [] cs = (frames, .ok rest))
      ∧ ∀ w reads, stream reads = s →
        (StaysUp reads → (readLoop w [] reads).1 = frames.flatMap (dispatch w))
        ∧ ((∀ r ∈ reads, r.err = none ∨ r.err = some .timeout) →
          (readLoop w [] reads).2 = .waiting rest) := by
  obtain ⟨frames, rest, hflat, hframes, hmore, hfeed⟩ := exists_feed_of_not_overflows h
  refine ⟨frames, rest, hflat, hframes, hmore, hfeed, fun w reads hreads => ?_⟩
  have hf := hfeed (chunks reads) ((flatten_chunks reads).trans hreads)
  exact ⟨fun hup => readLoop_events w hup hf,
    fun hup => (readLoop_waiting_iff w).mpr ⟨hup, congrArg Prod.snd hf⟩⟩

/-! ## A frame and garbage behind it

Behind a whole frame a stream overflows exactly if its rest does, and bytes that are no head of a
frame never do: the framer asks for more as long as they are there, whatever follows them. -/

theorem StreamOverflows.of_append {f s : Bytes} (h : StreamOverflows (f ++ s)) (hf : IsFrame f)
    (hlen : f.length < 2 ^ 63) : StreamOverflows s := by
  obtain ⟨frames, q, hs, hframes, hq⟩ := h
  cases frames with
  | nil => exact absurd (hs ▸ hq : LengthOverflows (f ++ s)) (hf.not_overflows hlen s)
  | cons g frames =>
    rw [List.flatten_cons, List.append_assoc] at hs
    obtain ⟨-, rfl⟩ := hf.eq_of_append (hframes g List.mem_cons_self) hs
    exact ⟨frames, q, rfl, fun x hx => hframes x (List.mem_cons_of_mem g hx), hq⟩

theorem not_streamOverflows_of_garbage {s : Bytes} (h : ¬ hasPrefix s (ascii "8=") = true) :
    ¬ StreamOverflows s := by
  have hhead : ∀ v n t, s ≠ headText v n ++ t := fun v n t hs =>
    h (hasPrefix_iff.mpr ⟨_, hs.trans (List.append_assoc _ _ _)⟩)
  rintro ⟨frames, q, hs, hframes, hq⟩
  cases frames with
  | nil =>
    obtain ⟨v, n, t, -, hhq, -⟩ := hq
    exact hhead v n t (hs.trans hhq)
  | cons g frames =>
    obtain ⟨v, n, body, trailer, rfl, -⟩ := hframes g List.mem_cons_self
    exact hhead v n _ (hs.trans ((List.append_assoc _ _ _).trans (List.append_assoc _ _ _)))

/-- Garbage that ends in the start of a frame. -/
def garbage : Bytes := ascii "10=\x018=F"

/-- A heartbeat and garbage behind it, cut inside the trailer and inside the garbage, or inside the
BodyLength: the heartbeat is taken off, and the garbage is left. -/
theorem segmentation_independent_garbage :
    Framing.feed scanFrame [] [ascii "8=FIX.4.4\x019=5\x0135=0\x0110=1", ascii "63\x0110=",
        ascii "\x018=F"] = ([heartbeatFrame], .ok garbage)
      ∧ Framing.feed scanFrame [] [ascii "8=FIX.4.4\x019=",
        ascii "5\x0135=0\x0110=163\x0110=\x018=F"] = ([heartbeatFrame], .ok garbage) := by
  have hsafe : ¬ StreamOverflows (heartbeatFrame ++ garbage) := fun h =>
    not_streamOverflows_of_garbage (by decide) (h.of_append isFrame_heartbeatFrame.1 (by decide))
  obtain ⟨frames, rest, -, -, -, hfeed, -⟩ := segmentation_independent hsafe
  have hwhole : (Framing.feed scanFrame [] [heartbeatFrame ++ garbage]).1 = [heartbeatFrame]
      ∧ (Framing.feed scanFrame [] [heartbeatFrame ++ garbage]).2.toOption = some garbage := by
    decide +kernel
  rw [hfeed _ List.flatten_singleton] at hwhole
  obtain ⟨rfl, hrest⟩ := hwhole
  obtain rfl := Option.some.inj hrest
  exact ⟨hfeed _ (by decide), hfeed _ (by decide)⟩

end FixMsg
