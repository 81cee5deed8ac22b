import GoFixMsg.Session.FrameEnd

/-!
# Session/Framer — what the framer finds, and when it panics

A frame is `8=<BeginString>`, `9=<BodyLength>`, that many bytes, and `10=<CheckSum>`.  As long as
the declared length does not carry the positions past the top of Go's `int`, the framer either asks
for more or ends at a frame (`frameEnd_of_not_overflows`); once it does, the wrapped position passes
the bound check and the slice expression panics (`frameEnd_of_overflows`).

Reading the head is done with in `Session/FrameEnd`, so the case is about one number.  A frame is
found by its length, and hence a buffer begins with one frame at most, and a proper prefix of a
frame with none (`frameEnd_of_prefix`).
-/

open GoLang

namespace FixMsg

/-- **A whole frame.** -/
def IsFrame (w : Bytes) : Prop :=
  ∃ v s body trailer, w = headText v s ++ (body ++ trailer) ∧ soh ∉ v ∧ soh ∉ s
    ∧ sscanfInt s = some (body.length : ℤ) ∧ IsTrailer trailer

/-- **The head of the buffer declares a length that carries the end of the frame past the top of
Go's `int`.** -/
def LengthOverflows (buf : Bytes) : Prop :=
  ∃ v s rest L, buf = headText v s ++ rest ∧ soh ∉ v ∧ soh ∉ s ∧ sscanfInt s = some L ∧ 0 ≤ L
    ∧ 2 ^ 63 ≤ ((headText v s).length : ℤ) + L + 7

theorem LengthOverflows.append {buf : Bytes} (h : LengthOverflows buf) (x : Bytes) :
    LengthOverflows (buf ++ x) := by
  obtain ⟨v, s, rest, L, rfl, hv, hs, hL, h0, hover⟩ := h
  exact ⟨v, s, rest ++ x, L, List.append_assoc _ _ _, hv, hs, hL, h0, hover⟩

/-- The head of a buffer can be read in one way only. -/
theorem headText_inj {v v' s s' r r' : Bytes} (hv : soh ∉ v) (hv' : soh ∉ v') (hs : soh ∉ s)
    (hs' : soh ∉ s') (h : headText v s ++ r = headText v' s' ++ r') : v = v' ∧ s = s' ∧ r = r' := by
  have h1 : v ++ soh :: (ascii "9=" ++ (s ++ soh :: r))
      = v' ++ soh :: (ascii "9=" ++ (s' ++ soh :: r')) := by
    have h8 : ascii "8=" ++ (v ++ soh :: (ascii "9=" ++ (s ++ soh :: r)))
        = ascii "8=" ++ (v' ++ soh :: (ascii "9=" ++ (s' ++ soh :: r'))) := by
      simpa [headText] using h
    exact List.append_cancel_left h8
  obtain ⟨hveq, h2⟩ := cut_inj hv hv' h1
  obtain ⟨hseq, hr⟩ := cut_inj hs hs' (List.append_cancel_left h2)
  exact ⟨hveq, hseq, hr⟩

theorem length_of_isTrailer {t : Bytes} (h : IsTrailer t) : t.length = 7 := by
  obtain ⟨a, b, c, rfl, -⟩ := h
  rfl

/-- A whole frame with whatever follows it: the framer ends where the frame does. -/
theorem frameEnd_of_isFrame {w : Bytes} (h : IsFrame w) (hlen : w.length < 2 ^ 63) (rest : Bytes) :
    findBodyLengthFrameEnd (w ++ rest) = .ok w.length := by
  obtain ⟨v, s, body, trailer, rfl, hv, hs, hL, htr⟩ := h
  have h7 := length_of_isTrailer htr
  have hw : headText v s ++ (body ++ trailer) ++ rest
      = headText v s ++ (body ++ (trailer ++ rest)) := by simp
  simp only [List.length_append] at hlen ⊢
  have hb : int64 (((headText v s).length : ℤ) + body.length)
      = ((headText v s ++ body).length : ℕ) := by
    rw [List.length_append]
    exact int64_of_isInt64 ⟨by omega, by omega⟩
  have hb7 : int64 ((((headText v s ++ body).length : ℕ) : ℤ) + 7)
      = ((headText v s ++ body).length : ℕ) + 7 := by
    rw [List.length_append]
    exact int64_of_isInt64 ⟨by omega, by omega⟩
  rw [hw, frameEnd_headText hv hs, hL, frameEndFrom, if_neg (by omega), hb, hb7,
    if_neg (by simp only [List.length_append]; omega), ← List.append_assoc]
  rcases checkTrailer_append (a := headText v s ++ body) h7 (by rw [List.length_append]; omega)
    rest with ⟨-, hok⟩ | ⟨hno, -⟩
  · rw [hok, List.length_append, h7]
    exact congrArg Except.ok (by omega)
  · exact absurd htr hno

/-- **Where no position wraps around, the framer is safe**: it asks for more, or ends at a frame.  A
frame ends there if the buffer holds the body and seven bytes more. -/
theorem frameEnd_of_not_overflows {buf : Bytes} (h : ¬ LengthOverflows buf) :
    findBodyLengthFrameEnd buf = .ok (-1)
      ∨ ∃ w rest, buf = w ++ rest ∧ IsFrame w ∧ w.length < 2 ^ 63
        ∧ findBodyLengthFrameEnd buf = .ok w.length := by
  rcases frameEnd_cases buf with hmore | ⟨v, s, rest, hv, hs, hbuf⟩
  · exact Or.inl hmore
  have hfrom := frameEnd_headText hv hs rest
  rw [← hbuf] at hfrom
  rw [hfrom]
  cases hL : sscanfInt s with
  | none => exact Or.inl rfl
  | some L =>
    rw [frameEndFrom]
    by_cases h0 : L < 0
    · exact Or.inl (if_pos h0)
    have hfit : ((headText v s).length : ℤ) + L + 7 < 2 ^ 63 := by
      by_contra hover
      exact h ⟨v, s, rest, L, hbuf, hv, hs, hL, by omega, by omega⟩
    have hb : int64 (((headText v s).length : ℤ) + L) = (headText v s).length + L :=
      int64_of_isInt64 ⟨by omega, by omega⟩
    have hb7 : int64 (((headText v s).length : ℤ) + L + 7) = (headText v s).length + L + 7 :=
      int64_of_isInt64 ⟨by omega, by omega⟩
    rw [if_neg h0, hb, hb7]
    by_cases hshort : (buf.length : ℤ) < (headText v s).length + L + 7
    · exact Or.inl (if_pos hshort)
    obtain ⟨n, rfl⟩ : ∃ n : ℕ, L = n := ⟨L.toNat, by omega⟩
    have hlenr : n + 7 ≤ rest.length := by
      rw [hbuf, List.length_append] at hshort
      omega
    have htlen : ((rest.drop n).take 7).length = 7 := by
      rw [List.length_take, List.length_drop]
      omega
    have hnlen : (rest.take n).length = n := by
      rw [List.length_take]
      omega
    have hsplit : buf = (headText v s ++ rest.take n)
        ++ ((rest.drop n).take 7 ++ (rest.drop n).drop 7) := by
      rw [List.take_append_drop, List.append_assoc, List.take_append_drop, hbuf]
    have hpos : ((headText v s).length : ℤ) + n = ((headText v s ++ rest.take n).length : ℕ) := by
      rw [List.length_append, hnlen]
      rfl
    have hcheck := checkTrailer_append (a := headText v s ++ rest.take n) htlen (by omega)
      ((rest.drop n).drop 7)
    rw [← hsplit, ← hpos] at hcheck
    rw [if_neg hshort]
    rcases hcheck with ⟨htr, hok⟩ | ⟨-, hmore⟩
    · refine Or.inr ⟨headText v s ++ (rest.take n ++ (rest.drop n).take 7), (rest.drop n).drop 7, ?_,
        ⟨v, s, rest.take n, _, rfl, hv, hs, by rw [hL, hnlen], htr⟩, ?_, ?_⟩
      · rw [hsplit]
        simp only [List.append_assoc]
      · simp only [List.length_append, hnlen, htlen]
        omega
      · rw [hok]
        simp only [List.length_append, hnlen, htlen]
        exact congrArg Except.ok (by omega)
    · exact Or.inl hmore

/-- **Where a position wraps around, the framer panics.**  That of the end of the body becomes
negative; or only that of the trailer does, and the end of the body lies behind the buffer. -/
theorem frameEnd_of_overflows {buf : Bytes} (h : LengthOverflows buf)
    (hlen : buf.length + 7 < 2 ^ 63) : ∃ e, findBodyLengthFrameEnd buf = .error e := by
  obtain ⟨v, s, rest, L, rfl, hv, hs, hL, h0, hover⟩ := h
  have hLint := isInt64_of_sscanfInt hL
  obtain ⟨-, hLtop⟩ := hLint
  have hhead : (headText v s).length + 7 < 2 ^ 63 := by
    rw [List.length_append] at hlen
    omega
  rw [frameEnd_headText hv hs, hL, frameEndFrom, if_neg (by omega)]
  by_cases hwrap : 2 ^ 63 ≤ ((headText v s).length : ℤ) + L
  · have hb : int64 (((headText v s).length : ℤ) + L) = (headText v s).length + L - 2 ^ 64 :=
      int64_of_overflow hwrap (by omega)
    have hb7 : int64 (((headText v s).length : ℤ) + L - 2 ^ 64 + 7)
        = (headText v s).length + L - 2 ^ 64 + 7 := int64_of_isInt64 ⟨by omega, by omega⟩
    rw [hb, hb7, if_neg (by omega), checkTrailer, sliceFrom, if_neg (by omega)]
    exact ⟨_, rfl⟩
  · have hb : int64 (((headText v s).length : ℤ) + L) = (headText v s).length + L :=
      int64_of_isInt64 ⟨by omega, by omega⟩
    have hb7 : int64 (((headText v s).length : ℤ) + L + 7)
        = (headText v s).length + L + 7 - 2 ^ 64 := int64_of_overflow hover (by omega)
    rw [hb, hb7, if_neg (by omega), checkTrailer, sliceFrom, if_neg (by omega)]
    exact ⟨_, rfl⟩

/-- A frame that fits a buffer does not overflow, whatever follows it. -/
theorem IsFrame.not_overflows {w : Bytes} (h : IsFrame w) (hlen : w.length < 2 ^ 63) (y : Bytes) :
    ¬ LengthOverflows (w ++ y) := by
  rintro ⟨v', s', rest, L, hw', hv', hs', hL', -, hover⟩
  obtain ⟨v, s, body, trailer, rfl, hv, hs, hL, htr⟩ := h
  rw [List.append_assoc] at hw'
  obtain ⟨rfl, rfl, -⟩ := headText_inj hv' hv hs' hs hw'.symm
  have h7 := length_of_isTrailer htr
  rw [hL] at hL'
  obtain rfl := Option.some.inj hL'
  simp only [List.length_append] at hlen
  omega

/-- A stream begins with one frame only. -/
theorem IsFrame.eq_of_append {f g s t : Bytes} (hf : IsFrame f) (hg : IsFrame g)
    (h : f ++ s = g ++ t) : f = g ∧ s = t := by
  obtain ⟨v, n, body, trailer, rfl, hv, hn, hlen, htr⟩ := hf
  obtain ⟨v', n', body', trailer', rfl, hv', hn', hlen', htr'⟩ := hg
  have hhead := h
  rw [List.append_assoc, List.append_assoc (headText v' n')] at hhead
  obtain ⟨rfl, rfl, -⟩ := headText_inj hv hv' hn hn' hhead
  have hbody : body.length = body'.length :=
    Int.ofNat_inj.mp (Option.some.inj (hlen.symm.trans hlen'))
  refine List.append_inj h ?_
  rw [List.length_append, List.length_append, List.length_append, List.length_append, hbody,
    length_of_isTrailer htr, length_of_isTrailer htr']

/-- **A proper prefix of a frame asks for more.**  A shorter frame at its head would end where the
frame does. -/
theorem frameEnd_of_prefix {w p x : Bytes} (h : IsFrame w) (hlen : w.length < 2 ^ 63)
    (hw : w = p ++ x) (hx : x ≠ []) : findBodyLengthFrameEnd p = .ok (-1) := by
  have hsafe : ¬ LengthOverflows p := fun hp =>
    h.not_overflows hlen [] (by rw [List.append_nil, hw]; exact hp.append x)
  rcases frameEnd_of_not_overflows hsafe with hmore | ⟨w', rest, hp, hw', hlen', -⟩
  · exact hmore
  · have h1 := frameEnd_of_isFrame h hlen []
    have h2 := frameEnd_of_isFrame hw' hlen' (rest ++ x)
    rw [List.append_nil] at h1
    rw [← List.append_assoc, ← hp, ← hw, h1] at h2
    have h3 := Except.ok.inj h2
    have hpos := List.length_pos_iff.mpr hx
    rw [hw, hp] at h3
    simp only [List.length_append] at h3
    omega

/-- A heartbeat on the wire. -/
def heartbeatFrame : Bytes := ascii "8=FIX.4.4\x019=5\x0135=0\x0110=163\x01"

theorem isFrame_heartbeatFrame : IsFrame heartbeatFrame ∧ heartbeatFrame.length < 2 ^ 63 :=
  ⟨⟨ascii "FIX.4.4", ascii "5", ascii "35=0\x01", ascii "10=163\x01", rfl, by decide, by decide,
    by decide +kernel, ⟨49, 54, 51, by decide, by decide, by decide, by decide⟩⟩, by decide⟩

/-- What the read loop makes of a result of the framer. -/
def scanFrame (buf : Bytes) : Framing.Verdict BoundsPanic :=
  match findBodyLengthFrameEnd buf with
  | .error e => .fail e
  | .ok n => if n < 0 then .more else .frame n.toNat

/-- **A frame frames itself.** -/
theorem selfFraming_of_isFrame {w : Bytes} (h : IsFrame w) (hlen : w.length < 2 ^ 63) :
    Framing.SelfFraming scanFrame w where
  pos := by
    obtain ⟨v, s, body, trailer, rfl, -⟩ := h
    have hhead := length_headText v s
    rw [List.length_append]
    omega
  frame rest := by
    rw [scanFrame, frameEnd_of_isFrame h hlen rest]
    dsimp only
    rw [if_neg (by omega), Int.toNat_natCast]
  more p x hw hx := by
    rw [scanFrame, frameEnd_of_prefix h hlen hw hx]
    rfl

end FixMsg
