import GoFixMsg.GoLang.Scan
import GoFixMsg.Session.Framer

/-!
# Session/Grammar — the frames the framer is meant to accept

BodyLength is documented as the digits between `9=` and the next SOH, and `Sscanf` reads more than
digits: space and a sign before them, anything behind them.  So the framer accepts the frames of the
grammar, and besides them those whose length only reads as the right number (`framesExactly_iff`).

The two ways of reading a number agree on digits.  So a frame of the grammar is always taken, and
whether the framer takes anything else is a question of one value: whether the text of tag 9 has
something other than digits in it, and still scans as the length of the body.
-/

open GoLang

namespace FixMsg

/-- Every byte is a decimal digit. -/
def AllDigits (s : Bytes) : Prop := ∀ b ∈ s, Decimal.isDigit b = true

instance (s : Bytes) : Decidable (AllDigits s) :=
  List.decidableBAll (fun b => Decimal.isDigit b = true) s

/-- **A frame by the grammar**: BeginString, BodyLength in digits, as many bytes, and CheckSum in
three digits. -/
def IsStrictFrame (w : Bytes) : Prop :=
  ∃ v d body c, w = headText v d ++ (body ++ (ascii "10=" ++ (c ++ [soh]))) ∧ soh ∉ v
    ∧ d ≠ [] ∧ AllDigits d ∧ Decimal.value d = body.length ∧ c.length = 3 ∧ AllDigits c

/-- **A frame whose BodyLength reads as a number**, but has something other than digits in it. -/
def IsLenientFrame (w : Bytes) : Prop :=
  ∃ v s body t, w = headText v s ++ (body ++ t) ∧ soh ∉ v ∧ soh ∉ s ∧ ¬ AllDigits s
    ∧ sscanfInt s = some (body.length : ℤ) ∧ IsTrailer t

theorem AllDigits.soh_notMem {s : Bytes} (h : AllDigits s) : soh ∉ s := fun hmem =>
  absurd (h soh hmem) (by decide)

/-- CheckSum is a trailer exactly if it is three digits. -/
theorem isTrailer_iff {t : Bytes} :
    IsTrailer t ↔ ∃ c, t = ascii "10=" ++ (c ++ [soh]) ∧ c.length = 3 ∧ AllDigits c := by
  constructor
  · rintro ⟨x, y, z, rfl, hx, hy, hz⟩
    refine ⟨[x, y, z], rfl, rfl, ?_⟩
    simp only [AllDigits, List.forall_mem_cons, List.not_mem_nil, false_implies, implies_true,
      and_true]
    exact ⟨hx, hy, hz⟩
  · rintro ⟨c, rfl, hlen, hdig⟩
    match c, hlen with
    | [x, y, z], _ =>
      simp only [AllDigits, List.forall_mem_cons, List.not_mem_nil, false_implies, implies_true,
        and_true] at hdig
      exact ⟨x, y, z, rfl, hdig⟩

/-- Digits that scan as a length are its numeral. -/
theorem sscanfInt_eq_some_iff {d : Bytes} (hdig : AllDigits d) (hne : d ≠ []) {n : ℕ} :
    sscanfInt d = some (n : ℤ) ↔ Decimal.value d = n ∧ Decimal.value d < 2 ^ 63 := by
  rw [sscanfInt_digits hdig hne, atoi?_digits hdig hne]
  omega

/-- **The frames of the grammar are the frames whose BodyLength is in digits.** -/
theorem isStrictFrame_iff {w : Bytes} (hlen : w.length < 2 ^ 63) :
    IsStrictFrame w ↔ IsFrame w ∧ ¬ IsLenientFrame w := by
  constructor
  · rintro ⟨v, d, body, c, rfl, hv, hne, hdig, hval, hc, hcdig⟩
    have htrailer : IsTrailer (ascii "10=" ++ (c ++ [soh])) := isTrailer_iff.mpr ⟨c, rfl, hc, hcdig⟩
    simp only [List.length_append] at hlen
    refine ⟨⟨v, d, body, _, rfl, hv, hdig.soh_notMem,
      (sscanfInt_eq_some_iff hdig hne).mpr ⟨hval, by omega⟩, htrailer⟩, ?_⟩
    rintro ⟨v', s, body', t, heq, hv', hs, hnot, -⟩
    obtain ⟨-, rfl, -⟩ := headText_inj hv hv' hdig.soh_notMem hs heq
    exact hnot hdig
  · rintro ⟨⟨v, s, body, t, rfl, hv, hs, hscan, htrailer⟩, hstrict⟩
    have hdig : AllDigits s := by
      by_contra hnot
      exact hstrict ⟨v, s, body, t, rfl, hv, hs, hnot, hscan, htrailer⟩
    have hne : s ≠ [] := by
      rintro rfl
      cases hscan
    obtain ⟨c, rfl, hc, hcdig⟩ := isTrailer_iff.mp htrailer
    exact ⟨v, s, body, c, rfl, hv, hne, hdig, ((sscanfInt_eq_some_iff hdig hne).mp hscan).1, hc,
      hcdig⟩

theorem IsLenientFrame.isFrame {w : Bytes} (h : IsLenientFrame w) : IsFrame w := by
  obtain ⟨v, s, body, t, hw, hv, hs, -, hscan, htrailer⟩ := h
  exact ⟨v, s, body, t, hw, hv, hs, hscan, htrailer⟩

/-- **The framer ends at the frames at the head of the buffer**, and at nothing else. -/
theorem frameEnd_eq_iff {buf : Bytes} (hlen : buf.length + 7 < 2 ^ 63) {n : ℕ} :
    findBodyLengthFrameEnd buf = .ok n
      ↔ ∃ w rest, buf = w ++ rest ∧ w.length = n ∧ IsFrame w := by
  constructor
  · intro hend
    have hsafe : ¬ LengthOverflows buf := fun hover => by
      obtain ⟨e, herr⟩ := frameEnd_of_overflows hover hlen
      rw [herr] at hend
      cases hend
    rcases frameEnd_of_not_overflows hsafe with hmore | ⟨w, rest, hbuf, hw, -, hok⟩
    · rw [hmore] at hend
      exact absurd (Except.ok.inj hend) (by omega)
    · rw [hok] at hend
      exact ⟨w, rest, hbuf, Int.ofNat.inj (Except.ok.inj hend), hw⟩
  · rintro ⟨w, rest, rfl, rfl, hw⟩
    rw [List.length_append] at hlen
    exact frameEnd_of_isFrame hw (by omega) rest

/-- **The framer accepts exactly the frames of the grammar** at the head of a buffer, unless there
is one whose BodyLength reads as the right number without being in digits. -/
theorem framesExactly_iff {buf : Bytes} (hlen : buf.length + 7 < 2 ^ 63) :
    (∀ n : ℕ, findBodyLengthFrameEnd buf = .ok n
        ↔ ∃ w rest, buf = w ++ rest ∧ w.length = n ∧ IsStrictFrame w)
      ↔ ¬ ∃ w rest, buf = w ++ rest ∧ IsLenientFrame w := by
  have hfit : ∀ {w rest : Bytes}, buf = w ++ rest → w.length < 2 ^ 63 := by
    rintro w rest rfl
    rw [List.length_append] at hlen
    omega
  constructor
  · rintro hexact ⟨w, rest, hbuf, hlenient⟩
    have hend := (frameEnd_eq_iff hlen).mpr ⟨w, rest, hbuf, rfl, hlenient.isFrame⟩
    obtain ⟨w', rest', hbuf', hlen', hstrict⟩ := (hexact w.length).mp hend
    obtain ⟨rfl, -⟩ := List.append_inj (hbuf'.symm.trans hbuf) hlen'
    exact ((isStrictFrame_iff (hfit hbuf)).mp hstrict).2 hlenient
  · intro hnone n
    rw [frameEnd_eq_iff hlen]
    constructor
    · rintro ⟨w, rest, hbuf, hn, hw⟩
      have hstrict : ¬ IsLenientFrame w := fun h => hnone ⟨w, rest, hbuf, h⟩
      exact ⟨w, rest, hbuf, hn, (isStrictFrame_iff (hfit hbuf)).mpr ⟨hw, hstrict⟩⟩
    · rintro ⟨w, rest, hbuf, hn, hstrict⟩
      exact ⟨w, rest, hbuf, hn, ((isStrictFrame_iff (hfit hbuf)).mp hstrict).1⟩

/-- A heartbeat whose BodyLength has a letter behind its digit. -/
def lenientHeartbeat : Bytes := ascii "8=FIX.4.4\x019=5X\x0135=0\x0110=163\x01"

/-- It is accepted, and is no frame of the grammar. -/
theorem framesLeniently : findBodyLengthFrameEnd lenientHeartbeat = .ok 27
    ∧ ¬ ∃ w rest, lenientHeartbeat = w ++ rest ∧ w.length = 27 ∧ IsStrictFrame w := by
  refine ⟨by decide +kernel, ?_⟩
  rintro ⟨w, rest, hw, -, v, d, body, c, rfl, hv, -, hdig, -⟩
  have hhead : lenientHeartbeat
      = headText (ascii "FIX.4.4") (ascii "5X") ++ ascii "35=0\x0110=163\x01" := by decide
  rw [hhead, List.append_assoc] at hw
  obtain ⟨-, rfl, -⟩ := headText_inj (by decide) hv (by decide) hdig.soh_notMem hw
  exact absurd hdig (by decide)

/-- The framer accepts what it is meant to of an undamaged heartbeat. -/
theorem framesExactly_heartbeat :
    ∃ w rest, ascii "8=FIX.4.4\x019=5\x0135=0\x0110=163\x01" = w ++ rest ∧ w.length = 26
      ∧ IsStrictFrame w := by
  refine ((framesExactly_iff (by decide)).mpr ?_ 26).mp (by decide +kernel)
  rintro ⟨w, rest, hw, v, s, body, t, rfl, hv, hs, hnot, -⟩
  have hhead : ascii "8=FIX.4.4\x019=5\x0135=0\x0110=163\x01"
      = headText (ascii "FIX.4.4") (ascii "5") ++ ascii "35=0\x0110=163\x01" := by decide
  rw [hhead, List.append_assoc] at hw
  obtain ⟨-, rfl, -⟩ := headText_inj (by decide) hv (by decide) hs hw
  exact absurd (show AllDigits (ascii "5") by decide) hnot

end FixMsg
