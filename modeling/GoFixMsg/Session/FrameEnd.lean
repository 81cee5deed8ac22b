import GoFixMsg.Machinery.Framing
import GoFixMsg.Message.FixMessage

/-!
# Session/FrameEnd — where the first frame of a buffer ends

`findBodyLengthFrameEnd` reads `8=<BeginString>` and `9=<BodyLength>` off the head of the buffer and
looks for `10=<CheckSum>` behind as many bytes as tag 9 says.  Positions are Go `int`s: the sums on
the declared length wrap around, so every index and slice expression is a checked one here.
-/

open GoLang

namespace FixMsg

/-! ## Index and slice expressions -/

/-- The two run-time panics of an index or slice expression out of range. -/
inductive BoundsPanic where
  | index
  | slice
  deriving DecidableEq

/-- `buf[i]`. -/
def index (buf : Bytes) (i : ℤ) : Except BoundsPanic UInt8 :=
  if 0 ≤ i ∧ i < buf.length then .ok (buf.getD i.toNat 0) else .error .index

/-- `buf[i:]`. -/
def sliceFrom (buf : Bytes) (i : ℤ) : Except BoundsPanic Bytes :=
  if 0 ≤ i ∧ i ≤ buf.length then .ok (buf.drop i.toNat) else .error .slice

/-- `buf[i:j]`, up to the length of the buffer. -/
def slice (buf : Bytes) (i j : ℤ) : Except BoundsPanic Bytes :=
  if 0 ≤ i ∧ i ≤ j ∧ j ≤ buf.length then .ok ((buf.take j.toNat).drop i.toNat) else .error .slice

/-- `bytes.IndexByte`. -/
def indexByte (buf : Bytes) (c : UInt8) : ℤ :=
  match buf.idxOf? c with
  | some i => i
  | none => -1

/-- `bytes.HasPrefix`. -/
def hasPrefix (buf pre : Bytes) : Bool := pre.isPrefixOf buf

/-- `buf[i] < '0' || buf[i] > '9'`. -/
def notDigit (buf : Bytes) (i : ℤ) : Except BoundsPanic Bool := do
  return !Decimal.isDigit (← index buf i)

/-- The last two steps of `findBodyLengthFrameEnd`: `10=`, three digits and SOH at `bodyEnd`.  Each
operand of the disjunction is evaluated only if those before it are false. -/
def checkTrailer (buf : Bytes) (bodyEnd : ℤ) : Except BoundsPanic ℤ := do
  if !hasPrefix (← sliceFrom buf bodyEnd) (ascii "10=") then return -1
  if ← notDigit buf (int64 (bodyEnd + 3)) then return -1
  if ← notDigit buf (int64 (bodyEnd + 4)) then return -1
  if ← notDigit buf (int64 (bodyEnd + 5)) then return -1
  if (← index buf (int64 (bodyEnd + 6))) != soh then return -1
  return int64 (bodyEnd + 7)

/-- **`findBodyLengthFrameEnd`**: the end of the first frame of the buffer, or `-1`. -/
def findBodyLengthFrameEnd (buf : Bytes) : Except BoundsPanic ℤ := do
  if buf.length < 3 || !hasPrefix buf (ascii "8=") then return -1
  let beginStringEnd := indexByte buf soh
  if beginStringEnd < 0 then return -1
  let bodyLengthStart := beginStringEnd + 1
  if bodyLengthStart + 3 > buf.length then return -1
  if !hasPrefix (← sliceFrom buf bodyLengthStart) (ascii "9=") then return -1
  let bodyLengthValStart := bodyLengthStart + 2
  let bodyLengthValEnd := indexByte (← sliceFrom buf bodyLengthValStart) soh
  if bodyLengthValEnd < 0 then return -1
  let bodyLengthValEnd := bodyLengthValEnd + bodyLengthValStart
  let bodyLengthStr ← slice buf bodyLengthValStart bodyLengthValEnd
  match sscanfInt bodyLengthStr with
  | none => return -1
  | some bodyLength =>
      if bodyLength < 0 then return -1
      let bodyStart := bodyLengthValEnd + 1
      let bodyEnd := int64 (bodyStart + bodyLength)
      if buf.length < int64 (bodyEnd + 7) then return -1
      checkTrailer buf bodyEnd

example :
    findBodyLengthFrameEnd (ascii "8=FIX.4.4\x019=5\x0135=0\x0110=163\x01") = .ok 26 := by
  decide +kernel

/-! ## The head of a frame

The head is read in one way whatever follows it, so the function falls in two: reading the head, and
what it goes on to do with a BodyLength and the place where the body begins. -/

/-- `8=<BeginString>` and `9=<BodyLength>`, with these texts as values. -/
def headText (v s : Bytes) : Bytes := ascii "8=" ++ (v ++ soh :: (ascii "9=" ++ (s ++ [soh])))

theorem length_headText (v s : Bytes) : (headText v s).length = v.length + s.length + 6 := by
  simp [headText, ascii]
  omega

theorem indexByte_append_cons {c : UInt8} {a : Bytes} (ha : c ∉ a) (b : Bytes) :
    indexByte (a ++ c :: b) c = a.length := by
  rw [indexByte, idxOf?_append_cons ha]

/-- A byte that is found cuts the buffer. -/
theorem eq_of_indexByte {buf : Bytes} {c : UInt8} (h : ¬ indexByte buf c < 0) :
    ∃ a b, buf = a ++ c :: b ∧ c ∉ a ∧ indexByte buf c = a.length := by
  cases hc : cutAt c buf with
  | none =>
    rw [cutAt, Option.map_eq_none_iff] at hc
    rw [indexByte, hc] at h
    exact absurd (by decide) h
  | some ab =>
    obtain ⟨heq, hnot⟩ := eq_of_cutAt hc
    refine ⟨ab.1, ab.2, heq, hnot, ?_⟩
    conv_lhs => rw [heq]
    exact indexByte_append_cons hnot _

theorem index_append {buf a b : Bytes} {x : UInt8} (h : buf = a ++ x :: b) {i : ℤ}
    (hi : i = a.length) : index buf i = .ok x := by
  subst h hi
  rw [index, if_pos (by simp), Int.toNat_natCast]
  simp

theorem sliceFrom_append {buf a b : Bytes} (h : buf = a ++ b) {i : ℤ} (hi : i = a.length) :
    sliceFrom buf i = .ok b := by
  subst h hi
  rw [sliceFrom, if_pos (by simp), Int.toNat_natCast, List.drop_left' rfl]

theorem slice_append {buf a b c : Bytes} (h : buf = a ++ (b ++ c)) {i j : ℤ} (hi : i = a.length)
    (hj : j = (a ++ b).length) : slice buf i j = .ok b := by
  subst h hi hj
  rw [slice, if_pos (by simp only [List.length_append]; omega), Int.toNat_natCast,
    Int.toNat_natCast, ← List.append_assoc, List.take_left' rfl, List.drop_left' rfl]

theorem hasPrefix_iff {buf pre : Bytes} : hasPrefix buf pre = true ↔ ∃ t, buf = pre ++ t := by
  rw [hasPrefix, List.isPrefixOf_iff_prefix]
  exact ⟨fun ⟨t, h⟩ => ⟨t, h.symm⟩, fun ⟨t, h⟩ => ⟨t, h.symm⟩⟩

/-- What `findBodyLengthFrameEnd` goes on to do once the head is read: the declared length, and the
buffer with the head taken off. -/
def frameEndFrom (buf : Bytes) (bodyStart : ℤ) : Option ℤ → Except BoundsPanic ℤ
  | none => .ok (-1)
  | some bodyLength =>
      if bodyLength < 0 then .ok (-1)
      else if buf.length < int64 (int64 (bodyStart + bodyLength) + 7) then .ok (-1)
      else checkTrailer buf (int64 (bodyStart + bodyLength))

/-- **A buffer with a whole head**: what is left to do depends on the declared length. -/
theorem frameEnd_headText {v s : Bytes} (hv : soh ∉ v) (hs : soh ∉ s) (rest : Bytes) :
    findBodyLengthFrameEnd (headText v s ++ rest)
      = frameEndFrom (headText v s ++ rest) (headText v s).length (sscanfInt s) := by
  have hlen := length_headText v s
  have hbuf : headText v s ++ rest
      = (ascii "8=" ++ v) ++ soh :: (ascii "9=" ++ (s ++ soh :: rest)) := by
    simp [headText]
  have hbuf9 : headText v s ++ rest
      = ((ascii "8=" ++ v) ++ [soh]) ++ (ascii "9=" ++ (s ++ soh :: rest)) := by
    simp [headText]
  have hbufs : headText v s ++ rest
      = ((ascii "8=" ++ v) ++ soh :: ascii "9=") ++ (s ++ soh :: rest) := by
    simp [headText]
  have h8 : (!hasPrefix (headText v s ++ rest) (ascii "8=")) = false := by
    rw [Bool.not_eq_false', hasPrefix_iff, hbuf]
    exact ⟨_, List.append_assoc _ _ _⟩
  have h9 : (!hasPrefix (ascii "9=" ++ (s ++ soh :: rest)) (ascii "9=")) = false := by
    rw [Bool.not_eq_false', hasPrefix_iff]
    exact ⟨_, rfl⟩
  have h3 : decide ((headText v s ++ rest).length < 3) = false := by
    rw [decide_eq_false_iff_not, List.length_append]
    omega
  have hv8 : soh ∉ ascii "8=" ++ v := by
    rw [List.mem_append, not_or]
    exact ⟨by decide, hv⟩
  have hn : (ascii "8=" ++ v).length = v.length + 2 := by simp [ascii]
  have hidx : indexByte (headText v s ++ rest) soh = ((v.length + 2 : ℕ) : ℤ) := by
    rw [hbuf, indexByte_append_cons hv8, hn]
  have hslice9 := sliceFrom_append hbuf9 (i := ((v.length + 2 : ℕ) : ℤ) + 1)
    (by rw [List.length_append, hn]; rfl)
  have hslices := sliceFrom_append hbufs (i := ((v.length + 2 : ℕ) : ℤ) + 1 + 2)
    (by rw [List.length_append, hn]; rfl)
  have hval := slice_append hbufs (i := ((v.length + 2 : ℕ) : ℤ) + 1 + 2)
    (j := (s.length : ℤ) + (((v.length + 2 : ℕ) : ℤ) + 1 + 2))
    (by rw [List.length_append, hn]; rfl)
    (by simp only [List.length_append, hn, List.length_cons]; simp [ascii]; omega)
  have hstart : (s.length : ℤ) + (((v.length + 2 : ℕ) : ℤ) + 1 + 2) + 1
      = (headText v s).length := by omega
  unfold findBodyLengthFrameEnd
  rw [h8, h3, hidx]
  simp only [Bool.or_false, Bool.false_eq_true, if_false, hslice9, hslices,
    indexByte_append_cons hs, bind, Except.bind, h9, hval, hstart]
  rw [if_neg (by omega), if_neg (by simp only [List.length_append]; omega), if_neg (by omega)]
  cases sscanfInt s <;> rfl

/-- **A buffer without a whole head** makes `findBodyLengthFrameEnd` ask for more.  No SOH stands in
`8=`, so the text in front of the first SOH begins with it. -/
theorem frameEnd_cases (buf : Bytes) :
    findBodyLengthFrameEnd buf = .ok (-1)
      ∨ ∃ v s rest, soh ∉ v ∧ soh ∉ s ∧ buf = headText v s ++ rest := by
  by_cases h8 : (decide (buf.length < 3) || !hasPrefix buf (ascii "8=")) = true
  · left
    rw [findBodyLengthFrameEnd, if_pos h8]
    rfl
  by_cases hidx : indexByte buf soh < 0
  · left
    rw [findBodyLengthFrameEnd, if_neg h8]
    simp only [if_pos hidx]
    rfl
  obtain ⟨a, b, hbuf, ha, hia⟩ := eq_of_indexByte hidx
  by_cases h3 : (a.length : ℤ) + 1 + 3 > buf.length
  · left
    rw [findBodyLengthFrameEnd, if_neg h8]
    simp only [hia, if_pos h3]
    rfl
  have hslice : sliceFrom buf ((a.length : ℤ) + 1) = .ok b :=
    sliceFrom_append (a := a ++ [soh]) (by rw [hbuf]; simp) (by simp)
  by_cases h9 : (!hasPrefix b (ascii "9=")) = true
  · left
    rw [findBodyLengthFrameEnd, if_neg h8]
    simp only [hia, if_neg h3, hslice, bind, Except.bind, if_pos h9]
    rfl
  obtain ⟨b', hb'⟩ := hasPrefix_iff.mp (by simpa using h9)
  have hslice' : sliceFrom buf ((a.length : ℤ) + 1 + 2) = .ok b' :=
    sliceFrom_append (a := a ++ soh :: ascii "9=") (by rw [hbuf, hb']; simp) (by simp [ascii]; omega)
  by_cases hval : indexByte b' soh < 0
  · left
    rw [findBodyLengthFrameEnd, if_neg h8]
    simp only [hia, if_neg h3, hslice, bind, Except.bind, if_neg h9, hslice',
      if_pos hval]
    rfl
  obtain ⟨s, rest, hs', hs, -⟩ := eq_of_indexByte hval
  right
  have hpre : hasPrefix buf (ascii "8=") = true := by
    simp only [Bool.or_eq_true, not_or, Bool.not_eq_true', Bool.not_eq_false] at h8
    exact h8.2
  obtain ⟨t, ht⟩ := hasPrefix_iff.mp hpre
  rw [hbuf] at ht
  change a ++ soh :: b = 56 :: 61 :: t at ht
  match a, ha, ht with
  | [], _, ht => exact absurd (List.cons.inj ht).1 (by decide)
  | [_], _, ht => exact absurd (List.cons.inj (List.cons.inj ht).2).1 (by decide)
  | x :: y :: v, ha, ht =>
    obtain ⟨hx, ht'⟩ := List.cons.inj ht
    obtain ⟨hy, -⟩ := List.cons.inj ht'
    subst hx hy
    refine ⟨v, s, rest, fun h => ha ?_, hs, ?_⟩
    · exact List.mem_cons_of_mem _ (List.mem_cons_of_mem _ h)
    · rw [hbuf, hb', hs', headText]
      simp [ascii]

/-! ## The trailer -/

/-- `10=` and a checksum of three characters. -/
def trailerText (a b c : UInt8) : Bytes := ascii "10=" ++ [a, b, c, soh]

/-- The bytes a trailer consists of, with digits in it. -/
def IsTrailer (t : Bytes) : Prop :=
  ∃ a b c, t = trailerText a b c ∧ Decimal.isDigit a = true ∧ Decimal.isDigit b = true
    ∧ Decimal.isDigit c = true

theorem notDigit_append {buf a b : Bytes} {x : UInt8} (h : buf = a ++ x :: b) {i : ℤ}
    (hi : i = a.length) : notDigit buf i = .ok (!Decimal.isDigit x) := by
  rw [notDigit, index_append h hi]
  rfl

/-- **With seven bytes left, the trailer is there or it is not**: no index is out of range. -/
theorem checkTrailer_append {a t : Bytes} (ht : t.length = 7) (ha : a.length + 7 < 2 ^ 63)
    (rest : Bytes) :
    (IsTrailer t ∧ checkTrailer (a ++ (t ++ rest)) a.length = .ok ((a.length : ℤ) + 7))
      ∨ (¬ IsTrailer t ∧ checkTrailer (a ++ (t ++ rest)) a.length = .ok (-1)) := by
  match t, ht with
  | [x, y, z, d, e, f, g], _ =>
    have hint : ∀ k : ℤ, 0 ≤ k → k ≤ 7 → int64 ((a.length : ℤ) + k) = a.length + k := by
      intro k h0 h7
      exact int64_of_isInt64 ⟨by omega, by omega⟩
    have hslice : sliceFrom (a ++ ([x, y, z, d, e, f, g] ++ rest)) a.length
        = .ok ([x, y, z, d, e, f, g] ++ rest) := sliceFrom_append rfl rfl
    have hd : notDigit (a ++ ([x, y, z, d, e, f, g] ++ rest)) (a.length + 3)
        = .ok (!Decimal.isDigit d) :=
      notDigit_append (a := a ++ [x, y, z]) (b := e :: f :: g :: rest) (by simp) (by simp)
    have he : notDigit (a ++ ([x, y, z, d, e, f, g] ++ rest)) (a.length + 4)
        = .ok (!Decimal.isDigit e) :=
      notDigit_append (a := a ++ [x, y, z, d]) (b := f :: g :: rest) (by simp) (by simp)
    have hf : notDigit (a ++ ([x, y, z, d, e, f, g] ++ rest)) (a.length + 5)
        = .ok (!Decimal.isDigit f) :=
      notDigit_append (a := a ++ [x, y, z, d, e]) (b := g :: rest) (by simp) (by simp)
    have hg : index (a ++ ([x, y, z, d, e, f, g] ++ rest)) (a.length + 6) = .ok g :=
      index_append (a := a ++ [x, y, z, d, e, f]) (b := rest) (by simp) (by simp)
    have hpre : hasPrefix ([x, y, z, d, e, f, g] ++ rest) (ascii "10=")
        = decide (x = 49 ∧ y = 48 ∧ z = 61) := by
      rw [Bool.eq_iff_iff, hasPrefix_iff, decide_eq_true_eq]
      constructor
      · rintro ⟨u, hu⟩
        obtain ⟨h1, hu⟩ := List.cons.inj hu
        obtain ⟨h2, hu⟩ := List.cons.inj hu
        exact ⟨h1, h2, (List.cons.inj hu).1⟩
      · rintro ⟨rfl, rfl, rfl⟩
        exact ⟨_, rfl⟩
    have htrailer : IsTrailer [x, y, z, d, e, f, g] ↔ (x = 49 ∧ y = 48 ∧ z = 61)
        ∧ Decimal.isDigit d = true ∧ Decimal.isDigit e = true ∧ Decimal.isDigit f = true
        ∧ g = soh := by
      constructor
      · rintro ⟨a', b', c', h, hda, hdb, hdc⟩
        cases h
        exact ⟨⟨rfl, rfl, rfl⟩, hda, hdb, hdc, rfl⟩
      · rintro ⟨⟨rfl, rfl, rfl⟩, hda, hdb, hdc, rfl⟩
        exact ⟨d, e, f, rfl, hda, hdb, hdc⟩
    rw [htrailer, checkTrailer, hint 3 (by decide) (by decide), hint 4 (by decide) (by decide),
      hint 5 (by decide) (by decide), hint 6 (by decide) (by decide),
      hint 7 (by decide) (by decide), hd, he, hf, hg, hslice]
    simp only [bind, Except.bind, hpre]
    by_cases hx : x = 49 ∧ y = 48 ∧ z = 61 <;> cases Decimal.isDigit d <;>
      cases Decimal.isDigit e <;> cases Decimal.isDigit f <;> by_cases hs : g = soh <;>
      simp [hx, hs, pure, Except.pure]

end FixMsg
