import GoFixMsg.GoLang.Scan
import GoFixMsg.Session.Segmentation

/-!
# Session/Malformed — a head of the buffer that can never become a frame

`findBodyLengthFrameEnd` returns `-1` for a frame that is not complete yet, and for one that is
damaged.  The damaged ones are told apart here by what is wrong with them (`Malformed`); they are
the buffers no continuation helps (`doomed_iff_malformed`).

The grammar looks at the bytes that are there.  A buffer is malformed if it differs from `8=`, or
behind the value from `9=`; if the value of tag 9 scans as no length, however it goes on; or if the
body is complete and what follows differs from every trailer.
-/

open GoLang

namespace FixMsg

/-! ## Texts that differ -/

/-- Neither text is the beginning of the other. -/
def Apart (a b : Bytes) : Prop := ¬ a <+: b ∧ ¬ b <+: a

theorem Apart.append_ne {a b : Bytes} (h : Apart a b) (x y : Bytes) : a ++ x ≠ b ++ y := by
  intro heq
  have ha : a <+: b ++ y := ⟨x, heq⟩
  rcases List.prefix_or_prefix_of_prefix ha (List.prefix_append b y) with hab | hba
  · exact h.1 hab
  · exact h.2 hba

theorem Apart.append {a b : Bytes} (h : Apart a b) (x : Bytes) : Apart (a ++ x) b :=
  ⟨fun ⟨y, hy⟩ => h.1 ⟨x ++ y, by rw [← hy, List.append_assoc]⟩,
    fun ⟨y, hy⟩ => h.append_ne x y hy.symm⟩

theorem eq_of_not_apart {a b : Bytes} (h : ¬ Apart a b) :
    (∃ x, a ++ x = b) ∨ ∃ x, a = b ++ x := by
  rw [Apart, not_and_or, not_not, not_not] at h
  rcases h with ⟨x, hx⟩ | ⟨x, hx⟩
  · exact Or.inl ⟨x, hx⟩
  · exact Or.inr ⟨x, hx.symm⟩

theorem headText_append (v s rest : Bytes) :
    headText v s ++ rest = ascii "8=" ++ (v ++ soh :: (ascii "9=" ++ (s ++ soh :: rest))) := by
  simp [headText]

/-! ## Malformed heads -/

/-- **What can be wrong with the head of a buffer**: it is not `8=`; no `9=` follows BeginString; no
digits make a BodyLength of the value, open or whole; or a body as long as BodyLength says is not
followed by a trailer. -/
inductive Malformed : Bytes → Prop
  | beginString {q} (h : Apart q (ascii "8=")) : Malformed q
  | bodyLength {v rest} (hv : soh ∉ v) (h : Apart rest (ascii "9=")) :
      Malformed (ascii "8=" ++ (v ++ soh :: rest))
  | openValue {v s} (hv : soh ∉ v) (hs : soh ∉ s) (h : ∀ y, soh ∉ y → ¬ ScansNat (s ++ y)) :
      Malformed (ascii "8=" ++ (v ++ soh :: (ascii "9=" ++ s)))
  | value {v s rest} (hv : soh ∉ v) (hs : soh ∉ s) (h : ¬ ScansNat s) :
      Malformed (headText v s ++ rest)
  | trailer {v s body t} (hv : soh ∉ v) (hs : soh ∉ s)
      (hL : sscanfInt s = some (body.length : ℤ))
      (hfit : (headText v s).length + body.length + 7 < 2 ^ 63)
      (h : ∀ c, IsTrailer c → Apart t c) : Malformed (headText v s ++ (body ++ t))

/-- **A malformed buffer that goes on as a whole head** has a bad value, or no trailer.  The value
is the open one, and what came until the SOH. -/
theorem Malformed.head {q x v s rest : Bytes} (hq : Malformed q) (hv : soh ∉ v) (hs : soh ∉ s)
    (h : q ++ x = headText v s ++ rest) :
    ¬ ScansNat s ∨ ∃ body t, rest = body ++ t ∧ sscanfInt s = some (body.length : ℤ)
      ∧ (headText v s).length + body.length + 7 < 2 ^ 63 ∧ ∀ c, IsTrailer c → Apart t c := by
  cases hq with
  | beginString hapart =>
    rw [headText_append] at h
    exact absurd h (hapart.append_ne x _)
  | bodyLength hv' hapart =>
    rw [headText_append, List.append_assoc, List.append_assoc] at h
    obtain ⟨-, hrest⟩ := cut_inj hv' hv (List.append_cancel_left h)
    exact absurd hrest (hapart.append_ne x _)
  | @openValue v' s' hv' hs' hopen =>
    left
    rw [headText_append, List.append_assoc, List.append_assoc, List.cons_append,
      List.append_assoc] at h
    obtain ⟨-, h9⟩ := cut_inj hv' hv (List.append_cancel_left h)
    have hval := List.append_cancel_left h9
    rcases List.append_eq_append_iff.mp hval with ⟨y, rfl, -⟩ | ⟨y, hy, hx⟩
    · refine hopen y fun hmem => hs (List.mem_append_right _ hmem)
    · cases y with
      | nil =>
        rw [List.append_nil] at hy
        have hself := hopen [] List.not_mem_nil
        rwa [List.append_nil, hy] at hself
      | cons c y =>
        rw [List.cons_append] at hx
        obtain ⟨rfl, -⟩ := List.cons.inj hx
        refine absurd ?_ hs'
        rw [hy]
        simp
  | @value v' s' rest' hv' hs' hval =>
    rw [List.append_assoc] at h
    obtain ⟨rfl, rfl, -⟩ := headText_inj hv' hv hs' hs h
    exact Or.inl hval
  | @trailer v' s' body t hv' hs' hL hfit htr =>
    rw [List.append_assoc] at h
    obtain ⟨rfl, rfl, hrest⟩ := headText_inj hv' hv hs' hs h
    refine Or.inr ⟨body, t ++ x, ?_, hL, hfit, fun c hc => (htr c hc).append x⟩
    rw [← hrest, List.append_assoc]

/-- A malformed buffer does not begin with a frame, however it goes on. -/
theorem Malformed.append_ne_frame {q f : Bytes} (hq : Malformed q) (hf : IsFrame f) (x y : Bytes) :
    q ++ x ≠ f ++ y := by
  intro heq
  obtain ⟨v, s, body, c, rfl, hv, hs, hL, hc⟩ := hf
  rw [List.append_assoc, List.append_assoc] at heq
  rcases hq.head hv hs heq with hno | ⟨body', t, hrest, hL', -, hapart⟩
  · exact hno ⟨body.length, hL⟩
  · rw [hL] at hL'
    have hlen : body.length = body'.length := Int.ofNat.inj (Option.some.inj hL')
    obtain ⟨-, ht⟩ := List.append_inj hrest hlen
    have hne := (hapart c hc).append_ne [] y
    rw [List.append_nil] at hne
    exact hne ht.symm

theorem Malformed.ne_frame {q f : Bytes} (hq : Malformed q) (hf : IsFrame f) (y : Bytes) :
    q ≠ f ++ y := by
  have hne := hq.append_ne_frame hf [] y
  rwa [List.append_nil] at hne

theorem Malformed.not_overflows {q : Bytes} (hq : Malformed q) (x : Bytes) :
    ¬ LengthOverflows (q ++ x) := by
  rintro ⟨v, s, rest, L, heq, hv, hs, hL, h0, hover⟩
  obtain ⟨n, rfl⟩ : ∃ n : ℕ, L = n := ⟨L.toNat, by omega⟩
  rcases hq.head hv hs heq with hno | ⟨body, t, -, hL', hfit, -⟩
  · exact hno ⟨n, hL⟩
  · rw [hL] at hL'
    have hlen := Option.some.inj hL'
    omega

/-! ## No continuation helps

The parts of a buffer that are complete stay as they are when bytes are appended.  So each kind of
damage is still there in every continuation, and none of them begins with a frame. -/

/-- **No continuation of the buffer has a frame at its head.** -/
def Doomed (buf : Bytes) : Prop := ∀ x, findBodyLengthFrameEnd (buf ++ x) = .ok (-1)

theorem Doomed.append {buf : Bytes} (h : Doomed buf) (x : Bytes) : Doomed (buf ++ x) := by
  intro y
  rw [List.append_assoc]
  exact h _

/-- **Malformed buffers are doomed.** -/
theorem Malformed.doomed {q : Bytes} (hq : Malformed q) : Doomed q := by
  intro x
  rcases frameEnd_of_not_overflows (hq.not_overflows x) with hmore | ⟨f, y, heq, hf, -, -⟩
  · exact hmore
  · exact absurd heq (hq.append_ne_frame hf x y)

/-! ## Every other buffer has a continuation

What is not malformed breaks off somewhere on the way through a frame, and from each of these places
a frame can be completed: with a value, with a length of zero, or with the bytes the body lacks and
a trailer. -/

theorem not_doomed_of_isFrame {q x f y : Bytes} (hf : IsFrame f) (hlen : f.length < 2 ^ 63)
    (h : q ++ x = f ++ y) : ¬ Doomed q := by
  intro hd
  have hend := frameEnd_of_isFrame hf hlen y
  rw [← h, hd x] at hend
  have hneg := Except.ok.inj hend
  omega

theorem isTrailer_zeros : IsTrailer (ascii "10=000\x01") :=
  ⟨48, 48, 48, rfl, rfl, rfl, rfl⟩

/-- A frame with an empty body. -/
theorem isFrame_empty {v : Bytes} (hv : soh ∉ v) :
    IsFrame (headText v (ascii "0") ++ ([] ++ ascii "10=000\x01")) :=
  ⟨v, ascii "0", [], ascii "10=000\x01", rfl, hv, by decide, by decide, isTrailer_zeros⟩

/-- An open head goes on to a frame with an empty body. -/
theorem not_doomed_of_open {q x v : Bytes} (hv : soh ∉ v) (hlen : v.length + 16 < 2 ^ 63)
    (h : q ++ x = ascii "8=" ++ (v ++ soh :: ascii "9=")) : ¬ Doomed q := by
  refine not_doomed_of_isFrame (isFrame_empty hv) (x := x ++ ascii "0\x0110=000\x01") (y := []) ?_ ?_
  · simp [length_headText, ascii]
    omega
  · rw [← List.append_assoc, h, headText_append]
    simp [ascii, soh]

/-- **A head with a BodyLength has a continuation**, unless a body as long as that is there and
something other than a trailer follows.  A body is filled up to the length; where the declared end is
past the top of Go's `int`, the framer panics. -/
theorem not_doomed_of_scansNat {v s rest : Bytes} (hv : soh ∉ v) (hs : soh ∉ s) (hscan : ScansNat s)
    (hlen : (headText v s ++ rest).length + 7 < 2 ^ 63)
    (htr : ∀ body t, rest = body ++ t → sscanfInt s = some (body.length : ℤ) →
      ∃ c, IsTrailer c ∧ ¬ Apart t c) : ¬ Doomed (headText v s ++ rest) := by
  obtain ⟨n, hn⟩ := hscan
  by_cases hover : 2 ^ 63 ≤ (headText v s).length + n + 7
  · intro hd
    obtain ⟨e, he⟩ := frameEnd_of_overflows
      ⟨v, s, rest, n, rfl, hv, hs, hn, by omega, by omega⟩ hlen
    have hmore := hd []
    rw [List.append_nil, he] at hmore
    cases hmore
  by_cases hshort : rest.length ≤ n
  · have hbody : (rest ++ List.replicate (n - rest.length) 48).length = n := by
      rw [List.length_append, List.length_replicate]
      omega
    have hf : IsFrame (headText v s ++ ((rest ++ List.replicate (n - rest.length) 48)
        ++ ascii "10=000\x01")) :=
      ⟨v, s, _, _, rfl, hv, hs, by rw [hn, hbody], isTrailer_zeros⟩
    refine not_doomed_of_isFrame hf (x := List.replicate (n - rest.length) 48 ++ ascii "10=000\x01")
      (y := []) ?_ ?_
    · rw [List.length_append, List.length_append, hbody, length_of_isTrailer isTrailer_zeros]
      omega
    · simp only [List.append_assoc, List.append_nil]
  · have hbody : (rest.take n).length = n := by
      rw [List.length_take]
      omega
    obtain ⟨c, hc, happ⟩ := htr (rest.take n) (rest.drop n) (List.take_append_drop n rest).symm
      (by rw [hn, hbody])
    have hf : IsFrame (headText v s ++ (rest.take n ++ c)) :=
      ⟨v, s, _, _, rfl, hv, hs, by rw [hn, hbody], hc⟩
    have hflen : (headText v s ++ (rest.take n ++ c)).length < 2 ^ 63 := by
      rw [List.length_append, List.length_append, hbody, length_of_isTrailer hc]
      omega
    have hrest : rest = rest.take n ++ rest.drop n := (List.take_append_drop n rest).symm
    rcases eq_of_not_apart happ with ⟨x, hx⟩ | ⟨x, hx⟩
    · refine not_doomed_of_isFrame hf hflen (x := x) (y := []) ?_
      rw [List.append_nil, List.append_assoc, ← hx, ← List.append_assoc (rest.take n), ← hrest]
    · refine not_doomed_of_isFrame hf hflen (x := []) (y := x) ?_
      rw [List.append_nil, List.append_assoc, List.append_assoc, ← hx, ← hrest]

/-- **A doomed buffer is malformed.**  The head is whole, or its value is still open. -/
theorem malformed_of_doomed {q : Bytes} (hlen : q.length + 16 < 2 ^ 63) (hd : Doomed q) :
    Malformed q := by
  by_contra hm
  by_cases h8 : Apart q (ascii "8=")
  · exact hm (.beginString h8)
  rcases eq_of_not_apart h8 with ⟨x, hx⟩ | ⟨b, rfl⟩
  · refine not_doomed_of_open (x := x ++ soh :: ascii "9=") (v := []) (by simp) (by simp) ?_ hd
    rw [← List.append_assoc, hx, List.nil_append]
  by_cases hb : soh ∈ b
  · obtain ⟨v, rest, rfl, hv⟩ := List.eq_append_cons_of_mem hb
    simp only [List.length_append, List.length_cons] at hlen
    by_cases h9 : Apart rest (ascii "9=")
    · exact hm (.bodyLength hv h9)
    rcases eq_of_not_apart h9 with ⟨x, hx⟩ | ⟨r, rfl⟩
    · refine not_doomed_of_open (x := x) hv (by omega) ?_ hd
      rw [List.append_assoc, List.append_assoc, List.cons_append, hx]
    by_cases hr : soh ∈ r
    · obtain ⟨s, rest, rfl, hs⟩ := List.eq_append_cons_of_mem hr
      rw [← headText_append] at hm hd
      by_cases hscan : ScansNat s
      · refine not_doomed_of_scansNat hv hs hscan ?_ (fun body t hrest hL => ?_) hd
        · simp [length_headText, ascii] at hlen ⊢
          omega
        · by_contra hno
          subst hrest
          refine hm (.trailer hv hs hL ?_ fun c hc => ?_)
          · simp [length_headText, ascii] at hlen ⊢
            omega
          · by_contra happ
            exact hno ⟨c, hc, happ⟩
      · exact hm (.value hv hs hscan)
    · by_cases hopen : ∀ y, soh ∉ y → ¬ ScansNat (r ++ y)
      · exact hm (.openValue hv hr hopen)
      simp only [not_forall, not_not] at hopen
      obtain ⟨y, -, hy⟩ := hopen
      obtain ⟨z, hzlen, hz, hscan⟩ := hy.exists_short
      have hzs : soh ∉ r ++ z := by
        rw [List.mem_append, not_or]
        exact ⟨hr, fun hmem => absurd (hz _ hmem) (by decide)⟩
      refine @not_doomed_of_scansNat v (r ++ z) [] hv hzs hscan ?_ (fun body t hrest _ => ?_) ?_
      · simp [length_headText, ascii] at hlen ⊢
        omega
      · obtain ⟨-, rfl⟩ := List.append_eq_nil_iff.mp hrest.symm
        exact ⟨_, isTrailer_zeros, fun h => h.1 List.nil_prefix⟩
      · have hgo := hd.append (z ++ [soh])
        rw [headText_append]
        simpa only [List.append_assoc, List.cons_append, List.nil_append] using hgo
  · refine not_doomed_of_open (x := soh :: ascii "9=") hb ?_ (List.append_assoc _ _ _) hd
    rw [List.length_append] at hlen
    omega

/-- **A buffer is doomed exactly if it is malformed.** -/
theorem doomed_iff_malformed {q : Bytes} (hlen : q.length + 16 < 2 ^ 63) : Doomed q ↔ Malformed q :=
  ⟨malformed_of_doomed hlen, Malformed.doomed⟩

end FixMsg
