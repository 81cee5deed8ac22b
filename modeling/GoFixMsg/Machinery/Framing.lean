import Mathlib.Data.List.Basic

/-!
# Machinery/Framing — cutting a stream into frames, chunk by chunk

A scanner looks at a buffer and says whether a frame stands at its head.  `drainUpTo` takes frames
off a buffer for as long as there is one; `feed` does so after each arriving chunk.  Words that
frame themselves arrive whole and in order, however their concatenation was cut into chunks
(`feed_flatten`); and where a frame, once found, stays the frame, any stream yields the same frames
and the same rest however it was cut (`Stable.feed_eq_drain`).

There are two ways to use it.  A sender that knows its words are self-framing asks for nothing of
the scanner but what it does on those; a receiver of arbitrary bytes asks that the scanner never
takes a frame back.  In both the chunks may be of any size, empty ones included.
-/

namespace Framing

variable {α ε : Type*}

/-- What a scanner makes of a buffer: it needs more input, the first `n` elements are a frame, or it
fails for good. -/
inductive Verdict (ε : Type*) where
  | more
  | frame (n : ℕ)
  | fail (e : ε)

/-- Take at most `k` frames off a buffer: the frames, and what is left or the failure. -/
def drainUpTo (scan : List α → Verdict ε) : ℕ → List α → List (List α) × Except ε (List α)
  | 0, b => ([], .ok b)
  | k + 1, b =>
      match scan b with
      | .more => ([], .ok b)
      | .fail e => ([], .error e)
      | .frame n =>
          let rest := drainUpTo scan k (b.drop n)
          (b.take n :: rest.1, rest.2)

/-- Drain after each arriving chunk, stopping at the first failure. -/
def feed (scan : List α → Verdict ε) :
    List α → List (List α) → List (List α) × Except ε (List α)
  | b, [] => ([], .ok b)
  | b, c :: cs =>
      let drained := drainUpTo scan ((b ++ c).length + 1) (b ++ c)
      match drained.2 with
      | .ok r => (drained.1 ++ (feed scan r cs).1, (feed scan r cs).2)
      | .error e => (drained.1, .error e)

variable (scan : List α → Verdict ε)

/-- **A word that frames itself**: it is a frame whatever follows it, and a proper prefix of it asks
for more. -/
structure SelfFraming (w : List α) : Prop where
  pos : 0 < w.length
  frame : ∀ rest, scan (w ++ rest) = .frame w.length
  more : ∀ p x, w = p ++ x → x ≠ [] → scan p = .more

variable {scan}

/-- A buffer holds less than the first of the words to come. -/
def Within (r : List α) (ws : List (List α)) : Prop := ∀ w ∈ ws.head?, r.length < w.length

/-- What has been cut off stays so when more arrives. -/
theorem feed_grows (scan : List α → Verdict ε) (b : List α) (cs ds : List (List α)) :
    (feed scan b cs).1 <+: (feed scan b (cs ++ ds)).1 := by
  induction cs generalizing b with
  | nil => exact List.nil_prefix
  | cons c cs ih =>
    rw [List.cons_append, feed, feed]
    generalize drainUpTo scan ((b ++ c).length + 1) (b ++ c) = drained
    obtain ⟨fs, e | r⟩ := drained
    · exact List.prefix_rfl
    · exact (List.prefix_append_right_inj _).mpr (ih r)

/-- **Draining a prefix of a concatenation of self-framing words** takes off the words it holds
whole, and leaves a proper prefix of the next one. -/
theorem drainUpTo_prefix {ws : List (List α)} (h : ∀ w ∈ ws, SelfFraming scan w)
    (hnil : scan [] = .more) {b y : List α} (hb : b ++ y = ws.flatten) {k : ℕ} (hk : b.length < k) :
    ∃ ws₁ ws₂ r, ws = ws₁ ++ ws₂ ∧ drainUpTo scan k b = (ws₁, .ok r) ∧ r ++ y = ws₂.flatten
      ∧ Within r ws₂ := by
  obtain ⟨k, rfl⟩ : ∃ k', k = k' + 1 := ⟨k - 1, by omega⟩
  induction ws generalizing b k with
  | nil =>
    obtain ⟨rfl, rfl⟩ := List.append_eq_nil_iff.mp hb
    exact ⟨[], [], [], rfl, by rw [drainUpTo, hnil], rfl, fun w hw => by cases hw⟩
  | cons w ws ih =>
    have hw := h w List.mem_cons_self
    have hws : ∀ v ∈ ws, SelfFraming scan v := fun v hv => h v (List.mem_cons_of_mem _ hv)
    rw [List.flatten_cons] at hb
    by_cases hlen : w.length ≤ b.length
    · obtain ⟨b', rfl⟩ : ∃ b', b = w ++ b' := by
        rcases List.append_eq_append_iff.mp hb with ⟨x, hx, -⟩ | ⟨x, hx, -⟩
        · refine ⟨[], ?_⟩
          have hx0 : x = [] := by
            rw [← List.length_eq_zero_iff]
            rw [hx, List.length_append] at hlen
            omega
          rw [hx, hx0, List.append_nil, List.append_nil]
        · exact ⟨x, hx⟩
      rw [List.append_assoc, List.append_cancel_left_eq] at hb
      rw [List.length_append] at hk
      have hpos := hw.pos
      obtain ⟨k, rfl⟩ : ∃ k', k = k' + 1 := ⟨k - 1, by omega⟩
      obtain ⟨ws₁, ws₂, r, hsplit, hdrain, hr, hin⟩ := ih hws hb k (by omega)
      refine ⟨w :: ws₁, ws₂, r, by rw [hsplit, List.cons_append], ?_, hr, hin⟩
      rw [drainUpTo, hw.frame b']
      dsimp only
      rw [List.take_left' rfl, List.drop_left' rfl, hdrain]
    · obtain ⟨x, hx⟩ : ∃ x, w = b ++ x := by
        rcases List.append_eq_append_iff.mp hb with ⟨x, hx, -⟩ | ⟨x, hx, -⟩
        · exact ⟨x, hx⟩
        · exact absurd (by rw [hx, List.length_append]; omega) hlen
      have hne : x ≠ [] := by
        rintro rfl
        rw [List.append_nil] at hx
        exact hlen (by simp [hx])
      refine ⟨[], w :: ws, b, rfl, by rw [drainUpTo, hw.more b x hx hne], hb, fun v hv => ?_⟩
      rw [List.head?_cons, Option.mem_some_iff] at hv
      rw [← hv]
      omega

/-- **Self-framing words arrive whole and in order, however the stream is cut.** -/
theorem feed_flatten {ws cs : List (List α)} (h : ∀ w ∈ ws, SelfFraming scan w)
    (hnil : scan [] = .more) {b : List α} (hin : Within b ws)
    (hcs : b ++ cs.flatten = ws.flatten) : feed scan b cs = (ws, .ok []) := by
  induction cs generalizing b ws with
  | nil =>
    rw [List.flatten_nil, List.append_nil] at hcs
    cases ws with
    | nil => rw [feed, hcs, List.flatten_nil]
    | cons w ws =>
      have hlt := hin w rfl
      rw [hcs, List.flatten_cons, List.length_append] at hlt
      omega
  | cons c cs ih =>
    rw [List.flatten_cons, ← List.append_assoc] at hcs
    obtain ⟨ws₁, ws₂, r, rfl, hdrain, hr, hin'⟩ :=
      drainUpTo_prefix h hnil hcs (Nat.lt_succ_self _)
    have hrest := ih (fun w hw => h w (List.mem_append_right _ hw)) hin' hr
    rw [feed, hdrain]
    dsimp only
    rw [hrest]

/-- **What has arrived of a sequence of self-framing words**, however it was cut: the words that are
there whole, in order, and a proper prefix of the next one. -/
theorem feed_prefix {ws cs : List (List α)} (h : ∀ w ∈ ws, SelfFraming scan w)
    (hnil : scan [] = .more) {b y : List α} (hin : Within b ws)
    (hcs : b ++ cs.flatten ++ y = ws.flatten) :
    ∃ ws₁ ws₂ r, ws = ws₁ ++ ws₂ ∧ feed scan b cs = (ws₁, .ok r) ∧ r ++ y = ws₂.flatten
      ∧ Within r ws₂ := by
  induction cs generalizing b ws with
  | nil =>
    rw [List.flatten_nil, List.append_nil] at hcs
    exact ⟨[], ws, b, rfl, rfl, hcs, hin⟩
  | cons c cs ih =>
    rw [List.flatten_cons, ← List.append_assoc, List.append_assoc (b ++ c)] at hcs
    obtain ⟨ws₁, ws₂, r, rfl, hdrain, hr, hin'⟩ :=
      drainUpTo_prefix h hnil hcs (Nat.lt_succ_self _)
    rw [← List.append_assoc] at hr
    obtain ⟨vs₁, vs₂, r', rfl, hfeed, hr', hin''⟩ :=
      ih (fun w hw => h w (List.mem_append_right _ hw)) hin' hr
    refine ⟨ws₁ ++ vs₁, vs₂, r', (List.append_assoc _ _ _).symm, ?_, hr', hin''⟩
    rw [feed, hdrain]
    dsimp only
    rw [hfeed]

/-! ## Scanners that do not change their mind

A scanner need not see words that frame themselves: on any stream, it finds the same frames however
the stream was cut, as long as a frame it has found stays the frame when more arrives.
-/

/-- Drain a buffer: every frame is nonempty, so its length bounds their number. -/
def drain (scan : List α → Verdict ε) (b : List α) : List (List α) × Except ε (List α) :=
  drainUpTo scan (b.length + 1) b

/-- **On the buffers `ok` admits, frames lie within the buffer**, and what follows one is admitted
again. -/
structure Sound (scan : List α → Verdict ε) (ok : List α → Prop) : Prop where
  bounds : ∀ {b n}, ok b → scan b = .frame n → 0 < n ∧ n ≤ b.length
  rest : ∀ {b n}, ok b → scan b = .frame n → ok (b.drop n)

/-- **On the buffers `ok` admits, a frame stays the frame**, and the scanner does not fail. -/
structure Stable (scan : List α → Verdict ε) (ok : List α → Prop) : Prop extends Sound scan ok where
  of_append : ∀ {b x}, ok (b ++ x) → ok b
  frame : ∀ {b x n}, ok (b ++ x) → scan b = .frame n → scan (b ++ x) = .frame n
  not_fail : ∀ {b e}, ok b → scan b ≠ .fail e

variable {ok : List α → Prop}

/-- Fuel above the length of the buffer is enough. -/
theorem Sound.drainUpTo_eq (h : Sound scan ok) {k : ℕ} {b : List α} (hb : ok b)
    (hk : b.length < k) : drainUpTo scan k b = drain scan b := by
  have hfuel : ∀ k k' (b : List α), ok b → b.length < k → b.length < k' →
      drainUpTo scan k b = drainUpTo scan k' b := by
    intro k
    induction k with
    | zero => exact fun _ _ _ hk _ => absurd hk (Nat.not_lt_zero _)
    | succ k ih =>
      intro k' b hb hk hk'
      obtain ⟨k', rfl⟩ : ∃ l, k' = l + 1 := ⟨k' - 1, by omega⟩
      rw [drainUpTo, drainUpTo]
      cases hscan : scan b with
      | more => rfl
      | fail e => rfl
      | frame n =>
        obtain ⟨hpos, hle⟩ := h.bounds hb hscan
        have hlen : (b.drop n).length = b.length - n := List.length_drop
        dsimp only
        rw [ih k' (b.drop n) (h.rest hb hscan) (by omega) (by omega)]
  exact hfuel k _ b hb hk (Nat.lt_succ_self _)

theorem drain_of_more {b : List α} (h : scan b = .more) : drain scan b = ([], .ok b) := by
  rw [drain, drainUpTo, h]

theorem Sound.drain_of_frame (h : Sound scan ok) {b : List α} (hb : ok b) {n : ℕ}
    (hscan : scan b = .frame n) :
    drain scan b = (b.take n :: (drain scan (b.drop n)).1, (drain scan (b.drop n)).2) := by
  obtain ⟨hpos, hle⟩ := h.bounds hb hscan
  have hlen : (b.drop n).length < b.length := by
    rw [List.length_drop]
    omega
  rw [drain, drainUpTo, hscan]
  dsimp only
  rw [h.drainUpTo_eq (h.rest hb hscan) hlen]

/-- **Draining loses nothing**: the frames and what is left are the buffer, each frame is one the
scanner found, and what is left asks for more. -/
theorem Sound.drain_ok (h : Sound scan ok) {b r : List α} {ws : List (List α)} (hb : ok b)
    (hd : drain scan b = (ws, .ok r)) :
    ws.flatten ++ r = b ∧ scan r = .more
      ∧ ∀ w ∈ ws, ∃ x, ok (w ++ x) ∧ scan (w ++ x) = .frame w.length := by
  induction hn : b.length using Nat.strongRecOn generalizing b ws with
  | ind n ih =>
    cases hscan : scan b with
    | more =>
      rw [drain_of_more hscan] at hd
      cases hd
      exact ⟨rfl, hscan, fun _ hw => absurd hw List.not_mem_nil⟩
    | fail e =>
      rw [drain, drainUpTo, hscan] at hd
      cases hd
    | frame m =>
      obtain ⟨hpos, hle⟩ := h.bounds hb hscan
      rw [h.drain_of_frame hb hscan] at hd
      obtain ⟨rfl, hr⟩ := Prod.mk.inj hd
      have hlen : (b.drop m).length < n := by
        rw [List.length_drop]
        omega
      obtain ⟨hflat, hmore, hws⟩ := ih _ hlen (h.rest hb hscan) (Prod.ext rfl hr) rfl
      refine ⟨?_, hmore, fun w hw => ?_⟩
      · rw [List.flatten_cons, List.append_assoc, hflat, List.take_append_drop]
      · rcases List.mem_cons.mp hw with rfl | hw
        · refine ⟨b.drop m, ?_, ?_⟩
          · rwa [List.take_append_drop]
          · rw [List.take_append_drop, hscan, List.length_take, Nat.min_eq_left hle]
        · exact hws w hw

/-- A stable scanner drains every buffer. -/
theorem Stable.exists_drain (h : Stable scan ok) {b : List α} (hb : ok b) :
    ∃ ws r, drain scan b = (ws, .ok r) := by
  induction hn : b.length using Nat.strongRecOn generalizing b with
  | ind n ih =>
    cases hscan : scan b with
    | more => exact ⟨[], b, drain_of_more hscan⟩
    | fail e => exact absurd hscan (h.not_fail hb)
    | frame m =>
      obtain ⟨hpos, hle⟩ := h.bounds hb hscan
      have hlen : (b.drop m).length < n := by
        rw [List.length_drop]
        omega
      obtain ⟨ws, r, hd⟩ := ih _ hlen (h.rest hb hscan) rfl
      exact ⟨b.take m :: ws, r, by rw [h.drain_of_frame hb hscan, hd]⟩

/-- **Draining more than has arrived** takes off what has arrived, and goes on from what is left. -/
theorem Stable.drain_append (h : Stable scan ok) {b r y : List α} {ws : List (List α)}
    (hb : ok (b ++ y)) (hd : drain scan b = (ws, .ok r)) :
    ok (r ++ y)
      ∧ drain scan (b ++ y) = (ws ++ (drain scan (r ++ y)).1, (drain scan (r ++ y)).2) := by
  induction hn : b.length using Nat.strongRecOn generalizing b ws with
  | ind n ih =>
    have hb' := h.of_append hb
    cases hscan : scan b with
    | more =>
      rw [drain_of_more hscan] at hd
      cases hd
      exact ⟨hb, rfl⟩
    | fail e => exact absurd hscan (h.not_fail hb')
    | frame m =>
      obtain ⟨hpos, hle⟩ := h.bounds hb' hscan
      have hdrop : (b ++ y).drop m = b.drop m ++ y := List.drop_append_of_le_length hle
      have htake : (b ++ y).take m = b.take m := List.take_append_of_le_length hle
      have hframe := h.frame hb hscan
      have hrest := h.rest hb hframe
      rw [hdrop] at hrest
      rw [h.drain_of_frame hb' hscan] at hd
      obtain ⟨rfl, hr⟩ := Prod.mk.inj hd
      have hlen : (b.drop m).length < n := by
        rw [List.length_drop]
        omega
      obtain ⟨hok, hgo⟩ := ih _ hlen hrest (Prod.ext rfl hr) rfl
      refine ⟨hok, ?_⟩
      rw [h.drain_of_frame hb hframe, hdrop, htake, hgo]
      rfl

/-- **However the stream is cut, feeding it is draining it at once.** -/
theorem Stable.feed_eq_drain (h : Stable scan ok) {b : List α} {cs : List (List α)}
    (hb : ok (b ++ cs.flatten)) (hmore : scan b = .more) :
    feed scan b cs = drain scan (b ++ cs.flatten) := by
  induction cs generalizing b with
  | nil => rw [feed, List.flatten_nil, List.append_nil, drain_of_more hmore]
  | cons c cs ih =>
    rw [List.flatten_cons, ← List.append_assoc] at hb ⊢
    obtain ⟨ws, r, hd⟩ := h.exists_drain (h.of_append hb)
    obtain ⟨-, hr, -⟩ := h.drain_ok (h.of_append hb) hd
    obtain ⟨hok, happ⟩ := h.drain_append hb hd
    rw [happ, feed, ← drain, hd]
    dsimp only
    rw [ih hok hr]

end Framing
