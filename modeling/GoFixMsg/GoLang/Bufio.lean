import Mathlib.Data.List.Infix
import Mathlib.Data.Nat.Notation

/-!
# GoLang/Bufio — buffered writing and reading

A `bufio.Writer` collects what it is given, and passes it on when its buffer is full or flushed; an
error of the writer beneath it stays.  What has been passed on and what is still in the buffer are
together a prefix of what it was given, and all of it as long as there was no error
(`BufWriter.write_spec`, `BufWriter.flush_spec`).

A `bufio.Reader` reads ahead, and hands its buffer out in pieces.

Both are written over any kind of element, since a buffer does not look at what it holds.  The
writer beneath is a `Sink`: it answers each write by taking all that it is given, or a part of it
and an error.  The loop of `Write` runs at most twice, so it is given that much fuel and no more is
asked of it (`BufWriter.writeLoop_ends`).
-/

namespace GoLang

variable {α ε : Type*}

/-- The writer beneath: what it has taken, and what it makes of its writes.  The `k`-th of them
takes everything, or the given number of elements, and fails.  A closed one takes nothing more. -/
structure Sink (α : Type*) where
  taken : List α
  calls : ℕ
  closed : Bool
  answer : ℕ → Option ℕ

namespace Sink

/-- A sink that has not been written to. -/
def fresh (answer : ℕ → Option ℕ) : Sink α := ⟨[], 0, false, answer⟩

/-- `Write`: how many elements it took, and whether it failed. -/
def write (p : List α) (s : Sink α) : Sink α × ℕ × Bool :=
  match if s.closed then some 0 else s.answer s.calls with
  | none => ({ s with taken := s.taken ++ p, calls := s.calls + 1 }, p.length, false)
  | some n =>
      ({ s with taken := s.taken ++ p.take n, calls := s.calls + 1 }, (p.take n).length, true)

/-- `Close`. -/
def close (s : Sink α) : Sink α := { s with closed := true }

/-- **A write takes all of it, or a part, and fails.** -/
theorem write_cases (p : List α) (s : Sink α) :
    (∃ wr, s.write p = (wr, p.length, false) ∧ wr.taken = s.taken ++ p ∧ s.closed = false)
      ∨ ∃ wr n, s.write p = (wr, (p.take n).length, true) ∧ wr.taken = s.taken ++ p.take n := by
  unfold write
  split
  · next hnone =>
    refine Or.inl ⟨_, rfl, rfl, ?_⟩
    cases hclosed : s.closed with
    | false => rfl
    | true =>
      rw [hclosed] at hnone
      cases hnone
  · exact Or.inr ⟨_, _, rfl, rfl⟩

/-- The sink takes everything. -/
def Works (s : Sink α) : Prop := s.closed = false ∧ ∀ k, s.answer k = none

theorem Works.write {s : Sink α} (h : s.Works) (p : List α) :
    ∃ wr, s.write p = (wr, p.length, false) ∧ wr.Works := by
  refine ⟨{ s with taken := s.taken ++ p, calls := s.calls + 1 }, ?_, h.1, h.2⟩
  rw [Sink.write, h.1, if_neg (by decide), h.2]

end Sink

/-- `bufio.Writer`, over a sink. -/
structure BufWriter (α : Type*) where
  size : ℕ
  buf : List α
  failed : Bool
  wr : Sink α
  pos : 0 < size
  fits : buf.length ≤ size

namespace BufWriter

/-- `NewWriterSize`. -/
def new (size : ℕ) (pos : 0 < size) (wr : Sink α) : BufWriter α :=
  ⟨size, [], false, wr, pos, Nat.zero_le _⟩

/-- `Available`. -/
def available (b : BufWriter α) : ℕ := b.size - b.buf.length

/-- `copy(b.buf[b.n:], p)`: as much of it as there is room for. -/
def fill (p : List α) (b : BufWriter α) : BufWriter α :=
  { b with
    buf := b.buf ++ p.take b.available
    fits := by
      have h := b.fits
      rw [List.length_append, List.length_take, available]
      omega }

/-- `Flush`, and whether it failed. -/
def flush (b : BufWriter α) : BufWriter α × Bool :=
  if b.failed then (b, true)
  else if b.buf.isEmpty then (b, false)
  else
    match b.wr.write b.buf with
    | (wr, _, false) => ({ b with buf := [], wr := wr, fits := Nat.zero_le _ }, false)
    | (wr, n, true) =>
        ({ b with
          buf := b.buf.drop n, failed := true, wr := wr
          fits := List.length_drop.trans_le ((Nat.sub_le _ _).trans b.fits) }, true)

/-- The loop of `Write`: as long as there is not enough room, and no error. -/
def writeLoop : ℕ → List α → BufWriter α → BufWriter α × List α
  | 0, p, b => (b, p)
  | k + 1, p, b =>
      if b.available < p.length ∧ b.failed = false then
        if b.buf.isEmpty then
          let (wr, n, err) := b.wr.write p
          writeLoop k (p.drop n) { b with wr := wr, failed := err }
        else writeLoop k (p.drop b.available) (b.fill p).flush.1
      else (b, p)

/-- `Write`: how much of it was taken, and whether there was an error.  The loop has at most two
passes: the first empties the buffer, and the next one goes past it. -/
def write (p : List α) (b : BufWriter α) : BufWriter α × ℕ × Bool :=
  let (b, rest) := writeLoop 2 p b
  if b.failed then (b, p.length - rest.length, true) else (b.fill rest, p.length, false)

@[simp] theorem size_flush (b : BufWriter α) : b.flush.1.size = b.size := by
  unfold flush
  split
  · rfl
  · split
    · rfl
    · rcases b.wr.write_cases b.buf with ⟨wr, hwr, -, -⟩ | ⟨wr, n, hwr, -⟩ <;> rw [hwr]

theorem size_writeLoop (k : ℕ) (p : List α) (b : BufWriter α) :
    (writeLoop k p b).1.size = b.size := by
  induction k generalizing p b with
  | zero => rfl
  | succ k ih =>
    rw [writeLoop]
    split
    · split
      · exact ih _ _
      · exact (ih _ _).trans (size_flush _)
    · rfl

@[simp] theorem size_write (p : List α) (b : BufWriter α) : (b.write p).1.size = b.size := by
  unfold write
  dsimp only
  split
  · exact size_writeLoop 2 p b
  · exact size_writeLoop 2 p b

/-! ## What is passed on, and what is buffered

`accepted` is what the sink has and what the buffer holds, in this order.  Every operation is
described by what it adds to it: all that it was given, or a part of it and an error.  What is left
in the buffer behind an error never reaches the sink. -/

/-- Everything that has been taken: what was passed on, and what is buffered. -/
def accepted (b : BufWriter α) : List α := b.wr.taken ++ b.buf

theorem accepted_fill (p : List α) (b : BufWriter α) :
    (b.fill p).accepted = b.accepted ++ p.take b.available := (List.append_assoc _ _ _).symm

/-- **A flush passes everything on, or a part, and fails.** -/
theorem flush_spec {b : BufWriter α} (h : b.failed = false) :
    (b.flush.2 = false ∧ b.flush.1.failed = false ∧ b.flush.1.buf = []
        ∧ b.flush.1.wr.taken = b.accepted)
      ∨ (b.flush.2 = true ∧ b.flush.1.failed = true ∧ b.flush.1.accepted = b.accepted
        ∧ b.wr.taken <+: b.flush.1.wr.taken) := by
  unfold flush
  rw [if_neg (by rw [h]; decide)]
  split
  · next hempty =>
    have hbuf := List.isEmpty_iff.mp hempty
    exact Or.inl ⟨rfl, h, hbuf, by rw [accepted, hbuf, List.append_nil]⟩
  · rcases b.wr.write_cases b.buf with ⟨wr, hwr, htaken, -⟩ | ⟨wr, n, hwr, htaken⟩
    · rw [hwr]
      exact Or.inl ⟨rfl, h, rfl, htaken⟩
    · rw [hwr]
      refine Or.inr ⟨rfl, rfl, ?_, htaken ▸ List.prefix_append _ _⟩
      change wr.taken ++ b.buf.drop (b.buf.take n).length = b.accepted
      rw [htaken, List.append_assoc, List.length_take]
      rcases Nat.le_total n b.buf.length with hn | hn
      · rw [Nat.min_eq_left hn, List.take_append_drop, accepted]
      · rw [Nat.min_eq_right hn, List.take_of_length_le hn, List.drop_length, List.append_nil,
          accepted]

/-- After an error nothing is passed on. -/
theorem flush_of_failed {b : BufWriter α} (h : b.failed = true) : b.flush = (b, true) := by
  rw [flush, if_pos h]

/-- After an error the loop does nothing. -/
theorem writeLoop_of_failed (k : ℕ) (p : List α) {b : BufWriter α} (h : b.failed = true) :
    writeLoop k p b = (b, p) := by
  cases k with
  | zero => rfl
  | succ k => rw [writeLoop, if_neg (fun hc => by rw [h] at hc; exact absurd hc.2 (by decide))]

/-- What the loop passes on or buffers, from a buffer without an error. -/
theorem writeLoop_spec (k : ℕ) {p : List α} {b : BufWriter α} (h : b.failed = false) :
    (((writeLoop k p b).1.failed = false
          ∧ (writeLoop k p b).1.accepted ++ (writeLoop k p b).2 = b.accepted ++ p)
        ∨ ((writeLoop k p b).1.failed = true ∧ b.accepted <+: (writeLoop k p b).1.accepted
          ∧ (writeLoop k p b).1.accepted <+: b.accepted ++ p))
      ∧ b.wr.taken <+: (writeLoop k p b).1.wr.taken := by
  induction k generalizing p b with
  | zero => exact ⟨Or.inl ⟨h, rfl⟩, List.prefix_rfl⟩
  | succ k ih =>
    rw [writeLoop]
    split
    · have hstop : ∀ (p : List α) (b : BufWriter α), b.failed = true →
          writeLoop k p b = (b, p) := fun p b hf => writeLoop_of_failed k p hf
      split
      · next hempty =>
        have hbuf := List.isEmpty_iff.mp hempty
        have haccepted : b.accepted = b.wr.taken := by rw [accepted, hbuf, List.append_nil]
        rcases b.wr.write_cases p with ⟨wr, hwr, htaken, -⟩ | ⟨wr, n, hwr, htaken⟩
        · rw [hwr]
          dsimp only
          have hnext : ({ b with wr := wr, failed := false } : BufWriter α).accepted
              = b.accepted ++ p := by
            rw [haccepted, accepted, htaken]
            change _ ++ b.buf = _
            rw [hbuf, List.append_nil]
          obtain ⟨hrest, hgrown⟩ := ih (p := p.drop p.length)
            (b := { b with wr := wr, failed := false }) rfl
          rw [hnext, List.drop_length, List.append_nil] at hrest
          rw [List.drop_length] at hgrown ⊢
          refine ⟨?_, (htaken ▸ List.prefix_append _ _ : b.wr.taken <+: wr.taken).trans hgrown⟩
          exact hrest.imp id fun ⟨hf, hlo, hhi⟩ => ⟨hf, (List.prefix_append _ _).trans hlo, hhi⟩
        · rw [hwr]
          dsimp only
          rw [hstop _ _ rfl]
          have hnext : ({ b with wr := wr, failed := true } : BufWriter α).accepted
              = b.accepted ++ p.take n := by
            rw [haccepted, accepted, htaken]
            change _ ++ b.buf = _
            rw [hbuf, List.append_nil]
          refine ⟨Or.inr ⟨rfl, hnext ▸ List.prefix_append _ _, ?_⟩,
            htaken ▸ List.prefix_append _ _⟩
          rw [hnext]
          exact (List.prefix_append_right_inj _).mpr (List.take_prefix _ _)
      · have hfill : (b.fill p).failed = false := h
        have hsplit : (b.fill p).accepted ++ p.drop b.available = b.accepted ++ p := by
          rw [accepted_fill, List.append_assoc, List.take_append_drop]
        have hgrows : b.accepted <+: (b.fill p).accepted := by
          rw [accepted_fill]
          exact List.prefix_append _ _
        rcases flush_spec hfill with ⟨-, hok, hbuf, htaken⟩ | ⟨-, hfailed, hsame, hwr⟩
        · have hflushed : (b.fill p).flush.1.accepted = (b.fill p).accepted := by
            rw [accepted, hbuf, List.append_nil, htaken]
          obtain ⟨hrest, hgrown⟩ := ih (p := p.drop b.available) hok
          rw [hflushed, hsplit] at hrest
          refine ⟨hrest.imp id fun ⟨hf, hlo, hhi⟩ => ⟨hf, hgrows.trans hlo, hhi⟩, ?_⟩
          refine List.IsPrefix.trans ?_ hgrown
          rw [htaken, accepted]
          exact List.prefix_append _ _
        · rw [hstop _ _ hfailed]
          refine ⟨Or.inr ⟨hfailed, hsame ▸ hgrows, ?_⟩, hwr⟩
          rw [hsame, ← hsplit]
          exact List.prefix_append _ _
    · exact ⟨Or.inl ⟨h, rfl⟩, List.prefix_rfl⟩

/-- The loop comes to its end in two passes, with an error or with room for the rest.  A pass with
an empty buffer hands the whole of the rest on. -/
theorem writeLoop_ends (p : List α) (b : BufWriter α) :
    (writeLoop 2 p b).1.failed = true
      ∨ (writeLoop 2 p b).2.length ≤ (writeLoop 2 p b).1.available := by
  have hdone : ∀ (k : ℕ) (p : List α) (b : BufWriter α), p.length ≤ b.available →
      writeLoop k p b = (b, p) := by
    intro k p b h
    cases k with
    | zero => rfl
    | succ k => rw [writeLoop, if_neg (fun hc => by omega)]
  have hstop : ∀ (k : ℕ) (p : List α) (b : BufWriter α), b.failed = true →
      writeLoop k p b = (b, p) := fun k p b h => writeLoop_of_failed k p h
  have hdirect : ∀ (k : ℕ) (p : List α) (b : BufWriter α), b.buf = [] →
      (writeLoop (k + 1) p b).1.failed = true
        ∨ (writeLoop (k + 1) p b).2.length ≤ (writeLoop (k + 1) p b).1.available := by
    intro k p b hbuf
    rw [writeLoop]
    split
    · rw [if_pos (List.isEmpty_iff.mpr hbuf)]
      rcases b.wr.write_cases p with ⟨wr, hwr, -, -⟩ | ⟨wr, n, hwr, -⟩
      · rw [hwr]
        dsimp only
        rw [List.drop_length, hdone _ _ _ (Nat.zero_le _)]
        exact Or.inr (Nat.zero_le _)
      · rw [hwr]
        dsimp only
        rw [hstop _ _ _ rfl]
        exact Or.inl rfl
    · next hc =>
      rw [not_and_or, Bool.not_eq_false] at hc
      exact hc.elim (fun h => Or.inr (Nat.le_of_not_lt h)) Or.inl
  by_cases hbuf : b.buf = []
  · exact hdirect 1 p b hbuf
  · rw [writeLoop]
    split
    · next hc =>
      rw [if_neg (by rwa [List.isEmpty_iff])]
      have hfill : (b.fill p).failed = false := hc.2
      rcases flush_spec hfill with ⟨-, -, hempty, -⟩ | ⟨-, hfailed, -, -⟩
      · exact hdirect 0 _ _ hempty
      · rw [hstop _ _ _ hfailed]
        exact Or.inl hfailed
    · next hc =>
      rw [not_and_or, Bool.not_eq_false] at hc
      exact hc.elim (fun h => Or.inr (Nat.le_of_not_lt h)) Or.inl

/-- **A write takes all of it, or a part, and fails.** -/
theorem write_spec (p : List α) {b : BufWriter α} (h : b.failed = false) :
    (((b.write p).2.2 = false ∧ (b.write p).1.failed = false
          ∧ (b.write p).1.accepted = b.accepted ++ p)
        ∨ ((b.write p).2.2 = true ∧ (b.write p).1.failed = true
          ∧ b.accepted <+: (b.write p).1.accepted
          ∧ (b.write p).1.accepted <+: b.accepted ++ p))
      ∧ b.wr.taken <+: (b.write p).1.wr.taken := by
  obtain ⟨hloop, hwr⟩ := writeLoop_spec 2 (p := p) h
  have hend := writeLoop_ends p b
  unfold write
  dsimp only
  generalize writeLoop 2 p b = r at hloop hwr hend
  rcases hloop with ⟨hok, hall⟩ | ⟨hfailed, hlo, hhi⟩
  · rw [if_neg (by rw [hok]; decide)]
    rcases hend with hfailed | hroom
    · rw [hok] at hfailed
      cases hfailed
    · refine ⟨Or.inl ⟨rfl, hok, ?_⟩, hwr⟩
      rw [accepted_fill, List.take_of_length_le hroom, hall]
  · rw [if_pos hfailed]
    exact ⟨Or.inr ⟨rfl, hfailed, hlo, hhi⟩, hwr⟩

/-- After an error nothing is taken. -/
theorem write_of_failed (p : List α) {b : BufWriter α} (h : b.failed = true) :
    b.write p = (b, 0, true) := by
  rw [write, writeLoop_of_failed 2 p h]
  dsimp only
  rw [if_pos h, Nat.sub_self]

/-- What there is room for is buffered, and nothing is passed on. -/
theorem write_of_room {p : List α} {b : BufWriter α} (h : b.failed = false)
    (hroom : p.length ≤ b.available) : b.write p = (b.fill p, p.length, false) := by
  rw [write, writeLoop, if_neg (fun hc => by omega)]
  dsimp only
  rw [if_neg (by rw [h]; decide)]

/-! ## Over a sink that takes everything

A sink that has not failed and never will keeps every write from failing; then what does not reach
it is in the buffer, and no more of it than the buffer has room for. -/

theorem works_flush {b : BufWriter α} (hok : b.failed = false) (h : b.wr.Works) :
    b.flush.1.failed = false ∧ b.flush.1.wr.Works := by
  unfold flush
  rw [if_neg (by rw [hok]; decide)]
  split
  · exact ⟨hok, h⟩
  · obtain ⟨wr, hwr, hworks⟩ := h.write b.buf
    rw [hwr]
    exact ⟨hok, hworks⟩

theorem works_writeLoop (k : ℕ) (p : List α) {b : BufWriter α} (hok : b.failed = false)
    (h : b.wr.Works) : (writeLoop k p b).1.failed = false ∧ (writeLoop k p b).1.wr.Works := by
  induction k generalizing p b with
  | zero => exact ⟨hok, h⟩
  | succ k ih =>
    rw [writeLoop]
    split
    · split
      · obtain ⟨wr, hwr, hworks⟩ := h.write p
        rw [hwr]
        exact ih _ rfl hworks
      · have hfilled : (b.fill p).failed = false := hok
        obtain ⟨hflushed, hworks⟩ := works_flush hfilled h
        exact ih _ hflushed hworks
    · exact ⟨hok, h⟩

/-- **No write fails.** -/
theorem works_write (p : List α) {b : BufWriter α} (hok : b.failed = false) (h : b.wr.Works) :
    (b.write p).1.failed = false ∧ (b.write p).1.wr.Works := by
  obtain ⟨hloop, hworks⟩ := works_writeLoop 2 p hok h
  unfold write
  dsimp only
  rw [if_neg (by rw [hloop]; decide)]
  exact ⟨hloop, hworks⟩

/-- What there is no room for is not all buffered. -/
theorem taken_lt_of_no_room {p : List α} {b : BufWriter α} (hok : b.failed = false)
    (h : b.wr.Works) (hroom : b.available < p.length) :
    b.wr.taken.length < (b.write p).1.wr.taken.length := by
  have hdone := (works_write p hok h).1
  rcases (write_spec p hok).1 with ⟨-, -, hall⟩ | ⟨-, hfailed, -, -⟩
  · have hlen := congrArg List.length hall
    have hfits := (b.write p).1.fits
    rw [size_write] at hfits
    rw [accepted, accepted, List.length_append, List.length_append, List.length_append] at hlen
    rw [available] at hroom
    omega
  · rw [hdone] at hfailed
    cases hfailed

end BufWriter

/-- `bufio.Reader`, less the reader beneath. -/
structure BufReader (α ε : Type*) where
  size : ℕ
  buf : List α
  err : Option ε

namespace BufReader

/-- `NewReaderSize`. -/
def new (size : ℕ) : BufReader α ε := ⟨size, [], none⟩

/-- The reader beneath is asked: nothing is buffered, and no error is kept. -/
def asks (b : BufReader α ε) : Bool := b.buf.isEmpty && b.err.isNone

/-- `Read` into a buffer of the given length.  `answer` is what the reader beneath returns if it is
asked. -/
def read (len : ℕ) (answer : List α × Option ε) (b : BufReader α ε) :
    BufReader α ε × List α × Option ε :=
  if b.buf.isEmpty then
    match b.err with
    | some e => ({ b with err := none }, [], some e)
    | none =>
        if b.size ≤ len then (b, answer)
        else if answer.1.isEmpty then (b, [], answer.2)
        else ({ b with buf := answer.1.drop len, err := answer.2 }, answer.1.take len, none)
  else ({ b with buf := b.buf.drop len }, b.buf.take len, none)

/-- **A read hands on what is buffered, or what the reader beneath returned**, and keeps the
rest. -/
theorem read_spec (len : ℕ) (answer : List α × Option ε) (b : BufReader α ε) :
    (b.read len answer).2.1 ++ (b.read len answer).1.buf
      = b.buf ++ if b.asks then answer.1 else [] := by
  obtain ⟨size, buf, err⟩ := b
  cases buf with
  | cons x buf => exact (List.take_append_drop _ _).trans (List.append_nil _).symm
  | nil =>
    cases err with
    | some e => rfl
    | none =>
      unfold read
      rw [if_pos (show ([] : List α).isEmpty = true from rfl)]
      dsimp only
      split
      · exact List.append_nil _
      · split
        · next hnone => exact (List.isEmpty_iff.mp hnone).symm
        · exact List.take_append_drop _ _

/-- As long as there are no errors, none is returned, and something is handed on where there is
something to hand on. -/
theorem read_of_nil {len : ℕ} (hlen : 0 < len) {data : List α} {b : BufReader α ε}
    (h : b.err = none) :
    (b.read len (data, none)).1.err = none ∧ (b.read len (data, none)).2.2 = none
      ∧ (b.buf ≠ [] ∨ data ≠ [] → (b.read len (data, none)).2.1 ≠ []) := by
  obtain ⟨size, buf, err⟩ := b
  obtain rfl : err = none := h
  have htake : ∀ {l : List α}, l ≠ [] → l.take len ≠ [] := by
    intro l hl htaken
    rcases List.take_eq_nil_iff.mp htaken with h | h
    · omega
    · exact hl h
  cases buf with
  | cons x buf => exact ⟨rfl, rfl, fun _ => htake (List.cons_ne_nil x buf)⟩
  | nil =>
    unfold read
    rw [if_pos (show ([] : List α).isEmpty = true from rfl)]
    dsimp only
    split
    · exact ⟨rfl, rfl, fun h => h.resolve_left (fun hne => hne rfl)⟩
    · split
      · next hnone =>
        refine ⟨rfl, rfl, fun h => ?_⟩
        exact absurd (List.isEmpty_iff.mp hnone) (h.resolve_left (fun hne => hne rfl))
      · exact ⟨rfl, rfl, fun h => htake (h.resolve_left (fun hne => hne rfl))⟩

end BufReader

end GoLang
