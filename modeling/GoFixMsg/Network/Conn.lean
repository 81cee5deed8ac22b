import GoFixMsg.GoLang.Bufio
import GoFixMsg.GoLang.Strconv

/-!
# Network/Conn — a connection with a buffer in either direction

`Conn` wraps a `net.Conn`.  What is written to it is buffered until it is flushed, or until there is
too much of it.  Whatever is called on it, the bytes on the wire are a prefix of the bytes that were
written; a `Flush` or `Send` without an error puts all of them there; and after an error none
follow (`conn_delivers`).

Calls on one side come one after the other; the write loop of a session and `SendMessage` are the
only callers.  Both directions have buffers of the same size.  A call that returns an error may have
put a part of its bytes on the wire, so the peer may see the beginning of a frame whose rest never
comes.
-/

open GoLang

namespace FixMsg

/-- `Conn`, over a `net.Conn` that is written to through a sink. -/
structure Conn (ε : Type) where
  writer : BufWriter UInt8
  reader : BufReader UInt8 ε

/-- What is called on the writing side of a `Conn`. -/
inductive ConnCall where
  | write (p : Bytes)
  | flush
  | send (data : Bytes)
  | close

/-- The bytes a call is given. -/
def ConnCall.payload : ConnCall → Bytes
  | .write p => p
  | .send data => data
  | .flush | .close => []

/-- The call returns when everything is on the wire, or with an error. -/
def ConnCall.Flushes : ConnCall → Prop
  | .flush | .send _ => True
  | .write _ | .close => False

namespace Conn

variable {ε : Type}

/-- The size of both buffers. -/
def bufSize : ℕ := 8192

/-- `NewConn`. -/
def new (nc : Sink UInt8) : Conn ε := ⟨.new bufSize (by decide) nc, .new bufSize⟩

/-- `Write`, and whether it returned an error. -/
def write (p : Bytes) (c : Conn ε) : Conn ε × Bool :=
  let r := c.writer.write p
  ({ c with writer := r.1 }, r.2.2)

/-- `Flush`. -/
def flush (c : Conn ε) : Conn ε × Bool :=
  let r := c.writer.flush
  ({ c with writer := r.1 }, r.2)

/-- `Send`. -/
def send (data : Bytes) (c : Conn ε) : Conn ε × Bool :=
  let w := c.write data
  if w.2 then (w.1, true) else w.1.flush

/-- `Close`: the connection beneath is closed, and the buffer is left as it is. -/
def close (c : Conn ε) : Conn ε × Bool :=
  ({ c with writer := { c.writer with wr := c.writer.wr.close } }, c.writer.wr.closed)

/-- `Read` into a buffer of the given length.  `answer` is what the connection beneath returns if it
is asked. -/
def read (len : ℕ) (answer : Bytes × Option ε) (c : Conn ε) : Conn ε × Bytes × Option ε :=
  let r := c.reader.read len answer
  ({ c with reader := r.1 }, r.2)

/-- One call. -/
def perform (c : Conn ε) : ConnCall → Conn ε × Bool
  | .write p => c.write p
  | .flush => c.flush
  | .send data => c.send data
  | .close => c.close

/-- One call after the other. -/
def performs (c : Conn ε) (calls : List ConnCall) : Conn ε :=
  calls.foldl (fun c x => (c.perform x).1) c

/-- The bytes on the wire. -/
def wire (c : Conn ε) : Bytes := c.writer.wr.taken

/-! ## What a call does -/

/-- `Write`, without an error so far. -/
theorem write_spec (p : Bytes) {c : Conn ε} (h : c.writer.failed = false) :
    (((c.write p).2 = false ∧ (c.write p).1.writer.failed = false
          ∧ (c.write p).1.writer.accepted = c.writer.accepted ++ p)
        ∨ ((c.write p).2 = true ∧ (c.write p).1.writer.failed = true
          ∧ (c.write p).1.writer.accepted <+: c.writer.accepted ++ p)) := by
  obtain ⟨hspec, -⟩ := BufWriter.write_spec p h
  exact hspec.imp id fun ⟨herr, hfailed, _, hhi⟩ => ⟨herr, hfailed, hhi⟩

/-- **What a call does to a connection without an error so far.** -/
theorem perform_spec {c : Conn ε} (h : c.writer.failed = false) (x : ConnCall) :
    ((c.perform x).1.writer.failed = false
        ∧ (c.perform x).1.writer.accepted = c.writer.accepted ++ x.payload
        ∧ (x ≠ .close → (c.perform x).2 = false)
        ∧ (x.Flushes → (c.perform x).1.wire = c.writer.accepted ++ x.payload))
      ∨ ((c.perform x).1.writer.failed = true ∧ (c.perform x).2 = true
        ∧ (c.perform x).1.writer.accepted <+: c.writer.accepted ++ x.payload) := by
  have hflush : ∀ {c : Conn ε}, c.writer.failed = false →
      (c.flush.1.writer.failed = false ∧ c.flush.1.writer.accepted = c.writer.accepted
          ∧ c.flush.2 = false ∧ c.flush.1.wire = c.writer.accepted)
        ∨ (c.flush.1.writer.failed = true ∧ c.flush.2 = true
          ∧ c.flush.1.writer.accepted = c.writer.accepted) := by
    intro c h
    rcases BufWriter.flush_spec h with ⟨herr, hok, hbuf, htaken⟩ | ⟨herr, hfailed, hsame, -⟩
    · refine Or.inl ⟨hok, ?_, herr, htaken⟩
      change c.writer.flush.1.wr.taken ++ c.writer.flush.1.buf = _
      rw [hbuf, List.append_nil, htaken]
    · exact Or.inr ⟨hfailed, herr, hsame⟩
  cases x with
  | write p =>
    rcases c.write_spec p h with ⟨herr, hok, hall⟩ | ⟨herr, hfailed, hpart⟩
    · exact Or.inl ⟨hok, hall, fun _ => herr, False.elim⟩
    · exact Or.inr ⟨hfailed, herr, hpart⟩
  | flush =>
    rcases hflush h with ⟨hok, hsame, herr, hwire⟩ | ⟨hfailed, herr, hsame⟩
    · exact Or.inl ⟨hok, hsame.trans (List.append_nil _).symm,
        fun _ => herr, fun _ => hwire.trans (List.append_nil _).symm⟩
    · exact Or.inr ⟨hfailed, herr, hsame ▸ List.prefix_append _ _⟩
  | send data =>
    rcases c.write_spec data h with ⟨herr, hok, hall⟩ | ⟨herr, hfailed, hpart⟩
    · have hsend : c.perform (.send data) = (c.write data).1.flush := if_neg (by rw [herr]; decide)
      rw [hsend]
      rcases hflush hok with ⟨hok', hsame, hflushed, hwire⟩ | ⟨hfailed, hflushed, hsame⟩
      · exact Or.inl ⟨hok', hsame.trans hall, fun _ => hflushed, fun _ => hwire.trans hall⟩
      · exact Or.inr ⟨hfailed, hflushed, (hsame.trans hall) ▸ List.prefix_rfl⟩
    · have hsend : c.perform (.send data) = ((c.write data).1, true) := if_pos herr
      rw [hsend]
      exact Or.inr ⟨hfailed, rfl, hpart⟩
  | close => exact Or.inl ⟨h, (List.append_nil _).symm, fun hne => absurd rfl hne, False.elim⟩

/-- **After an error nothing more is taken**, and every call but `Close` fails. -/
theorem perform_of_failed {c : Conn ε} (h : c.writer.failed = true) (x : ConnCall) :
    (c.perform x).1.writer.failed = true ∧ (c.perform x).1.wire = c.wire
      ∧ (c.perform x).1.writer.accepted = c.writer.accepted
      ∧ (x ≠ .close → (c.perform x).2 = true) := by
  have hwrite : ∀ p, c.write p = (c, true) := by
    intro p
    rw [write, BufWriter.write_of_failed p h]
  cases x with
  | write p =>
    rw [perform, hwrite]
    exact ⟨h, rfl, rfl, fun _ => rfl⟩
  | flush =>
    rw [perform, flush, BufWriter.flush_of_failed h]
    exact ⟨h, rfl, rfl, fun _ => rfl⟩
  | send data =>
    have hsend : c.perform (.send data) = (c, true) := by
      rw [perform, send, hwrite]
      exact if_pos rfl
    rw [hsend]
    exact ⟨h, rfl, rfl, fun _ => rfl⟩
  | close => exact ⟨h, rfl, rfl, fun hne => absurd rfl hne⟩

/-! ## What a sequence of calls does

By induction over the calls: what has been taken is a prefix of what was written, and the whole of
it up to the first error. -/

/-- The bytes that were written. -/
def payloads (calls : List ConnCall) : Bytes := calls.flatMap ConnCall.payload

theorem performs_append (c : Conn ε) (calls more : List ConnCall) :
    c.performs (calls ++ more) = (c.performs calls).performs more := List.foldl_append

/-- The size of the buffer stays as it is. -/
theorem size_performs (nc : Sink UInt8) (calls : List ConnCall) :
    ((new nc : Conn ε).performs calls).writer.size = bufSize := by
  have hstep : ∀ (c : Conn ε) x, (c.perform x).1.writer.size = c.writer.size := by
    intro c x
    cases x with
    | write p => exact BufWriter.size_write p c.writer
    | flush => exact BufWriter.size_flush c.writer
    | send data =>
      unfold perform send
      dsimp only
      split
      · exact BufWriter.size_write data c.writer
      · exact (BufWriter.size_flush _).trans (BufWriter.size_write data c.writer)
    | close => rfl
  induction calls using List.reverseRecOn with
  | nil => rfl
  | append_singleton calls x ih =>
    rw [performs_append]
    exact (hstep _ x).trans ih

/-- After an error the wire stays as it is. -/
theorem performs_of_failed {c : Conn ε} (h : c.writer.failed = true) (calls : List ConnCall) :
    (c.performs calls).wire = c.wire := by
  induction calls generalizing c with
  | nil => rfl
  | cons x calls ih =>
    obtain ⟨hfailed, hwire, -, -⟩ := perform_of_failed h x
    exact (ih hfailed).trans hwire

/-- **What the calls have taken is a prefix of what was written**, and all of it as long as there
was no error. -/
theorem accepted_performs (nc : Sink UInt8) (hnew : nc.taken = []) (calls : List ConnCall) :
    ((new nc : Conn ε).performs calls).writer.accepted <+: payloads calls
      ∧ (((new nc : Conn ε).performs calls).writer.failed = false →
        ((new nc : Conn ε).performs calls).writer.accepted = payloads calls) := by
  induction calls using List.reverseRecOn with
  | nil =>
    have hnone : (new nc : Conn ε).writer.accepted = [] := (List.append_nil _).trans hnew
    exact ⟨hnone ▸ List.prefix_rfl, fun _ => hnone⟩
  | append_singleton calls x ih =>
    have hlast : payloads (calls ++ [x]) = payloads calls ++ x.payload := by
      rw [payloads, List.flatMap_append, List.flatMap_singleton, payloads]
    rw [performs_append, hlast]
    change ((((new nc : Conn ε).performs calls).perform x).1.writer.accepted <+: _)
      ∧ ((((new nc : Conn ε).performs calls).perform x).1.writer.failed = false →
        (((new nc : Conn ε).performs calls).perform x).1.writer.accepted = _)
    generalize (new nc : Conn ε).performs calls = c at ih
    cases hfailed : c.writer.failed with
    | true =>
      obtain ⟨hstill, -, hsame, -⟩ := perform_of_failed hfailed x
      refine ⟨hsame ▸ ih.1.trans (List.prefix_append _ _), fun hok => ?_⟩
      rw [hstill] at hok
      cases hok
    | false =>
      rw [← ih.2 hfailed]
      rcases perform_spec hfailed x with ⟨hok, hall, -, -⟩ | ⟨hbad, -, hpart⟩
      · exact ⟨hall ▸ List.prefix_rfl, fun _ => hall⟩
      · refine ⟨hpart, fun hok => ?_⟩
        rw [hbad] at hok
        cases hok

/-- **A connection loses, repeats and reorders nothing.**  Whatever the connection beneath makes of
its writes: the wire is a prefix of what was written, and at most a buffer behind it as long as
there was no error; a call that flushes and returns no error has put everything there; and behind a
call that failed, other than `Close`, nothing is put there any more. -/
theorem conn_delivers (nc : Sink UInt8) (hnew : nc.taken = []) (calls : List ConnCall) :
    ((new nc : Conn ε).performs calls).wire <+: payloads calls
      ∧ (((new nc : Conn ε).performs calls).writer.failed = false →
        (payloads calls).length ≤ ((new nc : Conn ε).performs calls).wire.length + bufSize)
      ∧ ∀ x, (x.Flushes → (((new nc : Conn ε).performs calls).perform x).2 = false →
          ((new nc : Conn ε).performs (calls ++ [x])).wire = payloads (calls ++ [x]))
        ∧ (x ≠ .close → (((new nc : Conn ε).performs calls).perform x).2 = true → ∀ more,
          ((new nc : Conn ε).performs (calls ++ x :: more)).wire
            = ((new nc : Conn ε).performs (calls ++ [x])).wire) := by
  obtain ⟨hpart, hall⟩ := @accepted_performs ε nc hnew calls
  have hwire : ∀ c : Conn ε, c.wire <+: c.writer.accepted := fun c => List.prefix_append _ _
  refine ⟨(hwire _).trans hpart, fun hok => ?_, fun x => ⟨fun hflushes herr => ?_,
    fun hne herr more => ?_⟩⟩
  · have hfits := ((new nc : Conn ε).performs calls).writer.fits
    rw [size_performs] at hfits
    rw [← hall hok, BufWriter.accepted, List.length_append, wire]
    exact Nat.add_le_add_left hfits _
  · have hlast := (@accepted_performs ε nc hnew (calls ++ [x])).2
    rw [performs_append] at hlast ⊢
    cases hfailed : ((new nc : Conn ε).performs calls).writer.failed with
    | true =>
      have hagain := (perform_of_failed hfailed x).2.2.2 (by rintro rfl; exact hflushes)
      rw [herr] at hagain
      cases hagain
    | false =>
      rcases perform_spec hfailed x with ⟨hok, haccepted, -, hput⟩ | ⟨-, hbad, -⟩
      · rw [← hlast hok]
        exact (hput hflushes).trans haccepted.symm
      · rw [herr] at hbad
        cases hbad
  · have hfailed : (((new nc : Conn ε).performs calls).perform x).1.writer.failed = true := by
      cases hbefore : ((new nc : Conn ε).performs calls).writer.failed with
      | true => exact (perform_of_failed hbefore x).1
      | false =>
        rcases perform_spec hbefore x with ⟨-, -, hno, -⟩ | ⟨hbad, -, -⟩
        · rw [hno hne] at herr
          cases herr
        · exact hbad
    rw [List.append_cons, performs_append, performs_append _ calls]
    exact performs_of_failed hfailed more

/-- Two frames, the second of which the connection breaks off after three bytes. -/
def brokenOff : Sink UInt8 := .fresh fun k => if k = 1 then some 3 else none

/-- The three bytes are on the wire, and nothing follows them. -/
theorem conn_delivers_brokenOff :
    ((new brokenOff : Conn Unit).performs
      [.send (ascii "8=A|"), .send (ascii "8=B|"), .send (ascii "8=C|")]).wire
        = ascii "8=A|8=B" := by
  have h := ((@conn_delivers Unit brokenOff rfl [.send (ascii "8=A|")]).2.2
    (.send (ascii "8=B|"))).2 ConnCall.noConfusion (by decide +kernel) [.send (ascii "8=C|")]
  exact h.trans (by decide +kernel)

end Conn

end FixMsg
