import GoFixMsg.Network.Conn
import GoFixMsg.Machinery.Runs
import GoFixMsg.Session.Delivery

/-!
# Session/Pipe — from one session's queue to the other session's handler

`Send` queues frames; the write loop takes them off the queue and writes them to its `Conn`, which
buffers them; the network carries the bytes over, cut anywhere; the `Conn` of the peer buffers them
again; and the read loop of the peer puts the frames together.  At any moment either side may be
shut down, and any write may fail.  Whatever the order of all this, what the peer has dispatched are
the first frames that were queued, in their order, each of them once (`pipe_dispatches`); and as
long as nothing has failed and neither loop has ended, the rest can still arrive (`pipe_drains`).
-/

open GoLang

namespace FixMsg

/-- Where the write loop is. -/
inductive WritePoint where
  /-- It waits for a frame. -/
  | taking
  /-- It has written a frame, and goes on to flush it. -/
  | flushing
  | ended
  deriving DecidableEq

/-- **A session, the connection to its peer, and the read loop of the peer**, with the frames that
`Send` has queued and those that the write loop has taken. -/
structure Pipe where
  cancelled : Bool
  chClosed : Bool
  sendCh : List Bytes
  writeLoop : WritePoint
  near : Conn ReadError
  far : Conn ReadError
  /-- How many of the bytes on the wire have been read off it. -/
  arrived : ℕ
  /-- What the reads of the peer have returned. -/
  reads : List ReadResult
  queued : List Bytes
  written : List Bytes

/-- What happens on the way. -/
inductive PipeAction where
  /-- `Send` puts a frame into the channel. -/
  | send (b : Bytes)
  /-- The write loop takes a frame, and writes it. -/
  | write
  | flush
  | writeEnds
  /-- `Stop` or `abort`, one after the other. -/
  | cancel
  | closeConn
  | closeCh
  /-- The read loop of the peer reads.  If its `Conn` asks the connection, there are `n` bytes for
  it, or fewer, and perhaps an error. -/
  | read (n : ℕ) (err : Option ReadError)

namespace Pipe

/-- The capacity of `sendCh`. -/
def capacity : ℕ := 128

/-- The length of the buffer the read loop reads into. -/
def tmpSize : ℕ := 4096

/-- Two ends of a connection that has just been made, whose writes will go as they will. -/
def opened (answer : ℕ → Option ℕ) : Pipe where
  cancelled := false
  chClosed := false
  sendCh := []
  writeLoop := .taking
  near := .new (.fresh answer)
  far := .new (.fresh fun _ => none)
  arrived := 0
  reads := []
  queued := []
  written := []

/-- The bytes that wait to be read. -/
def underway (p : Pipe) : Bytes := p.near.wire.drop p.arrived

/-- A write failed: the write loop closes the connection, and returns. -/
def writeFails (p : Pipe) : Pipe := { p with near := p.near.close.1, writeLoop := .ended }

/-- The write loop has taken the first frame of the channel, and writes it. -/
def wrote (b : Bytes) (rest : List Bytes) (p : Pipe) : Pipe :=
  let w := p.near.write b
  let p := { p with sendCh := rest, written := p.written ++ [b], near := w.1 }
  if w.2 then p.writeFails else { p with writeLoop := .flushing }

/-- It flushes what it has written. -/
def flushed (p : Pipe) : Pipe :=
  let w := p.near.flush
  let p := { p with near := w.1 }
  if w.2 then p.writeFails else { p with writeLoop := .taking }

/-- The read loop of the peer reads once.  The connection gives no more than there is room for. -/
def readOnce (n : ℕ) (err : Option ReadError) (p : Pipe) : Pipe :=
  let data := p.underway.take (min n Conn.bufSize)
  let r := p.far.read tmpSize (data, err)
  { p with
    far := r.1, reads := p.reads ++ [⟨r.2.1, r.2.2⟩]
    arrived := if p.far.reader.asks then p.arrived + data.length else p.arrived }

/-- The read loop of the peer has not returned. -/
def Reading (p : Pipe) : Prop := ∀ d ∈ p.reads, d.err = none ∨ d.err = some .timeout

instance (p : Pipe) : Decidable p.Reading := inferInstanceAs (Decidable (∀ d ∈ p.reads, _))

/-- One step. -/
def step (p : Pipe) : PipeAction → Option Pipe
  | .send b =>
      if p.chClosed = false ∧ p.sendCh.length < capacity then
        some { p with sendCh := p.sendCh ++ [b], queued := p.queued ++ [b] }
      else none
  | .write =>
      match p.writeLoop, p.sendCh with
      | .taking, b :: rest => some (p.wrote b rest)
      | _, _ => none
  | .flush => if p.writeLoop = .flushing then some p.flushed else none
  | .writeEnds =>
      if p.writeLoop = .taking ∧ (p.cancelled ∨ p.chClosed ∧ p.sendCh = []) then
        some { p with writeLoop := .ended }
      else none
  | .cancel => some { p with cancelled := true }
  | .closeConn => some { p with near := p.near.close.1 }
  | .closeCh => some { p with chClosed := true }
  | .read n err => if p.Reading then some (p.readOnce n err) else none

/-- What the read loop of the peer has dispatched. -/
def dispatched (w : Receivers) (p : Pipe) : List Event := (readLoop w [] p.reads).1

/-! ## The invariant

It follows the bytes: what was queued is what has been read, what is on the wire, what is buffered,
and what waits in the channel, in this order.  After a failed write the last two are lost, and no
byte behind them is read. -/

/-- **The invariant**: nothing is lost between the queue and the buffer of the read loop, unless a
write failed, and nothing behind that. -/
structure Inv (p : Pipe) : Prop where
  queue : p.queued = p.written ++ p.sendCh
  accepted : p.near.writer.accepted <+: p.written.flatten
  whole : p.near.writer.failed = false → p.near.writer.accepted = p.written.flatten
  failed : p.near.writer.failed = true → p.writeLoop = .ended
  flushed : p.writeLoop = .taking → p.near.writer.buf = []
  bytes : stream p.reads ++ p.far.reader.buf = p.near.wire.take p.arrived
  arrived : p.arrived ≤ p.near.wire.length
  up : StaysUp p.reads

variable {p : Pipe}

theorem inv_opened (answer : ℕ → Option ℕ) : Inv (opened answer) where
  queue := rfl
  accepted := List.prefix_rfl
  whole _ := rfl
  failed h := (Bool.false_ne_true h).elim
  flushed _ := rfl
  bytes := rfl
  arrived := Nat.zero_le _
  up _ hd := absurd hd List.not_mem_nil

/-- When the write loop writes. -/
theorem step_write {p' : Pipe} (h : p.step .write = some p') :
    ∃ b rest, p.writeLoop = .taking ∧ p.sendCh = b :: rest ∧ p' = p.wrote b rest := by
  cases hpoint : p.writeLoop with
  | taking =>
    cases hch : p.sendCh with
    | nil =>
      rw [step, hpoint, hch] at h
      cases h
    | cons b rest =>
      rw [step, hpoint, hch] at h
      exact ⟨b, rest, rfl, rfl, (Option.some.inj h).symm⟩
  | flushing | ended =>
    rw [step, hpoint] at h
    cases h

/-- What has been read stays read when more is put on the wire. -/
theorem Inv.of_wire (h : Inv p) {wire : Bytes} (hwire : p.near.wire <+: wire) :
    stream p.reads ++ p.far.reader.buf = wire.take p.arrived ∧ p.arrived ≤ wire.length := by
  obtain ⟨more, rfl⟩ := hwire
  rw [List.take_append_of_le_length h.arrived, List.length_append]
  exact ⟨h.bytes, h.arrived.trans (Nat.le_add_right _ _)⟩

/-- The write loop writes a frame. -/
theorem Inv.write (h : Inv p) {b : Bytes} {rest : List Bytes} (hwriting : p.writeLoop = .taking)
    (hch : p.sendCh = b :: rest) : Inv (p.wrote b rest) := by
  have hok : p.near.writer.failed = false := by
    refine eq_false_of_ne_true fun hfailed => ?_
    rw [h.failed hfailed] at hwriting
    cases hwriting
  have hqueue : p.queued = (p.written ++ [b]) ++ rest := by
    rw [h.queue, hch, List.append_assoc]
    rfl
  have hflat : p.near.writer.accepted ++ b = (p.written ++ [b]).flatten := by
    rw [List.flatten_append, List.flatten_singleton, ← h.whole hok]
  obtain ⟨hspec, hwire⟩ := BufWriter.write_spec b hok
  obtain ⟨hbytes, harrived⟩ := @Inv.of_wire _ h (p.near.write b).1.wire hwire
  unfold wrote
  rcases hspec with ⟨herr, hok', hall⟩ | ⟨herr, hfailed, -, hpart⟩
  · rw [if_neg (by rw [show (p.near.write b).2 = false from herr]; decide)]
    exact ⟨hqueue, (hall.trans hflat) ▸ List.prefix_rfl, fun _ => hall.trans hflat,
      fun hfailed => absurd (hok'.symm.trans hfailed) Bool.false_ne_true, nofun, hbytes, harrived,
      h.up⟩
  · rw [if_pos (show (p.near.write b).2 = true from herr)]
    exact ⟨hqueue, hflat ▸ hpart, fun hok => absurd (hok.symm.trans hfailed) Bool.false_ne_true,
      fun _ => rfl, nofun, hbytes, harrived, h.up⟩

/-- It flushes what it has written. -/
theorem Inv.flush (h : Inv p) (hflushing : p.writeLoop = .flushing) : Inv p.flushed := by
  have hok : p.near.writer.failed = false := by
    refine eq_false_of_ne_true fun hfailed => ?_
    rw [h.failed hfailed] at hflushing
    cases hflushing
  unfold Pipe.flushed
  rcases BufWriter.flush_spec hok with ⟨herr, hok', hbuf, htaken⟩ | ⟨herr, hfailed, hsame, hwire⟩
  · have hput : p.near.flush.1.wire = p.near.writer.accepted := htaken
    obtain ⟨hbytes, harrived⟩ := @Inv.of_wire _ h p.near.flush.1.wire
      (hput ▸ List.prefix_append _ _)
    have hall : p.near.flush.1.writer.accepted = p.written.flatten := by
      rw [← h.whole hok, ← htaken]
      exact (congrArg (_ ++ ·) hbuf).trans (List.append_nil _)
    rw [if_neg (by rw [show p.near.flush.2 = false from herr]; decide)]
    exact ⟨h.queue, hall ▸ List.prefix_rfl, fun _ => hall,
      fun hfailed => absurd (hok'.symm.trans hfailed) Bool.false_ne_true, fun _ => hbuf, hbytes,
      harrived, h.up⟩
  · obtain ⟨hbytes, harrived⟩ := @Inv.of_wire _ h p.near.flush.1.wire hwire
    rw [if_pos (show p.near.flush.2 = true from herr)]
    exact ⟨h.queue, hsame ▸ h.accepted,
      fun hok => absurd (hok.symm.trans hfailed) Bool.false_ne_true, fun _ => rfl, nofun, hbytes,
      harrived, h.up⟩

/-- The read loop of the peer reads. -/
theorem Inv.read (h : Inv p) (hreading : p.Reading) (n : ℕ) (err : Option ReadError) :
    Inv (p.readOnce n err) := by
  have hspec := BufReader.read_spec tmpSize
    (p.underway.take (min n Conn.bufSize), err) p.far.reader
  have hstream : stream (p.readOnce n err).reads ++ (p.readOnce n err).far.reader.buf
      = p.near.wire.take p.arrived
        ++ if p.far.reader.asks then p.underway.take (min n Conn.bufSize) else [] := by
    rw [← h.bytes, List.append_assoc, ← hspec]
    unfold readOnce stream
    rw [List.flatMap_append, List.flatMap_singleton, List.append_assoc]
    rfl
  refine ⟨h.queue, h.accepted, h.whole, h.failed, h.flushed, ?_, ?_, ?_⟩
  · rw [hstream]
    change _ = p.near.wire.take (if p.far.reader.asks then _ else _)
    split
    · rw [List.take_add, ← underway]
      exact congrArg _ (List.prefix_iff_eq_take.mp (List.take_prefix _ _))
    · exact List.append_nil _
  · change (if p.far.reader.asks then _ else _) ≤ p.near.wire.length
    have harrived := h.arrived
    split
    · rw [underway, List.length_take, List.length_drop]
      omega
    · exact harrived
  · intro d hd
    rw [show (p.readOnce n err).reads = p.reads ++ [_] from rfl, List.dropLast_concat] at hd
    exact hreading d hd

/-- **Every step keeps it.** -/
theorem Inv.step (h : Inv p) {a : PipeAction} {p' : Pipe} (hstep : p.step a = some p') :
    Inv p' := by
  cases a with
  | send b =>
    obtain ⟨-, rfl⟩ := Runs.of_guarded hstep
    refine ⟨?_, h.accepted, h.whole, h.failed, h.flushed, h.bytes, h.arrived, h.up⟩
    rw [h.queue, List.append_assoc]
  | write =>
    obtain ⟨b, rest, hwriting, hch, rfl⟩ := step_write hstep
    exact h.write hwriting hch
  | flush =>
    obtain ⟨hflushing, rfl⟩ := Runs.of_guarded hstep
    exact h.flush hflushing
  | writeEnds =>
    obtain ⟨-, rfl⟩ := Runs.of_guarded hstep
    exact ⟨h.queue, h.accepted, h.whole, fun _ => rfl, nofun, h.bytes, h.arrived, h.up⟩
  | cancel =>
    obtain rfl := Option.some.inj hstep
    exact ⟨h.queue, h.accepted, h.whole, h.failed, h.flushed, h.bytes, h.arrived, h.up⟩
  | closeConn =>
    obtain rfl := Option.some.inj hstep
    exact ⟨h.queue, h.accepted, h.whole, h.failed, h.flushed, h.bytes, h.arrived, h.up⟩
  | closeCh =>
    obtain rfl := Option.some.inj hstep
    exact ⟨h.queue, h.accepted, h.whole, h.failed, h.flushed, h.bytes, h.arrived, h.up⟩
  | read n err =>
    obtain ⟨hreading, rfl⟩ := Runs.of_guarded hstep
    exact h.read hreading n err

/-! ## What arrives -/

/-- The frames that a run queues are whole frames, of a length that is an `int`. -/
def FrameAction : PipeAction → Prop
  | .send b => IsFrame b ∧ b.length < 2 ^ 63
  | _ => True

/-- Only such frames have been queued. -/
def Framed (p : Pipe) : Prop := ∀ b ∈ p.queued, IsFrame b ∧ b.length < 2 ^ 63

/-- Everything that was queued has been read off the wire. -/
structure Drained (p : Pipe) : Prop where
  queue : p.sendCh = []
  writeLoop : p.writeLoop = .taking
  ok : p.near.writer.failed = false
  arrived : p.underway = []
  handed : p.far.reader.buf = []

/-- Writing leaves the queue, the reads and the channel's end alone. -/
theorem wrote_keeps (b : Bytes) (rest : List Bytes) (p : Pipe) :
    (p.wrote b rest).queued = p.queued ∧ (p.wrote b rest).reads = p.reads
      ∧ (p.wrote b rest).chClosed = p.chClosed := by
  unfold wrote
  dsimp only
  split <;> exact ⟨rfl, rfl, rfl⟩

/-- So does flushing. -/
theorem flushed_keeps (p : Pipe) :
    p.flushed.queued = p.queued ∧ p.flushed.reads = p.reads ∧ p.flushed.chClosed = p.chClosed := by
  unfold flushed
  dsimp only
  split <;> exact ⟨rfl, rfl, rfl⟩

theorem Framed.step {a : PipeAction} (h : p.Framed) (ha : FrameAction a) {p' : Pipe}
    (hstep : p.step a = some p') : p'.Framed := by
  cases a with
  | send b =>
    obtain ⟨-, rfl⟩ := Runs.of_guarded hstep
    exact List.forall_mem_append.mpr ⟨h, List.forall_mem_singleton.mpr ha⟩
  | write =>
    obtain ⟨b, rest, -, -, rfl⟩ := step_write hstep
    rw [Framed, (wrote_keeps b rest p).1]
    exact h
  | flush =>
    obtain ⟨-, rfl⟩ := Runs.of_guarded hstep
    rw [Framed, p.flushed_keeps.1]
    exact h
  | writeEnds =>
    obtain ⟨-, rfl⟩ := Runs.of_guarded hstep
    exact h
  | cancel | closeConn | closeCh =>
    obtain rfl := Option.some.inj hstep
    exact h
  | read n err =>
    obtain ⟨-, rfl⟩ := Runs.of_guarded hstep
    exact h

/-- What the peer has read is the beginning of what was queued. -/
theorem Inv.stream_prefix (h : Inv p) : stream p.reads <+: p.queued.flatten :=
  calc stream p.reads
    _ <+: stream p.reads ++ p.far.reader.buf := List.prefix_append _ _
    _ = p.near.wire.take p.arrived := h.bytes
    _ <+: p.near.wire := List.take_prefix _ _
    _ <+: p.near.writer.accepted := List.prefix_append _ _
    _ <+: p.written.flatten := h.accepted
    _ <+: p.queued.flatten := by
      rw [h.queue, List.flatten_append]
      exact List.prefix_append _ _

/-- What the read loop of the peer has made of the bytes it has read: the frames that are there
whole, and the beginning of the next one. -/
theorem Inv.feed (h : Inv p) (hframed : p.Framed) :
    ∃ fs₁ fs₂ r, p.queued = fs₁ ++ fs₂ ∧ Framing.feed scanFrame [] (chunks p.reads) = (fs₁, .ok r)
      ∧ ∃ y, stream p.reads ++ y = p.queued.flatten ∧ r ++ y = fs₂.flatten
        ∧ Framing.Within r fs₂ := by
  have hself : ∀ f ∈ p.queued, Framing.SelfFraming scanFrame f := fun f hf =>
    selfFraming_of_isFrame (hframed f hf).1 (hframed f hf).2
  obtain ⟨y, hy⟩ := h.stream_prefix
  have hpos : Framing.Within [] p.queued := fun f hf => (hself f (List.mem_of_mem_head? hf)).pos
  have hcut : [] ++ (chunks p.reads).flatten ++ y = p.queued.flatten := by
    rw [List.nil_append, flatten_chunks, hy]
  obtain ⟨fs₁, fs₂, r, hsplit, hfeed, hrest, hin⟩ := Framing.feed_prefix hself rfl hpos hcut
  exact ⟨fs₁, fs₂, r, hsplit, hfeed, y, hy, hrest, hin⟩

/-- Where nothing is left on the way, all of them are there.  All bytes have been read, so nothing
can be missing of a frame that is not whole. -/
theorem Drained.feed (hdrained : p.Drained) (h : Inv p) (hframed : p.Framed) :
    ∃ r, Framing.feed scanFrame [] (chunks p.reads) = (p.queued, .ok r) := by
  obtain ⟨fs₁, fs₂, r, hsplit, hfeed, y, hy, hrest, hin⟩ := h.feed hframed
  have hread : stream p.reads = p.queued.flatten := by
    have hbytes := h.bytes
    have hall := h.whole hdrained.ok
    have hwire : p.near.wire.take p.arrived = p.near.wire :=
      List.take_of_length_le (List.drop_eq_nil_iff.mp hdrained.arrived)
    rw [hdrained.handed, List.append_nil, hwire] at hbytes
    rw [hbytes, h.queue, hdrained.queue, List.append_nil, ← hall, BufWriter.accepted,
      h.flushed hdrained.writeLoop, List.append_nil]
    rfl
  have hnone : y = [] := by
    rw [hread] at hy
    exact List.append_right_eq_self.mp hy
  rw [hnone, List.append_nil] at hrest
  have hall : fs₂ = [] := by
    cases hfs : fs₂ with
    | nil => rfl
    | cons f fs =>
      have hlt := hin f (by rw [hfs]; rfl)
      rw [hrest, hfs, List.flatten_cons, List.length_append] at hlt
      omega
  exact ⟨r, by rw [hfeed, hsplit, hall, List.append_nil]⟩

/-- **What the peer has dispatched are the first of the frames**, and all of them when nothing is
left on the way. -/
theorem Inv.dispatched (h : Inv p) (hframed : p.Framed) (w : Receivers) :
    (∃ fs, fs <+: p.queued ∧ p.dispatched w = fs.flatMap (dispatch w))
      ∧ (p.Drained → p.dispatched w = p.queued.flatMap (dispatch w)) := by
  obtain ⟨fs₁, fs₂, r, hsplit, hfeed, -⟩ := h.feed hframed
  refine ⟨⟨fs₁, hsplit ▸ List.prefix_append _ _, readLoop_events w h.up hfeed⟩, fun hdrained => ?_⟩
  obtain ⟨r', hall⟩ := hdrained.feed h hframed
  exact readLoop_events w h.up hall

/-- What every run keeps. -/
theorem inv_run {answer : ℕ → Option ℕ} {as : List PipeAction} (has : ∀ a ∈ as, FrameAction a)
    (hrun : Runs.run step (opened answer) as = some p) : Inv p ∧ p.Framed :=
  Runs.run_invariant (fun p => Inv p ∧ p.Framed)
    (fun _ _ _ h ha hstep => ⟨h.1.step hstep, h.2.step ha hstep⟩)
    ⟨inv_opened answer, fun _ hb => absurd hb List.not_mem_nil⟩
    (Runs.meets_of_forall (fun a ha _ => has a ha) _) hrun

/-- **What was queued arrives in order, once, and nothing else does.**  In every run, whatever the
order of its steps and wherever it is shut down or a write fails, what the peer has dispatched are
the first frames that were queued; and it has dispatched all of them when none is left on the
way. -/
theorem pipe_dispatches {answer : ℕ → Option ℕ} {as : List PipeAction}
    (has : ∀ a ∈ as, FrameAction a) (hrun : Runs.run step (opened answer) as = some p)
    (w : Receivers) :
    (∃ fs, fs <+: p.queued ∧ p.dispatched w = fs.flatMap (dispatch w))
      ∧ (p.Drained → p.dispatched w = p.queued.flatMap (dispatch w)) :=
  (inv_run has hrun).1.dispatched (inv_run has hrun).2 w

/-! ## What can still arrive -/

/-- Nothing has failed: the connection takes everything, and neither loop has come to an end. -/
structure Up (p : Pipe) : Prop where
  ok : p.near.writer.failed = false
  works : p.near.writer.wr.Works
  writing : p.writeLoop ≠ .ended
  reading : p.Reading
  noError : p.far.reader.err = none

/-- What is left to do: frames to write and to flush, and bytes to read. -/
def leftToDo (p : Pipe) : ℕ :=
  2 * p.sendCh.length + (if p.writeLoop = .flushing then 1 else 0)
    + (p.queued.flatten.length - (stream p.reads).length)

/-- The write loop writes a frame that the connection takes. -/
theorem Up.wrote (h : p.Up) (b : Bytes) (rest : List Bytes) :
    (p.wrote b rest).Up ∧ (p.wrote b rest).sendCh = rest
      ∧ (p.wrote b rest).writeLoop = .flushing ∧ (p.wrote b rest).queued = p.queued
      ∧ (p.wrote b rest).reads = p.reads := by
  obtain ⟨hok, hworks⟩ := BufWriter.works_write b h.ok h.works
  have herr : (p.near.write b).2 = false := by
    rcases (BufWriter.write_spec b h.ok).1 with ⟨herr, -, -⟩ | ⟨-, hfailed, -, -⟩
    · exact herr
    · rw [hok] at hfailed
      cases hfailed
  unfold Pipe.wrote
  dsimp only
  rw [if_neg (by rw [herr]; decide)]
  exact ⟨⟨hok, hworks, nofun, h.reading, h.noError⟩, rfl, rfl, rfl, rfl⟩

/-- It flushes it. -/
theorem Up.flushed (h : p.Up) :
    p.flushed.Up ∧ p.flushed.sendCh = p.sendCh ∧ p.flushed.writeLoop = .taking
      ∧ p.flushed.queued = p.queued ∧ p.flushed.reads = p.reads := by
  obtain ⟨hok, hworks⟩ := BufWriter.works_flush h.ok h.works
  have herr : p.near.flush.2 = false := by
    rcases BufWriter.flush_spec h.ok with ⟨herr, -, -, -⟩ | ⟨-, hfailed, -, -⟩
    · exact herr
    · rw [hok] at hfailed
      cases hfailed
  unfold Pipe.flushed
  dsimp only
  rw [if_neg (by rw [herr]; decide)]
  exact ⟨⟨hok, hworks, nofun, h.reading, h.noError⟩, rfl, rfl, rfl, rfl⟩

/-- The peer reads something, where there is something to read. -/
theorem Up.readOnce (h : p.Up) (hsome : p.far.reader.buf ≠ [] ∨ p.underway ≠ []) :
    (p.readOnce 1 none).Up
      ∧ (stream p.reads).length < (stream (p.readOnce 1 none).reads).length := by
  obtain ⟨hnoError, hnone, hdata⟩ := @BufReader.read_of_nil _ _ tmpSize (by decide)
    (p.underway.take (min 1 Conn.bufSize)) _ h.noError
  refine ⟨⟨h.ok, h.works, h.writing, ?_, hnoError⟩, ?_⟩
  · exact List.forall_mem_append.mpr ⟨h.reading, List.forall_mem_singleton.mpr (Or.inl hnone)⟩
  · have hgot := hdata (hsome.imp id fun hne htaken =>
      (List.take_eq_nil_iff.mp htaken).elim (by decide) hne)
    have hlen := List.length_pos_iff.mpr hgot
    unfold stream Pipe.readOnce
    rw [List.flatMap_append, List.flatMap_singleton, List.length_append]
    exact Nat.lt_add_of_pos_right hlen

/-- **Where something is left on the way, a step brings it on.** -/
theorem Up.progress (hup : p.Up) (h : Inv p) (hleft : ¬ p.Drained) :
    ∃ a p', a ∈ [.write, .flush, .read 1 none] ∧ p.step a = some p' ∧ p'.Up ∧ Inv p'
      ∧ p'.queued = p.queued ∧ p'.leftToDo < p.leftToDo := by
  cases hpoint : p.writeLoop with
  | ended => exact absurd hpoint hup.writing
  | flushing =>
    have hstep : p.step .flush = some p.flushed := if_pos hpoint
    obtain ⟨hup', hch, hpoint', hqueued, hreads⟩ := hup.flushed
    refine ⟨.flush, p.flushed, by simp, hstep, hup', h.step hstep, hqueued, ?_⟩
    rw [leftToDo, leftToDo, hch, hpoint', hqueued, hreads, hpoint, if_neg (by decide), if_pos rfl]
    omega
  | taking =>
    cases hch : p.sendCh with
    | cons b rest =>
      have hstep : p.step .write = some (p.wrote b rest) := by rw [step, hpoint, hch]
      obtain ⟨hup', hch', hpoint', hqueued, hreads⟩ := hup.wrote b rest
      refine ⟨.write, _, by simp, hstep, hup', h.step hstep, hqueued, ?_⟩
      rw [leftToDo, leftToDo, hch, hch', hpoint', hqueued, hreads, hpoint, if_pos rfl,
        if_neg (by decide), List.length_cons]
      omega
    | nil =>
      have hsome : p.far.reader.buf ≠ [] ∨ p.underway ≠ [] := by
        by_contra hnone
        rw [not_or, not_not, not_not] at hnone
        exact hleft ⟨hch, hpoint, hup.ok, hnone.2, hnone.1⟩
      obtain ⟨hup', hmore⟩ := hup.readOnce hsome
      have hstep : p.step (.read 1 none) = some (p.readOnce 1 none) := if_pos hup.reading
      have hinv := h.step hstep
      refine ⟨.read 1 none, _, by simp, hstep, hup', hinv, rfl, ?_⟩
      have hbound : (stream (p.readOnce 1 none).reads).length ≤ p.queued.flatten.length :=
        hinv.stream_prefix.length_le
      change 2 * p.sendCh.length + (if p.writeLoop = .flushing then 1 else 0)
        + (p.queued.flatten.length - (stream (p.readOnce 1 none).reads).length) < p.leftToDo
      rw [leftToDo]
      omega

/-- **As long as nothing has failed and neither loop has ended, everything can still arrive**: every
run up to there can be continued, with no other frame queued, to where the peer has dispatched each
frame that was queued. -/
theorem pipe_drains {answer : ℕ → Option ℕ} {as : List PipeAction}
    (has : ∀ a ∈ as, FrameAction a) (hrun : Runs.run step (opened answer) as = some p)
    (hup : p.Up) (w : Receivers) :
    ∃ more p', Runs.run step (opened answer) (as ++ more) = some p' ∧ p'.queued = p.queued
      ∧ p'.dispatched w = p.queued.flatMap (dispatch w) := by
  obtain ⟨hinv, hframed⟩ := inv_run has hrun
  have hgo : ∀ q : Pipe, (q.Up ∧ Inv q ∧ q.queued = p.queued) →
      ¬ (q.Drained ∧ Inv q ∧ q.queued = p.queued) → ∃ a q', q.step a = some q'
        ∧ (q'.Up ∧ Inv q' ∧ q'.queued = p.queued) ∧ q'.leftToDo < q.leftToDo := by
    rintro q ⟨hup, hinv, hqueued⟩ hleft
    obtain ⟨a, q', -, hstep, hup', hinv', hqueued', hless⟩ :=
      hup.progress hinv fun hdrained => hleft ⟨hdrained, hinv, hqueued⟩
    exact ⟨a, q', hstep, ⟨hup', hinv', hqueued'.trans hqueued⟩, hless⟩
  obtain ⟨more, p', hmore, hdrained, hinv', hqueued⟩ :=
    Runs.exists_run_of_progress leftToDo hgo ⟨hup, hinv, rfl⟩
  have hframed' : p'.Framed := by
    rw [Framed, hqueued]
    exact hframed
  refine ⟨more, p', Runs.run_append_eq_some.mpr ⟨p, hrun, hmore⟩, hqueued, ?_⟩
  rw [← hqueued]
  exact (hinv'.dispatched hframed' w).2 hdrained

/-- Two heartbeats are queued; the first is written, arrives in two pieces, and then the connection
is closed. -/
def cutOff : List PipeAction :=
  [.send heartbeatFrame, .write, .send heartbeatFrame, .flush, .read 10 none, .closeConn,
    .read 16 none, .write, .flush]

theorem frameAction_cutOff : ∀ a ∈ cutOff, FrameAction a := by
  simp only [cutOff, List.forall_mem_cons, FrameAction, List.not_mem_nil, false_implies,
    implies_true, and_true, true_and]
  exact ⟨isFrame_heartbeatFrame, isFrame_heartbeatFrame⟩

/-- One of them has been dispatched. -/
theorem pipe_dispatches_cutOff : ∃ p fs, Runs.run step (opened fun _ => none) cutOff = some p
    ∧ fs <+: p.queued ∧ p.dispatched ⟨true, false⟩ = fs.flatMap (dispatch ⟨true, false⟩) := by
  obtain ⟨p, hp⟩ := Option.isSome_iff_exists.mp
    (show (Runs.run step (opened fun _ => none) cutOff).isSome = true by decide +kernel)
  obtain ⟨fs, hfs, hevents⟩ := (pipe_dispatches frameAction_cutOff hp ⟨true, false⟩).1
  exact ⟨p, fs, hp, hfs, hevents⟩

/-- A heartbeat that has been queued can still arrive. -/
theorem pipe_drains_heartbeat : ∃ as p, Runs.run step (opened fun _ => none) as = some p
    ∧ p.dispatched ⟨true, false⟩ = dispatch ⟨true, false⟩ heartbeatFrame := by
  have hup : Up { opened fun _ => none with
      sendCh := [heartbeatFrame], queued := [heartbeatFrame] } :=
    ⟨rfl, ⟨rfl, fun _ => rfl⟩, nofun, fun _ hd => absurd hd List.not_mem_nil, rfl⟩
  have hframe : ∀ a ∈ [PipeAction.send heartbeatFrame], FrameAction a :=
    List.forall_mem_singleton.mpr isFrame_heartbeatFrame
  obtain ⟨more, p, hrun, -, hevents⟩ := pipe_drains hframe rfl hup ⟨true, false⟩
  exact ⟨_, p, hrun, hevents.trans (List.flatMap_singleton ..)⟩

end Pipe

end FixMsg
