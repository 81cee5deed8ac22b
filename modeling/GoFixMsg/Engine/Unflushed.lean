import GoFixMsg.Engine.Resendable
import GoFixMsg.Network.Conn

/-!
# Engine/Unflushed — sending without a session

Where no session is attached, `SendMessage` writes to the `Conn` the engine has dialled, and does
not flush it.  The frame counts as sent, but it stays in the buffer: nothing reaches the wire before
there is more than a buffer full (`unflushed_iff`), and until then the calls return no error even if
the connection is closed.

The write loop of a session flushes behind every frame, and so nothing is left over there.  Here the
caller is `SendMessage` itself, which has no more than the `Conn`, and its buffer of 8192 bytes;
what the buffer cannot take is written through as far as it has to be.
-/

open GoLang

namespace FixMsg

/-- An engine without a session, and the connection it has dialled; the frames that were handed to
`Write`, and what the calls of `SendMessage` returned. -/
structure Direct (ε : Type) where
  engine : Engine
  conn : Conn ε
  handed : List Bytes
  errors : List (Option SendError)

namespace Direct

variable {ε : Type}

/-- **`SendMessage`**, with the connection to take the frame. -/
def send (x : Direct ε) (env : Env) (m : CodedMessage) : Direct ε :=
  let r := sendMessage { env with takes := true } m x.engine
  match r.engine.sent.drop x.engine.sent.length with
  | [] => { x with engine := r.engine, errors := x.errors ++ [r.error] }
  | b :: _ =>
      let written := x.conn.write b
      let r := sendMessage { env with takes := !written.2 } m x.engine
      ⟨r.engine, written.1, x.handed ++ [b], x.errors ++ [r.error]⟩

/-- One call after the other. -/
def sends (x : Direct ε) (msgs : List (Env × CodedMessage)) : Direct ε :=
  msgs.foldl (fun x s => x.send s.1 s.2) x

/-- The room in the buffer. -/
def room (x : Direct ε) : ℕ := x.conn.writer.available

/-! ## What a call does -/

/-- A frame that goes straight to the connection. -/
theorem transmit_conn {e : Engine} (h : e.link = .conn) (takes : Bool) (b : Bytes) :
    e.transmit takes b
      = if takes then ({ e with sent := e.sent ++ [b] }, none) else (e, some .write) := by
  cases e
  cases h
  cases takes <;> rfl

/-- **What a call does without a session**: it ends with an error of its own before `Write`, or
hands a frame to `Write`, whose error it returns.  There the call is the one made again with the
answer of `Write`. -/
theorem send_cases {x : Direct ε} (hlink : x.engine.link = .conn) (env : Env) (m : CodedMessage) :
    (∃ e err, x.send env m = { x with engine := e, errors := x.errors ++ [err] }
        ∧ e.link = .conn ∧ e.sent = x.engine.sent ∧ ∀ err' ∈ err, err' ≠ .write)
      ∨ ∃ b e err, x.send env m = ⟨e, (x.conn.write b).1, x.handed ++ [b], x.errors ++ [err]⟩
        ∧ e.link = .conn
        ∧ ((x.conn.write b).2 = false → err = none ∧ e.sent = x.engine.sent ++ [b]) := by
  obtain ⟨hsent, hlinked⟩ := afterToApp_spec env m x.engine
  rw [hlink] at hlinked
  have hnone : ∀ {r : SendResult}, sendMessage { env with takes := true } m x.engine = r →
      r.engine.sent = x.engine.sent →
      x.send env m = { x with engine := r.engine, errors := x.errors ++ [r.error] } := by
    intro r hr hrsent
    unfold send
    rw [hr]
    dsimp only
    rw [hrsent, List.drop_length]
  rcases sendMessage_cases { env with takes := true } m x.engine with
    ⟨m', err, -, heq⟩ | ⟨m', m'', f, -, -, heq⟩ | ⟨m', m'', b, hask, hwire, heq⟩
  · refine Or.inl ⟨_, _, hnone heq hsent, hlinked, hsent, fun err' herr' => ?_⟩
    rw [← Option.mem_some_iff.mp herr']
    exact SendError.noConfusion
  · refine Or.inl ⟨_, _, hnone heq hsent, hlinked, hsent, fun err' herr' => ?_⟩
    rw [← Option.mem_some_iff.mp herr']
    exact SendError.noConfusion
  · have hagain : ∀ takes, sendMessage { env with takes := takes } m x.engine
        = ⟨((afterToApp env m x.engine).transmit takes b).1, m'', stampedSeq env m x.engine,
          ((afterToApp env m x.engine).transmit takes b).2⟩ := by
      intro takes
      rcases sendMessage_cases { env with takes := takes } m x.engine with
        ⟨_, _, hask', -⟩ | ⟨_, _, _, hask', hwire', -⟩ | ⟨_, _, b', hask', hwire', heq'⟩
      · cases hask.symm.trans hask'
      · cases hask.symm.trans hask'
        cases hwire.symm.trans hwire'
      · cases hask.symm.trans hask'
        cases hwire.symm.trans hwire'
        exact heq'
    have htransmit : ∀ takes, (afterToApp env m x.engine).transmit takes b
        = if takes then ({ afterToApp env m x.engine with sent := x.engine.sent ++ [b] }, none)
          else (afterToApp env m x.engine, some .write) := by
      intro takes
      rw [transmit_conn hlinked, hsent]
    have hsend : x.send env m = ⟨((afterToApp env m x.engine).transmit
        (!(x.conn.write b).2) b).1, (x.conn.write b).1, x.handed ++ [b],
        x.errors ++ [((afterToApp env m x.engine).transmit (!(x.conn.write b).2) b).2]⟩ := by
      unfold send
      rw [hagain true, htransmit true, if_pos rfl]
      dsimp only
      rw [List.drop_left' rfl]
      dsimp only
      rw [hagain]
    refine Or.inr ⟨b, _, _, hsend, ?_, fun hok => ?_⟩
    · rw [htransmit]
      split
      · exact hlinked
      · exact hlinked
    · rw [hok, htransmit, Bool.not_false, if_pos rfl]
      exact ⟨rfl, rfl⟩

/-! ## What a sequence of calls does

The bytes handed over are counted.  While they fit, they are what the buffer holds, in order, and
nothing else has happened to the connection. -/

/-- An engine without a session, before its first call. -/
def start (e : Engine) (c : Conn ε) : Direct ε := ⟨e, c, [], []⟩

/-- The number of bytes handed to `Write`. -/
def handedBytes (x : Direct ε) : ℕ := x.handed.flatten.length

theorem sends_append_singleton (x : Direct ε) (msgs : List (Env × CodedMessage))
    (s : Env × CodedMessage) : x.sends (msgs ++ [s]) = (x.sends msgs).send s.1 s.2 :=
  List.foldl_concat ..

theorem handedBytes_append (e : Engine) (c : Conn ε) (handed : List Bytes) (b : Bytes)
    (errors : List (Option SendError)) :
    (⟨e, c, handed ++ [b], errors⟩ : Direct ε).handedBytes = handed.flatten.length + b.length := by
  rw [handedBytes, List.flatten_append, List.length_append, List.flatten_singleton]

/-- **What is buffered**, as long as there was room: the wire is as it was, the buffer holds all
that was handed on, no call returned an error of the connection, and every frame counts as sent. -/
structure Buffered (e : Engine) (c : Conn ε) (x : Direct ε) : Prop where
  ok : x.conn.writer.failed = false
  wr : x.conn.writer.wr = c.writer.wr
  size : x.conn.writer.size = c.writer.size
  buf : x.conn.writer.buf = c.writer.buf ++ x.handed.flatten
  errors : ∀ err ∈ x.errors, err ≠ some .write
  sent : x.engine.sent = e.sent ++ x.handed

/-- The room that is left. -/
theorem Buffered.available {e : Engine} {c : Conn ε} {x : Direct ε} (h : Buffered e c x) :
    x.conn.writer.available = c.writer.available - x.handedBytes := by
  rw [BufWriter.available, BufWriter.available, h.size, h.buf, List.length_append, handedBytes,
    Nat.sub_sub]

theorem mem_append_ne_write {errors : List (Option SendError)} {err : Option SendError}
    (h : ∀ err ∈ errors, err ≠ some .write) (herr : err ≠ some .write) :
    ∀ err' ∈ errors ++ [err], err' ≠ some .write := by
  intro err' hmem
  rcases List.mem_append.mp hmem with hmem | hmem
  · exact h err' hmem
  · rw [List.mem_singleton.mp hmem]
    exact herr

/-- **What there is room for stays in the buffer.** -/
theorem buffered_of_room {e : Engine} (hlink : e.link = .conn) {c : Conn ε}
    (hok : c.writer.failed = false) (msgs : List (Env × CodedMessage)) :
    ((start e c).sends msgs).engine.link = .conn
      ∧ (((start e c).sends msgs).handedBytes ≤ c.writer.available →
        Buffered e c ((start e c).sends msgs)) := by
  induction msgs using List.reverseRecOn with
  | nil =>
    exact ⟨hlink, fun _ => ⟨hok, rfl, rfl, (List.append_nil _).symm,
      fun _ h => absurd h List.not_mem_nil, (List.append_nil _).symm⟩⟩
  | append_singleton msgs s ih =>
    rw [sends_append_singleton]
    generalize (start e c).sends msgs = x at ih
    obtain ⟨hconn, hbuffered⟩ := ih
    rcases send_cases hconn s.1 s.2 with
      ⟨e', err, heq, hlink', hsent, herr⟩ | ⟨b, e', err, heq, hlink', hdone⟩
    · rw [heq]
      refine ⟨hlink', fun hroom => ?_⟩
      obtain ⟨hok', hwr, hsize, hbuf, herrors, hall⟩ := hbuffered hroom
      refine ⟨hok', hwr, hsize, hbuf, mem_append_ne_write herrors ?_, hsent.trans hall⟩
      rintro rfl
      exact herr .write rfl rfl
    · rw [heq]
      refine ⟨hlink', fun hroom => ?_⟩
      rw [handedBytes_append] at hroom
      have hbefore := hbuffered ((Nat.le_add_right _ _).trans hroom)
      have hfits : b.length ≤ x.conn.writer.available := by
        rw [hbefore.available, handedBytes]
        omega
      have hwrite := BufWriter.write_of_room hbefore.ok hfits
      obtain ⟨rfl, hsent⟩ := hdone (congrArg (fun r => r.2.2) hwrite)
      have hfilled : (x.conn.write b).1.writer = x.conn.writer.fill b :=
        congrArg (fun r => r.1) hwrite
      refine ⟨?_, ?_, ?_, ?_, mem_append_ne_write hbefore.errors (by decide), ?_⟩
      · rw [hfilled]
        exact hbefore.ok
      · rw [hfilled]
        exact hbefore.wr
      · rw [hfilled]
        exact hbefore.size
      · rw [hfilled, List.flatten_append, List.flatten_singleton, ← List.append_assoc,
          ← hbefore.buf]
        exact congrArg (x.conn.writer.buf ++ ·) (List.take_of_length_le hfits)
      · rw [hsent, hbefore.sent, List.append_assoc]

/-- **What there is no room for does not all stay there**, where the connection takes it. -/
theorem wire_grows {e : Engine} (hlink : e.link = .conn) {c : Conn ε}
    (hok : c.writer.failed = false) (hworks : c.writer.wr.Works)
    (msgs : List (Env × CodedMessage)) :
    (((start e c).sends msgs).conn.writer.failed = false
        ∧ ((start e c).sends msgs).conn.writer.wr.Works)
      ∧ (c.writer.available < ((start e c).sends msgs).handedBytes →
        c.wire.length < ((start e c).sends msgs).conn.wire.length) := by
  induction msgs using List.reverseRecOn with
  | nil => exact ⟨⟨hok, hworks⟩, fun h => absurd h (Nat.not_lt_zero _)⟩
  | append_singleton msgs s ih =>
    obtain ⟨hconn, hbuffered⟩ := buffered_of_room hlink hok msgs
    rw [sends_append_singleton]
    generalize (start e c).sends msgs = x at ih hconn hbuffered
    obtain ⟨⟨hok', hworks'⟩, hgrown⟩ := ih
    rcases send_cases hconn s.1 s.2 with ⟨e', err, heq, -, -, -⟩ | ⟨b, e', err, heq, -, -⟩
    · rw [heq]
      exact ⟨⟨hok', hworks'⟩, hgrown⟩
    · rw [heq]
      refine ⟨BufWriter.works_write b hok' hworks', fun hroom => ?_⟩
      rw [handedBytes_append] at hroom
      have hkept : x.conn.wire.length ≤ (x.conn.write b).1.wire.length :=
        (BufWriter.write_spec b hok').2.length_le
      rcases Nat.lt_or_ge c.writer.available x.handedBytes with hlt | hle
      · exact (hgrown hlt).trans_le hkept
      · have hbefore := hbuffered hle
        have hwire : x.conn.wire = c.wire := congrArg Sink.taken hbefore.wr
        rw [← hwire]
        refine BufWriter.taken_lt_of_no_room hok' hworks' ?_
        rw [hbefore.available, handedBytes]
        rw [handedBytes] at hle
        omega

/-- **Without a session nothing is sent before there is more than a buffer full.**  As long as there
is room for the frames, every one of them counts as sent and no call returns an error of the
connection, closed or not, and the wire stays as it is; and where the connection takes everything,
it stays as it is no longer than that. -/
theorem unflushed_iff {e : Engine} (hlink : e.link = .conn) {c : Conn ε}
    (hok : c.writer.failed = false) (msgs : List (Env × CodedMessage)) :
    (((start e c).sends msgs).handedBytes ≤ c.writer.available →
        ((start e c).sends msgs).conn.wire = c.wire
          ∧ (∀ err ∈ ((start e c).sends msgs).errors, err ≠ some .write)
          ∧ ((start e c).sends msgs).engine.sent = e.sent ++ ((start e c).sends msgs).handed)
      ∧ (c.writer.wr.Works → (((start e c).sends msgs).conn.wire = c.wire
        ↔ ((start e c).sends msgs).handedBytes ≤ c.writer.available)) := by
  have hroom : ((start e c).sends msgs).handedBytes ≤ c.writer.available →
      Buffered e c ((start e c).sends msgs) := (buffered_of_room hlink hok msgs).2
  refine ⟨fun h => ?_, fun hworks => ⟨fun hwire => ?_, fun h => ?_⟩⟩
  · exact ⟨congrArg Sink.taken (hroom h).wr, (hroom h).errors, (hroom h).sent⟩
  · by_contra hmore
    have hgrown := (wire_grows hlink hok hworks msgs).2 (Nat.lt_of_not_le hmore)
    rw [hwire] at hgrown
    exact lt_irrefl _ hgrown
  · exact congrArg Sink.taken (hroom h).wr

/-- A connection that has been dialled, and closed. -/
def closedConn : Conn Unit := (Conn.new (Sink.fresh fun _ => none)).close.1

/-- An order is sent over it without an error, and goes nowhere. -/
theorem unflushed_order :
    ((start { engineOn .opened with link := .conn } closedConn).sends
        [(Outbound.calm, Outbound.newOrder)]).conn.wire = []
      ∧ ((start { engineOn .opened with link := .conn } closedConn).sends
        [(Outbound.calm, Outbound.newOrder)]).engine.sent.length = 1 := by
  have h := (@unflushed_iff Unit { engineOn .opened with link := .conn } rfl closedConn rfl
    [(Outbound.calm, Outbound.newOrder)]).1 (by decide +kernel)
  exact ⟨h.1, by decide +kernel⟩

end Direct

end FixMsg
