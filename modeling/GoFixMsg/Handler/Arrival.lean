import GoFixMsg.Handler.Delivered

/-!
# Handler/Arrival — what has been sent can still arrive

Two engines that nobody makes send go on: frames are queued where there is room, written, flushed
and read, and handed on.  A frame that is brought on leaves less to do in the pipes, and one that is
handled leaves fewer requests, or as many and fewer frames, as long as no Logout is among them.  So
where nothing has failed, both come to have handled all that has been sent, the answers included —
or a handler does not return (`duplex_arrives`).
-/

open GoLang

namespace FixMsg

namespace Pipe

variable {p p' : Pipe} {a : PipeAction}

/-- What has been read stays read. -/
theorem reads_step (h : p.step a = some p') : p.reads <+: p'.reads := by
  cases a with
  | write =>
    obtain ⟨b, rest, -, -, rfl⟩ := step_write h
    rw [(wrote_keeps b rest p).2.1]
  | flush =>
    obtain ⟨-, rfl⟩ := Runs.of_guarded h
    rw [p.flushed_keeps.2.1]
  | send | writeEnds =>
    obtain ⟨-, rfl⟩ := Runs.of_guarded h
    exact List.prefix_rfl
  | cancel | closeConn | closeCh =>
    obtain rfl := Option.some.inj h
    exact List.prefix_rfl
  | read n err =>
    obtain ⟨-, rfl⟩ := Runs.of_guarded h
    exact List.prefix_append _ _

/-- What has been cut off stays so. -/
theorem cut_step (h : p.step a = some p') : p.cut <+: p'.cut := by
  obtain ⟨more, hmore⟩ := reads_step h
  have hchunks : chunks p'.reads = chunks p.reads ++ chunks more := by
    rw [← hmore, chunks, List.map_append, List.filter_append]
    rfl
  rw [cut, cut, hchunks]
  exact Framing.feed_grows _ _ _ _

/-- **A pipe that nothing is wrong with**: it is up, and takes frames. -/
structure Open (p : Pipe) : Prop where
  up : p.Up
  takes : p.chClosed = false

/-- Only `Stop` and `abort` close the channel. -/
theorem takes_step (htakes : p.chClosed = false) (ha : a ∈ [.write, .flush, .read 1 none])
    (h : p.step a = some p') : p'.chClosed = false := by
  simp only [List.mem_cons, List.not_mem_nil, or_false] at ha
  rcases ha with rfl | rfl | rfl
  · obtain ⟨b, rest, -, -, rfl⟩ := step_write h
    exact (wrote_keeps b rest p).2.2.trans htakes
  · obtain ⟨-, rfl⟩ := Runs.of_guarded h
    exact p.flushed_keeps.2.2.trans htakes
  · obtain ⟨-, rfl⟩ := Runs.of_guarded h
    exact htakes

/-- What there is to do for a frame more. -/
theorem leftToDo_send {b : Bytes} (h : p.step (.send b) = some p') :
    p'.leftToDo < p.leftToDo + (b.length + 3) := by
  obtain ⟨-, rfl⟩ := Runs.of_guarded h
  unfold leftToDo
  dsimp only
  rw [List.length_append, List.flatten_append, List.length_append, List.flatten_singleton,
    List.length_singleton]
  omega

end Pipe

namespace Duplex

variable {s t : Duplex} {p : Peer}

/-! ## The read loops are not behind what they hand on -/

/-- **No more has been handed on than has been cut off.** -/
theorem ahead_step {a : DuplexAction} (h : ∀ p, s.handled p ≤ (s.pipe p).cut.length)
    (hstep : s.step a = some t) (p : Peer) : t.handled p ≤ (t.pipe p).cut.length := by
  have hpipe : ∀ {q : Peer} {x : Pipe}, (∃ a, (s.pipe q).step a = some x) →
      ∀ p, s.handled p ≤ (Function.update s.pipe q x p).cut.length := fun {q x} ⟨a, hx⟩ =>
    (Function.forall_update_iff _ fun p (x : Pipe) => s.handled p ≤ x.cut.length).mpr
      ⟨(h q).trans (Pipe.cut_step hx).length_le, fun p _ => h p⟩
  cases a with
  | send q env m =>
    obtain ⟨-, rfl⟩ := Runs.of_guarded hstep
    exact h p
  | handle q env fuel =>
    rw [step, handle] at hstep
    split at hstep
    · cases hstep
    · next b hb =>
      have hnext : ∀ p, Function.update s.handled q (s.handled q + 1) p ≤ (s.pipe p).cut.length :=
        (Function.forall_update_iff _ fun p n => n ≤ (s.pipe p).cut.length).mpr
          ⟨(List.getElem?_eq_some_iff.mp hb).1, fun p _ => h p⟩
      cases hr : received b with
      | none =>
        rw [hr] at hstep
        obtain rfl := Option.some.inj hstep
        exact hnext p
      | some m =>
        rw [hr] at hstep
        obtain ⟨-, hcall⟩ := Option.ite_none_right_eq_some.mp hstep
        obtain ⟨-, rfl⟩ := Runs.of_guarded hcall
        exact hnext p
  | queue q =>
    rw [step, queue] at hstep
    split at hstep
    · cases hstep
    · obtain ⟨x, hx, rfl⟩ := Option.map_eq_some_iff.mp hstep
      exact hpipe ⟨_, hx⟩ p
  | move q a =>
    obtain ⟨-, hmove⟩ := Option.ite_none_right_eq_some.mp hstep
    obtain ⟨x, hx, rfl⟩ := Option.map_eq_some_iff.mp hmove
    exact hpipe ⟨a, hx⟩ p

/-- **Nothing is wrong**: the pipes are open, and keep what they keep. -/
structure Ready (s : Duplex) : Prop where
  inv : Inv s
  ahead : ∀ p, s.handled p ≤ (s.pipe p).cut.length
  isOpen : ∀ p, (s.pipe p).Open

/-! ## Where nobody sends

Work is counted in two measures, one for the exchange and one for the pipes.  A step in a pipe
lowers the second and leaves the first; handling a frame lowers the first, whatever it adds to the
second. -/

/-- **A handler does not return** from the next frame, or only with a frame of more bytes than an
`int` counts. -/
def Stuck (env : Duplex → Peer → ℕ → Env) (s : Duplex) : Prop :=
  ∃ p b m, (s.pipe p).cut[s.handled p]? = some b ∧ received b = some m
    ∧ ∀ fuel, (process (env s p) fuel m (s.engine p)).finished = true →
      ∃ f ∈ replies (env s p) fuel m (s.engine p), 2 ^ 63 ≤ f.length

/-- What is left to do in a pipe, and for the frames that are to be queued. -/
def workOn (s : Duplex) (p : Peer) : ℕ :=
  (s.pipe p).leftToDo + ((s.outbox p).map fun b => b.length + 3).sum

/-- What is left to do in both. -/
def work (s : Duplex) : ℕ := s.workOn .initiator + s.workOn .acceptor

theorem work_lt (hlt : t.workOn p < s.workOn p) (hother : t.workOn p.other = s.workOn p.other) :
    t.work < s.work := by
  unfold work
  cases p with
  | initiator =>
    change t.workOn .acceptor = s.workOn .acceptor at hother
    omega
  | acceptor =>
    change t.workOn .initiator = s.workOn .initiator at hother
    omega

/-- A step that brings the frames on in one pipe leaves it so, and the engines see nothing of it. -/
theorem Ready.update (h : Ready s) {a : DuplexAction} (ha : Framing a) (hseen : seen a = [])
    (hstep : s.step a = some t) {x : Pipe} (hpipe : t.pipe = Function.update s.pipe p x)
    (hopen : x.Open) : Ready t ∧ t.exchange = s.exchange := by
  obtain ⟨hinv, hrun⟩ := h.inv.step ha hstep
  rw [hseen] at hrun
  refine ⟨⟨hinv, ahead_step h.ahead hstep, ?_⟩, (Option.some.inj hrun).symm⟩
  rw [hpipe]
  exact (Function.forall_update_iff _ fun _ (x : Pipe) => x.Open).mpr ⟨hopen, fun q _ => h.isOpen q⟩

/-- **Where a pipe is empty, the next frame is queued.** -/
theorem Ready.queues (h : Ready s) (hdrained : (s.pipe p).Drained) (hleft : s.outbox p ≠ []) :
    ∃ t, s.step (.queue p) = some t ∧ Ready t ∧ t.exchange = s.exchange ∧ t.work < s.work := by
  obtain ⟨b, rest, hb⟩ := List.exists_cons_of_ne_nil hleft
  obtain ⟨x, hx⟩ : ∃ x, (s.pipe p).step (.send b) = some x :=
    ⟨_, if_pos ⟨(h.isOpen p).takes, by rw [hdrained.queue]; decide⟩⟩
  have hstep : s.step (.queue p) = some { s with
      pipe := Function.update s.pipe p x, outbox := Function.update s.outbox p rest } := by
    rw [step, queue, hb]
    dsimp only
    rw [hx]
    rfl
  have hopen : x.Open := by
    have hup := (h.isOpen p).up
    obtain ⟨⟨htakes, -⟩, rfl⟩ := Runs.of_guarded hx
    exact ⟨⟨hup.ok, hup.works, hup.writing, hup.reading, hup.noError⟩, htakes⟩
  obtain ⟨hready, hsame⟩ := h.update (p := p) (a := .queue p) trivial rfl hstep rfl hopen
  refine ⟨_, hstep, hready, hsame, work_lt (p := p) ?_ ?_⟩
  · have hless := Pipe.leftToDo_send hx
    unfold workOn
    rw [hb, List.map_cons, List.sum_cons]
    dsimp only
    rw [Function.update_self, Function.update_self]
    omega
  · unfold workOn
    dsimp only
    rw [Function.update_of_ne p.other_ne, Function.update_of_ne p.other_ne]

/-- **Where it is not, what is in it moves on**, if nothing waits to be handed on. -/
theorem Ready.moves (h : Ready s) (hfree : s.handled p = (s.pipe p).cut.length)
    (hleft : ¬ (s.pipe p).Drained) :
    ∃ a t, a ∈ [.write, .flush, .read 1 none] ∧ s.step (.move p a) = some t ∧ Ready t
      ∧ t.exchange = s.exchange ∧ t.work < s.work := by
  obtain ⟨a, x, ha, hx, hup, -, -, hless⟩ := (h.isOpen p).up.progress (h.inv.pipe p) hleft
  have hmay : s.Free p a := by
    simp only [List.mem_cons, List.not_mem_nil, or_false] at ha
    rcases ha with rfl | rfl | rfl
    · trivial
    · trivial
    · exact hfree
  have hstep : s.step (.move p a) = some { s with pipe := Function.update s.pipe p x } := by
    rw [step, if_pos hmay, hx]
    rfl
  obtain ⟨hready, hsame⟩ := h.update (p := p) (a := .move p a) trivial rfl hstep rfl
    ⟨hup, Pipe.takes_step (h.isOpen p).takes ha hx⟩
  refine ⟨a, _, ha, hstep, hready, hsame, work_lt (p := p) ?_ ?_⟩
  · unfold workOn
    dsimp only
    rw [Function.update_self]
    omega
  · unfold workOn
    dsimp only
    rw [Function.update_of_ne p.other_ne]

end Duplex

end FixMsg
