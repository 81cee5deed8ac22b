import GoFixMsg.Handler.Exchange
import GoFixMsg.Handler.Frames
import GoFixMsg.Session.Pipe

/-!
# Handler/Duplex — two engines and the bytes between them

`Exchange` lets two engines pass each other frames.  What they have is two pipes: frames are queued,
written and flushed to buffers, carried over in pieces, and cut out of the bytes again by a read
loop that hands them on one by one and reads no more before it has.  Seen from its engines, that is
an exchange: whatever the order of all these steps, and whatever fails, each run of the one is a run
of the other, in which the frames on their way are those that have been sent and not been handled
(`duplex_refines`).  What holds of exchanges holds of the bytes: without a Logout on its way, the
engines come to an end of handling (`duplex_settles`).

The calls of an engine are taken one after the other; the frames of each go into the queue as there
is room.  All messages are to have a BeginString without SOH, tags in range and SOH as the
separator, or the peer may cut a frame where none was sent; and handlers return.  That of a
ResendRequest for the numbers up to the greatest `int` does not, and a run has no step for it.
-/

open GoLang

namespace FixMsg

/-- **Two engines, and for each the pipe that its frames come through.** -/
structure Duplex where
  engine : Peer → Engine
  pipe : Peer → Pipe
  /-- The frames for an engine that the other one has still to queue. -/
  outbox : Peer → List Bytes
  /-- How many frames the read loop of an engine has handed on. -/
  handled : Peer → ℕ

/-- What happens to the two. -/
inductive DuplexAction where
  /-- The engine sends a message: its application does, or a timer. -/
  | send (p : Peer) (env : Env) (m : CodedMessage)
  /-- The read loop hands the next frame on. -/
  | handle (p : Peer) (env : ℕ → Env) (fuel : ℕ)
  /-- A frame for the engine is queued. -/
  | queue (p : Peer)
  /-- A step of the pipe to the engine. -/
  | move (p : Peer) (a : PipeAction)

theorem Peer.other_ne (p : Peer) : p.other ≠ p := by cases p <;> decide

namespace Pipe

/-- The frames the read loop has cut off so far. -/
def cut (p : Pipe) : List Bytes := (Framing.feed scanFrame [] (chunks p.reads)).1

/-- They are what it dispatches. -/
theorem Inv.dispatched_cut {p : Pipe} (h : Inv p) (hframed : p.Framed) (w : Receivers) :
    p.dispatched w = p.cut.flatMap (dispatch w) := by
  obtain ⟨fs₁, -, r, -, hfeed, -⟩ := h.feed hframed
  rw [cut, hfeed]
  exact readLoop_events w h.up hfeed

theorem Inv.cut_queued {p : Pipe} (h : Inv p) (hframed : p.Framed) : p.cut <+: p.queued := by
  obtain ⟨fs₁, fs₂, r, hsplit, hfeed, -⟩ := h.feed hframed
  rw [cut, hfeed, hsplit]
  exact List.prefix_append _ _

/-- Nothing but `Send` queues frames. -/
theorem queued_step {p p' : Pipe} {a : PipeAction} (ha : ∀ b, a ≠ .send b)
    (h : p.step a = some p') : p'.queued = p.queued := by
  cases a with
  | send b => exact absurd rfl (ha b)
  | write =>
    obtain ⟨b, rest, -, -, rfl⟩ := step_write h
    exact (wrote_keeps b rest p).1
  | flush =>
    obtain ⟨-, rfl⟩ := Runs.of_guarded h
    exact p.flushed_keeps.1
  | writeEnds | read =>
    obtain ⟨-, rfl⟩ := Runs.of_guarded h
    rfl
  | cancel | closeConn | closeCh =>
    obtain rfl := Option.some.inj h
    rfl

end Pipe

namespace Duplex

/-- Two engines that have just been connected. -/
def opened (engine : Peer → Engine) (answer : Peer → ℕ → Option ℕ) : Duplex where
  engine := engine
  pipe p := .opened (answer p)
  outbox _ := []
  handled _ := 0

/-- A call has changed the engine, and what that sent is to be queued.  No slice has more bytes than
an `int` counts. -/
def after (p : Peer) (e : Engine) (s : Duplex) : Option Duplex :=
  let new := e.sent.drop (s.engine p).sent.length
  if new.all fun b => b.length < 2 ^ 63 then
    some { s with
      engine := Function.update s.engine p e
      outbox := Function.update s.outbox p.other (s.outbox p.other ++ new) }
  else none

/-- The read loop hands the next frame on, if it can be read.  There is no step for a handler that
does not return: the runs are those whose handlers do. -/
def handle (p : Peer) (env : ℕ → Env) (fuel : ℕ) (s : Duplex) : Option Duplex :=
  match (s.pipe p).cut[s.handled p]? with
  | none => none
  | some b =>
      let s := { s with handled := Function.update s.handled p (s.handled p + 1) }
      match received b with
      | none => some s
      | some m =>
          let r := process env fuel m (s.engine p)
          if r.finished then s.after p r.engine else none

/-- The first frame of the outbox is queued. -/
def queue (p : Peer) (s : Duplex) : Option Duplex :=
  match s.outbox p with
  | [] => none
  | b :: rest => ((s.pipe p).step (.send b)).map fun q =>
      { s with
        pipe := Function.update s.pipe p q, outbox := Function.update s.outbox p rest }

/-- Frames are queued by the engines, and the read loop does not read before it has handed on all
that it has cut off. -/
def Free (s : Duplex) (p : Peer) : PipeAction → Prop
  | .send _ => False
  | .read _ _ => s.handled p = (s.pipe p).cut.length
  | .write | .flush | .writeEnds | .cancel | .closeConn | .closeCh => True

instance (s : Duplex) (p : Peer) (a : PipeAction) : Decidable (s.Free p a) :=
  match a with
  | .send _ => inferInstanceAs (Decidable False)
  | .read _ _ => inferInstanceAs (Decidable (_ = _))
  | .write | .flush | .writeEnds | .cancel | .closeConn | .closeCh =>
      inferInstanceAs (Decidable True)

/-- One step. -/
def step (s : Duplex) : DuplexAction → Option Duplex
  | .send p env m => s.after p (sendMessage env m (s.engine p)).engine
  | .handle p env fuel => s.handle p env fuel
  | .queue p => s.queue p
  | .move p a =>
      if s.Free p a then
        ((s.pipe p).step a).map fun q => { s with pipe := Function.update s.pipe p q }
      else none

/-! ## What the engines see of it -/

/-- **The exchange of the engines**: on its way is what has been sent, and not been handled. -/
def exchange (s : Duplex) : Exchange where
  engine := s.engine
  toward p := ((s.pipe p).queued ++ s.outbox p).drop (s.handled p)

/-- The step of the exchange that a step is. -/
def seen : DuplexAction → List ExchangeStep
  | .send p env m => [.send p env m]
  | .handle p env fuel => [.deliver p env fuel]
  | .queue _ | .move _ _ => []

/-- An action whose messages can be framed. -/
def Framing : DuplexAction → Prop
  | .send _ env m => m.Framable ∧ env.app.KeepsFramable
  | .handle _ env _ => ∀ k, (env k).app.KeepsFramable
  | .queue _ | .move _ _ => True

/-- An action of engines that answer each other, and nobody sends. -/
def Answering : DuplexAction → Prop
  | .send _ _ _ => False
  | .handle _ env _ => ∀ k, (env k).app.Tame ∧ (env k).app.KeepsFramable
  | .queue _ | .move _ _ => True

theorem Answering.framing {a : DuplexAction} (h : Answering a) : Framing a := by
  cases a with
  | send p env m => exact h.elim
  | handle p env fuel => exact fun k => (h k).2
  | queue p | move p a => trivial

/-- **The invariant**: the pipes lose nothing, and whatever is in them or will be is a whole
frame. -/
structure Inv (s : Duplex) : Prop where
  pipe : ∀ p, (s.pipe p).Inv
  queued : ∀ p, (s.pipe p).Framed
  outbox : ∀ p, ∀ b ∈ s.outbox p, IsFrame b ∧ b.length < 2 ^ 63
  handled : ∀ p, s.handled p ≤ (s.pipe p).queued.length
  stores : ∀ p, (s.engine p).seqMgr.StoresFramable

variable {s s' : Duplex} {p : Peer}

theorem inv_opened {engine : Peer → Engine} (hs : ∀ p, (engine p).seqMgr.StoresFramable)
    (answer : Peer → ℕ → Option ℕ) : Inv (opened engine answer) where
  pipe p := Pipe.inv_opened (answer p)
  queued _ _ hb := absurd hb List.not_mem_nil
  outbox _ _ hb := absurd hb List.not_mem_nil
  handled _ := le_refl _
  stores := hs

/-! ## One step

Most steps are of one pipe and change nothing that the engines see.  The others are a call of an
engine: a sending, or a delivery of the frame that the read loop has come to, which is the first on
its way. -/

/-- A call of an engine that leaves it so: what it sends is on its way. -/
theorem Inv.after (h : Inv s) {x : TimedEvent} (hx : x.Framing)
    (hafter : s.after p ((s.engine p).handleTimed x) = some s') :
    Inv s' ∧ s'.exchange = ⟨Function.update s.engine p ((s.engine p).handleTimed x),
      Function.update s.exchange.toward p.other (s.exchange.toward p.other
        ++ ((s.engine p).handleTimed x).sent.drop (s.engine p).sent.length)⟩ := by
  obtain ⟨hshort, rfl⟩ := Runs.of_guarded hafter
  obtain ⟨new, hsent, hwhole⟩ := Engine.sent_handleTimed (h.stores p) hx
  have hnew : ((s.engine p).handleTimed x).sent.drop (s.engine p).sent.length = new := by
    rw [hsent, List.drop_left' rfl]
  rw [hnew] at hshort ⊢
  have hlen : ∀ b ∈ new, b.length < 2 ^ 63 := fun b hb =>
    of_decide_eq_true (List.all_eq_true.mp hshort b hb)
  refine ⟨⟨h.pipe, h.queued, ?_, h.handled, ?_⟩, congrArg (Exchange.mk _) (funext fun q => ?_)⟩
  · refine (Function.forall_update_iff _ fun _ l => ∀ b ∈ l, IsFrame b ∧ b.length < 2 ^ 63).mpr
      ⟨List.forall_mem_append.mpr ⟨h.outbox _, fun b hb => ?_⟩, fun q _ => h.outbox q⟩
    exact ⟨hwhole b hb (hlen b hb), hlen b hb⟩
  · refine (Function.forall_update_iff _ fun _ (e : Engine) => e.seqMgr.StoresFramable).mpr
      ⟨fun key row f hrow => ?_, fun q _ => h.stores q⟩
    rw [Engine.messages_handleTimed] at hrow
    exact h.stores p key row f hrow
  · change ((s.pipe q).queued ++ Function.update s.outbox p.other _ q).drop (s.handled q) = _
    by_cases hq : q = p.other
    · subst hq
      have hhandled := h.handled p.other
      rw [Function.update_self, Function.update_self, ← List.append_assoc]
      exact List.drop_append_of_le_length (by rw [List.length_append]; omega)
    · rw [Function.update_of_ne hq, Function.update_of_ne hq]
      rfl

/-- **The next frame that the read loop hands on is the first on its way.** -/
theorem Inv.toward_eq (h : Inv s) {b : Bytes} (hb : (s.pipe p).cut[s.handled p]? = some b) :
    s.handled p < (s.pipe p).queued.length ∧ s.exchange.toward p
      = b :: ((s.pipe p).queued ++ s.outbox p).drop (s.handled p + 1) := by
  obtain ⟨rest, hrest⟩ := (h.pipe p).cut_queued (h.queued p)
  obtain ⟨hlt, hget⟩ := List.getElem?_eq_some_iff.mp hb
  have hlen : s.handled p < (s.pipe p).queued.length := by
    rw [← hrest, List.length_append]
    omega
  have hnext : ((s.pipe p).queued ++ s.outbox p)[s.handled p]? = some b := by
    rw [← hrest, List.append_assoc, List.getElem?_append_left hlt, hb]
  obtain ⟨hlt', hget'⟩ := List.getElem?_eq_some_iff.mp hnext
  exact ⟨hlen, (List.drop_eq_getElem_cons hlt').trans (by rw [hget'])⟩

/-- **Handing a frame on is a delivery.** -/
theorem Inv.handle (h : Inv s) {env : ℕ → Env} (happ : ∀ k, (env k).app.KeepsFramable) {fuel : ℕ}
    (hhandle : s.handle p env fuel = some s') :
    Inv s' ∧ s.exchange.deliver p env fuel = some s'.exchange := by
  unfold Duplex.handle at hhandle
  split at hhandle
  · cases hhandle
  · next b hb =>
    obtain ⟨hlt, htoward⟩ := h.toward_eq hb
    generalize hrest : ((s.pipe p).queued ++ s.outbox p).drop (s.handled p + 1) = rest at htoward
    generalize hnow : { s with handled := Function.update s.handled p (s.handled p + 1) } = t
      at hhandle
    have hinv : Inv t := by
      rw [← hnow]
      exact ⟨h.pipe, h.queued, h.outbox, (Function.forall_update_iff _ fun q n =>
        n ≤ (s.pipe q).queued.length).mpr ⟨hlt, fun q _ => h.handled q⟩, h.stores⟩
    have hengine : t.engine = s.engine := by rw [← hnow]
    have hsame : t.exchange = ⟨s.engine, Function.update s.exchange.toward p rest⟩ := by
      rw [← hnow]
      refine congrArg (Exchange.mk _) (funext fun q => ?_)
      change ((s.pipe q).queued ++ s.outbox q).drop (Function.update s.handled p _ q) = _
      by_cases hq : q = p
      · subst hq
        rw [Function.update_self, Function.update_self, hrest]
      · rw [Function.update_of_ne hq, Function.update_of_ne hq]
        rfl
    have hother : t.exchange.toward p.other = s.exchange.toward p.other := by
      rw [hsame]
      exact Function.update_of_ne p.other_ne _ _
    cases hr : received b with
    | none =>
      rw [hr] at hhandle
      cases hhandle
      unfold Exchange.deliver
      rw [htoward]
      dsimp only
      rw [hr, hsame]
      exact ⟨hinv, rfl⟩
    | some m =>
      rw [hr] at hhandle
      obtain ⟨hfinished, hcall⟩ := Option.ite_none_right_eq_some.mp hhandle
      obtain ⟨hinv', heq⟩ := hinv.after (x := .event (.receive env fuel m)) happ hcall
      rw [hengine] at hfinished
      unfold Exchange.deliver
      rw [htoward]
      dsimp only
      rw [hr]
      refine ⟨hinv', (if_pos hfinished).trans ?_⟩
      rw [heq, hother, hsame, hengine]
      rfl

/-- The frames that have been sent stay as they are where one is queued, or none. -/
theorem Inv.update (h : Inv s) {q : Pipe} (hq : q.Inv) (hframed : q.Framed) {rest : List Bytes}
    (hrest : ∀ b ∈ rest, IsFrame b ∧ b.length < 2 ^ 63)
    (hsame : q.queued ++ rest = (s.pipe p).queued ++ s.outbox p)
    (hlen : (s.pipe p).queued.length ≤ q.queued.length) {t : Duplex}
    (ht : t = { s with
      pipe := Function.update s.pipe p q, outbox := Function.update s.outbox p rest }) :
    Inv t ∧ t.exchange = s.exchange := by
  subst ht
  refine ⟨⟨?_, ?_, ?_, fun r => ?_, h.stores⟩, congrArg (Exchange.mk _) (funext fun r => ?_)⟩
  · exact (Function.forall_update_iff _ fun _ (q : Pipe) => q.Inv).mpr ⟨hq, fun r _ => h.pipe r⟩
  · exact (Function.forall_update_iff _ fun _ (q : Pipe) => q.Framed).mpr
      ⟨hframed, fun r _ => h.queued r⟩
  · exact (Function.forall_update_iff _ fun _ l => ∀ b ∈ l, IsFrame b ∧ b.length < 2 ^ 63).mpr
      ⟨hrest, fun r _ => h.outbox r⟩
  · change s.handled r ≤ (Function.update s.pipe p q r).queued.length
    have hhandled := h.handled r
    by_cases hr : r = p
    · subst hr
      rw [Function.update_self]
      omega
    · rw [Function.update_of_ne hr]
      exact hhandled
  · change ((Function.update s.pipe p q r).queued ++ Function.update s.outbox p rest r).drop _ = _
    by_cases hr : r = p
    · subst hr
      rw [Function.update_self, Function.update_self, hsame]
    · rw [Function.update_of_ne hr, Function.update_of_ne hr]

/-- **Every step keeps the invariant, and is a step of the exchange or none.** -/
theorem Inv.step (h : Inv s) {a : DuplexAction} (ha : Framing a) (hstep : s.step a = some s') :
    Inv s' ∧ Runs.run Exchange.step s.exchange (seen a) = some s'.exchange := by
  cases a with
  | send p env m =>
    obtain ⟨hinv, heq⟩ := h.after (x := .event (.send env m)) ha hstep
    exact ⟨hinv, Runs.run_cons_eq_some.mpr ⟨_, rfl, congrArg some heq.symm⟩⟩
  | handle p env fuel =>
    obtain ⟨hinv, hdeliver⟩ := h.handle ha hstep
    exact ⟨hinv, Runs.run_cons_eq_some.mpr ⟨_, hdeliver, rfl⟩⟩
  | queue p =>
    rw [Duplex.step, queue] at hstep
    split at hstep
    · cases hstep
    · next b rest hb =>
      obtain ⟨q, hq, rfl⟩ := Option.map_eq_some_iff.mp hstep
      obtain ⟨hframe, hrest⟩ := List.forall_mem_cons.mp (hb ▸ h.outbox p)
      have hqueued : q.queued = (s.pipe p).queued ++ [b] := by
        obtain ⟨-, rfl⟩ := Runs.of_guarded hq
        rfl
      obtain ⟨hinv, hsame⟩ := h.update ((h.pipe p).step hq) ((h.queued p).step
        (a := .send b) hframe hq) hrest
        (by rw [hqueued, hb, List.append_assoc]; rfl)
        (by rw [hqueued, List.length_append]; exact Nat.le_add_right _ _) rfl
      exact ⟨hinv, congrArg some hsame.symm⟩
  | move p a =>
    obtain ⟨hfree, hmove⟩ := Option.ite_none_right_eq_some.mp hstep
    obtain ⟨q, hq, rfl⟩ := Option.map_eq_some_iff.mp hmove
    have hsend : ∀ b, a ≠ .send b := by
      rintro b rfl
      exact hfree
    have haction : Pipe.FrameAction a := by
      cases a with
      | send b => exact absurd rfl (hsend b)
      | write | flush | writeEnds | cancel | closeConn | closeCh | read => trivial
    have hqueued := Pipe.queued_step hsend hq
    obtain ⟨hinv, hsame⟩ := h.update ((h.pipe p).step hq) ((h.queued p).step haction hq)
      (h.outbox p) (by rw [hqueued]) (by rw [hqueued])
      (t := { s with pipe := Function.update s.pipe p q }) (by rw [Function.update_eq_self])
    exact ⟨hinv, congrArg some hsame.symm⟩

/-! ## Runs -/

section Runs

variable {engine : Peer → Engine} (hs : ∀ p, (engine p).seqMgr.StoresFramable)
  {answer : Peer → ℕ → Option ℕ} {as : List DuplexAction} (has : ∀ a ∈ as, Framing a)

include hs has

/-- What every run keeps, and is to the engines. -/
theorem exchange_run (hrun : Runs.run step (opened engine answer) as = some s) :
    Inv s ∧ Runs.run Exchange.step ⟨engine, fun _ => []⟩ (as.flatMap seen) = some s.exchange :=
  Runs.run_simulated exchange seen (fun _ a => Framing a) (fun _ _ _ h ha => h.step ha)
    (inv_opened hs answer) (Runs.meets_of_forall (fun a ha _ => has a ha) _) hrun

/-- **Engines that have nothing but bytes between them exchange frames**: whatever the order of the
steps, and whatever fails, a run is a run of the exchange, whose deliveries are the frames that the
read loops dispatch, one by one. -/
theorem duplex_refines (hrun : Runs.run step (opened engine answer) as = some s) :
    Runs.run Exchange.step ⟨engine, fun _ => []⟩ (as.flatMap seen) = some s.exchange
      ∧ ∀ p w, (s.pipe p).dispatched w = (s.pipe p).cut.flatMap (dispatch w) := by
  obtain ⟨hinv, hseen⟩ := exchange_run hs has hrun
  exact ⟨hseen, fun p w => (hinv.pipe p).dispatched_cut (hinv.queued p) w⟩

/-- **Without a Logout on its way, the engines come to an end of handling**, as long as nobody
sends: no run goes on handing frames on for good. -/
theorem duplex_settles (hrun : Runs.run step (opened engine answer) as = some s)
    (hlogouts : s.exchange.logouts = 0) :
    Acc (fun t s => ∃ bs, (∀ b ∈ bs, Answering b) ∧ bs.flatMap seen ≠ []
      ∧ Runs.run step s bs = some t) s := by
  refine Runs.acc_of_simulated exchange seen ExchangeStep.TameDelivery
    (fun _ a _ h ha => h.step ha.framing) (fun a ha => ?_) (exchange_run hs has hrun).1
    (Runs.acc_of_descent (fun x => x.logouts = 0) wellFounded_lt
      (fun x => toLex (x.requests, x.count fun _ => true))
      (fun _ _ _ hx ha h => Exchange.step_descends ha hx h) hlogouts)
  cases a with
  | send p env m => exact ha.elim
  | handle p env fuel => exact List.forall_mem_singleton.mpr fun k => (ha k).1
  | queue p | move p a => exact fun _ hb => absurd hb List.not_mem_nil

end Runs

/-- Two engines on the same side of a session, over connections that take everything. -/
def twoEngines : Duplex := opened (fun _ => engineOn .opened) fun _ _ => none

/-- A TestRequest is sent, and arrives in two pieces; its answer arrives in one. -/
def testOverBytes : List DuplexAction :=
  [.send .acceptor Outbound.calm testRequest, .queue .initiator, .move .initiator .write,
   .move .initiator .flush, .move .initiator (.read 30 none), .move .initiator (.read 4096 none),
   .handle .initiator (fun _ => Outbound.calm) 0, .queue .acceptor, .move .acceptor .write,
   .move .acceptor .flush, .move .acceptor (.read 4096 none),
   .handle .acceptor (fun _ => Outbound.calm) 0]

theorem framable_testRequest : testRequest.Framable :=
  (CodedMessage.framable_adminHeader _ _ _).set (by decide) (by decide) _

theorem framing_testOverBytes : ∀ a ∈ testOverBytes, Framing a := by
  have hcalm : ∀ k : ℕ, ((fun _ => Outbound.calm : ℕ → Env) k).app.KeepsFramable :=
    fun _ => keepsFramable_noOp
  simp only [testOverBytes, List.forall_mem_cons]
  exact ⟨⟨framable_testRequest, keepsFramable_noOp⟩, trivial, trivial, trivial, trivial, trivial,
    hcalm, trivial, trivial, trivial, trivial, hcalm, fun _ h => absurd h List.not_mem_nil⟩

/-- The exchange is over. -/
theorem duplex_refines_test : ∃ s, Runs.run step twoEngines testOverBytes = some s
    ∧ Runs.run Exchange.step ⟨fun _ => engineOn .opened, fun _ => []⟩
      [.send .acceptor Outbound.calm testRequest, .deliver .initiator (fun _ => Outbound.calm) 0,
        .deliver .acceptor (fun _ => Outbound.calm) 0] = some s.exchange := by
  have hsome : (Runs.run step twoEngines testOverBytes).isSome = true := by decide +kernel
  obtain ⟨s, hrun⟩ := Option.isSome_iff_exists.mp hsome
  exact ⟨s, hrun, (duplex_refines (fun _ => storesFramable_engineOn) framing_testOverBytes hrun).1⟩

/-- So it comes to an end wherever it stands. -/
theorem duplex_settles_test : ∃ s, Runs.run step twoEngines (testOverBytes.take 5) = some s
    ∧ Acc (fun t s => ∃ bs, (∀ b ∈ bs, Answering b) ∧ bs.flatMap seen ≠ []
      ∧ Runs.run step s bs = some t) s := by
  have hquiet : ((Runs.run step twoEngines (testOverBytes.take 5)).map fun s => s.exchange.logouts)
      = some 0 := by decide +kernel
  obtain ⟨s, hrun, hlogouts⟩ := Option.map_eq_some_iff.mp hquiet
  refine ⟨s, hrun, duplex_settles (fun _ => storesFramable_engineOn) (fun a ha => ?_) hrun hlogouts⟩
  exact framing_testOverBytes a (List.take_subset _ _ ha)

end Duplex

end FixMsg
