import GoFixMsg.Engine.Outbound

/-!
# Engine/SendOrder — the order in which frames enter the queue

Nothing makes the call that drew the smaller number the first to reach the queue: another call may
overtake it anywhere between the two (`queue_overtaken`).  Where no call enqueues its frame while
another one in progress holds a smaller number, the numbers enter the queue in ascending order, and
in this order they are written out (`queue_increasing`).

The calls hold their numbers as tickets, and a step of a call is a step of the tickets or none at
all; so the order is that of the general development, and what is left to show here is that the
queue is first in, first out, and which of the steps take part (`order_effect`).
-/

open GoLang

namespace FixMsg.Outbound

/-- **A session as it was just attached**: no call is in progress and no frame has been queued. -/
structure Fresh (s : Outbound) : Prop where
  idle : s.calls.Idle
  sendCh : s.sendCh = []
  written : s.written = []
  draws : s.draws = 0
  stamps : s.stamps = []
  entered : s.entered = []

/-- The numbers stamped on the frames that entered the queue, in the order they entered it. -/
def enteredSeqs (s : Outbound) : List ℤ := s.entered.filterMap Entry.seq

/-- The numbers as tickets: drawn from the outgoing number, held by the calls, and released where
the frame enters the queue. -/
def order (s : Outbound) : Tickets.State ℤ :=
  ⟨s.seqMgr.numbers.outgoing, s.calls.view SendCall.number, s.enteredSeqs⟩

/-- The condition on a step: draws do not overflow, writes succeed, there is no reset, and no frame
enters the queue while another call in progress holds a smaller number. -/
def Orderly (s : Outbound) : SendAction → Prop
  | .move _ .draw => int64 (s.seqMgr.numbers.outgoing + 1) = s.seqMgr.numbers.outgoing + 1
  | .move i (.persist d) => ∀ m snapshot draw, s.calls i = some (.drawn m snapshot draw) →
      (s.saved snapshot d).2 = none
  | .move i .enqueue => ∀ c ∈ s.calls i, ∀ n ∈ c.number,
      ∀ j, ∀ d ∈ s.calls j, ∀ k ∈ d.number, n ≤ k
  | .setOutgoing .. => False
  | _ => True

theorem order_of_calls (s : Outbound) {s' : Outbound} (i : ℕ) (x : Option SendCall)
    (hnumbers : s'.seqMgr.numbers = s.seqMgr.numbers) (hentered : s'.entered = s.entered)
    (hcalls : s'.calls = s.calls.put i x) :
    s'.order = ⟨s.order.last, s.order.held.put i (x.bind SendCall.number), s.order.released⟩ := by
  rw [order, enteredSeqs, hnumbers, hentered, hcalls, Calls.view_put]
  rfl

/-- A step that leaves the numbers, the queue and what the calls hold alone. -/
theorem order_stutter {s s' : Outbound} (h : s'.order = s.order) :
    Relation.ReflGen (Tickets.Step True) s.order s'.order := h ▸ .refl

/-- **Each step of a call draws, drops or releases a number, or none of these.**  The number it
stamps is the one it has drawn. -/
theorem order_effect {s s' : Outbound} {i : ℕ} {c : SendCall} {t : CallStep}
    (hi : s.calls i = some c) (hok : s.Orderly (.move i t)) (h : Effect s i c t s') :
    Relation.ReflGen (Tickets.Step True) s.order s'.order := by
  have hheld : s.order.held i = c.number := by
    change (s.calls i).bind SendCall.number = _
    rw [hi, Option.bind_some]
  cases h with
  | silent x hpending hx =>
    have horder : (s.put i x).order = _ := order_of_calls s i x rfl rfl rfl
    cases x with
    | none =>
      rw [horder]
      exact .single .drop
    | some y =>
      refine order_stutter ?_
      rw [horder, Option.bind_some, (hx y rfl).1, ← hheld, Calls.put_of_eq rfl]
  | @draw m hc =>
    subst hc
    have hnext : int64 (s.seqMgr.numbers.outgoing + 1) = s.seqMgr.numbers.outgoing + 1 := hok
    have horder : (s.drawn i m).order
        = ⟨int64 (s.seqMgr.numbers.outgoing + 1),
          s.order.held.put i (some (int64 (s.seqMgr.numbers.outgoing + 1))), s.order.released⟩ :=
      congrArg (Tickets.State.mk _ · s.enteredSeqs) (Calls.view_put SendCall.number s.calls i _)
    rw [horder]
    refine .single (.draw ?_)
    change s.seqMgr.numbers.outgoing < int64 (s.seqMgr.numbers.outgoing + 1)
    rw [hnext]
    exact lt_add_one _
  | @persist m snapshot draw d hc =>
    subst hc
    have hsaved := hok m snapshot draw hi
    have horder : (s.persisted i m snapshot draw d).order = _ := order_of_calls s i _ rfl rfl rfl
    refine order_stutter ?_
    rw [horder, hsaved]
    change Tickets.State.mk _ (s.order.held.put i (some snapshot.outgoing)) _ = _
    rw [Calls.put_of_eq (show s.order.held i = some snapshot.outgoing from hheld)]
  | @enqueue b seq hc hroom =>
    subst hc
    have horder : ((s.queue ⟨seq, b⟩).put i none).order
        = ⟨s.order.last, s.order.held.put i none, s.order.released ++ seq.toList⟩ := by
      rw [order, enteredSeqs, put, queue, Calls.view_put, List.filterMap_append]
      cases seq <;> rfl
    rw [horder]
    refine .single ?_
    cases seq with
    | none =>
      rw [Option.toList_none, List.append_nil]
      exact .drop
    | some n =>
      refine .release hheld fun _ j k hk => ?_
      obtain ⟨d, hd, hk⟩ := Option.bind_eq_some_iff.mp hk
      exact hok _ hi n rfl j d hd k hk

/-- **An orderly step is a step of the tickets, or none.** -/
theorem order_step {s s' : Outbound} {a : SendAction} (hok : s.Orderly a)
    (h : s.step a = some s') : Relation.ReflGen (Tickets.Step True) s.order s'.order := by
  cases a with
  | call i m =>
    obtain ⟨hi, rfl⟩ := step_call h
    have horder : (s.put i _).order = _ :=
      order_of_calls s i (some (.called (stampCompIDs s.senderCompID s.targetCompID m))) rfl rfl rfl
    have hheld : s.order.held i = none := by
      change (s.calls i).bind SendCall.number = none
      rw [hi]
      rfl
    refine order_stutter (horder.trans ?_)
    change Tickets.State.mk _ (s.order.held.put i none) _ = _
    rw [Calls.put_of_eq hheld]
  | move i t =>
    obtain ⟨c, hi, heffect⟩ := step_move h
    exact order_effect hi hok heffect
  | sendOther b =>
    rw [step] at h
    split at h <;> cases h
    refine order_stutter ?_
    rw [order, enteredSeqs, queue, List.filterMap_append]
    exact congrArg (Tickets.State.mk _ _) (List.append_nil _)
  | write =>
    rw [step] at h
    split at h <;> cases h
    exact .refl
  | shutdown | detach =>
    cases h
    exact .refl
  | setOutgoing n d => exact hok.elim

/-- What the write loop has written and what is still in the queue are the frames that entered
it. -/
def Fifo (s : Outbound) : Prop := s.written ++ s.sendCh = s.entered.map Entry.frame

theorem Fifo.queue {s : Outbound} (h : s.Fifo) (x : Entry) : (s.queue x).Fifo := by
  rw [Fifo, Outbound.queue, List.map_append, ← List.append_assoc, h]
  rfl

/-- **The queue is first in, first out.** -/
theorem Fifo.step {s s' : Outbound} {a : SendAction} (h : s.Fifo) (hstep : s.step a = some s') :
    s'.Fifo := by
  cases a with
  | call i m =>
    obtain ⟨-, rfl⟩ := step_call hstep
    exact h
  | move i t =>
    obtain ⟨c, -, heffect⟩ := step_move hstep
    cases heffect with
    | enqueue => exact h.queue _
    | silent | draw | persist => exact h
  | sendOther b =>
    rw [Outbound.step] at hstep
    split at hstep <;> cases hstep
    exact h.queue _
  | write =>
    rw [Outbound.step] at hstep
    split at hstep
    · cases hstep
    · next b rest hq =>
      cases hstep
      rw [Fifo, hq] at h
      rw [Fifo, List.append_assoc, List.singleton_append, h]
  | shutdown | detach | setOutgoing =>
    cases hstep
    exact h

/-- **Frames enter the queue in the order of their numbers**, and are written in this order, in
every orderly run from a session just attached. -/
theorem queue_increasing {s₀ s : Outbound} {as : List SendAction} (hfresh : s₀.Fresh)
    (hok : Runs.Meets step Orderly s₀ as) (hrun : Runs.run step s₀ as = some s) :
    s.enteredSeqs.Pairwise (· < ·) ∧ s.written ++ s.sendCh = s.entered.map Entry.frame := by
  have hstart : Tickets.Inv True s₀.order ∧ s₀.Fifo := by
    constructor
    · rw [order, enteredSeqs, hfresh.entered, Calls.view_of_idle hfresh.idle]
      exact Tickets.inv_start True _
    · rw [Fifo, hfresh.written, hfresh.sendCh, hfresh.entered]
      rfl
  have hinv : Tickets.Inv True s.order ∧ s.Fifo :=
    Runs.run_invariant (fun s => Tickets.Inv True s.order ∧ s.Fifo)
      (fun s a s' hs ha h => ⟨hs.1.reflGen (order_step ha h), hs.2.step h⟩) hstart hok hrun
  exact ⟨hinv.1.sorted trivial, hinv.2⟩

/-! ## Runs of a few callers

To see whether a run is orderly one has to look at every caller there is.  Where all but a few are
idle throughout, it is enough to look at those. -/

/-- The condition on a step where only some callers have calls in progress: these can be looked at
one by one. -/
def OrderlyAmong (callers : List ℕ) (s : Outbound) : SendAction → Prop
  | .call i _ => i ∈ callers
  | .move _ .draw => int64 (s.seqMgr.numbers.outgoing + 1) = s.seqMgr.numbers.outgoing + 1
  | .move i (.persist d) =>
      ∀ c ∈ s.calls i, ∀ snapshot ∈ c.unsaved, (s.saved snapshot d).2.isNone = true
  | .move i .enqueue => ∀ c ∈ s.calls i, ∀ n ∈ c.number,
      ∀ j ∈ callers, ∀ d ∈ s.calls j, ∀ k ∈ d.number, n ≤ k
  | .setOutgoing .. => False
  | .move .. | .sendOther _ | .write | .shutdown | .detach => True

instance (callers : List ℕ) (s : Outbound) (a : SendAction) : Decidable (s.OrderlyAmong callers a) :=
  match a with
  | .call i _ => inferInstanceAs (Decidable (i ∈ callers))
  | .move _ .draw => inferInstanceAs (Decidable (_ = _))
  | .move i (.persist d) => inferInstanceAs (Decidable
      (∀ c ∈ s.calls i, ∀ snapshot ∈ c.unsaved, (s.saved snapshot d).2.isNone = true))
  | .move i .enqueue => inferInstanceAs (Decidable (∀ c ∈ s.calls i, ∀ n ∈ c.number,
      ∀ j ∈ callers, ∀ d ∈ s.calls j, ∀ k ∈ d.number, n ≤ k))
  | .setOutgoing .. => inferInstanceAs (Decidable False)
  | .move _ (.advance _) | .move _ .locate | .move _ .check | .move _ .abandon | .sendOther _ | .write
  | .shutdown | .detach => inferInstanceAs (Decidable True)

/-- The other callers stay idle. -/
theorem idle_step_among {callers : List ℕ} {s s' : Outbound} {a : SendAction}
    (hs : ∀ j, j ∉ callers → s.calls j = none) (hok : s.OrderlyAmong callers a)
    (hstep : s.step a = some s') : ∀ j, j ∉ callers → s'.calls j = none := by
  cases a with
  | call i m =>
    obtain ⟨-, rfl⟩ := step_call hstep
    intro j hj
    have hne : j ≠ i := by
      rintro rfl
      exact hj hok
    exact (Calls.put_of_ne _ hne _).trans (hs j hj)
  | move i t =>
    obtain ⟨c, hi, heffect⟩ := step_move hstep
    have hother : ∀ j, j ∉ callers → j ≠ i := by
      rintro j hj rfl
      rw [hs j hj] at hi
      cases hi
    intro j hj
    cases heffect <;> exact (Calls.put_of_ne _ (hother j hj) _).trans (hs j hj)
  | sendOther | write =>
    rw [step] at hstep
    split at hstep <;> cases hstep
    exact hs
  | shutdown | detach =>
    cases hstep
    exact hs
  | setOutgoing => exact hok.elim

/-- And while they are, a step is orderly if it is among the others. -/
theorem orderly_of_among {callers : List ℕ} {s : Outbound} {a : SendAction}
    (hs : ∀ j, j ∉ callers → s.calls j = none) (hok : s.OrderlyAmong callers a) : s.Orderly a := by
  cases a with
  | move i t =>
    cases t with
    | draw => exact hok
    | persist d =>
      intro m snapshot draw hi
      exact Option.isNone_iff_eq_none.mp (hok _ hi snapshot rfl)
    | enqueue =>
      intro c hc n hn j d hd k hk
      by_cases hj : j ∈ callers
      · exact hok c hc n hn j hj d hd k hk
      · rw [hs j hj] at hd
        cases hd
    | advance | locate | check | abandon => trivial
  | setOutgoing => exact hok.elim
  | call | sendOther | write | shutdown | detach => trivial

/-- **A run of a few callers is orderly** if it is among them. -/
theorem meets_among (callers : List ℕ) {s : Outbound} {as : List SendAction}
    (hs : ∀ j, j ∉ callers → s.calls j = none)
    (h : Runs.Meets step (OrderlyAmong callers) s as) : Runs.Meets step Orderly s as :=
  h.imp (fun s => ∀ j, j ∉ callers → s.calls j = none)
    (fun _ _ _ hs hok hstep => idle_step_among hs hok hstep)
    (fun _ _ hs hok => orderly_of_among hs hok) hs

/-! ## Two callers -/

/-- An environment that lets everything pass. -/
def calm : Env where
  app := noOpApplication
  now := ⟨ascii "20240102-03:04:05.678", by decide⟩
  writes := .ok
  reads := .ok
  ρ := .stable
  σ := .stable
  τ := .stable
  takes := true

/-- An order without a number. -/
def newOrder : CodedMessage where
  fields := [(8, .str (ascii "FIX.4.4")), (35, .str (ascii "D"))]
  wf := by decide
  codec := none

/-- A session just attached to an engine with the given store. -/
def attachedTo (st : SQLiteStore) : Outbound where
  senderCompID := ascii "S"
  targetCompID := ascii "T"
  seqMgr := .new .ok (some st) (ascii "default")
  attached := true
  phase := .running
  sendCh := []
  written := []
  calls _ := none
  draws := 0
  stamps := []
  entered := []

theorem fresh_attachedTo (st : SQLiteStore) : (attachedTo st).Fresh :=
  ⟨fun _ => rfl, rfl, rfl, rfl, rfl, rfl⟩

/-- The steps of a call from its number on. -/
def deliver (i : ℕ) : List SendAction :=
  [.move i (.advance calm), .move i (.advance calm), .move i (.advance calm), .move i .locate,
    .move i .check, .move i .enqueue]

/-- Two calls draw and persist in turns, and the one that drew first enqueues first, while the other
one is in progress. -/
def inTurns : List SendAction :=
  [.call 0 newOrder, .call 1 newOrder, .move 0 .draw, .move 1 .draw, .move 1 (.persist .ok),
    .move 0 (.persist .ok)] ++ deliver 0 ++ deliver 1

/-- Their frames enter the queue in ascending order. -/
theorem queue_increasing_inTurns : ∃ s, Runs.run step (attachedTo .opened) inTurns = some s
    ∧ s.enteredSeqs = [1, 2] ∧ s.enteredSeqs.Pairwise (· < ·) := by
  obtain ⟨s, hs, hseqs⟩ := Option.map_eq_some_iff.mp
    (show (Runs.run step (attachedTo .opened) inTurns).map enteredSeqs = some [1, 2] by
      decide +kernel)
  have hok : Runs.Meets step Orderly (attachedTo .opened) inTurns :=
    meets_among [0, 1] (fun _ _ => rfl) (by decide +kernel)
  exact ⟨s, hs, hseqs, (queue_increasing (fresh_attachedTo _) hok hs).1⟩

/-- Caller 0 draws 1, caller 1 draws 2 and overtakes: the peer receives 2 before 1. -/
theorem queue_overtaken : (Runs.run step (attachedTo .opened)
    ([.call 0 newOrder, .move 0 .draw, .move 0 (.persist .ok),
      .call 1 newOrder, .move 1 .draw, .move 1 (.persist .ok)] ++ deliver 1 ++ deliver 0)).map
      enteredSeqs = some [2, 1] := by
  decide +kernel

end FixMsg.Outbound
