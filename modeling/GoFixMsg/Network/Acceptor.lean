import GoFixMsg.Machinery.Runs
import Mathlib.Data.List.Range
import Mathlib.Data.List.Perm.Basic

/-!
# Network/Acceptor — when `Stop` returns, and what is left then

`Start` runs a loop that accepts connections, and each of them has a goroutine that calls the
handler, closes the connection and is done.  All of them are counted in a `WaitGroup`, and `Stop`
waits for it.  So once `Stop` has returned no handler runs, none will, and every connection that was
accepted is closed (`acceptor_quiet`).

`Start` keeps only its last listener.  Where there has been but one, `Stop` closes it, and the
goroutines have a bounded number of steps left (`stop_returns`); the loop of an earlier listener
would go on waiting for connections.  A second `Stop` closes a closed channel (`stop_panics_iff`).
-/

namespace FixMsg

/-- Where the loop of a `Start` is. -/
inductive AcceptLoop where
  /-- Before the `select` on `stopCh`. -/
  | checking
  /-- In `Accept` of a listener. -/
  | accepting (ln : ℕ)
  deriving DecidableEq

/-- What the owner of the acceptor is in. -/
inductive AcceptorCall where
  | idle
  /-- In `Stop`, behind `close(a.stopCh)`. -/
  | closing
  /-- In `Stop`, at `a.wg.Wait()`. -/
  | waiting
  /-- `Stop` has closed a closed channel. -/
  | panicked
  deriving DecidableEq

/-- **`Acceptor`**, its goroutines and its connections.  Listeners and connections are numbered as
they come; `leaving` counts the goroutines behind `wrapped.Close()`. -/
structure Acceptor where
  stopCh : Bool
  ln : Option ℕ
  listeners : ℕ
  closedLns : List ℕ
  loops : List AcceptLoop
  accepted : ℕ
  handled : List ℕ
  closed : List ℕ
  leaving : ℕ
  wg : ℕ
  call : AcceptorCall
  returned : Bool

/-- What the owner does, the goroutines, and the network. -/
inductive AcceptorAction where
  /-- `Start`, which fails where it cannot listen. -/
  | start (listens : Bool)
  | check (i : ℕ)
  /-- `Accept` returns a connection. -/
  | accept (i : ℕ)
  /-- `Accept` returns an error. -/
  | acceptError (i : ℕ)
  /-- A handler returns, and its connection is closed. -/
  | close (c : ℕ)
  | done
  /-- `Stop` is called. -/
  | stop
  | closeListener
  /-- `Stop` returns. -/
  | stopped
  deriving DecidableEq

/-- A step of the goroutines. -/
def AcceptorAction.isInternal : AcceptorAction → Bool
  | .check _ | .accept _ | .acceptError _ | .close _ | .done => true
  | .start _ | .stop | .closeListener | .stopped => false

namespace Acceptor

/-- `NewAcceptor`. -/
def new : Acceptor := ⟨false, none, 0, [], [], 0, [], [], 0, 0, .idle, false⟩

/-- The loop ends, and is done. -/
def endLoop (i : ℕ) (a : Acceptor) : Acceptor :=
  { a with loops := a.loops.eraseIdx i, wg := a.wg - 1 }

/-- One step. -/
def step (a : Acceptor) : AcceptorAction → Option Acceptor
  | .start listens =>
      if a.call = .idle then
        some (if listens then
          { a with
            ln := some a.listeners
            listeners := a.listeners + 1
            loops := a.loops ++ [.checking]
            wg := a.wg + 1 }
        else a)
      else none
  | .check i =>
      match a.call, a.loops[i]?, a.ln with
      | .panicked, _, _ => none
      | _, some .checking, some l =>
          some (if a.stopCh then a.endLoop i else { a with loops := a.loops.set i (.accepting l) })
      | _, _, _ => none
  | .accept i =>
      match a.call, a.loops[i]? with
      | .panicked, _ => none
      | _, some (.accepting l) =>
          if l ∈ a.closedLns then none
          else
            some { a with
              loops := a.loops.set i .checking
              accepted := a.accepted + 1
              handled := a.handled ++ [a.accepted]
              wg := a.wg + 1 }
      | _, _ => none
  | .acceptError i =>
      match a.call, a.loops[i]? with
      | .panicked, _ => none
      | _, some (.accepting _) => some (a.endLoop i)
      | _, _ => none
  | .close c =>
      if a.call ≠ .panicked ∧ c ∈ a.handled then
        some { a with
          handled := a.handled.erase c, closed := a.closed ++ [c], leaving := a.leaving + 1 }
      else none
  | .done =>
      if a.call ≠ .panicked ∧ 0 < a.leaving then
        some { a with leaving := a.leaving - 1, wg := a.wg - 1 }
      else none
  | .stop =>
      if a.call = .idle then
        some (if a.stopCh then { a with call := .panicked }
          else { a with stopCh := true, call := .closing })
      else none
  | .closeListener =>
      if a.call = .closing then
        some { a with closedLns := a.closedLns ++ a.ln.toList, call := .waiting }
      else none
  | .stopped =>
      if a.call = .waiting ∧ a.wg = 0 then some { a with call := .idle, returned := true } else none

/-! ## What holds in every state

The `WaitGroup` is what `Stop` waits for, so it has to count exactly what runs: the loops, the
handlers, and the goroutines whose connection has been closed.  The other parts of the invariant say
where a loop can be, and what is known of the listeners. -/

/-- **The invariant**: the `WaitGroup` counts the goroutines, the connections that have been
accepted are those being handled and those closed, the loops wait at listeners there have been, and
once `Stop` has returned there is nothing left but loops that are about to end. -/
structure Inv (a : Acceptor) : Prop where
  counted : a.wg = a.loops.length + a.handled.length + a.leaving
  conns : (a.closed ++ a.handled).Perm (List.range a.accepted)
  known : ∀ l, .accepting l ∈ a.loops → l < a.listeners
  last : ∀ l, a.ln = some l → l + 1 = a.listeners
  started : a.ln = none → a.loops = [] ∧ a.listeners = 0
  stopping : a.call = .closing ∨ a.call = .waiting → a.stopCh = true
  unlistened : a.call = .waiting → ∀ l, a.ln = some l → l ∈ a.closedLns
  quiet : a.returned = true →
    a.stopCh = true ∧ a.handled = [] ∧ a.leaving = 0 ∧ ∀ x ∈ a.loops, x = .checking

theorem inv_new : new.Inv where
  counted := rfl
  conns := List.Perm.refl _
  known := fun _ h => absurd h List.not_mem_nil
  last := fun _ h => by cases h
  started := fun _ => ⟨rfl, rfl⟩
  stopping := fun h => by rcases h with h | h <;> cases h
  unlistened := fun h => by cases h
  quiet := fun h => by cases h

/-- A loop that ends was counted. -/
theorem Inv.endLoop {a : Acceptor} (h : a.Inv) {i : ℕ} {x : AcceptLoop}
    (hi : a.loops[i]? = some x) : (a.endLoop i).Inv := by
  have hlt : i < a.loops.length := (List.getElem?_eq_some_iff.mp hi).1
  have hsub : ∀ y, y ∈ a.loops.eraseIdx i → y ∈ a.loops := fun y hy => List.mem_of_mem_eraseIdx hy
  obtain ⟨counted, conns, known, last, started, stopping, unlistened, quiet⟩ := h
  refine ⟨?_, conns, fun l hl => known l (hsub _ hl), last, fun hln => ?_, stopping, unlistened,
    fun hret => ?_⟩
  · change a.wg - 1 = (a.loops.eraseIdx i).length + a.handled.length + a.leaving
    rw [List.length_eraseIdx_of_lt hlt]
    omega
  · rw [(started hln).1] at hlt
    exact absurd hlt (Nat.not_lt_zero _)
  · obtain ⟨hstop, hhandled, hleaving, hloops⟩ := quiet hret
    exact ⟨hstop, hhandled, hleaving, fun y hy => hloops y (hsub y hy)⟩

/-- **What a step of a goroutine finds**: a loop at its place. -/
theorem step_check {a a' : Acceptor} {i : ℕ} (h : a.step (.check i) = some a') :
    ∃ l, a.loops[i]? = some .checking ∧ a.ln = some l
      ∧ a' = if a.stopCh then a.endLoop i
        else { a with loops := a.loops.set i (.accepting l) } := by
  unfold step at h
  dsimp only at h
  split at h
  · cases h
  · next l hi hln _ => exact ⟨l, hi, hln, (Option.some.inj h).symm⟩
  · cases h

theorem step_accept {a a' : Acceptor} {i : ℕ} (h : a.step (.accept i) = some a') :
    ∃ l, a.loops[i]? = some (.accepting l) ∧ l ∉ a.closedLns
      ∧ a' = { a with
        loops := a.loops.set i .checking
        accepted := a.accepted + 1
        handled := a.handled ++ [a.accepted]
        wg := a.wg + 1 } := by
  unfold step at h
  dsimp only at h
  split at h
  · cases h
  · next l hi _ =>
    split at h
    · cases h
    · next hopen => exact ⟨l, hi, hopen, (Option.some.inj h).symm⟩
  · cases h

theorem step_acceptError {a a' : Acceptor} {i : ℕ} (h : a.step (.acceptError i) = some a') :
    ∃ l, a.loops[i]? = some (.accepting l) ∧ a' = a.endLoop i := by
  unfold step at h
  dsimp only at h
  split at h
  · cases h
  · next l hi _ => exact ⟨l, hi, (Option.some.inj h).symm⟩
  · cases h

/-- **`Start` keeps the invariant.** -/
theorem Inv.start {a : Acceptor} (h : a.Inv) (hidle : a.call = .idle) :
    ({ a with
      ln := some a.listeners
      listeners := a.listeners + 1
      loops := a.loops ++ [.checking]
      wg := a.wg + 1 } : Acceptor).Inv := by
  obtain ⟨counted, conns, known, last, started, stopping, unlistened, quiet⟩ := h
  refine ⟨?_, conns, fun l hl => ?_, fun l hl => ?_, fun hln => ?_, stopping, fun hwait => ?_,
    fun hret => ?_⟩
  · dsimp only
    rw [List.length_append, counted, List.length_singleton]
    omega
  · rcases List.mem_append.mp hl with hold | hnew
    · exact Nat.lt_succ_of_lt (known l hold)
    · cases List.mem_singleton.mp hnew
  · rw [← Option.some.inj hl]
  · cases hln
  · rw [hidle] at hwait
    cases hwait
  · obtain ⟨hstop, hhandled, hleaving, hloops⟩ := quiet hret
    refine ⟨hstop, hhandled, hleaving, fun x hx => ?_⟩
    exact (List.mem_append.mp hx).elim (hloops x) List.mem_singleton.mp

/-- **A connection is accepted**: that keeps the invariant, as no `Stop` has returned yet. -/
theorem Inv.accept {a : Acceptor} (h : a.Inv) {i l : ℕ} (hi : a.loops[i]? = some (.accepting l)) :
    ({ a with
      loops := a.loops.set i .checking
      accepted := a.accepted + 1
      handled := a.handled ++ [a.accepted]
      wg := a.wg + 1 } : Acceptor).Inv := by
  obtain ⟨counted, conns, known, last, started, stopping, unlistened, quiet⟩ := h
  have hmem : .accepting l ∈ a.loops := List.mem_of_getElem? hi
  refine ⟨?_, ?_, fun l' hl' => ?_, last, fun hln => ?_, stopping, unlistened, fun hret => ?_⟩
  · dsimp only
    rw [List.length_set, List.length_append, List.length_singleton, counted]
    omega
  · dsimp only
    rw [← List.append_assoc, List.range_succ]
    exact conns.append_right _
  · rcases List.mem_or_eq_of_mem_set hl' with hold | heq
    · exact known l' hold
    · cases heq
  · rw [(started hln).1] at hmem
    exact absurd hmem List.not_mem_nil
  · cases (quiet hret).2.2.2 _ hmem

/-- **Every step keeps the invariant.** -/
theorem Inv.step {a a' : Acceptor} {x : AcceptorAction} (h : a.Inv) (hstep : a.step x = some a') :
    a'.Inv := by
  cases x with
  | start listens =>
    obtain ⟨hidle, rfl⟩ := Runs.of_guarded hstep
    cases listens with
    | true => exact h.start hidle
    | false => exact h
  | check i =>
    obtain ⟨l, hi, hln, rfl⟩ := step_check hstep
    have hend := h.endLoop hi
    obtain ⟨counted, conns, known, last, started, stopping, unlistened, quiet⟩ := h
    split
    · exact hend
    · next hopen =>
      refine ⟨?_, conns, fun l' hl' => ?_, last, fun hnone => ?_, stopping, unlistened,
        fun hret => absurd (quiet hret).1 hopen⟩
      · rw [List.length_set]
        exact counted
      · rcases List.mem_or_eq_of_mem_set hl' with hold | heq
        · exact known l' hold
        · cases heq
          exact Nat.lt_of_succ_le (last l hln).le
      · rw [hln] at hnone
        cases hnone
  | accept i =>
    obtain ⟨l, hi, -, rfl⟩ := step_accept hstep
    exact h.accept hi
  | acceptError i =>
    obtain ⟨l, hi, rfl⟩ := step_acceptError hstep
    exact h.endLoop hi
  | close c =>
    obtain ⟨⟨-, hc⟩, rfl⟩ := Runs.of_guarded hstep
    obtain ⟨counted, conns, known, last, started, stopping, unlistened, quiet⟩ := h
    refine ⟨?_, ?_, known, last, started, stopping, unlistened, fun hret => ?_⟩
    · have hpos := List.length_pos_of_mem hc
      dsimp only
      rw [List.length_erase_of_mem hc]
      omega
    · dsimp only
      rw [List.append_assoc]
      exact ((List.perm_cons_erase hc).symm.append_left a.closed).trans conns
    · rw [(quiet hret).2.1] at hc
      exact absurd hc List.not_mem_nil
  | done =>
    obtain ⟨⟨-, hpos⟩, rfl⟩ := Runs.of_guarded hstep
    obtain ⟨counted, conns, known, last, started, stopping, unlistened, quiet⟩ := h
    refine ⟨?_, conns, known, last, started, stopping, unlistened, fun hret => ?_⟩
    · dsimp only
      omega
    · rw [(quiet hret).2.2.1] at hpos
      exact absurd hpos (Nat.not_lt_zero _)
  | stop =>
    obtain ⟨hidle, rfl⟩ := Runs.of_guarded hstep
    obtain ⟨counted, conns, known, last, started, stopping, unlistened, quiet⟩ := h
    split
    · exact ⟨counted, conns, known, last, started, fun hcall => (by simp at hcall),
        fun hcall => (by cases hcall), quiet⟩
    · next hopen =>
      exact ⟨counted, conns, known, last, started, fun _ => rfl, fun hcall => (by cases hcall),
        fun hret => absurd (quiet hret).1 hopen⟩
  | closeListener =>
    obtain ⟨hclosing, rfl⟩ := Runs.of_guarded hstep
    obtain ⟨counted, conns, known, last, started, stopping, unlistened, quiet⟩ := h
    refine ⟨counted, conns, known, last, started, fun _ => stopping (Or.inl hclosing),
      fun _ l hl => ?_, quiet⟩
    rw [hl]
    exact List.mem_append_right _ (List.mem_singleton.mpr rfl)
  | stopped =>
    obtain ⟨⟨hwait, hzero⟩, rfl⟩ := Runs.of_guarded hstep
    obtain ⟨counted, conns, known, last, started, stopping, unlistened, quiet⟩ := h
    have hloops : a.loops = [] := List.eq_nil_of_length_eq_zero (by omega)
    have hhandled : a.handled = [] := List.eq_nil_of_length_eq_zero (by omega)
    have hleaving : a.leaving = 0 := by omega
    refine ⟨counted, conns, known, last, started, fun hcall => (by simp at hcall),
      fun hcall => (by cases hcall), fun _ => ⟨stopping (Or.inr hwait), hhandled, hleaving, ?_⟩⟩
    rw [hloops]
    exact fun _ hx => absurd hx List.not_mem_nil

/-- **It holds in every state that is reached.** -/
theorem inv_run {as : List AcceptorAction} {a : Acceptor} (h : Runs.run step new as = some a) :
    a.Inv :=
  Runs.run_kept Inv (fun _ _ _ hinv hstep => hinv.step hstep) inv_new h

/-- **What a step does to the connections**: accepting one and closing one are all there is. -/
theorem step_conns {a a' : Acceptor} {x : AcceptorAction} (hstep : a.step x = some a') :
    match x with
    | .accept _ => a'.handled = a.handled ++ [a.accepted] ∧ a'.accepted = a.accepted + 1
    | .close c => c ∈ a.handled ∧ a'.handled = a.handled.erase c ∧ a'.accepted = a.accepted
    | _ => a'.handled = a.handled ∧ a'.accepted = a.accepted := by
  cases x with
  | start listens =>
    obtain ⟨-, rfl⟩ := Runs.of_guarded hstep
    cases listens <;> exact ⟨rfl, rfl⟩
  | check i =>
    obtain ⟨l, -, -, rfl⟩ := step_check hstep
    constructor <;> split <;> rfl
  | accept i =>
    obtain ⟨l, -, -, rfl⟩ := step_accept hstep
    exact ⟨rfl, rfl⟩
  | acceptError i =>
    obtain ⟨l, -, rfl⟩ := step_acceptError hstep
    exact ⟨rfl, rfl⟩
  | close c =>
    obtain ⟨⟨-, hc⟩, rfl⟩ := Runs.of_guarded hstep
    exact ⟨hc, rfl, rfl⟩
  | done =>
    obtain ⟨-, rfl⟩ := Runs.of_guarded hstep
    exact ⟨rfl, rfl⟩
  | stop =>
    obtain ⟨-, rfl⟩ := Runs.of_guarded hstep
    constructor <;> split <;> rfl
  | closeListener =>
    obtain ⟨-, rfl⟩ := Runs.of_guarded hstep
    exact ⟨rfl, rfl⟩
  | stopped =>
    obtain ⟨-, rfl⟩ := Runs.of_guarded hstep
    exact ⟨rfl, rfl⟩

/-! ## After `Stop`

`Stop` returns when the counter is zero, and then no loop runs.  A later `Start` starts one, but it
finds `stopCh` closed before it comes to `Accept`. -/

/-- **Once `Stop` has returned, no step accepts a connection.** -/
theorem returned_step {a a' : Acceptor} {x : AcceptorAction} (h : a.Inv) (hret : a.returned = true)
    (hstep : a.step x = some a') : a'.returned = true ∧ a'.accepted = a.accepted := by
  cases x with
  | start listens =>
    obtain ⟨-, rfl⟩ := Runs.of_guarded hstep
    split <;> exact ⟨hret, rfl⟩
  | check i =>
    obtain ⟨l, -, -, rfl⟩ := step_check hstep
    split <;> exact ⟨hret, rfl⟩
  | accept i =>
    obtain ⟨l, hi, -, rfl⟩ := step_accept hstep
    cases (h.quiet hret).2.2.2 _ (List.mem_of_getElem? hi)
  | acceptError i =>
    obtain ⟨l, -, rfl⟩ := step_acceptError hstep
    exact ⟨hret, rfl⟩
  | close c =>
    obtain ⟨-, rfl⟩ := Runs.of_guarded hstep
    exact ⟨hret, rfl⟩
  | done =>
    obtain ⟨-, rfl⟩ := Runs.of_guarded hstep
    exact ⟨hret, rfl⟩
  | stop =>
    obtain ⟨-, rfl⟩ := Runs.of_guarded hstep
    split <;> exact ⟨hret, rfl⟩
  | closeListener =>
    obtain ⟨-, rfl⟩ := Runs.of_guarded hstep
    exact ⟨hret, rfl⟩
  | stopped =>
    obtain ⟨-, rfl⟩ := Runs.of_guarded hstep
    exact ⟨rfl, rfl⟩

/-- **Once `Stop` has returned nothing is left**: every connection that was accepted has been
handled and closed, once, and whatever comes later no other is accepted, and none is handled. -/
theorem acceptor_quiet {as bs : List AcceptorAction} {a b : Acceptor}
    (ha : Runs.run step new as = some a) (hret : a.returned = true)
    (hb : Runs.run step a bs = some b) :
    a.handled = [] ∧ a.closed.Perm (List.range a.accepted) ∧ b.accepted = a.accepted
      ∧ b.handled = [] := by
  have hinv := inv_run ha
  have hhandled := (hinv.quiet hret).2.1
  have hconns := hinv.conns
  rw [hhandled, List.append_nil] at hconns
  obtain ⟨hinv', hret', haccepted⟩ := Runs.run_kept
    (fun b : Acceptor => b.Inv ∧ b.returned = true ∧ b.accepted = a.accepted)
    (fun c x c' ⟨hc, hcret, hcacc⟩ hstep =>
      have hnext := returned_step hc hcret hstep
      ⟨hc.step hstep, hnext.1, hnext.2.trans hcacc⟩) ⟨hinv, hret, rfl⟩ hb
  exact ⟨hhandled, hconns, haccepted, (hinv'.quiet hret').2.1⟩

/-- A client comes, and `Stop` waits for it. -/
def serveOne : List AcceptorAction :=
  [.start true, .check 0, .accept 0, .check 0, .stop, .closeListener]

/-- When both goroutines are done `Stop` returns, and all is closed.  Then the acceptor is started
again and a client tries to connect, to the new listener, before the loop has looked at `stopCh` and
behind it: nobody accepts it. -/
theorem acceptor_quiet_restarted : ∃ a b, Runs.run step new
      (serveOne ++ [.acceptError 0, .close 0, .done, .stopped]) = some a
    ∧ Runs.run step a [.start true, .check 0] = some b
    ∧ a.closed.Perm (List.range 1) ∧ b.accepted = 1 ∧ b.handled = []
    ∧ Runs.run step a [.start true, .accept 0] = none ∧ b.step (.accept 0) = none := by
  have hrun : Runs.run step new (serveOne ++ [.acceptError 0, .close 0, .done, .stopped])
      = some ⟨true, some 0, 1, [0], [], 1, [], [0], 0, 0, .idle, true⟩ := rfl
  have hagain : Runs.run step ⟨true, some 0, 1, [0], [], 1, [], [0], 0, 0, .idle, true⟩
      [.start true, .check 0] = some ⟨true, some 1, 2, [0], [], 1, [], [0], 0, 0, .idle, true⟩ := rfl
  obtain ⟨-, hclosed, haccepted, hhandled⟩ := acceptor_quiet hrun rfl hagain
  exact ⟨_, _, hrun, hagain, hclosed, haccepted, hhandled, rfl, rfl⟩

/-! ## `Stop` returns

Whether it does is up to the handlers and to the loops.  A loop that waits in `Accept` is woken by
the listener being closed, and with one listener that is its own.  Each step of a goroutine is one
fewer to come, so only a handler that does not return keeps `Stop` waiting. -/

/-- The steps the goroutines have left once the channel is closed. -/
def work (a : Acceptor) : ℕ := a.loops.length + 2 * a.handled.length + a.leaving

/-- `Stop` waits, and its listener was the only one. -/
structure Draining (a : Acceptor) : Prop where
  inv : a.Inv
  waiting : a.call = .waiting
  alone : a.listeners ≤ 1

/-- The only listener is closed. -/
theorem Draining.closed {a : Acceptor} (h : a.Draining) {l : ℕ} (hl : .accepting l ∈ a.loops) :
    l ∈ a.closedLns := by
  have hlt := h.inv.known l hl
  have hone := h.alone
  cases hln : a.ln with
  | none =>
    rw [(h.inv.started hln).1] at hl
    exact absurd hl List.not_mem_nil
  | some l' =>
    have hlast := h.inv.last l' hln
    have heq : l' = l := by omega
    exact h.inv.unlistened h.waiting l (heq ▸ hln)

/-- **A step of a goroutine is one fewer to come.** -/
theorem Draining.step {a a' : Acceptor} (h : a.Draining) {x : AcceptorAction}
    (hx : x.isInternal = true) (hstep : a.step x = some a') :
    a'.Draining ∧ a'.work + 1 = a.work := by
  have hinv := h.inv.step hstep
  have hstop := h.inv.stopping (Or.inr h.waiting)
  have hend : ∀ {i y}, a.loops[i]? = some y → (a.endLoop i).work + 1 = a.work := by
    intro i y hi
    have hlt := (List.getElem?_eq_some_iff.mp hi).1
    have hlen := List.length_eraseIdx_of_lt hlt
    unfold work endLoop
    dsimp only
    omega
  cases x with
  | check i =>
    obtain ⟨l, hi, -, rfl⟩ := step_check hstep
    rw [if_pos hstop] at hinv ⊢
    exact ⟨⟨hinv, h.waiting, h.alone⟩, hend hi⟩
  | accept i =>
    obtain ⟨l, hi, hopen, -⟩ := step_accept hstep
    exact absurd (h.closed (List.mem_of_getElem? hi)) hopen
  | acceptError i =>
    obtain ⟨l, hi, rfl⟩ := step_acceptError hstep
    exact ⟨⟨hinv, h.waiting, h.alone⟩, hend hi⟩
  | close c =>
    obtain ⟨⟨-, hc⟩, rfl⟩ := Runs.of_guarded hstep
    refine ⟨⟨hinv, h.waiting, h.alone⟩, ?_⟩
    have hpos := List.length_pos_of_mem hc
    have hlen := List.length_erase_of_mem hc
    unfold work
    dsimp only
    omega
  | done =>
    obtain ⟨⟨-, hpos⟩, rfl⟩ := Runs.of_guarded hstep
    refine ⟨⟨hinv, h.waiting, h.alone⟩, ?_⟩
    unfold work
    dsimp only
    omega
  | start listens => cases hx
  | stop => cases hx
  | closeListener => cases hx
  | stopped => cases hx

/-- A step that a goroutine takes without a peer: `Accept` returns, if its listener is closed. -/
def Due (a : Acceptor) : AcceptorAction → Prop
  | .check _ | .close _ | .done => True
  | .acceptError i => ∃ l ∈ a.closedLns, a.loops[i]? = some (.accepting l)
  | .accept _ | .start _ | .stop | .closeListener | .stopped => False

/-- **While `Stop` waits for a goroutine, one has a step to take.** -/
theorem Draining.due {a : Acceptor} (h : a.Draining) (hwg : a.wg ≠ 0) :
    ∃ x a', x.isInternal = true ∧ a.Due x ∧ a.step x = some a' := by
  have hcounted := h.inv.counted
  have hcall : a.call ≠ .panicked := by
    rw [h.waiting]
    decide
  rcases hloops : a.loops with _ | ⟨x, loops⟩
  · rcases hhandled : a.handled with _ | ⟨c, handled⟩
    · rw [hloops, hhandled] at hcounted
      refine ⟨.done, _, rfl, trivial, if_pos ⟨hcall, ?_⟩⟩
      simp only [List.length_nil] at hcounted
      omega
    · exact ⟨.close c, _, rfl, trivial, if_pos ⟨hcall, hhandled ▸ List.mem_cons_self⟩⟩
  · have hfirst : a.loops[0]? = some x := by rw [hloops]; rfl
    have hmem : x ∈ a.loops := List.mem_of_getElem? hfirst
    cases x with
    | checking =>
      cases hln : a.ln with
      | none =>
        rw [(h.inv.started hln).1] at hmem
        exact absurd hmem List.not_mem_nil
      | some l =>
        refine ⟨.check 0, if a.stopCh then a.endLoop 0
          else { a with loops := a.loops.set 0 (.accepting l) }, rfl, trivial, ?_⟩
        unfold Acceptor.step
        dsimp only
        rw [h.waiting, hfirst, hln]
    | accepting l =>
      refine ⟨.acceptError 0, a.endLoop 0, rfl, ⟨l, h.closed hmem, hfirst⟩, ?_⟩
      unfold Acceptor.step
      dsimp only
      rw [h.waiting, hfirst]

/-- **`Stop` returns**, where there has been one listener, once the handlers have: the goroutines
have a bounded number of steps left, and when none of them has another, `Stop` goes on. -/
theorem stop_returns {as bs : List AcceptorAction} {a b : Acceptor}
    (ha : Runs.run step new as = some a) (hwait : a.call = .waiting) (hone : a.listeners ≤ 1)
    (hbs : ∀ x ∈ bs, x.isInternal = true) (hb : Runs.run step a bs = some b) :
    bs.length ≤ a.loops.length + 2 * a.handled.length + a.leaving
      ∧ ((∀ x, b.Due x → b.step x = none) → (b.step .stopped).isSome = true) := by
  have hdrain : ∀ {bs a}, a.Draining → (∀ x ∈ bs, x.isInternal = true) →
      Runs.run step a bs = some b → b.Draining ∧ b.work + bs.length = a.work := by
    intro bs
    induction bs with
    | nil =>
      intro a hd _ hrun
      cases hrun
      exact ⟨hd, rfl⟩
    | cons x bs ih =>
      intro a hd hx hrun
      obtain ⟨c, hc, hrest⟩ := Runs.run_cons_eq_some.mp hrun
      obtain ⟨hd', hwork⟩ := hd.step (hx x List.mem_cons_self) hc
      obtain ⟨hd'', hlen⟩ := ih hd' (fun y hy => hx y (List.mem_cons_of_mem _ hy)) hrest
      exact ⟨hd'', by rw [List.length_cons]; omega⟩
  obtain ⟨hd, hlen⟩ := hdrain ⟨inv_run ha, hwait, hone⟩ hbs hb
  refine ⟨by unfold work at hlen; omega, fun hstuck => ?_⟩
  by_cases hwg : b.wg = 0
  · unfold step
    dsimp only
    rw [if_pos ⟨hd.waiting, hwg⟩]
    rfl
  · obtain ⟨x, c, -, hdue, hc⟩ := hd.due hwg
    rw [hstuck x hdue] at hc
    cases hc

/-- `Stop` waits for a loop and a handler. -/
def waitingForOne : Acceptor :=
  ⟨true, some 0, 1, [0], [.accepting 0], 1, [0], [], 0, 2, .waiting, false⟩

/-- Three steps are left at most, and when they are done `Stop` goes on. -/
theorem stop_returns_one : Runs.run step new serveOne = some waitingForOne
    ∧ ∃ b, Runs.run step waitingForOne [.acceptError 0, .close 0, .done] = some b
      ∧ ((∀ x, b.Due x → b.step x = none) → (b.step .stopped).isSome = true) := by
  have hrun : Runs.run step new serveOne = some waitingForOne := rfl
  have hrest : Runs.run step waitingForOne [.acceptError 0, .close 0, .done]
      = some ⟨true, some 0, 1, [0], [], 1, [], [0], 0, 0, .waiting, false⟩ := rfl
  exact ⟨hrun, _, hrest, (stop_returns hrun rfl (Nat.le_refl 1) (by decide) hrest).2⟩

/-! ## A second `Stop` -/

/-- No step leads out of a panic. -/
theorem step_of_panicked {a : Acceptor} (h : a.call = .panicked) (x : AcceptorAction) :
    a.step x = none := by
  cases x <;> simp [step, h]

/-- **Only `Stop` closes the channel**, and panics where it is closed. -/
theorem step_stopCh {a a' : Acceptor} {x : AcceptorAction} (hstep : a.step x = some a') :
    (x ≠ .stop → a'.stopCh = a.stopCh ∧ a'.call ≠ .panicked)
      ∧ (x = .stop → a'.stopCh = true ∧ (a'.call = .panicked ↔ a.stopCh = true)) := by
  have hcall : a.call ≠ .panicked := by
    intro h
    rw [step_of_panicked h x] at hstep
    cases hstep
  by_cases hx : x = .stop
  · subst hx
    refine ⟨fun h => absurd rfl h, fun _ => ?_⟩
    obtain ⟨-, rfl⟩ := Runs.of_guarded hstep
    split
    · next hclosed => exact ⟨hclosed, iff_of_true rfl hclosed⟩
    · next hopen => exact ⟨rfl, iff_of_false nofun hopen⟩
  · refine ⟨fun _ => ?_, fun h => absurd h hx⟩
    cases x with
    | start listens =>
      obtain ⟨-, rfl⟩ := Runs.of_guarded hstep
      split <;> exact ⟨rfl, hcall⟩
    | check i =>
      obtain ⟨l, -, -, rfl⟩ := step_check hstep
      split <;> exact ⟨rfl, hcall⟩
    | accept i =>
      obtain ⟨l, -, -, rfl⟩ := step_accept hstep
      exact ⟨rfl, hcall⟩
    | acceptError i =>
      obtain ⟨l, -, rfl⟩ := step_acceptError hstep
      exact ⟨rfl, hcall⟩
    | close c =>
      obtain ⟨-, rfl⟩ := Runs.of_guarded hstep
      exact ⟨rfl, hcall⟩
    | done =>
      obtain ⟨-, rfl⟩ := Runs.of_guarded hstep
      exact ⟨rfl, hcall⟩
    | stop => exact absurd rfl hx
    | closeListener =>
      obtain ⟨-, rfl⟩ := Runs.of_guarded hstep
      exact ⟨rfl, nofun⟩
    | stopped =>
      obtain ⟨-, rfl⟩ := Runs.of_guarded hstep
      exact ⟨rfl, nofun⟩

/-- **The acceptor panics exactly if `Stop` is called twice.** -/
theorem stop_panics_iff {as : List AcceptorAction} {a : Acceptor}
    (ha : Runs.run step new as = some a) : a.call = .panicked ↔ 2 ≤ as.count .stop := by
  have hboth : (a.stopCh = true ↔ 1 ≤ as.count .stop)
      ∧ (a.call = .panicked ↔ 2 ≤ as.count .stop) := by
    induction as using List.reverseRecOn generalizing a with
    | nil =>
      cases ha
      exact ⟨iff_of_false Bool.false_ne_true (Nat.not_succ_le_zero 0),
        iff_of_false nofun (Nat.not_succ_le_zero 1)⟩
    | append_singleton as x ih =>
      obtain ⟨b, hb, hlast⟩ := Runs.run_append_eq_some.mp ha
      obtain ⟨c, hstep, hc⟩ := Runs.run_cons_eq_some.mp hlast
      cases hc
      obtain ⟨hopen, hpanic⟩ := ih hb
      obtain ⟨hother, hstop⟩ := step_stopCh hstep
      have hcall : b.call ≠ .panicked := by
        intro h
        rw [step_of_panicked h x] at hstep
        cases hstep
      have hcount := mt hpanic.mpr hcall
      rw [List.count_append, List.count_singleton]
      by_cases hx : x = .stop
      · obtain ⟨htrue, hiff⟩ := hstop hx
        rw [if_pos (by simp [hx]), hiff, hopen]
        refine ⟨iff_of_true htrue (Nat.le_add_left 1 _), ?_⟩
        omega
      · obtain ⟨hsame, hnot⟩ := hother hx
        rw [if_neg (by simpa using hx), hsame, Nat.add_zero]
        exact ⟨hopen, iff_of_false hnot hcount⟩
  exact hboth.2

end Acceptor

end FixMsg
