import GoFixMsg.Handler.ReadTags

/-!
# Handler/ResendQuery — a ResendRequest changes nothing

The handling of a ResendRequest reads the store and sends frames.  So a run from which the
ResendRequests are taken out goes as before: every other event sends what it sent, and the numbers,
the store and the state are the same (`resend_is_query`).

This is about runs whose handlers return.  One that is asked for numbers up to the greatest `int`
does not (`resendLoop_endless`); the read loop never comes back from it, and whatever arrives behind
it is not handled, while without it it would be.
-/

open GoLang

namespace FixMsg

/-- A ResendRequest arrives. -/
def EngineEvent.isResend : EngineEvent → Bool
  | .receive _ _ m => m.fields.getD tagMsgType = ascii "2"
  | .attach | .detach _ | .send _ _ | .setNumber _ _ | .restart _ => false

/-- The events of a run, each with the frames it sends. -/
def Engine.trace (e : Engine) : List EngineEvent → List (EngineEvent × List Bytes)
  | [] => []
  | x :: events => (x, (e.handle x).sent.drop e.sent.length) :: (e.handle x).trace events

/-- **Two engines that differ in what they have sent and called alone.** -/
def Engine.Apart (e e' : Engine) : Prop := ∃ sent calls, e' = { e with sent := sent, calls := calls }

section Apart

variable {e e' e'' : Engine}

theorem Engine.Apart.refl (e : Engine) : e.Apart e := ⟨_, _, rfl⟩

theorem Engine.Apart.trans (h : e.Apart e') (h' : e'.Apart e'') : e.Apart e'' := by
  obtain ⟨_, _, rfl⟩ := h
  obtain ⟨_, _, rfl⟩ := h'
  exact ⟨_, _, rfl⟩

theorem Engine.Apart.symm (h : e.Apart e') : e'.Apart e := by
  obtain ⟨_, _, rfl⟩ := h
  exact ⟨_, _, rfl⟩

/-- From here on they send the same. -/
theorem Engine.Apart.alike (h : e.Apart e') : e.Alike e.sent e'.sent e' := by
  obtain ⟨sent, calls, rfl⟩ := h
  exact ⟨[], calls, (List.append_nil _).symm, by rw [List.append_nil]⟩

theorem Engine.Alike.apart {s s' : List Bytes} (h : e.Alike s s' e') : e.Apart e' := by
  obtain ⟨new, calls, -, rfl⟩ := h
  exact ⟨_, _, rfl⟩

/-- **They handle an event alike**, and send the same frames. -/
theorem Engine.Apart.handle (h : e.Apart e') (x : EngineEvent) :
    (e.handle x).Apart (e'.handle x)
      ∧ (e'.handle x).sent.drop e'.sent.length = (e.handle x).sent.drop e.sent.length := by
  have halike := alike_event h.alike (.same x)
  refine ⟨halike.apart, ?_⟩
  obtain ⟨new, calls, hsent, heq⟩ := halike
  rw [hsent, heq, List.drop_left' rfl, List.drop_left' rfl]

end Apart

/-! ## The handling of a ResendRequest -/

theorem apart_afterPass (takes : Bool) (pass : List AppCall × Option Emission) (e : Engine) :
    e.Apart (afterPass takes pass e) := by
  unfold afterPass
  dsimp only
  split
  · exact ⟨_, _, rfl⟩
  · rw [Engine.sessionSend, transmit_eq]
    split <;> exact ⟨_, _, rfl⟩

theorem apart_resendLoop (env : ℕ → Env) (sender target : Bytes) (ei : ℤ) (fuel k : ℕ) (seq : ℤ)
    (e : Engine) : e.Apart (resendLoop env sender target ei fuel k seq e).engine := by
  induction fuel generalizing k seq e with
  | zero => exact .refl e
  | succ fuel ih =>
    rw [resendLoop]
    split
    · exact (apart_afterPass _ _ e).trans (ih _ _ _)
    · exact .refl e

/-- **A ResendRequest changes neither the numbers nor the store nor the state.** -/
theorem apart_resend {x : EngineEvent} (hx : x.isResend = true) (e : Engine) :
    e.Apart (e.handle x) := by
  cases x with
  | attach | detach | send | setNumber | restart => cases hx
  | receive env fuel m =>
    have htype : m.fields.getD tagMsgType = ascii "2" := of_decide_eq_true hx
    change e.Apart (process env fuel m e).engine
    rcases hasked : (env 0).app.fromAdmin m with ⟨q, _ | err⟩
    · rw [process_of_accepted rfl (by decide) htype hasked]
      have hrecord : e.Apart (e.record [.fromAdmin m]) := ⟨_, _, rfl⟩
      refine hrecord.trans ?_
      unfold resendRequestHandler
      split
      · exact .refl _
      · split
        · exact .refl _
        · exact apart_resendLoop _ _ _ _ _ _ _ _
    · obtain ⟨calls, hcalls⟩ := @process_of_rejected env fuel _ _ rfl (by decide) m q htype err
        hasked e
      rw [hcalls]
      exact ⟨_, _, rfl⟩

/-- **Where all handlers of a run return, they do so without its ResendRequests**: every other event
sends the frames it sent, and the engines in the end differ in these frames alone. -/
theorem Engine.Apart.run {e e' e₁ : Engine} (h : e.Apart e') {events : List EngineEvent}
    (hrun : Runs.run Engine.handle? e events = some e₁) :
    ∃ e₂, Runs.run Engine.handle? e' (events.filter fun x => !x.isResend) = some e₂
      ∧ e₁.Apart e₂
      ∧ e'.trace (events.filter fun x => !x.isResend)
        = (e.trace events).filter (fun p => !p.1.isResend) := by
  induction events generalizing e e' with
  | nil => exact ⟨e', rfl, Option.some.inj hrun ▸ h, rfl⟩
  | cons x events ih =>
    obtain ⟨e₀, hx, hrest⟩ := Runs.run_cons_eq_some.mp hrun
    obtain ⟨hreturns, rfl⟩ := Runs.of_guarded hx
    by_cases hresend : x.isResend = true
    · obtain ⟨e₂, hrun', hapart, htrace⟩ := ih ((apart_resend hresend e).symm.trans h) hrest
      rw [List.filter_cons_of_neg (by simp [hresend]), Engine.trace,
        List.filter_cons_of_neg (by simp [hresend])]
      exact ⟨e₂, hrun', hapart, htrace⟩
    · obtain ⟨hnext, hsent⟩ := h.handle x
      obtain ⟨e₂, hrun', hapart, htrace⟩ := ih hnext hrest
      have hstep : e'.handle? x = some (e'.handle x) := if_pos ((alike_returns h.alike x).mpr hreturns)
      rw [List.filter_cons_of_pos (by simp [hresend]), Engine.trace, Engine.trace,
        List.filter_cons_of_pos (by simp [hresend]), hsent, htrace]
      exact ⟨e₂, Runs.run_cons_eq_some.mpr ⟨_, hstep, hrun'⟩, hapart, rfl⟩

/-- **A ResendRequest is a query.**  Where all handlers of a run return, they do so without its
ResendRequests too, every other event sends the frames it sent, and in the end the numbers, the
store, the state and the session are the same. -/
theorem resend_is_query {e e₁ : Engine} {events : List EngineEvent}
    (hrun : Runs.run Engine.handle? e events = some e₁) :
    ∃ e₂, Runs.run Engine.handle? e (events.filter fun x => !x.isResend) = some e₂
      ∧ e.trace (events.filter fun x => !x.isResend)
        = (e.trace events).filter (fun p => !p.1.isResend)
      ∧ e₂.seqMgr = e₁.seqMgr ∧ e₂.sm = e₁.sm ∧ e₂.link = e₁.link := by
  obtain ⟨e₂, hrun', ⟨sent, calls, rfl⟩, htrace⟩ := (Engine.Apart.refl e).run hrun
  exact ⟨_, hrun', htrace, rfl, rfl, rfl⟩

/-- An order is sent, asked for again, and another one is sent. -/
def askedBetween : List EngineEvent :=
  [.send Outbound.calm Outbound.newOrder,
    .receive (fun _ => Outbound.calm) 2 (resendRequest (ascii "1") (ascii "1")),
    .send Outbound.calm Outbound.newOrder]

/-- Three frames are sent, and the engine has used two numbers; without being asked it sends two, and
has used as many. -/
theorem resend_is_query_between : ∃ e₁ e₂,
    Runs.run Engine.handle? (engineOn .opened) askedBetween = some e₁
      ∧ Runs.run Engine.handle? (engineOn .opened)
        [.send Outbound.calm Outbound.newOrder, .send Outbound.calm Outbound.newOrder] = some e₂
      ∧ (e₁.sent.length, e₁.seqMgr.numbers.outgoing) = (3, 2) ∧ e₂.sent.length = 2
      ∧ e₂.seqMgr = e₁.seqMgr := by
  obtain ⟨e₁, hrun, hsent⟩ := Option.map_eq_some_iff.mp
    (show (Runs.run Engine.handle? (engineOn .opened) askedBetween).map
      (fun e => (e.sent.length, e.seqMgr.numbers.outgoing)) = some (3, 2) by decide +kernel)
  obtain ⟨e₂, hrun', -, hmgr, -⟩ := resend_is_query hrun
  have hfilter : askedBetween.filter (fun x => !x.isResend)
      = [.send Outbound.calm Outbound.newOrder, .send Outbound.calm Outbound.newOrder] := rfl
  rw [hfilter] at hrun'
  have htwo : (Runs.run Engine.handle? (engineOn .opened) [.send Outbound.calm Outbound.newOrder,
      .send Outbound.calm Outbound.newOrder]).map (fun e => e.sent.length) = some 2 := by
    decide +kernel
  rw [hrun'] at htwo
  exact ⟨e₁, e₂, hrun, hrun', hsent, Option.some.inj htwo, hmgr⟩

end FixMsg
