import GoFixMsg.Engine.FailedSend

/-!
# Engine/FreshStart — does a reset start the numbers afresh?

The outgoing number is the last one used: `IncrementOutgoing` counts up before it returns, the
handler of a ResendRequest takes it for the last number, and that of a SequenceReset sets it one
lower than the next.  A reset sets it to 1, as if it were the next one to use.

So a reset stamps as a fresh start does behind one message (`stamps_reset`), and never as a fresh
start does (`reset_fresh_iff`).
-/

open GoLang

namespace FixMsg

/-- **A reset of the sequence numbers**, with what the driver makes of its two writes. -/
inductive SeqReset where
  /-- The scheduler's action reset. -/
  | reset (incoming outgoing : Driver)
  /-- The scheduler's action reset_start; the peer may be there to connect to. -/
  | resetStart (incoming outgoing : Driver) (connects : Bool)
  /-- A Logon with ResetSeqNumFlag arrives. -/
  | logon (env : ℕ → Env) (fuel : ℕ) (m : CodedMessage)

/-- What the scheduler's actions do to the numbers; errors are logged, or not even that. -/
def SeqManager.scheduledReset (incoming outgoing : Driver) (s : SeqManager) : SeqManager :=
  ((s.setIncoming 1 incoming).1.setOutgoing 1 outgoing).1

/-- Its writes succeed; and a Logon is one, the application accepts it, and leaves its
ResetSeqNumFlag Y. -/
def SeqReset.Succeeds : SeqReset → Prop
  | .reset incoming outgoing | .resetStart incoming outgoing _ => incoming = .ok ∧ outgoing = .ok
  | .logon env _ m => m.fields.getD tagMsgType = ascii "A"
      ∧ (∃ m', (env 0).app.fromAdmin m = (m', none) ∧ m'.fields.getD 141 = ascii "Y")
      ∧ (env 0).writes = .ok ∧ (env 1).writes = .ok

/-- A send or a restart, and its writes and reads succeed. -/
def EngineEvent.SendsOrRestarts : EngineEvent → Prop
  | .send env _ => env.writes = .ok
  | .restart d => d = .ok
  | _ => False

/-- **The condition on an event**: a message that is sent has a number of its own. -/
def EngineEvent.Numbered : EngineEvent → Prop
  | .send _ m => m.fields.contains tagMsgSeqNum = true
  | _ => True

namespace Engine

/-- A reset happens. -/
def reset (e : Engine) : SeqReset → Engine
  | .reset incoming outgoing => { e with seqMgr := e.seqMgr.scheduledReset incoming outgoing }
  | .resetStart incoming outgoing connects =>
      let e := { e with seqMgr := e.seqMgr.scheduledReset incoming outgoing }
      if connects then e.handle .attach else e
  | .logon env fuel m => (process env fuel m e).engine

/-- The engine with a brand-new `SeqManager` over an empty store. -/
def fresh (e : Engine) : Engine :=
  { e with seqMgr := .new .ok (some .opened) e.seqMgr.sid }

/-- The number that an event stamps. -/
def stampOf (e : Engine) : EngineEvent → Option ℤ
  | .send env m => (sendMessage env m e).stamped
  | _ => none

/-- The numbers that `SendMessage` stamps in a run. -/
def stamps : Engine → List EngineEvent → List ℤ
  | _, [] => []
  | e, x :: events => (e.stampOf x).toList ++ (e.handle x).stamps events

/-! ## Two engines that go on from the same number -/

/-- The last number used, in memory and in an open store. -/
structure LastUsed (out saved : ℤ) (e : Engine) : Prop where
  writes : e.seqMgr.Writes .ok
  outgoing : e.seqMgr.numbers.outgoing = out
  saved : e.seqMgr.saved.1 = saved

variable {e e' : Engine} {out saved : ℤ}

/-- An operation that sets both. -/
theorem LastUsed.perform (h : LastUsed out saved e) (op : SeqOp) :
    LastUsed (op.critical e.seqMgr.numbers).outgoing (op.critical e.seqMgr.numbers).outgoing
      { e with seqMgr := (e.seqMgr.perform op .ok).1 } where
  writes := (SeqManager.writes_perform _ _ _ _).mpr h.writes
  outgoing := rfl
  saved := by
    change (e.seqMgr.perform op .ok).1.saved.1 = _
    rw [SeqManager.saved_perform, if_pos h.writes]

/-- Only the numbers count. -/
theorem LastUsed.of_seqMgr (h : LastUsed out saved e) (heq : e'.seqMgr = e.seqMgr) :
    LastUsed out saved e' :=
  ⟨heq ▸ h.writes, heq ▸ h.outgoing, heq ▸ h.saved⟩

/-- What an event makes of the last number used. -/
def nextUsed (out saved : ℤ) : EngineEvent → ℤ × ℤ
  | .send _ m => if m.fields.contains tagMsgSeqNum then (out, saved)
      else (int64 (out + 1), int64 (out + 1))
  | .restart _ => (max 0 saved, saved)
  | _ => (out, saved)

/-- The number an event stamps behind the last one used. -/
def nextStamp (out : ℤ) : EngineEvent → Option ℤ
  | .send _ m => if m.fields.contains tagMsgSeqNum then none else some (int64 (out + 1))
  | _ => none

/-- Nothing is stamped on a message that has a number, and none is used. -/
theorem nextUsed_of_numbered (hout : 0 ≤ out) {x : EngineEvent} (hx : x.Numbered) :
    nextUsed out out x = (out, out) ∧ nextStamp out x = none := by
  cases x with
  | send env m => exact ⟨if_pos hx, if_pos hx⟩
  | restart d => exact ⟨by rw [nextUsed, max_eq_right hout], rfl⟩
  | attach | detach | receive | setNumber => exact ⟨rfl, rfl⟩

theorem nextStamp_of_not_numbered {x : EngineEvent} (hx : ¬ x.Numbered) :
    nextStamp out x = some (int64 (out + 1)) := by
  cases x with
  | send env m => exact if_neg hx
  | attach | detach | receive | setNumber | restart => exact absurd trivial hx

/-- A restart loads the number that was saved. -/
theorem outgoing_load {s : SeqManager} (h : s.Writes .ok) :
    (SeqManager.load .ok s.sid s.store).outgoing = max 0 s.saved.1 := by
  obtain ⟨numbers, store, sid⟩ := s
  obtain ⟨-, ⟨_ | t⟩, hst, hopen⟩ := h
  · cases hopen
  · cases hst
    change (if 0 < ((t.sessions sid).getD (0, 0)).1 then ((t.sessions sid).getD (0, 0)).1 else 0) = _
    change _ = max 0 ((t.sessions sid).getD (0, 0)).1
    split <;> omega

/-- **An event stamps the number behind the last one used**, if it sends a message without one. -/
theorem LastUsed.handle (h : LastUsed out saved e) {x : EngineEvent} (hx : x.SendsOrRestarts) :
    LastUsed (nextUsed out saved x).1 (nextUsed out saved x).2 (e.handle x)
      ∧ e.stampOf x = nextStamp out x := by
  cases x with
  | send env m =>
    rw [EngineEvent.SendsOrRestarts] at hx
    unfold nextUsed nextStamp
    dsimp only
    cases hnum : m.fields.contains tagMsgSeqNum with
    | true =>
      obtain ⟨hmgr, hstamped⟩ := @sendMessage_uses_none env m e hnum
      exact ⟨h.of_seqMgr hmgr, hstamped⟩
    | false =>
      obtain ⟨hmgr, hstamped⟩ := @sendMessage_uses_number env m e hnum
      have hperform := h.perform .incrementOutgoing
      rw [hx] at hmgr hstamped
      rw [nextSeq_of_draws (Or.inr h.writes), h.outgoing] at hstamped
      have hnext : (SeqOp.incrementOutgoing.critical e.seqMgr.numbers).outgoing
          = int64 (out + 1) := by rw [← h.outgoing]; rfl
      rw [hnext] at hperform
      exact ⟨hperform.of_seqMgr hmgr, hstamped⟩
  | restart d =>
    rw [EngineEvent.SendsOrRestarts] at hx
    subst hx
    refine ⟨⟨h.writes, ?_, h.saved⟩, rfl⟩
    exact (outgoing_load h.writes).trans (by rw [h.saved]; rfl)
  | attach | detach | receive | setNumber => cases hx

/-- **Two engines that go on from the same number stamp the same ones.** -/
theorem LastUsed.stamps_eq (h : LastUsed out saved e) (h' : LastUsed out saved e')
    {events : List EngineEvent} (hevents : ∀ x ∈ events, x.SendsOrRestarts) :
    e.stamps events = e'.stamps events := by
  induction events generalizing e e' out saved with
  | nil => rfl
  | cons x events ih =>
    obtain ⟨hnext, hstamp⟩ := h.handle (hevents x List.mem_cons_self)
    obtain ⟨hnext', hstamp'⟩ := h'.handle (hevents x List.mem_cons_self)
    rw [stamps, stamps, hstamp, hstamp',
      ih hnext hnext' fun y hy => hevents y (List.mem_cons_of_mem _ hy)]

/-- **The first number stamped** is that behind the last one used; none is, if every message has its
own. -/
theorem LastUsed.stamps_head (h : LastUsed out out e) (hout : 0 ≤ out)
    {events : List EngineEvent} (hevents : ∀ x ∈ events, x.SendsOrRestarts) :
    ((∀ x ∈ events, x.Numbered) ∧ e.stamps events = [])
      ∨ (¬ (∀ x ∈ events, x.Numbered)
        ∧ ∃ later, e.stamps events = int64 (out + 1) :: later) := by
  induction events generalizing e with
  | nil => exact Or.inl ⟨fun x hx => absurd hx List.not_mem_nil, rfl⟩
  | cons x events ih =>
    obtain ⟨hnext, hstamp⟩ := h.handle (hevents x List.mem_cons_self)
    rw [stamps, hstamp, List.forall_mem_cons]
    by_cases hx : x.Numbered
    · obtain ⟨hused, hnone⟩ := nextUsed_of_numbered hout hx
      rw [hused] at hnext
      rw [hnone]
      rcases ih hnext fun y hy => hevents y (List.mem_cons_of_mem _ hy) with
        ⟨hall, hnil⟩ | ⟨hnot, later, hcons⟩
      · exact Or.inl ⟨⟨hx, hall⟩, hnil⟩
      · exact Or.inr ⟨fun hall => hnot hall.2, later, hcons⟩
    · rw [nextStamp_of_not_numbered hx]
      exact Or.inr ⟨fun hall => hx hall.1, _, rfl⟩

/-! ## A reset, and a fresh start -/

/-- **A reset sets the last number used to 1.** -/
theorem lastUsed_reset (h : e.seqMgr.Writes .ok) {r : SeqReset} (hr : r.Succeeds) :
    LastUsed 1 1 (e.reset r) := by
  have hscheduled : LastUsed 1 1 { e with seqMgr := e.seqMgr.scheduledReset .ok .ok } := by
    have hwrites := (SeqManager.writes_perform (.setIncoming 1) .ok .ok e.seqMgr).mpr h
    exact LastUsed.perform (e := { e with seqMgr := (e.seqMgr.setIncoming 1 .ok).1 })
      ⟨hwrites, rfl, rfl⟩ (.setOutgoing 1)
  cases r with
  | reset incoming outgoing =>
    obtain ⟨rfl, rfl⟩ := hr
    exact hscheduled
  | resetStart incoming outgoing connects =>
    obtain ⟨rfl, rfl⟩ := hr
    cases connects
    · exact hscheduled
    · exact hscheduled.of_seqMgr rfl
  | logon env fuel m =>
    obtain ⟨htype, ⟨m', haccept, hflag⟩, h0, h1⟩ := hr
    have hsome : e.seqMgr.store.isSome = true := by
      obtain ⟨-, st, hst, -⟩ := h
      rw [hst]
      rfl
    have hmgr : (e.reset (.logon env fuel m)).seqMgr = e.seqMgr.resetToOne .ok .ok := by
      have hlookup : (defaultHandlers env fuel).lookup (ascii "A") = some (logonHandler env) := rfl
      rw [reset, process_of_accepted hlookup (by decide) htype haccept]
      change (if m'.fields.getD 141 = ascii "Y" ∧ e.seqMgr.store.isSome = true then
        e.seqMgr.resetToOne (env 0).writes (env 1).writes else e.seqMgr) = _
      rw [if_pos ⟨hflag, hsome⟩, h0, h1]
    have hreset : LastUsed 1 1 { e with seqMgr := e.seqMgr.resetToOne .ok .ok } := by
      have hwrites := (SeqManager.writes_perform (.setOutgoing 1) .ok .ok e.seqMgr).mpr h
      exact LastUsed.perform (e := { e with seqMgr := (e.seqMgr.setOutgoing 1 .ok).1 })
        ⟨hwrites, rfl, rfl⟩ (.setIncoming 1)
    exact hreset.of_seqMgr hmgr

/-- **A fresh start has used none.** -/
theorem lastUsed_fresh (e : Engine) : LastUsed 0 0 e.fresh :=
  ⟨⟨rfl, _, rfl, rfl⟩, rfl, rfl⟩

/-- **After a reset the numbers go on as behind the first message of a fresh start.** -/
theorem stamps_reset (h : e.seqMgr.Writes .ok) {r : SeqReset} (hr : r.Succeeds)
    {events : List EngineEvent} (hevents : ∀ x ∈ events, x.SendsOrRestarts) {env : Env}
    {m : CodedMessage} (henv : env.writes = .ok) (hm : m.fields.contains tagMsgSeqNum = false) :
    e.fresh.stamps (.send env m :: events) = 1 :: (e.reset r).stamps events := by
  obtain ⟨hnext, hstamp⟩ := (lastUsed_fresh e).handle (x := .send env m) henv
  rw [nextUsed, hm] at hnext
  rw [stamps, hstamp, nextStamp, hm, (lastUsed_reset h hr).stamps_eq hnext hevents]
  rfl

/-- **A reset stamps as a fresh start does, exactly if** no number is stamped. -/
theorem reset_fresh_iff (h : e.seqMgr.Writes .ok) {r : SeqReset} (hr : r.Succeeds)
    {events : List EngineEvent} (hevents : ∀ x ∈ events, x.SendsOrRestarts) :
    (e.reset r).stamps events = e.fresh.stamps events ↔ ∀ x ∈ events, x.Numbered := by
  rcases (lastUsed_reset h hr).stamps_head (by decide) hevents with ⟨hall, hnil⟩ | ⟨hnot, later, hcons⟩
  · rcases (lastUsed_fresh e).stamps_head (le_refl 0) hevents with ⟨-, hnil'⟩ | ⟨hnot', -⟩
    · exact iff_of_true (hnil.trans hnil'.symm) hall
    · exact absurd hall hnot'
  · rcases (lastUsed_fresh e).stamps_head (le_refl 0) hevents with ⟨hall', -⟩ | ⟨-, later', hcons'⟩
    · exact absurd hall' hnot
    · refine iff_of_false (fun heq => ?_) hnot
      rw [hcons, hcons'] at heq
      cases (List.cons.inj heq).1

instance : IntTag 141 := ⟨by decide⟩

/-- A Logon with ResetSeqNumFlag, from the peer of `engineOn`. -/
def resetLogon : CodedMessage :=
  (adminHeader (ascii "A") (ascii "T") (ascii "S")).set 141 (ascii "Y")

/-- Its arrival. -/
def logonReset : SeqReset := .logon (fun _ => Outbound.calm) 1 resetLogon

theorem succeeds_logonReset : logonReset.Succeeds :=
  ⟨by decide, ⟨resetLogon, rfl, by decide⟩, rfl, rfl⟩

/-- Two orders that have numbers of their own, sent before and behind a restart. -/
def numberedSends : List EngineEvent :=
  [.send Outbound.calm (Outbound.newOrder.set tagMsgSeqNum (ascii "7")), .restart .ok,
    .send Outbound.calm (Outbound.newOrder.set tagMsgSeqNum (ascii "8"))]

/-- An engine that has used five numbers, and is reset, stamps nothing on them. -/
theorem reset_fresh_numbered :
    (((engineOn .opened).handle (.setNumber (.setOutgoing 5) .ok)).reset logonReset).stamps
        numberedSends
      = ((engineOn .opened).handle (.setNumber (.setOutgoing 5) .ok)).fresh.stamps
        numberedSends := by
  have hwrites : ((engineOn .opened).handle (.setNumber (.setOutgoing 5) .ok)).seqMgr.Writes .ok := by
    decide +kernel
  refine (reset_fresh_iff hwrites succeeds_logonReset ?_).mpr ?_
  all_goals
    simp only [numberedSends, List.forall_mem_cons, List.not_mem_nil, false_implies, implies_true,
      and_true]
  · exact ⟨rfl, rfl, rfl⟩
  · have hown : ∀ b ∈ [ascii "7", ascii "8"],
        (Outbound.newOrder.set tagMsgSeqNum b).fields.contains tagMsgSeqNum = true := by
      decide +kernel
    exact ⟨hown _ (by decide), trivial, hown _ (by decide)⟩

/-- **The first message behind such a Logon has number 2.** -/
theorem reset_stamps_two :
    ((engineOn .opened).reset logonReset).stamps [.send Outbound.calm Outbound.newOrder] = [2]
      ∧ (engineOn .opened).fresh.stamps [.send Outbound.calm Outbound.newOrder] = [1] := by
  decide +kernel

end Engine

end FixMsg
