import GoFixMsg.Engine.FreshStart
import GoFixMsg.Engine.SharedStore
import GoFixMsg.Handler.Replies
import GoFixMsg.Handler.ToAdmin
import Mathlib.Data.List.Forall2

/-!
# Handler/ReadTags — what of an inbound message the default handlers look at

The handlers read eight tags.  Two messages that agree there are handled alike, over whole runs
(`run_alike`): the same frames go out, and the numbers and the state are the same.  So MsgSeqNum is
not looked at, nor PossDupFlag, nor GapFillFlag: a gap or a repetition in what comes in is not
noticed.

The incoming number goes by none of this.  A Logon that resets sets it to 1, and nothing else that
arrives or is sent changes it (`incoming_run`).
-/

open GoLang

namespace FixMsg

/-- The tags the default handlers read. -/
def readTags : List ℤ := [tagMsgType, tagSenderCompID, tagTargetCompID, 7, 16, 36, 112, 141]

/-- **Two messages that agree on the tags read.** -/
def CodedMessage.ReadAlike (m m' : CodedMessage) : Prop :=
  ∀ t ∈ readTags, m'.fields.getD t = m.fields.getD t

/-- An application that does not tell messages apart that agree on these tags. -/
def Application.ReadsAlike (app : Application) : Prop :=
  ∀ m m', m.ReadAlike m' →
    (app.fromAdmin m).1.ReadAlike (app.fromAdmin m').1
      ∧ (app.fromAdmin m').2 = (app.fromAdmin m).2

/-- **Two engines that have sent the same frames behind `s` and `s'`**, and otherwise differ in the
record of their callbacks alone. -/
def Engine.Alike (s s' : List Bytes) (e e' : Engine) : Prop :=
  ∃ new calls, e.sent = s ++ new ∧ e' = { e with sent := s' ++ new, calls := calls }

/-! ## Sending -/

section Sending

variable {s s' : List Bytes} {e e' : Engine}

theorem Engine.Alike.record (h : e.Alike s s' e') (calls calls' : List AppCall) :
    (Engine.record e calls).Alike s s' (Engine.record e' calls') := by
  obtain ⟨new, _, hsent, rfl⟩ := h
  exact ⟨new, _, hsent, rfl⟩

theorem Engine.Alike.seqMgr (h : e.Alike s s' e') : e'.seqMgr = e.seqMgr := by
  obtain ⟨_, _, -, rfl⟩ := h
  rfl

theorem Engine.Alike.transmit (h : e.Alike s s' e') (takes : Bool) (b : Bytes) :
    (Engine.transmit takes b e).1.Alike s s' (Engine.transmit takes b e').1 := by
  obtain ⟨new, calls', hsent, rfl⟩ := h
  rw [transmit_eq, transmit_eq]
  dsimp only
  split
  · refine ⟨new ++ [b], calls', ?_, ?_⟩
    · dsimp only
      rw [hsent, List.append_assoc]
    · dsimp only
      rw [List.append_assoc]
  · exact ⟨new, calls', hsent, rfl⟩

theorem alike_afterToApp (h : e.Alike s s' e') (env : Env) (m : CodedMessage) :
    (afterToApp env m e).Alike s s' (afterToApp env m e') := by
  obtain ⟨new, calls, hsent, rfl⟩ := h
  unfold afterToApp drawSeqNum
  dsimp only
  split <;> exact ⟨new, _, hsent, rfl⟩

/-- What is stamped does not depend on the record. -/
theorem stamped_alike (h : e.Alike s s' e') (env : Env) (m : CodedMessage) :
    stamped env m e' = stamped env m e := by
  obtain ⟨new, calls, -, rfl⟩ := h
  unfold stamped drawSeqNum
  dsimp only
  split <;> rfl

theorem alike_sendMessage (h : e.Alike s s' e') (env : Env) (m : CodedMessage) :
    (sendMessage env m e).engine.Alike s s' (sendMessage env m e').engine := by
  have hasked := alike_afterToApp h env m
  have hshown := stamped_alike h env m
  rcases sendMessage_cases env m e with
    ⟨_, err, hask, heq⟩ | ⟨_, _, f, hask, hwire, heq⟩ | ⟨_, _, b, hask, hwire, heq⟩
  all_goals
    rcases sendMessage_cases env m e' with
      ⟨_, err', hask', heq'⟩ | ⟨_, _, f', hask', hwire', heq'⟩ | ⟨_, _, b', hask', hwire', heq'⟩
    all_goals
      rw [hshown, hask] at hask'
      cases hask'
  · rw [heq, heq']
    exact hasked
  · rw [heq, heq']
    exact hasked
  · rw [hwire] at hwire'
    cases hwire'
  · rw [hwire] at hwire'
    cases hwire'
  · rw [hwire] at hwire'
    cases hwire'
    rw [heq, heq']
    exact hasked.transmit _ _

theorem alike_reply (h : e.Alike s s' e') (consent send : Env) (out : CodedMessage) :
    (reply consent send out e).1.Alike s s' (reply consent send out e').1
      ∧ (reply consent send out e').2 = (reply consent send out e).2 := by
  unfold reply
  dsimp only
  split
  · exact ⟨h.record _ _, rfl⟩
  · exact ⟨alike_sendMessage (h.record _ _) send _, rfl⟩

theorem alike_resendLoop (env : ℕ → Env) (sender target : Bytes) (ei : ℤ) (fuel k : ℕ) (seq : ℤ)
    (h : e.Alike s s' e') :
    (resendLoop env sender target ei fuel k seq e).engine.Alike s s'
        (resendLoop env sender target ei fuel k seq e').engine
      ∧ (resendLoop env sender target ei fuel k seq e').emitted
        = (resendLoop env sender target ei fuel k seq e).emitted
      ∧ (resendLoop env sender target ei fuel k seq e').finished
        = (resendLoop env sender target ei fuel k seq e).finished := by
  induction fuel generalizing k seq e e' with
  | zero => exact ⟨h, rfl, rfl⟩
  | succ fuel ih =>
    have hmgr := h.seqMgr
    rw [resendLoop, resendLoop]
    split
    · have hpass : ∀ pass, (afterPass (env k).takes pass e).Alike s s'
          (afterPass (env k).takes pass e') := by
        intro pass
        have hrecord := h.record pass.1 pass.1
        unfold afterPass
        dsimp only
        split
        · exact hrecord
        · exact hrecord.transmit _ _
      rw [hmgr]
      obtain ⟨hengine, hemitted, hfinished⟩ := ih (k + 1) (int64 (seq + 1)) (hpass _)
      dsimp only
      exact ⟨hengine, by rw [hemitted], hfinished⟩
    · exact ⟨h, rfl, rfl⟩

end Sending

/-! ## Handling

A handler looks a tag up, or passes the message to the application.  Where the application does not
tell the two messages apart either, all that follows is the same. -/

/-- **What the handling of a message leaves, but for the record of callbacks.** -/
structure Handled.Alike (s s' : List Bytes) (r r' : Handled) : Prop where
  engine : r.engine.Alike s s' r'.engine
  emitted : r'.emitted = r.emitted
  finished : r'.finished = r.finished
  error : r'.error = r.error

/-- A handler does not tell messages and engines apart that are alike. -/
def Handler.Blind (handle : Handler) : Prop :=
  ∀ m m' s s' e e', m.ReadAlike m' → Engine.Alike s s' e e' →
    (handle m e).Alike s s' (handle m' e')

theorem alike_of {e e' : Engine} (h : e.Alike s s' e') (error : Option HandlerError) :
    (Handled.of e error).Alike s s' (.of e' error) := ⟨h, rfl, rfl, rfl⟩

theorem blind_logonHandler (env : ℕ → Env) : Handler.Blind (logonHandler env) := by
  rintro m m' s s' e e' hm ⟨new, calls, hsent, rfl⟩
  unfold logonHandler
  rw [hm 141 (by decide)]
  exact ⟨⟨new, _, hsent, rfl⟩, rfl, rfl, rfl⟩

theorem blind_logoutHandler (env : ℕ → Env) : Handler.Blind (logoutHandler env) := by
  intro m m' s s' e e' hm he
  unfold logoutHandler
  rw [hm tagTargetCompID (by decide), hm tagSenderCompID (by decide)]
  dsimp only
  obtain ⟨hengine, herror⟩ := alike_reply he (env 0) (env 1)
    (newLogoutMessage (env 0).ρ (m.fields.getD tagTargetCompID) (m.fields.getD tagSenderCompID))
  generalize reply (env 0) (env 1) _ e = r at hengine herror ⊢
  generalize reply (env 0) (env 1) _ e' = r' at hengine herror ⊢
  obtain ⟨e₁, err⟩ := r
  obtain ⟨e₂, err'⟩ := r'
  obtain rfl : err' = err := herror
  cases err' with
  | some err => exact alike_of hengine _
  | none =>
    obtain ⟨new, calls, hsent, rfl⟩ := hengine
    exact ⟨⟨new, _, hsent, rfl⟩, rfl, rfl, rfl⟩

theorem blind_resendRequestHandler (env : ℕ → Env) (fuel : ℕ) :
    Handler.Blind (resendRequestHandler env fuel) := by
  intro m m' s s' e e' hm he
  have hmgr := he.seqMgr
  unfold resendRequestHandler
  rw [hm 7 (by decide), hm tagTargetCompID (by decide), hm tagSenderCompID (by decide), hmgr,
    endSeqNo, endSeqNo, beginSeqNo, beginSeqNo, hm 7 (by decide), hm 16 (by decide)]
  split
  · exact alike_of he _
  · split
    · exact alike_of he _
    · obtain ⟨hengine, hemitted, hfinished⟩ := alike_resendLoop (fun k => env (k + 1))
        (m.fields.getD tagTargetCompID) (m.fields.getD tagSenderCompID) (endSeqNo m e.seqMgr) fuel 0
        (beginSeqNo m) he
      exact ⟨hengine, hemitted, hfinished, rfl⟩

theorem blind_sequenceResetHandler (env : ℕ → Env) : Handler.Blind (sequenceResetHandler env) := by
  rintro m m' s s' e e' hm ⟨new, calls, hsent, rfl⟩
  unfold sequenceResetHandler
  rw [hm 36 (by decide)]
  dsimp only
  split <;> exact ⟨⟨new, _, hsent, rfl⟩, rfl, rfl, rfl⟩

theorem blind_testRequestHandler (env : ℕ → Env) : Handler.Blind (testRequestHandler env) := by
  intro m m' s s' e e' hm he
  unfold testRequestHandler
  rw [hm 112 (by decide), hm tagTargetCompID (by decide), hm tagSenderCompID (by decide)]
  dsimp only
  obtain ⟨hengine, herror⟩ := alike_reply he (env 0) (env 1) _
  refine ⟨hengine, rfl, rfl, herror⟩

/-- **No default handler looks beyond the tags read.** -/
theorem blind_defaultHandlers (env : ℕ → Env) (fuel : ℕ) :
    ∀ p ∈ defaultHandlers env fuel, Handler.Blind p.2 := by
  simp only [defaultHandlers, List.forall_mem_cons]
  exact ⟨blind_logonHandler env, blind_logoutHandler env, blind_resendRequestHandler env fuel,
    blind_sequenceResetHandler env, blind_testRequestHandler env,
    fun _ _ _ _ _ _ _ he => alike_of he none, by simp⟩

theorem CodedMessage.ReadAlike.refl (m : CodedMessage) : m.ReadAlike m := fun _ _ => rfl

/-- **Messages that agree on the tags read are handled alike**, where the application leaves them
so. -/
theorem alike_process {env : ℕ → Env} (fuel : ℕ) {m m' : CodedMessage} (hm : m.ReadAlike m')
    (hasked : ((env 0).app.fromAdmin m).1.ReadAlike ((env 0).app.fromAdmin m').1)
    (herr : ((env 0).app.fromAdmin m').2 = ((env 0).app.fromAdmin m).2) {s s' : List Bytes}
    {e e' : Engine} (he : e.Alike s s' e') :
    (process env fuel m e).Alike s s' (process env fuel m' e') := by
  have htype : m'.fields.getD tagMsgType = m.fields.getD tagMsgType := hm _ (by decide)
  unfold process
  rw [htype]
  dsimp only
  split
  · exact alike_of he _
  · split
    · next handle hlookup =>
      have hblind := blind_defaultHandlers env fuel _ (mem_of_lookup hlookup)
      unfold withFromAdmin Application.askFromAdmin ask
      dsimp only
      generalize (env 0).app.fromAdmin m = r at hasked herr ⊢
      generalize (env 0).app.fromAdmin m' = r' at hasked herr ⊢
      obtain ⟨q, err⟩ := r
      obtain ⟨q', err'⟩ := r'
      obtain rfl : err' = err := herr
      cases err' with
      | some err => exact alike_of (he.record _ _) _
      | none => exact hblind q q' _ _ _ _ hasked (he.record _ _)
    · exact alike_of he _

/-! ## Over runs -/

/-- **Events that differ in what arrives, off the tags read.** -/
inductive EngineEvent.Alike : EngineEvent → EngineEvent → Prop where
  | same (x : EngineEvent) : EngineEvent.Alike x x
  | receive {env : ℕ → Env} {fuel : ℕ} {m m' : CodedMessage} (happ : (env 0).app.ReadsAlike)
      (hm : m.ReadAlike m') : EngineEvent.Alike (.receive env fuel m) (.receive env fuel m')

/-- **Events that are alike are handled alike.** -/
theorem alike_event {s s' : List Bytes} {e e' : Engine} (he : e.Alike s s' e')
    {x x' : EngineEvent} (hx : x.Alike x') : (e.handle x).Alike s s' (e'.handle x') := by
  cases hx with
  | same =>
    cases x with
    | send env m => exact alike_sendMessage he env m
    | receive env fuel m => exact (alike_process fuel (.refl m) (.refl _) rfl he).engine
    | attach | detach | setNumber | restart =>
      obtain ⟨new, _, hsent, rfl⟩ := he
      exact ⟨new, _, hsent, rfl⟩
  | receive happ hm =>
    obtain ⟨hasked, herr⟩ := happ _ _ hm
    exact (alike_process _ hm hasked herr he).engine

/-- And where one handler returns, so does the other. -/
theorem alike_returns {s s' : List Bytes} {e e' : Engine} (he : e.Alike s s' e') (x : EngineEvent) :
    e'.Returns x ↔ e.Returns x := by
  cases x with
  | receive env fuel m =>
    rw [Engine.Returns, Engine.Returns, (alike_process fuel (.refl m) (.refl _) rfl he).finished]
  | attach | detach | send | setNumber | restart => exact Iff.rfl

/-- **What arrives is handled by eight of its tags.**  Two runs whose inbound messages agree on them
send the same frames, and have the same numbers and the same state. -/
theorem run_alike {e : Engine} {events events' : List EngineEvent}
    (h : List.Forall₂ EngineEvent.Alike events events') :
    (e.run events').sent = (e.run events).sent ∧ (e.run events').seqMgr = (e.run events).seqMgr
      ∧ (e.run events').sm = (e.run events).sm ∧ (e.run events').link = (e.run events).link := by
  have hrun : ∀ {e e' : Engine}, e.Alike [] [] e' →
      (e.run events).Alike [] [] (e'.run events') := by
    induction h with
    | nil => exact fun he => he
    | cons hx _ ih => exact fun he => ih (alike_event he hx)
  have hself : e.Alike [] [] e := ⟨e.sent, e.calls, rfl, rfl⟩
  obtain ⟨new, calls, hsent, heq⟩ := hrun hself
  rw [heq]
  exact ⟨hsent.symm, rfl, rfl, rfl⟩

theorem readsAlike_noOp : noOpApplication.ReadsAlike := fun _ _ h => ⟨h, rfl⟩

/-- A TestRequest is answered alike whatever its number. -/
theorem run_alike_test : ((engineOn .opened).run [.receive (fun _ => Outbound.calm) 0
      (testRequest.set tagMsgSeqNum (ascii "7"))]).sent
    = ((engineOn .opened).run [.receive (fun _ => Outbound.calm) 0 testRequest]).sent := by
  have hread : testRequest.ReadAlike (testRequest.set tagMsgSeqNum (ascii "7")) := by
    unfold CodedMessage.ReadAlike
    decide
  exact (run_alike (List.Forall₂.cons (.receive readsAlike_noOp hread) .nil)).1

/-! ## The incoming number -/

/-- A Logon that sets the numbers to 1. -/
def EngineEvent.Resets (hasStore : Bool) : EngineEvent → Prop
  | .receive env _ m =>
      m.fields.getD tagMsgType = ascii "A" ∧ hasStore = true
        ∧ ((env 0).app.fromAdmin m).2 = none
        ∧ ((env 0).app.fromAdmin m).1.fields.getD 141 = ascii "Y"
  | _ => False

instance (hasStore : Bool) (x : EngineEvent) : Decidable (x.Resets hasStore) :=
  match x with
  | .receive _ _ _ => inferInstanceAs (Decidable (_ ∧ _))
  | .attach | .detach _ | .send _ _ | .setNumber _ _ | .restart _ =>
      inferInstanceAs (Decidable False)

/-- The engine goes on, and nobody sets its numbers. -/
def EngineEvent.Goes : EngineEvent → Prop
  | .setNumber _ _ | .restart _ => False
  | .attach | .detach _ | .send _ _ | .receive _ _ _ => True

/-- The incoming number stays, and so does the store. -/
structure SeqManager.KeepsIncoming (s s' : SeqManager) : Prop where
  incoming : s'.numbers.incoming = s.numbers.incoming
  store : s'.store.isSome = s.store.isSome

theorem SeqManager.KeepsIncoming.of_eq {s s' : SeqManager} (h : s' = s) : s.KeepsIncoming s' := by
  rw [h]
  exact ⟨rfl, rfl⟩

/-- Drawing a number keeps the incoming one. -/
theorem keepsIncoming_sendMessage (env : Env) (m : CodedMessage) (e : Engine) :
    e.seqMgr.KeepsIncoming (sendMessage env m e).engine.seqMgr := by
  rw [(sendMessage_seqMgr env m e).1]
  unfold afterToApp drawSeqNum
  dsimp only
  split
  · exact .of_eq rfl
  · exact ⟨rfl, SeqManager.isSome_perform .incrementOutgoing env.writes e.seqMgr⟩

theorem keepsIncoming_reply (consent send : Env) (out : CodedMessage) (e : Engine) :
    e.seqMgr.KeepsIncoming (reply consent send out e).1.seqMgr := by
  unfold reply
  dsimp only
  split
  · exact .of_eq rfl
  · next out' _ =>
    exact keepsIncoming_sendMessage send out' (e.record (consent.app.askToAdmin out).1)

theorem incoming_logonHandler (env : ℕ → Env) (m : CodedMessage) (e : Engine) :
    (logonHandler env m e).engine.seqMgr.numbers.incoming
        = (if m.fields.getD 141 = ascii "Y" ∧ e.seqMgr.store.isSome = true then 1
          else e.seqMgr.numbers.incoming)
      ∧ (logonHandler env m e).engine.seqMgr.store.isSome = e.seqMgr.store.isSome := by
  have hmgr : (logonHandler env m e).engine.seqMgr
      = if m.fields.getD 141 = ascii "Y" ∧ e.seqMgr.store.isSome then
        e.seqMgr.resetToOne (env 0).writes (env 1).writes else e.seqMgr := rfl
  rw [hmgr]
  split
  · exact ⟨rfl, (SeqManager.isSome_perform _ _ _).trans (SeqManager.isSome_perform _ _ _)⟩
  · exact ⟨rfl, rfl⟩

/-- **No handler but that of Logon sets the incoming number.** -/
theorem keepsIncoming_handlers (env : ℕ → Env) (fuel : ℕ) :
    ∀ p ∈ defaultHandlers env fuel, p.1 ≠ ascii "A" → ∀ m (e : Engine),
      e.seqMgr.KeepsIncoming (p.2 m e).engine.seqMgr := by
  have hlogout : ∀ m (e : Engine),
      e.seqMgr.KeepsIncoming (logoutHandler env m e).engine.seqMgr := by
    intro m e
    unfold logoutHandler
    dsimp only
    have hreply := keepsIncoming_reply (env 0) (env 1) (newLogoutMessage (env 0).ρ
      (m.fields.getD tagTargetCompID) (m.fields.getD tagSenderCompID)) e
    split
    all_goals
      next heq =>
      rw [heq] at hreply
      exact hreply
  have hresend : ∀ m (e : Engine),
      e.seqMgr.KeepsIncoming (resendRequestHandler env fuel m e).engine.seqMgr := by
    intro m e
    unfold resendRequestHandler
    split
    · exact .of_eq rfl
    · split
      · exact .of_eq rfl
      · exact .of_eq (seqMgr_resendLoop ..)
  have hreset : ∀ m (e : Engine),
      e.seqMgr.KeepsIncoming (sequenceResetHandler env m e).engine.seqMgr := by
    intro m e
    unfold sequenceResetHandler
    dsimp only
    split
    · exact .of_eq rfl
    · exact ⟨rfl, SeqManager.isSome_perform _ _ _⟩
  simp only [defaultHandlers, List.forall_mem_cons]
  exact ⟨fun h => absurd rfl h, fun _ => hlogout, fun _ => hresend, fun _ => hreset,
    fun _ _ _ => keepsIncoming_reply _ _ _ _, fun _ _ _ => .of_eq rfl, by simp⟩

/-- **An event sets the incoming number to 1 if it is a Logon that resets**, and leaves it
otherwise. -/
theorem incoming_handle {e : Engine} {x : EngineEvent} (hx : x.Goes) :
    (e.handle x).seqMgr.numbers.incoming
        = (if x.Resets e.seqMgr.store.isSome then 1 else e.seqMgr.numbers.incoming)
      ∧ (e.handle x).seqMgr.store.isSome = e.seqMgr.store.isSome := by
  have hkept : ∀ {e' : Engine}, ¬ x.Resets e.seqMgr.store.isSome →
      e.seqMgr.KeepsIncoming e'.seqMgr → e'.seqMgr.numbers.incoming
          = (if x.Resets e.seqMgr.store.isSome then 1 else e.seqMgr.numbers.incoming)
        ∧ e'.seqMgr.store.isSome = e.seqMgr.store.isSome := by
    intro e' hnot h
    rw [if_neg hnot]
    exact ⟨h.incoming, h.store⟩
  cases x with
  | setNumber | restart => exact hx.elim
  | attach | detach => exact hkept id (.of_eq rfl)
  | send env m => exact hkept id (keepsIncoming_sendMessage env m e)
  | receive env fuel m =>
    change (process env fuel m e).engine.seqMgr.numbers.incoming = _
      ∧ (process env fuel m e).engine.seqMgr.store.isSome = _
    unfold process
    dsimp only
    split
    · next hempty =>
      exact hkept (fun h => by rw [h.1] at hempty; cases hempty) (.of_eq rfl)
    · split
      · next handle hlookup =>
        unfold withFromAdmin Application.askFromAdmin ask
        dsimp only
        rcases hasked : (env 0).app.fromAdmin m with ⟨q, _ | err⟩
        · by_cases htype : m.fields.getD tagMsgType = ascii "A"
          · rw [htype] at hlookup
            cases Option.some.inj hlookup
            have hresets : (EngineEvent.receive env fuel m).Resets e.seqMgr.store.isSome
                ↔ q.fields.getD 141 = ascii "Y" ∧ e.seqMgr.store.isSome = true := by
              unfold EngineEvent.Resets
              dsimp only
              rw [hasked]
              exact ⟨fun h => ⟨h.2.2.2, h.2.1⟩, fun h => ⟨htype, h.2, rfl, h.1⟩⟩
            simp only [hresets]
            exact incoming_logonHandler env q (e.record [.fromAdmin m])
          · have hkeep := keepsIncoming_handlers env fuel _ (mem_of_lookup hlookup) htype q
              (e.record [.fromAdmin m])
            exact hkept (fun h => htype h.1) hkeep
        · refine hkept (fun h => ?_) (.of_eq rfl)
          have hnone := h.2.2.1
          rw [hasked] at hnone
          cases hnone
      · next hlookup =>
        refine hkept (fun h => ?_) (.of_eq rfl)
        rw [h.1] at hlookup
        cases hlookup

/-- **No message that arrives is counted.**  Over every run in which nobody sets the numbers from
outside, the incoming number is 1 if a Logon has reset it, and else what it was. -/
theorem incoming_run {e : Engine} {events : List EngineEvent} (h : ∀ x ∈ events, x.Goes) :
    (e.run events).seqMgr.numbers.incoming
      = if ∃ x ∈ events, x.Resets e.seqMgr.store.isSome then 1 else e.seqMgr.numbers.incoming := by
  induction events generalizing e with
  | nil =>
    rw [if_neg (by simp)]
    rfl
  | cons x events ih =>
    obtain ⟨hincoming, hstore⟩ := incoming_handle (e := e) (h x List.mem_cons_self)
    have hrest := ih (e := e.handle x) fun y hy => h y (List.mem_cons_of_mem _ hy)
    change ((e.handle x).run events).seqMgr.numbers.incoming = _
    rw [hrest, hstore, hincoming]
    simp only [List.mem_cons, exists_eq_or_imp]
    by_cases hx : x.Resets e.seqMgr.store.isSome
    · by_cases hlater : ∃ y ∈ events, y.Resets e.seqMgr.store.isSome
      · rw [if_pos hlater, if_pos (Or.inr hlater)]
      · rw [if_neg hlater, if_pos hx, if_pos (Or.inl hx)]
    · simp only [hx, false_or, if_false]

/-- A Logon that resets sets the number, and the TestRequests around it leave it. -/
theorem incoming_run_logon : ((engineOn .opened).run
    [.receive (fun _ => Outbound.calm) 0 testRequest, .receive (fun _ => Outbound.calm) 0
      Engine.resetLogon, .receive (fun _ => Outbound.calm) 0 testRequest]).seqMgr.numbers.incoming
      = 1 := by
  rw [incoming_run]
  · refine if_pos ⟨.receive (fun _ => Outbound.calm) 0 Engine.resetLogon, ?_, ?_⟩
    · exact List.mem_cons_of_mem _ List.mem_cons_self
    · exact ⟨by decide, rfl, rfl, by decide⟩
  · exact List.forall_mem_cons.mpr ⟨trivial, List.forall_mem_cons.mpr ⟨trivial,
      List.forall_mem_singleton.mpr trivial⟩⟩

end FixMsg
