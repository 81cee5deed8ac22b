import GoFixMsg.Engine.Resendable
import GoFixMsg.Handler.Calls
import GoFixMsg.Machinery.Runs

/-!
# Engine/LogonState — do the lifecycle callbacks agree with the state machine?

`AttachSession` and `Connect` fire none of the events that lead a fresh state machine away from
Disconnected, and the only events an engine does fire, logon_received and logout_received, leave it
there.  So `OnLogout` is called in the state it should be, and `OnLogon` never is
(`callbacksAgree_iff`).

The table of the machine has a way from Disconnected by `connect` alone, and nothing in the engine
processes that event.  A Logon therefore finds the machine in Disconnected, and its event is not one
that leads away from there; the application is told all the same.
-/

open GoLang

namespace FixMsg

namespace Engine

/-- An event happens to an engine. -/
def eventStep (e : Engine) (x : EngineEvent) : Option Engine := some (e.handle x)

/-- The callbacks made in an event. -/
def callsOf (e : Engine) (x : EngineEvent) : List AppCall := (e.handle x).calls.drop e.calls.length

/-- **The lifecycle callbacks of an event agree with the state**: a handler calls `OnLogon` in Active
and `OnLogout` in Disconnected.  Both handlers make the call last, so the state they leave is the one
they make it in. -/
def CallbacksAgree (e : Engine) (x : EngineEvent) : Prop :=
  (.onLogon ∈ e.callsOf x → (e.handle x).sm = .active)
    ∧ (.onLogout ∈ e.callsOf x → (e.handle x).sm = .disconnected)

end Engine

/-- **The condition on an event**: it is not the arrival of a Logon. -/
def EngineEvent.NoLogon : EngineEvent → Prop
  | .receive _ _ m => m.fields.getD tagMsgType ≠ ascii "A"
  | _ => True

/-- The application accepts every message that arrives in an event. -/
def EngineEvent.Accepted : EngineEvent → Prop
  | .receive env _ _ => ∀ k m, ((env k).app.fromAdmin m).2 = none ∧ ((env k).app.toAdmin m).2 = none
      ∧ ((env k).app.toApp m).2 = none
  | _ => True

/-! ## What is done about a message in Disconnected -/

/-- **What is done about a message in Disconnected**: the state stays, and `OnLogon` is called or
not. -/
structure Engine.StaysDisconnected (logon : Prop) (e e' : Engine) : Prop where
  sm : e'.sm = .disconnected
  calls : ∃ new, e'.calls = e.calls ++ new ∧ (.onLogon ∈ new ↔ logon)

variable {e e' : Engine} {logon : Prop}

theorem Engine.Replies.staysDisconnected (h : e.Replies e') (he : e.sm = .disconnected)
    (hnot : ¬ logon) : Engine.StaysDisconnected logon e e' := by
  obtain ⟨hsm, new, hcalls, hnew⟩ := h
  exact ⟨hsm.trans he, new, hcalls, iff_of_false (fun hmem => hnew _ hmem) hnot⟩

/-- The callbacks before a handler count with it. -/
theorem Engine.StaysDisconnected.behind {calls : List AppCall} (hcalls : .onLogon ∉ calls)
    (h : Engine.StaysDisconnected logon (e.record calls) e') :
    Engine.StaysDisconnected logon e e' := by
  obtain ⟨hsm, new, hnew, hiff⟩ := h
  refine ⟨hsm, calls ++ new, hnew.trans (List.append_assoc _ _ _), ?_⟩
  rw [List.mem_append, or_iff_right hcalls, hiff]

/-- **No handler leaves Disconnected**, and only that of Logon calls `OnLogon`. -/
theorem staysDisconnected_defaultHandlers (env : ℕ → Env) (fuel : ℕ) :
    ∀ p ∈ defaultHandlers env fuel, ∀ m e, e.sm = .disconnected →
      Engine.StaysDisconnected (p.1 = ascii "A") e (p.2 m e).engine := by
  have hlogon : ∀ m e, e.sm = .disconnected →
      Engine.StaysDisconnected (ascii "A" = ascii "A") e (logonHandler env m e).engine := by
    intro m e he
    refine ⟨?_, [.onLogon], rfl, iff_of_true (List.mem_singleton_self _) rfl⟩
    change (e.sm.onEvent .logonReceived).1 = _
    rw [he]
    rfl
  have hother : ascii "5" ≠ ascii "A" ∧ ascii "2" ≠ ascii "A" ∧ ascii "4" ≠ ascii "A"
      ∧ ascii "1" ≠ ascii "A" ∧ ascii "0" ≠ ascii "A" := by decide
  obtain ⟨h5, h2, h4, h1, h0⟩ := hother
  have hlogout : ∀ m e, e.sm = .disconnected →
      Engine.StaysDisconnected (ascii "5" = ascii "A") e (logoutHandler env m e).engine := by
    intro m e he
    rcases logoutHandler_spec env m e with h | ⟨e', ⟨hsm, new, hcalls, hnew⟩, heq⟩
    · exact h.staysDisconnected he h5
    · rw [heq]
      refine ⟨?_, new ++ [.onLogout], by rw [hcalls, List.append_assoc],
        iff_of_false (fun hmem => ?_) h5⟩
      · change (e'.sm.onEvent .logoutReceived).1 = _
        rw [hsm, he]
        rfl
      · rcases List.mem_append.mp hmem with hmem | hmem
        · exact hnew _ hmem
        · cases List.mem_singleton.mp hmem
  rw [defaultHandlers]
  iterate 6 rw [List.forall_mem_cons]
  exact ⟨hlogon, hlogout,
    fun m e he => (replies_resendRequestHandler env fuel m e).staysDisconnected he h2,
    fun m e he => (replies_sequenceResetHandler env m e).staysDisconnected he h4,
    fun m e he => (replies_testRequestHandler env m e).staysDisconnected he h1,
    fun m e he => (replies_heartbeatHandler m e).staysDisconnected he h0,
    fun _ hp => absurd hp List.not_mem_nil⟩

/-- **A message that arrives in Disconnected** leaves the engine there.  `OnLogon` is called for a
Logon that the application accepts, and for no other message. -/
theorem process_disconnected (env : ℕ → Env) (fuel : ℕ) (m : CodedMessage)
    (he : e.sm = .disconnected) :
    Engine.StaysDisconnected (m.fields.getD tagMsgType = ascii "A"
      ∧ ((env 0).app.fromAdmin m).2 = none) e (process env fuel m e).engine := by
  have hlogon : ∃ handle, (defaultHandlers env fuel).lookup (ascii "A") = some handle := ⟨_, rfl⟩
  have hrefl := Engine.Replies.refl e
  unfold process
  dsimp only
  split
  · next hnil => exact hrefl.staysDisconnected he fun h => by rw [hnil] at h; cases h.1
  · split
    · next handle hlookup =>
      unfold withFromAdmin Application.askFromAdmin ask
      dsimp only
      cases hask : (env 0).app.fromAdmin m with
      | mk m' err =>
        cases err with
        | some err =>
          refine .behind ?_ ((Engine.Replies.refl _).staysDisconnected he fun h => ?_)
          · simp
          · cases h.2
        | none =>
          obtain ⟨hsm, new, hcalls, hiff⟩ := staysDisconnected_defaultHandlers env fuel _
            (mem_of_lookup hlookup) m' (e.record [.fromAdmin m]) he
          refine .behind (by simp) ⟨hsm, new, hcalls, hiff.trans ⟨fun h => ⟨h, rfl⟩, And.left⟩⟩
    · next hlookup =>
      refine hrefl.staysDisconnected he fun h => ?_
      obtain ⟨handle, hsome⟩ := hlogon
      rw [h.1, hsome] at hlookup
      cases hlookup

/-! ## Over runs

The state of the machine is the invariant.  It is Disconnected before each event, so each event is
judged as a first one would be. -/

namespace Engine

/-- **An engine whose state machine is fresh stays in Disconnected**, whatever happens to it. -/
theorem sm_handle (he : e.sm = .disconnected) (x : EngineEvent) :
    (e.handle x).sm = .disconnected := by
  cases x with
  | attach | detach | setNumber => exact he
  | restart => rfl
  | send env m => exact (replies_sendMessage env m e).sm.trans he
  | receive env fuel m => exact (process_disconnected env fuel m he).sm

theorem callsOf_eq {new : List AppCall} {x : EngineEvent} (h : (e.handle x).calls = e.calls ++ new) :
    e.callsOf x = new := by
  rw [callsOf, h, List.drop_left]

/-- The callbacks of an event agree exactly if it is not the arrival of a Logon. -/
theorem callbacksAgree_iff_noLogon (he : e.sm = .disconnected) {x : EngineEvent} (hx : x.Accepted) :
    e.CallbacksAgree x ↔ x.NoLogon := by
  have hnone : ∀ {new}, (e.handle x).calls = e.calls ++ new → .onLogon ∉ new →
      e.CallbacksAgree x := by
    intro new hcalls hnew
    refine ⟨fun h => absurd (callsOf_eq hcalls ▸ h) hnew, fun _ => sm_handle he x⟩
  cases x with
  | attach => exact iff_of_true (hnone rfl fun h => by cases List.mem_singleton.mp h) trivial
  | detach | setNumber | restart =>
    exact iff_of_true (hnone (List.append_nil _).symm List.not_mem_nil) trivial
  | send env m =>
    obtain ⟨-, new, hcalls, hnew⟩ := replies_sendMessage env m e
    exact iff_of_true (hnone hcalls fun hmem => hnew _ hmem) trivial
  | receive env fuel m =>
    obtain ⟨hsm, new, hcalls, hiff⟩ := process_disconnected env fuel m he
    have hcalls : (e.handle (.receive env fuel m)).calls = e.calls ++ new := hcalls
    constructor
    · rintro ⟨hactive, -⟩ htype
      have hlogon : .onLogon ∈ e.callsOf (.receive env fuel m) := by
        rw [callsOf_eq hcalls, hiff]
        exact ⟨htype, (hx 0 m).1⟩
      have hstate := hactive hlogon
      rw [show (e.handle (.receive env fuel m)).sm = .disconnected from hsm] at hstate
      cases hstate
    · exact fun htype => hnone hcalls fun h => htype (hiff.mp h).1

/-- **Lifecycle callbacks agree with the state machine in a run exactly if no Logon arrives in it.** -/
theorem callbacksAgree_iff {events : List EngineEvent} (he : e.sm = .disconnected)
    (haccept : ∀ x ∈ events, x.Accepted) :
    Runs.Meets eventStep CallbacksAgree e events ↔ ∀ x ∈ events, x.NoLogon := by
  induction events generalizing e with
  | nil => exact iff_of_true trivial fun _ hx => absurd hx List.not_mem_nil
  | cons x events ih =>
    rw [Runs.meets_cons_iff rfl, callbacksAgree_iff_noLogon he (haccept x List.mem_cons_self),
      ih (sm_handle he x) fun y hy => haccept y (List.mem_cons_of_mem _ hy), List.forall_mem_cons]

/-- An engine behind `SetupComponents` with a fresh state machine. -/
def freshEngine : Engine := { engineOn .opened with sm := .disconnected, link := .absent }

/-- The peer sends a message of the type, and the application accepts it. -/
def arrival (msgType : Bytes) : EngineEvent :=
  .receive (fun _ => Outbound.calm) 1 (adminHeader msgType (ascii "T") (ascii "S"))

/-- A heartbeat and a Logout. -/
theorem callbacksAgree_logout : Runs.Meets eventStep CallbacksAgree freshEngine
    [.attach, arrival (ascii "0"), arrival (ascii "5")] := by
  have haccept : ∀ t, (arrival t).Accepted := fun _ _ _ => ⟨rfl, rfl, rfl⟩
  have htype : ∀ t ∈ [ascii "0", ascii "5"],
      (adminHeader t (ascii "T") (ascii "S")).fields.getD tagMsgType ≠ ascii "A" := by decide
  refine (callbacksAgree_iff rfl ?_).mpr ?_
  · exact List.forall_mem_cons.mpr ⟨trivial, List.forall_mem_cons.mpr ⟨haccept _,
      List.forall_mem_singleton.mpr (haccept _)⟩⟩
  · exact List.forall_mem_cons.mpr ⟨trivial, List.forall_mem_cons.mpr ⟨htype _ (by decide),
      List.forall_mem_singleton.mpr (htype _ (by decide))⟩⟩

/-- A Logon: `OnLogon` is called in Disconnected. -/
theorem onLogon_in_disconnected : ¬ Runs.Meets eventStep CallbacksAgree freshEngine
    [.attach, arrival (ascii "A")] := by
  intro h
  have hagree : (freshEngine.handle .attach).CallbacksAgree (arrival (ascii "A")) :=
    ((Runs.meets_cons_iff rfl).mp h).2.1
  have htype : (adminHeader (ascii "A") (ascii "T") (ascii "S")).fields.getD tagMsgType
      = ascii "A" := by decide
  have haccept : (arrival (ascii "A")).Accepted := fun _ _ => ⟨rfl, rfl, rfl⟩
  exact (callbacksAgree_iff_noLogon rfl haccept).mp hagree htype

end Engine

end FixMsg
