import GoFixMsg.Handler.Handlers

/-!
# Handler/Calls — the callbacks that are made while a message is handled

Replies, and the frames of a resend, go out with the callbacks `ToAdmin`, `ToApp` and `OnReject`,
and leave the state machine alone (`Engine.Replies`).  A handler adds `OnLogon` or `OnLogout`;
`FromAdmin` is asked before it, and by none again (`calls_defaultHandlers`).

What is said of a reply is said once: it leaves the state, and calls back some of three callbacks.
Handlers and the resend loop are made of replies, so the rest is putting them together; with it,
properties of callbacks need not look into a handler again.
-/

open GoLang

namespace FixMsg

/-- A callback that a reply makes. -/
def AppCall.OfReply : AppCall → Prop
  | .toAdmin _ | .toApp _ | .onReject _ _ => True
  | .onCreate | .onLogon | .onLogout | .fromAdmin _ => False

/-- A callback that a handler makes behind `FromAdmin`. -/
def AppCall.OfHandler : AppCall → Prop
  | .onCreate | .fromAdmin _ => False
  | .toAdmin _ | .toApp _ | .onReject _ _ | .onLogon | .onLogout => True

theorem AppCall.OfReply.ofHandler {c : AppCall} (h : c.OfReply) : c.OfHandler := by
  cases c with
  | toAdmin | toApp | onReject => trivial
  | onCreate | onLogon | onLogout | fromAdmin => cases h

/-- **The state stays, and only callbacks of replies are made.** -/
structure Engine.Replies (e e' : Engine) : Prop where
  sm : e'.sm = e.sm
  calls : ∃ new, e'.calls = e.calls ++ new ∧ ∀ c ∈ new, c.OfReply

namespace Engine

/-- Where neither the state nor the record of callbacks changes. -/
theorem Replies.of_eq {e e' : Engine} (hsm : e'.sm = e.sm) (hcalls : e'.calls = e.calls) :
    e.Replies e' :=
  ⟨hsm, [], hcalls.trans (List.append_nil _).symm, fun _ hc => absurd hc List.not_mem_nil⟩

theorem Replies.refl (e : Engine) : e.Replies e := .of_eq rfl rfl

theorem Replies.trans {e e' e'' : Engine} (h : e.Replies e') (h' : e'.Replies e'') :
    e.Replies e'' := by
  obtain ⟨hsm, new, hcalls, hnew⟩ := h
  obtain ⟨hsm', new', hcalls', hnew'⟩ := h'
  refine ⟨hsm'.trans hsm, new ++ new', by rw [hcalls', hcalls, List.append_assoc], fun c hc => ?_⟩
  exact (List.mem_append.mp hc).elim (hnew c) (hnew' c)

theorem replies_record (e : Engine) {calls : List AppCall} (h : ∀ c ∈ calls, c.OfReply) :
    e.Replies (e.record calls) := ⟨rfl, calls, rfl, h⟩

theorem replies_transmit (takes : Bool) (b : Bytes) (e : Engine) :
    e.Replies (e.transmit takes b).1 := by
  unfold transmit
  split
  all_goals exact .of_eq rfl rfl

end Engine

theorem ofReply_askToAdmin (app : Application) (m : CodedMessage) :
    ∀ c ∈ (app.askToAdmin m).1, c.OfReply := by
  unfold Application.askToAdmin ask
  split
  · exact List.forall_mem_singleton.mpr trivial
  · exact List.forall_mem_cons.mpr ⟨trivial, List.forall_mem_singleton.mpr trivial⟩

theorem ofReply_toAppCalls (app : Application) (m : CodedMessage) :
    ∀ c ∈ toAppCalls app m, c.OfReply := by
  unfold toAppCalls
  split
  · refine List.forall_mem_cons.mpr ⟨trivial, fun c hc => ?_⟩
    obtain ⟨_, -, rfl⟩ := List.mem_map.mp hc
    trivial
  · exact fun _ hc => absurd hc List.not_mem_nil

theorem replies_sendMessage (env : Env) (m : CodedMessage) (e : Engine) :
    e.Replies (sendMessage env m e).engine := by
  have hasked : e.Replies (afterToApp env m e) := by
    have hdraw : ∀ m', e.Replies (drawSeqNum env.writes m' e).1 := by
      intro m'
      unfold drawSeqNum
      split
      · exact .refl e
      · exact .of_eq rfl rfl
    exact (hdraw _).trans (Engine.replies_record _ (ofReply_toAppCalls env.app _))
  rcases sendMessage_cases env m e with ⟨_, _, -, heq⟩ | ⟨_, _, _, -, -, heq⟩ | ⟨_, _, _, -, -, heq⟩
  · rw [heq]
    exact hasked
  · rw [heq]
    exact hasked
  · rw [heq]
    exact hasked.trans (Engine.replies_transmit _ _ _)

theorem replies_reply (consent send : Env) (out : CodedMessage) (e : Engine) :
    e.Replies (reply consent send out e).1 := by
  have hasked := Engine.replies_record e (ofReply_askToAdmin consent.app out)
  unfold reply
  dsimp only
  split
  · exact hasked
  · exact hasked.trans (replies_sendMessage _ _ _)

theorem ofReply_resendPass (env : Env) (sender target : Bytes) (seq : ℤ)
    (found : Option StoredMessage) :
    ∀ c ∈ (resendPass env sender target seq found).1, c.OfReply := by
  have hnil : ∀ c ∈ ([] : List AppCall), c.OfReply := fun _ hc => absurd hc List.not_mem_nil
  have hgap : ∀ c ∈ (fillGap env sender target seq).1, c.OfReply := ofReply_askToAdmin _ _
  unfold resendPass
  split
  · exact hgap
  · split
    · exact hnil
    · split
      · exact hgap
      · exact hnil

theorem replies_resendLoop (env : ℕ → Env) (sender target : Bytes) (ei : ℤ) (fuel k : ℕ) (seq : ℤ)
    (e : Engine) : e.Replies (resendLoop env sender target ei fuel k seq e).engine := by
  induction fuel generalizing k seq e with
  | zero => exact .refl e
  | succ fuel ih =>
    rw [resendLoop]
    split
    · refine Engine.Replies.trans ?_ (ih _ _ _)
      have hpass := Engine.replies_record e (ofReply_resendPass (env k) sender target seq
        (lookup (env k).reads sender target seq e.seqMgr))
      unfold afterPass
      dsimp only
      split
      · exact hpass
      · exact hpass.trans (Engine.replies_transmit _ _ _)
    · exact .refl e

/-! ## The handlers

Two of the six do more than reply.  That of Logon fires its event and calls `OnLogon`; that of
Logout does the same with `OnLogout`, unless the application has rejected its reply. -/

theorem replies_resendRequestHandler (env : ℕ → Env) (fuel : ℕ) (m : CodedMessage) (e : Engine) :
    e.Replies (resendRequestHandler env fuel m e).engine := by
  unfold resendRequestHandler
  split
  · exact .refl e
  · split
    · exact .refl e
    · exact replies_resendLoop ..

theorem replies_sequenceResetHandler (env : ℕ → Env) (m : CodedMessage) (e : Engine) :
    e.Replies (sequenceResetHandler env m e).engine := by
  unfold sequenceResetHandler
  dsimp only
  split
  · exact .refl e
  · exact .of_eq rfl rfl

theorem replies_testRequestHandler (env : ℕ → Env) (m : CodedMessage) (e : Engine) :
    e.Replies (testRequestHandler env m e).engine := replies_reply _ _ _ _

theorem replies_heartbeatHandler (m : CodedMessage) (e : Engine) :
    e.Replies (heartbeatHandler m e).engine := .refl e

/-- **Logout**: a reply, and `OnLogout` unless the application forbids the reply. -/
theorem logoutHandler_spec (env : ℕ → Env) (m : CodedMessage) (e : Engine) :
    e.Replies (logoutHandler env m e).engine
      ∨ ∃ e', e.Replies e' ∧ (logoutHandler env m e).engine
        = { e' with sm := (e'.sm.onEvent .logoutReceived).1, calls := e'.calls ++ [.onLogout] } := by
  have hreply := replies_reply (env 0) (env 1) (newLogoutMessage (env 0).ρ
    (m.fields.getD tagTargetCompID) (m.fields.getD tagSenderCompID)) e
  unfold logoutHandler
  dsimp only
  split
  · next e' err heq =>
    rw [heq] at hreply
    exact Or.inl hreply
  · next e' heq =>
    rw [heq] at hreply
    exact Or.inr ⟨e', hreply, rfl⟩

/-- **No handler asks `FromAdmin`.** -/
theorem calls_defaultHandlers (env : ℕ → Env) (fuel : ℕ) :
    ∀ p ∈ defaultHandlers env fuel, ∀ m e,
      ∃ new, (p.2 m e).engine.calls = e.calls ++ new ∧ ∀ c ∈ new, c.OfHandler := by
  have hreplies : ∀ {e e' : Engine}, e.Replies e' →
      ∃ new, e'.calls = e.calls ++ new ∧ ∀ c ∈ new, c.OfHandler := by
    rintro e e' ⟨-, new, hcalls, hnew⟩
    exact ⟨new, hcalls, fun c hc => (hnew c hc).ofHandler⟩
  have hlogon : ∀ m (e : Engine),
      ∃ new, (logonHandler env m e).engine.calls = e.calls ++ new ∧ ∀ c ∈ new, c.OfHandler :=
    fun m e => ⟨[.onLogon], rfl, List.forall_mem_singleton.mpr trivial⟩
  have hlogout : ∀ m (e : Engine),
      ∃ new, (logoutHandler env m e).engine.calls = e.calls ++ new ∧ ∀ c ∈ new, c.OfHandler := by
    intro m e
    rcases logoutHandler_spec env m e with h | ⟨e', ⟨-, new, hcalls, hnew⟩, heq⟩
    · exact hreplies h
    · refine ⟨new ++ [.onLogout], by rw [heq, hcalls, List.append_assoc], fun c hc => ?_⟩
      rcases List.mem_append.mp hc with hc | hc
      · exact (hnew c hc).ofHandler
      · rw [List.mem_singleton.mp hc]
        trivial
  rw [defaultHandlers]
  iterate 6 rw [List.forall_mem_cons]
  exact ⟨hlogon, hlogout, fun m e => hreplies (replies_resendRequestHandler env fuel m e),
    fun m e => hreplies (replies_sequenceResetHandler env m e),
    fun m e => hreplies (replies_testRequestHandler env m e),
    fun m e => hreplies (replies_heartbeatHandler m e), fun _ hp => absurd hp List.not_mem_nil⟩

end FixMsg
