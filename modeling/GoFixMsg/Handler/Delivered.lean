import GoFixMsg.Handler.Duplex
import GoFixMsg.Handler.Processor

/-!
# Handler/Delivered — a message is shown once

An engine shows `FromAdmin` the messages of six types; what it sends in answer goes to the other
engine, which does the same.  Each application is shown, in the order in which they were sent and
each of them once, the messages of those types among the frames its engine has handled — and what it
has handled is what the other one has sent, but for the frames on their way: so it is of frames
(`exchange_delivers`), and so of bytes (`duplex_delivers`), whatever is answered, rejected, sent in
between or cut off.

What an application is shown is compared with the frames that its engine has handled, taken as
messages.  Messages of other types are left out: whether an application sees one is up to the
handlers of the program's own.
-/

open GoLang

namespace FixMsg

/-- What `FromAdmin` has been shown. -/
def shownToFromAdmin (calls : List AppCall) : List CodedMessage :=
  calls.filterMap fun
    | .fromAdmin m => some m
    | .onCreate | .onLogon | .onLogout | .toAdmin _ | .toApp _ | .onReject _ _ => none

/-- A message whose type has a default handler. -/
def hasDefaultHandler (m : CodedMessage) : Bool :=
  decide (m.fields.getD tagMsgType ∈ Processor.defaultTypes)

/-- The messages in some frames that `FromAdmin` is to be shown. -/
def forFromAdmin (frames : List Bytes) : List CodedMessage :=
  (frames.filterMap received).filter hasDefaultHandler

theorem shownToFromAdmin_append (calls calls' : List AppCall) :
    shownToFromAdmin (calls ++ calls') = shownToFromAdmin calls ++ shownToFromAdmin calls' :=
  List.filterMap_append

theorem forFromAdmin_append (frames frames' : List Bytes) :
    forFromAdmin (frames ++ frames') = forFromAdmin frames ++ forFromAdmin frames' := by
  rw [forFromAdmin, List.filterMap_append, List.filter_append]
  rfl

/-- What the handlers call back shows `FromAdmin` nothing. -/
theorem shownToFromAdmin_ofHandler {calls : List AppCall} (h : ∀ c ∈ calls, c.OfHandler) :
    shownToFromAdmin calls = [] := by
  refine List.filterMap_eq_nil_iff.mpr fun c hc => ?_
  have hof := h c hc
  cases c with
  | fromAdmin m => exact hof.elim
  | onCreate | onLogon | onLogout | toAdmin | toApp | onReject => rfl

/-- Being asked is being shown. -/
theorem shownToFromAdmin_askFromAdmin (app : Application) (m : CodedMessage) :
    shownToFromAdmin (app.askFromAdmin m).1 = [m] := by
  unfold Application.askFromAdmin ask
  split <;> rfl

/-! ## What one engine shows -/

/-- A message that is sent is not shown to `FromAdmin`. -/
theorem shownToFromAdmin_sendMessage (env : Env) (m : CodedMessage) (e : Engine) :
    shownToFromAdmin (sendMessage env m e).engine.calls = shownToFromAdmin e.calls := by
  obtain ⟨-, new, hcalls, hnew⟩ := replies_sendMessage env m e
  rw [hcalls, shownToFromAdmin_append,
    shownToFromAdmin_ofHandler fun c hc => (hnew c hc).ofHandler, List.append_nil]

/-- **A message that is handled is shown once**, if its type has a default handler. -/
theorem shownToFromAdmin_process (env : ℕ → Env) (fuel : ℕ) (m : CodedMessage) (e : Engine) :
    shownToFromAdmin (process env fuel m e).engine.calls
      = shownToFromAdmin e.calls ++ [m].filter hasDefaultHandler := by
  by_cases htype : m.fields.getD tagMsgType ∈ Processor.defaultTypes
  · obtain ⟨-, handle, hmem, hlookup⟩ := Processor.lookup_defaultHandlers htype env fuel
    have hne : m.fields.getD tagMsgType ≠ [] := fun hnil => by
      rw [hnil] at htype
      exact absurd htype (by decide)
    have hsome : hasDefaultHandler m = true := decide_eq_true htype
    have hasked : shownToFromAdmin (e.record ((env 0).app.askFromAdmin m).1).calls
        = shownToFromAdmin e.calls ++ [m] :=
      (shownToFromAdmin_append _ _).trans
        (congrArg (shownToFromAdmin e.calls ++ ·) (shownToFromAdmin_askFromAdmin _ m))
    rw [List.filter_cons_of_pos hsome, List.filter_nil, ← hasked]
    unfold process
    dsimp only
    rw [if_neg hne, hlookup]
    dsimp only
    unfold withFromAdmin
    dsimp only
    split
    · rfl
    · next m' _ =>
      obtain ⟨new, hcalls, hnew⟩ := calls_defaultHandlers env fuel _ hmem m'
        (e.record ((env 0).app.askFromAdmin m).1)
      rw [hcalls, shownToFromAdmin_append, shownToFromAdmin_ofHandler hnew, List.append_nil]
  · have hnone : ¬ hasDefaultHandler m = true := fun h => htype (of_decide_eq_true h)
    rw [List.filter_cons_of_neg hnone, List.filter_nil, List.append_nil]
    unfold process
    dsimp only
    rw [Processor.lookup_defaultHandlers_none htype]
    dsimp only
    split <;> rfl

/-- What an engine has sent while it handled a message. -/
theorem sent_process (env : ℕ → Env) (fuel : ℕ) (m : CodedMessage) (e : Engine) :
    (process env fuel m e).engine.sent = e.sent ++ replies env fuel m e := by
  rw [replies_eq]
  exact (follows_process env fuel m e).sent

/-! ## What both show

The frames that have been sent are those that have been handled and those on their way, in this
order, on either side.  What has been shown is read off the first of them. -/

namespace Exchange

/-- **What has happened between two states of an exchange**: either engine has sent new frames, and
has handled the first of those that were on their way, and of the new ones of the other.  What
these hold is what it has shown its application. -/
def Since (x y : Exchange) : Prop := ∀ p, ∃ new done,
  (y.engine p.other).sent = (x.engine p.other).sent ++ new
    ∧ x.toward p ++ new = done ++ y.toward p
    ∧ shownToFromAdmin (y.engine p).calls = shownToFromAdmin (x.engine p).calls ++ forFromAdmin done

theorem Since.refl (x : Exchange) : x.Since x := fun _ =>
  ⟨[], [], (List.append_nil _).symm, List.append_nil _, (List.append_nil _).symm⟩

theorem Since.trans {x y z : Exchange} (h : x.Since y) (h' : y.Since z) : x.Since z := by
  intro p
  obtain ⟨new, done, hsent, htoward, hshown⟩ := h p
  obtain ⟨new', done', hsent', htoward', hshown'⟩ := h' p
  refine ⟨new ++ new', done ++ done', ?_, ?_, ?_⟩
  · rw [hsent', hsent, List.append_assoc]
  · rw [← List.append_assoc, htoward, List.append_assoc, htoward', List.append_assoc]
  · rw [hshown', hshown, forFromAdmin_append, List.append_assoc]

variable {x y : Exchange} {p : Peer}

/-- One engine handles some frames, and sends new ones. -/
theorem since_of_call {e : Engine} (done : List Bytes) {rest new : List Bytes}
    (htoward : x.toward p = done ++ rest) (hsent : e.sent = (x.engine p).sent ++ new)
    (hshown : shownToFromAdmin e.calls = shownToFromAdmin (x.engine p).calls ++ forFromAdmin done)
    (hengine : y.engine = Function.update x.engine p e)
    (hy : y.toward = Function.update (Function.update x.toward p rest) p.other
      (x.toward p.other ++ new)) : x.Since y := by
  have hback : p.other.other = p := by cases p <;> rfl
  intro q
  rw [hengine, hy]
  by_cases hq : q = p
  · subst hq
    refine ⟨[], done, ?_, ?_, ?_⟩
    · rw [Function.update_of_ne q.other_ne, List.append_nil]
    · rw [Function.update_of_ne q.other_ne.symm, Function.update_self, List.append_nil, htoward]
    · rw [Function.update_self, hshown]
  · obtain rfl : q = p.other := by cases p <;> cases q <;> first | rfl | exact absurd rfl hq
    refine ⟨new, [], ?_, ?_, ?_⟩
    · rw [hback, Function.update_self, hsent]
    · rw [Function.update_self]
      rfl
    · rw [Function.update_of_ne hq]
      exact (List.append_nil _).symm

/-- What a message that is sent leaves behind. -/
theorem since_send (p : Peer) (env : Env) (m : CodedMessage) (x : Exchange) :
    x.Since (x.send p env m) := by
  have hsent : ∃ new, (sendMessage env m (x.engine p)).engine.sent = (x.engine p).sent ++ new := by
    rcases sent_sendMessage env m (x.engine p) with h | ⟨_, b, -, -, h⟩
    · exact ⟨[], h.trans (List.append_nil _).symm⟩
    · exact ⟨[b], h⟩
  obtain ⟨new, hsent⟩ := hsent
  refine since_of_call [] rfl hsent ?_ rfl ?_
  · rw [shownToFromAdmin_sendMessage]
    exact (List.append_nil _).symm
  · rw [send, hsent, List.drop_left' rfl, Function.update_eq_self]

/-- What a delivery leaves behind. -/
theorem since_deliver {env : ℕ → Env} {fuel : ℕ} (h : x.deliver p env fuel = some y) :
    x.Since y := by
  obtain ⟨b, rest, new, htoward, hy, ⟨hr, rfl, hengine⟩ | ⟨m, hr, rfl, hengine⟩⟩ := deliver_cases h
  · have hnone : forFromAdmin [b] = [] := by
      rw [forFromAdmin, List.filterMap_cons_none hr]
      rfl
    refine since_of_call [b] (e := x.engine p) htoward (List.append_nil _).symm ?_ ?_ hy
    · rw [hnone, List.append_nil]
    · rw [hengine, Function.update_eq_self]
  · have hsome : forFromAdmin [b] = [m].filter hasDefaultHandler := by
      rw [forFromAdmin, List.filterMap_cons_some hr]
      rfl
    refine since_of_call [b] htoward (sent_process ..) ?_ hengine hy
    rw [hsome, shownToFromAdmin_process]

/-- **Between frames**: whatever is delivered and sent, either application has been shown the
messages of the frames that its engine has handled, in their order. -/
theorem exchange_delivers {as : List ExchangeStep} (hrun : Runs.run step x as = some y) :
    x.Since y := by
  refine Runs.run_kept (fun y => x.Since y) (fun y a z hy hstep => hy.trans ?_) (.refl x) hrun
  cases a with
  | deliver p env fuel => exact since_deliver hstep
  | send p env m =>
    obtain rfl := Option.some.inj hstep
    exact since_send p env m y

end Exchange

namespace Duplex

/-- **Between bytes, a message is shown once**: whatever the order of the steps, and whatever is cut
off, the frames that an engine has sent are those that the other one has handled, and those on their
way; and `FromAdmin` of the other one has been shown, in their order, the messages of the first. -/
theorem duplex_delivers {engine : Peer → Engine} (hs : ∀ p, (engine p).seqMgr.StoresFramable)
    {answer : Peer → ℕ → Option ℕ} {as : List DuplexAction} (has : ∀ a ∈ as, Framing a) {s : Duplex}
    (hrun : Runs.run step (opened engine answer) as = some s) (p : Peer) :
    ∃ done, (s.engine p.other).sent = (engine p.other).sent ++ (done ++ s.exchange.toward p)
      ∧ shownToFromAdmin (s.engine p).calls
        = shownToFromAdmin (engine p).calls ++ forFromAdmin done := by
  obtain ⟨-, hseen⟩ := exchange_run hs has hrun
  obtain ⟨new, done, hsent, htoward, hshown⟩ := Exchange.exchange_delivers hseen p
  obtain rfl : new = done ++ s.exchange.toward p := htoward
  exact ⟨done, hsent, hshown⟩

/-- The initiator has handled the one frame that the acceptor has sent, and `FromAdmin` of it has
been shown one message. -/
theorem duplex_delivers_test : ∃ s, Runs.run step twoEngines testOverBytes = some s
    ∧ (shownToFromAdmin (s.engine .initiator).calls).length = 1
    ∧ ∃ done, (s.engine .acceptor).sent = done ++ s.exchange.toward .initiator
      ∧ shownToFromAdmin (s.engine .initiator).calls = forFromAdmin done := by
  have hone : ((Runs.run step twoEngines testOverBytes).map fun s =>
      (shownToFromAdmin (s.engine .initiator).calls).length) = some 1 := by decide +kernel
  obtain ⟨s, hrun, hlength⟩ := Option.map_eq_some_iff.mp hone
  exact ⟨s, hrun, hlength, duplex_delivers (fun _ => storesFramable_engineOn) framing_testOverBytes
    hrun .initiator⟩

end Duplex

end FixMsg
