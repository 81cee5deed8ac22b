import GoFixMsg.Handler.Processor
import GoFixMsg.Machinery.Runs

/-!
# Engine/Attribution — whom a callback goes to, and which session id it carries

An engine and its processor each hold an application, and each has its own way to a session id.
`SetApplication` writes the engine's, `SetupComponents` copies it to the processor, and nothing
gives the processor the session id of the engine.

So a callback goes astray where a handler of an application type is called through a processor that
has been given another application or session id, or where validation fails
(`attributed_iff_wired`).
-/

open GoLang

namespace FixMsg

/-- `FixEngine`, with what decides who is called back. -/
structure Host where
  engine : Engine
  app : AppId
  proc : Option Processor

/-- What `SetupComponents` is given, and what it reads of the configuration and the initiator. -/
structure Components where
  sm : State
  store : Option SQLiteStore
  loads : Driver
  addr : Bytes
  senderCompID : Bytes
  targetCompID : Bytes

/-- A setter of a processor. -/
inductive ProcessorSetup where
  | setApplication (app : AppId)
  | setGetSessionIDFn (fn : Bytes → Bytes)
  | setSpec (s : Option FixSpec)
  | setValidateFunc (fn : CodedMessage → Option FixSpec → Option Bytes)
  | register (msgType : Bytes) (fn : HandlerFn)
  | registerWithFromApp (msgType sessionID : Bytes) (fn : HandlerFn)

/-- What is called on an engine before its session is attached. -/
inductive Setup where
  | setApplication (app : Option AppId)
  | setSessionID (sessionID : Bytes)
  | setupComponents (c : Components)
  /-- The engine is given a processor; `SetupComponents` makes one only where there is none. -/
  | newProcessor
  /-- A setter of the processor, if there is one. -/
  | processor (x : ProcessorSetup)

/-- A setter is called. -/
def Processor.setup (p : Processor) : ProcessorSetup → Processor
  | .setApplication app => p.setApplication app
  | .setGetSessionIDFn fn => p.setGetSessionIDFn fn
  | .setSpec s => p.setSpec s
  | .setValidateFunc fn => p.setValidateFunc fn
  | .register msgType fn => p.register msgType fn
  | .registerWithFromApp msgType sessionID fn => p.registerWithFromApp msgType sessionID fn

namespace Host

/-- `NewFixEngine`, with `NoOpApplication`.  Its numbers are those `SetupComponents` replaces. -/
def new : Host where
  engine :=
    { senderCompID := []
      targetCompID := []
      sessionID := []
      seqMgr := .new .ok none []
      sm := .disconnected
      link := .absent
      sent := []
      calls := [] }
  app := 0
  proc := none

/-- `SetupComponents`. -/
def setupComponents (h : Host) (c : Components) : Host where
  engine :=
    { h.engine with
      senderCompID := orDefault h.engine.senderCompID (orDefault c.senderCompID (ascii "S"))
      targetCompID := orDefault h.engine.targetCompID (orDefault c.targetCompID (ascii "T"))
      seqMgr := .new c.loads c.store (orDefault c.addr (ascii "default"))
      sm := c.sm }
  app := h.app
  proc := some ((h.proc.getD .new).setApplication h.app).registerDefaultHandlers

/-- A call before the session is attached. -/
def setup (h : Host) : Setup → Host
  | .setApplication app => { h with app := app.getD h.app }
  | .setSessionID sid => { h with engine := { h.engine with sessionID := sid } }
  | .setupComponents c => h.setupComponents c
  | .newProcessor => { h with proc := some .new }
  | .processor x => { h with proc := h.proc.map fun p => p.setup x }

/-- The engine behind a list of such calls. -/
def configured (setups : List Setup) : Host := setups.foldl setup new

end Host

/-- **What happens to an attached engine**: a message arrives, or is sent. -/
inductive HostEvent where
  | receive (apps : AppId → Application) (env : ℕ → Env) (fuel : ℕ) (m : CodedMessage)
  | send (apps : AppId → Application) (env : Env) (m : CodedMessage)

namespace Host

/-- `HandleIncoming` and `SendMessage`: the engine they leave, and what happens in them. -/
def handle (h : Host) : HostEvent → Engine × List Occurrence
  | .receive apps env fuel m =>
      match h.proc with
      | none => (h.engine, [])
      | some p =>
          let r := p.process ⟨apps, h.app, env, fuel⟩ m h.engine
          (r.engine, r.trace)
  | .send apps env m =>
      let e := (sendMessage { env with app := apps h.app } m h.engine).engine
      (e, calledBack h.app h.engine.sessionID (e.calls.drop h.engine.calls.length))

end Host

/-- An event at one of several engines. -/
def hostsStep (hosts : ℕ → Host) : ℕ × HostEvent → Option (ℕ → Host)
  | (i, x) => some (Function.update hosts i { hosts i with engine := ((hosts i).handle x).1 })

/-! ## The property, and the condition -/

/-- The occurrence, if it is a callback, goes to the application and carries the session id. -/
def Occurrence.GoesTo (app : AppId) (sessionID : Bytes) : Occurrence → Prop
  | .call a sid _ => a = app ∧ sid = sessionID
  | .body => True

@[simp] theorem Occurrence.goesTo_call {app a : AppId} {sessionID sid : Bytes} {c : Called} :
    (Occurrence.call a sid c).GoesTo app sessionID ↔ a = app ∧ sid = sessionID := Iff.rfl

/-- The application a call sets; `SetApplication` ignores nil. -/
def Setup.application : Setup → Option AppId
  | .setApplication app => app
  | _ => none

/-- The application set last, or `NoOpApplication`. -/
def lastApp (setups : List Setup) : AppId := (setups.filterMap Setup.application).getLastD 0

/-- The session id a call sets. -/
def Setup.sessionID : Setup → Option Bytes
  | .setSessionID sid => some sid
  | _ => none

/-- The session id set last. -/
def lastSessionID (setups : List Setup) : Bytes := (setups.filterMap Setup.sessionID).getLastD []

/-- **Every callback of an event goes to the application set last, with the session id that its
engine has.** -/
def Attributed (setups : ℕ → List Setup) (hosts : ℕ → Host) : ℕ × HostEvent → Prop
  | (i, x) => ∀ o ∈ ((hosts i).handle x).2,
      o.GoesTo (lastApp (setups i)) (hosts i).engine.sessionID

/-- **The condition on a message that arrives.**  If it does not pass validation, the processor has
the engine's application, and the session id is empty.  If it is of an application type with a
handler, the processor has the engine's application and session id; and so has the handler, if it
has been added by `RegisterWithFromApp` and the application accepts the message. -/
def Processor.Wired (p : Processor) (app : AppId) (sessionID : Bytes) (apps : AppId → Application)
    (m : CodedMessage) : Prop :=
  let mt := m.fields.getD tagMsgType
  ∀ a, p.app = some a →
    if (p.validate m).isSome then a = app ∧ sessionID = []
    else mt ≠ [] → isAdminMessageType mt = false → ∀ r, p.h.lookup mt = some r →
      a = app ∧ p.sessionID sessionID = sessionID ∧
        ∀ sid fn, r = .withFromApp sid fn → ((apps a).fromApp m).2 = none → sid = sessionID

/-- The condition on an event. -/
def Host.Wired (h : Host) : HostEvent → Prop
  | .receive apps _ _ m => ∀ p, h.proc = some p → p.Wired h.app h.engine.sessionID apps m
  | .send _ _ _ => True

/-! ## One event -/

section

variable {app a : AppId} {sid sid' : Bytes}

theorem goesTo_calledBack {calls : List AppCall} :
    ∀ o ∈ calledBack app sid calls, o.GoesTo app sid := by
  intro o ho
  obtain ⟨c, -, rfl⟩ := List.mem_map.mp ho
  exact ⟨rfl, rfl⟩

/-- A handler of an application type, wrapped: the callbacks before it, and its own. -/
theorem goesTo_wrapFromApp {apps : AppId → Application} {msgType : Bytes}
    (htype : isAdminMessageType msgType = false) (fn : WrappedFn) (m : CodedMessage) (e : Engine) :
    (∀ o ∈ (wrapFromApp apps (some a) sid' msgType fn m e).trace, o.GoesTo app sid)
      ↔ a = app ∧ sid' = sid ∧ (((apps a).fromApp m).2 = none →
        ∀ o ∈ (fn ((apps a).fromApp m).1 e).trace, o.GoesTo app sid) := by
  rw [wrapFromApp, if_neg (by rw [htype]; decide)]
  cases (apps a).fromApp m with
  | mk m' err =>
    cases err with
    | some err => simp
    | none =>
      constructor
      · intro h
        obtain ⟨⟨happ, hsid⟩, hrest⟩ := List.forall_mem_cons.mp h
        exact ⟨happ, hsid, fun _ => (List.forall_mem_cons.mp hrest).2⟩
      · rintro ⟨happ, hsid, hrest⟩
        exact List.forall_mem_cons.mpr ⟨⟨happ, hsid⟩,
          List.forall_mem_cons.mpr ⟨⟨happ, hsid⟩, hrest rfl⟩⟩

theorem goesTo_runDefault (s : Surroundings) (handle : Handler) (m : CodedMessage) (e : Engine) :
    ∀ o ∈ (runDefault s handle m e).trace, o.GoesTo s.engineApp e.sessionID := by
  unfold runDefault
  dsimp only
  cases ((s.apps s.engineApp).askFromAdmin m).2 with
  | error err => exact goesTo_calledBack
  | ok m' =>
    exact List.forall_mem_append.mpr ⟨goesTo_calledBack,
      List.forall_mem_cons.mpr ⟨trivial, goesTo_calledBack⟩⟩

/-- A handler of an admin type calls back as its engine does. -/
theorem goesTo_inner_admin {p : Processor} {s : Surroundings} {msgType : Bytes}
    (htype : isAdminMessageType msgType = true) (r : Registration) (m : CodedMessage) (e : Engine) :
    ∀ o ∈ (p.inner s msgType r m e).trace, o.GoesTo s.engineApp e.sessionID := by
  have hbody : ∀ fn : HandlerFn, ∀ o ∈ (runBody fn m e).trace, o.GoesTo s.engineApp e.sessionID :=
    fun fn => List.forall_mem_singleton.mpr trivial
  cases r with
  | default =>
    unfold Processor.inner
    dsimp only
    cases (defaultHandlers (fun k => { s.env k with app := s.apps s.engineApp }) s.fuel).lookup
      msgType with
    | some handle => exact goesTo_runDefault s handle m e
    | none => exact fun o ho => absurd ho List.not_mem_nil
  | plain fn => exact hbody fn
  | withFromApp sid' fn =>
    unfold Processor.inner
    dsimp only
    rw [wrapFromApp_admin htype]
    exact hbody fn

/-- Without an application nothing is wrapped. -/
theorem wrapFromApp_none {apps : AppId → Application} {msgType : Bytes} (fn : WrappedFn)
    (m : CodedMessage) (e : Engine) : wrapFromApp apps none sid msgType fn m e = fn m e := by
  unfold wrapFromApp
  split <;> rfl

/-- What a handler of an application type calls back behind the wrapping of `Register`. -/
theorem goesTo_inner {p : Processor} {s : Surroundings} {msgType : Bytes}
    (htype : isAdminMessageType msgType = false) (happ : ∀ a, p.app = some a → a = app)
    (r : Registration) (m : CodedMessage) (e : Engine) :
    (∀ o ∈ (p.inner s msgType r m e).trace, o.GoesTo app sid)
      ↔ ∀ sid' fn, r = .withFromApp sid' fn → p.app ≠ none → sid' = sid := by
  have hbody : ∀ fn : HandlerFn, ∀ o ∈ (runBody fn m e).trace, o.GoesTo app sid :=
    fun fn => List.forall_mem_singleton.mpr trivial
  cases r with
  | default =>
    have hnot : msgType ∉ Processor.defaultTypes := by
      intro hmem
      rw [(Processor.lookup_defaultHandlers hmem s.env s.fuel).1] at htype
      cases htype
    unfold Processor.inner
    dsimp only
    rw [Processor.lookup_defaultHandlers_none hnot]
    exact iff_of_true (fun o ho => absurd ho List.not_mem_nil) fun _ _ h => by cases h
  | plain fn => exact iff_of_true (hbody fn) fun _ _ h => by cases h
  | withFromApp sid' fn =>
    unfold Processor.inner
    dsimp only
    cases ha : p.app with
    | none =>
      rw [wrapFromApp_none]
      exact iff_of_true (hbody fn) fun _ _ _ h => absurd rfl h
    | some a =>
      rw [goesTo_wrapFromApp htype]
      constructor
      · rintro ⟨-, hsid, -⟩ sid'' fn' h -
        cases h
        exact hsid
      · exact fun h => ⟨happ a ha, h sid' fn rfl (Option.some_ne_none a),
          fun _ => List.forall_mem_singleton.mpr trivial⟩

/-- **What a handler of an application type calls back**, as `Register` has wrapped it. -/
theorem goesTo_wrapped {p : Processor} {s : Surroundings} {msgType : Bytes}
    (htype : isAdminMessageType msgType = false) (r : Registration) (m : CodedMessage) (e : Engine) :
    (∀ o ∈ (wrapFromApp s.apps p.app sid' msgType (p.inner s msgType r) m e).trace, o.GoesTo app sid)
      ↔ ∀ a, p.app = some a → a = app ∧ sid' = sid ∧ ∀ sid'' fn, r = .withFromApp sid'' fn →
        ((s.apps a).fromApp m).2 = none → sid'' = sid := by
  cases happ : p.app with
  | none =>
    rw [wrapFromApp_none, goesTo_inner htype (by simp [happ])]
    exact iff_of_true (fun _ _ _ h => absurd happ h) fun a ha => by cases ha
  | some a =>
    rw [goesTo_wrapFromApp htype]
    constructor
    · rintro ⟨rfl, hsid, hinner⟩ a' ha'
      cases ha'
      refine ⟨rfl, hsid, fun sid'' fn hr haccept => ?_⟩
      exact (goesTo_inner htype (by simp [happ]) r _ e).mp (hinner haccept) sid'' fn hr (by simp [happ])
    · intro h
      obtain ⟨rfl, hsid, hr⟩ := h a rfl
      refine ⟨rfl, hsid, fun haccept => (goesTo_inner htype (by simp [happ]) r _ e).mpr ?_⟩
      exact fun sid'' fn hreg _ => hr sid'' fn hreg haccept

end

/-- **The callbacks of a message that arrives go to the engine's application, with its session id,
exactly if** the processor is wired so. -/
theorem Processor.goesTo_process {p : Processor} {s : Surroundings} {m : CodedMessage} {e : Engine} :
    (∀ o ∈ (p.process s m e).trace, o.GoesTo s.engineApp e.sessionID)
      ↔ p.Wired s.engineApp e.sessionID s.apps m := by
  unfold Processor.process Processor.Wired
  dsimp only
  cases p.validate m with
  | some err =>
    cases p.app with
    | none => simp
    | some a => simp [eq_comm]
  | none =>
    dsimp only
    by_cases htype : m.fields.getD tagMsgType = []
    · rw [if_pos htype]
      exact iff_of_true (fun o ho => absurd ho List.not_mem_nil) fun a _ => by simp [htype]
    rw [if_neg htype]
    cases p.h.lookup (m.fields.getD tagMsgType) with
    | none => exact iff_of_true (fun o ho => absurd ho List.not_mem_nil) fun a _ => by simp
    | some r =>
      dsimp only
      cases hadmin : isAdminMessageType (m.fields.getD tagMsgType) with
      | true =>
        rw [wrapFromApp_admin hadmin]
        exact iff_of_true (goesTo_inner_admin hadmin r m e) fun a _ => by simp
      | false =>
        rw [goesTo_wrapped hadmin]
        refine forall_congr' fun a => imp_congr_right fun _ => ?_
        simp [htype]

namespace Host

/-- **The callbacks of an event go to the engine's application, with its session id, exactly if** the
engine is wired so for it. -/
theorem goesTo_handle (h : Host) (x : HostEvent) :
    (∀ o ∈ (h.handle x).2, o.GoesTo h.app h.engine.sessionID) ↔ h.Wired x := by
  cases x with
  | send apps env m => exact iff_of_true goesTo_calledBack trivial
  | receive apps env fuel m =>
    unfold handle Wired
    dsimp only
    cases h.proc with
    | none => exact iff_of_true (fun o ho => absurd ho List.not_mem_nil) fun p hp => by cases hp
    | some p =>
      rw [Processor.goesTo_process (s := ⟨apps, h.app, env, fuel⟩)]
      simp

/-! ## Runs -/

/-- **An engine has the application and the session id set last.** -/
theorem configured_spec (setups : List Setup) :
    (configured setups).app = lastApp setups
      ∧ (configured setups).engine.sessionID = lastSessionID setups := by
  suffices hfold : ∀ h : Host, (setups.foldl setup h).app
        = (setups.filterMap Setup.application).getLastD h.app
      ∧ (setups.foldl setup h).engine.sessionID
        = (setups.filterMap Setup.sessionID).getLastD h.engine.sessionID from hfold new
  induction setups with
  | nil => exact fun h => ⟨rfl, rfl⟩
  | cons x setups ih =>
    intro h
    obtain ⟨happ, hsid⟩ := ih (h.setup x)
    rw [List.foldl_cons, happ, hsid]
    cases x with
    | setApplication app =>
      cases app with
      | none => exact ⟨rfl, rfl⟩
      | some app => exact ⟨(List.getLastD_cons ..).symm, rfl⟩
    | setSessionID sid => exact ⟨rfl, (List.getLastD_cons ..).symm⟩
    | setupComponents | newProcessor | processor => exact ⟨rfl, rfl⟩

end Host

/-- An event leaves the application of every engine alone. -/
theorem app_hostsStep {hosts hosts' : ℕ → Host} {x : ℕ × HostEvent}
    (h : hostsStep hosts x = some hosts') (i : ℕ) : (hosts' i).app = (hosts i).app := by
  obtain ⟨j, x⟩ := x
  obtain rfl := Option.some.inj h
  by_cases hij : i = j
  · rw [hij, Function.update_self]
  · rw [Function.update_of_ne hij]

/-- **Every callback goes to the application set last and carries the session id, in a run of any
number of engines, exactly if** each event finds its engine wired so. -/
theorem attributed_iff_wired (setups : ℕ → List Setup) (events : List (ℕ × HostEvent)) :
    Runs.Meets hostsStep (Attributed setups) (fun i => .configured (setups i)) events
      ↔ Runs.Meets hostsStep (fun hosts x => (hosts x.1).Wired x.2)
        (fun i => .configured (setups i)) events := by
  have hrun : ∀ (hosts : ℕ → Host) (events : List (ℕ × HostEvent)),
      ∃ hosts', Runs.run hostsStep hosts events = some hosts' := by
    intro hosts events
    induction events generalizing hosts with
    | nil => exact ⟨hosts, rfl⟩
    | cons x events ih => exact ih _
  obtain ⟨hosts', hrun⟩ := hrun _ events
  have hstep : ∀ hosts x hosts', (∀ i, (hosts i).app = lastApp (setups i)) →
      hostsStep hosts x = some hosts' → ∀ i, (hosts' i).app = lastApp (setups i) :=
    fun hosts x hosts' hinv h i => (app_hostsStep h i).trans (hinv i)
  refine Runs.meets_congr hstep ?_ (fun i => (Host.configured_spec (setups i)).1) hrun
  rintro hosts ⟨i, x⟩ hosts' hinv -
  rw [Attributed, ← hinv i]
  exact (hosts i).goesTo_handle x

/-- What `handleNewConnection` calls on the engine of a connection. -/
def connectionSetups (app : AppId) (sessionID : Bytes) (c : Components) : List Setup :=
  [.setApplication (some app), .setSessionID sessionID, .setupComponents c]

/-- Components as of a new engine without a store. -/
def plainComponents : Components := ⟨.disconnected, none, .ok, [], [], []⟩

/-- An application message arrives, and applications accept it. -/
def execReportArrives : HostEvent :=
  .receive (fun _ => noOpApplication) (fun _ => Outbound.calm) 1 execReport

/-- **Two connections that share an application**, each with a handler of its own: `FromApp` and
`OnMessage` carry no session id. -/
theorem fromApp_without_sessionID :
    ¬ Runs.Meets hostsStep
      (Attributed fun i => connectionSetups 1 (ascii "temp-" ++ itoa i) plainComponents
        ++ [.processor (.register (ascii "8") ignore)])
      (fun i => .configured (connectionSetups 1 (ascii "temp-" ++ itoa i) plainComponents
        ++ [.processor (.register (ascii "8") ignore)]))
      [(1, execReportArrives), (2, execReportArrives)] := by
  intro h
  have hcall : (Occurrence.call 1 [] (.fromApp execReport)).GoesTo 1 (ascii "temp-" ++ itoa 1) :=
    h.1 _ List.mem_cons_self
  have hsid := hcall.2
  rw [ascii] at hsid
  cases hsid

end FixMsg
