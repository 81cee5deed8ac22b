import GoFixMsg.Engine.SendOrder
import GoFixMsg.Handler.Calls

/-!
# Handler/Processor — handlers by message type, and the callbacks around them

`Register` wraps the handler of an application type: `FromApp` and `OnMessage` come before it.
`RegisterWithFromApp` wraps it once, and hands the result to `Register`, which wraps it again.  The
default handlers ask `FromAdmin` themselves; nobody asks it for an admin type that has none of them.

So a message reaches the application exactly once if its type has a default handler, or is an
application type registered by `Register`, or the application rejects it at the first of two
callbacks (`reachesOnce_iff`).
-/

open GoLang

namespace FixMsg

/-- An application, by its identity. -/
abbrev AppId := ℕ

/-- A callback of an application. -/
inductive Called where
  /-- By a default handler, or by `SendMessage`; or `OnReject` by the processor. -/
  | engine (c : AppCall)
  | fromApp (m : CodedMessage)
  | onMessage (m : CodedMessage)

/-- What happens while a message is handled: an application is called back with a session id, or the
body of the handler begins. -/
inductive Occurrence where
  | call (app : AppId) (sessionID : Bytes) (c : Called)
  | body

/-- What a message meets: the applications, the application of the engine, and the environment of
the default handlers. -/
structure Surroundings where
  apps : AppId → Application
  engineApp : AppId
  env : ℕ → Env
  fuel : ℕ

/-- A handler function: what it makes of the engine, and its error. -/
abbrev HandlerFn := CodedMessage → Engine → Engine × Option Bytes

/-- How the handler of a type has been registered. -/
inductive Registration where
  /-- By `RegisterDefaultHandlers`. -/
  | default
  /-- By `Register`. -/
  | plain (fn : HandlerFn)
  /-- By `RegisterWithFromApp`. -/
  | withFromApp (sessionID : Bytes) (fn : HandlerFn)

/-- `Processor`.  The function for the session id may read that of the engine. -/
structure Processor where
  h : List (Bytes × Registration)
  app : Option AppId
  spec : Option FixSpec
  validateFn : Option (CodedMessage → Option FixSpec → Option Bytes)
  getSessionIDFn : Option (Bytes → Bytes)

/-- Why a message was not processed. -/
inductive ProcessError where
  | handler (e : HandlerError)
  | validation (reason : Bytes)
  | failed (reason : Bytes)

/-- What the processing of a message leaves behind. -/
structure Processed where
  engine : Engine
  trace : List Occurrence
  error : Option ProcessError

/-- What a wrapped handler function does. -/
abbrev WrappedFn := CodedMessage → Engine → Processed

/-- `FromApp` before a handler of an application type, and `OnMessage` where it accepts. -/
def wrapFromApp (apps : AppId → Application) (app : Option AppId) (sessionID msgType : Bytes)
    (fn : WrappedFn) : WrappedFn := fun m e =>
  if isAdminMessageType msgType then fn m e
  else
    match app with
    | none => fn m e
    | some a =>
        match (apps a).fromApp m with
        | (m', some err) =>
            ⟨e, [.call a sessionID (.fromApp m),
              .call a sessionID (.engine (.onReject m' (ascii "FromApp rejected: " ++ err)))],
              some (.failed err)⟩
        | (m', none) =>
            let r := fn m' e
            { r with trace :=
                .call a sessionID (.fromApp m) :: .call a sessionID (.onMessage m') :: r.trace }

/-- The handler function itself. -/
def runBody (fn : HandlerFn) : WrappedFn := fun m e =>
  ⟨(fn m e).1, [.body], (fn m e).2.map .failed⟩

/-- The callbacks of an engine go to its application, with its session id. -/
def calledBack (app : AppId) (sessionID : Bytes) (calls : List AppCall) : List Occurrence :=
  calls.map fun c => .call app sessionID (.engine c)

/-- A default handler: `FromAdmin`, and the handler where it accepts. -/
def runDefault (s : Surroundings) (handle : Handler) : WrappedFn := fun m e =>
  let asked := (s.apps s.engineApp).askFromAdmin m
  match asked.2 with
  | .error err =>
      ⟨e.record asked.1, calledBack s.engineApp e.sessionID asked.1, some (.handler (.rejected err))⟩
  | .ok m' =>
      let r := handle m' (e.record asked.1)
      ⟨r.engine, calledBack s.engineApp e.sessionID asked.1
          ++ .body :: calledBack s.engineApp e.sessionID
            (r.engine.calls.drop (e.record asked.1).calls.length),
        r.error.map .handler⟩

namespace Processor

/-- `NewProcessor`. -/
def new : Processor := ⟨[], none, none, none, none⟩

/-- `SetApplication`. -/
def setApplication (p : Processor) (app : AppId) : Processor := { p with app := some app }

/-- `SetGetSessionIDFn`. -/
def setGetSessionIDFn (p : Processor) (fn : Bytes → Bytes) : Processor :=
  { p with getSessionIDFn := some fn }

/-- `SetSpec`. -/
def setSpec (p : Processor) (s : Option FixSpec) : Processor := { p with spec := s }

/-- `SetValidateFunc`. -/
def setValidateFunc (p : Processor) (fn : CodedMessage → Option FixSpec → Option Bytes) :
    Processor := { p with validateFn := some fn }

/-- A registration replaces the one before it. -/
def put (p : Processor) (msgType : Bytes) (r : Registration) : Processor :=
  { p with h := (msgType, r) :: p.h }

/-- `Register`. -/
def register (p : Processor) (msgType : Bytes) (fn : HandlerFn) : Processor :=
  p.put msgType (.plain fn)

/-- `RegisterWithFromApp`. -/
def registerWithFromApp (p : Processor) (msgType sessionID : Bytes) (fn : HandlerFn) : Processor :=
  p.put msgType (.withFromApp sessionID fn)

/-- The types of the default handlers. -/
def defaultTypes : List Bytes :=
  [ascii "A", ascii "5", ascii "2", ascii "4", ascii "1", ascii "0"]

/-- `RegisterDefaultHandlers`. -/
def registerDefaultHandlers (p : Processor) : Processor :=
  defaultTypes.foldl (fun p msgType => p.put msgType .default) p

/-- The session id `Register` passes on, for an engine with the given one. -/
def sessionID (p : Processor) (sid : Bytes) : Bytes :=
  match p.getSessionIDFn with
  | none => []
  | some fn => fn sid

/-- The error of the validation function, if there is one. -/
def validate (p : Processor) (m : CodedMessage) : Option Bytes :=
  p.validateFn.bind fun fn => fn m p.spec

/-- The function behind a registration, before `Register` wraps it. -/
def inner (p : Processor) (s : Surroundings) (msgType : Bytes) : Registration → WrappedFn
  | .default =>
      match (defaultHandlers (fun k => { s.env k with app := s.apps s.engineApp }) s.fuel).lookup
        msgType with
      | some handle => runDefault s handle
      | none => fun _ e => ⟨e, [], some (.handler (.noHandler msgType))⟩
  | .plain fn => runBody fn
  | .withFromApp sessionID fn => wrapFromApp s.apps p.app sessionID msgType (runBody fn)

/-- **`Process`**. -/
def process (p : Processor) (s : Surroundings) (m : CodedMessage) (e : Engine) : Processed :=
  match p.validate m with
  | some err =>
      ⟨e, p.app.toList.map fun a =>
          .call a [] (.engine (.onReject m (ascii "Validation failed: " ++ err))),
        some (.validation err)⟩
  | none =>
      let mt := m.fields.getD tagMsgType
      if mt = [] then ⟨e, [], some (.handler .missingMsgType)⟩
      else
        match p.h.lookup mt with
        | some r => wrapFromApp s.apps p.app (p.sessionID e.sessionID) mt (p.inner s mt r) m e
        | none => ⟨e, [], some (.handler (.noHandler mt))⟩

end Processor

/-! ## One callback before the body

The record of what occurs has the callbacks in order, with the body as a mark among them.  A message
reaches the application once if the callback that is due for its type stands first, and no other
that is due comes behind it. -/

/-- What kind of occurrence it is. -/
inductive OccurrenceKind where
  | fromAdmin
  | fromApp
  | onMessage
  | body
  | other
  deriving DecidableEq

/-- The kind of an occurrence. -/
def Occurrence.kind : Occurrence → OccurrenceKind
  | .call _ _ (.engine (.fromAdmin _)) => .fromAdmin
  | .call _ _ (.fromApp _) => .fromApp
  | .call _ _ (.onMessage _) => .onMessage
  | .body => .body
  | .call _ _ (.engine _) => .other

/-- The callback that is due before the body. -/
def dueCallback (admin : Bool) : OccurrenceKind := if admin then .fromAdmin else .fromApp

/-- **A message reaches the application exactly once**: one callback before the body, `OnMessage`
behind an accepted application message alone, and the body only if the callback accepts. -/
structure ReachesOnce (admin accepted : Bool) (kinds : List OccurrenceKind) : Prop where
  once : (kinds.filter fun k => k = .fromAdmin ∨ k = .fromApp) = [dueCallback admin]
  before : ∀ l r, kinds = l ++ .body :: r → dueCallback admin ∈ l
  onMessage : kinds.count .onMessage = if admin = false ∧ accepted = true then 1 else 0
  body : .body ∈ kinds → accepted = true

namespace Processor

/-- The application accepts the message at the callback that is due. -/
def accepts (p : Processor) (s : Surroundings) (m : CodedMessage) : Bool :=
  if isAdminMessageType (m.fields.getD tagMsgType) then
    ((s.apps s.engineApp).fromAdmin m).2.isNone
  else p.app.all fun a => ((s.apps a).fromApp m).2.isNone

/-- **The processor holds the default handlers**, for their types alone, and an application. -/
structure HoldsDefaults (p : Processor) : Prop where
  default : ∀ t ∈ defaultTypes, p.h.lookup t = some .default
  other : ∀ t, p.h.lookup t = some .default → t ∈ defaultTypes
  app : p.app.isSome = true

/-- **The condition on a message**: its type has a default handler; or it is an application type
registered by `Register`, or by `RegisterWithFromApp` and the application rejects the message. -/
def RegisteredOnce (p : Processor) (s : Surroundings) (m : CodedMessage) : Prop :=
  match p.h.lookup (m.fields.getD tagMsgType) with
  | some .default => True
  | some (.plain _) => isAdminMessageType (m.fields.getD tagMsgType) = false
  | some (.withFromApp _ _) =>
      isAdminMessageType (m.fields.getD tagMsgType) = false ∧ p.accepts s m = false
  | none => True

end Processor

/-- The callbacks behind `FromAdmin` are none that is due. -/
theorem kind_calledBack (app : AppId) (sid : Bytes) {calls : List AppCall}
    (h : ∀ c ∈ calls, c.OfHandler) :
    (calledBack app sid calls).map Occurrence.kind = List.replicate calls.length .other := by
  rw [calledBack, List.map_map, List.eq_replicate_iff]
  refine ⟨by rw [List.length_map], fun k hk => ?_⟩
  obtain ⟨c, hc, rfl⟩ := List.mem_map.mp hk
  cases c with
  | toAdmin | toApp | onReject | onLogon | onLogout => rfl
  | onCreate | fromAdmin => cases h _ hc

/-- The callback that is due comes first, and no other behind it. -/
theorem reachesOnce_of_first {admin accepted : Bool} {rest : List OccurrenceKind}
    (honce : ∀ k ∈ rest, k ≠ .fromAdmin ∧ k ≠ .fromApp)
    (honMessage : rest.count .onMessage = if admin = false ∧ accepted = true then 1 else 0)
    (hbody : .body ∈ rest → accepted = true) :
    ReachesOnce admin accepted (dueCallback admin :: rest) := by
  have hdue : dueCallback admin = .fromAdmin ∨ dueCallback admin = .fromApp := by
    cases admin
    · exact Or.inr rfl
    · exact Or.inl rfl
  refine ⟨?_, fun l r h => ?_, ?_, fun h => ?_⟩
  · rw [List.filter_cons_of_pos (by simpa using hdue), List.filter_eq_nil_iff.mpr fun k hk => ?_]
    simpa using honce k hk
  · cases l with
    | nil =>
      have hhead : dueCallback admin = .body := (List.cons.inj h).1
      rw [hhead] at hdue
      rcases hdue with hdue | hdue <;> cases hdue
    | cons k l =>
      rw [(List.cons.inj h).1]
      exact List.mem_cons_self
  · rw [List.count_cons_of_ne (by rcases hdue with h | h <;> rw [h] <;> decide), honMessage]
  · rcases List.mem_cons.mp h with h | h
    · rw [← h] at hdue
      rcases hdue with hdue | hdue <;> cases hdue
    · exact hbody h

/-- A body alone is behind no callback. -/
theorem not_reachesOnce_body {admin accepted : Bool} :
    ¬ ReachesOnce admin accepted [.body] := by
  intro h
  have honce := h.once
  cases honce

/-- A body behind one callback is, or none behind one that rejects. -/
theorem reachesOnce_wrapped (accepted : Bool) : ReachesOnce false accepted
    (if accepted then [.fromApp, .onMessage, .body] else [.fromApp, .other]) := by
  cases accepted with
  | false => exact reachesOnce_of_first (by decide) rfl fun h => by cases List.mem_singleton.mp h
  | true => exact reachesOnce_of_first (by decide) rfl fun _ => rfl

/-- **A default handler is reached once.** -/
theorem reachesOnce_default {s : Surroundings} {handle : Handler} {m : CodedMessage} {e : Engine}
    (hhandle : ∀ m e, ∃ new, (handle m e).engine.calls = e.calls ++ new ∧ ∀ c ∈ new, c.OfHandler) :
    ReachesOnce true ((s.apps s.engineApp).fromAdmin m).2.isNone
      ((runDefault s handle m e).trace.map Occurrence.kind) := by
  unfold runDefault Application.askFromAdmin ask
  cases hask : (s.apps s.engineApp).fromAdmin m with
  | mk m' err =>
    cases err with
    | some err =>
      have hrest : ReachesOnce true false [dueCallback true, .other] :=
        reachesOnce_of_first (by decide) rfl fun h => by cases List.mem_singleton.mp h
      exact hrest
    | none =>
      obtain ⟨new, hcalls, hnew⟩ := hhandle m' (e.record [.fromAdmin m])
      dsimp only
      rw [hcalls, List.drop_left, List.map_append, List.map_cons, kind_calledBack _ _ hnew]
      have hother : ∀ k ∈ OccurrenceKind.body :: List.replicate new.length .other,
          k = .body ∨ k = .other := fun k hk =>
        (List.mem_cons.mp hk).imp id fun hk => List.eq_of_mem_replicate hk
      refine reachesOnce_of_first (fun k hk => ?_) ?_ fun _ => rfl
      · rcases hother k hk with rfl | rfl <;> decide
      · refine (List.count_eq_zero.mpr fun hk => ?_).trans rfl
        rcases hother _ hk with h | h <;> cases h

/-- A handler of an admin type is not wrapped. -/
theorem wrapFromApp_admin {apps : AppId → Application} {app : Option AppId} {sid msgType : Bytes}
    (htype : isAdminMessageType msgType = true) (fn : WrappedFn) (m : CodedMessage) (e : Engine) :
    wrapFromApp apps app sid msgType fn m e = fn m e := if_pos htype

/-- What `Register` does with a handler of an application type. -/
theorem wrapFromApp_app {apps : AppId → Application} {a : AppId} {sid msgType : Bytes}
    (htype : isAdminMessageType msgType = false) (fn : WrappedFn) (m : CodedMessage) (e : Engine) :
    (wrapFromApp apps (some a) sid msgType fn m e).trace.map Occurrence.kind
      = if ((apps a).fromApp m).2.isNone then
          .fromApp :: .onMessage :: (fn ((apps a).fromApp m).1 e).trace.map Occurrence.kind
        else [.fromApp, .other] := by
  rw [wrapFromApp, if_neg (by rw [htype]; decide)]
  cases (apps a).fromApp m with
  | mk m' err => cases err <;> rfl

namespace Processor

variable {p : Processor} {s : Surroundings} {m : CodedMessage}

/-- What `Process` does with a valid message whose type has a handler. -/
theorem process_of_lookup {r : Registration} (hvalid : p.validate m = none)
    (htype : m.fields.getD tagMsgType ≠ [])
    (hr : p.h.lookup (m.fields.getD tagMsgType) = some r) (e : Engine) :
    p.process s m e = wrapFromApp s.apps p.app (p.sessionID e.sessionID)
      (m.fields.getD tagMsgType) (p.inner s (m.fields.getD tagMsgType) r) m e := by
  rw [process, hvalid]
  dsimp only
  rw [if_neg htype, hr]

/-- The types of the default handlers are admin types, and each has its handler. -/
theorem lookup_defaultHandlers {t : Bytes} (ht : t ∈ defaultTypes) (env : ℕ → Env) (fuel : ℕ) :
    isAdminMessageType t = true
      ∧ ∃ handle, (t, handle) ∈ defaultHandlers env fuel
        ∧ (defaultHandlers env fuel).lookup t = some handle := by
  simp only [defaultTypes, List.mem_cons, List.not_mem_nil, or_false] at ht
  rcases ht with rfl | rfl | rfl | rfl | rfl | rfl
  all_goals exact ⟨by decide, _, by simp [defaultHandlers], rfl⟩

theorem lookup_defaultHandlers_none {t : Bytes} (ht : t ∉ defaultTypes) {env : ℕ → Env}
    {fuel : ℕ} : (defaultHandlers env fuel).lookup t = none := by
  rw [List.lookup_eq_none_iff]
  intro q hq
  have hmem : q.1 ∈ defaultTypes := List.mem_map_of_mem (f := Prod.fst) hq
  exact bne_iff_ne.mpr fun heq => ht (heq ▸ hmem)

/-- **A message of an admin type** reaches the application once by its default handler alone. -/
theorem reachesOnce_admin_iff (hp : p.HoldsDefaults)
    (hadmin : isAdminMessageType (m.fields.getD tagMsgType) = true) {r : Registration}
    (hr : p.h.lookup (m.fields.getD tagMsgType) = some r) (e : Engine) :
    ReachesOnce true (p.accepts s m)
      ((p.inner s (m.fields.getD tagMsgType) r m e).trace.map Occurrence.kind) ↔ r = .default := by
  cases r with
  | default =>
    obtain ⟨-, handle, hmem, hlookup⟩ := lookup_defaultHandlers (hp.other _ hr)
      (fun k => { s.env k with app := s.apps s.engineApp }) s.fuel
    refine iff_of_true ?_ rfl
    rw [inner, hlookup, accepts, if_pos hadmin]
    exact reachesOnce_default (calls_defaultHandlers _ _ _ hmem)
  | plain fn => exact iff_of_false not_reachesOnce_body fun h => by cases h
  | withFromApp sid fn =>
    unfold inner
    dsimp only
    rw [wrapFromApp_admin hadmin]
    exact iff_of_false not_reachesOnce_body fun h => by cases h

/-- **A message of an application type** does not, if its handler has been wrapped twice and the
application accepts.  The inner wrapping asks `FromApp` again, whatever it answers. -/
theorem reachesOnce_app_iff (hp : p.HoldsDefaults)
    (hadmin : isAdminMessageType (m.fields.getD tagMsgType) = false) {a : AppId}
    (happ : p.app = some a) {r : Registration}
    (hr : p.h.lookup (m.fields.getD tagMsgType) = some r) (sid : Bytes) (e : Engine) :
    ReachesOnce false ((s.apps a).fromApp m).2.isNone
      ((wrapFromApp s.apps (some a) sid (m.fields.getD tagMsgType)
        (p.inner s (m.fields.getD tagMsgType) r) m e).trace.map Occurrence.kind)
      ↔ ∀ sid' fn, r = .withFromApp sid' fn → ((s.apps a).fromApp m).2.isNone = false := by
  rw [wrapFromApp_app hadmin]
  cases r with
  | default =>
    obtain ⟨htrue, -⟩ := lookup_defaultHandlers (hp.other _ hr) s.env s.fuel
    rw [hadmin] at htrue
    cases htrue
  | plain fn => exact iff_of_true (reachesOnce_wrapped _) fun _ _ h => by cases h
  | withFromApp sid' fn =>
    cases haccept : ((s.apps a).fromApp m).2.isNone with
    | false => exact iff_of_true (reachesOnce_wrapped false) fun _ _ _ => rfl
    | true =>
      refine iff_of_false (fun h => ?_) fun h => by cases h sid' fn rfl
      have htwice : ∃ rest, (p.inner s (m.fields.getD tagMsgType) (.withFromApp sid' fn)
          ((s.apps a).fromApp m).1 e).trace.map Occurrence.kind = .fromApp :: rest := by
        rw [inner, happ, wrapFromApp_app hadmin]
        split <;> exact ⟨_, rfl⟩
      obtain ⟨rest, hrest⟩ := htwice
      have honce := h.once
      rw [hrest, if_pos rfl] at honce
      cases honce

/-- **Each inbound message reaches the application exactly once, exactly if** its handler has been
registered so. -/
theorem reachesOnce_iff (hp : p.HoldsDefaults) (hvalid : p.validate m = none)
    (htype : m.fields.getD tagMsgType ≠ []) {r : Registration}
    (hr : p.h.lookup (m.fields.getD tagMsgType) = some r) (e : Engine) :
    ReachesOnce (isAdminMessageType (m.fields.getD tagMsgType)) (p.accepts s m)
      ((p.process s m e).trace.map Occurrence.kind) ↔ p.RegisteredOnce s m := by
  obtain ⟨a, happ⟩ := Option.isSome_iff_exists.mp hp.app
  rw [process_of_lookup hvalid htype hr, RegisteredOnce, hr, happ]
  cases hadmin : isAdminMessageType (m.fields.getD tagMsgType) with
  | true =>
    rw [wrapFromApp_admin hadmin, reachesOnce_admin_iff hp hadmin hr]
    cases r with
    | default | plain | withFromApp => simp
  | false =>
    have haccepts : p.accepts s m = ((s.apps a).fromApp m).2.isNone := by
      rw [accepts, if_neg (by rw [hadmin]; decide), happ, Option.all_some]
    rw [haccepts, reachesOnce_app_iff hp hadmin happ hr]
    cases r with
    | default | plain | withFromApp => simp

/-! ## Processors that hold the default handlers

That condition is one on the state of the processor.  `SetupComponents` establishes it, and handlers
for other types leave it. -/

theorem lookup_put (p : Processor) (t u : Bytes) (r : Registration) :
    (p.put t r).h.lookup u = if u = t then some r else p.h.lookup u := by
  rw [put, List.lookup_cons]
  by_cases h : u = t
  · rw [if_pos h, h, beq_self_eq_true]
  · rw [if_neg h, beq_false_of_ne h]

theorem registerDefaultHandlers_spec (p : Processor) :
    p.registerDefaultHandlers.app = p.app ∧ ∀ u, p.registerDefaultHandlers.h.lookup u
      = if u ∈ defaultTypes then some .default else p.h.lookup u := by
  suffices hfold : ∀ (ts : List Bytes) (p : Processor),
      (ts.foldl (fun p msgType => p.put msgType .default) p).app = p.app
        ∧ ∀ u, (ts.foldl (fun p msgType => p.put msgType .default) p).h.lookup u
          = if u ∈ ts then some .default else p.h.lookup u from hfold defaultTypes p
  intro ts
  induction ts with
  | nil => exact fun p => ⟨rfl, fun u => rfl⟩
  | cons t ts ih =>
    intro p
    refine ⟨(ih _).1, fun u => ?_⟩
    rw [List.foldl_cons, (ih _).2, lookup_put]
    by_cases hts : u ∈ ts
    · rw [if_pos hts, if_pos (List.mem_cons_of_mem _ hts)]
    · by_cases hut : u = t <;> simp [hts, hut]

/-- **`SetupComponents` makes a processor that holds the default handlers**, unless it held one of
them for another type. -/
theorem holdsDefaults_registerDefaultHandlers
    (hother : ∀ t, p.h.lookup t = some .default → t ∈ defaultTypes) (happ : p.app.isSome = true) :
    p.registerDefaultHandlers.HoldsDefaults := by
  obtain ⟨hsame, hlookup⟩ := p.registerDefaultHandlers_spec
  refine ⟨fun t ht => ?_, fun t ht => ?_, ?_⟩
  · rw [hlookup, if_pos ht]
  · rw [hlookup] at ht
    split at ht
    · assumption
    · exact hother t ht
  · rw [hsame, happ]

/-- **It goes on holding them** where handlers are added for other types. -/
theorem HoldsDefaults.put (h : p.HoldsDefaults) {t : Bytes} (ht : t ∉ defaultTypes)
    {r : Registration} (hr : r ≠ .default) : (p.put t r).HoldsDefaults := by
  refine ⟨fun u hu => ?_, fun u hu => ?_, h.app⟩
  · have hut : u ≠ t := by
      rintro rfl
      exact ht hu
    rw [lookup_put, if_neg hut]
    exact h.default u hu
  · rw [lookup_put] at hu
    split at hu
    · exact absurd (Option.some.inj hu) hr
    · exact h.other u hu

/-- `NewProcessor`, set up for an application. -/
def setUp (app : AppId) : Processor := (new.setApplication app).registerDefaultHandlers

theorem holdsDefaults_setUp (app : AppId) : (setUp app).HoldsDefaults :=
  holdsDefaults_registerDefaultHandlers (fun _ h => by cases h) rfl

/-- The environments of the default handlers, with the application of the engine. -/
def envs (s : Surroundings) (k : ℕ) : Env := { s.env k with app := s.apps s.engineApp }

/-- **With the default handlers alone, `Process` does what `FixMsg.process` says.** -/
theorem process_setUp (app : AppId) (s : Surroundings) (m : CodedMessage) (e : Engine) :
    ((setUp app).process s m e).engine = (FixMsg.process (envs s) s.fuel m e).engine
      ∧ ((setUp app).process s m e).error
        = (FixMsg.process (envs s) s.fuel m e).error.map .handler := by
  have hholds := holdsDefaults_setUp app
  unfold FixMsg.process
  dsimp only
  by_cases htype : m.fields.getD tagMsgType = []
  · rw [if_pos htype, process, show (setUp app).validate m = none from rfl]
    dsimp only
    rw [if_pos htype]
    exact ⟨rfl, rfl⟩
  rw [if_neg htype]
  by_cases hdefault : m.fields.getD tagMsgType ∈ defaultTypes
  · obtain ⟨hadmin, handle, -, hlookup⟩ := lookup_defaultHandlers hdefault (envs s) s.fuel
    have hinner : (setUp app).inner s (m.fields.getD tagMsgType) .default = runDefault s handle := by
      unfold inner
      dsimp only
      rw [show (defaultHandlers (fun k => { s.env k with app := s.apps s.engineApp }) s.fuel).lookup
        (m.fields.getD tagMsgType) = some handle from hlookup]
    rw [process_of_lookup rfl htype (hholds.default _ hdefault), wrapFromApp_admin hadmin, hinner,
      hlookup]
    unfold runDefault withFromAdmin
    dsimp only [envs]
    cases ((s.apps s.engineApp).askFromAdmin m).2 with
    | error err => exact ⟨rfl, rfl⟩
    | ok m' => exact ⟨rfl, rfl⟩
  · have hnone : (setUp app).h.lookup (m.fields.getD tagMsgType) = none := by
      rw [setUp, (registerDefaultHandlers_spec _).2, if_neg hdefault]
      rfl
    rw [process, show (setUp app).validate m = none from rfl]
    dsimp only
    rw [if_neg htype, hnone, lookup_defaultHandlers_none hdefault]
    exact ⟨rfl, rfl⟩

end Processor

/-- An application message. -/
def execReport : CodedMessage where
  fields := [(8, .str (ascii "FIX.4.4")), (35, .str (ascii "8"))]
  wf := by decide
  codec := none

/-- A handler that does nothing. -/
def ignore : HandlerFn := fun _ e => (e, none)

/-- An engine without sessions or numbers. -/
def idleEngine : Engine where
  senderCompID := ascii "S"
  targetCompID := ascii "T"
  sessionID := ascii "session"
  seqMgr := .new .ok none (ascii "default")
  sm := .disconnected
  link := .absent
  sent := []
  calls := []

/-- Applications that accept every message. -/
def accepting : Surroundings := ⟨fun _ => noOpApplication, 0, fun _ => Outbound.calm, 1⟩

namespace Processor

/-- **A handler added by `Register`.** -/
theorem reachesOnce_register :
    ReachesOnce false true ((((setUp 0).register (ascii "8") ignore).process accepting execReport
      idleEngine).trace.map Occurrence.kind) := by
  have hholds : ((setUp 0).register (ascii "8") ignore).HoldsDefaults :=
    (holdsDefaults_setUp 0).put (by decide) (by rintro ⟨⟩)
  have hadmin : isAdminMessageType (execReport.fields.getD tagMsgType) = false := by decide
  exact (reachesOnce_iff (r := .plain ignore) (m := execReport) (s := accepting) hholds rfl
    (by decide) rfl idleEngine).mpr hadmin

/-- **One added by `RegisterWithFromApp`**: `FromApp` and `OnMessage` are called twice. -/
theorem fromApp_twice :
    ((setUp 0).registerWithFromApp (ascii "8") (ascii "session") ignore).HoldsDefaults
      ∧ ¬ ReachesOnce false true ((((setUp 0).registerWithFromApp (ascii "8") (ascii "session")
        ignore).process accepting execReport idleEngine).trace.map Occurrence.kind) := by
  refine ⟨(holdsDefaults_setUp 0).put (by decide) (by rintro ⟨⟩), fun h => ?_⟩
  have honMessage := h.onMessage
  cases honMessage

end Processor

end FixMsg
