import GoFixMsg.Handler.Processor

/-!
# Handler/Rejected — a rejected message changes nothing

A message may be rejected by the validation function, by `FromAdmin` in a default handler, or by
`FromApp` in either of two wrappers, the second of them behind an `OnMessage`.  Each check comes
before anything its handler does, so `Process` then returns the error, has told `OnReject` once, and
leaves the engine as it was (`rejected_changes_nothing`).

An application may remember what it has been told, and answer the second `FromApp` otherwise than
the first; it may change the message in `OnMessage` too.
-/

open GoLang

namespace FixMsg

/-- **An application with a memory**: its answers, and what `OnMessage` makes of a message, may
depend on what has occurred since the message came in. -/
structure StatefulApp where
  answers : List Occurrence → Application
  onMessage : List Occurrence → CodedMessage → CodedMessage

/-- What a message meets among such applications.  The validation function may change it, and the
handlers meet an application that may answer each reply in its own way. -/
structure StatefulSurroundings where
  apps : AppId → StatefulApp
  engineApp : AppId
  checked : CodedMessage → CodedMessage
  env : ℕ → Env
  fuel : ℕ

/-- Applications that remember nothing, and change messages only where they answer. -/
def Surroundings.stateful (s : Surroundings) : StatefulSurroundings where
  apps a := ⟨fun _ => s.apps a, fun _ m => m⟩
  engineApp := s.engineApp
  checked m := m
  env := Processor.envs s
  fuel := s.fuel

/-- The surroundings, behind what has occurred. -/
def StatefulSurroundings.behind (s : StatefulSurroundings) (told : List Occurrence) :
    Surroundings :=
  ⟨fun a => (s.apps a).answers told, s.engineApp, s.env, s.fuel⟩

/-- `FromApp` before a handler of an application type, and `OnMessage` where it accepts. -/
def statefulWrap (apps : AppId → StatefulApp) (app : Option AppId) (sessionID msgType : Bytes)
    (fn : List Occurrence → WrappedFn) (told : List Occurrence) : WrappedFn := fun m e =>
  if isAdminMessageType msgType then fn told m e
  else
    match app with
    | none => fn told m e
    | some a =>
        match ((apps a).answers told).fromApp m with
        | (m', some err) =>
            ⟨e, [.call a sessionID (.fromApp m),
              .call a sessionID (.engine (.onReject m' (ascii "FromApp rejected: " ++ err)))],
              some (.failed err)⟩
        | (m', none) =>
            let asked := [.call a sessionID (.fromApp m), .call a sessionID (.onMessage m')]
            let r := fn (told ++ asked) ((apps a).onMessage told m') e
            { r with trace := asked ++ r.trace }

namespace Processor

/-- The function behind a registration, before `Register` wraps it. -/
def statefulInner (p : Processor) (s : StatefulSurroundings) (msgType : Bytes) :
    Registration → List Occurrence → WrappedFn
  | .default, told =>
      match (defaultHandlers s.env s.fuel).lookup msgType with
      | some handle => runDefault (s.behind told) handle
      | none => fun _ e => ⟨e, [], some (.handler (.noHandler msgType))⟩
  | .plain fn, _ => runBody fn
  | .withFromApp sessionID fn, told =>
      statefulWrap s.apps p.app sessionID msgType (fun _ => runBody fn) told

/-- **`Process`**, among applications with a memory. -/
def statefulProcess (p : Processor) (s : StatefulSurroundings) (m : CodedMessage) (e : Engine) :
    Processed :=
  match p.validate m with
  | some err =>
      ⟨e, p.app.toList.map fun a =>
          .call a [] (.engine (.onReject (s.checked m) (ascii "Validation failed: " ++ err))),
        some (.validation err)⟩
  | none =>
      let mt := (s.checked m).fields.getD tagMsgType
      if mt = [] then ⟨e, [], some (.handler .missingMsgType)⟩
      else
        match p.h.lookup mt with
        | some r =>
            statefulWrap s.apps p.app (p.sessionID e.sessionID) mt (p.statefulInner s mt r) []
              (s.checked m) e
        | none => ⟨e, [], some (.handler (.noHandler mt))⟩

end Processor

/-- **Among applications that remember nothing it is `Process`.** -/
theorem Processor.statefulProcess_stateful (p : Processor) (s : Surroundings) (m : CodedMessage)
    (e : Engine) : p.statefulProcess s.stateful m e = p.process s m e := by
  have hinner : ∀ mt r, p.statefulInner s.stateful mt r = fun _ => p.inner s mt r := by
    intro mt r
    funext told
    cases r with
    | default | plain | withFromApp => rfl
  rw [statefulProcess, process, show s.stateful.checked m = m from rfl]
  cases p.validate m with
  | some err => rfl
  | none =>
    refine if_congr Iff.rfl rfl ?_
    cases p.h.lookup (m.fields.getD tagMsgType) with
    | none => rfl
    | some r =>
      dsimp only
      rw [hinner]
      rfl

/-! ## Nothing changes

A handler is careful if it changes nothing where a callback has rejected the message.  Wrapping
keeps that, so it holds of whatever has been registered, and in whatever way. -/

/-- The application rejects the message it is asked about, behind what has occurred. -/
def Occurrence.RejectedBy (apps : AppId → StatefulApp) (told : List Occurrence) :
    Occurrence → Prop
  | .call a _ (.engine (.fromAdmin m)) => (((apps a).answers told).fromAdmin m).2.isSome
  | .call a _ (.fromApp m) => (((apps a).answers told).fromApp m).2.isSome
  | .call _ _ (.engine _) | .call _ _ (.onMessage _) | .body => False

/-- **`FromAdmin` or `FromApp` returned an error**, at some place of what occurred. -/
def RejectedAmong (apps : AppId → StatefulApp) (told : List Occurrence) : List Occurrence → Prop
  | [] => False
  | o :: rest => o.RejectedBy apps told ∨ RejectedAmong apps (told ++ [o]) rest

/-- `OnReject` is told. -/
def Occurrence.isOnReject : Occurrence → Bool
  | .call _ _ (.engine (.onReject _ _)) => true
  | .call _ _ _ | .body => false

/-- **A message changes nothing**: there is an error, `OnReject` is told once, the body of the
handler does not run, and the engine is as before, but for the record of the callbacks it made: so
are the state machine, the numbers in memory and in the store, and the queue. -/
structure ChangesNothing (e : Engine) (r : Processed) : Prop where
  error : r.error.isSome = true
  told : r.trace.countP Occurrence.isOnReject = 1
  notRun : Occurrence.body ∉ r.trace
  kept : { r.engine with calls := e.calls } = e

/-- A handler that changes nothing where a callback rejects the message. -/
def Careful (apps : AppId → StatefulApp) (fn : List Occurrence → WrappedFn) : Prop :=
  ∀ told m e, RejectedAmong apps told (fn told m e).trace → ChangesNothing e (fn told m e)

variable {apps : AppId → StatefulApp} {told : List Occurrence}

theorem not_rejectedAmong {trace : List Occurrence}
    (h : ∀ o ∈ trace, ∀ told, ¬ o.RejectedBy apps told) : ¬ RejectedAmong apps told trace := by
  induction trace generalizing told with
  | nil => exact id
  | cons o rest ih =>
    rw [List.forall_mem_cons] at h
    exact fun hrejected => hrejected.elim (h.1 told) (ih h.2)

/-- What a handler calls behind `FromAdmin` rejects nothing. -/
theorem not_rejectedBy_ofHandler {c : AppCall} (h : c.OfHandler) (a : AppId) (sid : Bytes) :
    ¬ (Occurrence.call a sid (.engine c)).RejectedBy apps told := by
  cases c with
  | toAdmin | toApp | onReject | onLogon | onLogout => exact id
  | onCreate | fromAdmin => cases h

/-- The body of a handler is behind the checks. -/
theorem careful_runBody (fn : HandlerFn) : Careful apps fun _ => runBody fn :=
  fun _ _ _ h => h.elim False.elim False.elim

/-- **A default handler asks before it acts.**  Behind a `FromAdmin` that has accepted, nothing
rejects. -/
theorem careful_runDefault (s : StatefulSurroundings) {handle : Handler}
    (hhandle : ∀ m e, ∃ new, (handle m e).engine.calls = e.calls ++ new ∧ ∀ c ∈ new, c.OfHandler) :
    Careful s.apps fun told => runDefault (s.behind told) handle := by
  intro told m e
  unfold runDefault Application.askFromAdmin ask
  cases hasked : ((s.behind told).apps s.engineApp).fromAdmin m with
  | mk m' answer =>
    have hasked' : ((s.apps s.engineApp).answers told).fromAdmin m = (m', answer) := hasked
    cases answer with
    | some err =>
      intro _
      dsimp only [StatefulSurroundings.behind]
      rw [hasked']
      exact ⟨rfl, rfl, by simp [calledBack], rfl⟩
    | none =>
      intro h
      refine absurd h ?_
      obtain ⟨new, hcalls, hnew⟩ := hhandle m' (e.record [.fromAdmin m])
      dsimp only [StatefulSurroundings.behind]
      rw [hasked']
      dsimp only
      rw [hcalls, List.drop_left]
      rintro (hrejected | hrejected | hrejected)
      · rw [Occurrence.RejectedBy, hasked'] at hrejected
        cases hrejected
      · exact hrejected
      · refine not_rejectedAmong (fun o ho told' => ?_) hrejected
        obtain ⟨c, hc, rfl⟩ := List.mem_map.mp ho
        exact not_rejectedBy_ofHandler (hnew c hc) _ _

/-- **A wrapper asks before it calls the handler**, and a handler behind it that is careful makes a
careful one. -/
theorem Careful.wrap {fn : List Occurrence → WrappedFn} (h : Careful apps fn) (app : Option AppId)
    (sid msgType : Bytes) : Careful apps (statefulWrap apps app sid msgType fn) := by
  intro told m e
  unfold statefulWrap
  split
  · exact h told m e
  cases app with
  | none => exact h told m e
  | some a =>
    dsimp only
    cases hasked : ((apps a).answers told).fromApp m with
    | mk m' answer =>
      cases answer with
      | some err => exact fun _ => ⟨rfl, rfl, by simp, rfl⟩
      | none =>
        rintro (hrejected | hrejected | hrejected)
        · rw [Occurrence.RejectedBy, hasked] at hrejected
          cases hrejected
        · exact hrejected.elim
        · rw [List.append_assoc] at hrejected
          obtain ⟨herror, htold, hnotRun, hkept⟩ := h _ _ _ hrejected
          refine ⟨herror, htold, fun hbody => hnotRun ?_, hkept⟩
          simpa using hbody

namespace Processor

/-- **Whatever has been registered is careful.** -/
theorem careful_statefulInner (p : Processor) (s : StatefulSurroundings) (msgType : Bytes)
    (r : Registration) : Careful s.apps (p.statefulInner s msgType r) := by
  cases r with
  | plain fn => exact careful_runBody fn
  | withFromApp sid fn => exact (careful_runBody fn).wrap p.app sid msgType
  | default =>
    unfold statefulInner
    dsimp only
    by_cases hdefault : msgType ∈ defaultTypes
    · obtain ⟨-, handle, hmem, hlookup⟩ := lookup_defaultHandlers hdefault s.env s.fuel
      rw [hlookup]
      exact careful_runDefault s (calls_defaultHandlers _ _ _ hmem)
    · rw [lookup_defaultHandlers_none hdefault]
      exact fun _ _ _ => False.elim

/-- **A rejected message changes nothing**: whichever check rejects it, whatever its type and
however its handler has been registered.  `SetupComponents` gives the processor its application. -/
theorem rejected_changes_nothing (p : Processor) (s : StatefulSurroundings) (m : CodedMessage)
    (e : Engine) (happ : p.app.isSome)
    (h : (p.validate m).isSome ∨ RejectedAmong s.apps [] (p.statefulProcess s m e).trace) :
    ChangesNothing e (p.statefulProcess s m e) := by
  obtain ⟨a, ha⟩ := Option.isSome_iff_exists.mp happ
  revert h
  unfold statefulProcess
  cases p.validate m with
  | some err =>
    intro _
    rw [ha]
    exact ⟨rfl, rfl, by simp, rfl⟩
  | none =>
    intro h
    have hrejected := h.resolve_left Bool.false_ne_true
    revert hrejected
    dsimp only
    split
    · exact False.elim
    · cases p.h.lookup ((s.checked m).fields.getD tagMsgType) with
      | none => exact False.elim
      | some r => exact (p.careful_statefulInner s _ r).wrap _ _ _ _ _ _

/-- An application that rejects at the second `FromApp` what it has accepted at the first. -/
def secondThoughts : StatefulSurroundings :=
  { accepting.stateful with
    apps := fun _ =>
      ⟨fun told => { noOpApplication with
          fromApp := fun m => (m, if told.isEmpty then none else some (ascii "no")) },
        fun _ m => m⟩ }

/-- The second of two wrappers may be the one that rejects. -/
theorem rejected_changes_nothing_secondThoughts :
    ChangesNothing idleEngine
      (((setUp 0).registerWithFromApp (ascii "8") (ascii "session") ignore).statefulProcess
        secondThoughts execReport idleEngine) :=
  rejected_changes_nothing _ secondThoughts execReport idleEngine rfl
    (Or.inr (Or.inr (Or.inr (Or.inl rfl))))

end Processor

end FixMsg
