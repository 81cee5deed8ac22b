import GoFixMsg.Engine.Lifecycle

/-!
# Engine/OneSession — at most one session is wired

`AttachSession` puts a session in the place of the one the engine holds without stopping it.  So the
sessions that run are the one the engine holds, and no other, exactly as long as `AttachSession`
gets to `attachMu` only when that one has been stopped (`oneAtATime_iff`).

That a session is closed is not enough.  A session that aborts is marked closed at once, by either
of its loops; the read loop goes on handing over the frames it has cut off, and feeds handlers and
numbers for as long as it does.  `Stop` waits for both loops, and so does `DetachSession`.  So the
loops that run are counted here, beside what `Lifecycle` keeps of a session.
-/

namespace FixMsg

/-- An engine with the loops of its sessions, as far as they have not come to an end. -/
structure LoopedEngine where
  engine : Lifecycle
  readLoops : ℕ → ℕ
  writeLoops : ℕ → ℕ

/-- A step of the engine and its callers, or the end of a loop. -/
inductive LoopedAction where
  | engine (a : LifecycleAction)
  | readLoopEnds (s : ℕ)
  | writeLoopEnds (s : ℕ)

namespace LoopedEngine

/-- `NewFixEngine`. -/
def new (initiator enableReconnect : Bool) : LoopedEngine :=
  ⟨.new initiator enableReconnect, fun _ => 0, fun _ => 0⟩

/-- The session a step attaches. -/
def attaches (x : LoopedEngine) : LoopedAction → Option ℕ
  | .engine a => x.engine.attaches a
  | .readLoopEnds _ | .writeLoopEnds _ => none

/-- A step detaches the session the engine holds, if it holds one. -/
def detaches : LoopedAction → Bool
  | .engine a => Lifecycle.detaches a
  | .readLoopEnds _ | .writeLoopEnds _ => false

/-- **What becomes of the loops of one kind**: `AttachSession` starts one, and `DetachSession` returns
when `Stop` has waited for all of its session. -/
def loopsBehind (x : LoopedEngine) (a : LifecycleAction) (loops : ℕ → ℕ) : ℕ → ℕ :=
  match x.engine.attaches a with
  | some s => Function.update loops s (loops s + 1)
  | none =>
      match x.engine.session with
      | some s => if Lifecycle.detaches a = true then Function.update loops s 0 else loops
      | none => loops

/-- One step.  A loop that returns aborts its session before it is done. -/
def step (x : LoopedEngine) : LoopedAction → Option LoopedEngine
  | .engine a => (x.engine.step a).map fun e =>
      ⟨e, x.loopsBehind a x.readLoops, x.loopsBehind a x.writeLoops⟩
  | .readLoopEnds s =>
      if 0 < x.readLoops s ∧ (x.engine.sessions s).closed = true then
        some { x with readLoops := Function.update x.readLoops s (x.readLoops s - 1) }
      else none
  | .writeLoopEnds s =>
      if 0 < x.writeLoops s ∧ (x.engine.sessions s).closed = true then
        some { x with writeLoops := Function.update x.writeLoops s (x.writeLoops s - 1) }
      else none

/-! ## What is asked of a run

A session is stopped when `Stop` on it would return at once: it is closed, and none of its loops
runs.  Before that it may still answer its peer, and as long as its read loop runs it feeds the
handlers and the numbers of the engine. -/

/-- A session has been stopped. -/
def Stopped (x : LoopedEngine) (s : ℕ) : Prop :=
  (x.engine.sessions s).closed = true ∧ x.readLoops s = 0 ∧ x.writeLoops s = 0

instance (x : LoopedEngine) (s : ℕ) : Decidable (x.Stopped s) :=
  inferInstanceAs (Decidable (_ ∧ _ ∧ _))

/-- A session has been started, and not been stopped. -/
def Running (x : LoopedEngine) (s : ℕ) : Prop :=
  (x.engine.sessions s).Live ∨ 0 < x.readLoops s ∨ 0 < x.writeLoops s

/-- Every session that has been started and not been stopped is the one the engine holds. -/
def AtMostOneWired (x : LoopedEngine) : Prop := ∀ s, x.Running s → x.engine.session = some s

/-- No two sessions feed the handlers. -/
def FeedsAlone (x : LoopedEngine) : Prop :=
  ∀ s t, 0 < x.readLoops s → 0 < x.readLoops t → s = t

/-- The session the engine holds is replaced or dropped only when it has been stopped. -/
def StopsFirst (x x' : LoopedEngine) : Prop :=
  ∀ s, x.engine.session = some s → x'.engine.session ≠ some s → x'.Stopped s

/-- **Two sessions are never wired**, from one state on: neither there, nor behind any step of a
run. -/
def OneAtATime (x : LoopedEngine) (as : List LoopedAction) : Prop :=
  x.AtMostOneWired ∧ x.FeedsAlone ∧ Runs.Meets step
    (fun x a => ∀ x', x.step a = some x' → x'.AtMostOneWired ∧ x'.FeedsAlone ∧ x.StopsFirst x') x as

/-- **The condition on a step**: whoever gets to attach a session finds none, or one that has been
stopped, or the same. -/
def AttachesAlone (x : LoopedEngine) (a : LoopedAction) : Prop :=
  ∀ s ∈ x.attaches a, ∀ t ∈ x.engine.session, t ≠ s → x.Stopped t

instance (x : LoopedEngine) (a : LoopedAction) : Decidable (x.AttachesAlone a) :=
  inferInstanceAs (Decidable (∀ s ∈ x.attaches a, ∀ t ∈ x.engine.session, t ≠ s → x.Stopped t))

variable {x x' : LoopedEngine} {a : LoopedAction} {s : ℕ}

/-- Where the sessions that run are one, so are those that feed. -/
theorem AtMostOneWired.feedsAlone (h : x.AtMostOneWired) : x.FeedsAlone := fun s t hs ht =>
  Option.some.inj ((h s (Or.inr (Or.inl hs))).symm.trans (h t (Or.inr (Or.inl ht))))

/-! ## One step -/

/-- A step of the engine takes the engine with it. -/
theorem step_engine {a : LifecycleAction} (hstep : x.step (.engine a) = some x') :
    x.engine.step a = some x'.engine ∧ x'.readLoops = x.loopsBehind a x.readLoops
      ∧ x'.writeLoops = x.loopsBehind a x.writeLoops := by
  obtain ⟨e, he, rfl⟩ := Option.map_eq_some_iff.mp hstep
  exact ⟨he, rfl, rfl⟩

/-- Behind an attachment one loop more of its session runs, and as many of the others. -/
theorem loopsBehind_attach {a : LifecycleAction} (h : x.engine.attaches a = some s)
    (loops : ℕ → ℕ) : x.loopsBehind a loops = Function.update loops s (loops s + 1) := by
  rw [loopsBehind, h]

/-- Behind a step that attaches none, a loop that runs ran before, and its session is not one that is
detached. -/
theorem loopsBehind_pos {a : LifecycleAction} (h : x.engine.attaches a = none) {loops : ℕ → ℕ}
    (hpos : 0 < x.loopsBehind a loops s) :
    0 < loops s ∧ (Lifecycle.detaches a = true → x.engine.session ≠ some s) := by
  rw [loopsBehind, h] at hpos
  cases hsession : x.engine.session with
  | none =>
    rw [hsession] at hpos
    exact ⟨hpos, fun _ => nofun⟩
  | some t =>
    rw [hsession] at hpos
    dsimp only at hpos
    by_cases hdet : Lifecycle.detaches a = true
    · rw [if_pos hdet] at hpos
      by_cases hst : s = t
      · rw [hst, Function.update_self] at hpos
        exact absurd hpos (Nat.lt_irrefl 0)
      · rw [Function.update_of_ne hst] at hpos
        exact ⟨hpos, fun _ heq => hst (Option.some.inj heq).symm⟩
    · rw [if_neg hdet] at hpos
      exact ⟨hpos, fun hdet' => absurd hdet' hdet⟩

/-- Behind a step that detaches, no loop of the session the engine held runs. -/
theorem loopsBehind_detach {a : LifecycleAction} (hdet : Lifecycle.detaches a = true)
    (hs : x.engine.session = some s) (loops : ℕ → ℕ) : x.loopsBehind a loops s = 0 := by
  rw [loopsBehind, Lifecycle.attaches_of_detaches _ hdet, hs]
  dsimp only
  rw [if_pos hdet, Function.update_self]

/-- Where a loop has come to its end, the ones that run ran before. -/
theorem loops_pos_of_ends {loops : ℕ → ℕ} {t : ℕ}
    (h : 0 < Function.update loops t (loops t - 1) s) : 0 < loops s := by
  rw [Function.update_apply] at h
  split at h
  · next hst =>
    rw [hst]
    omega
  · exact h

/-- A session that runs behind a step is attached by it, or ran before and is not detached by it. -/
theorem running_step (hstep : x.step a = some x') (h : x'.Running s) :
    x.attaches a = some s ∨ x.Running s ∧ (detaches a = true → x.engine.session ≠ some s) := by
  cases a with
  | engine a =>
    obtain ⟨hengine, hread, hwrite⟩ := step_engine hstep
    cases hatt : x.engine.attaches a with
    | some t =>
      by_cases hts : s = t
      · exact Or.inl (hatt.trans (congrArg some hts.symm))
      · rw [Running, Lifecycle.sessions_attach hatt hengine, if_neg hts, hread, hwrite,
          loopsBehind_attach hatt, loopsBehind_attach hatt, Function.update_of_ne hts,
          Function.update_of_ne hts] at h
        refine Or.inr ⟨h, fun hdet => ?_⟩
        rw [Lifecycle.attaches_of_detaches _ hdet] at hatt
        cases hatt
    | none =>
      rw [Running, hread, hwrite] at h
      refine Or.inr ?_
      rcases h with hlive | hpos | hpos
      · rcases Lifecycle.live_step hengine hlive with hs | ⟨hbefore, hdet⟩
        · rw [hatt] at hs
          cases hs
        · exact ⟨Or.inl hbefore, hdet⟩
      · obtain ⟨hbefore, hdet⟩ := loopsBehind_pos hatt hpos
        exact ⟨Or.inr (Or.inl hbefore), hdet⟩
      · obtain ⟨hbefore, hdet⟩ := loopsBehind_pos hatt hpos
        exact ⟨Or.inr (Or.inr hbefore), hdet⟩
  | readLoopEnds t =>
    obtain ⟨-, rfl⟩ := Runs.of_guarded hstep
    exact Or.inr ⟨h.imp id (Or.imp loops_pos_of_ends id), nofun⟩
  | writeLoopEnds t =>
    obtain ⟨-, rfl⟩ := Runs.of_guarded hstep
    exact Or.inr ⟨h.imp id (Or.imp id loops_pos_of_ends), nofun⟩

/-- The session that is attached is the one the engine holds. -/
theorem session_attach (hatt : x.attaches a = some s) (hstep : x.step a = some x') :
    x'.engine.session = some s := by
  cases a with
  | engine a => exact (Lifecycle.of_attaches hatt (step_engine hstep).1).1
  | readLoopEnds | writeLoopEnds => cases hatt

/-- Where none is attached, it holds the one it held, unless that is detached. -/
theorem session_step (hatt : x.attaches a = none) (hstep : x.step a = some x') :
    x'.engine.session = if detaches a = true then none else x.engine.session := by
  cases a with
  | engine a => exact Lifecycle.session_step (step_engine hstep).1 hatt
  | readLoopEnds | writeLoopEnds =>
    obtain ⟨-, rfl⟩ := Runs.of_guarded hstep
    rfl

/-- An attachment stops no other session, and starts none. -/
theorem stopped_attach {t : ℕ} (hatt : x.attaches a = some s) (hts : t ≠ s)
    (hstep : x.step a = some x') : x'.Stopped t ↔ x.Stopped t := by
  cases a with
  | engine a =>
    obtain ⟨hengine, hread, hwrite⟩ := step_engine hstep
    rw [Stopped, Lifecycle.sessions_attach hatt hengine, if_neg hts, hread, hwrite,
      loopsBehind_attach hatt, loopsBehind_attach hatt, Function.update_of_ne hts,
      Function.update_of_ne hts, Stopped]
  | readLoopEnds | writeLoopEnds => cases hatt

/-- `DetachSession` leaves the session stopped. -/
theorem stopped_detach (hdet : detaches a = true) (hs : x.engine.session = some s)
    (hstep : x.step a = some x') : x'.Stopped s := by
  cases a with
  | engine a =>
    obtain ⟨hengine, hread, hwrite⟩ := step_engine hstep
    exact ⟨Lifecycle.closed_of_detaches hengine hdet hs,
      hread ▸ loopsBehind_detach hdet hs _, hwrite ▸ loopsBehind_detach hdet hs _⟩
  | readLoopEnds | writeLoopEnds => cases hdet

/-- What has been stopped does not run. -/
theorem Stopped.not_running (h : x.Stopped s) : ¬ x.Running s := by
  obtain ⟨hclosed, hread, hwrite⟩ := h
  rintro (⟨-, hopen⟩ | hpos | hpos)
  · rw [hclosed] at hopen
    cases hopen
  · omega
  · omega

/-- **A step keeps the running sessions to one exactly if it attaches alone.** -/
theorem keeps_one_iff (hone : x.AtMostOneWired) (hstep : x.step a = some x') :
    (x'.AtMostOneWired ∧ x'.FeedsAlone ∧ x.StopsFirst x') ↔ x.AttachesAlone a := by
  constructor
  · rintro ⟨-, -, hstops⟩ s hatt t ht hts
    refine (stopped_attach hatt hts hstep).mp (hstops t ht ?_)
    rw [session_attach hatt hstep]
    exact fun h => hts (Option.some.inj h).symm
  · intro halone
    have hone' : x'.AtMostOneWired := by
      intro s hrunning
      rcases running_step hstep hrunning with hatt | ⟨hbefore, hdet⟩
      · exact session_attach hatt hstep
      · have hs := hone s hbefore
        cases hatt : x.attaches a with
        | some t =>
          by_cases hst : s = t
          · rw [session_attach hatt hstep, hst]
          · exact absurd hbefore (halone t hatt s hs hst).not_running
        | none =>
          rw [session_step hatt hstep, if_neg fun h => hdet h hs]
          exact hs
    refine ⟨hone', hone'.feedsAlone, fun s hs hne => ?_⟩
    cases hatt : x.attaches a with
    | some t =>
      rw [session_attach hatt hstep] at hne
      have hst : s ≠ t := fun h => hne (congrArg some h.symm)
      exact (stopped_attach hatt hst hstep).mpr (halone t hatt s hs hst)
    | none =>
      by_cases hdet : detaches a = true
      · exact stopped_detach hdet hs hstep
      · rw [session_step hatt hstep, if_neg hdet] at hne
        exact absurd hs hne

/-! ## Runs -/

/-- **At most one session is wired throughout a run exactly if every session is attached alone.** -/
theorem oneAtATime_iff {initiator enableReconnect : Bool} {as : List LoopedAction}
    {x : LoopedEngine} (hrun : Runs.run step (new initiator enableReconnect) as = some x) :
    (new initiator enableReconnect).OneAtATime as
      ↔ Runs.Meets step AttachesAlone (new initiator enableReconnect) as := by
  have hnew : (new initiator enableReconnect).AtMostOneWired := by
    rintro s (hlive | hpos | hpos)
    · exact absurd hlive.1 (Nat.lt_irrefl 0)
    · exact absurd hpos (Nat.lt_irrefl 0)
    · exact absurd hpos (Nat.lt_irrefl 0)
  have hkept : ∀ (x : LoopedEngine) a x', x.AtMostOneWired → x.AttachesAlone a →
      x.step a = some x' → x'.AtMostOneWired :=
    fun x a x' hone halone hstep => ((keeps_one_iff hone hstep).mpr halone).1
  rw [OneAtATime, and_iff_right hnew, and_iff_right hnew.feedsAlone]
  refine Runs.meets_iff hkept (fun x a x' hone hstep => ?_) hnew hrun
  rw [← keeps_one_iff hone hstep]
  constructor
  · exact fun h => h x' hstep
  · intro h x'' hstep''
    rw [hstep] at hstep''
    exact Option.some.inj hstep'' ▸ h

/-- A session is dialled and attached. -/
def connected : List LoopedAction :=
  [.engine (.connect 0), .engine (.dial 0 true), .engine (.attach 0)]

/-- The first session is detached, and the second aborts; the third is attached when both loops of the
second have ended. -/
def oneByOne : List LoopedAction :=
  connected ++ [.engine (.detachSession 0), .engine (.detach 0)] ++ connected
    ++ [.engine (.abort 1), .writeLoopEnds 1, .readLoopEnds 1] ++ connected

/-- None of the three runs beside another. -/
theorem oneAtATime_oneByOne : (new true false).OneAtATime oneByOne := by
  have hsome : (Runs.run step (new true false) oneByOne).isSome = true := by decide
  obtain ⟨x, hrun⟩ := Option.isSome_iff_exists.mp hsome
  exact (oneAtATime_iff hrun).mpr (by decide)

/-- A scheduled start while a session is attached leaves that session running; and so does one behind
an abort, while the read loop of the session goes on. -/
theorem orphan_behind_start : ¬ (new true false).OneAtATime (connected ++ connected)
    ∧ ¬ (new true false).OneAtATime (connected ++ [.engine (.abort 0)] ++ connected) := by
  constructor
  · rintro ⟨-, -, -, h⟩
    have h2 := (h _ rfl).2 _ rfl
    have h3 := (((h2.2 _ rfl).2 _ rfl).2 _ rfl).1 _ rfl
    have horphan := h3.1 0 (Or.inl ⟨by decide, rfl⟩)
    exact absurd (Option.some.inj horphan) (by decide)
  · rintro ⟨-, -, -, h⟩
    have h2 := ((h _ rfl).2 _ rfl).2 _ rfl
    have h3 := (((h2.2 _ rfl).2 _ rfl).2 _ rfl).1 _ rfl
    have hfed := h3.2.1 0 1 (by decide) (by decide)
    exact absurd hfed (by decide)

end LoopedEngine

end FixMsg
