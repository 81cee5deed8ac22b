import GoFixMsg.Engine.Lifecycle

/-!
# Engine/StaleCallback — the close callback of one session, and the session attached behind it

A close callback detaches whatever session the engine holds when it gets to `attachMu`.  So a
session is safe from the callbacks of the older ones exactly if these have all been through
`DetachSession` before it is attached (`spared_iff`).

The callback of a session runs in a goroutine of its own, which `Session.Stop` or the loss of the
connection starts.  It knows the engine, and not the session it is called for; what lies between the
close and `attachMu` is up to the scheduler.
-/

namespace FixMsg

namespace Lifecycle

/-- A step does not take the session from the engine, and does not stop it. -/
def Spares (e e' : Lifecycle) (s : ℕ) : Prop :=
  (e.session = some s → e'.session = some s) ∧ (e'.sessions s).closed = (e.sessions s).closed

/-- **No close callback of an older session touches this one**, however the run goes on: `e` is the
state before the session is attached, `e'` the one behind. -/
def SparedByOlder (e e' : Lifecycle) (s : ℕ) : Prop :=
  ∀ t, t ≠ s → 0 < (e.sessions t).wired → ∀ as e₁ e₂, Runs.run step e' as = some e₁ →
    e₁.step (.callbackDetach t) = some e₂ → e₁.Spares e₂ s

/-- Close callbacks spare the session a step attaches. -/
def CallbacksSpare (e : Lifecycle) (a : LifecycleAction) : Prop :=
  ∀ s e', e.attaches a = some s → e.step a = some e' → e.SparedByOlder e' s

/-- **The condition on a step**: a session is attached only when the close callbacks of the sessions
attached before have been through `DetachSession`. -/
def AttachesSettled (e : Lifecycle) (a : LifecycleAction) : Prop :=
  ∀ s, e.attaches a = some s → ∀ t, t ≠ s → 0 < (e.sessions t).wired → (e.sessions t).Settled

variable {e e' : Lifecycle} {a : LifecycleAction}

/-- **A session is spared by the close callbacks of the older ones exactly if these are settled when
it is attached.** -/
theorem spared_iff {s : ℕ} (hatt : e.attaches a = some s) (hstep : e.step a = some e') :
    e.SparedByOlder e' s ↔ ∀ t, t ≠ s → 0 < (e.sessions t).wired → (e.sessions t).Settled := by
  have hsame : ∀ t, t ≠ s → e'.sessions t = e.sessions t := fun t hts => by
    rw [sessions_attach hatt hstep, if_neg hts]
  constructor
  · intro hspared t hts hwired
    by_contra hnot
    rw [← hsame t hts] at hwired hnot
    obtain ⟨as, e₁, hrun, -, honly, hdet⟩ := exists_run_to_detaching hwired hnot
    have hsession : e₁.session = some s := by
      rw [honly]
      exact (of_attaches hatt hstep).1
    obtain ⟨e₂, hcallback⟩ : ∃ e₂, e₁.step (.callbackDetach t) = some e₂ := ⟨_, if_pos hdet⟩
    have hkept := (hspared t hts (hsame t hts ▸ hwired) as e₁ e₂ hrun hcallback).1 hsession
    have hnone : e₂.session = none := session_step hcallback rfl
    rw [hnone] at hkept
    cases hkept
  · intro hsettled t hts hwired as e₁ e₂ hrun hcallback
    have hfirst : (e'.sessions t).Settled := hsame t hts ▸ hsettled t hts hwired
    have hlast : (e₁.sessions t).Settled :=
      Runs.run_kept (fun e => (e.sessions t).Settled) (fun _ _ _ => settled_step) hfirst hrun
    simp only [step, hlast.2, Nat.lt_irrefl, if_false] at hcallback
    cases hcallback

/-- **In every run the close callbacks spare every later session, however the run goes on, exactly if
each session is attached when the older ones are settled.** -/
theorem callbacksSpare_iff {initiator enableReconnect : Bool} {as : List LifecycleAction}
    (hrun : Runs.run step (new initiator enableReconnect) as = some e) :
    Runs.Meets step CallbacksSpare (new initiator enableReconnect) as
      ↔ Runs.Meets step AttachesSettled (new initiator enableReconnect) as := by
  refine Runs.meets_congr (fun _ _ _ (h : True) _ => h) (fun e a e' _ hstep => ?_) trivial hrun
  constructor
  · exact fun h s hatt => (spared_iff hatt hstep).mp (h s e' hatt hstep)
  · intro h s e'' hatt hstep''
    exact (spared_iff hatt hstep'').mpr (h s hatt)

/-- A session that is dialled and attached, closes, and is detached by its close callback. -/
def lostSession : List LifecycleAction :=
  [.connect 0, .dial 0 true, .attach 0, .abort 0, .notify 0, .callbackDetach 0]

/-- The next session is attached behind the callback. -/
theorem callbacksSpare_reconnected :
    Runs.Meets step CallbacksSpare (new true false)
      (lostSession ++ [.connect 0, .dial 0 true, .attach 0]) := by
  obtain ⟨e, hrun⟩ : ∃ e, Runs.run step (new true false)
      (lostSession ++ [.connect 0, .dial 0 true, .attach 0]) = some e := ⟨_, rfl⟩
  have hnone : ∀ {e : Lifecycle} {a}, e.attaches a = none → e.AttachesSettled a := by
    intro e a hatt s hs
    rw [hatt] at hs
    cases hs
  refine (callbacksSpare_iff hrun).mpr ?_
  iterate 2 refine (Runs.meets_cons_iff rfl).mpr ⟨hnone rfl, ?_⟩
  refine (Runs.meets_cons_iff rfl).mpr ⟨fun s _ t _ hwired => absurd hwired (Nat.lt_irrefl 0), ?_⟩
  iterate 5 refine (Runs.meets_cons_iff rfl).mpr ⟨hnone rfl, ?_⟩
  refine (Runs.meets_cons_iff rfl).mpr ⟨fun s _ t _ hwired => ?_, trivial⟩
  match t, hwired with
  | 0, _ => exact ⟨rfl, rfl⟩
  | t + 1, hwired => exact absurd hwired (Nat.lt_irrefl 0)

/-- The engine connects again before the callback of the lost session gets to `attachMu`: the callback
takes the new session. -/
theorem callback_takes_next : ¬ Runs.Meets step CallbacksSpare (new true false)
    [.connect 0, .dial 0 true, .attach 0, .abort 0, .notify 0, .connect 0, .dial 0 true,
      .attach 0] := by
  intro h
  have h5 := ((((h.2 _ rfl).2 _ rfl).2 _ rfl).2 _ rfl).2 _ rfl
  have hattach := ((h5.2 _ rfl).2 _ rfl).1 1 _ rfl rfl
  have hkept := (hattach 0 (by decide) (by decide) [] _ _ rfl rfl).1 rfl
  cases hkept

end Lifecycle

end FixMsg
