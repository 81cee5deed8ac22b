import Mathlib.Data.List.Infix
import GoFixMsg.Machinery.Runs

/-!
# Engine/Helpers — the liveness helpers of an engine, over its attachments

`AttachSession` starts the `HeartbeatMonitor` and the heartbeat sender, `DetachSession` cancels
their contexts.  Neither context is ever forgotten, so neither helper is started again: they run
with the first attachment and no later one (`helpers_running_iff`).

A goroutine runs as long as its context is not cancelled.

The monitor's `Start` returns at once where it has a context already, cancelled or not, and the
engine starts a heartbeat sender only where it has none; `Stop` and `DetachSession` keep both.
-/

namespace FixMsg

/-- A helper, by the contexts of the goroutines its `Start` has started, the latest first; `true`
for a cancelled one. -/
structure Helper where
  contexts : List Bool
  deriving DecidableEq

namespace Helper

/-- A new helper. -/
def new : Helper := ⟨[]⟩

/-- A goroutine is started with a context of its own. -/
def spawn (h : Helper) : Helper := ⟨false :: h.contexts⟩

/-- `Stop`, of either helper: the latest context is cancelled. -/
def stop (h : Helper) : Helper :=
  match h.contexts with
  | [] => h
  | _ :: contexts => ⟨true :: contexts⟩

/-- The number of goroutines that run. -/
def running (h : Helper) : ℕ := h.contexts.count false

end Helper

/-- `Heartbeat.Start`. -/
def Helper.startHeartbeat (h : Helper) : Helper := h.spawn

/-- `HeartbeatMonitor.Start`, which does nothing where `h.ctx` is set. -/
def Helper.startMonitor (h : Helper) : Helper := if h.contexts = [] then h.spawn else h

/-- The part of a `FixEngine` that `AttachSession` and `DetachSession` wire. -/
structure Wiring where
  attached : Bool
  monitor : Option Helper
  hbSender : Option Helper
  deriving DecidableEq

/-- A call of `AttachSession` or `DetachSession`, whoever makes it. -/
inductive WiringCall where
  | attach
  | detach
  deriving DecidableEq

namespace Wiring

/-- A new engine. -/
def new : Wiring := ⟨false, none, none⟩

/-- `AttachSession`. -/
def attachSession (w : Wiring) : Wiring where
  attached := true
  monitor := some (w.monitor.getD .new).startMonitor
  hbSender :=
    match w.hbSender with
    | none => some Helper.new.startHeartbeat
    | some hbSender => some hbSender

/-- `DetachSession`. -/
def detachSession (w : Wiring) : Wiring where
  attached := false
  monitor := w.monitor.map Helper.stop
  hbSender := w.hbSender.map Helper.stop

/-- One call. -/
def step (w : Wiring) : WiringCall → Wiring
  | .attach => w.attachSession
  | .detach => w.detachSession

/-- The goroutines of a helper that run. -/
def goroutines (helper : Option Helper) : ℕ := (helper.map Helper.running).getD 0

/-- Exactly one goroutine of each helper runs where a session is attached, and none where none is. -/
def Live (w : Wiring) : Prop :=
  goroutines w.monitor = w.attached.toNat ∧ goroutines w.hbSender = w.attached.toNat

instance (w : Wiring) : Decidable w.Live := inferInstanceAs (Decidable (_ ∧ _))

/-- The helpers are as they should be in every state of a run. -/
def LiveThroughout (w : Wiring) (calls : List WiringCall) : Prop :=
  ∀ l, l <+: calls → (l.foldl step w).Live

theorem liveThroughout_nil {w : Wiring} : w.LiveThroughout [] ↔ w.Live := by
  constructor
  · exact fun h => h [] (List.prefix_refl [])
  · intro h l hl
    rw [List.prefix_nil.mp hl]
    exact h

theorem liveThroughout_cons {w : Wiring} {c : WiringCall} {calls : List WiringCall} :
    w.LiveThroughout (c :: calls) ↔ w.Live ∧ (w.step c).LiveThroughout calls := by
  constructor
  · intro h
    exact ⟨h [] List.nil_prefix, fun l hl => h (c :: l) (List.cons_prefix_cons.mpr ⟨rfl, hl⟩)⟩
  · rintro ⟨hlive, hrest⟩ l hl
    rcases List.prefix_cons_iff.mp hl with rfl | ⟨t, rfl, ht⟩
    · exact hlive
    · exact hrest t ht

/-- An engine whose helpers run. -/
def started : Wiring := ⟨true, some ⟨[false]⟩, some ⟨[false]⟩⟩

/-- An engine whose helpers have been stopped. -/
def stopped : Wiring := ⟨false, some ⟨[true]⟩, some ⟨[true]⟩⟩

/-- Once stopped, the helpers are right as long as no session is attached. -/
theorem liveThroughout_stopped (calls : List WiringCall) :
    stopped.LiveThroughout calls ↔ ¬ [WiringCall.attach].Sublist calls := by
  induction calls with
  | nil => simp only [liveThroughout_nil]; decide
  | cons c calls ih =>
    rw [liveThroughout_cons]
    cases c with
    | attach =>
      refine iff_of_false (fun h => ?_) (fun h => h (List.cons_sublist_cons.mpr (List.nil_sublist _)))
      exact absurd (h.2 [] List.nil_prefix) (by decide)
    | detach =>
      rw [Runs.sublist_cons_of_ne (by decide), ← ih]
      exact and_iff_right (by decide)

/-- While they run, they are right as long as no session is attached behind a detachment. -/
theorem liveThroughout_started (calls : List WiringCall) :
    started.LiveThroughout calls ↔ ¬ [WiringCall.detach, .attach].Sublist calls := by
  induction calls with
  | nil => simp only [liveThroughout_nil]; decide
  | cons c calls ih =>
    rw [liveThroughout_cons]
    cases c with
    | attach =>
      rw [Runs.sublist_cons_of_ne (by decide), ← ih]
      exact and_iff_right (by decide)
    | detach =>
      rw [List.cons_sublist_cons, ← liveThroughout_stopped]
      exact and_iff_right (by decide)

/-- **The helpers run when a session is attached, and only then, exactly in the runs without a second
attachment**: one behind a detachment that is itself behind an attachment. -/
theorem helpers_running_iff (calls : List WiringCall) :
    new.LiveThroughout calls ↔ ¬ [WiringCall.attach, .detach, .attach].Sublist calls := by
  induction calls with
  | nil => simp only [liveThroughout_nil]; decide
  | cons c calls ih =>
    rw [liveThroughout_cons]
    cases c with
    | attach =>
      rw [List.cons_sublist_cons, ← liveThroughout_started]
      exact and_iff_right (by decide)
    | detach =>
      rw [Runs.sublist_cons_of_ne (by decide), ← ih]
      exact and_iff_right (by decide)

/-- Behind a reconnect the session is attached, and neither helper runs. -/
theorem helpers_dead_behind_reconnect :
    ¬ new.LiveThroughout [.attach, .detach, .attach]
      ∧ ([.attach, .detach, .attach].foldl step new).attached = true
      ∧ goroutines ([.attach, .detach, .attach].foldl step new).monitor = 0
      ∧ goroutines ([.attach, .detach, .attach].foldl step new).hbSender = 0 := by
  refine ⟨fun h => ?_, by decide, by decide, by decide⟩
  exact absurd (h _ (List.prefix_refl _)) (by decide)

end Wiring

end FixMsg
