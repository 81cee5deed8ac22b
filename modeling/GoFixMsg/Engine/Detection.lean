import GoFixMsg.Engine.HeartbeatMonitor
import Mathlib.Algebra.Order.Group.Int

/-!
# Engine/Detection — how long a silent peer goes unnoticed

The monitor looks at every tick of its ticker.  Where the ticks are no further apart than `δ`, and
no other step of the loop takes longer than `σ`, a peer that has fallen silent is stopped: the first
tick more than `Interval` after the last message sends a TestRequest, and the first one more than
`TestReqTimeout` after that stops the session (`silence_detected`).

The loop may have read its fields just before the peer fell silent.  What it does then is over
within three of its steps, and it starts anew.

A peer that is heard often enough is never stopped, although an answer that comes before its
TestRequest is marked is lost: the next message comes before `TestReqTimeout` is over
(`heard_kept`).
-/

namespace FixMsg

/-- `NewHeartbeatMonitor`: the interval and the timeout, in nanoseconds. -/
def newHeartbeatMonitor (interval testReqTimeout : ℤ) : ℤ × ℤ :=
  let interval := if interval ≤ 0 then 30000000000 else interval
  (interval, if testReqTimeout ≤ 0 then interval else testReqTimeout)

theorem newHeartbeatMonitor_pos (interval testReqTimeout : ℤ) :
    0 < (newHeartbeatMonitor interval testReqTimeout).1
      ∧ 0 < (newHeartbeatMonitor interval testReqTimeout).2 := by
  unfold newHeartbeatMonitor
  dsimp only
  split <;> split <;> constructor <;> omega

/-- A monitor, and since when its loop is where it is. -/
structure Watch where
  monitor : HeartbeatMonitor
  since : ℤ

/-- A step of the loop, and not of the clock or the read loop. -/
def MonitorAction.ofLoop : MonitorAction → Bool
  | .advance _ | .seen => false
  | .tick | .decide | .send | .mark | .check | .compare | .stop | .exit => true

namespace Watch

/-- `Start`, at a time. -/
def start (t : ℤ) : Watch := ⟨.start t, t⟩

/-- One step. -/
def step (interval testReqTimeout : ℤ) (w : Watch) (a : MonitorAction) : Option Watch :=
  (w.monitor.step interval testReqTimeout a).map fun m => ⟨m, if a.ofLoop then m.now else w.since⟩

/-- How long the loop is at a place at most. -/
def limit (δ σ : ℤ) : MonitorPoint → ℤ
  | .waiting => δ
  | .ticked _ _ | .requesting | .sending | .checking | .comparing _ | .stopping | .exited => σ

/-- **The loop is scheduled in time**: a tick comes within `δ`, and every other step of the loop
within `σ`. -/
def InTime (δ σ : ℤ) (w : Watch) : MonitorAction → Prop
  | .advance d => w.monitor.now + d ≤ w.since + limit δ σ w.monitor.point
  | _ => True

instance (δ σ : ℤ) (w : Watch) (a : MonitorAction) : Decidable (InTime δ σ w a) :=
  match a with
  | .advance _ => inferInstanceAs (Decidable (_ ≤ _))
  | .seen | .tick | .decide | .send | .mark | .check | .compare | .stop | .exit =>
      inferInstanceAs (Decidable True)

variable {interval testReqTimeout δ σ t : ℤ} {w w' : Watch} {a : MonitorAction}

theorem step_eq_some (h : w.step interval testReqTimeout a = some w') :
    w.monitor.step interval testReqTimeout a = some w'.monitor
      ∧ w'.since = if a.ofLoop then w'.monitor.now else w.since := by
  obtain ⟨m, hm, rfl⟩ := Option.map_eq_some_iff.mp h
  exact ⟨hm, rfl⟩

/-! ## What the loop has read is past -/

/-- What the loop has read, by its place, is of a time at the latest. -/
def ReadBy (testSent t : ℤ) : MonitorPoint → Prop
  | .ticked ls out => ls ≤ t ∧ (out = true → testSent ≤ t)
  | .checking => testSent ≤ t
  | .comparing ts => ts ≤ t
  | .waiting | .requesting | .sending | .stopping | .exited => True

theorem ReadBy.mono {testSent t t' : ℤ} {p : MonitorPoint} (h : ReadBy testSent t p) (ht : t ≤ t') :
    ReadBy testSent t' p := by
  cases p with
  | ticked ls out => exact ⟨h.1.trans ht, fun hout => (h.2 hout).trans ht⟩
  | checking => exact h.trans ht
  | comparing ts => exact h.trans ht
  | waiting | requesting | sending | stopping | exited => trivial

/-- **The times the monitor knows are past**, and the loop is not late. -/
structure Past (δ σ : ℤ) (w : Watch) : Prop where
  seen : w.monitor.lastSeen ≤ w.monitor.now
  marked : w.monitor.outstanding = true → w.monitor.testSent ≤ w.monitor.now
  read : ReadBy w.monitor.testSent w.monitor.now w.monitor.point
  since : w.since ≤ w.monitor.now
  inTime : w.monitor.now ≤ w.since + limit δ σ w.monitor.point

theorem limit_nonneg (hδ : 0 ≤ δ) (hσ : 0 ≤ σ) (p : MonitorPoint) : 0 ≤ limit δ σ p := by
  cases p <;> assumption

theorem past_start (hδ : 0 ≤ δ) : Past δ σ (start t) where
  seen := Int.le_refl t
  marked := fun h => (Bool.false_ne_true h).elim
  read := trivial
  since := Int.le_refl t
  inTime := by
    change t ≤ t + δ
    omega

/-- **Every step keeps that.** -/
theorem Past.step (hδ : 0 ≤ δ) (hσ : 0 ≤ σ) (h : Past δ σ w) (ha : InTime δ σ w a)
    (hstep : w.step interval testReqTimeout a = some w') : Past δ σ w' := by
  obtain ⟨hm, hsince'⟩ := step_eq_some hstep
  obtain ⟨seen, marked, read, since, inTime⟩ := h
  obtain ⟨m', since'⟩ := w'
  obtain ⟨⟨ls, ts, out, point, now, handed, answered, unmarked, inTick⟩, since₀⟩ := w
  dsimp only at hm hsince' seen marked read since inTime
  have hlimit := fun p => le_add_of_nonneg_right (limit_nonneg hδ hσ p) (a := now)
  cases a with
  | advance d =>
    cases Option.some.inj hm
    cases hsince'
    have hd : now ≤ now + d := by omega
    exact ⟨seen.trans hd, fun hout => (marked hout).trans hd, read.mono hd, since.trans hd, ha⟩
  | seen =>
    cases Option.some.inj hm
    cases hsince'
    exact ⟨Int.le_refl now, fun hout => (Bool.false_ne_true hout).elim, read, since, inTime⟩
  | tick =>
    obtain ⟨-, rfl⟩ := Runs.of_guarded hm
    cases hsince'
    exact ⟨seen, marked, ⟨seen, marked⟩, Int.le_refl now, hlimit _⟩
  | decide =>
    cases point with
    | ticked ls' out' =>
      cases Option.some.inj hm
      cases hsince'
      refine ⟨seen, marked, ?_, Int.le_refl now, hlimit _⟩
      dsimp only
      split
      · split
        · next hout => exact read.2 hout
        · trivial
      · trivial
    | waiting | requesting | sending | checking | comparing | stopping | exited => cases hm
  | send =>
    obtain ⟨-, rfl⟩ := Runs.of_guarded hm
    cases hsince'
    exact ⟨seen, marked, trivial, Int.le_refl now, hlimit _⟩
  | mark =>
    obtain ⟨-, rfl⟩ := Runs.of_guarded hm
    cases hsince'
    exact ⟨seen, fun _ => Int.le_refl now, trivial, Int.le_refl now, hlimit _⟩
  | check =>
    obtain ⟨hp, rfl⟩ := Runs.of_guarded hm
    dsimp only at hp
    subst hp
    cases hsince'
    exact ⟨seen, marked, read, Int.le_refl now, hlimit _⟩
  | compare =>
    cases point with
    | comparing ts' =>
      cases Option.some.inj hm
      cases hsince'
      refine ⟨seen, marked, ?_, Int.le_refl now, hlimit _⟩
      dsimp only
      split <;> trivial
    | waiting | ticked | requesting | sending | checking | stopping | exited => cases hm
  | stop =>
    obtain ⟨-, rfl⟩ := Runs.of_guarded hm
    cases hsince'
    exact ⟨seen, marked, trivial, Int.le_refl now, hlimit _⟩
  | exit =>
    obtain ⟨-, rfl⟩ := Runs.of_guarded hm
    cases hsince'
    exact ⟨seen, marked, trivial, Int.le_refl now, hlimit _⟩

/-! ## A peer that is silent -/

/-- How long after the peer has fallen silent a TestRequest is marked at the latest. -/
def markedBy (interval δ σ : ℤ) : ℤ := interval + δ + 6 * σ

/-- **How long after the peer has fallen silent the loop comes to a place** at the latest.  Where no
TestRequest is outstanding, what the loop has read of one is from before. -/
def enteredBy (interval testReqTimeout δ σ : ℤ) : Bool → MonitorPoint → ℤ
  | false, .waiting => interval + 3 * σ
  | false, .ticked _ true => 0
  | false, .checking => σ
  | false, .comparing _ => 2 * σ
  | false, .stopping => 3 * σ
  | true, .waiting => markedBy interval δ σ + testReqTimeout
  | true, .ticked _ true => markedBy interval δ σ + testReqTimeout + δ
  | true, .checking => markedBy interval δ σ + testReqTimeout + δ + σ
  | true, .comparing _ => markedBy interval δ σ + testReqTimeout + δ + 2 * σ
  | true, .stopping => markedBy interval δ σ + testReqTimeout + δ + 3 * σ
  | _, .ticked _ false => interval + δ + 3 * σ
  | _, .requesting => interval + δ + 4 * σ
  | _, .sending => interval + δ + 5 * σ
  | _, .exited => 0

/-- What the loop has read since the peer fell silent at `t`, or before. -/
def ReadSince (markedBy t : ℤ) (out : Bool) : MonitorPoint → Prop
  | .ticked ls _ => ls ≤ t
  | .comparing ts => out = true → ts ≤ t + markedBy
  | .exited => False
  | .waiting | .requesting | .sending | .checking | .stopping => True

/-- **The peer has been silent since `t`**, and the monitor has not stopped the session. -/
structure Silent (interval testReqTimeout δ σ t : ℤ) (w : Watch) : Prop where
  inv : w.monitor.Inv testReqTimeout
  seen : w.monitor.lastSeen ≤ t
  marked : w.monitor.outstanding = true → w.monitor.testSent ≤ t + markedBy interval δ σ
  read : ReadSince (markedBy interval δ σ) t w.monitor.outstanding w.monitor.point
  since : w.since
    ≤ t + enteredBy interval testReqTimeout δ σ w.monitor.outstanding w.monitor.point
  inTime : w.monitor.now ≤ w.since + limit δ σ w.monitor.point

section Silent

variable (hI : 0 ≤ interval) (hT : 0 ≤ testReqTimeout) (hδ : 0 ≤ δ) (hσ : 0 ≤ σ)

include hI hT hδ hσ

/-- A monitor that runs may be at any place when the peer falls silent. -/
theorem Past.silent (h : Past δ σ w) (hinv : w.monitor.Inv testReqTimeout)
    (hruns : w.monitor.point ≠ .exited) :
    Silent interval testReqTimeout δ σ w.monitor.now w := by
  obtain ⟨seen, marked, read, since, inTime⟩ := h
  have hentered : ∀ out p, 0 ≤ enteredBy interval testReqTimeout δ σ out p := by
    intro out p
    unfold enteredBy markedBy
    split <;> omega
  refine ⟨hinv, seen, fun hout => ?_, ?_, ?_, inTime⟩
  · have := marked hout
    unfold markedBy
    omega
  · revert read hruns
    cases w.monitor.point with
    | ticked ls out => exact fun _ read => read.1
    | comparing ts =>
      intro _ read _
      change ts ≤ _ at read
      unfold markedBy
      omega
    | exited => exact fun h _ => h rfl
    | waiting | requesting | sending | checking | stopping => exact fun _ _ => trivial
  · have := hentered w.monitor.outstanding w.monitor.point
    omega

/-- **A step of the silence that is no stop keeps the bounds.**  A TestRequest is sent in it only
where none is outstanding. -/
theorem Silent.step (h : Silent interval testReqTimeout δ σ t w) (ha : InTime δ σ w a)
    (hseen : a ≠ .seen) (hexit : a ≠ .exit) (hstop : a ≠ .stop)
    (hstep : w.step interval testReqTimeout a = some w') :
    Silent interval testReqTimeout δ σ t w' := by
  obtain ⟨hm, hsince'⟩ := step_eq_some hstep
  have hinv' := h.inv.step hm
  have hpoint := h.inv.atPoint
  obtain ⟨-, seen, marked, read, since, inTime⟩ := h
  obtain ⟨m', since'⟩ := w'
  obtain ⟨⟨ls, ts, out, point, now, handed, answered, unmarked, inTick⟩, since₀⟩ := w
  dsimp only at hm hsince' seen marked read since inTime
  have hlimit := fun p => le_add_of_nonneg_right (limit_nonneg hδ hσ p) (a := now)
  cases a with
  | advance d =>
    cases Option.some.inj hm
    cases hsince'
    exact ⟨hinv', seen, marked, read, since, ha⟩
  | seen => exact absurd rfl hseen
  | stop => exact absurd rfl hstop
  | exit => exact absurd rfl hexit
  | tick =>
    obtain ⟨hp, rfl⟩ := Runs.of_guarded hm
    dsimp only at hp
    subst hp
    cases hsince'
    refine ⟨hinv', seen, marked, seen, ?_, hlimit _⟩
    change now ≤ since₀ + δ at inTime
    dsimp only
    cases out <;> simp only [enteredBy] at since ⊢ <;> omega
  | decide =>
    cases point with
    | ticked ls' out' =>
      change now ≤ since₀ + σ at inTime
      change ls' ≤ t at read
      have hm := Option.some.inj hm
      by_cases hlate : interval < now - ls'
      · cases out' with
        | false =>
          have hout : out = false := hpoint
          subst hout
          simp only [if_pos hlate, Bool.false_eq_true, if_false] at hm
          subst hm
          obtain rfl : since' = now := hsince'
          refine ⟨hinv', seen, marked, trivial, ?_, hlimit _⟩
          simp only [enteredBy] at since ⊢
          omega
        | true =>
          simp only [if_pos hlate, if_true] at hm
          subst hm
          obtain rfl : since' = now := hsince'
          refine ⟨hinv', seen, marked, trivial, ?_, hlimit _⟩
          cases out <;> simp only [enteredBy] at since ⊢ <;> omega
      · simp only [if_neg hlate] at hm
        subst hm
        obtain rfl : since' = now := hsince'
        refine ⟨hinv', seen, marked, trivial, ?_, hlimit _⟩
        cases out <;> simp only [enteredBy, markedBy] <;> omega
    | waiting | requesting | sending | checking | comparing | stopping | exited => cases hm
  | send =>
    obtain ⟨hp, rfl⟩ := Runs.of_guarded hm
    dsimp only at hp
    subst hp
    cases hsince'
    refine ⟨hinv', seen, marked, trivial, ?_, hlimit _⟩
    change now ≤ since₀ + σ at inTime
    cases out <;> simp only [enteredBy] at since ⊢ <;> omega
  | mark =>
    obtain ⟨hp, rfl⟩ := Runs.of_guarded hm
    dsimp only at hp
    subst hp
    obtain rfl : now = since' := hsince'.symm
    change now ≤ since₀ + σ at inTime
    have hnow : now ≤ t + markedBy interval δ σ := by
      unfold markedBy
      cases out <;> simp only [enteredBy] at since <;> omega
    refine ⟨hinv', seen, fun _ => hnow, trivial, ?_, hlimit _⟩
    simp only [enteredBy]
    omega
  | check =>
    obtain ⟨hp, rfl⟩ := Runs.of_guarded hm
    dsimp only at hp
    subst hp
    cases hsince'
    refine ⟨hinv', seen, marked, marked, ?_, hlimit _⟩
    change now ≤ since₀ + σ at inTime
    cases out <;> simp only [enteredBy] at since ⊢ <;> omega
  | compare =>
    cases point with
    | comparing ts' =>
      change now ≤ since₀ + σ at inTime
      have hm := Option.some.inj hm
      by_cases hlate : testReqTimeout < now - ts'
      · simp only [if_pos hlate] at hm
        subst hm
        obtain rfl : since' = now := hsince'
        refine ⟨hinv', seen, marked, trivial, ?_, hlimit _⟩
        cases out <;> simp only [enteredBy] at since ⊢ <;> omega
      · simp only [if_neg hlate] at hm
        subst hm
        obtain rfl : since' = now := hsince'
        refine ⟨hinv', seen, marked, trivial, ?_, hlimit _⟩
        cases out with
        | false =>
          simp only [enteredBy] at since ⊢
          omega
        | true =>
          have hts := read rfl
          simp only [enteredBy]
          omega
    | waiting | ticked | requesting | sending | checking | stopping | exited => cases hm

/-- The silence has a bound while the session is not stopped. -/
theorem Silent.bound (h : Silent interval testReqTimeout δ σ t w) :
    w.monitor.now ≤ t + (interval + testReqTimeout + 2 * δ + 10 * σ) := by
  obtain ⟨-, -, -, read, since, inTime⟩ := h
  revert read since inTime
  unfold enteredBy limit markedBy
  cases w.monitor.point with
  | exited => exact fun read => read.elim
  | ticked ls out' =>
    cases out' <;> cases w.monitor.outstanding <;> intro _ since inTime <;> dsimp only at since inTime
      <;> omega
  | waiting | requesting | sending | checking | comparing | stopping =>
    cases w.monitor.outstanding <;> intro _ since inTime <;> dsimp only at since inTime <;> omega

end Silent

/-- **A silent peer is stopped.**  In every run in which a tick comes within `δ`, and every other step
of the loop within `σ`: if the monitor runs, and from then on no message comes for longer than
`Interval + TestReqTimeout + 2 δ + 10 σ`, it stops the session within that time. -/
theorem silence_detected {interval testReqTimeout δ σ t : ℤ} {as bs : List MonitorAction}
    {w w' : Watch} (hδ : 0 ≤ δ) (hσ : 0 ≤ σ)
    (hrun : Runs.run (step (newHeartbeatMonitor interval testReqTimeout).1
      (newHeartbeatMonitor interval testReqTimeout).2) (start t) as = some w)
    (htime : Runs.Meets (step (newHeartbeatMonitor interval testReqTimeout).1
      (newHeartbeatMonitor interval testReqTimeout).2) (InTime δ σ) (start t) as)
    (hruns : w.monitor.point ≠ .exited)
    (hrun' : Runs.run (step (newHeartbeatMonitor interval testReqTimeout).1
      (newHeartbeatMonitor interval testReqTimeout).2) w bs = some w')
    (htime' : Runs.Meets (step (newHeartbeatMonitor interval testReqTimeout).1
      (newHeartbeatMonitor interval testReqTimeout).2) (InTime δ σ) w bs)
    (hsilent : .seen ∉ bs) (hgoes : .exit ∉ bs)
    (hlong : w.monitor.now + ((newHeartbeatMonitor interval testReqTimeout).1
      + (newHeartbeatMonitor interval testReqTimeout).2 + 2 * δ + 10 * σ) < w'.monitor.now) :
    .stop ∈ bs := by
  obtain ⟨hI, hT⟩ := newHeartbeatMonitor_pos interval testReqTimeout
  generalize (newHeartbeatMonitor interval testReqTimeout).1 = interval' at *
  generalize (newHeartbeatMonitor interval testReqTimeout).2 = testReqTimeout' at *
  by_contra hstop
  obtain ⟨hpast, hinv⟩ := Runs.run_invariant
    (fun w => Past δ σ w ∧ w.monitor.Inv testReqTimeout')
    (fun w a w' h ha hstep => ⟨h.1.step hδ hσ ha hstep, h.2.step (step_eq_some hstep).1⟩)
    ⟨past_start hδ, HeartbeatMonitor.inv_start testReqTimeout' t⟩ htime hrun
  have hquiet : ∀ a ∈ bs, a ≠ .seen ∧ a ≠ .exit ∧ a ≠ .stop := fun a ha =>
    ⟨fun h => hsilent (h ▸ ha), fun h => hgoes (h ▸ ha), fun h => hstop (h ▸ ha)⟩
  have hend := Runs.run_invariant (Silent interval' testReqTimeout' δ σ w.monitor.now)
    (fun w a w' h ha hstep => h.step hI.le hT.le hδ hσ ha.1 ha.2.1 ha.2.2.1 ha.2.2.2 hstep)
    (hpast.silent hI.le hT.le hδ hσ hinv hruns) (htime'.and_forall hquiet) hrun'
  exact absurd hlong (not_lt.mpr (hend.bound hI.le hT.le hδ hσ))

/-- A silence with an interval of 20, a timeout of 40 and a tick every 30. -/
def silence : List MonitorAction :=
  [.advance 30, .tick, .decide, .send, .mark, .advance 30, .tick, .decide, .check, .compare,
   .advance 30, .tick, .decide, .check, .compare, .stop, .advance 30, .tick, .decide, .check, .compare,
   .stop, .advance 30]

/-- It ends with a stop. -/
theorem silence_detected_stop : .stop ∈ silence := by
  obtain ⟨w', hrun⟩ : ∃ w', Runs.run (step 20 40) (start 0) silence = some w' := ⟨_, rfl⟩
  have htime : Runs.Meets (step 20 40) (InTime 30 0) (start 0) silence := by
    unfold silence
    iterate 23 refine (Runs.meets_cons_iff rfl).mpr ⟨by decide, ?_⟩
    trivial
  have hlong : (120 : ℤ) < w'.monitor.now := by
    cases hrun
    decide
  exact @silence_detected 20 40 30 0 0 [] silence (start 0) w' (by decide) (by decide) rfl trivial
    (by decide) hrun htime (by decide) (by decide) hlong

/-! ## A peer that is heard -/

/-- **The peer is heard in time**: time passes only up to `gap` after the last message. -/
def Heard (gap : ℤ) (w : Watch) : MonitorAction → Prop
  | .advance d => w.monitor.now + d ≤ w.monitor.lastSeen + gap
  | _ => True

instance (gap : ℤ) (w : Watch) (a : MonitorAction) : Decidable (Heard gap w a) :=
  match a with
  | .advance _ => inferInstanceAs (Decidable (_ ≤ _))
  | .seen | .tick | .decide | .send | .mark | .check | .compare | .stop | .exit =>
      inferInstanceAs (Decidable True)

/-- What the loop has read of a peer that is heard is not old, and where it is not old enough the loop
does not get to a TestRequest or to a stop. -/
def ReadOfHeard (interval testReqTimeout gap σ since testSent : ℤ) : MonitorPoint → Prop
  | .ticked ls out => since ≤ ls + gap ∧ (out = true → since ≤ testSent + gap)
  | .checking => since ≤ testSent + gap + σ
  | .comparing ts => since ≤ ts + gap + 2 * σ
  | .requesting | .sending => interval < gap + σ
  | .stopping => testReqTimeout < gap + 3 * σ
  | .waiting | .exited => True

/-- **The peer has been heard in time**: a TestRequest that is outstanding was marked after the last
message, which is not old. -/
structure Attended (interval testReqTimeout gap σ : ℤ) (w : Watch) : Prop where
  heard : w.monitor.now ≤ w.monitor.lastSeen + gap
  marked : w.monitor.outstanding = true → w.monitor.lastSeen ≤ w.monitor.testSent
  read : ReadOfHeard interval testReqTimeout gap σ w.since w.monitor.testSent w.monitor.point

variable {gap : ℤ}

theorem attended_start (hgap : 0 ≤ gap) : Attended interval testReqTimeout gap σ (start t) where
  heard := le_add_of_nonneg_right hgap
  marked := fun h => (Bool.false_ne_true h).elim
  read := trivial

/-- **Every step keeps that.** -/
theorem Attended.step (h : Attended interval testReqTimeout gap σ w) (hpast : Past δ σ w)
    (ha : Heard gap w a) (hgap : 0 ≤ gap) (hstep : w.step interval testReqTimeout a = some w') :
    Attended interval testReqTimeout gap σ w' := by
  obtain ⟨hm, hsince'⟩ := step_eq_some hstep
  obtain ⟨heard, marked, read⟩ := h
  obtain ⟨seen, -, -, -, inTime⟩ := hpast
  obtain ⟨m', since'⟩ := w'
  obtain ⟨⟨ls, ts, out, point, now, handed, answered, unmarked, inTick⟩, since₀⟩ := w
  dsimp only at hm hsince' heard marked read seen inTime
  cases a with
  | advance d =>
    cases Option.some.inj hm
    cases hsince'
    exact ⟨ha, marked, read⟩
  | seen =>
    cases Option.some.inj hm
    cases hsince'
    exact ⟨le_add_of_nonneg_right hgap, fun hout => (Bool.false_ne_true hout).elim, read⟩
  | tick =>
    obtain ⟨-, rfl⟩ := Runs.of_guarded hm
    cases hsince'
    exact ⟨heard, marked, heard, fun hout => heard.trans (Int.add_le_add_right (marked hout) gap)⟩
  | decide =>
    cases point with
    | ticked ls' out' =>
      change now ≤ since₀ + σ at inTime
      obtain ⟨hls, hts⟩ := read
      cases Option.some.inj hm
      cases hsince'
      refine ⟨heard, marked, ?_⟩
      dsimp only at hls hts ⊢
      by_cases hlate : interval < now - ls'
      · rw [if_pos hlate]
        cases out' with
        | false =>
          change interval < gap + σ
          omega
        | true =>
          have := hts rfl
          change now ≤ ts + gap + σ
          omega
      · rw [if_neg hlate]
        trivial
    | waiting | requesting | sending | checking | comparing | stopping | exited => cases hm
  | send =>
    obtain ⟨hp, rfl⟩ := Runs.of_guarded hm
    dsimp only at hp
    subst hp
    exact ⟨heard, marked, read⟩
  | mark =>
    obtain ⟨-, rfl⟩ := Runs.of_guarded hm
    exact ⟨heard, fun _ => seen, trivial⟩
  | check =>
    obtain ⟨hp, rfl⟩ := Runs.of_guarded hm
    dsimp only at hp
    subst hp
    cases hsince'
    change now ≤ since₀ + σ at inTime
    change since₀ ≤ ts + gap + σ at read
    refine ⟨heard, marked, ?_⟩
    change now ≤ ts + gap + 2 * σ
    omega
  | compare =>
    cases point with
    | comparing ts' =>
      change now ≤ since₀ + σ at inTime
      change since₀ ≤ ts' + gap + 2 * σ at read
      cases Option.some.inj hm
      cases hsince'
      refine ⟨heard, marked, ?_⟩
      dsimp only
      by_cases hlate : testReqTimeout < now - ts'
      · rw [if_pos hlate]
        change testReqTimeout < gap + 3 * σ
        omega
      · rw [if_neg hlate]
        trivial
    | waiting | ticked | requesting | sending | checking | stopping | exited => cases hm
  | stop =>
    obtain ⟨-, rfl⟩ := Runs.of_guarded hm
    exact ⟨heard, marked, trivial⟩
  | exit =>
    obtain ⟨-, rfl⟩ := Runs.of_guarded hm
    exact ⟨heard, marked, trivial⟩

/-- **A peer that is heard is not stopped**, whatever falls between a TestRequest and its mark: where
the steps of the loop take `σ` at most, messages that are no further apart than
`TestReqTimeout - 3 σ` keep the session, and messages no further apart than `Interval - σ` keep the
monitor from asking for more. -/
theorem heard_kept {as : List MonitorAction} (hδ : 0 ≤ δ) (hσ : 0 ≤ σ) (hgap : 0 ≤ gap)
    (hrun : Runs.run (step interval testReqTimeout) (start t) as = some w)
    (htime : Runs.Meets (step interval testReqTimeout) (InTime δ σ) (start t) as)
    (hheard : Runs.Meets (step interval testReqTimeout) (Heard gap) (start t) as) :
    (gap + 3 * σ ≤ testReqTimeout → .stop ∉ as) ∧ (gap + σ ≤ interval → .send ∉ as) := by
  have hnext : ∀ u a u', Past δ σ u ∧ Attended interval testReqTimeout gap σ u →
      InTime δ σ u a ∧ Heard gap u a → u.step interval testReqTimeout a = some u' →
      (Past δ σ u' ∧ Attended interval testReqTimeout gap σ u')
        ∧ (gap + 3 * σ ≤ testReqTimeout → a ≠ .stop) ∧ (gap + σ ≤ interval → a ≠ .send) := by
    intro u a u' ⟨hpast, hatt⟩ ⟨hin, hh⟩ hstep
    refine ⟨⟨hpast.step hδ hσ hin hstep, hatt.step hpast hh hgap hstep⟩, fun hle ha => ?_,
      fun hle ha => ?_⟩
    all_goals
      subst ha
      obtain ⟨hp, -⟩ := Runs.of_guarded (step_eq_some hstep).1
      have hread := hatt.read
      rw [hp] at hread
      exact absurd hle (not_le.mpr hread)
  have hall := Runs.run_forall _ hnext ⟨past_start hδ, attended_start hgap⟩ (htime.and hheard) hrun
  exact ⟨fun hle hmem => (hall _ hmem).1 hle rfl, fun hle hmem => (hall _ hmem).2 hle rfl⟩

/-- The peer of `stops_fastPeer` is heard again 30 later, and is not stopped. -/
def heardAgain : List MonitorAction :=
  [.advance 21, .tick, .decide, .send, .seen, .mark, .advance 30, .seen, .advance 30, .tick, .decide]

theorem heard_kept_again : .stop ∉ heardAgain := by
  obtain ⟨w, hrun⟩ : ∃ w, Runs.run (step 20 40) (start 0) heardAgain = some w := ⟨_, rfl⟩
  have hmeets : Runs.Meets (step 20 40) (InTime 60 0) (start 0) heardAgain
      ∧ Runs.Meets (step 20 40) (Heard 30) (start 0) heardAgain := by
    unfold heardAgain
    constructor
    all_goals
      iterate 11 refine (Runs.meets_cons_iff rfl).mpr ⟨by decide, ?_⟩
      trivial
  exact (heard_kept (by decide) (by decide) (by decide) hrun hmeets.1 hmeets.2).1 (by decide)

end Watch

end FixMsg
