import GoFixMsg.Machinery.Runs

/-!
# Scheduler/StartStop — starting the scheduler again

`Start` and `Stop` keep the flag `running`, and a second call in a row does nothing.  But `Stop`
closes the channel `done`, and nothing makes a new one.  So the loop of a second `Start` finds it
closed and returns at once, and a second `Stop` panics: start and stop can be repeated exactly
until a `Start` behind a `Stop` behind a `Start` (`repeatable_iff`).

Calls come one after the other.  The goroutines of the loop go on between them, in any order.

`Start` makes a goroutine that runs the loop, and the goroutine looks at `done` before every round.
What the calls have come to is one of a few stages (`SchedulerStage`), and a stage determines the
flag, the channel and whether the loop runs, once the goroutines have had the time to react.
-/

namespace FixMsg

/-- Where a goroutine of the loop is. -/
inductive SchedulerLoop where
  /-- At the `select`. -/
  | selecting
  /-- In `checkAndExecute`. -/
  | checking
  deriving DecidableEq

/-- `RuntimeScheduler`, with the goroutines that run its loop. -/
structure RuntimeScheduler where
  running : Bool
  /-- The channel `done` has been closed. -/
  done : Bool
  loops : List SchedulerLoop
  /-- A call has panicked. -/
  panicked : Bool

/-- A call on the scheduler, by `StartScheduler` or `StopScheduler` for that of an engine. -/
inductive SchedulerCall where
  | start
  | stop
  deriving DecidableEq

/-- What a goroutine of the loop does. -/
inductive LoopMove where
  /-- The ticker fires, and it begins a check. -/
  | tick
  | checked
  /-- `done` is closed, and it returns. -/
  | quit

/-- A call, or a move of the goroutine at some place. -/
inductive SchedulerAction where
  | call (c : SchedulerCall)
  | move (i : ℕ) (t : LoopMove)

namespace RuntimeScheduler

/-- `NewRuntimeScheduler`. -/
def new : RuntimeScheduler := ⟨false, false, [], false⟩

/-- `Start`. -/
def start (s : RuntimeScheduler) : RuntimeScheduler :=
  if s.running then s else { s with running := true, loops := s.loops ++ [.selecting] }

/-- `Stop`.  It panics where `done` is closed already, with the flag cleared. -/
def stop (s : RuntimeScheduler) : RuntimeScheduler :=
  if s.running then
    if s.done then { s with running := false, panicked := true }
    else { s with running := false, done := true }
  else s

/-- A call. -/
def call (s : RuntimeScheduler) : SchedulerCall → RuntimeScheduler
  | .start => s.start
  | .stop => s.stop

/-- The `select` of `run`, and what is behind it. -/
def move (s : RuntimeScheduler) (i : ℕ) : LoopMove → Option RuntimeScheduler
  | .tick =>
      if s.loops[i]? = some .selecting then some { s with loops := s.loops.set i .checking }
      else none
  | .checked =>
      if s.loops[i]? = some .checking then some { s with loops := s.loops.set i .selecting }
      else none
  | .quit =>
      if s.loops[i]? = some .selecting ∧ s.done = true then
        some { s with loops := s.loops.eraseIdx i }
      else none

/-- A step. -/
def step (s : RuntimeScheduler) : SchedulerAction → Option RuntimeScheduler
  | .call c => some (s.call c)
  | .move i t => s.move i t

/-- What a goroutine leaves alone.  It returns only where `done` is closed. -/
theorem move_spec {s s' : RuntimeScheduler} {i : ℕ} {t : LoopMove} (h : s.move i t = some s') :
    s'.running = s.running ∧ s'.done = s.done ∧ s'.panicked = s.panicked
      ∧ (s'.loops.length = s.loops.length
        ∨ (s.done = true ∧ s'.loops.length + 1 = s.loops.length)) := by
  cases t with
  | tick =>
    obtain ⟨-, rfl⟩ := Runs.of_guarded h
    exact ⟨rfl, rfl, rfl, Or.inl List.length_set⟩
  | checked =>
    obtain ⟨-, rfl⟩ := Runs.of_guarded h
    exact ⟨rfl, rfl, rfl, Or.inl List.length_set⟩
  | quit =>
    obtain ⟨⟨hat, hdone⟩, rfl⟩ := Runs.of_guarded h
    obtain ⟨hlt, -⟩ := List.getElem?_eq_some_iff.mp hat
    refine ⟨rfl, rfl, rfl, Or.inr ⟨hdone, ?_⟩⟩
    rw [List.length_eraseIdx_of_lt hlt]
    omega

/-- Nothing undoes a panic. -/
theorem panicked_call {s : RuntimeScheduler} (h : s.panicked = true) (c : SchedulerCall) :
    (s.call c).panicked = true := by
  cases c with
  | start =>
    change s.start.panicked = true
    unfold start
    split <;> exact h
  | stop =>
    change s.stop.panicked = true
    unfold stop
    split
    · split
      · rfl
      · exact h
    · exact h

/-- **The goroutines have reacted**: none is in a check, and none can return. -/
def Settled (s : RuntimeScheduler) : Prop := ∀ i, s.move i .checked = none ∧ s.move i .quit = none

end RuntimeScheduler

/-- The calls of a run. -/
def schedulerCalls (as : List SchedulerAction) : List SchedulerCall :=
  as.filterMap fun
    | .call c => some c
    | .move _ _ => none

/-- **Start and stop can be repeated**, over a sequence of calls: however the goroutines react
meanwhile, no call panics; there is at most one goroutine of the loop, at every time; and once they
have reacted there is one if and only if the last call was `Start`. -/
structure Repeatable (cs : List SchedulerCall) : Prop where
  noPanic : ∀ as s, schedulerCalls as = cs → Runs.run RuntimeScheduler.step .new as = some s →
    s.panicked = false
  one : ∀ as s, schedulerCalls as <+: cs → Runs.run RuntimeScheduler.step .new as = some s →
    s.loops.length ≤ 1
  running : ∀ as s, schedulerCalls as = cs → Runs.run RuntimeScheduler.step .new as = some s →
    s.Settled → (s.loops ≠ [] ↔ cs.getLast? = some .start)

/-! ## Stages

A call takes a stage to the next one, and a goroutine leaves it as it is.  So the stage of a run
depends on its calls alone, and that there was no third of the calls start, stop, start is a
property of the list of calls. -/

/-- What the calls so far have come to. -/
inductive SchedulerStage where
  | unstarted
  | started
  | stopped
  /-- Started behind a stop. -/
  | restarted
  | crashed

namespace SchedulerStage

/-- What a call does to the stage. -/
def next : SchedulerStage → SchedulerCall → SchedulerStage
  | unstarted, .start => started
  | unstarted, .stop => unstarted
  | started, .start => started
  | started, .stop => stopped
  | stopped, .start => restarted
  | stopped, .stop => stopped
  | restarted, .start => restarted
  | restarted, .stop => crashed
  | crashed, _ => crashed

/-- The scheduler at a stage. -/
def Holds : SchedulerStage → RuntimeScheduler → Prop
  | unstarted, s => s.running = false ∧ s.done = false ∧ s.loops.length = 0 ∧ s.panicked = false
  | started, s => s.running = true ∧ s.done = false ∧ s.loops.length = 1 ∧ s.panicked = false
  | stopped, s => s.running = false ∧ s.done = true ∧ s.loops.length ≤ 1 ∧ s.panicked = false
  | restarted, s => s.running = true ∧ s.done = true ∧ s.panicked = false
  | crashed, s => s.panicked = true

/-- What is left to come, of a start behind a stop behind a start. -/
def left : SchedulerStage → List SchedulerCall
  | unstarted => [.start, .stop, .start]
  | started => [.stop, .start]
  | stopped => [.start]
  | restarted | crashed => []

/-- The last call was `Start`. -/
def startedLast : SchedulerStage → Bool
  | started | restarted => true
  | unstarted | stopped | crashed => false

variable {st : SchedulerStage} {s s' : RuntimeScheduler}

/-- **A call takes the stage on.** -/
theorem Holds.call (h : st.Holds s) (c : SchedulerCall) : (st.next c).Holds (s.call c) := by
  cases st with
  | unstarted =>
    obtain ⟨hrunning, hdone, hnone, hok⟩ := h
    have hnot : ¬ s.running = true := ne_true_of_eq_false hrunning
    cases c with
    | start =>
      rw [RuntimeScheduler.call, RuntimeScheduler.start, if_neg hnot]
      refine ⟨rfl, hdone, ?_, hok⟩
      rw [List.length_append, hnone]
      rfl
    | stop =>
      rw [RuntimeScheduler.call, RuntimeScheduler.stop, if_neg hnot]
      exact ⟨hrunning, hdone, hnone, hok⟩
  | started =>
    obtain ⟨hrunning, hdone, hone, hok⟩ := h
    cases c with
    | start =>
      rw [RuntimeScheduler.call, RuntimeScheduler.start, if_pos hrunning]
      exact ⟨hrunning, hdone, hone, hok⟩
    | stop =>
      rw [RuntimeScheduler.call, RuntimeScheduler.stop, if_pos hrunning,
        if_neg (ne_true_of_eq_false hdone)]
      exact ⟨rfl, rfl, Nat.le_of_eq hone, hok⟩
  | stopped =>
    obtain ⟨hrunning, hdone, hone, hok⟩ := h
    have hnot : ¬ s.running = true := ne_true_of_eq_false hrunning
    cases c with
    | start =>
      rw [RuntimeScheduler.call, RuntimeScheduler.start, if_neg hnot]
      exact ⟨rfl, hdone, hok⟩
    | stop =>
      rw [RuntimeScheduler.call, RuntimeScheduler.stop, if_neg hnot]
      exact ⟨hrunning, hdone, hone, hok⟩
  | restarted =>
    obtain ⟨hrunning, hdone, hok⟩ := h
    cases c with
    | start =>
      rw [RuntimeScheduler.call, RuntimeScheduler.start, if_pos hrunning]
      exact ⟨hrunning, hdone, hok⟩
    | stop =>
      rw [RuntimeScheduler.call, RuntimeScheduler.stop, if_pos hrunning, if_pos hdone]
      rfl
  | crashed => exact RuntimeScheduler.panicked_call h c

/-- **A goroutine leaves it as it is.**  None can return while the channel is open. -/
theorem Holds.move (h : st.Holds s) {i : ℕ} {t : LoopMove} (hmove : s.move i t = some s') :
    st.Holds s' := by
  obtain ⟨hrunning, hdone, hpanicked, hlength⟩ := RuntimeScheduler.move_spec hmove
  cases st with
  | unstarted =>
    obtain ⟨h₁, h₂, hnone, h₄⟩ := h
    refine ⟨hrunning.trans h₁, hdone.trans h₂, ?_, hpanicked.trans h₄⟩
    omega
  | started =>
    obtain ⟨h₁, h₂, hone, h₄⟩ := h
    refine ⟨hrunning.trans h₁, hdone.trans h₂, ?_, hpanicked.trans h₄⟩
    rcases hlength with hlength | ⟨hclosed, -⟩
    · exact hlength.trans hone
    · exact absurd hclosed (ne_true_of_eq_false h₂)
  | stopped =>
    obtain ⟨h₁, h₂, hone, h₄⟩ := h
    refine ⟨hrunning.trans h₁, hdone.trans h₂, ?_, hpanicked.trans h₄⟩
    omega
  | restarted =>
    obtain ⟨h₁, h₂, h₃⟩ := h
    exact ⟨hrunning.trans h₁, hdone.trans h₂, hpanicked.trans h₃⟩
  | crashed => exact hpanicked.trans h

/-- **A run leads to the stage of its calls.** -/
theorem Holds.run {as : List SchedulerAction} (h : st.Holds s)
    (hrun : Runs.run RuntimeScheduler.step s as = some s') :
    ((schedulerCalls as).foldl next st).Holds s' := by
  induction as generalizing st s with
  | nil => exact Option.some.inj hrun ▸ h
  | cons a as ih =>
    obtain ⟨s₁, hstep, hrest⟩ := Runs.run_cons_eq_some.mp hrun
    cases a with
    | call c => exact ih (Option.some.inj hstep ▸ h.call c) hrest
    | move i t => exact ih (h.move hstep) hrest

/-- **A third of the calls takes it off**: the stages where the scheduler is right are those where
something is left. -/
theorem left_foldl_eq_nil_iff (cs : List SchedulerCall) :
    (cs.foldl next st).left = [] ↔ st.left.Sublist cs := by
  induction cs generalizing st with
  | nil => exact List.sublist_nil.symm
  | cons c cs ih =>
    rw [List.foldl_cons, ih]
    cases st with
    | unstarted =>
      cases c with
      | start => exact List.cons_sublist_cons.symm
      | stop => exact (Runs.sublist_cons_of_ne (by decide)).symm
    | started =>
      cases c with
      | start => exact (Runs.sublist_cons_of_ne (by decide)).symm
      | stop => exact List.cons_sublist_cons.symm
    | stopped =>
      cases c with
      | start => exact List.cons_sublist_cons.symm
      | stop => exact (Runs.sublist_cons_of_ne (by decide)).symm
    | restarted => cases c <;> exact iff_of_true (List.nil_sublist _) (List.nil_sublist _)
    | crashed => exact iff_of_true (List.nil_sublist _) (List.nil_sublist _)

/-- A stage tells the last call, short of a crash. -/
theorem getLast?_eq_start_iff {cs : List SchedulerCall}
    (h : cs.foldl next unstarted ≠ crashed) :
    cs.getLast? = some .start ↔ (cs.foldl next unstarted).startedLast = true := by
  rcases List.eq_nil_or_concat cs with rfl | ⟨l, c, rfl⟩
  · decide
  · rw [List.concat_eq_append, List.foldl_append] at h ⊢
    rw [List.getLast?_concat]
    revert h
    cases c with
    | start => cases l.foldl next unstarted <;> simp [next, startedLast]
    | stop => cases l.foldl next unstarted <;> simp [next, startedLast]

end SchedulerStage

namespace RuntimeScheduler

/-- **Where the goroutines have reacted** and the channel is closed, all have returned. -/
theorem Settled.loops_eq_nil {s : RuntimeScheduler} (h : s.Settled) (hdone : s.done = true) :
    s.loops = [] := by
  cases hloops : s.loops with
  | nil => rfl
  | cons l ls =>
    obtain ⟨hchecked, hquit⟩ := h 0
    cases l with
    | selecting =>
      rw [move, if_pos ⟨by rw [hloops]; rfl, hdone⟩] at hquit
      cases hquit
    | checking =>
      rw [move, if_pos (by rw [hloops]; rfl)] at hchecked
      cases hchecked

/-- A goroutine at a place ends its check, or returns: what is left to do gets less. -/
theorem exists_move_of_not_settled {s : RuntimeScheduler} (h : ¬ s.Settled) :
    ∃ (a : ℕ × LoopMove) (s' : RuntimeScheduler), s.move a.1 a.2 = some s' ∧
      s'.loops.length + s'.loops.count .checking < s.loops.length + s.loops.count .checking := by
  obtain ⟨i, hi⟩ := not_forall.mp h
  by_cases hchecking : s.loops[i]? = some .checking
  · refine ⟨(i, .checked), _, if_pos hchecking, ?_⟩
    obtain ⟨hlt, hget⟩ := List.getElem?_eq_some_iff.mp hchecking
    have hpos : 0 < s.loops.count .checking := List.count_pos_iff.mpr (hget ▸ List.getElem_mem hlt)
    have hcount : (s.loops.set i .selecting).count .checking = s.loops.count .checking - 1 := by
      rw [List.count_set hlt, hget]
      rfl
    dsimp only
    rw [List.length_set, hcount]
    omega
  · by_cases hquit : s.loops[i]? = some .selecting ∧ s.done = true
    · refine ⟨(i, .quit), _, if_pos hquit, ?_⟩
      obtain ⟨hlt, -⟩ := List.getElem?_eq_some_iff.mp hquit.1
      have hcount := (List.eraseIdx_sublist s.loops i).count_le SchedulerLoop.checking
      dsimp only
      rw [List.length_eraseIdx_of_lt hlt]
      omega
    · exact absurd ⟨if_neg hchecking, if_neg hquit⟩ hi

/-- **The goroutines do react**, whatever they are at. -/
theorem exists_settled (s : RuntimeScheduler) :
    ∃ as s', Runs.run step s as = some s' ∧ schedulerCalls as = [] ∧ s'.Settled := by
  have hreact : ∃ moves s', Runs.run (fun s (a : ℕ × LoopMove) => s.move a.1 a.2) s moves = some s'
      ∧ s'.Settled := by
    refine @Runs.exists_run_of_progress _ _ _ (fun _ => True) Settled
      (fun s => s.loops.length + s.loops.count .checking) (fun s _ hnot => ?_) s trivial
    obtain ⟨a, s', hmove, hlt⟩ := exists_move_of_not_settled hnot
    exact ⟨a, s', hmove, trivial, hlt⟩
  obtain ⟨moves, s', hrun, hsettled⟩ := hreact
  refine ⟨moves.map fun a => .move a.1 a.2, s', ?_, ?_, hsettled⟩
  · induction moves generalizing s with
    | nil => exact hrun
    | cons a moves ih =>
      obtain ⟨t, ht, hrest⟩ := Runs.run_cons_eq_some.mp hrun
      exact Runs.run_cons_eq_some.mpr ⟨t, ht, ih t hrest⟩
  · rw [schedulerCalls, List.filterMap_map]
    exact List.filterMap_eq_nil_iff.mpr fun _ _ => rfl

end RuntimeScheduler

namespace SchedulerStage

variable {st : SchedulerStage} {s : RuntimeScheduler}

/-- Where something is left there is no panic, and one goroutine at most. -/
theorem Holds.one (h : st.Holds s) (hleft : st.left ≠ []) :
    s.panicked = false ∧ s.loops.length ≤ 1 := by
  cases st with
  | unstarted =>
    obtain ⟨-, -, hnone, hok⟩ := h
    exact ⟨hok, by omega⟩
  | started =>
    obtain ⟨-, -, hone, hok⟩ := h
    exact ⟨hok, Nat.le_of_eq hone⟩
  | stopped =>
    obtain ⟨-, -, hone, hok⟩ := h
    exact ⟨hok, hone⟩
  | restarted | crashed => exact absurd rfl hleft

/-- **There the loop runs where it has been started last**, once the goroutines have reacted. -/
theorem Holds.loops_ne_nil_iff (h : st.Holds s) (hleft : st.left ≠ []) (hs : s.Settled) :
    s.loops ≠ [] ↔ st.startedLast = true := by
  cases st with
  | unstarted =>
    obtain ⟨-, -, hnone, -⟩ := h
    exact iff_of_false (not_not_intro (List.length_eq_zero_iff.mp hnone)) Bool.false_ne_true
  | started =>
    obtain ⟨-, -, hone, -⟩ := h
    refine iff_of_true (fun hnil => ?_) rfl
    rw [hnil] at hone
    cases hone
  | stopped =>
    obtain ⟨-, hdone, -, -⟩ := h
    exact iff_of_false (not_not_intro (hs.loops_eq_nil hdone)) Bool.false_ne_true
  | restarted | crashed => exact absurd rfl hleft

end SchedulerStage

/-- A run of the calls alone. -/
theorem exists_run_calls (cs : List SchedulerCall) (s : RuntimeScheduler) :
    ∃ as s', Runs.run RuntimeScheduler.step s as = some s' ∧ schedulerCalls as = cs := by
  induction cs generalizing s with
  | nil => exact ⟨[], s, rfl, rfl⟩
  | cons c cs ih =>
    obtain ⟨as, s', hrun, hcalls⟩ := ih (s.call c)
    exact ⟨.call c :: as, s', hrun, congrArg (c :: ·) hcalls⟩

/-- **The goroutines react to any calls**, in some run. -/
theorem exists_settled_run (cs : List SchedulerCall) : ∃ as s,
    Runs.run RuntimeScheduler.step .new as = some s ∧ schedulerCalls as = cs ∧ s.Settled := by
  obtain ⟨as, s, hrun, hcalls⟩ := exists_run_calls cs .new
  obtain ⟨moves, s', hmoves, hnone, hsettled⟩ := s.exists_settled
  refine ⟨as ++ moves, s', Runs.run_append_eq_some.mpr ⟨s, hrun, hmoves⟩, ?_, hsettled⟩
  rw [schedulerCalls, List.filterMap_append]
  exact (congrArg₂ (· ++ ·) hcalls hnone).trans (List.append_nil cs)

/-- The stage of the calls of a run. -/
theorem stage_of_run {cs : List SchedulerCall} {as : List SchedulerAction} {s : RuntimeScheduler}
    (hcalls : schedulerCalls as = cs) (hrun : Runs.run RuntimeScheduler.step .new as = some s) :
    (cs.foldl SchedulerStage.next .unstarted).Holds s := by
  have hnew : SchedulerStage.unstarted.Holds .new := ⟨rfl, rfl, rfl, rfl⟩
  exact hcalls ▸ hnew.run hrun

/-- **Start and stop can be repeated exactly until** a start behind a stop behind a start. -/
theorem repeatable_iff (cs : List SchedulerCall) :
    Repeatable cs ↔ ¬ [SchedulerCall.start, .stop, .start].Sublist cs := by
  constructor
  · intro h hsub
    obtain ⟨as, s, hrun, hcalls, hsettled⟩ := exists_settled_run cs
    have hstage := stage_of_run hcalls hrun
    have hleft : (cs.foldl SchedulerStage.next .unstarted).left = [] :=
      (SchedulerStage.left_foldl_eq_nil_iff cs).mpr hsub
    have hlast := @SchedulerStage.getLast?_eq_start_iff cs
    revert hstage hleft hlast
    cases cs.foldl SchedulerStage.next .unstarted with
    | unstarted | started | stopped => exact fun _ hleft => absurd hleft (List.cons_ne_nil _ _)
    | restarted =>
      intro hstage _ hlast
      have hstart : cs.getLast? = some .start := (hlast (by rintro ⟨⟩)).mpr rfl
      exact (h.running as s hcalls hrun hsettled).mpr hstart (hsettled.loops_eq_nil hstage.2.1)
    | crashed =>
      intro hstage _ _
      exact absurd hstage (ne_true_of_eq_false (h.noPanic as s hcalls hrun))
  · intro hsub
    have hleft : ∀ l, l <+: cs → (l.foldl SchedulerStage.next .unstarted).left ≠ [] :=
      fun l hl hnil => hsub
        (((SchedulerStage.left_foldl_eq_nil_iff l).mp hnil).trans hl.sublist)
    refine ⟨fun as s hcalls hrun => ?_, fun as s hcalls hrun => ?_, fun as s hcalls hrun hs => ?_⟩
    · exact ((stage_of_run hcalls hrun).one (hleft cs List.prefix_rfl)).1
    · exact ((stage_of_run rfl hrun).one (hleft _ hcalls)).2
    · have hcrashed : cs.foldl SchedulerStage.next .unstarted ≠ .crashed :=
        fun hcrashed => hleft cs List.prefix_rfl (by rw [hcrashed]; rfl)
      rw [SchedulerStage.getLast?_eq_start_iff hcrashed]
      exact (stage_of_run hcalls hrun).loops_ne_nil_iff (hleft cs List.prefix_rfl) hs

/-- **A second start does not start it**, and a second stop panics. -/
theorem not_repeatable_restart :
    ¬ Repeatable [.start, .stop, .start] ∧ ¬ Repeatable [.start, .stop, .start, .stop] := by
  constructor
  · intro h
    have hsettled : RuntimeScheduler.Settled ⟨true, true, [], false⟩ := fun _ => ⟨rfl, rfl⟩
    exact (h.running [.call .start, .call .stop, .call .start, .move 1 .quit, .move 0 .quit] _ rfl
      rfl hsettled).mpr rfl rfl
  · intro h
    exact absurd (h.noPanic [.call .start, .call .stop, .call .start, .call .stop] _ rfl rfl)
      (by decide)

end FixMsg
