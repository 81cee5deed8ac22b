import GoFixMsg.GoLang.Strconv
import Mathlib.Data.List.Nodup
import Mathlib.Tactic.Linarith

/-!
# Scheduler/RuntimeScheduler — how often a scheduled action runs

`checkAndExecute` is called once in each clock minute.  A task is due in its own minute and in the
one behind it, and both times its action is started.  So an action runs once a day only at 23:59,
where the minute behind is on another day; and only there it does not run where the call in its own
minute is missed (`schedule_iff`).

Times are counted in nanoseconds, in a zone that is `off` minutes ahead of UTC.

A task has a time of day and the name of an action; its handlers are looked up by name, and a task
without one does nothing.  A time is valid if `time.Parse` accepts it.  Daylight saving is left out:
the zone is at a fixed distance from UTC through the run.
-/

open GoLang

namespace FixMsg

/-- The value of a digit. -/
def digitValue (b : UInt8) : ℕ := b.toNat - 48

/-- `getnum` of the package `time`: a number of two digits or, where that is not `fixed`, one. -/
def getnum (fixed : Bool) : Bytes → Option (ℕ × Bytes)
  | [] => none
  | a :: s =>
      if Decimal.isDigit a = false then none
      else
        match s with
        | [] => if fixed then none else some (digitValue a, [])
        | b :: s' =>
            if Decimal.isDigit b = true then some (10 * digitValue a + digitValue b, s')
            else if fixed then none else some (digitValue a, s)

/-- `time.Parse("15:04", value)`: the hour and the minute. -/
def parseClock (value : Bytes) : Option (ℕ × ℕ) :=
  (getnum false value).bind fun hour =>
    match hour.2 with
    -- behind the colon
    | 58 :: s =>
        (getnum true s).bind fun minute =>
          if hour.1 < 24 ∧ minute.1 < 60 ∧ minute.2 = [] then some (hour.1, minute.1) else none
    | _ => none

/-- `ScheduleTask`. -/
structure ScheduleTask where
  time : Bytes
  action : Bytes
  deriving DecidableEq

/-- `time.Minute`. -/
def minuteLength : ℤ := 60 * 10 ^ 9

/-- `now.Truncate(time.Minute)`. -/
def truncateMinute (now : ℤ) : ℤ := now - now % minuteLength

/-- The clock minute of a time, counted through the days. -/
def clockMinute (off now : ℤ) : ℤ := now / minuteLength + off

/-- `time.Date(now.Year(), now.Month(), now.Day(), hour, minute, 0, 0, now.Location())`. -/
def todayAt (off now : ℤ) (hour minute : ℕ) : ℤ :=
  (clockMinute off now / 1440 * 1440 + (60 * hour + minute) - off) * minuteLength

/-- A task is due at a time. -/
def ScheduleTask.dueAt (off : ℤ) (task : ScheduleTask) (now : ℤ) : Bool :=
  match parseClock task.time with
  | none => false
  | some (hour, minute) =>
      let delta := truncateMinute now - todayAt off now hour minute
      0 ≤ delta && delta ≤ minuteLength

/-- A call of `checkAndExecute` starts the action of a task. -/
def ScheduleTask.startsAt (off : ℤ) (handlers : List Bytes) (task : ScheduleTask) (now : ℤ) : Bool :=
  task.dueAt off now && handlers.contains task.action

/-- **`checkAndExecute`**: the tasks whose actions it starts, given the actions with a handler. -/
def checkAndExecute (off : ℤ) (handlers : List Bytes) (tasks : List ScheduleTask) (now : ℤ) :
    List ScheduleTask :=
  tasks.filter fun task => task.startsAt off handlers now

/-! ## When a task is due

`checkAndExecute` truncates the current time to its minute and compares it with the task's time on
the current day.  The comparison allows for one minute more, to catch a call that was missed, but
nothing remembers that the task has run. -/

/-- The clock minute of a task, in its day. -/
def ScheduleTask.minute (task : ScheduleTask) : ℕ :=
  ((parseClock task.time).map fun t => 60 * t.1 + t.2).getD 0

/-- Its clock minute on the given day. -/
def ScheduleTask.minuteOn (task : ScheduleTask) (d : ℤ) : ℤ := 1440 * d + task.minute

/-- The time of a task is valid, and its action has a handler. -/
def ScheduleTask.Valid (handlers : List Bytes) (task : ScheduleTask) : Prop :=
  (∃ t, parseClock task.time = some t) ∧ task.action ∈ handlers

theorem lt_of_parseClock {value : Bytes} {hour minute : ℕ}
    (h : parseClock value = some (hour, minute)) : hour < 24 ∧ minute < 60 := by
  obtain ⟨t, -, ht⟩ := Option.bind_eq_some_iff.mp h
  split at ht
  · obtain ⟨u, -, hu⟩ := Option.bind_eq_some_iff.mp ht
    split at hu
    · next hguard =>
      cases hu
      exact ⟨hguard.1, hguard.2.1⟩
    · cases hu
  · cases ht

/-- **A valid task is due in its own minute and in the one behind it**, on the same day. -/
theorem dueAt_iff {off : ℤ} {task : ScheduleTask} {t : ℕ × ℕ} (h : parseClock task.time = some t)
    (now : ℤ) : task.dueAt off now = true ↔
      clockMinute off now % 1440 = task.minute ∨ clockMinute off now % 1440 = task.minute + 1 := by
  obtain ⟨hour, minute⟩ := t
  have hminute : task.minute = 60 * hour + minute := by
    rw [ScheduleTask.minute, h]
    rfl
  have hdelta : truncateMinute now - todayAt off now hour minute
      = (clockMinute off now % 1440 - task.minute) * minuteLength := by
    have hnow := Int.emod_add_mul_ediv now minuteLength
    have hday := Int.emod_add_mul_ediv (clockMinute off now) 1440
    have hclock : now / minuteLength = clockMinute off now - off := by
      rw [clockMinute, add_sub_cancel_right]
    have htruncate : truncateMinute now = (clockMinute off now - off) * minuteLength := by
      rw [truncateMinute, ← hclock]
      linarith
    rw [htruncate, todayAt, ← sub_mul, hminute, Nat.cast_add, Nat.cast_mul, Nat.cast_ofNat]
    congr 1
    linarith
  have hpos : 0 < minuteLength := by decide
  rw [ScheduleTask.dueAt, h]
  dsimp only
  rw [hdelta, Bool.and_eq_true, decide_eq_true_eq, decide_eq_true_eq]
  constructor
  · rintro ⟨hlo, hhi⟩
    have hge : 0 ≤ clockMinute off now % 1440 - task.minute := nonneg_of_mul_nonneg_left hlo hpos
    have hle : clockMinute off now % 1440 - task.minute ≤ 1 := by
      by_contra hnot
      have hmul := Int.mul_le_mul_of_nonneg_right (not_le.mp hnot) hpos.le
      linarith
    omega
  · rintro (heq | heq)
    · rw [heq, sub_self, zero_mul]
      exact ⟨le_refl _, hpos.le⟩
    · rw [heq, add_sub_cancel_left, one_mul]
      exact ⟨hpos.le, le_refl _⟩

/-! ## Calls over whole days

The calls of a run are a list of times, one in each clock minute.  A start belongs to the day of the
task's minute, and the starts for a day are counted over all the calls. -/

/-- How many of the calls start the action of a task for the given day: from the task's minute on that
day up to its minute on the next. -/
def startsFor (off : ℤ) (handlers : List Bytes) (tasks : List ScheduleTask) (task : ScheduleTask)
    (d : ℤ) (calls : List ℤ) : ℕ :=
  calls.countP fun now => task ∈ checkAndExecute off handlers tasks now
    && (task.minuteOn d ≤ clockMinute off now && clockMinute off now < task.minuteOn (d + 1))

/-- The clock minutes of `n` days, from the given one on. -/
def dayMinutes (d : ℤ) (n : ℕ) : List ℤ :=
  (List.range (1440 * n)).map fun k : ℕ => 1440 * d + (k : ℤ)

/-- With one call in each clock minute, at any time in it, over any number of days, the action of each
task is started exactly once a day. -/
def RunsDaily (off : ℤ) (handlers : List Bytes) (tasks : List ScheduleTask) : Prop :=
  ∀ d n calls, calls.map (clockMinute off) = dayMinutes d n →
    ∀ task ∈ tasks, ∀ k, d ≤ k → k < d + n → startsFor off handlers tasks task k calls = 1

/-- Where calls are missed, but not the one in the minute behind the task's own, its action is started
exactly once for that day. -/
def RunsLate (off : ℤ) (handlers : List Bytes) (tasks : List ScheduleTask) : Prop :=
  ∀ d n (missed : List ℤ) calls,
    calls.map (clockMinute off) = (dayMinutes d n).filter (fun k => k ∉ missed) →
    ∀ task ∈ tasks, ∀ k, task.minuteOn k ∈ missed → task.minuteOn k + 1 ∈ dayMinutes d n →
      task.minuteOn k + 1 ∉ missed → startsFor off handlers tasks task k calls = 1

theorem countP_or {a b : ℤ} (h : a ≠ b) (l : List ℤ) :
    l.countP (fun k => k == a || k == b) = l.count a + l.count b := by
  induction l with
  | nil => rfl
  | cons k l ih =>
    rw [List.countP_cons, List.count_cons, List.count_cons, ih]
    by_cases ha : k = a
    · subst ha
      rw [if_pos (by simp), if_pos (by simp), if_neg (by simpa using h)]
      omega
    · by_cases hb : k = b
      · subst hb
        rw [if_pos (by simp), if_neg (by simpa using ha), if_pos (by simp)]
        omega
      · rw [if_neg (by simp [ha, hb]), if_neg (by simpa using ha), if_neg (by simpa using hb)]
        omega

section Starts

variable {off : ℤ} {handlers : List Bytes} {tasks : List ScheduleTask} {task : ScheduleTask}
variable (h : task.Valid handlers)

include h

theorem minute_lt : task.minute < 1440 := by
  obtain ⟨⟨⟨hour, minute⟩, hparse⟩, -⟩ := h
  obtain ⟨hhour, hminute⟩ := lt_of_parseClock hparse
  rw [ScheduleTask.minute, hparse, Option.map_some, Option.getD_some]
  omega

/-- **The starts for a day** are the calls in the task's own minute and, on the same day, those in
the minute behind.  Whether a call starts the action depends on its clock minute alone. -/
theorem startsFor_eq (htask : task ∈ tasks) (d : ℤ) (calls : List ℤ) :
    startsFor off handlers tasks task d calls = (calls.map (clockMinute off)).count (task.minuteOn d)
      + if task.minute = 1439 then 0
        else (calls.map (clockMinute off)).count (task.minuteOn d + 1) := by
  have hlt := minute_lt h
  obtain ⟨⟨t, hparse⟩, hhandler⟩ := h
  have hstarts : ∀ now, (decide (task ∈ checkAndExecute off handlers tasks now)
      && (task.minuteOn d ≤ clockMinute off now && clockMinute off now < task.minuteOn (d + 1))) = true
      ↔ clockMinute off now = task.minuteOn d
        ∨ (task.minute ≠ 1439 ∧ clockMinute off now = task.minuteOn d + 1) := by
    intro now
    rw [Bool.and_eq_true, Bool.and_eq_true, decide_eq_true_eq, decide_eq_true_eq,
      decide_eq_true_eq, checkAndExecute, List.mem_filter, and_iff_right htask,
      ScheduleTask.startsAt, List.contains_iff_mem.mpr hhandler, Bool.and_true, dueAt_iff hparse]
    unfold ScheduleTask.minuteOn
    omega
  by_cases hlast : task.minute = 1439
  · rw [if_pos hlast, Nat.add_zero, startsFor, List.count, List.countP_map]
    refine List.countP_congr fun now _ => ?_
    rw [hstarts, Function.comp_apply, beq_iff_eq]
    exact or_iff_left fun hnot => hnot.1 hlast
  · rw [if_neg hlast, startsFor, ← countP_or (by omega), List.countP_map]
    refine List.countP_congr fun now _ => ?_
    rw [hstarts, Function.comp_apply, Bool.or_eq_true, beq_iff_eq, beq_iff_eq]
    exact or_congr_right (and_iff_right hlast)

end Starts

theorem nodup_dayMinutes (d : ℤ) (n : ℕ) : (dayMinutes d n).Nodup := by
  refine List.Nodup.map (fun j k hjk => ?_) List.nodup_range
  omega

theorem mem_dayMinutes {d k : ℤ} {n : ℕ} :
    k ∈ dayMinutes d n ↔ 1440 * d ≤ k ∧ k < 1440 * d + 1440 * n := by
  rw [dayMinutes, List.mem_map]
  constructor
  · rintro ⟨j, hj, rfl⟩
    have := List.mem_range.mp hj
    omega
  · rintro ⟨hlo, hhi⟩
    exact ⟨(k - 1440 * d).toNat, List.mem_range.mpr (by omega), by omega⟩

/-- Calls at the beginning of the given clock minutes. -/
def callsIn (off : ℤ) (minutes : List ℤ) : List ℤ := minutes.map fun k => (k - off) * minuteLength

theorem map_callsIn (off : ℤ) (minutes : List ℤ) :
    (callsIn off minutes).map (clockMinute off) = minutes := by
  rw [callsIn, List.map_map]
  refine (List.map_congr_left fun k _ => ?_).trans (List.map_id minutes)
  rw [Function.comp_apply, clockMinute, Int.mul_ediv_cancel _ (by decide), sub_add_cancel, id]

theorem count_dayMinutes {d k : ℤ} {n : ℕ} (h : k ∈ dayMinutes d n) : (dayMinutes d n).count k = 1 :=
  List.count_eq_one_of_mem (nodup_dayMinutes d n) h

/-- **With one call in each minute**, an action is started twice a day, or once at 23:59. -/
theorem startsFor_daily {off : ℤ} {handlers : List Bytes} {tasks : List ScheduleTask}
    {task : ScheduleTask} (h : task.Valid handlers) (htask : task ∈ tasks) {d : ℤ} {n : ℕ}
    {calls : List ℤ} (hcalls : calls.map (clockMinute off) = dayMinutes d n) {k : ℤ} (hlo : d ≤ k)
    (hhi : k < d + n) :
    startsFor off handlers tasks task k calls = if task.minute = 1439 then 1 else 2 := by
  have hlt := minute_lt h
  have hown : task.minuteOn k ∈ dayMinutes d n := by
    rw [mem_dayMinutes, ScheduleTask.minuteOn]
    omega
  rw [startsFor_eq h htask, hcalls, count_dayMinutes hown]
  split
  · rfl
  · have hnext : task.minuteOn k + 1 ∈ dayMinutes d n := by
      rw [mem_dayMinutes, ScheduleTask.minuteOn]
      omega
    rw [count_dayMinutes hnext]

/-- **Where the call in its own minute is missed**, and the one behind is made, it is started once, or
never at 23:59. -/
theorem startsFor_late {off : ℤ} {handlers : List Bytes} {tasks : List ScheduleTask}
    {task : ScheduleTask} (h : task.Valid handlers) (htask : task ∈ tasks) {d : ℤ} {n : ℕ}
    {missed calls : List ℤ}
    (hcalls : calls.map (clockMinute off) = (dayMinutes d n).filter (fun k => k ∉ missed)) {k : ℤ}
    (hown : task.minuteOn k ∈ missed) (hday : task.minuteOn k + 1 ∈ dayMinutes d n)
    (hnext : task.minuteOn k + 1 ∉ missed) :
    startsFor off handlers tasks task k calls = if task.minute = 1439 then 0 else 1 := by
  rw [startsFor_eq h htask, hcalls, List.count_eq_zero_of_not_mem fun hmem => by simp [hown] at hmem,
    @List.count_filter _ _ _ (fun k => decide (k ∉ missed)) _ _ (decide_eq_true hnext),
    count_dayMinutes hday, Nat.zero_add]

/-- **With one call in each minute each action runs once a day exactly if all tasks are at 23:59, and
with the call in its own minute missed exactly if none is.**  So both hold for no task. -/
theorem schedule_iff {off : ℤ} {handlers : List Bytes} {tasks : List ScheduleTask}
    (h : ∀ task ∈ tasks, task.Valid handlers) :
    (RunsDaily off handlers tasks ↔ ∀ task ∈ tasks, task.minute = 1439)
      ∧ (RunsLate off handlers tasks ↔ ∀ task ∈ tasks, task.minute ≠ 1439)
      ∧ (RunsDaily off handlers tasks ∧ RunsLate off handlers tasks ↔ tasks = []) := by
  have hdaily : RunsDaily off handlers tasks ↔ ∀ task ∈ tasks, task.minute = 1439 := by
    constructor
    · intro hruns task htask
      have honce := hruns 0 1 _ (map_callsIn off (dayMinutes 0 1)) task htask 0 le_rfl (by decide)
      rw [startsFor_daily (h task htask) htask (map_callsIn off _) le_rfl (by decide)] at honce
      by_contra hnot
      rw [if_neg hnot] at honce
      cases honce
    · intro hlast d n calls hcalls task htask k hlo hhi
      rw [startsFor_daily (h task htask) htask hcalls hlo hhi, if_pos (hlast task htask)]
  have hlate : RunsLate off handlers tasks ↔ ∀ task ∈ tasks, task.minute ≠ 1439 := by
    constructor
    · intro hruns task htask hlast
      have hday : task.minuteOn 0 + 1 ∈ dayMinutes 0 2 := by
        rw [mem_dayMinutes, ScheduleTask.minuteOn]
        omega
      have hown : task.minuteOn 0 ∈ [task.minuteOn 0] := List.mem_singleton_self _
      have hnext : task.minuteOn 0 + 1 ∉ [task.minuteOn 0] := by
        rw [List.mem_singleton]
        omega
      have honce := hruns 0 2 _ _ (map_callsIn off _) task htask 0 hown hday hnext
      rw [startsFor_late (h task htask) htask (map_callsIn off _) hown hday hnext,
        if_pos hlast] at honce
      cases honce
    · intro hnot d n missed calls hcalls task htask k hown hday hnext
      rw [startsFor_late (h task htask) htask hcalls hown hday hnext, if_neg (hnot task htask)]
  refine ⟨hdaily, hlate, ?_⟩
  rw [hdaily, hlate]
  constructor
  · rintro ⟨hlast, hnot⟩
    cases tasks with
    | nil => rfl
    | cons task rest => exact absurd (hlast task List.mem_cons_self) (hnot task List.mem_cons_self)
  · rintro rfl
    exact ⟨fun task htask => absurd htask List.not_mem_nil,
      fun task htask => absurd htask List.not_mem_nil⟩

/-- A reset at half past nine. -/
def morningReset : ScheduleTask := ⟨ascii "09:30", ascii "reset"⟩

/-- It still runs where the call at half past nine is missed. -/
theorem schedule_morning_late : RunsLate 0 [ascii "reset"] [morningReset] := by
  have hvalid : ∀ task ∈ [morningReset], task.Valid [ascii "reset"] := by
    intro task htask
    rw [List.mem_singleton.mp htask]
    exact ⟨⟨(9, 30), by decide⟩, by decide⟩
  refine (schedule_iff hvalid).2.1.mpr fun task htask => ?_
  rw [List.mem_singleton.mp htask]
  decide

/-- But with one call in each minute of a day it runs twice. -/
theorem morning_runs_twice : ¬ RunsDaily 0 [ascii "reset"] [morningReset]
    ∧ startsFor 0 [ascii "reset"] [morningReset] morningReset 0 (callsIn 0 (dayMinutes 0 1)) = 2 := by
  have hvalid : morningReset.Valid [ascii "reset"] := ⟨⟨(9, 30), by decide⟩, by decide⟩
  have htwice :
      startsFor 0 [ascii "reset"] [morningReset] morningReset 0 (callsIn 0 (dayMinutes 0 1)) = 2 := by
    rw [startsFor_daily hvalid List.mem_cons_self (map_callsIn 0 _) le_rfl (by decide)]
    decide
  refine ⟨fun hruns => ?_, htwice⟩
  rw [hruns 0 1 _ (map_callsIn 0 _) morningReset List.mem_cons_self 0 le_rfl (by decide)] at htwice
  cases htwice

end FixMsg
