import Mathlib.Algebra.Order.Ring.Int
import Mathlib.Logic.Function.Iterate
import GoFixMsg.GoLang.Strconv

/-!
# Engine/Reconnect — the waits of the reconnect loop

After a failed attempt the loop waits for its backoff and a jitter of up to half of it, and then
doubles the backoff.  The clamp to the maximum comes after the doubling, in 64 bits, and nothing
clamps the first backoff.

So the waits follow the schedule 1s → 2s → 4s → … → max exactly where the initial backoff is at
most the maximum, and the maximum is below `2 ^ 62` nanoseconds (`followsSchedule_iff`).  From
there on the backoff that has reached the maximum doubles to a negative number, which passes the
clamp; the jitter is then drawn below a number that is not positive, and `rand.Int63n` panics
(`panics_of_large`).
-/

open GoLang

namespace FixMsg

/-! ## The parameters -/

/-- A `time.Duration`: nanoseconds, in 64 bits. -/
structure Duration where
  ns : ℤ
  isInt64 : IsInt64 ns

/-- `time.Second`, in nanoseconds. -/
def second : ℤ := 10 ^ 9

/-- What a `FixEngine` knows about reconnecting. -/
structure ReconnectParams where
  reconnectInitial : Duration
  reconnectMax : Duration
  enableReconnect : Bool

namespace ReconnectParams

/-- The parameters of `NewFixEngine`. -/
def new : ReconnectParams :=
  ⟨⟨1 * second, by decide⟩, ⟨30 * second, by decide⟩, false⟩

/-- `SetReconnectParams` checks nothing. -/
def setReconnectParams (_ : ReconnectParams) (initial max : Duration) (enable : Bool) :
    ReconnectParams :=
  ⟨initial, max, enable⟩

/-- The first `backoff` of the loop. -/
def backoff (p : ReconnectParams) : ℤ :=
  if p.reconnectInitial.ns ≤ 0 then 1 * second else p.reconnectInitial.ns

/-- The `max` of the loop. -/
def max (p : ReconnectParams) : ℤ :=
  if p.reconnectMax.ns ≤ 0 then 30 * second else p.reconnectMax.ns

theorem backoff_pos (p : ReconnectParams) : 0 < p.backoff := by
  rw [backoff]
  split
  · decide
  · omega

theorem isInt64_max (p : ReconnectParams) : IsInt64 p.max := by
  rw [max]
  split
  · decide
  · exact p.reconnectMax.isInt64

end ReconnectParams

/-! ## The loop -/

/-- What comes of one turn of the loop. -/
inductive Attempt where
  /-- `Connect` gives a connection, and `AttachSession` takes its session. -/
  | attached
  /-- `AttachSession` fails. -/
  | attachFailed
  /-- `Connect` fails; `draw` is what `rand` then has to give. -/
  | failed (draw : ℕ)

/-- One wait of the loop: the backoff, the argument of `rand.Int63n`, and the duration given to
`time.After`. -/
structure Delay where
  base : ℤ
  below : ℤ
  wait : ℤ

/-- The waits of the loop so far, and whether it has panicked. -/
structure ReconnectRun where
  delays : List Delay
  panicked : Bool

/-- A run with a wait before it. -/
def ReconnectRun.after (run : ReconnectRun) (d : Delay) : ReconnectRun :=
  { run with delays := d :: run.delays }

@[simp] theorem ReconnectRun.after_delays (run : ReconnectRun) (d : Delay) :
    (run.after d).delays = d :: run.delays := rfl

@[simp] theorem ReconnectRun.after_panicked (run : ReconnectRun) (d : Delay) :
    (run.after d).panicked = run.panicked := rfl

/-- `rand.Int63n`, which panics at an argument that is not positive. -/
def int63n (draw : ℕ) (n : ℤ) : Option ℤ := if n ≤ 0 then none else some (draw % n)

/-- `backoff *= 2`, and the clamp. -/
def nextBackoff (max backoff : ℤ) : ℤ :=
  if max < int64 (backoff * 2) then max else int64 (backoff * 2)

/-- The loop of `startReconnectLoop` from a backoff on.  An attempt that fails in `AttachSession`
is followed by the next one at once; a loop cut short by its context is the loop over fewer
attempts. -/
def reconnectLoop (max : ℤ) : ℤ → List Attempt → ReconnectRun
  | _, [] | _, .attached :: _ => ⟨[], false⟩
  | backoff, .attachFailed :: attempts => reconnectLoop max backoff attempts
  | backoff, .failed draw :: attempts =>
      let below := int64 (backoff.tdiv 2 + 1)
      match int63n draw below with
      | none => ⟨[], true⟩
      | some j =>
          (reconnectLoop max (nextBackoff max backoff) attempts).after
            ⟨backoff, below, int64 (backoff + j)⟩

/-- `startReconnectLoop`. -/
def ReconnectParams.startReconnectLoop (p : ReconnectParams) (attempts : List Attempt) :
    ReconnectRun :=
  reconnectLoop p.max p.backoff attempts

/-- The attempts that fail in `Connect` while the loop lasts. -/
def failures : List Attempt → ℕ
  | [] | .attached :: _ => 0
  | .attachFailed :: attempts => failures attempts
  | .failed _ :: attempts => failures attempts + 1

@[simp] theorem failures_replicate (n draw : ℕ) :
    failures (List.replicate n (.failed draw)) = n := by
  induction n with
  | zero => rfl
  | succ n ih => rw [List.replicate_succ, failures, ih]

/-! ## The schedule -/

/-- A wait that lies between its base and one and a half times its base, the jitter drawn below
a positive number. -/
structure Delay.Sound (d : Delay) : Prop where
  below : 0 < d.below
  base_le : d.base ≤ d.wait
  wait_le : 2 * d.wait ≤ 3 * d.base

/-- Whatever comes of the attempts, the loop does not panic, every attempt that fails is followed
by a sound wait, and the base after the `k`-th is `initial * 2 ^ k`, or the maximum. -/
def ReconnectParams.FollowsSchedule (p : ReconnectParams) : Prop :=
  ∀ attempts, (p.startReconnectLoop attempts).panicked = false ∧
    (p.startReconnectLoop attempts).delays.length = failures attempts ∧
    ∀ k d, (p.startReconnectLoop attempts).delays[k]? = some d →
      d.base = min (p.backoff * 2 ^ k) p.max ∧ d.Sound

/-- The bases are the backoff, doubled and clamped again and again. -/
theorem base_eq_iterate (max b : ℤ) (attempts : List Attempt) :
    ∀ k d, (reconnectLoop max b attempts).delays[k]? = some d →
      d.base = (nextBackoff max)^[k] b := by
  fun_induction reconnectLoop max b attempts with
  | case1 => simp
  | case2 => simp
  | case3 b attempts ih => exact ih
  | case4 => simp
  | case5 b draw attempts below j hj ih =>
    intro k d h
    cases k with
    | zero =>
      obtain rfl := Option.some.inj h
      rfl
    | succ k =>
      rw [Function.iterate_succ_apply]
      exact ih k d h

/-! ## Below `2 ^ 62` the doubling does not wrap

The backoff stays between its first value and the maximum.  Twice the maximum is still a positive
number of 64 bits there, so the clamp catches it. -/

section Small

variable {max b : ℤ} (hb : 0 < b) (hmax : b ≤ max) (hsmall : max < 2 ^ 62)

include hb hmax hsmall

theorem nextBackoff_eq_min : nextBackoff max b = min (b * 2) max := by
  have hwrap : int64 (b * 2) = b * 2 := int64_of_isInt64 ⟨by omega, by omega⟩
  rw [nextBackoff, hwrap]
  split
  · rw [min_eq_right (by omega)]
  · rw [min_eq_left (by omega)]

theorem iterate_nextBackoff (k : ℕ) : (nextBackoff max)^[k] b = min (b * 2 ^ k) max := by
  induction k with
  | zero => rw [Function.iterate_zero_apply, pow_zero, mul_one, min_eq_left hmax]
  | succ k ih =>
    have hpow : 0 < b * 2 ^ k := Int.mul_pos hb (Int.pow_pos (by decide))
    have hpos : 0 < min (b * 2 ^ k) max := lt_min hpow (by omega)
    rw [Function.iterate_succ_apply', ih, nextBackoff_eq_min hpos (min_le_right _ _) hsmall,
      pow_succ, ← mul_assoc]
    omega

/-- The jitter is drawn, and the wait it gives is sound. -/
theorem exists_jitter (draw : ℕ) : ∃ j, int63n draw (int64 (b.tdiv 2 + 1)) = some j ∧
    Delay.Sound ⟨b, int64 (b.tdiv 2 + 1), int64 (b + j)⟩ := by
  have hhalf : b.tdiv 2 = b / 2 := Int.tdiv_eq_ediv_of_nonneg (by omega)
  have hbelow : int64 (b.tdiv 2 + 1) = b / 2 + 1 := by
    rw [hhalf]
    exact int64_of_isInt64 ⟨by omega, by omega⟩
  have hlo := Int.emod_nonneg (draw : ℤ) (b := b / 2 + 1) (by omega)
  have hhi := Int.emod_lt_of_pos (draw : ℤ) (b := b / 2 + 1) (by omega)
  have hwait : int64 (b + draw % (b / 2 + 1)) = b + draw % (b / 2 + 1) :=
    int64_of_isInt64 ⟨by omega, by omega⟩
  refine ⟨draw % (b / 2 + 1), ?_, ?_⟩
  · rw [hbelow, int63n, if_neg (by omega)]
  · rw [hbelow, hwait]
    exact ⟨by dsimp only; omega, by dsimp only; omega, by dsimp only; omega⟩

/-- The loop goes through all its attempts, with sound waits between them. -/
theorem reconnectLoop_sound (attempts : List Attempt) :
    (reconnectLoop max b attempts).panicked = false ∧
      (reconnectLoop max b attempts).delays.length = failures attempts ∧
      ∀ d ∈ (reconnectLoop max b attempts).delays, d.Sound := by
  fun_induction reconnectLoop max b attempts with
  | case1 => simp [failures]
  | case2 => simp [failures]
  | case3 b attempts ih => exact ih hb hmax
  | case4 b draw attempts below hj =>
    obtain ⟨j, hsome, -⟩ := exists_jitter hb hmax hsmall draw
    simp [below, hsome] at hj
  | case5 b draw attempts below j hj ih =>
    obtain ⟨j', hsome, hsound⟩ := exists_jitter hb hmax hsmall draw
    obtain rfl : j' = j := Option.some.inj (hsome.symm.trans hj)
    have hnext := nextBackoff_eq_min hb hmax hsmall
    obtain ⟨hrun, hlength, hall⟩ := ih (by omega) (by omega)
    refine ⟨hrun, by simp [failures, hlength], ?_⟩
    rintro d (_ | ⟨_, hd⟩)
    · exact hsound
    · exact hall d hd

end Small

/-! ## From `2 ^ 62` on it does

There the clamp lets the backoff double until it is in the upper half of the positive numbers, which
takes no more failures than a number has bits.  One doubling later it is negative. -/

/-- The jitter cannot be drawn after a backoff below `-1`. -/
theorem int63n_of_neg {b : ℤ} (hb : b ≤ -2) (hlo : -2 ^ 63 ≤ b) (draw : ℕ) :
    int63n draw (int64 (b.tdiv 2 + 1)) = none := by
  have hhalf : b.tdiv 2 = -(-b / 2) := by
    rw [← Int.tdiv_eq_ediv_of_nonneg (by omega), Int.neg_tdiv, neg_neg]
  rw [int64_of_isInt64 ⟨by omega, by omega⟩, int63n, if_pos (by omega)]

theorem panics_of_neg {max b : ℤ} (hb : b ≤ -2) (hlo : -2 ^ 63 ≤ b) {attempts : List Attempt}
    (hfail : 1 ≤ failures attempts) : (reconnectLoop max b attempts).panicked = true := by
  fun_induction reconnectLoop max b attempts with
  | case1 => simp [failures] at hfail
  | case2 => simp [failures] at hfail
  | case3 b attempts ih => exact ih hb hlo hfail
  | case4 => rfl
  | case5 b draw attempts below j hj => simp [below, int63n_of_neg hb hlo] at hj

/-- A backoff in the upper half of the positive numbers doubles to a negative one. -/
theorem nextBackoff_of_large {max b : ℤ} (hmax : 0 < max) (hlo : 2 ^ 62 ≤ b)
    (hhi : b < 2 ^ 63) : nextBackoff max b = b * 2 - 2 ^ 64 := by
  rw [nextBackoff, int64_of_overflow (by omega) (by omega), if_neg (by omega)]

/-- A maximum of `2 ^ 62` nanoseconds or more: `n` doublings bring the backoff there, one more
makes it negative, and the failure after that panics. -/
theorem panics_of_large {max b : ℤ} (hb : 0 < b) (hhi : b < 2 ^ 63) (hlo : 2 ^ 62 ≤ max)
    {attempts : List Attempt} : ∀ n, 2 ^ 62 ≤ b * 2 ^ n → n + 2 ≤ failures attempts →
      (reconnectLoop max b attempts).panicked = true := by
  fun_induction reconnectLoop max b attempts with
  | case1 => simp [failures]
  | case2 => simp [failures]
  | case3 b attempts ih => exact ih hb hhi
  | case4 => simp
  | case5 b draw attempts below j hj ih =>
    intro n hn hfail
    simp only [failures] at hfail
    rw [ReconnectRun.after_panicked]
    rcases Int.lt_or_le b (2 ^ 62) with hsmall | hlarge
    · have hwrap : int64 (b * 2) = b * 2 := int64_of_isInt64 ⟨by omega, by omega⟩
      have hnext : nextBackoff max b = b * 2 ∨ nextBackoff max b = max ∧ max < b * 2 := by
        rw [nextBackoff, hwrap]
        split
        · exact .inr ⟨rfl, ‹_›⟩
        · exact .inl rfl
      cases n with
      | zero => omega
      | succ n =>
        refine ih (by omega) (by omega) n ?_ (by omega)
        rcases hnext with hdouble | ⟨hclamp, -⟩
        · rwa [hdouble, mul_assoc, ← pow_succ']
        · rw [hclamp]
          exact hlo.trans (le_mul_of_one_le_right (by omega) (one_le_pow₀ (by decide)))
    · rw [nextBackoff_of_large (by omega) hlarge hhi]
      exact panics_of_neg (by omega) (by omega) (by omega)

/-! ## The parameters that keep to the schedule -/

namespace ReconnectParams

variable {p : ReconnectParams}

theorem followsSchedule_of_small (hle : p.backoff ≤ p.max) (hsmall : p.max < 2 ^ 62) :
    p.FollowsSchedule := by
  intro attempts
  obtain ⟨hrun, hlength, hsound⟩ := reconnectLoop_sound p.backoff_pos hle hsmall attempts
  refine ⟨hrun, hlength, fun k d hd => ⟨?_, hsound d (List.mem_of_getElem? hd)⟩⟩
  rw [base_eq_iterate _ _ _ k d hd, iterate_nextBackoff p.backoff_pos hle hsmall]

/-- The first wait is the initial backoff, which nothing has clamped. -/
theorem FollowsSchedule.backoff_le (h : p.FollowsSchedule) : p.backoff ≤ p.max := by
  obtain ⟨-, hlength, hdelays⟩ := h [.failed 0]
  have hfirst := List.getElem?_eq_getElem (l := (p.startReconnectLoop [.failed 0]).delays)
    (i := 0) (by rw [hlength]; decide)
  have hbase := (hdelays 0 _ hfirst).1
  rw [base_eq_iterate _ _ _ _ _ hfirst, Function.iterate_zero_apply, pow_zero, mul_one] at hbase
  exact hbase ▸ min_le_right _ _

/-- Sixty-four failures are enough to reach a maximum that is too large, and to go over it. -/
theorem FollowsSchedule.max_lt (h : p.FollowsSchedule) : p.max < 2 ^ 62 := by
  by_contra! hlarge
  have hb := p.backoff_pos
  have hle := h.backoff_le
  have hmax := p.isInt64_max.2
  have hpanic : (p.startReconnectLoop _).panicked = true :=
    panics_of_large hb (by omega) hlarge 62 (by omega) (by rw [failures_replicate 64 0])
  rw [(h _).1] at hpanic
  cases hpanic

/-- The parameters of `NewFixEngine` keep to the schedule. -/
theorem followsSchedule_new : new.FollowsSchedule :=
  followsSchedule_of_small (by decide) (by decide)

end ReconnectParams

/-- The waits of the loop keep to the schedule exactly where the first backoff is not over the
maximum and the maximum is below `2 ^ 62` nanoseconds. -/
theorem followsSchedule_iff (p : ReconnectParams) (initial max : Duration) (enable : Bool) :
    (p.setReconnectParams initial max enable).FollowsSchedule ↔
      (p.setReconnectParams initial max enable).backoff ≤
          (p.setReconnectParams initial max enable).max ∧
        (p.setReconnectParams initial max enable).max < 2 ^ 62 := by
  constructor
  · intro h
    exact ⟨h.backoff_le, h.max_lt⟩
  · rintro ⟨hle, hsmall⟩
    exact ReconnectParams.followsSchedule_of_small hle hsmall

/-- An initial backoff of a minute under a maximum of half a minute: the first wait is over the
maximum. -/
theorem not_followsSchedule_of_minute :
    ¬ (ReconnectParams.new.setReconnectParams ⟨60 * second, by decide⟩ ⟨30 * second, by decide⟩
      true).FollowsSchedule := by
  intro h
  obtain ⟨-, -, hdelays⟩ := h [.failed 0]
  have hbase := (hdelays 0 _ rfl).1
  exact absurd hbase (by decide)

end FixMsg
