import GoFixMsg.Engine.SeqManager
import GoFixMsg.Machinery.Runs

/-!
# Engine/SeqSystem — concurrent calls on one `SeqManager`

Each call is two steps: the critical section, and the write of the snapshot taken there.  Between
them other calls may run, so a snapshot may reach the store after a later one has; the store then
holds numbers that memory has left behind (`reload_stale`).  As long as no call saves after a later
one has, the store catches up with memory whenever no call is in progress (`reload_eq_numbers`).
-/

open GoLang

namespace FixMsg

/-- A call between its critical section and the end of its write: the snapshot it took, and the
count of the critical sections up to its own. -/
structure SeqCall where
  snapshot : SeqPair
  turn : ℕ
  deriving DecidableEq

/-- A `SeqManager` with the calls in progress.  Beside it stand the number of critical sections so
far, the one whose snapshot the store holds, and the numbers `IncrementOutgoing` has drawn since the
last `SetOutgoing`. -/
structure SeqSystem where
  mgr : SeqManager
  calls : Calls SeqCall
  turns : ℕ
  savedTurn : ℕ
  issued : List ℤ

/-- A step: a caller goes through the critical section of an operation, or its write is done. -/
inductive SeqAction where
  | lock (i : ℕ) (op : SeqOp)
  | save (i : ℕ) (d : Driver)

namespace SeqOp

/-- The numbers drawn since the last `SetOutgoing`, after an operation on the given pair. -/
def issue (issued : List ℤ) (p : SeqPair) : SeqOp → List ℤ
  | .setOutgoing _ => []
  | .incrementOutgoing => (SeqOp.incrementOutgoing.critical p).outgoing :: issued
  | .setIncoming _ | .incrementIncoming => issued

/-- Drawing a number does not overflow. -/
def NoOverflow (p : SeqPair) : SeqOp → Prop
  | .incrementOutgoing => int64 (p.outgoing + 1) = p.outgoing + 1
  | .setIncoming _ | .setOutgoing _ | .incrementIncoming => True

end SeqOp

namespace SeqSystem

/-- `NewSeqManager` on a store, with no call in progress. -/
def start (st : SQLiteStore) (sid : Bytes) : SeqSystem :=
  ⟨.new .ok (some st) sid, fun _ => none, 0, 0, []⟩

/-- One step. -/
def step (s : SeqSystem) : SeqAction → Option SeqSystem
  | .lock i op =>
      match s.calls i with
      | some _ => none
      | none => some
          { s with
            mgr := { s.mgr with numbers := op.critical s.mgr.numbers }
            calls := s.calls.put i (some ⟨op.critical s.mgr.numbers, s.turns + 1⟩)
            turns := s.turns + 1
            issued := op.issue s.issued s.mgr.numbers }
  | .save i d =>
      match s.calls i with
      | none => none
      | some c => some
          { s with
            mgr := { s.mgr with store := (persist d s.mgr.sid c.snapshot s.mgr.store).1 }
            calls := s.calls.put i none
            savedTurn := if d = .ok then c.turn else s.savedTurn }

/-- The condition on a step: writes succeed, the outgoing number does not overflow, and no call
saves after a call that locked later has. -/
def Orderly (s : SeqSystem) : SeqAction → Prop
  | .lock _ op => op.NoOverflow s.mgr.numbers
  | .save i d => d = .ok ∧ ∀ c, s.calls i = some c → s.savedTurn < c.turn

/-- The numbers a new `SeqManager` on the same store and session id loads. -/
def reload (s : SeqSystem) : SeqPair := (SeqManager.new .ok s.mgr.store s.mgr.sid).numbers

theorem step_lock {s s' : SeqSystem} {i : ℕ} {op : SeqOp} (h : s.step (.lock i op) = some s') :
    s.calls i = none ∧ s' = ⟨{ s.mgr with numbers := op.critical s.mgr.numbers },
      s.calls.put i (some ⟨op.critical s.mgr.numbers, s.turns + 1⟩), s.turns + 1, s.savedTurn,
      op.issue s.issued s.mgr.numbers⟩ := by
  rw [step] at h
  split at h
  · cases h
  · next hi => exact ⟨hi, (Option.some.inj h).symm⟩

theorem step_save {s s' : SeqSystem} {i : ℕ} {d : Driver} (h : s.step (.save i d) = some s') :
    ∃ c, s.calls i = some c
      ∧ s' = ⟨{ s.mgr with store := (persist d s.mgr.sid c.snapshot s.mgr.store).1 },
        s.calls.put i none, s.turns, if d = .ok then c.turn else s.savedTurn, s.issued⟩ := by
  rw [step] at h
  split at h
  · cases h
  · next c hi => exact ⟨c, hi, (Option.some.inj h).symm⟩

/-- **What holds in every state of an orderly run.**  The last critical section is either saved or
still in progress, with memory as its snapshot. -/
structure Inv (s : SeqSystem) : Prop where
  opened : ∃ st, s.mgr.store = some st ∧ st.Open
  turn_le : ∀ i c, s.calls i = some c → c.turn ≤ s.turns
  snapshot : ∀ i c, s.calls i = some c → c.turn = s.turns → c.snapshot = s.mgr.numbers
  last : (s.savedTurn = s.turns ∧ s.reload = SeqManager.restored s.mgr.numbers)
    ∨ ∃ i c, s.calls i = some c ∧ c.turn = s.turns
  issued_le : ∀ n ∈ s.issued, n ≤ s.mgr.numbers.outgoing

theorem inv_start {st : SQLiteStore} (h : st.Open) (sid : Bytes) : (start st sid).Inv where
  opened := ⟨st, rfl, h⟩
  turn_le _ _ hi := by cases hi
  snapshot _ _ hi := by cases hi
  last := Or.inl ⟨rfl, (SeqManager.restored_load .ok sid (some st)).symm⟩
  issued_le _ hn := absurd hn List.not_mem_nil

/-- No operation draws a number above the outgoing one. -/
theorem issue_le {op : SeqOp} {p : SeqPair} (hok : op.NoOverflow p) {issued : List ℤ}
    (hi : ∀ n ∈ issued, n ≤ p.outgoing) : ∀ n ∈ op.issue issued p, n ≤ (op.critical p).outgoing := by
  cases op with
  | setIncoming n => exact hi
  | setOutgoing n => exact fun n hn => absurd hn List.not_mem_nil
  | incrementIncoming => exact hi
  | incrementOutgoing =>
    intro n hn
    rcases List.mem_cons.mp hn with rfl | hn
    · exact le_refl _
    · have hle := hi n hn
      have hnext : int64 (p.outgoing + 1) = p.outgoing + 1 := hok
      change n ≤ int64 (p.outgoing + 1)
      omega

theorem Inv.lock {s s' : SeqSystem} (h : s.Inv) {i : ℕ} {op : SeqOp}
    (hok : op.NoOverflow s.mgr.numbers) (hstep : s.step (.lock i op) = some s') : s'.Inv := by
  obtain ⟨-, rfl⟩ := step_lock hstep
  refine ⟨h.opened, fun j c hj => ?_, fun j c hj hturn => ?_,
    Or.inr ⟨i, _, Calls.put_self _ _ _, rfl⟩, issue_le hok h.issued_le⟩
  · rcases Calls.put_eq_some_iff.mp hj with ⟨-, hc⟩ | ⟨-, hc⟩
    · rw [← Option.some.inj hc]
    · exact (h.turn_le j c hc).trans (Nat.le_succ _)
  · rcases Calls.put_eq_some_iff.mp hj with ⟨-, hc⟩ | ⟨-, hc⟩
    · rw [← Option.some.inj hc]
    · have hle := h.turn_le j c hc
      dsimp only at hturn
      omega

/-- A call saves its snapshot.  Where another one has locked later, that one still holds the snapshot
of the last critical section; where none has, this snapshot is memory, and it is what is written. -/
theorem Inv.save {s s' : SeqSystem} (h : s.Inv) {i : ℕ} {d : Driver} (hok : s.Orderly (.save i d))
    (hstep : s.step (.save i d) = some s') : s'.Inv := by
  obtain ⟨rfl, hfresh⟩ := hok
  obtain ⟨c, hi, rfl⟩ := step_save hstep
  obtain ⟨st, hst, hopen⟩ := h.opened
  have hturn := hfresh c hi
  refine ⟨⟨_, congrArg (fun o => (persist .ok s.mgr.sid c.snapshot o).1) hst,
    hopen.saveSessionSeq _ _ _ _⟩,
    fun j d hj => h.turn_le j d (Calls.put_none_eq_some_iff.mp hj).2,
    fun j d hj => h.snapshot j d (Calls.put_none_eq_some_iff.mp hj).2, ?_, h.issued_le⟩
  · rcases Nat.lt_or_eq_of_le (h.turn_le i c hi) with hlt | heq
    · rcases h.last with ⟨hsaved, -⟩ | ⟨j, d, hj, hd⟩
      · omega
      · refine Or.inr ⟨j, d, Calls.put_eq_some_iff.mpr (Or.inr ⟨fun hij => ?_, hj⟩), hd⟩
        subst hij
        rw [hi] at hj
        cases hj
        omega
    · refine Or.inl ⟨(if_pos rfl : (if Driver.ok = .ok then c.turn else s.savedTurn) = _).trans heq,
        ?_⟩
      change SeqManager.load .ok s.mgr.sid (persist .ok s.mgr.sid c.snapshot s.mgr.store).1 = _
      rw [hst, h.snapshot i c hi heq]
      exact SeqManager.load_persist hopen s.mgr.sid s.mgr.numbers

/-- **An orderly step keeps the invariant.** -/
theorem inv_step (s : SeqSystem) (a : SeqAction) (s' : SeqSystem) (h : s.Inv) (hok : s.Orderly a)
    (hstep : s.step a = some s') : s'.Inv := by
  cases a with
  | lock i op => exact h.lock hok hstep
  | save i d => exact h.save hok hstep

/-- **No number is issued again after a restart.**  In every orderly run of concurrent calls,
whenever no call is in progress, a new `SeqManager` on the same store loads the numbers in memory,
unless one of them is negative; and no number drawn since the last `SetOutgoing` exceeds the one it
loads. -/
theorem reload_eq_numbers {st : SQLiteStore} (hopen : st.Open) (sid : Bytes)
    {as : List SeqAction} (hok : Runs.Meets step Orderly (start st sid) as) {s : SeqSystem}
    (hrun : Runs.run step (start st sid) as = some s) (hidle : s.calls.Idle) :
    (s.reload = s.mgr.numbers ↔ 0 ≤ s.mgr.numbers.incoming ∧ 0 ≤ s.mgr.numbers.outgoing)
      ∧ ∀ n ∈ s.issued, n ≤ s.reload.outgoing := by
  have hinv : s.Inv := Runs.run_invariant Inv inv_step (inv_start hopen sid) hok hrun
  have hload : s.reload = SeqManager.restored s.mgr.numbers := by
    rcases hinv.last with ⟨-, hload⟩ | ⟨i, c, hi, -⟩
    · exact hload
    · rw [hidle i] at hi
      cases hi
  rw [hload]
  exact ⟨SeqManager.restored_eq_self_iff, fun n hn => (hinv.issued_le n hn).trans (le_max_right _ _)⟩

instance (p : SeqPair) (op : SeqOp) : Decidable (op.NoOverflow p) :=
  match op with
  | .incrementOutgoing => inferInstanceAs (Decidable (_ = _))
  | .setIncoming _ | .setOutgoing _ | .incrementIncoming => inferInstanceAs (Decidable True)

instance (s : SeqSystem) (a : SeqAction) : Decidable (s.Orderly a) :=
  match a with
  | .lock _ op => inferInstanceAs (Decidable (op.NoOverflow s.mgr.numbers))
  | .save i d => inferInstanceAs (Decidable (d = .ok ∧ ∀ c ∈ s.calls i, s.savedTurn < c.turn))

/-- Three calls overlap, and save in the order in which they locked: the second locks before the
first has saved, and the third before the second has. -/
def overlapping : List SeqAction :=
  [.lock 0 .incrementOutgoing, .lock 1 .incrementIncoming, .save 0 .ok, .lock 2 .incrementOutgoing,
    .save 1 .ok, .save 2 .ok]

/-- Behind them, a restart loads both numbers, and issues none of the two drawn again. -/
theorem reload_eq_numbers_overlapping : ∃ s, Runs.run step (start .opened (ascii "S")) overlapping
    = some s ∧ s.reload = ⟨1, 2⟩ ∧ s.issued = [2, 1] ∧ ∀ n ∈ s.issued, n ≤ s.reload.outgoing := by
  have hok : Runs.Meets step Orderly (start .opened (ascii "S")) overlapping := by decide
  refine ⟨_, rfl, ?_⟩
  obtain ⟨heq, hissued⟩ := reload_eq_numbers (by decide) (ascii "S") hok rfl fun i => by
    simp +contextual [Calls.put, Function.update_apply, start]
  exact ⟨heq.mpr (by decide), rfl, hissued⟩

/-- Two callers draw 1 and 2, and the first of them saves last: a restart issues 2 again. -/
theorem reload_stale : ∃ s, Runs.run step (start .opened (ascii "S"))
    [.lock 0 .incrementOutgoing, .lock 1 .incrementOutgoing, .save 1 .ok, .save 0 .ok] = some s
      ∧ s.calls.Idle ∧ s.mgr.numbers = ⟨0, 2⟩ ∧ 2 ∈ s.issued ∧ s.reload = ⟨0, 1⟩ := by
  refine ⟨_, rfl, fun i => ?_, by decide, by decide, by decide⟩
  simp +contextual [Calls.put, Function.update_apply, start]

end SeqSystem

end FixMsg
