import Mathlib.Order.Lattice
import GoFixMsg.Store.SQLite

/-!
# Engine/SeqManager — the sequence numbers of a session

The four operations of a `SeqManager` share one body: update the pair of numbers under the mutex,
take a snapshot of *both* numbers, and write the snapshot to the store after the mutex is released.
`SeqOp.critical` is what happens under the mutex and `persist` what happens after it; the sequential
operations run the two in one go, and `Engine/SeqSystem` interleaves them.

Errors of the store are returned and change nothing in memory: the numbers have gone up before the
store is asked.  What a new manager loads is not quite what was saved, since a negative number comes
back as 0 (`restored`).
-/

open GoLang

namespace FixMsg

/-- The two numbers the mutex guards: `in` and `out`. -/
structure SeqPair where
  incoming : ℤ
  outgoing : ℤ
  deriving DecidableEq

/-- The operations that change the numbers. -/
inductive SeqOp where
  | setIncoming (n : ℤ)
  | setOutgoing (n : ℤ)
  | incrementIncoming
  | incrementOutgoing
  deriving DecidableEq

/-- The error of an operation whose snapshot could not be written. -/
inductive SeqError where
  | persistIn (e : StoreError)
  | persistOut (e : StoreError)
  deriving DecidableEq

namespace SeqOp

/-- What an operation does between `Lock` and `Unlock`.  The pair it leaves behind is the snapshot
it goes on to persist. -/
def critical : SeqOp → SeqPair → SeqPair
  | .setIncoming n, p => { p with incoming := n }
  | .setOutgoing n, p => { p with outgoing := n }
  | .incrementIncoming, p => { p with incoming := int64 (p.incoming + 1) }
  | .incrementOutgoing, p => { p with outgoing := int64 (p.outgoing + 1) }

/-- How an operation wraps the error of the store. -/
def error : SeqOp → StoreError → SeqError
  | .setIncoming _, e | .incrementIncoming, e => .persistIn e
  | .setOutgoing _, e | .incrementOutgoing, e => .persistOut e

end SeqOp

/-- Write a snapshot under the session id, unless the store is nil. -/
def persist (d : Driver) (sid : Bytes) (snapshot : SeqPair) :
    Option SQLiteStore → Option SQLiteStore × Option StoreError
  | none => (none, none)
  | some st =>
      let saved := st.saveSessionSeq d sid snapshot.outgoing snapshot.incoming
      (some saved.1, saved.2)

/-- `SeqManager`. -/
structure SeqManager where
  numbers : SeqPair
  store : Option SQLiteStore
  sid : Bytes

namespace SeqManager

/-- The numbers `NewSeqManager` loads: a stored number that is not positive is not taken over. -/
def load (d : Driver) (sid : Bytes) : Option SQLiteStore → SeqPair
  | none => ⟨0, 0⟩
  | some st =>
      match st.getSessionSeq d sid with
      | .error _ => ⟨0, 0⟩
      | .ok (outSeq, inSeq) => ⟨if 0 < inSeq then inSeq else 0, if 0 < outSeq then outSeq else 0⟩

/-- `NewSeqManager`. -/
def new (d : Driver) (st : Option SQLiteStore) (sessionID : Bytes) : SeqManager :=
  ⟨load d sessionID st, st, sessionID⟩

/-- The body the four operations share. -/
def perform (op : SeqOp) (d : Driver) (s : SeqManager) : SeqManager × Option SeqError :=
  let snapshot := op.critical s.numbers
  let saved := persist d s.sid snapshot s.store
  (⟨snapshot, saved.1, s.sid⟩, saved.2.map op.error)

/-- `SetIncoming`. -/
def setIncoming (n : ℤ) : Driver → SeqManager → SeqManager × Option SeqError :=
  perform (.setIncoming n)

/-- `SetOutgoing`. -/
def setOutgoing (n : ℤ) : Driver → SeqManager → SeqManager × Option SeqError :=
  perform (.setOutgoing n)

/-- `IncrementIncoming`: the number is returned with the error, too. -/
def incrementIncoming (d : Driver) (s : SeqManager) : SeqManager × ℤ × Option SeqError :=
  let done := perform .incrementIncoming d s
  (done.1, done.1.numbers.incoming, done.2)

/-- `IncrementOutgoing`: the number is returned with the error, too. -/
def incrementOutgoing (d : Driver) (s : SeqManager) : SeqManager × ℤ × Option SeqError :=
  let done := perform .incrementOutgoing d s
  (done.1, done.1.numbers.outgoing, done.2)

/-- The stored messages an operation finds are those it leaves. -/
def messages (s : SeqManager) (k : MessageKey) : Option MessageRow :=
  s.store.bind fun st => st.messages k

/-- **No operation touches a stored message.** -/
theorem messages_perform (op : SeqOp) (d : Driver) (s : SeqManager) :
    (s.perform op d).1.messages = s.messages := by
  funext k
  obtain ⟨numbers, _ | st, sid⟩ := s
  · rfl
  · exact congrFun (SQLiteStore.messages_saveSessionSeq d sid _ _ st) k

/-- The pair (`outSeq`, `inSeq`) the store has for the session. -/
def saved (s : SeqManager) : ℤ × ℤ :=
  match s.store.bind fun st => st.db with
  | none => (0, 0)
  | some t => (t.sessions s.sid).getD (0, 0)

/-- A write to the store succeeds. -/
def Writes (s : SeqManager) (d : Driver) : Prop := d = .ok ∧ ∃ st ∈ s.store, st.Open

instance (s : SeqManager) (d : Driver) : Decidable (s.Writes d) :=
  inferInstanceAs (Decidable (_ ∧ _))

/-- **An operation saves both numbers**, or nothing. -/
theorem saved_perform (op : SeqOp) (d : Driver) (s : SeqManager) :
    (s.perform op d).1.saved = if s.Writes d then
      ((op.critical s.numbers).outgoing, (op.critical s.numbers).incoming) else s.saved := by
  obtain ⟨numbers, _ | ⟨_ | t⟩, sid⟩ := s
  · rw [if_neg]
    · rfl
    · rintro ⟨-, st, hst, -⟩
      cases hst
  · rw [if_neg]
    · rfl
    · rintro ⟨-, st, hst, hopen⟩
      cases hst
      cases hopen
  · cases d with
    | ok =>
      rw [if_pos ⟨rfl, _, rfl, rfl⟩]
      simp [perform, persist, saved, SQLiteStore.saveSessionSeq, SQLiteStore.exec]
    | fail =>
      rw [if_neg]
      · rfl
      · exact fun h => absurd h.1 (by decide)

/-- What is left of being able to write. -/
theorem writes_perform (op : SeqOp) (d d' : Driver) (s : SeqManager) :
    (s.perform op d).1.Writes d' ↔ s.Writes d' := by
  obtain ⟨numbers, _ | ⟨_ | t⟩, sid⟩ := s
  · rfl
  · rfl
  · cases d <;> simp [Writes, perform, persist, SQLiteStore.saveSessionSeq, SQLiteStore.exec,
      SQLiteStore.Open]

/-- A pair as it comes back from the store: `NewSeqManager` takes no negative number over. -/
def restored (p : SeqPair) : SeqPair := ⟨max 0 p.incoming, max 0 p.outgoing⟩

theorem restored_eq_self_iff {p : SeqPair} :
    restored p = p ↔ 0 ≤ p.incoming ∧ 0 ≤ p.outgoing := by
  rw [restored, SeqPair.mk.injEq, max_eq_right_iff, max_eq_right_iff]

/-- A loaded pair is not negative. -/
theorem restored_load (d : Driver) (sid : Bytes) (st : Option SQLiteStore) :
    restored (load d sid st) = load d sid st := by
  rw [restored_eq_self_iff]
  unfold load
  split
  · exact ⟨le_refl _, le_refl _⟩
  · split
    · exact ⟨le_refl _, le_refl _⟩
    · constructor <;> dsimp only <;> split <;> omega

/-- **A pair that is saved comes back from the store**, negative numbers as 0. -/
theorem load_persist {st : SQLiteStore} (hopen : st.Open) (sid : Bytes) (p : SeqPair) :
    load .ok sid (persist .ok sid p (some st)).1 = restored p := by
  have hclamp : ∀ n : ℤ, (if 0 < n then n else 0) = max 0 n := by
    intro n
    split <;> omega
  rw [persist, load, SQLiteStore.getSessionSeq_saveSessionSeq hopen]
  dsimp only
  rw [hclamp, hclamp, restored]

end SeqManager

end FixMsg
