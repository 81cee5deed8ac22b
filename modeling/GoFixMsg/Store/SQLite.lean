import Mathlib.Logic.Function.Basic
import GoFixMsg.GoLang.Strconv

/-!
# Store/SQLite — the message and sequence number store

`SQLiteStore` is a handle that `Init` opens: before it, every operation fails.  A statement either
is carried out whole or fails and changes nothing; which of the two is up to the database driver,
so each operation takes the driver's answer.

There are two tables: the messages, under a key of BeginString, both CompIDs and number, and the
last saved pair of numbers of each session.  A row that is saved takes the place of one under the
same key.  Saving the one touches nothing of the other (`messages_saveSessionSeq`), and what has
been saved is what is read, by this handle or by another one on the same file.
-/

open GoLang

namespace FixMsg

/-- `store.Message`: a persisted FIX message. -/
structure StoredMessage where
  beginString : Bytes
  senderCompID : Bytes
  targetCompID : Bytes
  msgSeqNum : ℤ
  msgType : Bytes
  body : Bytes
  created : ℤ
  deriving DecidableEq

/-- The primary key of the table `messages`. -/
structure MessageKey where
  beginString : Bytes
  senderCompID : Bytes
  targetCompID : Bytes
  msgSeqNum : ℤ
  deriving DecidableEq

/-- The columns of the table `messages` that are not its key. -/
structure MessageRow where
  msgType : Bytes
  body : Bytes
  created : ℤ
  deriving DecidableEq

/-- The tables of the database: messages by their key, and the pair (`seq`, `in_seq`) by session. -/
structure Tables where
  messages : MessageKey → Option MessageRow
  sessions : Bytes → Option (ℤ × ℤ)

/-- The errors of the store. -/
inductive StoreError where
  | notInitialized
  | driver
  deriving DecidableEq

/-- `SQLiteStore`: a handle without a database until `Init` opens one. -/
structure SQLiteStore where
  db : Option Tables

/-- What the database driver makes of a statement: it carries it out, or reports an error. -/
inductive Driver where
  | ok
  | fail
  deriving DecidableEq

namespace SQLiteStore

/-- `NewSQLiteStore`. -/
def new : SQLiteStore := ⟨none⟩

/-- `Init`, on a file that holds the given tables. -/
def init (file : Tables) : Driver → SQLiteStore → SQLiteStore × Option StoreError
  | .ok, _ => (⟨some file⟩, none)
  | .fail, s => (s, some .driver)

/-- A store just opened on a new file. -/
def opened : SQLiteStore := (init ⟨fun _ => none, fun _ => none⟩ .ok new).1

/-- A statement that writes. -/
def exec (d : Driver) (write : Tables → Tables) (s : SQLiteStore) :
    SQLiteStore × Option StoreError :=
  match s.db, d with
  | none, _ => (s, some .notInitialized)
  | some _, .fail => (s, some .driver)
  | some t, .ok => (⟨some (write t)⟩, none)

/-- A statement that reads. -/
def query {β : Type} (d : Driver) (read : Tables → β) (s : SQLiteStore) : Except StoreError β :=
  match s.db, d with
  | none, _ => .error .notInitialized
  | some _, .fail => .error .driver
  | some t, .ok => .ok (read t)

/-- `SaveMessage`. -/
def saveMessage (d : Driver) (m : StoredMessage) : SQLiteStore → SQLiteStore × Option StoreError :=
  exec d fun t =>
    { t with
      messages := Function.update t.messages
        ⟨m.beginString, m.senderCompID, m.targetCompID, m.msgSeqNum⟩
        (some ⟨m.msgType, m.body, m.created⟩) }

/-- `GetMessage`: no message and no error where there is no such row. -/
def getMessage (d : Driver) (begin sender target : Bytes) (seq : ℤ) :
    SQLiteStore → Except StoreError (Option StoredMessage) :=
  query d fun t => (t.messages ⟨begin, sender, target, seq⟩).map fun row =>
    ⟨begin, sender, target, seq, row.msgType, row.body, row.created⟩

/-- `SaveSessionSeq`. -/
def saveSessionSeq (d : Driver) (sessionID : Bytes) (outSeq inSeq : ℤ) :
    SQLiteStore → SQLiteStore × Option StoreError :=
  exec d fun t => { t with sessions := Function.update t.sessions sessionID (some (outSeq, inSeq)) }

/-- `GetSessionSeq`: (`outSeq`, `inSeq`), both 0 where there is no such row. -/
def getSessionSeq (d : Driver) (sessionID : Bytes) : SQLiteStore → Except StoreError (ℤ × ℤ) :=
  query d fun t => (t.sessions sessionID).getD (0, 0)

/-- The store is open. -/
def Open (s : SQLiteStore) : Prop := s.db.isSome = true

instance (s : SQLiteStore) : Decidable s.Open := inferInstanceAs (Decidable (_ = true))

/-- The rows of the table `messages`, none before `Init`. -/
def messages (s : SQLiteStore) (k : MessageKey) : Option MessageRow :=
  s.db.bind fun t => t.messages k

/-- **A message that is saved stands under its key.** -/
theorem messages_saveMessage {s : SQLiteStore} (h : s.Open) (m : StoredMessage) (k : MessageKey) :
    (saveMessage .ok m s).1.messages k
      = if k = ⟨m.beginString, m.senderCompID, m.targetCompID, m.msgSeqNum⟩ then
          some ⟨m.msgType, m.body, m.created⟩
        else s.messages k := by
  obtain ⟨_ | t⟩ := s
  · exact absurd h (by decide)
  · exact Function.update_apply _ _ _ _

/-- **Saving sequence numbers touches no message.** -/
theorem messages_saveSessionSeq (d : Driver) (sid : Bytes) (outSeq inSeq : ℤ) (s : SQLiteStore) :
    (saveSessionSeq d sid outSeq inSeq s).1.messages = s.messages := by
  obtain ⟨_ | t⟩ := s <;> cases d <;> rfl

/-- **What has been saved is what is read.** -/
theorem getSessionSeq_saveSessionSeq {s : SQLiteStore} (h : s.Open) (sid : Bytes)
    (outSeq inSeq : ℤ) :
    getSessionSeq .ok sid (saveSessionSeq .ok sid outSeq inSeq s).1 = .ok (outSeq, inSeq) := by
  obtain ⟨_ | t⟩ := s
  · exact absurd h (by decide)
  · simp [saveSessionSeq, exec, getSessionSeq, query]

theorem Open.saveSessionSeq {s : SQLiteStore} (h : s.Open) (d : Driver) (sid : Bytes)
    (outSeq inSeq : ℤ) : (saveSessionSeq d sid outSeq inSeq s).1.Open := by
  obtain ⟨_ | t⟩ := s
  · exact absurd h (by decide)
  · cases d <;> rfl

end SQLiteStore

end FixMsg
