import GoFixMsg.Engine.Run
import GoFixMsg.Engine.SendOrder
import GoFixMsg.Handler.Replay

/-!
# Engine/Resendable — can a sent message be resent?

Sending stores no message, and neither does anything else the engine does.  So a message that was
sent is resent only if the store holds one like it when it is asked for: because it did before the
run began, or because the program has saved it there itself (`replays_iff_held`).

`SaveMessage` is a method of the store, and it is left to the program to call it.  It may do so
before the engine is there, between two of its events, or not at all; what counts is the row the
handler of the ResendRequest comes to read.
-/

open GoLang

namespace FixMsg

/-- There is a row, under a number of the session, with a message of the type and with the number. -/
def HoldsMessage (rows : MessageKey → Option MessageRow) (sender target : Bytes) (n : ℤ)
    (msgType : Bytes) : Prop :=
  ∃ row f, rows ⟨ascii "FIX.4.4", sender, target, n⟩ = some row
    ∧ defaultParse row.body = .ok f ∧ f.get tagMsgType = some msgType
    ∧ f.get tagMsgSeqNum = some (itoa n)

/-- A frame is a replay of a message of the type, with the number and PossDupFlag. -/
def Emission.IsReplay (n : ℤ) (msgType : Bytes) (x : Emission) : Prop :=
  x.kind = .replay ∧ ∃ f, defaultParse x.frame = .ok f
    ∧ f.get tagMsgType = some msgType ∧ f.get tagMsgSeqNum = some (itoa n)
    ∧ f.get tagPossDupFlag = some (ascii "Y")

/-- Among the frames emitted for a number is a replay. -/
def Replays (n : ℤ) (msgType : Bytes) (emitted : List Emission) : Prop :=
  ∃ x ∈ emitted, x.seq = n ∧ x.IsReplay n msgType

/-- No application type is filled instead of replayed. -/
theorem notMem_gapFilledTypes {m : CodedMessage} (h : m.isApplication = true) :
    m.fields.getD tagMsgType ∉ gapFilledTypes := by
  have hadmin : ∀ t ∈ gapFilledTypes, isAdminMessageType t = true := by decide
  intro hmem
  rw [CodedMessage.isApplication, hadmin _ hmem, Bool.not_true, Bool.and_false] at h
  cases h

/-- **A pass replays a message exactly if the store holds it.** -/
theorem emission_replays_iff {env : ℕ → Env} (hreads : ∀ k, (env k).reads = .ok)
    (sender target : Bytes) (s : SeqManager) (n : ℤ) {m : CodedMessage}
    (happ : m.isApplication = true) (k : ℕ) :
    (∃ x ∈ emission env sender target s k n, x.IsReplay n (m.fields.getD tagMsgType))
      ↔ HoldsMessage s.messages sender target n (m.fields.getD tagMsgType) := by
  have hlookup := lookup_ok sender target n s
  rw [← hreads k] at hlookup
  constructor
  · rintro ⟨x, hx, hkind, g, hg, htype, hseq, -⟩
    obtain ⟨stored, f, hfound, hparse, -, hframe⟩ := replay_of_resendPass hx hkind
    rw [hlookup] at hfound
    obtain ⟨row, hrow, rfl⟩ := Option.map_eq_some_iff.mp hfound
    refine ⟨row, f, hrow, hparse, ?_, ?_⟩
    · rw [← htype, hframe.get hg (by decide) (by decide)]
      rfl
    · rw [← hseq, hframe.get hg (by decide) (by decide)]
      rfl
  · rintro ⟨row, f, hrow, hparse, htype, hseq⟩
    rw [hrow, Option.map_some] at hlookup
    have hkept : f.getD tagMsgType ∉ gapFilledTypes := by
      rw [FixFragment.getD_of_get htype]
      exact notMem_gapFilledTypes happ
    obtain ⟨x, hx, -, hkind, hframe⟩ := @resendPass_replay (env k) sender target n
      ⟨ascii "FIX.4.4", sender, target, n, row.msgType, row.body, row.created⟩ f hparse hkept
    obtain ⟨g, hg, -⟩ := id hframe
    refine ⟨x, ?_, hkind, g, hg, ?_, ?_, ?_⟩
    · rw [emission, hlookup]
      exact hx
    · rw [← htype]
      exact hframe.get hg (by decide) (by decide)
    · rw [← hseq]
      exact hframe.get hg (by decide) (by decide)
    · exact hframe.get hg (by decide) (by decide)

/-- A call of `SendMessage` returned no error for an application message it stamped with a
number. -/
structure SentAs (n : ℤ) (msgType : Bytes) (r : SendResult) : Prop where
  error : r.error = none
  stamped : r.stamped = some n
  application : r.message.isApplication = true
  msgType : r.message.fields.getD tagMsgType = msgType

/-- **A message that was sent is resent exactly if the store holds it when it is asked for**: of what
it held before the run and what the program has saved in the run, one under the number.  The run may
be any: the message is sent somewhere in it, and an accepted ResendRequest for its number comes
later. -/
theorem replays_iff_held {e₀ e : Engine} {pre post : List ProgramEvent} {env : Env}
    {m : CodedMessage} {n : ℤ} {msgType : Bytes}
    (hsent : SentAs n msgType (sendMessage env m (e₀.runProgram pre)))
    (he : e = e₀.runProgram (pre ++ .engine (.send env m) :: post))
    {envs : ℕ → Env} (hreads : ∀ k, (envs k).reads = .ok) {fuel : ℕ} {req q : CodedMessage}
    (hasked : Asked envs fuel req q e n) :
    Replays n msgType (process envs fuel req e).emitted
      ↔ HoldsMessage (withSaved e₀.seqMgr.messages
          (e₀.savedMessages (pre ++ .engine (.send env m) :: post)))
        (q.fields.getD tagTargetCompID) (q.fields.getD tagSenderCompID) n msgType := by
  obtain ⟨-, hstamped, happ, rfl⟩ := hsent
  have hint : IsInt64 n := by
    rw [nextSeq_of_stamped hstamped]
    exact isInt64_nextSeq _ _
  rw [← Engine.messages_runProgram, ← he]
  refine hasked.exists_emitted_iff hint (emission_replays_iff (fun k => hreads (k + 1))
    (q.fields.getD tagTargetCompID) (q.fields.getD tagSenderCompID) e.seqMgr n happ) ?_
  rintro ⟨row, f, hrow, -⟩ hstore
  rw [SeqManager.messages, hstore] at hrow
  cases hrow

/-- An engine with a session attached, on the given store. -/
def engineOn (st : SQLiteStore) : Engine where
  senderCompID := ascii "S"
  targetCompID := ascii "T"
  sessionID := ascii "session"
  seqMgr := .new .ok (some st) (ascii "default")
  sm := .active
  link := .session
  sent := []
  calls := []

/-- A ResendRequest of the peer of `engineOn`. -/
def resendRequest (first last : Bytes) : CodedMessage :=
  ((adminHeader (ascii "2") (ascii "T") (ascii "S")).set 7 first).set 16 last

/-- An order under number 1, as a program may save it. -/
def storedOrder : StoredMessage :=
  ⟨ascii "FIX.4.4", ascii "S", ascii "T", 1, ascii "D",
    ascii "8=FIX.4.4" ++ 1 :: ascii "35=D" ++ 1 :: ascii "34=1" ++ [1], 0⟩

/-- A store that holds it. -/
def filledStore : SQLiteStore := (SQLiteStore.opened.saveMessage .ok storedOrder).1

theorem sentAs_newOrder :
    SentAs 1 (ascii "D") (sendMessage Outbound.calm Outbound.newOrder (engineOn .opened)) :=
  ⟨Option.isNone_iff_eq_none.mp (by decide +kernel), by decide +kernel, by decide +kernel,
    by decide +kernel⟩

/-- An order is sent, and the program saves it: asked for it again, the engine replays it. -/
theorem replays_iff_held_saved : Replays 1 (ascii "D") (process (fun _ => Outbound.calm) 2
    (resendRequest (ascii "1") (ascii "1")) ((engineOn .opened).runProgram
      [.engine (.send Outbound.calm Outbound.newOrder), .saveMessage .ok storedOrder])).emitted := by
  refine (@replays_iff_held (engineOn .opened) _ [] [.saveMessage .ok storedOrder] _ _ _ _
    sentAs_newOrder rfl _ (fun _ => rfl) _ _ _
    ⟨rfl, rfl, by decide, by decide, by decide +kernel, by decide⟩).mpr ?_
  have hsaved : (engineOn .opened).savedMessages
      ([] ++ .engine (.send Outbound.calm Outbound.newOrder) :: [.saveMessage .ok storedOrder])
        = [storedOrder] := by
    have hwrites : ((engineOn .opened).handle
        (.send Outbound.calm Outbound.newOrder)).seqMgr.Writes .ok := by decide +kernel
    exact congrArg (· ++ []) (if_pos hwrites)
  rw [hsaved]
  exact ⟨⟨ascii "D", storedOrder.body, 0⟩, [(8, .str (ascii "FIX.4.4")), (34, .str (ascii "1")),
    (35, .str (ascii "D"))], rfl, rfl, by decide +kernel, by decide +kernel⟩

/-- An order is sent on a new store: asked for it again, the engine fills the gap. -/
theorem sent_not_replayed :
    SentAs 1 (ascii "D") (sendMessage Outbound.calm Outbound.newOrder (engineOn .opened))
      ∧ ¬ Replays 1 (ascii "D") (process (fun _ => Outbound.calm) 2
        (resendRequest (ascii "1") (ascii "1"))
        ((engineOn .opened).run [.send Outbound.calm Outbound.newOrder])).emitted := by
  refine ⟨sentAs_newOrder, ?_⟩
  rintro ⟨x, hx, -, hkind, -⟩
  have hkinds : (process (fun _ => Outbound.calm) 2 (resendRequest (ascii "1") (ascii "1"))
      ((engineOn .opened).run [.send Outbound.calm Outbound.newOrder])).emitted.map Emission.kind
        = [.gapFill] := by decide +kernel
  have hmem := List.mem_map_of_mem (f := Emission.kind) hx
  rw [hkinds, hkind] at hmem
  exact absurd hmem (by decide)

end FixMsg
