import GoFixMsg.Engine.Resendable

/-!
# Handler/SequenceReset — what a SequenceReset does to the numbers

The handler takes NewSeqNo for the *outgoing* number and never touches the incoming one.  So it does
what a SequenceReset asks for only where there is nothing to do (`sequenceReset_inbound_iff`), and
the gap fills with which one engine answers set back the outgoing number of the other
(`gapFill_sets_outgoing`).

A NewSeqNo that is missing makes the handler return.  One that is no integer does not: the error of
`Atoi` is dropped, the number read is 0, and the outgoing number becomes -1.  The same goes for a
NewSeqNo of 0, and one below it sets a number further down.  So what there is to do is stated by
the number the handler reads (`NothingToDo`), and what is asked of it by the integer NewSeqNo is, if
it is one (`newSeqNo?`).
-/

open GoLang

namespace FixMsg

/-- NewSeqNo: none where it is missing or no integer. -/
def newSeqNo? (q : CodedMessage) : Option ℤ := atoi? (q.fields.getD 36)

/-- A SequenceReset acts on the inbound side alone, where `expected` is the number expected next
after an incoming number: the outgoing number stays, in memory and in the store; a NewSeqNo ahead of
what is expected is what is expected next; and without a positive one nothing changes. -/
structure InboundOnly (expected : ℤ → ℤ) (q : CodedMessage) (s s' : SeqManager) : Prop where
  outgoing : s'.numbers.outgoing = s.numbers.outgoing
  saved : s'.saved.1 = s.saved.1
  advances : ∀ k, newSeqNo? q = some k → expected s.numbers.incoming < k →
    expected s'.numbers.incoming = k
  ignores : (∀ k, newSeqNo? q = some k → k ≤ 0) → s'.numbers = s.numbers ∧ s'.saved = s.saved

/-- There is nothing to do: NewSeqNo is missing; or the number before what `Atoi` makes of it, which
is 0 where it is no integer, is the outgoing number already, in memory and, if it is written, in the
store, and NewSeqNo is not ahead of what is expected.  Where it is no integer, or not positive, the
store must have the incoming number too, since a write takes both. -/
def NothingToDo (expected : ℤ → ℤ) (q : CodedMessage) (s : SeqManager) (d : Driver) : Prop :=
  q.fields.getD 36 = [] ∨
    (int64 ((atoi (q.fields.getD 36)).1 - 1) = s.numbers.outgoing
      ∧ (s.Writes d → s.saved.1 = s.numbers.outgoing)
      ∧ (∀ k, newSeqNo? q = some k → k ≤ expected s.numbers.incoming)
      ∧ ((∀ k, newSeqNo? q = some k → k ≤ 0) → s.Writes d → s.saved.2 = s.numbers.incoming))

/-- An accepted SequenceReset goes to its handler. -/
theorem process_sequenceReset {env : ℕ → Env} {fuel : ℕ} {req q : CodedMessage}
    (htype : req.fields.getD tagMsgType = ascii "4")
    (haccept : (env 0).app.fromAdmin req = (q, none)) (e : Engine) :
    (process env fuel req e).engine.seqMgr = if q.fields.getD 36 = [] then e.seqMgr else
      (e.seqMgr.setOutgoing (int64 ((atoi (q.fields.getD 36)).1 - 1)) (env 0).writes).1 := by
  have hlookup : (defaultHandlers env fuel).lookup (ascii "4") = some (sequenceResetHandler env) :=
    rfl
  rw [process_of_accepted hlookup (by decide) htype haccept]
  unfold sequenceResetHandler
  dsimp only
  split <;> rfl

/-- **A SequenceReset acts on the inbound side alone exactly if there is nothing to do.** -/
theorem sequenceReset_inbound_iff {env : ℕ → Env} {fuel : ℕ} {req q : CodedMessage}
    (htype : req.fields.getD tagMsgType = ascii "4")
    (haccept : (env 0).app.fromAdmin req = (q, none)) (e : Engine) (expected : ℤ → ℤ) :
    InboundOnly expected q e.seqMgr (process env fuel req e).engine.seqMgr
      ↔ NothingToDo expected q e.seqMgr (env 0).writes := by
  rw [process_sequenceReset htype haccept, NothingToDo]
  split
  · next hmissing =>
    have hnone : newSeqNo? q = none := by
      rw [newSeqNo?, hmissing]
      rfl
    refine iff_of_true ⟨rfl, rfl, fun k hk => ?_, fun _ => ⟨rfl, rfl⟩⟩ (Or.inl hmissing)
    rw [hnone] at hk
    cases hk
  · next hpresent =>
    generalize int64 ((atoi (q.fields.getD 36)).1 - 1) = x
    have hsaved := SeqManager.saved_perform (.setOutgoing x) (env 0).writes e.seqMgr
    simp only [SeqOp.critical] at hsaved
    rw [or_iff_right hpresent]
    constructor
    · rintro ⟨hout, hstored, hadvances, hignores⟩
      refine ⟨hout, fun hw => ?_, fun k hk => ?_, fun hnot hw => ?_⟩
      · rw [SeqManager.setOutgoing, hsaved, if_pos hw] at hstored
        exact hstored.symm.trans hout
      · by_contra hahead
        have hk' := hadvances k hk (not_le.mp hahead)
        exact hahead hk'.ge
      · have hpair := (hignores hnot).2
        rw [SeqManager.setOutgoing, hsaved, if_pos hw] at hpair
        exact (congrArg Prod.snd hpair).symm
    · rintro ⟨hout, hstored, hbehind, hkept⟩
      refine ⟨hout, ?_, fun k hk hlt => absurd (hbehind k hk) (not_le.mpr hlt), fun hnot => ⟨?_, ?_⟩⟩
      · rw [SeqManager.setOutgoing, hsaved]
        split
        · next hw => exact hout.trans (hstored hw).symm
        · rfl
      · change SeqPair.mk e.seqMgr.numbers.incoming x = e.seqMgr.numbers
        rw [hout]
      · rw [SeqManager.setOutgoing, hsaved]
        split
        · next hw => exact Prod.ext (hout.trans (hstored hw).symm) (hkept hnot hw).symm
        · rfl

/-- **A gap fill for a number sets the outgoing number of its receiver** to that number. -/
theorem gapFill_sets_outgoing {env : ℕ → Env} {fuel : ℕ} {req q : CodedMessage}
    (htype : req.fields.getD tagMsgType = ascii "4")
    (haccept : (env 0).app.fromAdmin req = (q, none)) {seq : ℤ} (hseq : IsInt64 seq)
    (hnext : IsInt64 (seq + 1)) (hnew : q.fields.getD 36 = itoa (seq + 1)) (e : Engine) :
    (process env fuel req e).engine.seqMgr.numbers.outgoing = seq := by
  rw [process_sequenceReset htype haccept, hnew, if_neg (itoa_ne_nil _), atoi_itoa hnext]
  change int64 (seq + 1 - 1) = seq
  rw [add_sub_cancel_right, int64_of_isInt64 hseq]

/-- A gap fill up to number 6. -/
def gapFillToSix : CodedMessage :=
  (((adminHeader (ascii "4") (ascii "T") (ascii "S")).set tagMsgSeqNum (ascii "5")).set 36
    (ascii "6")).set 123 (ascii "Y")

/-- An engine that has used the numbers up to 5 and got those up to 9, and saved both. -/
def engineAtFive : Engine :=
  ((engineOn .opened).handle (.setNumber (.setOutgoing 5) .ok)).handle (.setNumber (.setIncoming 9) .ok)

/-- It expects 10, and has saved what the gap fill makes it save again. -/
theorem nothingToDo_gapFillToSix :
    NothingToDo (· + 1) gapFillToSix engineAtFive.seqMgr .ok := by
  have hsix : newSeqNo? gapFillToSix = some 6 := by decide +kernel
  refine Or.inr ⟨by decide +kernel, fun _ => by decide +kernel, fun k hk => ?_, fun hnot => ?_⟩
  · rw [hsix] at hk
    obtain rfl := Option.some.inj hk
    decide +kernel
  · exact absurd (hnot 6 hsix) (by decide)

/-- So the gap fill moves neither side. -/
theorem sequenceReset_inbound_behind :
    InboundOnly (· + 1) gapFillToSix engineAtFive.seqMgr
      (process (fun _ => Outbound.calm) 0 gapFillToSix engineAtFive).engine.seqMgr :=
  (sequenceReset_inbound_iff rfl rfl _ _).mpr nothingToDo_gapFillToSix

/-- An engine asked for number 1 fills the gap; another, which has used five numbers, goes on from
the gap fill with number 2 again. -/
theorem gapFill_resets_receiver :
    (process (fun _ => Outbound.calm) 2 (resendRequest (ascii "1") (ascii "1"))
      (engineOn .opened)).emitted.map (fun x => (defaultParse x.frame).toOption.bind fun f =>
        f.get 123) = [some (ascii "Y")]
      ∧ (process (fun _ => Outbound.calm) 2 (resendRequest (ascii "1") (ascii "1"))
        (engineOn .opened)).emitted.map (fun x => (CodedMessage.loadFix x.frame).toOption.map fun m =>
          (process (fun _ => Outbound.calm) 0 m
            ((engineOn .opened).handle (.setNumber (.setOutgoing 5) .ok))).engine.seqMgr.numbers)
        = [some ⟨0, 1⟩] := by
  decide +kernel

end FixMsg
