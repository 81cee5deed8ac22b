import GoFixMsg.Message.FixMessage

/-!
# Engine/Validator — the tags every message must carry

Without a dictionary `ValidateMessage` asks for eight tags, in a fixed order, and names the first
that is missing.  It looks at no value.  Two of the eight are stamped by `ToWire` whatever the
message holds, so for a message on its way out the other six count.
-/

open GoLang

namespace FixMsg

/-- `mandatoryTags`. -/
def mandatoryTags : List ℤ :=
  [tagBeginString, tagBodyLength, tagMsgType, tagSenderCompID, tagTargetCompID, tagMsgSeqNum,
   tagSendingTime, tagCheckSum]

/-- **`ValidateMessage` without a dictionary**: its error, for the first tag that is missing. -/
def validateMandatory (f : FixFragment) : Option Bytes :=
  (mandatoryTags.find? fun t => !f.contains t).map fun t =>
    ascii "missing mandatory tag " ++ itoa t

theorem validateMandatory_eq_none {f : FixFragment} :
    validateMandatory f = none ↔ ∀ t ∈ mandatoryTags, t ∈ f.tags := by
  simp only [validateMandatory, Option.map_eq_none_iff, List.find?_eq_none, Bool.not_eq_true',
    Bool.not_eq_false, FixFragment.contains_iff]

/-- The length and the checksum are stamped; the other tags must be there before. -/
theorem validateMandatory_stampBody {f : FixFragment} {body : Bytes} :
    validateMandatory (stampBody f body) = none ↔
      ∀ t ∈ [tagBeginString, tagMsgType, tagSenderCompID, tagTargetCompID, tagMsgSeqNum,
        tagSendingTime], t ∈ f.tags := by
  have h8 : tagBeginString ≠ tagCheckSum ∧ tagBeginString ≠ tagBodyLength := by decide
  have h35 : tagMsgType ≠ tagCheckSum ∧ tagMsgType ≠ tagBodyLength := by decide
  have h49 : tagSenderCompID ≠ tagCheckSum ∧ tagSenderCompID ≠ tagBodyLength := by decide
  have h56 : tagTargetCompID ≠ tagCheckSum ∧ tagTargetCompID ≠ tagBodyLength := by decide
  have h34 : tagMsgSeqNum ≠ tagCheckSum ∧ tagMsgSeqNum ≠ tagBodyLength := by decide
  have h52 : tagSendingTime ≠ tagCheckSum ∧ tagSendingTime ≠ tagBodyLength := by decide
  rw [validateMandatory_eq_none, mandatoryTags]
  simp only [List.forall_mem_cons, List.not_mem_nil, false_implies, implies_true, and_true,
    mem_tags_stampBody, h8, h35, h49, h56, h34, h52, false_or, true_or, or_true, true_and]

end FixMsg
