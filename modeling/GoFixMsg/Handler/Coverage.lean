import GoFixMsg.Engine.Resendable

/-!
# Handler/Coverage — every number asked for is answered

Whatever the store holds, and whatever its driver makes of the reads, each pass of the resend loop
emits one frame, and it answers for the number of the pass (`resend_covers`).

A frame that answers for a number is a replay of what is stored under it, or a gap fill from the
number to the next.  What the application makes of either is up to it, so it is asked to accept gap
fills and to keep what makes them such; and what the store holds under a number is to carry that
number.
-/

open GoLang

namespace FixMsg

/-- The fields of a gap fill up to the next number. -/
def FillsGap (next : ℤ) (f : FixFragment) : Prop :=
  f.get tagMsgType = some (ascii "4") ∧ f.get 123 = some (ascii "Y")
    ∧ f.get 36 = some (itoa next)

/-- The fields of a replay of the message stored under a number: those of the message, with
OrigSendingTime where the message has one or at least a SendingTime. -/
def ReplaysStored (s : SeqManager) (sender target : Bytes) (seq : ℤ) (f : FixFragment) : Prop :=
  ∃ row f₀, s.messages ⟨ascii "FIX.4.4", sender, target, seq⟩ = some row
    ∧ defaultParse row.body = .ok f₀ ∧ f₀.getD tagMsgType ∉ gapFilledTypes
    ∧ (∀ t ∉ [tagBodyLength, tagCheckSum, tagPossDupFlag, tagSendingTime, tagOrigSendTime],
      f.get t = f₀.get t)
    ∧ f.get tagOrigSendTime = (f₀.get tagOrigSendTime).or (f₀.get tagSendingTime)

/-- The text of MsgSeqNum is the number. -/
def Numbered (seq : ℤ) (f : FixFragment) : Prop :=
  ∃ text, f.get tagMsgSeqNum = some text ∧ atoi text = (seq, none)

/-- A frame answers for a number, and goes on with the next. -/
def Answers (s : SeqManager) (sender target : Bytes) (seq next : ℤ) (frame : Bytes) : Prop :=
  ∃ f, defaultParse frame = .ok f ∧ Numbered seq f ∧ f.get tagPossDupFlag = some (ascii "Y")
    ∧ (ReplaysStored s sender target seq f ∨ FillsGap next f)

/-- `ToAdmin` accepts every message, and keeps what makes a gap fill one. -/
structure Application.KeepsGapFills (app : Application) : Prop where
  accepts : ∀ m, (app.toAdmin m).2 = none
  simple : ∀ m, m.Simple → (app.toAdmin m).1.Simple
  get : ∀ m, ∀ t ∈ [tagMsgSeqNum, tagPossDupFlag, tagMsgType, 36, 123],
    (app.toAdmin m).1.fields.get t = m.fields.get t

/-- The bodies stored under a number that can be read carry it. -/
def SeqManager.StoresNumbered (s : SeqManager) (sender target : Bytes) : Prop :=
  ∀ seq row f, s.messages ⟨ascii "FIX.4.4", sender, target, seq⟩ = some row →
    defaultParse row.body = .ok f → Numbered seq f

section Pass

variable {sender target : Bytes} (hsender : SohFree sender) (htarget : SohFree target)

include hsender htarget

/-- A message with the fields of a gap fill goes out as a frame that answers for its number. -/
theorem emit_gapFill {env : Env} {seq : ℤ} {m : CodedMessage} (hsimple : m.Simple)
    (hget : ∀ t ∈ [tagMsgSeqNum, tagPossDupFlag, tagMsgType, 36, 123],
      m.fields.get t = (gapFillMessage env.ρ sender target seq).fields.get t) (s : SeqManager) :
    ∃ x, emit env .gapFill seq m = some x
      ∧ (IsInt64 seq → Answers s sender target seq (int64 (seq + 1)) x.frame) := by
  obtain ⟨x, hemit, -, -, f, hf, hfields⟩ := emit_readsAs hsimple env .gapFill seq
  refine ⟨x, hemit, fun hseq => ?_⟩
  have hkept : ∀ t ∈ [tagMsgSeqNum, tagPossDupFlag, tagMsgType, 36, 123],
      f.get t = (gapFillFields sender target seq).lookup t := by
    intro t ht
    have h9 : t ≠ tagBodyLength := by
      rintro rfl
      exact absurd ht (by decide)
    have h10 : t ≠ tagCheckSum := by
      rintro rfl
      exact absurd ht (by decide)
    rw [hfields t h9 h10, hget t ht, (get_gapFillMessage hsender htarget env.ρ seq).2 t h9 h10]
  exact ⟨f, hf, ⟨itoa seq, hkept tagMsgSeqNum (by decide), atoi_itoa hseq⟩,
    hkept tagPossDupFlag (by decide), Or.inr ⟨hkept tagMsgType (by decide),
      hkept 123 (by decide), hkept 36 (by decide)⟩⟩

theorem fillGap_answers {env : Env} (happ : env.app.KeepsGapFills) (seq : ℤ) (s : SeqManager) :
    ∃ x, (fillGap env sender target seq).2 = some x
      ∧ (IsInt64 seq → Answers s sender target seq (int64 (seq + 1)) x.frame) := by
  have hsimple := (get_gapFillMessage hsender htarget env.ρ seq).1
  generalize hm : gapFillMessage env.ρ sender target seq = m at hsimple
  have hkept : ∀ t ∈ [tagMsgSeqNum, tagPossDupFlag, tagMsgType, 36, 123],
      (env.app.toAdmin m).1.fields.get t
        = (gapFillMessage env.ρ sender target seq).fields.get t := fun t ht => by
    rw [happ.get m t ht, hm]
  obtain ⟨x, hemit, hanswers⟩ := emit_gapFill hsender htarget (happ.simple m hsimple) hkept s
  refine ⟨x, ?_, hanswers⟩
  have hasked : env.app.askToAdmin m = ([.toAdmin m], .ok (env.app.toAdmin m).1) :=
    ask_of_accepted (Prod.ext rfl (happ.accepts m))
  rw [fillGap, hm, hasked]
  exact hemit

/-- **Each pass emits one frame, and it answers for the number of the pass**: whatever is found
under it, and whatever the driver makes of the read. -/
theorem emission_answers {env : ℕ → Env} (happ : ∀ k, (env k).app.KeepsGapFills) {s : SeqManager}
    (hnumbered : s.StoresNumbered sender target) (k : ℕ) (seq : ℤ) :
    ∃ x, emission env sender target s k seq = some x
      ∧ (IsInt64 seq → Answers s sender target seq (int64 (seq + 1)) x.frame) := by
  unfold emission
  cases hfound : lookup (env k).reads sender target seq s with
  | none => exact fillGap_answers hsender htarget (happ k) seq s
  | some stored =>
    rcases CodedMessage.loadFix_eq stored.body with ⟨err, -, hload⟩ | ⟨m, hparse, hload, -⟩
    · rw [resendPass, hload]
      exact emit_gapFill hsender htarget (get_gapFillMessage hsender htarget (env k).ρ seq).1
        (fun _ _ => rfl) s
    · by_cases htype : m.fields.getD tagMsgType ∈ gapFilledTypes
      · rw [resendPass, hload]
        dsimp only
        rw [if_pos htype]
        exact fillGap_answers hsender htarget (happ k) seq s
      · obtain ⟨x, hx, -, -, g, hg, hget⟩ := @resendPass_replay (env k) sender target seq stored
          _ hparse htype
        refine ⟨x, hx, fun _ => ?_⟩
        obtain ⟨row, hrow, hbody⟩ := messages_of_lookup hfound
        rw [← hbody] at hparse
        obtain ⟨text, htext, hatoi⟩ := hnumbered seq row _ hrow hparse
        refine ⟨g, hg, ⟨text, ?_, hatoi⟩, hget _ (by decide) (by decide),
          Or.inl ⟨row, _, hrow, hparse, htype, fun t ht => ?_, hget _ (by decide) (by decide)⟩⟩
        · rw [← htext]
          exact hget _ (by decide) (by decide)
        · simp only [List.mem_cons, List.not_mem_nil, or_false, not_or] at ht
          obtain ⟨h9, h10, h43, h52, h122⟩ := ht
          rw [hget t h9 h10, replayedField, if_neg h52, if_neg h43, if_neg h122]

end Pass

/-- The loop emits one frame a number, where each pass emits one. -/
theorem flatMap_toList {α β : Type} {f : α → Option β} {g : α → β} (h : ∀ a, f a = some (g a))
    (l : List α) : (l.flatMap fun a => (f a).toList) = l.map g := by
  rw [List.map_eq_flatMap]
  exact List.flatMap_congr fun a _ => by rw [h a]; rfl

/-- **A ResendRequest is answered number by number**: with one frame for each, all of which go out,
and each of which is a replay of the message stored under its number or a gap fill for it. -/
theorem resend_covers {env : ℕ → Env} {fuel : ℕ} {req q : CodedMessage} {e : Engine}
    (htype : req.fields.getD tagMsgType = ascii "2")
    (haccept : (env 0).app.fromAdmin req = (q, none)) (hstore : e.seqMgr.store.isSome = true)
    (hsender : SohFree (q.fields.getD tagTargetCompID))
    (htarget : SohFree (q.fields.getD tagSenderCompID))
    (hnumbered : e.seqMgr.StoresNumbered (q.fields.getD tagTargetCompID)
      (q.fields.getD tagSenderCompID))
    (happ : ∀ k, (env k).app.KeepsGapFills) (htakes : ∀ k, (env k).takes = true)
    (hlink : e.link ≠ .absent) (hlo : 1 ≤ beginSeqNo q)
    (hle : beginSeqNo q ≤ endSeqNo q e.seqMgr) (hmax : endSeqNo q e.seqMgr < 2 ^ 63 - 1)
    (hfuel : endSeqNo q e.seqMgr - beginSeqNo q + 1 < fuel) :
    ∃ r, process env fuel req e = r ∧ r.finished = true ∧ r.error = none
      ∧ r.engine.sent = e.sent ++ r.emitted.map Emission.frame
      ∧ (r.emitted.length : ℤ) = endSeqNo q e.seqMgr - beginSeqNo q + 1
      ∧ ∀ (k : ℕ) (x : Emission), r.emitted[k]? = some x →
        Answers e.seqMgr (q.fields.getD tagTargetCompID) (q.fields.getD tagSenderCompID)
          (beginSeqNo q + k) (beginSeqNo q + k + 1) x.frame := by
  have hbegin : q.fields.getD 7 ≠ [] := by
    intro hnil
    rw [beginSeqNo, hnil] at hlo
    exact absurd hlo (by decide)
  obtain ⟨st, hst⟩ := Option.isSome_iff_exists.mp hstore
  rw [process_resendRequest htype haccept, resendRequestHandler, if_neg hbegin, seqMgr_record,
    hst]
  refine ⟨_, rfl, ?_⟩
  dsimp only
  generalize endSeqNo q e.seqMgr = ei at hle hmax hfuel ⊢
  generalize hbi : beginSeqNo q = bi at hlo hle hfuel ⊢
  have hint : IsInt64 bi := hbi ▸ isInt64_atoi _
  obtain ⟨n, hn⟩ : ∃ n : ℕ, bi + n = ei + 1 := ⟨(ei + 1 - bi).toNat, by omega⟩
  obtain ⟨hfinished, hemitted⟩ := resendLoop_finishes (fun k => env (k + 1))
    (q.fields.getD tagTargetCompID) (q.fields.getD tagSenderCompID) hmax hint 0
    (e.record [.fromAdmin req]) hn (show n < fuel by omega)
  choose g hemission hanswers using fun j : ℕ => emission_answers hsender htarget
    (fun k => happ (k + 1)) hnumbered (0 + j) (bi + j)
  have hmap : _ = (List.range n).map g := flatMap_toList hemission (List.range n)
  rw [seqMgr_record, hmap] at hemitted
  refine ⟨hfinished, rfl, sent_resendLoop (fun k => htakes (k + 1)) _ _ _ _ _ _ hlink, ?_, ?_⟩
  · rw [hemitted, List.length_map, List.length_range]
    omega
  · intro k x hx
    rw [hemitted, List.getElem?_map, Option.map_eq_some_iff] at hx
    obtain ⟨j, hj, rfl⟩ := hx
    obtain ⟨hk, rfl⟩ := List.getElem?_eq_some_iff.mp hj
    rw [List.length_range] at hk
    rw [List.getElem_range]
    have hanswer := hanswers k ⟨by omega, by omega⟩
    rwa [int64_of_isInt64 ⟨by omega, by omega⟩] at hanswer

theorem storesNumbered_filledStore :
    (engineOn filledStore).seqMgr.StoresNumbered (ascii "S") (ascii "T") := by
  intro seq row f hrow hparse
  have hkey := (SQLiteStore.messages_saveMessage (s := .opened) (by decide) _ _).symm.trans hrow
  split at hkey
  · next hseq =>
    cases hkey
    cases hparse
    cases hseq
    exact ⟨ascii "1", by decide, by decide⟩
  · cases hkey

/-- The number of the stored order and the one behind it. -/
theorem resend_covers_two : ∃ r, process (fun _ => Outbound.calm) 4
    (resendRequest (ascii "1") (ascii "2")) (engineOn filledStore) = r
      ∧ r.finished = true ∧ (r.emitted.length : ℤ) = 2 := by
  obtain ⟨r, hr, hfinished, -, -, hlength, -⟩ := @resend_covers (fun _ => Outbound.calm) 4
    (resendRequest (ascii "1") (ascii "2")) _ (engineOn filledStore) rfl rfl rfl (by decide)
    (by decide) storesNumbered_filledStore
    (fun _ => ⟨fun _ => rfl, fun _ h => h, fun _ _ _ => rfl⟩) (fun _ => rfl) (by decide)
    (by decide) (by decide) (by decide) (by decide)
  exact ⟨r, hr, hfinished, hlength⟩

/-- The fields under a tag in the frames that answer a ResendRequest. -/
def answers (env : Env) (st : SQLiteStore) (first last : Bytes) (t : ℤ) :
    List (EmissionKind × Option Bytes) :=
  (process (fun _ => env) 2 (resendRequest first last) (engineOn st)).emitted.map fun x =>
    (x.kind, (defaultParse x.frame).toOption.bind fun f => f.get t)

/-- A store with a Reject under number 1. -/
def rejectStore : SQLiteStore :=
  (SQLiteStore.opened.saveMessage .ok ⟨ascii "FIX.4.4", ascii "S", ascii "T", 1, ascii "3",
    ascii "35=3" ++ 1 :: ascii "34=1" ++ 1 :: ascii "52=t" ++ [1], 0⟩).1

/-- An application that takes PossDupFlag out of what it is shown. -/
def noPossDup : Application :=
  { noOpApplication with toAdmin := fun m => (m.set tagPossDupFlag (ascii "N"), none) }

/-- An order stored without SendingTime is replayed without OrigSendingTime; an admin message, a
Reject, is replayed; the application may take PossDupFlag out of a gap fill; and behind the largest
`int` the loop goes on. -/
theorem resend_uncovered :
    answers Outbound.calm filledStore (ascii "1") (ascii "1") tagOrigSendTime = [(.replay, none)]
      ∧ answers Outbound.calm rejectStore (ascii "1") (ascii "1") tagMsgType
        = [(.replay, some (ascii "3"))]
      ∧ answers { Outbound.calm with app := noPossDup } .opened (ascii "1") (ascii "1")
        tagPossDupFlag = [(.gapFill, some (ascii "N"))]
      ∧ (answers Outbound.calm .opened (itoa (2 ^ 63 - 1)) (itoa (2 ^ 63 - 1)) 34).length = 2 := by
  refine ⟨?_, ?_, ?_, ?_⟩ <;> decide +kernel

end FixMsg
