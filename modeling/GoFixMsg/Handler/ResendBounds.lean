import GoFixMsg.Handler.Coverage

/-!
# Handler/ResendBounds — does a resend stay within what was sent?

The bounds of the loop are whatever `Atoi` makes of the peer's text.  The loop stays within the
numbers used so far exactly if they do (`resend_within_iff`).

What is compared is the numbers on the frames with those used so far, for any texts in the two tags:
missing ones, words, negative numbers, and numbers far beyond.  A request that asks for nothing,
since its bounds are the wrong way round, is answered with nothing.
-/

open GoLang

namespace FixMsg

/-- A frame carries a number from 1 to the last one used, and a gap fill points no further than
behind it. -/
def FrameWithin (last : ℤ) (frame : Bytes) : Prop :=
  ∃ f n, defaultParse frame = .ok f ∧ Numbered n f ∧ 1 ≤ n ∧ n ≤ last
    ∧ (f.get tagMsgType = some (ascii "4") →
      ∃ k, atoi (f.getD 36) = (k, none) ∧ k ≤ last + 1)

/-- The answer to a ResendRequest stays within the numbers used: all its frames do, and the loop
ends, after as many frames at most as numbers have been used. -/
def ResendWithin (env : ℕ → Env) (req : CodedMessage) (e : Engine) : Prop :=
  (∀ fuel, ∀ x ∈ (process env fuel req e).emitted,
    FrameWithin e.seqMgr.numbers.outgoing x.frame)
  ∧ ∃ fuel, (process env fuel req e).finished = true
    ∧ ((process env fuel req e).emitted.length : ℤ) ≤ max 0 e.seqMgr.numbers.outgoing

/-- Nothing is asked for, or numbers from 1 to the last one used, and this is not the largest
`int`. -/
def AsksWithin (q : CodedMessage) (s : SeqManager) : Prop :=
  q.fields.getD 7 = [] ∨ s.store = none ∨ endSeqNo q s < beginSeqNo q
    ∨ (1 ≤ beginSeqNo q ∧ endSeqNo q s ≤ s.numbers.outgoing ∧ endSeqNo q s < 2 ^ 63 - 1)

theorem isInt64_endSeqNo (q : CodedMessage) {s : SeqManager} (h : IsInt64 s.numbers.outgoing) :
    IsInt64 (endSeqNo q s) := by
  have hei : IsInt64 (if q.fields.getD 16 = [] then 0 else (atoi (q.fields.getD 16)).1) := by
    split
    · decide
    · exact isInt64_atoi _
  unfold endSeqNo
  dsimp only
  generalize (if q.fields.getD 16 = [] then 0 else (atoi (q.fields.getD 16)).1) = ei at hei ⊢
  split
  · exact h
  · exact hei

/-- A number from 1 to the last one used is answered by a frame within. -/
theorem Answers.within {s : SeqManager} {sender target : Bytes} {seq last : ℤ} {frame : Bytes}
    (h : Answers s sender target seq (seq + 1) frame) (hnext : IsInt64 (seq + 1)) (hlo : 1 ≤ seq)
    (hhi : seq ≤ last) : FrameWithin last frame := by
  obtain ⟨f, hf, hnumbered, -, hanswer⟩ := h
  refine ⟨f, seq, hf, hnumbered, hlo, hhi, fun htype => ?_⟩
  rcases hanswer with ⟨row, f₀, -, -, hkept, hsame, -⟩ | ⟨-, -, hnew⟩
  · have h35 := hsame tagMsgType (by decide)
    rw [htype] at h35
    rw [FixFragment.getD_of_get h35.symm] at hkept
    exact absurd hkept (by decide)
  · rw [FixFragment.getD_of_get hnew, atoi_itoa hnext]
    exact ⟨seq + 1, rfl, by omega⟩

/-- A frame has one number. -/
theorem Answers.number_within {s : SeqManager} {sender target : Bytes} {seq next last : ℤ}
    {frame : Bytes} (h : Answers s sender target seq next frame) (hwithin : FrameWithin last frame) :
    1 ≤ seq ∧ seq ≤ last := by
  obtain ⟨f, hf, ⟨text, htext, hseq⟩, -⟩ := h
  obtain ⟨g, n, hg, ⟨text', htext', hn⟩, hlo, hhi, -⟩ := hwithin
  rw [hf] at hg
  cases hg
  rw [htext] at htext'
  cases htext'
  rw [hseq] at hn
  cases hn
  exact ⟨hlo, hhi⟩

section Loop

variable {env : ℕ → Env} {sender target : Bytes} {e : Engine} {bi ei : ℤ}
variable (hsender : SohFree sender) (htarget : SohFree target)
variable (hnumbered : e.seqMgr.StoresNumbered sender target)
variable (happ : ∀ k, (env k).app.KeepsGapFills) (hbi : IsInt64 bi)

include hsender htarget hnumbered happ hbi

/-- The loop over numbers from 1 to the last one used stays within, and ends. -/
theorem resendLoop_within (hlo : 1 ≤ bi) (hle : bi ≤ ei) (hhi : ei ≤ e.seqMgr.numbers.outgoing)
    (hmax : ei < 2 ^ 63 - 1) :
    (∀ fuel, ∀ x ∈ (resendLoop env sender target ei fuel 0 bi e).emitted,
      FrameWithin e.seqMgr.numbers.outgoing x.frame)
    ∧ ∃ fuel, (resendLoop env sender target ei fuel 0 bi e).finished = true
      ∧ ((resendLoop env sender target ei fuel 0 bi e).emitted.length : ℤ)
        ≤ max 0 e.seqMgr.numbers.outgoing := by
  constructor
  · intro fuel x hx
    obtain ⟨hge, hxle⟩ := seq_of_mem_resendLoop hmax hbi hx
    obtain ⟨j, hj⟩ := emission_of_mem hx
    obtain ⟨y, hy, hanswers⟩ := emission_answers hsender htarget happ hnumbered j x.seq
    rw [hj] at hy
    cases hy
    have hanswer := hanswers ⟨by omega, by omega⟩
    have hnext : IsInt64 (x.seq + 1) := ⟨by omega, by omega⟩
    rw [int64_of_isInt64 hnext] at hanswer
    exact hanswer.within hnext (by omega) (by omega)
  · obtain ⟨n, hn⟩ : ∃ n : ℕ, bi + n = ei + 1 := ⟨(ei + 1 - bi).toNat, by omega⟩
    obtain ⟨hfinished, hemitted⟩ := resendLoop_finishes env sender target hmax hbi 0 e hn
      (Nat.lt_succ_self n)
    refine ⟨n + 1, hfinished, ?_⟩
    have hlen : (resendLoop env sender target ei (n + 1) 0 bi e).emitted.length ≤ n := by
      choose g hg _ using fun j : ℕ => emission_answers hsender htarget happ hnumbered (0 + j)
        (bi + j)
      rw [hemitted, flatMap_toList hg, List.length_map, List.length_range]
    omega

/-- The loop goes through every number from the first to the last, and does not end behind the
largest `int`. -/
theorem asksWithin_of_resendLoop (hei : IsInt64 ei) (hle : bi ≤ ei)
    (hwithin : ∀ fuel, ∀ x ∈ (resendLoop env sender target ei fuel 0 bi e).emitted,
      FrameWithin e.seqMgr.numbers.outgoing x.frame)
    (hends : ∃ fuel, (resendLoop env sender target ei fuel 0 bi e).finished = true) :
    1 ≤ bi ∧ ei ≤ e.seqMgr.numbers.outgoing ∧ ei < 2 ^ 63 - 1 := by
  have hnumber : ∀ seq, bi ≤ seq → seq ≤ ei → 1 ≤ seq ∧ seq ≤ e.seqMgr.numbers.outgoing := by
    intro seq hge hxle
    obtain ⟨-, hmax⟩ := hei
    obtain ⟨n, rfl⟩ : ∃ n : ℕ, bi + n = seq := ⟨(seq - bi).toNat, by omega⟩
    obtain ⟨x, hx, hanswers⟩ := emission_answers hsender htarget happ hnumbered (0 + n) (bi + n)
    have hmem := mem_resendLoop hbi hxle (by omega) (Nat.lt_succ_self n) hx
    exact (hanswers ⟨by have := hbi.1; omega, by omega⟩).number_within (hwithin _ x hmem)
  refine ⟨(hnumber bi le_rfl hle).1, (hnumber ei hle le_rfl).2, ?_⟩
  obtain ⟨fuel, hfinished⟩ := hends
  by_contra hmax
  rw [resendLoop_endless env sender target (by omega) fuel 0 hbi e] at hfinished
  cases hfinished

end Loop

/-- **The answer to a ResendRequest stays within the numbers used exactly if the request does.** -/
theorem resend_within_iff {env : ℕ → Env} {req q : CodedMessage} {e : Engine}
    (htype : req.fields.getD tagMsgType = ascii "2")
    (haccept : (env 0).app.fromAdmin req = (q, none)) (hint : IsInt64 e.seqMgr.numbers.outgoing)
    (hsender : SohFree (q.fields.getD tagTargetCompID))
    (htarget : SohFree (q.fields.getD tagSenderCompID))
    (hnumbered : e.seqMgr.StoresNumbered (q.fields.getD tagTargetCompID)
      (q.fields.getD tagSenderCompID))
    (happ : ∀ k, (env k).app.KeepsGapFills) :
    ResendWithin env req e ↔ AsksWithin q e.seqMgr := by
  have hprocess := fun fuel => @process_resendRequest env fuel req q htype haccept e
  have hlast : IsInt64 (endSeqNo q e.seqMgr) := isInt64_endSeqNo q hint
  have hfirst : IsInt64 (beginSeqNo q) := isInt64_atoi _
  have hnothing : ∀ (e' : Engine) (err : Option HandlerError),
      (∀ fuel, resendRequestHandler env fuel q (e.record [.fromAdmin req]) = .of e' err) →
        ResendWithin env req e := by
    intro e' err h
    refine ⟨fun fuel x hx => ?_, 0, ?_⟩
    · rw [hprocess, h] at hx
      cases hx
    · rw [hprocess, h]
      exact ⟨rfl, le_max_left _ _⟩
  by_cases hbegin : q.fields.getD 7 = []
  · exact iff_of_true (hnothing _ _ fun fuel => if_pos hbegin) (Or.inl hbegin)
  cases hstore : e.seqMgr.store with
  | none =>
    refine iff_of_true (hnothing (e.record [.fromAdmin req]) none fun fuel => ?_)
      (Or.inr (Or.inl hstore))
    rw [resendRequestHandler, if_neg hbegin, seqMgr_record, hstore]
  | some st =>
    have hloop : ∀ fuel, (process env fuel req e).emitted = (resendLoop (fun k => env (k + 1))
        (q.fields.getD tagTargetCompID) (q.fields.getD tagSenderCompID) (endSeqNo q e.seqMgr) fuel 0
        (beginSeqNo q) (e.record [.fromAdmin req])).emitted
        ∧ (process env fuel req e).finished = (resendLoop (fun k => env (k + 1))
        (q.fields.getD tagTargetCompID) (q.fields.getD tagSenderCompID) (endSeqNo q e.seqMgr) fuel 0
        (beginSeqNo q) (e.record [.fromAdmin req])).finished := by
      intro fuel
      rw [hprocess, resendRequestHandler, if_neg hbegin, seqMgr_record, hstore]
      exact ⟨rfl, rfl⟩
    simp only [ResendWithin, hloop, AsksWithin, hbegin, hstore, reduceCtorEq, false_or]
    by_cases hempty : endSeqNo q e.seqMgr < beginSeqNo q
    · refine iff_of_true ⟨fun fuel x hx => ?_, 1, ?_⟩ (Or.inl hempty)
      · cases fuel with
        | zero => cases hx
        | succ fuel =>
          rw [resendLoop, if_neg (not_le.mpr hempty)] at hx
          cases hx
      · rw [resendLoop, if_neg (not_le.mpr hempty)]
        exact ⟨rfl, le_max_left _ _⟩
    · rw [or_iff_right hempty]
      have hle := not_lt.mp hempty
      constructor
      · rintro ⟨hwithin, fuel, hfinished, -⟩
        exact asksWithin_of_resendLoop (e := e.record [.fromAdmin req]) hsender htarget hnumbered
          (fun k => happ (k + 1)) hfirst hlast hle hwithin ⟨fuel, hfinished⟩
      · rintro ⟨hlo, hhi, hmax⟩
        exact resendLoop_within (e := e.record [.fromAdmin req]) hsender htarget hnumbered
          (fun k => happ (k + 1)) hfirst hlo hle hhi hmax

/-- An engine that has used three numbers, and is asked for all of them. -/
theorem resend_within_three : ResendWithin (fun _ => Outbound.calm)
    (resendRequest (ascii "1") (ascii "0"))
    ((engineOn .opened).handle (.setNumber (.setOutgoing 3) .ok)) := by
  have hnumbered : ((engineOn .opened).handle
      (.setNumber (.setOutgoing 3) .ok)).seqMgr.StoresNumbered (ascii "S") (ascii "T") := by
    intro seq row f hrow
    cases hrow
  refine (resend_within_iff rfl rfl (by decide) (by decide) (by decide) hnumbered
    fun _ => ⟨fun _ => rfl, fun _ h => h, fun _ _ _ => rfl⟩).mpr ?_
  exact Or.inr (Or.inr (Or.inr ⟨by decide, by decide, by decide⟩))

/-- An engine that has used no number yet answers for two. -/
theorem resend_beyond_sent : ¬ ResendWithin (fun _ => Outbound.calm)
    (resendRequest (ascii "1") (ascii "2")) (engineOn .opened) := by
  rintro ⟨hwithin, -⟩
  have hlength : (process (fun _ => Outbound.calm) 3 (resendRequest (ascii "1") (ascii "2"))
      (engineOn .opened)).emitted.length = 2 := by decide +kernel
  obtain ⟨x, hx⟩ := List.exists_mem_of_length_pos (hlength ▸ Nat.two_pos)
  obtain ⟨f, n, -, -, hlo, hhi, -⟩ := hwithin 3 x hx
  exact absurd (hlo.trans hhi) (by decide)

end FixMsg
