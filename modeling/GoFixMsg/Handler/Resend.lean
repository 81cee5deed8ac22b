import GoFixMsg.Handler.Messages

/-!
# Handler/Resend — answering a ResendRequest

The handler goes through the numbers asked for.  Each pass looks one number up in the store and
sends one frame for it: the stored message again, or a SequenceReset that fills the gap
(`resendPass`).

A pass may emit nothing: where the application refuses the frame, or where it does not serialise.
The counter of the loop is an `int` and is compared with the last number after it has been
incremented; where that is the greatest there is, it wraps around and the loop has no end
(`resendLoop_endless`).
-/

open GoLang

namespace FixMsg

/-- Which branch of the loop sent a frame. -/
inductive EmissionKind where
  | replay
  | gapFill
  deriving DecidableEq

/-- A frame the loop handed to `SessionSend`, and for which number. -/
structure Emission where
  seq : ℤ
  kind : EmissionKind
  frame : Bytes

/-- The admin types that are filled instead of replayed. -/
def gapFilledTypes : List Bytes :=
  [ascii "A", ascii "5", ascii "2", ascii "0", ascii "1", ascii "4"]

/-- The SequenceReset that fills the gap of one number. -/
def gapFillMessage (ρ : SortSlice) (sender target : Bytes) (seq : ℤ) : CodedMessage :=
  ((newSequenceResetMessage ρ target sender (int64 (seq + 1)) true).set tagMsgSeqNum
    (itoa seq)).set tagPossDupFlag (ascii "Y")

/-- OrigSendingTime, from SendingTime where it is missing. -/
def copySendingTime (m : CodedMessage) : CodedMessage :=
  match m.fields.get tagSendingTime with
  | some origTime =>
      if m.fields.contains tagOrigSendTime then m else m.set tagOrigSendTime origTime
  | none => m

/-- A stored message as it is replayed. -/
def replayMessage (now : Timestamp) (m : CodedMessage) : CodedMessage :=
  (copySendingTime (m.set tagPossDupFlag (ascii "Y"))).set tagSendingTime now.text

/-- Serialise a message and send it; an error is logged, and nothing is sent. -/
def emit (env : Env) (kind : EmissionKind) (seq : ℤ) (m : CodedMessage) : Option Emission :=
  match (m.toWire env.σ env.τ).2 with
  | .ok b => some ⟨seq, kind, b⟩
  | .error _ => none

/-- Fill the gap of a number with the consent of the application. -/
def fillGap (env : Env) (sender target : Bytes) (seq : ℤ) : List AppCall × Option Emission :=
  let asked := env.app.askToAdmin (gapFillMessage env.ρ sender target seq)
  (asked.1, asked.2.toOption.bind (emit env .gapFill seq))

/-- **One pass of the loop**, for a number and what the store holds under it. -/
def resendPass (env : Env) (sender target : Bytes) (seq : ℤ) :
    Option StoredMessage → List AppCall × Option Emission
  | none => fillGap env sender target seq
  | some stored =>
      match CodedMessage.loadFix stored.body with
      | .error _ =>
          -- an unreadable message is filled without asking the application
          ([], emit env .gapFill seq (gapFillMessage env.ρ sender target seq))
      | .ok m =>
          if m.fields.getD tagMsgType ∈ gapFilledTypes then fillGap env sender target seq
          else ([], emit env .replay seq (replayMessage env.now m))

/-- What the store has under a number; an error counts as nothing. -/
def lookup (d : Driver) (sender target : Bytes) (seq : ℤ) (s : SeqManager) :
    Option StoredMessage :=
  match s.store with
  | none => none
  | some st =>
      match st.getMessage d (ascii "FIX.4.4") sender target seq with
      | .ok m => m
      | .error _ => none

/-- A pass makes its calls, and its frame goes to the session. -/
def afterPass (takes : Bool) (pass : List AppCall × Option Emission) (e : Engine) : Engine :=
  let e := { e with calls := e.calls ++ pass.1 }
  match pass.2 with
  | none => e
  | some x => (e.sessionSend takes x.frame).1

/-- What the loop leaves behind: the engine, the frames, and whether it came to its end within the
fuel. -/
structure Resent where
  engine : Engine
  emitted : List Emission
  finished : Bool

/-- **The loop**, from the `k`-th pass on.  `seq++` wraps, so where the last number is the largest
`int` the loop does not come to its end. -/
def resendLoop (env : ℕ → Env) (sender target : Bytes) (ei : ℤ) : ℕ → ℕ → ℤ → Engine → Resent
  | 0, _, _, e => ⟨e, [], false⟩
  | fuel + 1, k, seq, e =>
      if seq ≤ ei then
        let pass := resendPass (env k) sender target seq
          (lookup (env k).reads sender target seq e.seqMgr)
        let rest := resendLoop env sender target ei fuel (k + 1) (int64 (seq + 1))
          (afterPass (env k).takes pass e)
        ⟨rest.engine, pass.2.toList ++ rest.emitted, rest.finished⟩
      else ⟨e, [], true⟩

/-! ## The passes of the loop

Each pass has an environment of its own, and neither the numbers nor the store change under the
loop.  So what a pass emits is a matter of its number alone, and the loop is a list of passes. -/

@[simp] theorem seqMgr_afterPass (takes : Bool) (pass : List AppCall × Option Emission)
    (e : Engine) : (afterPass takes pass e).seqMgr = e.seqMgr := by
  unfold afterPass
  split
  · rfl
  · exact Engine.seqMgr_sessionSend takes _ _

/-- What the pass for a number emits, as the `k`-th. -/
def emission (env : ℕ → Env) (sender target : Bytes) (s : SeqManager) (k : ℕ) (seq : ℤ) :
    Option Emission :=
  (resendPass (env k) sender target seq (lookup (env k).reads sender target seq s)).2

theorem seq_emit {env : Env} {kind : EmissionKind} {seq : ℤ} {m : CodedMessage} {x : Emission}
    (h : emit env kind seq m = some x) : x.seq = seq ∧ x.kind = kind := by
  rw [emit] at h
  split at h <;> cases h
  exact ⟨rfl, rfl⟩

theorem seq_fillGap {env : Env} {sender target : Bytes} {seq : ℤ} {x : Emission}
    (h : (fillGap env sender target seq).2 = some x) : x.seq = seq ∧ x.kind = .gapFill := by
  obtain ⟨m, -, hm⟩ := Option.bind_eq_some_iff.mp h
  exact seq_emit hm

/-- **A pass emits for its own number**, and replays only what the store holds under it. -/
theorem resendPass_spec {env : Env} {sender target : Bytes} {seq : ℤ} {found : Option StoredMessage}
    {x : Emission} (h : (resendPass env sender target seq found).2 = some x) :
    x.seq = seq ∧ (x.kind = .replay → ∃ stored m, found = some stored
      ∧ defaultParse stored.body = .ok m.fields ∧ m.codec = none
      ∧ m.fields.getD tagMsgType ∉ gapFilledTypes
      ∧ emit env .replay seq (replayMessage env.now m) = some x) := by
  have hgap : ∀ m, emit env .gapFill seq m = some x → x.seq = seq ∧ x.kind = .gapFill :=
    fun _ hm => seq_emit hm
  cases found with
  | none =>
    obtain ⟨hseq, hkind⟩ := seq_fillGap h
    refine ⟨hseq, fun hreplay => ?_⟩
    rw [hkind] at hreplay
    cases hreplay
  | some stored =>
    rw [resendPass] at h
    rcases CodedMessage.loadFix_eq stored.body with ⟨e, -, hload⟩ | ⟨m, hparse, hload, hcodec⟩
    · rw [hload] at h
      obtain ⟨hseq, hkind⟩ := hgap _ h
      refine ⟨hseq, fun hreplay => ?_⟩
      rw [hkind] at hreplay
      cases hreplay
    · rw [hload] at h
      dsimp only at h
      split at h
      · obtain ⟨hseq, hkind⟩ := seq_fillGap h
        refine ⟨hseq, fun hreplay => ?_⟩
        rw [hkind] at hreplay
        cases hreplay
      · next htype => exact ⟨(seq_emit h).1, fun _ => ⟨stored, m, rfl, hparse, hcodec, htype, h⟩⟩

/-- The loop touches neither the numbers nor the store. -/
theorem seqMgr_resendLoop (env : ℕ → Env) (sender target : Bytes) (ei : ℤ) (fuel k : ℕ) (seq : ℤ)
    (e : Engine) : (resendLoop env sender target ei fuel k seq e).engine.seqMgr = e.seqMgr := by
  induction fuel generalizing k seq e with
  | zero => rfl
  | succ fuel ih =>
    rw [resendLoop]
    split
    · dsimp only
      rw [ih, seqMgr_afterPass]
    · rfl

/-- **Every frame of the loop comes from the pass for its number.** -/
theorem emission_of_mem {env : ℕ → Env} {sender target : Bytes} {ei : ℤ} {fuel k : ℕ} {seq : ℤ}
    {e : Engine} {x : Emission} (h : x ∈ (resendLoop env sender target ei fuel k seq e).emitted) :
    ∃ j, emission env sender target e.seqMgr j x.seq = some x := by
  induction fuel generalizing k seq e with
  | zero => cases h
  | succ fuel ih =>
    rw [resendLoop] at h
    split at h
    · rcases List.mem_append.mp h with h | h
      · have hpass : emission env sender target e.seqMgr k seq = some x :=
          Option.mem_toList.mp h
        have hseq : x.seq = seq := (resendPass_spec hpass).1
        exact ⟨k, hseq ▸ hpass⟩
      · obtain ⟨j, hj⟩ := ih h
        rw [seqMgr_afterPass] at hj
        exact ⟨j, hj⟩
    · cases h

/-- **The first `n` passes of the loop**, all of them for numbers asked for. -/
theorem resendLoop_passes (env : ℕ → Env) (sender target : Bytes) {ei seq : ℤ}
    (hseq : IsInt64 seq) (k : ℕ) (e : Engine) {n fuel : ℕ} (hn : seq + n ≤ ei + 1)
    (hmax : seq + n ≤ 2 ^ 63) (hfuel : n ≤ fuel) :
    ∃ e' r, e'.seqMgr = e.seqMgr
      ∧ r = resendLoop env sender target ei (fuel - n) (k + n) (int64 (seq + n)) e'
      ∧ resendLoop env sender target ei fuel k seq e = ⟨r.engine, (List.range n).flatMap
        (fun j => (emission env sender target e.seqMgr (k + j) (seq + j)).toList) ++ r.emitted,
        r.finished⟩ := by
  induction n with
  | zero =>
    refine ⟨e, resendLoop env sender target ei fuel k seq e, rfl, ?_, rfl⟩
    simp [int64_of_isInt64 hseq]
  | succ n ih =>
    obtain ⟨e', r, hmgr, hr, heq⟩ := ih (by omega) (by omega) (by omega)
    obtain ⟨hlo, -⟩ := hseq
    have hnow : int64 (seq + n) = seq + n := int64_of_isInt64 ⟨by omega, by omega⟩
    obtain ⟨fuel', hfuel'⟩ : ∃ fuel', fuel - n = fuel' + 1 := ⟨fuel - n - 1, by omega⟩
    have hpass : seq + (n : ℤ) ≤ ei := by omega
    rw [hnow, hfuel', resendLoop, if_pos hpass] at hr
    refine ⟨afterPass (env (k + n)).takes (resendPass (env (k + n)) sender target (seq + n)
      (lookup (env (k + n)).reads sender target (seq + n) e'.seqMgr)) e', _,
      (seqMgr_afterPass _ _ e').trans hmgr, rfl, ?_⟩
    rw [heq, hr, List.range_succ, List.flatMap_append, List.flatMap_singleton, List.append_assoc,
      ← hmgr, Nat.cast_succ, ← add_assoc, ← add_assoc, show fuel - (n + 1) = fuel' by omega]
    rfl

/-- A frame for every number the loop gets to. -/
theorem mem_resendLoop {env : ℕ → Env} {sender target : Bytes} {ei seq : ℤ} (hseq : IsInt64 seq)
    {n : ℕ} (hn : seq + n ≤ ei) (hmax : seq + n < 2 ^ 63) {fuel : ℕ} (hfuel : n < fuel)
    {k : ℕ} {e : Engine} {x : Emission}
    (hx : emission env sender target e.seqMgr (k + n) (seq + n) = some x) :
    x ∈ (resendLoop env sender target ei fuel k seq e).emitted := by
  obtain ⟨e', r, -, -, heq⟩ := resendLoop_passes env sender target hseq k e
    (show seq + (n + 1 : ℕ) ≤ ei + 1 by omega) (by omega) hfuel
  rw [heq]
  refine List.mem_append_left _ (List.mem_flatMap.mpr ⟨n, List.mem_range.mpr (by omega), ?_⟩)
  rw [hx]
  exact List.mem_singleton_self x

/-- **The loop comes to its end** where the last number is not the largest `int`, with one pass for
each number asked for. -/
theorem resendLoop_finishes (env : ℕ → Env) (sender target : Bytes) {ei : ℤ}
    (hei : ei < 2 ^ 63 - 1) {seq : ℤ} (hseq : IsInt64 seq) (k : ℕ) (e : Engine) {n fuel : ℕ}
    (hn : seq + n = ei + 1) (hfuel : n < fuel) :
    (resendLoop env sender target ei fuel k seq e).finished = true
      ∧ (resendLoop env sender target ei fuel k seq e).emitted = (List.range n).flatMap
        fun j => (emission env sender target e.seqMgr (k + j) (seq + j)).toList := by
  obtain ⟨e', r, -, hr, heq⟩ := resendLoop_passes env sender target hseq k e hn.le (by omega)
    hfuel.le
  obtain ⟨hlo, -⟩ := hseq
  have hend : int64 (seq + n) = ei + 1 := by
    rw [hn]
    exact int64_of_isInt64 ⟨by omega, by omega⟩
  obtain ⟨fuel', hfuel'⟩ : ∃ fuel', fuel - n = fuel' + 1 := ⟨fuel - n - 1, by omega⟩
  rw [hend, hfuel', resendLoop, if_neg (by omega)] at hr
  rw [heq, hr]
  exact ⟨rfl, List.append_nil _⟩

/-- The frames are for numbers asked for, unless the counter wraps. -/
theorem seq_of_mem_resendLoop {env : ℕ → Env} {sender target : Bytes} {ei : ℤ}
    (hei : ei < 2 ^ 63 - 1) {fuel k : ℕ} {seq : ℤ} (hseq : IsInt64 seq) {e : Engine} {x : Emission}
    (h : x ∈ (resendLoop env sender target ei fuel k seq e).emitted) : seq ≤ x.seq ∧ x.seq ≤ ei := by
  induction fuel generalizing k seq e with
  | zero => cases h
  | succ fuel ih =>
    rw [resendLoop] at h
    split at h
    · next hle =>
      obtain ⟨hlo, -⟩ := hseq
      have hnext : IsInt64 (seq + 1) := ⟨by omega, by omega⟩
      rcases List.mem_append.mp h with h | h
      · rw [(resendPass_spec (Option.mem_toList.mp h)).1]
        exact ⟨le_refl _, hle⟩
      · rw [int64_of_isInt64 hnext] at h
        obtain ⟨hge, hxle⟩ := ih hnext h
        exact ⟨by omega, hxle⟩
    · cases h

/-- The number of a pass, and of the passes behind it. -/
theorem int64_pass (seq : ℤ) (k : ℕ) : int64 (int64 (seq + 1) + k) = int64 (seq + (k + 1 : ℕ)) := by
  rw [int64, int64, int64, Int.bmod_add_bmod, Nat.cast_succ, add_assoc, add_comm 1]

/-- **What the loop emits in the long run** is what the passes emit that it gets to. -/
theorem exists_mem_resendLoop_iff {env : ℕ → Env} {sender target : Bytes} {ei : ℤ} {k : ℕ} {seq : ℤ}
    (hseq : IsInt64 seq) {e : Engine} {x : Emission} :
    (∃ fuel, x ∈ (resendLoop env sender target ei fuel k seq e).emitted)
      ↔ ∃ n : ℕ, (∀ j ≤ n, int64 (seq + j) ≤ ei)
        ∧ emission env sender target e.seqMgr (k + n) (int64 (seq + n)) = some x := by
  have hself : int64 (seq + (0 : ℕ)) = seq := by simp [int64_of_isInt64 hseq]
  constructor
  · rintro ⟨fuel, h⟩
    induction fuel generalizing k seq e with
    | zero => cases h
    | succ fuel ih =>
      rw [resendLoop] at h
      split at h
      · next hle =>
        rcases List.mem_append.mp h with h | h
        · refine ⟨0, fun j hj => ?_, ?_⟩
          · rw [Nat.le_zero.mp hj, hself]
            exact hle
          · rw [hself]
            exact Option.mem_toList.mp h
        · have hnext : IsInt64 (int64 (seq + 1)) := isInt64_int64 _
          obtain ⟨n, hreached, hx⟩ := ih hnext (by simp [int64_of_isInt64 hnext]) h
          simp only [int64_pass, seqMgr_afterPass] at hreached hx
          refine ⟨n + 1, fun j hj => ?_, ?_⟩
          · cases j with
            | zero => exact hself.trans_le hle
            | succ j => exact hreached j (Nat.le_of_succ_le_succ hj)
          · rw [Nat.add_right_comm] at hx
            exact hx
      · cases h
  · rintro ⟨n, hreached, hx⟩
    refine ⟨n + 1, ?_⟩
    induction n generalizing k seq e with
    | zero =>
      have hle := hreached 0 le_rfl
      rw [hself] at hle hx
      rw [resendLoop, if_pos hle]
      exact List.mem_append_left _ (Option.mem_toList.mpr hx)
    | succ n ih =>
      have hle := hreached 0 (Nat.zero_le _)
      rw [hself] at hle
      have hnext : IsInt64 (int64 (seq + 1)) := isInt64_int64 _
      rw [resendLoop, if_pos hle]
      refine List.mem_append_right _ (ih hnext (by simp [int64_of_isInt64 hnext]) ?_ ?_)
      · intro j hj
        rw [int64_pass]
        exact hreached (j + 1) (Nat.succ_le_succ hj)
      · rw [int64_pass, seqMgr_afterPass, Nat.add_right_comm]
        exact hx

/-- **Up to the largest `int` the loop has no end.** -/
theorem resendLoop_endless (env : ℕ → Env) (sender target : Bytes) {ei : ℤ} (hei : 2 ^ 63 - 1 ≤ ei)
    (fuel k : ℕ) {seq : ℤ} (hseq : IsInt64 seq) (e : Engine) :
    (resendLoop env sender target ei fuel k seq e).finished = false := by
  induction fuel generalizing k seq e with
  | zero => rfl
  | succ fuel ih =>
    obtain ⟨-, hhi⟩ := hseq
    rw [resendLoop, if_pos (by omega)]
    exact ih _ (isInt64_int64 _) _

/-- Whatever goes out was emitted. -/
theorem exists_sent_resendLoop (env : ℕ → Env) (sender target : Bytes) (ei : ℤ) (fuel k : ℕ)
    (seq : ℤ) (e : Engine) :
    ∃ frames, (resendLoop env sender target ei fuel k seq e).engine.sent = e.sent ++ frames
      ∧ ∀ b ∈ frames,
        ∃ x ∈ (resendLoop env sender target ei fuel k seq e).emitted, x.frame = b := by
  induction fuel generalizing k seq e with
  | zero => exact ⟨[], (List.append_nil _).symm, fun _ hb => absurd hb List.not_mem_nil⟩
  | succ fuel ih =>
    rw [resendLoop]
    split
    · dsimp only
      generalize resendPass (env k) sender target seq
        (lookup (env k).reads sender target seq e.seqMgr) = pass
      have hafter : ∃ frames, (afterPass (env k).takes pass e).sent = e.sent ++ frames
          ∧ ∀ b ∈ frames, ∃ x ∈ pass.2.toList, x.frame = b := by
        obtain ⟨calls, _ | x⟩ := pass
        · exact ⟨[], (List.append_nil _).symm, fun _ hb => absurd hb List.not_mem_nil⟩
        · rcases Engine.sent_sessionSend (env k).takes x.frame { e with calls := e.calls ++ calls }
            with h | h
          · exact ⟨[], h.trans (List.append_nil _).symm, fun _ hb => absurd hb List.not_mem_nil⟩
          · exact ⟨[x.frame], h, fun b hb => ⟨x, List.mem_singleton_self x,
              (List.mem_singleton.mp hb).symm⟩⟩
      obtain ⟨before, hbefore, hpass⟩ := hafter
      obtain ⟨behind, hbehind, hrest⟩ := ih (k + 1) (int64 (seq + 1))
        (afterPass (env k).takes pass e)
      refine ⟨before ++ behind, by rw [hbehind, hbefore, List.append_assoc], fun b hb => ?_⟩
      rcases List.mem_append.mp hb with hb | hb
      · obtain ⟨x, hx, hxb⟩ := hpass b hb
        exact ⟨x, List.mem_append_left _ hx, hxb⟩
      · obtain ⟨x, hx, hxb⟩ := hrest b hb
        exact ⟨x, List.mem_append_right _ hx, hxb⟩
    · exact ⟨[], (List.append_nil _).symm, fun _ hb => absurd hb List.not_mem_nil⟩

/-- Where the connection takes every frame, all that the loop emits goes out. -/
theorem sent_resendLoop {env : ℕ → Env} (htakes : ∀ k, (env k).takes = true)
    (sender target : Bytes) (ei : ℤ) (fuel k : ℕ) (seq : ℤ) {e : Engine}
    (hlink : e.link ≠ .absent) :
    (resendLoop env sender target ei fuel k seq e).engine.sent
      = e.sent ++ (resendLoop env sender target ei fuel k seq e).emitted.map Emission.frame := by
  induction fuel generalizing k seq e with
  | zero => exact (List.append_nil _).symm
  | succ fuel ih =>
    rw [resendLoop]
    split
    · dsimp only
      generalize resendPass (env k) sender target seq
        (lookup (env k).reads sender target seq e.seqMgr) = pass
      have hafter : (afterPass (env k).takes pass e).link = e.link
          ∧ (afterPass (env k).takes pass e).sent
            = e.sent ++ pass.2.toList.map Emission.frame := by
        obtain ⟨calls, _ | x⟩ := pass
        · exact ⟨rfl, (List.append_nil _).symm⟩
        · rw [afterPass, htakes k]
          exact Engine.sessionSend_taken (e := { e with calls := e.calls ++ calls }) hlink x.frame
      rw [ih _ _ (by rw [hafter.1]; exact hlink), hafter.2, List.map_append, List.append_assoc]
    · exact (List.append_nil _).symm

end FixMsg
