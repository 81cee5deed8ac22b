import GoFixMsg.Engine.SendOrder

/-!
# Engine/Stamping — which numbers are stamped

The counter goes up with every draw, whatever becomes of the write; but a draw whose write fails is
stamped 1 in place of the number drawn.  So the numbers stamped since a reset are different exactly
if at most one write fails and, where one does, 1 itself is not stamped by another draw
(`stamped_nodup_iff`).

That a failed write makes the stamp 1 is what `SendMessage` does with the error of
`IncrementOutgoing`: it logs it, and goes on with the number 1 that it has set out with.  The
counter has gone up all the same.  So of several messages with failed writes all but one repeat a
number, and the one repeats it where another draw was given the number 1.
-/

open GoLang

namespace FixMsg.Outbound

/-- The draws as tickets: held until the write is done, and released where a number is stamped. -/
def stamping (s : Outbound) : Tickets.State ℕ :=
  ⟨s.draws, s.calls.view SendCall.pending, s.stamps.map Stamp.draw⟩

/-- The condition on a step: there is no reset. -/
def NoReset (_ : Outbound) : SendAction → Prop
  | .setOutgoing .. => False
  | _ => True

/-- The number drawn at the `k`-th draw, from a counter that stood at `c`. -/
def drawnAt (c : ℤ) (k : ℕ) : ℤ := int64 (c + k)

theorem drawnAt_succ (c : ℤ) (k : ℕ) : int64 (drawnAt c k + 1) = drawnAt c (k + 1) := by
  rw [drawnAt, drawnAt, int64, int64, int64, Int.bmod_add_bmod, Nat.cast_succ, add_assoc]

/-- **The first `2 ^ 64` draws draw different numbers.** -/
theorem drawnAt_inj {c : ℤ} {j k : ℕ} (hj : 0 < j ∧ j ≤ 2 ^ 64) (hk : 0 < k ∧ k ≤ 2 ^ 64)
    (h : drawnAt c j = drawnAt c k) : j = k := by
  have hmod : ∀ n : ℕ, drawnAt c n % (2 ^ 64 : ℕ) = (c + n) % (2 ^ 64 : ℕ) := fun n =>
    Int.bmod_emod
  have hj' := hmod j
  rw [h, hmod k] at hj'
  omega

/-- **Each step of a call draws a number, stamps one, or does neither.**  A caller that does neither
goes on with nothing pending, as before. -/
theorem stamping_effect {s s' : Outbound} {i : ℕ} {c : SendCall} {t : CallStep}
    (hi : s.calls i = some c) (h : Effect s i c t s') :
    Relation.ReflGen (Tickets.Step False) s.stamping s'.stamping := by
  have hheld : s.stamping.held i = c.pending := by
    change (s.calls i).bind SendCall.pending = _
    rw [hi, Option.bind_some]
  have hquiet : ∀ x : Option SendCall, c.pending = none → x.bind SendCall.pending = none →
      (s.calls.put i x).view SendCall.pending = s.calls.view SendCall.pending := by
    intro x hc hx
    refine Calls.view_put_of_eq ?_
    rw [hi, Option.bind_some, hc, hx]
  cases h with
  | silent x hpending hx =>
    have hput : (s.put i x).stamping = s.stamping := by
      refine congrArg (Tickets.State.mk s.draws · _) (hquiet x hpending ?_)
      cases x with
      | none => rfl
      | some y => exact (hx y rfl).2
    rw [hput]
  | @draw m hc =>
    have hdrawn : (s.drawn i m).stamping
        = ⟨s.draws + 1, s.stamping.held.put i (some (s.draws + 1)), s.stamping.released⟩ :=
      congrArg (Tickets.State.mk _ · _) (Calls.view_put SendCall.pending s.calls i _)
    rw [hdrawn]
    exact .single (.draw (Nat.lt_succ_self _))
  | @persist m snapshot draw d hc =>
    subst hc
    have hstamped : (s.persisted i m snapshot draw d).stamping
        = ⟨s.stamping.last, s.stamping.held.put i none, s.stamping.released ++ [draw]⟩ := by
      rw [stamping, persisted, Calls.view_put, List.map_append]
      rfl
    rw [hstamped]
    exact .single (.release hheld False.elim)
  | @enqueue b seq hc hroom =>
    subst hc
    have hput : ((s.queue ⟨seq, b⟩).put i none).stamping = s.stamping :=
      congrArg (Tickets.State.mk s.draws · _) (hquiet none rfl rfl)
    rw [hput]

theorem stamping_step {s s' : Outbound} {a : SendAction} (h : s.step a = some s') :
    Relation.ReflGen (Tickets.Step False) s.stamping s'.stamping := by
  cases a with
  | call i m =>
    obtain ⟨hi, rfl⟩ := step_call h
    have hput : (s.put i _).stamping = s.stamping :=
      congrArg (Tickets.State.mk s.draws · _) (Calls.view_put_of_eq
        (x := some (.called (stampCompIDs s.senderCompID s.targetCompID m))) (by rw [hi]; rfl))
    rw [hput]
  | move i t =>
    obtain ⟨c, hi, heffect⟩ := step_move h
    exact stamping_effect hi heffect
  | sendOther b =>
    rw [step] at h
    split at h <;> cases h
    exact .refl
  | write =>
    rw [step] at h
    split at h <;> cases h
    exact .refl
  | shutdown | detach | setOutgoing =>
    cases h
    exact .refl

/-- **The counter and the stamps of a run without a reset**, from a counter that stood at `c`: the
counter is as many draws on, a draw to be persisted holds its number, and each stamp is the number
drawn, or 1. -/
structure Counted (c : ℤ) (s : Outbound) : Prop where
  outgoing : s.seqMgr.numbers.outgoing = drawnAt c s.draws
  drawn : ∀ i m snapshot draw, s.calls i = some (.drawn m snapshot draw) →
    0 < draw ∧ snapshot.outgoing = drawnAt c draw
  stamped : ∀ x ∈ s.stamps, 0 < x.draw ∧ x.seq = if x.persisted then drawnAt c x.draw else 1

/-- A step that leaves counter and stamps alone, and lets no caller draw. -/
theorem Counted.of_calls {c : ℤ} {s s' : Outbound} (h : Counted c s)
    (hnumbers : s'.seqMgr.numbers = s.seqMgr.numbers) (hdraws : s'.draws = s.draws)
    (hstamps : s'.stamps = s.stamps)
    (hcalls : ∀ i d, d.pending ≠ none → s'.calls i = some d → s.calls i = some d) :
    Counted c s' where
  outgoing := by rw [hnumbers, hdraws, h.outgoing]
  drawn i m snapshot draw hi := h.drawn i m snapshot draw (hcalls i _ nofun hi)
  stamped := by rw [hstamps]; exact h.stamped

theorem Counted.effect {c : ℤ} {s s' : Outbound} {i : ℕ} {d : SendCall} {t : CallStep}
    (h : Counted c s) (hi : s.calls i = some d) (heffect : Effect s i d t s') : Counted c s' := by
  cases heffect with
  | silent x hpending hx =>
    refine h.of_calls rfl rfl rfl fun j y hy hj => ?_
    rcases Calls.put_eq_some_iff.mp hj with ⟨-, hxy⟩ | ⟨-, hj⟩
    · exact absurd (hx y hxy).2 hy
    · exact hj
  | @draw m hd =>
    have hnext : int64 (s.seqMgr.numbers.outgoing + 1) = drawnAt c (s.draws + 1) := by
      rw [h.outgoing, drawnAt_succ]
    refine ⟨hnext, fun j m' snapshot draw hj => ?_, h.stamped⟩
    rcases Calls.put_eq_some_iff.mp hj with ⟨-, hy⟩ | ⟨-, hj⟩
    · cases hy
      exact ⟨Nat.succ_pos _, hnext⟩
    · exact h.drawn j m' snapshot draw hj
  | @persist m snapshot draw e hd =>
    subst hd
    obtain ⟨hpos, hsnapshot⟩ := h.drawn i m snapshot draw hi
    refine ⟨h.outgoing, fun j m' snapshot' draw' hj => ?_, fun x hx => ?_⟩
    · rcases Calls.put_eq_some_iff.mp hj with ⟨-, hy⟩ | ⟨-, hj⟩
      · cases hy
      · exact h.drawn j m' snapshot' draw' hj
    · rcases List.mem_append.mp hx with hx | hx
      · exact h.stamped x hx
      · rw [List.mem_singleton.mp hx]
        refine ⟨hpos, ?_⟩
        dsimp only
        rw [seqOrOne, hsnapshot]
        cases (s.saved snapshot e).2 <;> rfl
  | enqueue hd hroom =>
    refine h.of_calls rfl rfl rfl fun j y _ hj => ?_
    rcases Calls.put_eq_some_iff.mp hj with ⟨-, hxy⟩ | ⟨-, hj⟩
    · cases hxy
    · exact hj

/-- **Without a reset, every step keeps the count.** -/
theorem Counted.step {c : ℤ} {s s' : Outbound} {a : SendAction} (h : Counted c s)
    (hok : s.NoReset a) (hstep : s.step a = some s') : Counted c s' := by
  cases a with
  | call i m =>
    obtain ⟨hi, rfl⟩ := step_call hstep
    refine h.of_calls rfl rfl rfl fun j y hy hj => ?_
    rcases Calls.put_eq_some_iff.mp hj with ⟨-, hxy⟩ | ⟨-, hj⟩
    · cases hxy
      exact absurd rfl hy
    · exact hj
  | move i t =>
    obtain ⟨d, hi, heffect⟩ := step_move hstep
    exact h.effect hi heffect
  | sendOther b =>
    rw [Outbound.step] at hstep
    split at hstep <;> cases hstep
    exact h.of_calls rfl rfl rfl fun _ _ _ hj => hj
  | write =>
    rw [Outbound.step] at hstep
    split at hstep <;> cases hstep
    exact h.of_calls rfl rfl rfl fun _ _ _ hj => hj
  | shutdown | detach =>
    cases hstep
    exact h.of_calls rfl rfl rfl fun _ _ _ hj => hj
  | setOutgoing => exact hok.elim

/-- **The numbers stamped between two resets are different exactly if** at most one write failed
and, where one failed, no draw that was persisted had drawn 1.  This is for every run, whatever
becomes of each write, of at most `2 ^ 64` draws: there are no more numbers than that. -/
theorem stamped_nodup_iff {s₀ s : Outbound} {as : List SendAction} (hfresh : s₀.Fresh)
    (hint : IsInt64 s₀.seqMgr.numbers.outgoing) (hok : Runs.Meets step NoReset s₀ as)
    (hrun : Runs.run step s₀ as = some s) (hdraws : s.draws ≤ 2 ^ 64) :
    (s.stamps.map Stamp.seq).Nodup ↔
      (∀ x ∈ s.stamps, ∀ y ∈ s.stamps, x.persisted = false → y.persisted = false → x = y)
        ∧ ∀ x ∈ s.stamps, x.persisted = false → ∀ y ∈ s.stamps, y.persisted = true →
          drawnAt s₀.seqMgr.numbers.outgoing y.draw ≠ 1 := by
  generalize hc : s₀.seqMgr.numbers.outgoing = c at hint ⊢
  have hstart : Tickets.Inv False s₀.stamping ∧ Counted c s₀ := by
    refine ⟨?_, ⟨?_, fun i m snapshot draw hi => ?_, fun x hx => ?_⟩⟩
    · rw [stamping, hfresh.stamps, Calls.view_of_idle hfresh.idle]
      exact Tickets.inv_start False _
    · rw [hc, hfresh.draws, drawnAt, Nat.cast_zero, add_zero, int64_of_isInt64 hint]
    · rw [hfresh.idle i] at hi
      cases hi
    · rw [hfresh.stamps] at hx
      cases hx
  obtain ⟨htickets, hcounted⟩ : Tickets.Inv False s.stamping ∧ Counted c s :=
    Runs.run_invariant (fun s => Tickets.Inv False s.stamping ∧ Counted c s)
      (fun s a s' hs ha h => ⟨hs.1.reflGen (stamping_step h), hs.2.step ha h⟩) hstart hok hrun
  have hnodup : s.stamps.Nodup := List.Nodup.of_map Stamp.draw htickets.nodup
  have hrange : ∀ x ∈ s.stamps, 0 < x.draw ∧ x.draw ≤ 2 ^ 64 := fun x hx =>
    ⟨(hcounted.stamped x hx).1,
      (htickets.released_le _ (List.mem_map_of_mem hx)).trans hdraws⟩
  have hfailed : ∀ x ∈ s.stamps, x.persisted = false → x.seq = 1 := fun x hx hp => by
    rw [(hcounted.stamped x hx).2, hp]
    rfl
  have hdrawn : ∀ x ∈ s.stamps, x.persisted = true → x.seq = drawnAt c x.draw := fun x hx hp => by
    rw [(hcounted.stamped x hx).2, hp]
    rfl
  rw [List.nodup_map_iff_inj_on hnodup]
  constructor
  · refine fun hinj => ⟨fun x hx y hy hpx hpy => ?_, fun x hx hpx y hy hpy h1 => ?_⟩
    · exact hinj x hx y hy ((hfailed x hx hpx).trans (hfailed y hy hpy).symm)
    · have hxy := hinj x hx y hy ((hfailed x hx hpx).trans ((hdrawn y hy hpy).trans h1).symm)
      rw [hxy, hpy] at hpx
      cases hpx
  · rintro ⟨hone, hnot1⟩ x hx y hy hseq
    cases hpx : x.persisted <;> cases hpy : y.persisted
    · exact hone x hx y hy hpx hpy
    · rw [hfailed x hx hpx, hdrawn y hy hpy] at hseq
      exact absurd hseq.symm (hnot1 x hx hpx y hy hpy)
    · rw [hfailed y hy hpy, hdrawn x hx hpx] at hseq
      exact absurd hseq (hnot1 y hy hpy x hx hpx)
    · rw [hdrawn x hx hpx, hdrawn y hy hpy] at hseq
      have hdraw := drawnAt_inj (hrange x hx) (hrange y hy) hseq
      exact List.inj_on_of_nodup_map htickets.nodup hx hy hdraw

/-- Three messages are sent, and the first is not persisted; the calls of the other two overlap. -/
def firstUnsaved : List SendAction :=
  uninterrupted 0 newOrder { calm with writes := .fail }
    ++ [.call 1 newOrder, .call 2 newOrder, .move 1 .draw, .move 2 .draw, .move 2 (.persist .ok),
      .move 1 (.persist .ok)]

/-- They are stamped with three numbers. -/
theorem stamped_nodup_firstUnsaved : ∃ s, Runs.run step (attachedTo .opened) firstUnsaved = some s
    ∧ s.stamps = [⟨1, 1, false⟩, ⟨3, 3, true⟩, ⟨2, 2, true⟩]
    ∧ (s.stamps.map Stamp.seq).Nodup := by
  obtain ⟨s, hs, hview⟩ := Option.map_eq_some_iff.mp
    (show (Runs.run step (attachedTo .opened) firstUnsaved).map (fun s => (s.draws, s.stamps))
      = some (3, [⟨1, 1, false⟩, ⟨3, 3, true⟩, ⟨2, 2, true⟩]) by decide +kernel)
  obtain ⟨hdraws, hstamps⟩ := Prod.mk.inj hview
  have hok : Runs.Meets step NoReset (attachedTo .opened) firstUnsaved :=
    Runs.meets_of_forall (by simp [firstUnsaved, uninterrupted, NoReset]) _
  refine ⟨s, hs, hstamps,
    (stamped_nodup_iff (fresh_attachedTo _) (by decide) hok hs ?_).mpr ⟨?_, ?_⟩⟩
  · rw [hdraws]
    decide
  all_goals
    rw [hstamps]
    decide

/-- Two messages sent without a database are both stamped 1. -/
theorem stamped_twice : (Runs.run step (attachedTo .new)
    (uninterrupted 0 newOrder calm ++ uninterrupted 0 newOrder calm)).map
      (fun s => s.stamps.map Stamp.seq) = some [1, 1] := by
  decide +kernel

end FixMsg.Outbound
