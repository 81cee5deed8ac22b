import GoFixMsg.Engine.Registry

/-!
# Engine/SessionMap — the sessions a server knows, over its runs

Over every run in which the counter of the IDs does not come round, the map holds exactly the
sessions that have been entered and not been removed (`registry_exact`); nothing ends a session but
the session itself, its user, its monitor and `Stop` (`ends_alone`); and once `Stop` has returned
the map is empty and no session runs (`stop_empties`).

A run is compared with its own history: which sessions have been entered in it, which have been
removed by their watchers, and which by `Stop`.  The three say at every moment what the map holds,
and the history only grows.
-/

open GoLang

namespace FixMsg

namespace Registry

variable {s s' : Registry}

/-! ## The map and what has been done to it

Most steps neither enter nor remove a session, and add nothing to the history.  The three that do
are gone through one by one, with the ID of the connection that takes the step. -/

/-- The IDs of the connections. -/
def sessionIDs (s : Registry) : Calls Bytes := s.served.view Served.sessionID

/-- Their watchers. -/
def watchers (s : Registry) : Calls WatcherPhase := s.served.view fun h => some h.watcher

theorem sessionIDs_of {c : ℕ} {h : Served} (hc : s.served c = some h) :
    s.sessionIDs c = h.sessionID := by
  rw [sessionIDs, Calls.view, hc, Option.bind_some]

theorem watchers_of {c : ℕ} {h : Served} (hc : s.served c = some h) :
    s.watchers c = some h.watcher := by
  rw [watchers, Calls.view, hc, Option.bind_some]

/-- What a step leaves as it is. -/
structure Same (s s' : Registry) : Prop where
  ids : s'.sessionIDs = s.sessionIDs
  watchers : s'.watchers = s.watchers
  sessions : s'.sessions = s.sessions

/-- A connection goes on under its ID, and its watcher stays where it is. -/
theorem same_put {c : ℕ} {h h' : Served} (hc : s.served c = some h)
    (hid : h'.sessionID = h.sessionID) (hw : h'.watcher = h.watcher) :
    Same s { s with served := s.served.put c (some h') } where
  ids := Calls.view_put_of_eq (by rw [hc, Option.bind_some, Option.bind_some, hid])
  watchers := Calls.view_put_of_eq (by rw [hc, Option.bind_some, Option.bind_some, hw])
  sessions := rfl

/-- What a step does to the IDs, the watchers and the map. -/
def Effect (s s' : Registry) : RegistryAction → Prop
  | .acceptor (.accept _) => s'.sessionIDs = s.sessionIDs ∧ s'.sessions = s.sessions
      ∧ s.watchers s.acceptor.accepted = none
      ∧ s'.watchers = s.watchers.put s.acceptor.accepted (some .absent)
  | .generate c => s.watchers c = some .absent ∧ s.sessionIDs c = none
      ∧ s'.watchers = s.watchers ∧ s'.sessions = s.sessions
      ∧ s'.sessionIDs = s.sessionIDs.put c (some (tempSessionID (s.issued + 1)))
  | .register c => ∃ id, s.sessionIDs c = some id ∧ s.watchers c = some .absent
      ∧ s.acceptor.returned = false ∧ s'.sessionIDs = s.sessionIDs
      ∧ s'.watchers = s.watchers.put c (some .waiting) ∧ s'.sessions = s.sessions.insert id c
  | .wake c => s.watchers c = some .waiting ∧ s'.sessionIDs = s.sessionIDs
      ∧ s'.watchers = s.watchers.put c (some .woken) ∧ s'.sessions = s.sessions
  | .unregister c => ∃ id, s.sessionIDs c = some id ∧ s.watchers c = some .woken
      ∧ s'.sessionIDs = s.sessionIDs ∧ s'.watchers = s.watchers.put c (some .done)
      ∧ s'.sessions = s.sessions.erase id
  | .clear id => s.acceptor.returned = true ∧ s'.sessionIDs = s.sessionIDs
      ∧ s'.watchers = s.watchers ∧ s'.sessions = s.sessions.erase id
  | _ => Same s s'

theorem Inv.effect (hinv : s.Inv) {x : RegistryAction} (hstep : s.step x = some s') :
    Effect s s' x := by
  cases x with
  | acceptor x =>
    obtain ⟨hret, a, ha, rfl⟩ := Registry.step_acceptor hstep
    cases x with
    | accept i =>
      have hnone : s.served s.acceptor.accepted = none := by
        cases hc : s.served s.acceptor.accepted with
        | none => rfl
        | some h => exact absurd (hinv.conns.known _ h hc) (lt_irrefl _)
      refine ⟨Calls.view_put_of_eq ?_, rfl, ?_, Calls.view_put _ _ _ _⟩
      · rw [hnone]
        rfl
      · rw [watchers, Calls.view, hnone, Option.bind_none]
    | close c =>
      obtain ⟨h, hc, -⟩ := Option.map_eq_some_iff.mp hret
      have heq : s.follow (.close c) = s.served.put c (some { h with phase := .closed }) := by
        rw [follow, hc]
        rfl
      have hsame : Same s { s with
          served := s.served.put c (some { h with phase := .closed }) } := same_put hc rfl rfl
      exact ⟨(congrArg (Calls.view _) heq).trans hsame.ids,
        (congrArg (Calls.view _) heq).trans hsame.watchers, rfl⟩
    | start | check | acceptError | done | stop | closeListener | stopped => exact ⟨rfl, rfl, rfl⟩
  | generate c =>
    obtain ⟨h, hc, hphase, hnone, rfl⟩ := step_generate hstep
    have habsent := (hinv.conns.own c h hc).unwatched.mp (Or.inl hphase)
    refine ⟨(watchers_of hc).trans (congrArg some habsent), (sessionIDs_of hc).trans hnone,
      Calls.view_put_of_eq ?_, rfl, Calls.view_put _ _ _ _⟩
    rw [hc]
    rfl
  | generateElsewhere =>
    obtain ⟨-, hact⟩ := Option.ite_none_left_eq_some.mp hstep
    cases hact
    exact ⟨rfl, rfl, rfl⟩
  | attach c =>
    obtain ⟨h, hc, hphase, -, rfl⟩ := step_attach hstep
    exact same_put hc rfl rfl
  | register c =>
    obtain ⟨h, id, hc, hphase, hid, rfl⟩ := step_register hstep
    have habsent := (hinv.conns.own c h hc).unwatched.mp (Or.inr hphase)
    refine ⟨id, (sessionIDs_of hc).trans hid, (watchers_of hc).trans (congrArg some habsent), ?_,
      Calls.view_put_of_eq ?_, Calls.view_put _ _ _ _, rfl⟩
    · by_contra hret
      rw [hinv.closed (Bool.not_eq_false _ ▸ hret) hc] at hphase
      cases hphase
    · rw [hc]
      rfl
  | endSession c =>
    obtain ⟨h, hc, -, rfl⟩ := step_endSession hstep
    exact same_put hc rfl rfl
  | wake c =>
    obtain ⟨h, hc, hw, -, rfl⟩ := step_wake hstep
    refine ⟨(watchers_of hc).trans (congrArg some hw), Calls.view_put_of_eq ?_,
      Calls.view_put _ _ _ _, rfl⟩
    rw [hc]
    rfl
  | unregister c =>
    obtain ⟨h, id, hc, hw, hid, rfl⟩ := hinv.step_unregister hstep
    refine ⟨id, (sessionIDs_of hc).trans hid, (watchers_of hc).trans (congrArg some hw),
      Calls.view_put_of_eq ?_, Calls.view_put _ _ _ _, rfl⟩
    rw [hc]
    rfl
  | lock =>
    obtain ⟨-, -, rfl⟩ := step_lock hstep
    exact ⟨rfl, rfl, rfl⟩
  | clear id =>
    obtain ⟨hlocked, c, hlookup, rfl⟩ := step_clear hstep
    obtain ⟨h, hc, -, -, heq⟩ := hinv.remove_eq hlookup
    have hsame : Same s { s with served := s.served.put c (some h.close) } := same_put hc rfl rfl
    rw [heq]
    exact ⟨hinv.stopped (Or.inl hlocked), hsame.ids, hsame.watchers, rfl⟩
  | release =>
    obtain ⟨-, -, rfl⟩ := step_release hstep
    exact ⟨rfl, rfl, rfl⟩

/-- **What the state says of the run that led to it.** -/
structure History (as : List RegistryAction) (s : Registry) : Prop where
  registered : ∀ c, .register c ∈ as ↔ ∃ w, s.watchers c = some w ∧ w ≠ .absent
  unregistered : ∀ c, .unregister c ∈ as ↔ s.watchers c = some .done
  cleared : ∀ id, .clear id ∈ as → s.acceptor.returned = true
  exact : ∀ id c, s.sessions.lookup id = some c ↔
    s.sessionIDs c = some id ∧ .register c ∈ as ∧ .unregister c ∉ as ∧ .clear id ∉ as

theorem history_nil (issued : ℕ) : History [] (new issued) where
  registered := fun c => iff_of_false List.not_mem_nil fun ⟨_, h, _⟩ => by cases h
  unregistered := fun c => iff_of_false List.not_mem_nil fun h => by cases h
  cleared := fun _ h => absurd h List.not_mem_nil
  exact := fun id c => by
    refine iff_of_false (fun h => ?_) fun h => absurd h.2.1 List.not_mem_nil
    rw [show (new issued).sessions = ∅ from rfl, Finmap.lookup_empty] at h
    cases h

/-- One action more, which is another. -/
theorem mem_snoc_of_ne {as : List RegistryAction} {x y : RegistryAction} (h : y ≠ x) :
    y ∈ as ++ [x] ↔ y ∈ as := by
  rw [List.mem_append, List.mem_singleton, or_iff_left h]

theorem mem_snoc_self {as : List RegistryAction} {x : RegistryAction} : x ∈ as ++ [x] :=
  List.mem_append_right _ (List.mem_singleton.mpr rfl)

/-- **A step that neither enters nor removes a session** adds nothing to the history: the watchers
that it moves stay among the present ones, or among the absent ones. -/
theorem History.other {as : List RegistryAction} (hist : History as s) {x : RegistryAction}
    (hreg : ∀ c, x ≠ .register c) (hunreg : ∀ c, x ≠ .unregister c) (hclear : ∀ id, x ≠ .clear id)
    (hret : s.acceptor.returned = true → s'.acceptor.returned = true)
    (hpresent : ∀ c, (∃ w, s'.watchers c = some w ∧ w ≠ .absent)
      ↔ ∃ w, s.watchers c = some w ∧ w ≠ .absent)
    (hdone : ∀ c, s'.watchers c = some .done ↔ s.watchers c = some .done)
    (hsessions : s'.sessions = s.sessions)
    (hids : ∀ c, .register c ∈ as → s'.sessionIDs c = s.sessionIDs c) :
    History (as ++ [x]) s' where
  registered := fun c => by
    rw [mem_snoc_of_ne (hreg c).symm, hist.registered c, hpresent c]
  unregistered := fun c => by
    rw [mem_snoc_of_ne (hunreg c).symm, hist.unregistered c, hdone c]
  cleared := fun id h => hret (hist.cleared id ((mem_snoc_of_ne (hclear id).symm).mp h))
  exact := fun id c => by
    rw [mem_snoc_of_ne (hreg c).symm, mem_snoc_of_ne (hunreg c).symm,
      mem_snoc_of_ne (hclear id).symm, hsessions, hist.exact id c]
    constructor
    · exact fun ⟨hid, h⟩ => ⟨(hids c h.1).trans hid, h⟩
    · exact fun ⟨hid, h⟩ => ⟨(hids c h.1).symm.trans hid, h⟩

/-- Two connections with one ID are one. -/
theorem Inv.eq_of_sessionIDs (hinv : s.Inv) {c d : ℕ} {id : Bytes} (hc : s.sessionIDs c = some id)
    (hd : s.sessionIDs d = some id) : c = d := by
  obtain ⟨h, hs, hid⟩ := Option.bind_eq_some_iff.mp hc
  obtain ⟨k, hs', hid'⟩ := Option.bind_eq_some_iff.mp hd
  exact hinv.conns.distinct c d h k id hs hs' hid hid'

/-- **A session is entered.** -/
theorem History.register {as : List RegistryAction} (hist : History as s) (hinv : s.Inv) {c : ℕ}
    (heffect : Effect s s' (.register c)) (hret : s'.acceptor = s.acceptor) :
    History (as ++ [.register c]) s' := by
  obtain ⟨id, hid, hw, hopen, hids, hwatchers, hsessions⟩ := heffect
  have hnotin : ∀ id', .clear id' ∉ as := fun id' h => by
    rw [hist.cleared id' h] at hopen
    cases hopen
  have hnotdone : .unregister c ∉ as := fun h => by
    rw [(hist.unregistered c).mp h] at hw
    cases hw
  refine ⟨fun d => ?_, fun d => ?_, fun id' h => ?_, fun id' d => ?_⟩
  · by_cases hdc : d = c
    · subst hdc
      exact iff_of_true mem_snoc_self ⟨.waiting, hwatchers ▸ Calls.put_self _ _ _, by decide⟩
    · rw [mem_snoc_of_ne (by simpa using hdc), hist.registered d, hwatchers, Calls.put_of_ne _ hdc]
  · rw [mem_snoc_of_ne (by simp), hist.unregistered d, hwatchers]
    by_cases hdc : d = c
    · rw [hdc, Calls.put_self, hw]
      decide
    · rw [Calls.put_of_ne _ hdc]
  · exact hret ▸ hist.cleared id' ((mem_snoc_of_ne (by simp)).mp h)
  · rw [mem_snoc_of_ne (by simp : RegistryAction.unregister d ≠ _),
      mem_snoc_of_ne (by simp : RegistryAction.clear id' ≠ _), hids, hsessions]
    by_cases heq : id' = id
    · subst heq
      rw [Finmap.lookup_insert]
      constructor
      · intro hd
        cases hd
        exact ⟨hid, mem_snoc_self, hnotdone, hnotin _⟩
      · exact fun hd => congrArg some (hinv.eq_of_sessionIDs hid hd.1)
    · rw [Finmap.lookup_insert_of_ne _ heq, hist.exact id' d]
      refine and_congr_right fun hd => and_congr_left fun _ => (mem_snoc_of_ne ?_).symm
      rintro ⟨rfl⟩
      rw [hid] at hd
      exact heq (Option.some.inj hd).symm

/-- **A session is removed by its watcher.** -/
theorem History.unregister {as : List RegistryAction} (hist : History as s) (hinv : s.Inv) {c : ℕ}
    (heffect : Effect s s' (.unregister c))
    (hret : s.acceptor.returned = true → s'.acceptor.returned = true) :
    History (as ++ [.unregister c]) s' := by
  obtain ⟨id, hid, hw, hids, hwatchers, hsessions⟩ := heffect
  refine ⟨fun d => ?_, fun d => ?_, fun id' h => ?_, fun id' d => ?_⟩
  · rw [mem_snoc_of_ne (by simp), hist.registered d, hwatchers]
    by_cases hdc : d = c
    · rw [hdc, Calls.put_self, hw]
      exact iff_of_true ⟨_, rfl, by decide⟩ ⟨_, rfl, by decide⟩
    · rw [Calls.put_of_ne _ hdc]
  · by_cases hdc : d = c
    · subst hdc
      exact iff_of_true mem_snoc_self (hwatchers ▸ Calls.put_self _ _ _)
    · rw [mem_snoc_of_ne (by simpa using hdc), hist.unregistered d, hwatchers,
        Calls.put_of_ne _ hdc]
  · exact hret (hist.cleared id' ((mem_snoc_of_ne (by simp)).mp h))
  · rw [mem_snoc_of_ne (by simp : RegistryAction.register d ≠ _),
      mem_snoc_of_ne (by simp : RegistryAction.clear id' ≠ _), hids, hsessions]
    by_cases heq : id' = id
    · subst heq
      rw [Finmap.lookup_erase]
      refine iff_of_false nofun fun ⟨hd, _, hnot, _⟩ => hnot ?_
      rw [hinv.eq_of_sessionIDs hd hid]
      exact mem_snoc_self
    · rw [Finmap.lookup_erase_ne heq, hist.exact id' d]
      refine and_congr_right fun hd => and_congr_right fun _ => and_congr_left fun _ =>
        not_congr (mem_snoc_of_ne ?_).symm
      rintro ⟨rfl⟩
      rw [hid] at hd
      exact heq (Option.some.inj hd).symm

/-- **A session is removed by `Stop`.** -/
theorem History.clear {as : List RegistryAction} (hist : History as s) {id : Bytes}
    (heffect : Effect s s' (.clear id))
    (hret : s.acceptor.returned = true → s'.acceptor.returned = true) :
    History (as ++ [.clear id]) s' := by
  obtain ⟨hreturned, hids, hwatchers, hsessions⟩ := heffect
  refine ⟨fun d => ?_, fun d => ?_, fun _ _ => hret hreturned, fun id' d => ?_⟩
  · rw [mem_snoc_of_ne (by simp), hist.registered d, hwatchers]
  · rw [mem_snoc_of_ne (by simp), hist.unregistered d, hwatchers]
  · rw [mem_snoc_of_ne (by simp : RegistryAction.register d ≠ _),
      mem_snoc_of_ne (by simp : RegistryAction.unregister d ≠ _), hids, hsessions]
    by_cases heq : id' = id
    · subst heq
      rw [Finmap.lookup_erase]
      exact iff_of_false nofun fun ⟨_, _, _, hnot⟩ => hnot mem_snoc_self
    · rw [Finmap.lookup_erase_ne heq, hist.exact id' d,
        mem_snoc_of_ne (by simpa using heq : RegistryAction.clear id' ≠ _)]

/-- **Every step is one more in the history.** -/
theorem History.step {as : List RegistryAction} (hist : History as s) (hinv : s.Inv)
    {x : RegistryAction} (hstep : s.step x = some s') : History (as ++ [x]) s' := by
  have heffect := hinv.effect hstep
  have hret := fun h => (hinv.returned_step hstep h).1
  have hsame : Same s s' → (∀ c, x ≠ .register c) → (∀ c, x ≠ .unregister c) →
      (∀ id, x ≠ .clear id) → History (as ++ [x]) s' := fun h hreg hunreg hclear =>
    hist.other hreg hunreg hclear hret (fun c => by rw [h.watchers]) (fun c => by rw [h.watchers])
      h.sessions fun c _ => by rw [h.ids]
  cases x with
  | register c => exact hist.register hinv heffect ((frame hstep).acceptor nofun)
  | unregister c => exact hist.unregister hinv heffect hret
  | clear id => exact hist.clear heffect hret
  | generate c =>
    obtain ⟨habsent, -, hwatchers, hsessions, hids⟩ := heffect
    refine hist.other nofun nofun nofun hret (fun d => by rw [hwatchers])
      (fun d => by rw [hwatchers]) hsessions fun d hd => ?_
    rw [hids, Calls.put_of_ne _ fun hdc => ?_]
    obtain ⟨w, hw, hne⟩ := (hist.registered d).mp hd
    rw [hdc, habsent] at hw
    exact hne (Option.some.inj hw).symm
  | wake c =>
    obtain ⟨hw, hids, hwatchers, hsessions⟩ := heffect
    refine hist.other nofun nofun nofun hret (fun d => ?_) (fun d => ?_) hsessions
      fun d _ => by rw [hids]
    all_goals
      rw [hwatchers]
      by_cases hdc : d = c
      · rw [hdc, Calls.put_self, hw]
        simp
      · rw [Calls.put_of_ne _ hdc]
  | acceptor y =>
    cases y with
    | accept i =>
      obtain ⟨hids, hsessions, hnone, hwatchers⟩ := heffect
      refine hist.other nofun nofun nofun hret (fun d => ?_) (fun d => ?_) hsessions
        fun d _ => by rw [hids]
      all_goals
        rw [hwatchers]
        by_cases hd : d = s.acceptor.accepted
        · rw [hd, Calls.put_self, hnone]
          simp
        · rw [Calls.put_of_ne _ hd]
    | start | check | acceptError | close | done | stop | closeListener | stopped =>
      exact hsame heffect nofun nofun nofun
  | generateElsewhere | attach | endSession | lock | release =>
    exact hsame heffect nofun nofun nofun

/-- **What holds of every run** in which the counter does not come round. -/
theorem inv_run {issued : ℕ} {as : List RegistryAction}
    (hrun : Runs.run step (new issued) as = some s) (hissued : s.issued < 2 ^ 64) :
    s.Inv ∧ History as s := by
  refine Runs.run_history (P := fun as s => s.issued < 2 ^ 64 → s.Inv ∧ History as s)
    (fun _ => ⟨inv_new issued, history_nil issued⟩) (fun as t x t' _ ih hstep hlt => ?_) hrun
    hissued
  obtain ⟨hinv, hist⟩ := ih (lt_of_le_of_lt (frame hstep).issued hlt)
  exact ⟨hinv.step hstep hlt, hist.step hinv hstep⟩

/-- **`GetSession` finds the sessions that have been entered and not been removed**: under an ID is
the connection that has drawn it, from its `registerSession` on, until its `unregisterSession`, or
until `Stop` gets to it. -/
theorem registry_exact {issued : ℕ} {as : List RegistryAction}
    (hrun : Runs.run step (new issued) as = some s) (hissued : s.issued < 2 ^ 64) (id : Bytes)
    (c : ℕ) : s.getSession id = some c ↔
      s.sessionIDs c = some id ∧ .register c ∈ as ∧ .unregister c ∉ as ∧ .clear id ∉ as :=
  (inv_run hrun hissued).2.exact id c

/-- Two clients come, one of them goes, and the other is there. -/
def serveTwo : List RegistryAction :=
  [.acceptor (.start true), .acceptor (.check 0), .acceptor (.accept 0), .generate 0,
   .acceptor (.check 0), .acceptor (.accept 0), .attach 0, .generateElsewhere, .generate 1,
   .register 0, .attach 1, .register 1, .endSession 0, .wake 0, .unregister 0]

/-- Both have been entered, and the first has been removed. -/
theorem registry_exact_two : ∃ s, Runs.run step (new 0) serveTwo = some s
    ∧ s.getSession (tempSessionID 1) ≠ some 0 ∧ s.getSession (tempSessionID 3) = some 1 := by
  have hrun : ∃ s, Runs.run step (new 0) serveTwo = some s ∧ s.issued < 2 ^ 64
      ∧ s.sessionIDs 1 = some (tempSessionID 3) := ⟨_, rfl, by decide, rfl⟩
  obtain ⟨s, hs, hissued, hid⟩ := hrun
  refine ⟨s, hs, fun h => ?_,
    (registry_exact hs hissued _ _).mpr ⟨hid, by decide, by decide, by decide⟩⟩
  exact absurd ((registry_exact hs hissued _ _).mp h).2.2.1 (by decide)

/-! ## Who ends a session -/

/-- A session that runs. -/
def Running (s : Registry) (c : ℕ) : Prop := ∃ h, s.served c = some h ∧ h.session = .running

/-- Where the connections stay as they are, so do the sessions that run. -/
theorem Running.congr {c : ℕ} (hrunning : s.Running c) (heq : s'.served = s.served) :
    s'.Running c := by
  obtain ⟨h, hc, hr⟩ := hrunning
  exact ⟨h, heq ▸ hc, hr⟩

/-- A connection that goes on with its session running leaves a session that runs. -/
theorem Running.put {c : ℕ} (hrunning : s.Running c) {d : ℕ} {k k' : Served}
    (hd : s.served d = some k) (heq : s'.served = s.served.put d (some k'))
    (hkeeps : k.session = .running → k'.session = .running) : s'.Running c := by
  obtain ⟨h, hc, hr⟩ := hrunning
  by_cases hcd : c = d
  · subst hcd
    rw [hc] at hd
    cases hd
    exact ⟨k', heq ▸ Calls.put_self _ _ _, hkeeps hr⟩
  · exact ⟨h, heq ▸ (Calls.put_of_ne _ hcd _).trans hc, hr⟩

/-- **A session is ended by itself, its user or its monitor, or by `Stop`**: no goroutine that
watches a session ends another, nor does the acceptor. -/
theorem ends_alone {issued : ℕ} {as : List RegistryAction} {x : RegistryAction}
    (hrun : Runs.run step (new issued) as = some s) (hissued : s.issued < 2 ^ 64)
    (hstep : s.step x = some s') {c : ℕ} (hbefore : s.Running c) (hafter : ¬ s'.Running c) :
    x = .endSession c ∨ ∃ id, x = .clear id ∧ s.sessionIDs c = some id := by
  have hinv := (inv_run hrun hissued).1
  have hkeep := @Running.put s s' c hbefore
  have hsame : s'.served = s.served → s'.Running c := hbefore.congr
  obtain ⟨h, hc, hr⟩ := hbefore
  cases x with
  | acceptor y =>
    obtain ⟨hret, a, -, rfl⟩ := Registry.step_acceptor hstep
    refine absurd ?_ hafter
    cases y with
    | accept i =>
      have hne : c ≠ s.acceptor.accepted := fun heq =>
        absurd (hinv.conns.known c h hc) (heq ▸ lt_irrefl _)
      exact ⟨h, (Calls.put_of_ne _ hne _).trans hc, hr⟩
    | close d =>
      obtain ⟨k, hd, -⟩ := Option.map_eq_some_iff.mp hret
      refine @hkeep d k { k with phase := .closed } hd ?_ fun h => h
      dsimp only [follow]
      rw [hd]
      rfl
    | start | check | acceptError | done | stop | closeListener | stopped => exact hsame rfl
  | generate d =>
    obtain ⟨k, hd, -, -, rfl⟩ := step_generate hstep
    exact absurd (hkeep hd rfl fun h => h) hafter
  | generateElsewhere =>
    obtain ⟨-, hact⟩ := Option.ite_none_left_eq_some.mp hstep
    cases hact
    exact absurd (hsame rfl) hafter
  | attach d =>
    obtain ⟨k, hd, -, -, rfl⟩ := step_attach hstep
    exact absurd (hkeep hd rfl fun _ => rfl) hafter
  | register d =>
    obtain ⟨k, id, hd, -, -, rfl⟩ := step_register hstep
    exact absurd (hkeep hd rfl fun h => h) hafter
  | endSession d =>
    obtain ⟨k, hd, -, rfl⟩ := step_endSession hstep
    by_cases hcd : c = d
    · exact Or.inl (congrArg _ hcd.symm)
    · exact absurd ⟨h, (Calls.put_of_ne _ hcd _).trans hc, hr⟩ hafter
  | wake d =>
    obtain ⟨k, hd, -, -, rfl⟩ := step_wake hstep
    exact absurd (hkeep hd rfl fun h => h) hafter
  | unregister d =>
    obtain ⟨k, id, hd, -, -, rfl⟩ := hinv.step_unregister hstep
    exact absurd (hkeep hd rfl fun h => h) hafter
  | lock =>
    obtain ⟨-, -, rfl⟩ := step_lock hstep
    exact absurd (hsame rfl) hafter
  | clear id =>
    obtain ⟨-, d, hlookup, rfl⟩ := step_clear hstep
    obtain ⟨k, hd, hid, -, heq⟩ := hinv.remove_eq hlookup
    by_cases hcd : c = d
    · subst hcd
      exact Or.inr ⟨id, rfl, (sessionIDs_of hd).trans hid⟩
    · rw [heq] at hafter
      exact absurd ⟨h, (Calls.put_of_ne _ hcd _).trans hc, hr⟩ hafter
  | release =>
    obtain ⟨-, -, rfl⟩ := step_release hstep
    exact absurd (hsame rfl) hafter

/-- Two clients come, and `Stop` gets to the mutex while the sessions of both run. -/
def stopServingTwo : List RegistryAction :=
  [.acceptor (.start true), .acceptor (.check 0), .acceptor (.accept 0), .acceptor (.check 0),
    .acceptor (.accept 0), .generate 0, .attach 0, .generate 1, .attach 1, .register 0, .register 1,
    .acceptor .stop, .acceptor .closeListener, .acceptor (.check 0), .acceptor (.close 0),
    .acceptor .done, .acceptor (.close 1), .acceptor .done, .acceptor .stopped, .lock]

/-- `Stop` ends the session of the first ID; it is that of the first connection, and the other
session runs on. -/
theorem ends_alone_cleared : ∃ s s', Runs.run step (new 0) stopServingTwo = some s
    ∧ s.step (.clear (tempSessionID 1)) = some s' ∧ s.Running 0 ∧ ¬ s'.Running 0
    ∧ s.sessionIDs 0 = some (tempSessionID 1) ∧ s'.Running 1 := by
  obtain ⟨s, s', hs, hstep, hissued, hzero, hone, hafter, hother⟩ : ∃ s s',
      Runs.run step (new 0) stopServingTwo = some s
        ∧ s.step (.clear (tempSessionID 1)) = some s' ∧ s.issued < 2 ^ 64 ∧ s.Running 0 ∧ s.Running 1
        ∧ (s'.served 0).map Served.session = some .ended
        ∧ s.sessionIDs 1 = some (tempSessionID 2) :=
    ⟨_, _, rfl, rfl, by decide, ⟨_, rfl, rfl⟩, ⟨_, rfl, rfl⟩, by decide +kernel, rfl⟩
  have hended : ¬ s'.Running 0 := by
    rintro ⟨h, hc, hr⟩
    rw [hc, Option.map_some, hr] at hafter
    cases hafter
  refine ⟨s, s', hs, hstep, hzero, hended, ?_, ?_⟩
  · obtain heq | ⟨id, heq, hid⟩ := ends_alone hs hissued hstep hzero hended
    · cases heq
    · cases heq
      exact hid
  · by_contra hstopped
    obtain heq | ⟨id, heq, hid⟩ := ends_alone hs hissued hstep hone hstopped
    · cases heq
    · cases heq
      exact absurd (hother.symm.trans hid) (by decide +kernel)

/-! ## After `Stop`

Behind `Stop` no handler is left in the acceptor, so none can enter a session any more.  A
connection that has been accepted before it has been closed by it. -/

/-- Behind `Stop` no session runs: one that does is in the map. -/
theorem Inv.not_running (hinv : s.Inv) (hemptied : s.emptied = true) (c : ℕ) : ¬ s.Running c := by
  rintro ⟨h, hc, hr⟩
  have hown := hinv.conns.own c h hc
  have hclosed := hinv.closed (hinv.stopped (Or.inr hemptied)) hc
  obtain ⟨id, hid⟩ := Option.isSome_iff_exists.mp (hown.named (by rw [hclosed]; decide))
  cases hw : h.watcher with
  | absent =>
    have hphase := hown.unwatched.mpr hw
    rw [hclosed] at hphase
    rcases hphase with hphase | hphase <;> cases hphase
  | waiting =>
    have hlookup := hinv.tracks.running c h id hc hid hw hr
    rw [hinv.emptied hemptied, Finmap.lookup_empty] at hlookup
    cases hlookup
  | woken =>
    rw [hown.ended (Or.inl hw)] at hr
    cases hr
  | done =>
    rw [hown.ended (Or.inr hw)] at hr
    cases hr

/-- **Once `Stop` has returned nothing is left of the server, whatever comes later**: the map is
empty, no session runs, no connection is accepted, and all that were accepted have been closed. -/
theorem stop_empties {issued : ℕ} {as bs : List RegistryAction} {t : Registry}
    (hs : Runs.run step (new issued) as = some s) (hemptied : s.emptied = true)
    (ht : Runs.run step s bs = some t) (hissued : t.issued < 2 ^ 64) :
    t.sessionCount = 0 ∧ (∀ c, ¬ t.Running c) ∧ t.acceptor.accepted = s.acceptor.accepted
      ∧ t.acceptor.closed.Perm (List.range s.acceptor.accepted) := by
  have hrun := Runs.run_append_eq_some.mpr ⟨s, hs, ht⟩
  have hinv := (inv_run hrun hissued).1
  obtain ⟨hempty, haccepted⟩ : t.emptied = true ∧ t.acceptor.accepted = s.acceptor.accepted := by
    refine Runs.run_history (P := fun _ t => t.issued < 2 ^ 64 →
      t.emptied = true ∧ t.acceptor.accepted = s.acceptor.accepted) (fun _ => ⟨hemptied, rfl⟩)
      (fun cs u x u' hu ih hstep hlt => ?_) ht hissued
    have hltu := lt_of_le_of_lt (frame hstep).issued hlt
    obtain ⟨hempty, hacc⟩ := ih hltu
    have hinvu := (inv_run (Runs.run_append_eq_some.mpr ⟨s, hs, hu⟩) hltu).1
    have hret := hinvu.returned_step hstep (hinvu.stopped (Or.inr hempty))
    exact ⟨(frame hstep).emptied hempty, hret.2.trans hacc⟩
  have hret := hinv.stopped (Or.inr hempty)
  have hconns := hinv.acceptor.conns
  rw [(hinv.acceptor.quiet hret).2.1, List.append_nil, haccepted] at hconns
  refine ⟨?_, hinv.not_running hempty, haccepted, hconns⟩
  rw [sessionCount, hinv.emptied hempty, Finmap.keys_empty, Finset.card_empty]

/-- A client comes, and `Stop` while its session runs. -/
def stopServing : List RegistryAction :=
  [.acceptor (.start true), .acceptor (.check 0), .acceptor (.accept 0), .generate 0, .attach 0,
   .register 0, .acceptor .stop, .acceptor .closeListener, .acceptor (.check 0),
   .acceptor (.close 0), .acceptor .done, .acceptor .stopped, .lock, .clear (tempSessionID 1),
   .release]

/-- Another server of the process goes on. -/
theorem stop_empties_serving : ∃ t,
    Runs.run step (new 0) (stopServing ++ [.generateElsewhere]) = some t
    ∧ t.sessionCount = 0 ∧ ∀ c, ¬ t.Running c := by
  obtain ⟨s, hs, hempty⟩ : ∃ s, Runs.run step (new 0) stopServing = some s ∧ s.emptied = true :=
    ⟨_, rfl, rfl⟩
  obtain ⟨t, ht, hissued⟩ : ∃ t,
      Runs.run step (new 0) (stopServing ++ [.generateElsewhere]) = some t ∧ t.issued < 2 ^ 64 :=
    ⟨_, rfl, by decide⟩
  obtain ⟨s', hs', hrest⟩ := Runs.run_append_eq_some.mp ht
  obtain rfl := Option.some.inj (hs.symm.trans hs')
  obtain ⟨hcount, hrunning, -⟩ := stop_empties hs hempty hrest hissued
  exact ⟨t, ht, hcount, hrunning⟩

end Registry

end FixMsg
