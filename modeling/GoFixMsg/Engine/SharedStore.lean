import GoFixMsg.Engine.Attribution
import GoFixMsg.Engine.FailedSend
import GoFixMsg.Engine.Run
import GoFixMsg.Machinery.Unwinding

/-!
# Engine/SharedStore — two engines on one store

An engine saves its numbers under one key: the address its initiator dials, or `default` where it
has none.  The CompIDs and the address of a peer that has dialled in are not in it.  So what an
engine loads after a restart is its own doing exactly if the keys of the two differ
(`isolated_iff`).

A store has a row for each key and writes one row at a time.  So two engines with keys of their own
cannot tell whether the other is there (`unwinding`), in the way in which two users of a machine are
shown not to interfere: each step of the one leaves the state as the other sees it.  Where nothing
is ever saved, as without a database, the keys do not matter.
-/

open GoLang

namespace FixMsg

/-! ## What an event does to the numbers

A handler may set the numbers any number of times, and sends frames that draw further ones.  All of
it goes through the four operations of the manager, so an event is a list of them, and nothing else
of the engine comes into it. -/

/-- The operations one after the other, each with what the driver makes of its write. -/
def SeqManager.performAll (s : SeqManager) (ops : List (SeqOp × Driver)) : SeqManager :=
  ops.foldl (fun s o => (s.perform o.1 o.2).1) s

theorem SeqManager.isSome_perform (op : SeqOp) (d : Driver) (s : SeqManager) :
    (s.perform op d).1.store.isSome = s.store.isSome := by
  obtain ⟨numbers, _ | st, sid⟩ := s <;> rfl

theorem SeqManager.isSome_performAll (s : SeqManager) (ops : List (SeqOp × Driver)) :
    (s.performAll ops).store.isSome = s.store.isSome := by
  induction ops generalizing s with
  | nil => rfl
  | cons o ops ih => exact (ih _).trans (SeqManager.isSome_perform _ _ _)

/-- **The numbers go through operations that do not depend on the engine**, but for its having a
store. -/
def Operates (f : Engine → Engine) : Prop :=
  ∃ ops : Bool → List (SeqOp × Driver), ∀ e,
    (f e).seqMgr = e.seqMgr.performAll (ops e.seqMgr.store.isSome)

theorem Operates.none {f : Engine → Engine} (h : ∀ e, (f e).seqMgr = e.seqMgr) : Operates f :=
  ⟨fun _ => [], h⟩

theorem Operates.comp {f g : Engine → Engine} (hg : Operates g) (hf : Operates f) :
    Operates fun e => g (f e) := by
  obtain ⟨ops, hops⟩ := hf
  obtain ⟨ops', hops'⟩ := hg
  refine ⟨fun b => ops b ++ ops' b, fun e => ?_⟩
  rw [hops', hops, SeqManager.isSome_performAll, SeqManager.performAll, SeqManager.performAll,
    SeqManager.performAll, List.foldl_append]

/-- What leaves the numbers as another does. -/
theorem Operates.congr {f g : Engine → Engine} (hf : Operates f)
    (h : ∀ e, (g e).seqMgr = (f e).seqMgr) : Operates g := by
  obtain ⟨ops, hops⟩ := hf
  exact ⟨ops, fun e => (h e).trans (hops e)⟩

theorem operates_sendMessage (env : Env) (m : CodedMessage) :
    Operates fun e => (sendMessage env m e).engine := by
  cases hnum : m.fields.contains tagMsgSeqNum with
  | true => exact .none fun e => (sendMessage_uses_none hnum).1
  | false =>
    exact ⟨fun _ => [(.incrementOutgoing, env.writes)], fun e => (sendMessage_uses_number hnum).1⟩

theorem operates_reply (consent send : Env) (out : CodedMessage) :
    Operates fun e => (reply consent send out e).1 := by
  unfold reply Application.askToAdmin ask
  rcases consent.app.toAdmin out with ⟨m', _ | err⟩
  · exact (operates_sendMessage send m').comp (f := fun e => e.record [.toAdmin out])
      (.none fun _ => rfl)
  · exact .none fun _ => rfl

theorem operates_logonHandler (env : ℕ → Env) (m : CodedMessage) :
    Operates fun e => (logonHandler env m e).engine := by
  refine ⟨fun b => if m.fields.getD 141 = ascii "Y" ∧ b then
    [(.setOutgoing 1, (env 0).writes), (.setIncoming 1, (env 1).writes)] else [], fun e => ?_⟩
  unfold logonHandler
  dsimp only [Handled.of]
  split <;> rfl

theorem operates_logoutHandler (env : ℕ → Env) (m : CodedMessage) :
    Operates fun e => (logoutHandler env m e).engine := by
  refine (operates_reply (env 0) (env 1) (newLogoutMessage (env 0).ρ
    (m.fields.getD tagTargetCompID) (m.fields.getD tagSenderCompID))).congr fun e => ?_
  unfold logoutHandler
  dsimp only
  split
  all_goals
    next hreply => rw [hreply]; rfl

theorem operates_resendRequestHandler (env : ℕ → Env) (fuel : ℕ) (m : CodedMessage) :
    Operates fun e => (resendRequestHandler env fuel m e).engine := by
  refine .none fun e => ?_
  unfold resendRequestHandler
  split
  · rfl
  · split
    · rfl
    · exact seqMgr_resendLoop ..

theorem operates_sequenceResetHandler (env : ℕ → Env) (m : CodedMessage) :
    Operates fun e => (sequenceResetHandler env m e).engine := by
  unfold sequenceResetHandler
  by_cases hv : m.fields.getD 36 = []
  · refine .none fun e => ?_
    dsimp only
    rw [if_pos hv]
    rfl
  · refine ⟨fun _ => [(.setOutgoing (int64 ((atoi (m.fields.getD 36)).1 - 1)), (env 0).writes)],
      fun e => ?_⟩
    dsimp only
    rw [if_neg hv]
    rfl

theorem operates_defaultHandlers (env : ℕ → Env) (fuel : ℕ) :
    ∀ p ∈ defaultHandlers env fuel, ∀ m, Operates fun e => (p.2 m e).engine := by
  have htest : ∀ m, Operates fun e => (testRequestHandler env m e).engine :=
    fun m => operates_reply (env 0) (env 1) _
  rw [defaultHandlers]
  iterate 6 rw [List.forall_mem_cons]
  exact ⟨operates_logonHandler env, operates_logoutHandler env,
    operates_resendRequestHandler env fuel, operates_sequenceResetHandler env, htest,
    fun _ => .none fun _ => rfl, fun _ hp => absurd hp List.not_mem_nil⟩

theorem operates_process (env : ℕ → Env) (fuel : ℕ) (m : CodedMessage) :
    Operates fun e => (process env fuel m e).engine := by
  unfold process
  dsimp only
  split
  · exact .none fun _ => rfl
  · split
    · next handle hlookup =>
      have hhandle := operates_defaultHandlers env fuel _ (mem_of_lookup hlookup)
      unfold withFromAdmin Application.askFromAdmin ask
      rcases (env 0).app.fromAdmin m with ⟨m', _ | err⟩
      · exact (hhandle m').comp (f := fun e => e.record [.fromAdmin m]) (.none fun _ => rfl)
      · exact .none fun _ => rfl
    · exact .none fun _ => rfl

/-- **An event is a restart, or takes the numbers through operations of its own.** -/
theorem restarts_or_operates (x : EngineEvent) :
    (∃ d, x = .restart d) ∨ Operates fun e => e.handle x := by
  cases x with
  | restart d => exact Or.inl ⟨d, rfl⟩
  | attach | detach => exact Or.inr (.none fun _ => rfl)
  | send env m => exact Or.inr (operates_sendMessage env m)
  | receive env fuel m => exact Or.inr (operates_process env fuel m)
  | setNumber op d => exact Or.inr ⟨fun _ => [(op, d)], fun _ => rfl⟩

/-! ## The row of a session -/

/-- The row of a session, where there is a store and it is open. -/
def sessionRow (sid : Bytes) (store : Option SQLiteStore) : Option (Option (Option (ℤ × ℤ))) :=
  store.map fun st => st.db.map fun t => t.sessions sid

theorem isSome_sessionRow (sid : Bytes) (store : Option SQLiteStore) :
    (sessionRow sid store).isSome = store.isSome := Option.isSome_map ..

/-- The numbers a row stands for. -/
def loadRow : Driver → Option (Option (Option (ℤ × ℤ))) → SeqPair
  | .ok, some (some row) =>
      let seqs := row.getD (0, 0)
      ⟨if 0 < seqs.2 then seqs.2 else 0, if 0 < seqs.1 then seqs.1 else 0⟩
  | _, _ => ⟨0, 0⟩

/-- A restart loads what the row says. -/
theorem load_eq_loadRow (d : Driver) (sid : Bytes) (store : Option SQLiteStore) :
    SeqManager.load d sid store = loadRow d (sessionRow sid store) := by
  rcases store with _ | ⟨_ | t⟩ <;> cases d <;> rfl

/-- **A write changes the row of its own session alone.** -/
theorem sessionRow_persist {d : Driver} {sid sid' : Bytes} {snapshot : SeqPair}
    {store : Option SQLiteStore} (h : sid' ≠ sid) :
    sessionRow sid' (persist d sid snapshot store).1 = sessionRow sid' store := by
  rcases store with _ | ⟨_ | t⟩
  · rfl
  · rfl
  · cases d with
    | fail => rfl
    | ok => simp [persist, sessionRow, SQLiteStore.saveSessionSeq, SQLiteStore.exec, h]

/-- And what it leaves there depends on nothing else in the store. -/
theorem sessionRow_persist_congr {d : Driver} {sid : Bytes} {snapshot : SeqPair}
    {store store' : Option SQLiteStore} (h : sessionRow sid store = sessionRow sid store') :
    sessionRow sid (persist d sid snapshot store).1
      = sessionRow sid (persist d sid snapshot store').1 := by
  rcases store with _ | ⟨_ | t⟩ <;> rcases store' with _ | ⟨_ | t'⟩
  all_goals first
    | rfl
    | cases h
    | skip
  cases d with
  | fail => exact h
  | ok => simp [persist, sessionRow, SQLiteStore.saveSessionSeq, SQLiteStore.exec]

/-- **Two managers are alike**: the same numbers under the same key, and the same row there. -/
structure SeqManager.Alike (s t : SeqManager) : Prop where
  numbers : s.numbers = t.numbers
  sid : s.sid = t.sid
  row : sessionRow s.sid s.store = sessionRow s.sid t.store

theorem SeqManager.Alike.perform {s t : SeqManager} (h : s.Alike t) (op : SeqOp) (d : Driver) :
    (s.perform op d).1.Alike (t.perform op d).1 := by
  obtain ⟨numbers, store, sid⟩ := s
  obtain ⟨numbers', store', sid'⟩ := t
  obtain ⟨hnumbers, hsid, hrow⟩ := h
  dsimp only at hnumbers hsid hrow
  subst hnumbers hsid
  exact ⟨rfl, rfl, sessionRow_persist_congr hrow⟩

theorem SeqManager.Alike.performAll {s t : SeqManager} (h : s.Alike t)
    (ops : List (SeqOp × Driver)) : (s.performAll ops).Alike (t.performAll ops) := by
  induction ops generalizing s t with
  | nil => exact h
  | cons o ops ih => exact ih (h.perform o.1 o.2)

theorem SeqManager.Alike.restart {s t : SeqManager} (h : s.Alike t) (d : Driver) :
    (SeqManager.new d s.store s.sid).Alike (SeqManager.new d t.store t.sid) := by
  obtain ⟨numbers, store, sid⟩ := s
  obtain ⟨numbers', store', sid'⟩ := t
  obtain ⟨-, hsid, hrow⟩ := h
  dsimp only at hsid hrow
  subst hsid
  refine ⟨?_, rfl, hrow⟩
  change SeqManager.load d _ store = SeqManager.load d _ store'
  rw [load_eq_loadRow, load_eq_loadRow, hrow]

/-- Operations leave the row of another session, and the key. -/
theorem SeqManager.performAll_spec (s : SeqManager) (ops : List (SeqOp × Driver)) :
    (s.performAll ops).sid = s.sid
      ∧ ∀ sid, sid ≠ s.sid → sessionRow sid (s.performAll ops).store = sessionRow sid s.store := by
  induction ops generalizing s with
  | nil => exact ⟨rfl, fun _ _ => rfl⟩
  | cons o ops ih =>
    obtain ⟨hsid, hrow⟩ := ih (s.perform o.1 o.2).1
    exact ⟨hsid, fun sid hne => (hrow sid hne).trans (sessionRow_persist hne)⟩

/-! ## An event of an engine -/

/-- **Alike engines stay alike.** -/
theorem alike_handle {e e' : Engine} (h : e.seqMgr.Alike e'.seqMgr) (x : EngineEvent) :
    (e.handle x).seqMgr.Alike (e'.handle x).seqMgr := by
  rcases restarts_or_operates x with ⟨d, rfl⟩ | ⟨ops, hops⟩
  · exact h.restart d
  · have hstore : e.seqMgr.store.isSome = e'.seqMgr.store.isSome := by
      rw [← isSome_sessionRow e.seqMgr.sid, h.row, isSome_sessionRow]
    rw [hops e, hops e', hstore]
    exact h.performAll _

/-- An event leaves the key, and the rows of the other sessions. -/
theorem handle_spec (e : Engine) (x : EngineEvent) :
    (e.handle x).seqMgr.sid = e.seqMgr.sid ∧ ∀ sid, sid ≠ e.seqMgr.sid →
      sessionRow sid (e.handle x).seqMgr.store = sessionRow sid e.seqMgr.store := by
  rcases restarts_or_operates x with ⟨d, rfl⟩ | ⟨ops, hops⟩
  · exact ⟨rfl, fun _ _ => rfl⟩
  · rw [hops e]
    exact e.seqMgr.performAll_spec _

/-! ## Two engines

The store is one, and each engine finds it as the other has left it.  An engine is isolated if what
it would load after a restart is what it would load had the other never done anything. -/

/-- The engine, with the store as it is now. -/
def Engine.withStore (e : Engine) (store : Option SQLiteStore) : Engine :=
  { e with seqMgr := { e.seqMgr with store := store } }

/-- **Two engines on one store.** -/
structure SharedStore where
  store : Option SQLiteStore
  engines : Bool → Engine

namespace SharedStore

/-- An event at one of the two. -/
def step (s : SharedStore) (a : Bool × EngineEvent) : SharedStore :=
  let e := ((s.engines a.1).withStore s.store).handle a.2
  ⟨e.seqMgr.store, Function.update s.engines a.1 e⟩

/-- What an engine loads after a restart. -/
def loaded (d : Driver) (i : Bool) (s : SharedStore) : SeqPair :=
  SeqManager.load d (s.engines i).seqMgr.sid s.store

/-- **Isolated**: what an engine loads after a restart depends on its own events alone, however they
are interleaved with those of the other. -/
def Isolated (s : SharedStore) (i : Bool) : Prop :=
  ∀ d as bs, Unwinding.purge Prod.fst i as = Unwinding.purge Prod.fst i bs →
    loaded d i (Unwinding.run step s as) = loaded d i (Unwinding.run step s bs)

/-- Two states look alike to an engine whose key the other has not. -/
def Alike (i : Bool) (s t : SharedStore) : Prop :=
  ((s.engines i).withStore s.store).seqMgr.Alike ((t.engines i).withStore t.store).seqMgr
    ∧ (s.engines (!i)).seqMgr.sid ≠ (s.engines i).seqMgr.sid
    ∧ (t.engines (!i)).seqMgr.sid ≠ (t.engines i).seqMgr.sid

/-- An event leaves the keys. -/
theorem sid_step (s : SharedStore) (a : Bool × EngineEvent) (j : Bool) :
    ((s.step a).engines j).seqMgr.sid = (s.engines j).seqMgr.sid := by
  change (Function.update s.engines a.1 _ j).seqMgr.sid = _
  by_cases h : j = a.1
  · subst h
    rw [Function.update_self]
    exact (handle_spec ((s.engines a.1).withStore s.store) a.2).1
  · rw [Function.update_of_ne h]

/-- The engine an event is at, and the store it leaves. -/
theorem withStore_step (s : SharedStore) (a : Bool × EngineEvent) :
    ((s.step a).engines a.1).withStore (s.step a).store
      = ((s.engines a.1).withStore s.store).handle a.2 := by
  change (Function.update s.engines a.1 _ a.1).withStore _ = _
  rw [Function.update_self]
  rfl

/-- **Engines with different keys do not see each other.**  Each writes to a row of its own. -/
theorem unwinding (i : Bool) : Unwinding.Alike step Prod.fst i (Alike i) where
  own s t a h ha := by
    obtain ⟨halike, hs, ht⟩ := h
    subst ha
    refine ⟨?_, ?_, ?_⟩
    · rw [withStore_step, withStore_step]
      exact alike_handle halike a.2
    · rwa [sid_step, sid_step]
    · rwa [sid_step, sid_step]
  other s t a h ha := by
    obtain ⟨halike, hs, ht⟩ := h
    have hother : (!i) = a.1 := by
      rw [Bool.not_eq]
      exact Ne.symm ha
    have hsame : (s.step a).engines i = s.engines i := Function.update_of_ne (Ne.symm ha) _ _
    refine ⟨⟨?_, ?_, ?_⟩, ?_, ht⟩
    · rw [hsame]
      exact halike.numbers
    · rw [hsame]
      exact halike.sid
    · have hrow := (handle_spec ((s.engines a.1).withStore s.store) a.2).2
        (s.engines i).seqMgr.sid (by rw [← hother]; exact hs.symm)
      rw [hsame]
      exact hrow.trans halike.row
    · rwa [sid_step, sid_step]

theorem alike_refl {s : SharedStore} {i : Bool}
    (h : (s.engines (!i)).seqMgr.sid ≠ (s.engines i).seqMgr.sid) : Alike i s s :=
  ⟨⟨rfl, rfl, rfl⟩, h, h⟩

/-- **With different keys each engine is isolated.** -/
theorem isolated_of_ne {s : SharedStore} {i : Bool}
    (h : (s.engines (!i)).seqMgr.sid ≠ (s.engines i).seqMgr.sid) : Isolated s i := by
  intro d as bs hpurge
  refine Unwinding.observe_eq_of_purge_eq (unwinding i) (fun t t' halike => ?_) (alike_refl h)
    hpurge
  have hsid : (t.engines i).seqMgr.sid = (t'.engines i).seqMgr.sid := halike.1.sid
  have hrow : sessionRow (t.engines i).seqMgr.sid t.store
      = sessionRow (t.engines i).seqMgr.sid t'.store := halike.1.row
  rw [loaded, loaded, ← hsid, load_eq_loadRow, load_eq_loadRow, hrow]

/-! ### A store that is not open -/

/-- There is a store, and it is open. -/
def StoreOpen (store : Option SQLiteStore) : Prop := ∃ st ∈ store, st.Open

theorem performAll_of_not_open {s : SeqManager} (h : ¬ StoreOpen s.store)
    (ops : List (SeqOp × Driver)) : (s.performAll ops).store = s.store := by
  induction ops generalizing s with
  | nil => rfl
  | cons o ops ih =>
    have hone : (s.perform o.1 o.2).1.store = s.store := by
      obtain ⟨numbers, _ | ⟨_ | t⟩, sid⟩ := s
      · rfl
      · rfl
      · exact absurd ⟨_, rfl, rfl⟩ h
    have hopen : ¬ StoreOpen (s.perform o.1 o.2).1.store := by rwa [hone]
    exact (ih hopen).trans hone

theorem store_step_of_not_open {s : SharedStore} (h : ¬ StoreOpen s.store)
    (a : Bool × EngineEvent) : (s.step a).store = s.store := by
  change (((s.engines a.1).withStore s.store).handle a.2).seqMgr.store = _
  rcases restarts_or_operates a.2 with ⟨d, hx⟩ | ⟨ops, hops⟩
  · rw [hx]
    rfl
  · rw [hops]
    exact performAll_of_not_open h _

/-- **Where the store is not open, an engine starts from 0.** -/
theorem loaded_of_not_open {s : SharedStore} (h : ¬ StoreOpen s.store) (d : Driver) (i : Bool)
    (as : List (Bool × EngineEvent)) : loaded d i (Unwinding.run step s as) = ⟨0, 0⟩ := by
  induction as generalizing s with
  | nil =>
    obtain ⟨_ | ⟨_ | t⟩, engines⟩ := s
    · rfl
    · rfl
    · exact absurd ⟨_, rfl, rfl⟩ h
  | cons a as ih =>
    have hopen : ¬ StoreOpen (s.step a).store := by rwa [store_step_of_not_open h]
    exact ih hopen

/-! ### One key for both -/

/-- **With one key, an engine loads what the other saved last.** -/
theorem not_isolated_of_eq {s : SharedStore} (hopen : StoreOpen s.store)
    (h : (s.engines true).seqMgr.sid = (s.engines false).seqMgr.sid) : ¬ Isolated s false := by
  intro hiso
  obtain ⟨st, hst, hopen⟩ := hopen
  let n : ℤ := if (loaded .ok false s).outgoing = 1 then 2 else 1
  let a : Bool × EngineEvent := (true, .setNumber (.setOutgoing n) .ok)
  have hsame : loaded .ok false (s.step a) = loaded .ok false s := hiso .ok [a] [] rfl
  have hafter : loaded .ok false (s.step a)
      = SeqManager.restored ⟨(s.engines true).seqMgr.numbers.incoming, n⟩ := by
    rw [loaded, sid_step, ← h]
    change SeqManager.load .ok _ (persist .ok _ _ s.store).1 = _
    rw [Option.mem_def.mp hst]
    exact SeqManager.load_persist hopen _ _
  have hout : max 0 n = (loaded .ok false s).outgoing := by
    rw [← hsame, hafter]
    rfl
  by_cases hone : (loaded .ok false s).outgoing = 1
  · rw [show n = 2 from if_pos hone, hone] at hout
    omega
  · rw [show n = 1 from if_neg hone] at hout
    omega

/-! ## Which engines are isolated

The key comes from the configuration of the initiator.  An acceptor gives its engines none, so all
of them save under `default`. -/

/-- The key under which an engine saves its numbers. -/
def sessionKey (c : Components) : Bytes := orDefault c.addr (ascii "default")

/-- Two engines that are set up on one store. -/
def shared (store : Option SQLiteStore) (hosts : Bool → Host) (c : Bool → Components) :
    SharedStore where
  store := store
  engines i := ((hosts i).setupComponents { c i with store := store }).engine

/-- **Two engines on one store are isolated exactly if their keys differ**, or nothing is saved. -/
theorem isolated_iff (store : Option SQLiteStore) (hosts : Bool → Host) (c : Bool → Components) :
    (∀ i, Isolated (shared store hosts c) i)
      ↔ (StoreOpen store → sessionKey (c false) ≠ sessionKey (c true)) := by
  constructor
  · intro h hopen hkey
    exact not_isolated_of_eq (s := shared store hosts c) hopen hkey.symm (h false)
  · intro h i
    by_cases hopen : StoreOpen store
    · refine isolated_of_ne ?_
      cases i with
      | false => exact (h hopen).symm
      | true => exact h hopen
    · intro d as bs _
      rw [loaded_of_not_open hopen, loaded_of_not_open hopen]

/-- The components of one of two sessions whose peers have dialled in. -/
def accepted (i : Bool) : Components where
  sm := .disconnected
  store := some .opened
  loads := .ok
  addr := []
  senderCompID := ascii "ME"
  targetCompID := ascii (if i then "PEER1" else "PEER2")

/-- Where the peers of the two are. -/
def peer (i : Bool) : Bytes := ascii (if i then "10.0.0.1:5001" else "10.0.0.2:5001")

/-- The two save their numbers under one key. -/
theorem sessionKey_accepted (i : Bool) : sessionKey (accepted i) = ascii "default" := rfl

theorem not_isolated_accepted :
    ¬ Isolated (shared (some .opened) (fun _ => .new) accepted) false := by
  have hopen : StoreOpen (some .opened) := ⟨.opened, rfl, rfl⟩
  have hkey : sessionKey (accepted true) = sessionKey (accepted false) := by
    rw [sessionKey_accepted, sessionKey_accepted]
  exact not_isolated_of_eq (s := shared (some .opened) (fun _ => .new) accepted) hopen hkey

/-- **Two sessions whose peers have dialled in**, from different addresses and with different
CompIDs, save their numbers under one key. -/
theorem accepted_share_key :
    ¬ ∀ (store : Option SQLiteStore) (hosts : Bool → Host) (c : Bool → Components)
      (peer : Bool → Bytes), (∀ i, (c i).addr ≠ [] → peer i = (c i).addr) →
      ((hosts false).setupComponents (c false)).engine.senderCompID
          ≠ ((hosts true).setupComponents (c true)).engine.senderCompID
        ∨ ((hosts false).setupComponents (c false)).engine.targetCompID
          ≠ ((hosts true).setupComponents (c true)).engine.targetCompID
        ∨ peer false ≠ peer true →
      ∀ i, Isolated (shared store hosts c) i := by
  intro h
  have hpeer : peer false ≠ peer true := by decide
  exact not_isolated_accepted
    (h _ _ accepted peer (fun i hdials => absurd rfl hdials) (Or.inr (Or.inr hpeer)) false)

end SharedStore

end FixMsg
