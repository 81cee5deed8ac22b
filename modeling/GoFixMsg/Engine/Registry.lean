import GoFixMsg.Engine.MultiSession
import GoFixMsg.GoLang.Strconv
import GoFixMsg.Network.Acceptor
import Mathlib.Data.Finmap

/-!
# Engine/Registry — a server, its connections and its map of sessions

A `MultiSessionEngine` keeps its sessions in a map, under IDs it draws from a counter of the
process.  Three kinds of goroutines write to the map: the handler of a connection enters a session,
the goroutine that watches the session removes it, and `Stop`, behind the acceptor, empties the map.

So long as the counter has not come round, no ID is given out twice, and a session that is entered
and runs stays in the map (`Inv.step`).

Until a logon an ID is no more than the text of a counter of 64 bits, which the process shares among
all of its servers.  An entry is removed by its watcher alone, which waits for the session to end,
or by `Stop`, which holds the mutex of the map while it closes one engine after the other; a handler
that wants to enter a session meanwhile waits for it.

The acceptor is that of `Network/Acceptor`, with its listener and its goroutines.  What a connection
does to the map goes on along with it, and a step of the one that has a part in the other is a step
of both (`Registry.follow`).
-/

open GoLang

namespace FixMsg

/-! ## The IDs -/

/-- The ID a connection gets until its logon: `fmt.Sprintf("temp-%d", sessionIDCounter)`, where the
counter has been incremented `issued` times. -/
def tempSessionID (issued : ℕ) : Bytes := ascii "temp-" ++ itoa (int64 issued)

/-- **`generateSessionID`**, and how often the counter has been incremented behind it. -/
def generateSessionID (issued : ℕ) : List Bytes → Bytes × ℕ
  | beginString :: sender :: target :: _ =>
      if beginString ≠ [] ∧ sender ≠ [] ∧ target ≠ [] then
        (beginString ++ ascii ":" ++ sender ++ ascii ":" ++ target, issued)
      else (tempSessionID (issued + 1), issued + 1)
  | _ => (tempSessionID (issued + 1), issued + 1)

/-- What wraps to the same is the same, less than a full turn apart. -/
theorem eq_of_int64_eq {m n : ℕ} (h : int64 m = int64 n) (hm : m < 2 ^ 64) (hn : n < 2 ^ 64) :
    m = n := by
  have hmod : (m : ℤ) % (2 ^ 64 : ℕ) = n % (2 ^ 64 : ℕ) := by
    have hbmod : Int.bmod m (2 ^ 64) = Int.bmod n (2 ^ 64) := h
    rw [← Int.bmod_emod, hbmod, Int.bmod_emod]
  omega

/-- **The counter names no two connections alike**, until it has come round. -/
theorem tempSessionID_injective {m n : ℕ} (h : tempSessionID m = tempSessionID n) (hm : m < 2 ^ 64)
    (hn : n < 2 ^ 64) : m = n :=
  eq_of_int64_eq
    (itoa_injective (isInt64_int64 _) (isInt64_int64 _) (List.append_cancel_left h)) hm hn

/-! ## The server

A connection goes through its handler once: an ID is drawn, a session is attached, and it is entered
in the map.  Behind that only the watcher is left, and `Stop` may come in anywhere. -/

/-- Where the handler of a connection is, the ID it has drawn, its session, and the goroutine that
watches the session. -/
structure Served where
  phase : ClientPhase
  sessionID : Option Bytes
  session : SessionLife
  watcher : WatcherPhase
  deriving DecidableEq

/-- **A `MultiSessionEngine`**: its acceptor, what serves the connections the acceptor has accepted,
the counter of the process, and the map.  All but `Stop` take the mutex for one step. -/
structure Registry where
  acceptor : Acceptor
  served : Calls Served
  issued : ℕ
  sessions : Finmap fun _ : Bytes => ℕ
  locked : Bool
  emptied : Bool

/-- What goes on in a server. -/
inductive RegistryAction where
  /-- A step of the acceptor: `Start`, its goroutines, or the first half of `Stop`. -/
  | acceptor (x : AcceptorAction)
  /-- The handler draws the session ID. -/
  | generate (c : ℕ)
  /-- Somebody else in the process draws one. -/
  | generateElsewhere
  /-- `AttachSession`. -/
  | attach (c : ℕ)
  /-- `registerSession`. -/
  | register (c : ℕ)
  /-- A session meets an error or the end of its input, or is stopped by its user or its monitor. -/
  | endSession (c : ℕ)
  /-- The context of a session is done. -/
  | wake (c : ℕ)
  /-- `unregisterSession`. -/
  | unregister (c : ℕ)
  /-- `Stop`, behind `m.Acceptor.Stop()`, gets to the mutex. -/
  | lock
  /-- `Stop` closes the session of an ID, and removes it. -/
  | clear (id : Bytes)
  /-- `Stop` returns. -/
  | release
  deriving DecidableEq

namespace Served

/-- A handler that has been called. -/
def entered : Served := ⟨.handling, none, .new, .absent⟩

/-- `FixEngine.Close`, as far as the session goes. -/
def close (h : Served) : Served := { h with session := .ended }

end Served

namespace Registry

/-- `NewMultiSessionEngine`, in a process that has drawn IDs before. -/
def new (issued : ℕ) : Registry := ⟨.new, fun _ => none, issued, ∅, false, false⟩

/-- `GetSession`. -/
def getSession (s : Registry) (id : Bytes) : Option ℕ := s.sessions.lookup id

/-- `SessionCount`. -/
def sessionCount (s : Registry) : ℕ := s.sessions.keys.card

/-- The engine of a connection is closed. -/
def closeEngine (s : Registry) (c : ℕ) : Calls Served :=
  s.served.put c ((s.served c).map Served.close)

/-- `FixEngine.Close` of the engine of an ID, which is removed. -/
def remove (s : Registry) (id : Bytes) : Registry :=
  match s.sessions.lookup id with
  | some c => { s with served := s.closeEngine c, sessions := s.sessions.erase id }
  | none => s

/-- What serves a connection goes on, where it can. -/
def onServed (s : Registry) (c : ℕ) (go : Served → Option Registry) : Option Registry :=
  (s.served c).bind go

/-- The acceptor closes a connection only behind its handler. -/
def Returns (s : Registry) : AcceptorAction → Prop
  | .close c => (s.served c).map Served.phase = some .returned
  | _ => True

instance (s : Registry) : DecidablePred s.Returns
  | .close c => inferInstanceAs (Decidable ((s.served c).map Served.phase = some .returned))
  | .start _ | .check _ | .accept _ | .acceptError _ | .done | .stop | .closeListener | .stopped =>
      inferInstanceAs (Decidable True)

/-- What serves the connections behind a step of the acceptor. -/
def follow (s : Registry) : AcceptorAction → Calls Served
  | .accept _ => s.served.put s.acceptor.accepted (some .entered)
  | .close c => s.served.put c ((s.served c).map fun h => { h with phase := .closed })
  | _ => s.served

/-- A step of a process that has not panicked. -/
def act (s : Registry) : RegistryAction → Option Registry
  | .acceptor x =>
      if s.Returns x then
        (s.acceptor.step x).map fun a => { s with acceptor := a, served := s.follow x }
      else none
  | .generate c => s.onServed c fun h =>
      if h.phase = .handling ∧ h.sessionID = none then
        let drawn := generateSessionID s.issued [[]]
        some { s with
          served := s.served.put c (some { h with sessionID := some drawn.1 })
          issued := drawn.2 }
      else none
  | .generateElsewhere => some { s with issued := s.issued + 1 }
  | .attach c => s.onServed c fun h =>
      if h.phase = .handling ∧ h.sessionID.isSome then
        some { s with
          served := s.served.put c (some { h with phase := .attached, session := .running }) }
      else none
  | .register c => s.onServed c fun h =>
      match h.phase, h.sessionID, s.locked with
      | .attached, some id, false =>
          some { s with
            served := s.served.put c (some { h with phase := .returned, watcher := .waiting })
            sessions := s.sessions.insert id c }
      | _, _, _ => none
  | .endSession c => s.onServed c fun h =>
      if h.session = .running then some { s with served := s.served.put c (some h.close) } else none
  | .wake c => s.onServed c fun h =>
      if h.watcher = .waiting ∧ h.session = .ended then
        some { s with served := s.served.put c (some { h with watcher := .woken }) }
      else none
  | .unregister c => s.onServed c fun h =>
      match h.watcher, h.sessionID, s.locked with
      | .woken, some id, false =>
          some (remove { s with served := s.served.put c (some { h with watcher := .done }) } id)
      | _, _, _ => none
  | .lock =>
      if s.acceptor.returned = true ∧ s.acceptor.call = .idle ∧ s.locked = false
          ∧ s.emptied = false then
        some { s with locked := true }
      else none
  | .clear id => if s.locked = true ∧ id ∈ s.sessions then some (s.remove id) else none
  | .release =>
      if s.locked = true ∧ s.sessions.keys = ∅ then some { s with locked := false, emptied := true }
      else none

/-- One step: a panic in `Acceptor.Stop` ends the process. -/
def step (s : Registry) (x : RegistryAction) : Option Registry :=
  if s.acceptor.call = .panicked then none else s.act x

/-! ## What holds in every state

The invariant has a part for each connection, one for all of them together, and one for the map.  A
step is mostly one of a single connection, so what holds of the others is carried by one lemma, and
the map is looked at only where an entry is made or removed. -/

end Registry

/-- What holds of the parts of one connection: it has an ID once its session is attached, and a
watcher once it is registered, which goes on when the session has ended. -/
structure Served.Inv (h : Served) : Prop where
  named : h.phase ≠ .handling → h.sessionID.isSome
  fresh : h.phase = .handling → h.session = .new
  unwatched : h.phase = .handling ∨ h.phase = .attached ↔ h.watcher = .absent
  ended : h.watcher = .woken ∨ h.watcher = .done → h.session = .ended

theorem Served.inv_entered : Served.entered.Inv :=
  ⟨fun h => absurd rfl h, fun _ => rfl, by decide, by decide⟩

/-- **What holds of the connections**: those that are not closed are those the acceptor has handlers
for, and no two of them have one ID. -/
structure Connected (a : Acceptor) (served : Calls Served) (issued : ℕ) : Prop where
  own : ∀ c h, served c = some h → h.Inv
  known : ∀ c h, served c = some h → c < a.accepted
  handled : ∀ c h, served c = some h → h.phase ≠ .closed → c ∈ a.handled
  drawn : ∀ c h id, served c = some h → h.sessionID = some id →
    ∃ n, n ≤ issued ∧ id = tempSessionID n
  distinct : ∀ c c' h h' id, served c = some h → served c' = some h' → h.sessionID = some id →
    h'.sessionID = some id → c = c'

/-- What a connection is behind the step of one: the one that went on, or another, as it was. -/
theorem served_put {served : Calls Served} {c d : ℕ} {h' k : Served}
    (hd : served.put c (some h') d = some k) : (d = c ∧ k = h') ∨ (d ≠ c ∧ served d = some k) :=
  (Calls.put_eq_some_iff.mp hd).imp (fun hk => ⟨hk.1, (Option.some.inj hk.2).symm⟩) fun hk => hk

/-- **A connection goes on**, under its ID. -/
theorem Connected.put {a : Acceptor} {served : Calls Served} {issued : ℕ}
    (hconn : Connected a served issued) {c : ℕ} {h h' : Served} (hc : served c = some h)
    (hown : h'.Inv) (hid : h'.sessionID = h.sessionID)
    (hphase : h'.phase ≠ .closed → h.phase ≠ .closed) :
    Connected a (served.put c (some h')) issued where
  own := fun d k hd => by
    rcases served_put hd with ⟨rfl, rfl⟩ | ⟨-, hd⟩
    · exact hown
    · exact hconn.own d k hd
  known := fun d k hd => by
    rcases served_put hd with ⟨rfl, -⟩ | ⟨-, hd⟩
    · exact hconn.known d h hc
    · exact hconn.known d k hd
  handled := fun d k hd hk => by
    rcases served_put hd with ⟨rfl, rfl⟩ | ⟨-, hd⟩
    · exact hconn.handled d h hc (hphase hk)
    · exact hconn.handled d k hd hk
  drawn := fun d k id hd hk => by
    rcases served_put hd with ⟨rfl, rfl⟩ | ⟨-, hd⟩
    · exact hconn.drawn d h id hc (hid ▸ hk)
    · exact hconn.drawn d k id hd hk
  distinct := fun d d' k k' id hd hd' hk hk' => by
    rcases served_put hd with ⟨rfl, rfl⟩ | ⟨-, hkd⟩ <;>
      rcases served_put hd' with ⟨rfl, rfl⟩ | ⟨-, hkd'⟩
    · rfl
    · exact hconn.distinct d d' h k' id hc hkd' (hid ▸ hk) hk'
    · exact hconn.distinct d d' k h id hkd hc hk (hid ▸ hk')
    · exact hconn.distinct d d' k k' id hkd hkd' hk hk'

/-- **A connection is accepted.** -/
theorem Connected.accept {a a' : Acceptor} {served : Calls Served} {issued : ℕ}
    (hconn : Connected a served issued) (hhandled : a'.handled = a.handled ++ [a.accepted])
    (haccepted : a'.accepted = a.accepted + 1) :
    Connected a' (served.put a.accepted (some .entered)) issued where
  own := fun d k hd => by
    rcases served_put hd with ⟨-, rfl⟩ | ⟨-, hd⟩
    · exact Served.inv_entered
    · exact hconn.own d k hd
  known := fun d k hd => by
    rw [haccepted]
    rcases served_put hd with ⟨rfl, -⟩ | ⟨-, hd⟩
    · exact Nat.lt_succ_self _
    · exact Nat.lt_succ_of_lt (hconn.known d k hd)
  handled := fun d k hd hk => by
    rw [hhandled]
    rcases served_put hd with ⟨rfl, -⟩ | ⟨-, hd⟩
    · exact List.mem_append_right _ (List.mem_singleton.mpr rfl)
    · exact List.mem_append_left _ (hconn.handled d k hd hk)
  drawn := fun d k id hd hk => by
    rcases served_put hd with ⟨-, rfl⟩ | ⟨-, hd⟩
    · cases hk
    · exact hconn.drawn d k id hd hk
  distinct := fun d d' k k' id hd hd' hk hk' => by
    rcases served_put hd with ⟨-, rfl⟩ | ⟨-, hkd⟩
    · cases hk
    · rcases served_put hd' with ⟨-, rfl⟩ | ⟨-, hkd'⟩
      · cases hk'
      · exact hconn.distinct d d' k k' id hkd hkd' hk hk'

/-- The acceptor forgets no handler but that of a closed connection. -/
theorem Connected.mono {a a' : Acceptor} {served : Calls Served} {issued issued' : ℕ}
    (hconn : Connected a served issued) (haccepted : a'.accepted = a.accepted)
    (hhandled : ∀ c h, served c = some h → h.phase ≠ .closed → c ∈ a.handled → c ∈ a'.handled)
    (hissued : issued ≤ issued') : Connected a' served issued' where
  own := hconn.own
  known := fun d k hd => haccepted ▸ hconn.known d k hd
  handled := fun d k hd hk => hhandled d k hd hk (hconn.handled d k hd hk)
  drawn := fun d k id hd hk => by
    obtain ⟨n, hn, hid⟩ := hconn.drawn d k id hd hk
    exact ⟨n, hn.trans hissued, hid⟩
  distinct := hconn.distinct

/-- **A handler draws an ID** that no connection has, while the counter has not come round. -/
theorem Connected.draw {a : Acceptor} {served : Calls Served} {issued : ℕ}
    (hconn : Connected a served issued) {c : ℕ} {h : Served} (hc : served c = some h)
    (hissued : issued + 1 < 2 ^ 64) :
    Connected a (served.put c (some { h with sessionID := some (tempSessionID (issued + 1)) }))
      (issued + 1) := by
  have hown := hconn.own c h hc
  have hnew : ∀ {d k}, served d = some k → k.sessionID ≠ some (tempSessionID (issued + 1)) := by
    intro d k hd hk
    obtain ⟨n, hn, hid⟩ := hconn.drawn d k _ hd hk
    have := tempSessionID_injective hid hissued (by omega)
    omega
  refine ⟨fun d k hd => ?_, fun d k hd => ?_, fun d k hd hk => ?_, fun d k id hd hk => ?_,
    fun d d' k k' id hd hd' hk hk' => ?_⟩
  · rcases served_put hd with ⟨-, rfl⟩ | ⟨-, hd⟩
    · exact ⟨fun _ => rfl, hown.fresh, hown.unwatched, hown.ended⟩
    · exact hconn.own d k hd
  · rcases served_put hd with ⟨rfl, -⟩ | ⟨-, hd⟩
    · exact hconn.known d h hc
    · exact hconn.known d k hd
  · rcases served_put hd with ⟨rfl, rfl⟩ | ⟨-, hd⟩
    · exact hconn.handled d h hc hk
    · exact hconn.handled d k hd hk
  · rcases served_put hd with ⟨-, rfl⟩ | ⟨-, hd⟩
    · exact ⟨issued + 1, Nat.le_refl _, (Option.some.inj hk).symm⟩
    · obtain ⟨n, hn, hid⟩ := hconn.drawn d k id hd hk
      exact ⟨n, Nat.le_succ_of_le hn, hid⟩
  · rcases served_put hd with ⟨rfl, rfl⟩ | ⟨-, hkd⟩ <;>
      rcases served_put hd' with ⟨rfl, rfl⟩ | ⟨-, hkd'⟩
    · rfl
    · exact absurd (hk'.trans hk.symm) (hnew hkd')
    · exact absurd (hk.trans hk'.symm) (hnew hkd)
    · exact hconn.distinct d d' k k' id hkd hkd' hk hk'

/-- **What holds of the map**: its IDs are those of sessions that have been registered and not been
unregistered, and a registered session that runs is in it. -/
structure Tracks (served : Calls Served) (sessions : Finmap fun _ : Bytes => ℕ) : Prop where
  mapped : ∀ id c, sessions.lookup id = some c → ∃ h, served c = some h ∧ h.sessionID = some id
    ∧ (h.watcher = .waiting ∨ h.watcher = .woken)
  running : ∀ c h id, served c = some h → h.sessionID = some id → h.watcher = .waiting →
    h.session = .running → sessions.lookup id = some c

/-- The map stays right for the connections that do not go on, where it stays as it is for them. -/
theorem Tracks.put {served : Calls Served} {sessions sessions' : Finmap fun _ : Bytes => ℕ}
    (htracks : Tracks served sessions) {c : ℕ} {h h' : Served} (hc : served c = some h)
    (hid : h'.sessionID = h.sessionID)
    (hsame : ∀ id, h.sessionID ≠ some id → sessions'.lookup id = sessions.lookup id)
    (hdistinct : ∀ d k id, served d = some k → k.sessionID = some id → h.sessionID = some id →
      d = c)
    (hmapped : ∀ id d, h.sessionID = some id → sessions'.lookup id = some d →
      d = c ∧ (h'.watcher = .waiting ∨ h'.watcher = .woken))
    (hrunning : ∀ id, h.sessionID = some id → h'.watcher = .waiting → h'.session = .running →
      sessions'.lookup id = some c) :
    Tracks (served.put c (some h')) sessions' where
  mapped := fun id d hd => by
    by_cases hown : h.sessionID = some id
    · obtain ⟨rfl, hw⟩ := hmapped id d hown hd
      exact ⟨h', Calls.put_self _ _ _, hid.trans hown, hw⟩
    · rw [hsame id hown] at hd
      obtain ⟨k, hk, hkid, hkw⟩ := htracks.mapped id d hd
      refine ⟨k, (Calls.put_of_ne _ (fun hdc => hown ?_) _).trans hk, hkid, hkw⟩
      subst hdc
      rw [hc] at hk
      exact Option.some.inj hk ▸ hkid
  running := fun d k id hd hk hw hr => by
    rcases served_put hd with ⟨rfl, rfl⟩ | ⟨hdc, hd⟩
    · exact hrunning id (hid ▸ hk) hw hr
    · rw [hsame id fun hown => hdc (hdistinct d k id hd hk hown)]
      exact htracks.running d k id hd hk hw hr

/-- The map knows nothing of a connection without an ID. -/
theorem Tracks.fresh {served : Calls Served} {sessions : Finmap fun _ : Bytes => ℕ}
    (htracks : Tracks served sessions) {c : ℕ} {h' : Served}
    (hnone : ∀ h, served c = some h → h.sessionID = none) (hwatcher : h'.watcher = .absent) :
    Tracks (served.put c (some h')) sessions where
  mapped := fun id d hd => by
    obtain ⟨k, hk, hkid, hkw⟩ := htracks.mapped id d hd
    refine ⟨k, (Calls.put_of_ne _ (fun hdc => ?_) _).trans hk, hkid, hkw⟩
    rw [hnone k (hdc ▸ hk)] at hkid
    cases hkid
  running := fun d k id hd hk hw hr => by
    rcases served_put hd with ⟨-, rfl⟩ | ⟨-, hd⟩
    · rw [hwatcher] at hw
      cases hw
    · exact htracks.running d k id hd hk hw hr

namespace Registry

/-- **The invariant**: the connections and the map are as they should be, and `Stop` gets to the map
behind the `Stop` of the acceptor. -/
structure Inv (s : Registry) : Prop where
  acceptor : s.acceptor.Inv
  conns : Connected s.acceptor s.served s.issued
  tracks : Tracks s.served s.sessions
  stopped : s.locked = true ∨ s.emptied = true → s.acceptor.returned = true
  emptied : s.emptied = true → s.sessions = ∅

theorem inv_new (issued : ℕ) : (new issued).Inv where
  acceptor := Acceptor.inv_new
  conns :=
    { own := fun _ _ h => by cases h
      known := fun _ _ h => by cases h
      handled := fun _ _ h => by cases h
      drawn := fun _ _ _ h => by cases h
      distinct := fun _ _ _ _ _ h => by cases h }
  tracks :=
    { mapped := fun id c h => by
        rw [show (new issued).sessions = ∅ from rfl, Finmap.lookup_empty] at h
        cases h
      running := fun _ _ _ h => by cases h }
  stopped := fun h => by rcases h with h | h <;> cases h
  emptied := fun h => by cases h

variable {s s' : Registry}

/-- Behind the `Stop` of the acceptor every handler has returned. -/
theorem Inv.closed (hinv : s.Inv) (hret : s.acceptor.returned = true) {c : ℕ} {h : Served}
    (hc : s.served c = some h) : h.phase = .closed := by
  by_contra hphase
  have hmem := hinv.conns.handled c h hc hphase
  rw [(hinv.acceptor.quiet hret).2.1] at hmem
  exact absurd hmem List.not_mem_nil

/-- The session of an ID in the map is that of the connection with the ID. -/
theorem Inv.mapped_eq (hinv : s.Inv) {c d : ℕ} {h : Served} {id : Bytes} (hc : s.served c = some h)
    (hid : h.sessionID = some id) (hd : s.sessions.lookup id = some d) : d = c := by
  obtain ⟨h', hd', hid', -⟩ := hinv.tracks.mapped id d hd
  exact hinv.conns.distinct d c h' h id hd' hc hid' hid

/-- **A connection goes on**, and keeps its place in the map. -/
theorem Inv.goOn (hinv : s.Inv) {c : ℕ} {h h' : Served} (hc : s.served c = some h) (hown : h'.Inv)
    (hid : h'.sessionID = h.sessionID) (hphase : h'.phase ≠ .closed → h.phase ≠ .closed)
    (hwatched : h.watcher = .waiting ∨ h.watcher = .woken →
      h'.watcher = .waiting ∨ h'.watcher = .woken)
    (hrunning : h'.watcher = .waiting → h'.session = .running →
      h.watcher = .waiting ∧ h.session = .running) :
    ({ s with served := s.served.put c (some h') } : Registry).Inv where
  acceptor := hinv.acceptor
  conns := hinv.conns.put hc hown hid hphase
  tracks := by
    refine hinv.tracks.put hc hid (fun _ _ => rfl)
      (fun d k id hd hk hown => hinv.conns.distinct d c k h id hd hc hk hown)
      (fun id d hown hd => ?_) fun id hown hw hr => ?_
    · have hdc := hinv.mapped_eq hc hown hd
      obtain ⟨k, hk, -, hkw⟩ := hinv.tracks.mapped id d hd
      rw [hdc, hc] at hk
      exact ⟨hdc, hwatched (Option.some.inj hk ▸ hkw)⟩
    · obtain ⟨hw', hr'⟩ := hrunning hw hr
      exact hinv.tracks.running c h id hc hown hw' hr'
  stopped := hinv.stopped
  emptied := hinv.emptied

/-- **A session is entered in the map**, as none is any more behind the `Stop` of the acceptor. -/
theorem Inv.enter (hinv : s.Inv) {c : ℕ} {h : Served} {id : Bytes} (hc : s.served c = some h)
    (hid : h.sessionID = some id) (hphase : h.phase = .attached) :
    ({ s with served := s.served.put c (some { h with phase := .returned, watcher := .waiting })
              sessions := s.sessions.insert id c } : Registry).Inv where
  acceptor := hinv.acceptor
  conns := by
    have hown := hinv.conns.own c h hc
    refine hinv.conns.put hc ⟨fun _ => hown.named ?_, nofun, ?_, ?_⟩ rfl fun _ => ?_
    · rw [hphase]
      decide
    · simp
    · simp
    · rw [hphase]
      decide
  tracks := by
    refine hinv.tracks.put hc rfl (fun id' hne => Finmap.lookup_insert_of_ne _ fun heq => ?_)
      (fun d k id' hd hk hown => hinv.conns.distinct d c k h id' hd hc hk hown)
      (fun id' d hown hd => ?_) fun id' hown _ _ => ?_
    · exact hne (heq ▸ hid)
    · rw [hid] at hown
      cases hown
      rw [Finmap.lookup_insert] at hd
      exact ⟨(Option.some.inj hd).symm, Or.inl rfl⟩
    · rw [hid] at hown
      cases hown
      exact Finmap.lookup_insert _
  stopped := hinv.stopped
  emptied := fun hempty => by
    rw [hinv.closed (hinv.stopped (Or.inr hempty)) hc] at hphase
    cases hphase

/-- **A session is removed from the map**, when it has ended. -/
theorem Inv.leave (hinv : s.Inv) {c : ℕ} {h h' : Served} {id : Bytes} (hc : s.served c = some h)
    (hid : h.sessionID = some id) (hown : h'.Inv) (hid' : h'.sessionID = h.sessionID)
    (hphase : h'.phase = h.phase) (hended : h'.session = .ended) :
    ({ s with served := s.served.put c (some h'), sessions := s.sessions.erase id }
      : Registry).Inv where
  acceptor := hinv.acceptor
  conns := hinv.conns.put hc hown hid' (hphase ▸ fun h => h)
  tracks := by
    refine hinv.tracks.put hc hid' (fun id' hne => Finmap.lookup_erase_ne fun heq => ?_)
      (fun d k id' hd hk hown => hinv.conns.distinct d c k h id' hd hc hk hown)
      (fun id' d hown hd => ?_) fun id' hown _ hr => ?_
    · exact hne (heq ▸ hid)
    · rw [hid] at hown
      cases hown
      rw [Finmap.lookup_erase] at hd
      cases hd
    · rw [hended] at hr
      cases hr
  stopped := hinv.stopped
  emptied := fun hempty => by
    rw [hinv.emptied hempty]
    rfl

/-- **What `remove` does** to an ID in the map: the session of its connection is ended. -/
theorem Inv.remove_eq (hinv : s.Inv) {c : ℕ} {id : Bytes} (hd : s.sessions.lookup id = some c) :
    ∃ h, s.served c = some h ∧ h.sessionID = some id
      ∧ (h.watcher = .waiting ∨ h.watcher = .woken)
      ∧ s.remove id
        = { s with served := s.served.put c (some h.close), sessions := s.sessions.erase id } := by
  obtain ⟨h, hc, hid, hw⟩ := hinv.tracks.mapped id c hd
  refine ⟨h, hc, hid, hw, ?_⟩
  rw [remove, hd]
  dsimp only [closeEngine]
  rw [hc]
  rfl

theorem step_acceptor {x : AcceptorAction} (hstep : s.step (.acceptor x) = some s') :
    s.Returns x ∧ ∃ a, s.acceptor.step x = some a
      ∧ s' = { s with acceptor := a, served := s.follow x } := by
  obtain ⟨-, hact⟩ := Option.ite_none_left_eq_some.mp hstep
  obtain ⟨hret, hmap⟩ := Option.ite_none_right_eq_some.mp hact
  obtain ⟨a, ha, heq⟩ := Option.map_eq_some_iff.mp hmap
  exact ⟨hret, a, ha, heq.symm⟩

theorem step_generate {c : ℕ} (hstep : s.step (.generate c) = some s') :
    ∃ h, s.served c = some h ∧ h.phase = .handling ∧ h.sessionID = none
      ∧ s' = { s with
        served := s.served.put c (some { h with sessionID := some (tempSessionID (s.issued + 1)) })
        issued := s.issued + 1 } := by
  obtain ⟨-, hact⟩ := Option.ite_none_left_eq_some.mp hstep
  obtain ⟨h, hc, hgo⟩ := Option.bind_eq_some_iff.mp hact
  obtain ⟨⟨hphase, hnone⟩, rfl⟩ := Runs.of_guarded hgo
  exact ⟨h, hc, hphase, hnone, rfl⟩

theorem step_attach {c : ℕ} (hstep : s.step (.attach c) = some s') :
    ∃ h, s.served c = some h ∧ h.phase = .handling ∧ h.sessionID.isSome
      ∧ s' = { s with
        served := s.served.put c (some { h with phase := .attached, session := .running }) } := by
  obtain ⟨-, hact⟩ := Option.ite_none_left_eq_some.mp hstep
  obtain ⟨h, hc, hgo⟩ := Option.bind_eq_some_iff.mp hact
  obtain ⟨⟨hphase, hsome⟩, rfl⟩ := Runs.of_guarded hgo
  exact ⟨h, hc, hphase, hsome, rfl⟩

theorem step_register {c : ℕ} (hstep : s.step (.register c) = some s') :
    ∃ h id, s.served c = some h ∧ h.phase = .attached ∧ h.sessionID = some id
      ∧ s' = { s with
        served := s.served.put c (some { h with phase := .returned, watcher := .waiting })
        sessions := s.sessions.insert id c } := by
  obtain ⟨-, hact⟩ := Option.ite_none_left_eq_some.mp hstep
  obtain ⟨h, hc, hgo⟩ := Option.bind_eq_some_iff.mp hact
  split at hgo
  · next id hphase hid _ =>
    cases hgo
    exact ⟨h, id, hc, hphase, hid, rfl⟩
  · cases hgo

theorem step_endSession {c : ℕ} (hstep : s.step (.endSession c) = some s') :
    ∃ h, s.served c = some h ∧ h.session = .running
      ∧ s' = { s with served := s.served.put c (some h.close) } := by
  obtain ⟨-, hact⟩ := Option.ite_none_left_eq_some.mp hstep
  obtain ⟨h, hc, hgo⟩ := Option.bind_eq_some_iff.mp hact
  obtain ⟨hrun, rfl⟩ := Runs.of_guarded hgo
  exact ⟨h, hc, hrun, rfl⟩

theorem step_wake {c : ℕ} (hstep : s.step (.wake c) = some s') :
    ∃ h, s.served c = some h ∧ h.watcher = .waiting ∧ h.session = .ended
      ∧ s' = { s with served := s.served.put c (some { h with watcher := .woken }) } := by
  obtain ⟨-, hact⟩ := Option.ite_none_left_eq_some.mp hstep
  obtain ⟨h, hc, hgo⟩ := Option.bind_eq_some_iff.mp hact
  obtain ⟨⟨hw, hended⟩, rfl⟩ := Runs.of_guarded hgo
  exact ⟨h, hc, hw, hended, rfl⟩

/-- **`unregisterSession` finds only the session it is called for**, which has ended. -/
theorem Inv.step_unregister (hinv : s.Inv) {c : ℕ} (hstep : s.step (.unregister c) = some s') :
    ∃ h id, s.served c = some h ∧ h.watcher = .woken ∧ h.sessionID = some id
      ∧ s' = { s with
        served := s.served.put c (some { h with watcher := .done })
        sessions := s.sessions.erase id } := by
  obtain ⟨-, hact⟩ := Option.ite_none_left_eq_some.mp hstep
  obtain ⟨h, hc, hgo⟩ := Option.bind_eq_some_iff.mp hact
  split at hgo
  · next id hw hid _ =>
    cases hgo
    refine ⟨h, id, hc, hw, hid, ?_⟩
    unfold remove
    dsimp only
    split
    · next d hd =>
      obtain rfl := hinv.mapped_eq hc hid hd
      have hended := (hinv.conns.own d h hc).ended (Or.inl hw)
      unfold closeEngine
      dsimp only
      rw [Calls.put_self, Option.map_some, Calls.put_put, Served.close]
      dsimp only
      rw [← hended]
    · next hnone =>
      congr 1
      refine Finmap.ext_lookup fun id' => ?_
      by_cases heq : id' = id
      · rw [heq, Finmap.lookup_erase, hnone]
      · rw [Finmap.lookup_erase_ne heq]
  · cases hgo

theorem step_lock (hstep : s.step .lock = some s') :
    s.acceptor.returned = true ∧ s.emptied = false ∧ s' = { s with locked := true } := by
  obtain ⟨-, hact⟩ := Option.ite_none_left_eq_some.mp hstep
  obtain ⟨⟨hret, -, -, hempty⟩, rfl⟩ := Runs.of_guarded hact
  exact ⟨hret, hempty, rfl⟩

theorem step_clear {id : Bytes} (hstep : s.step (.clear id) = some s') :
    s.locked = true ∧ ∃ c, s.sessions.lookup id = some c ∧ s' = s.remove id := by
  obtain ⟨-, hact⟩ := Option.ite_none_left_eq_some.mp hstep
  obtain ⟨⟨hlocked, hmem⟩, rfl⟩ := Runs.of_guarded hact
  obtain ⟨c, hc⟩ := Finmap.mem_iff.mp hmem
  exact ⟨hlocked, c, hc, rfl⟩

theorem step_release (hstep : s.step .release = some s') :
    s.locked = true ∧ s.sessions = ∅ ∧ s' = { s with locked := false, emptied := true } := by
  obtain ⟨-, hact⟩ := Option.ite_none_left_eq_some.mp hstep
  obtain ⟨⟨hlocked, hkeys⟩, rfl⟩ := Runs.of_guarded hact
  refine ⟨hlocked, Finmap.ext_lookup fun id => ?_, rfl⟩
  rw [Finmap.lookup_empty, Finmap.lookup_eq_none, ← Finmap.mem_keys, hkeys]
  exact Finset.notMem_empty id

/-- **A step of the acceptor keeps the invariant.** -/
theorem Inv.step_acceptor (hinv : s.Inv) {x : AcceptorAction} {a : Acceptor} (hret : s.Returns x)
    (ha : s.acceptor.step x = some a) :
    ({ s with acceptor := a, served := s.follow x } : Registry).Inv := by
  have hconns := Acceptor.step_conns ha
  have hstopped : s.locked = true ∨ s.emptied = true → a.returned = true := fun h =>
    (Acceptor.returned_step hinv.acceptor (hinv.stopped h) ha).1
  have hsame : ∀ {served : Calls Served}, a.handled = s.acceptor.handled →
      ∀ c h, served c = some h → h.phase ≠ .closed → c ∈ s.acceptor.handled → c ∈ a.handled :=
    fun heq _ _ _ _ hmem => heq ▸ hmem
  cases x with
  | accept i =>
    refine ⟨hinv.acceptor.step ha, hinv.conns.accept hconns.1 hconns.2,
      hinv.tracks.fresh (fun h hc => ?_) rfl, hstopped, hinv.emptied⟩
    exact absurd (hinv.conns.known _ h hc) (lt_irrefl _)
  | close c =>
    obtain ⟨hc, hphase⟩ := Option.map_eq_some_iff.mp hret
    have hgo : ({ s with
        served := s.served.put c (some { hc with phase := .closed }) } : Registry).Inv :=
      hinv.goOn hphase.1 ?_ rfl (fun h => absurd rfl h) (fun h => h) (fun hw hr => ⟨hw, hr⟩)
    · have heq : s.follow (.close c) = s.served.put c (some { hc with phase := .closed }) := by
        rw [follow, hphase.1]
        rfl
      rw [heq]
      refine ⟨hinv.acceptor.step ha, hgo.conns.mono hconns.2.2 (fun d h hd hopen hmem => ?_)
        (Nat.le_refl _), hgo.tracks, hstopped, hinv.emptied⟩
      rcases served_put hd with ⟨-, rfl⟩ | ⟨hdc, -⟩
      · exact absurd rfl hopen
      · rw [hconns.2.1]
        exact (List.mem_erase_of_ne hdc).mpr hmem
    · have hown := hinv.conns.own c hc hphase.1
      refine ⟨fun _ => hown.named (by rw [hphase.2]; decide), nofun, ?_, hown.ended⟩
      have hw := hown.unwatched
      rw [hphase.2] at hw
      simpa using hw
  | start | check | acceptError | done | stop | closeListener | stopped =>
    exact ⟨hinv.acceptor.step ha, hinv.conns.mono hconns.2 (hsame hconns.1) (Nat.le_refl _),
      hinv.tracks, hstopped, hinv.emptied⟩

/-- **Every step keeps the invariant**, so long as the counter has not come round. -/
theorem Inv.step (hinv : s.Inv) {x : RegistryAction} (hstep : s.step x = some s')
    (hissued : s'.issued < 2 ^ 64) : s'.Inv := by
  cases x with
  | acceptor x =>
    obtain ⟨hret, a, ha, rfl⟩ := Registry.step_acceptor hstep
    exact hinv.step_acceptor hret ha
  | generate c =>
    obtain ⟨h, hc, hphase, hnone, rfl⟩ := step_generate hstep
    refine ⟨hinv.acceptor, hinv.conns.draw hc hissued, hinv.tracks.fresh (fun k hk => ?_) ?_,
      hinv.stopped, hinv.emptied⟩
    · rw [hc] at hk
      exact Option.some.inj hk ▸ hnone
    · exact (hinv.conns.own c h hc).unwatched.mp (Or.inl hphase)
  | generateElsewhere =>
    obtain ⟨-, hact⟩ := Option.ite_none_left_eq_some.mp hstep
    cases hact
    exact ⟨hinv.acceptor, hinv.conns.mono rfl (fun _ _ _ _ hmem => hmem) (Nat.le_succ _),
      hinv.tracks, hinv.stopped, hinv.emptied⟩
  | attach c =>
    obtain ⟨h, hc, hphase, hsome, rfl⟩ := step_attach hstep
    have hw := (hinv.conns.own c h hc).unwatched.mp (Or.inl hphase)
    refine hinv.goOn hc ⟨fun _ => hsome, nofun, ?_, ?_⟩ rfl (fun _ => ?_) ?_ ?_
    · simp [hw]
    · simp [hw]
    · rw [hphase]
      decide
    · simp [hw]
    · simp [hw]
  | register c =>
    obtain ⟨h, id, hc, hphase, hid, rfl⟩ := step_register hstep
    exact hinv.enter hc hid hphase
  | endSession c =>
    obtain ⟨h, hc, hrun, rfl⟩ := step_endSession hstep
    have hown := hinv.conns.own c h hc
    refine hinv.goOn hc ⟨hown.named, fun hphase => ?_, hown.unwatched, fun _ => rfl⟩ rfl
      (fun h => h) (fun h => h) nofun
    have hfresh := hown.fresh hphase
    rw [hrun] at hfresh
    cases hfresh
  | wake c =>
    obtain ⟨h, hc, hw, hended, rfl⟩ := step_wake hstep
    have hown := hinv.conns.own c h hc
    refine hinv.goOn hc ⟨hown.named, hown.fresh, ?_, fun _ => hended⟩ rfl (fun h => h)
      (fun _ => Or.inr rfl) nofun
    have hunwatched := hown.unwatched
    rw [hw] at hunwatched
    simpa using hunwatched
  | unregister c =>
    obtain ⟨h, id, hc, hw, hid, rfl⟩ := hinv.step_unregister hstep
    have hown := hinv.conns.own c h hc
    have hended := hown.ended (Or.inl hw)
    refine hinv.leave hc hid ⟨hown.named, hown.fresh, ?_, fun _ => hended⟩ rfl rfl hended
    have hunwatched := hown.unwatched
    rw [hw] at hunwatched
    simpa using hunwatched
  | lock =>
    obtain ⟨hret, -, rfl⟩ := step_lock hstep
    exact ⟨hinv.acceptor, hinv.conns, hinv.tracks, fun _ => hret, hinv.emptied⟩
  | clear id =>
    obtain ⟨-, c, hlookup, rfl⟩ := step_clear hstep
    obtain ⟨h, hc, hid, hw, heq⟩ := hinv.remove_eq hlookup
    have hown := hinv.conns.own c h hc
    rw [heq]
    refine hinv.leave hc hid ⟨hown.named, fun hphase => ?_, hown.unwatched, fun _ => rfl⟩ rfl rfl
      rfl
    have hnone := hown.unwatched.mp (Or.inl hphase)
    rcases hw with hw | hw <;> rw [hw] at hnone <;> cases hnone
  | release =>
    obtain ⟨hlocked, hempty, rfl⟩ := step_release hstep
    exact ⟨hinv.acceptor, hinv.conns, hinv.tracks, fun _ => hinv.stopped (Or.inl hlocked),
      fun _ => hempty⟩

/-- What a step leaves alone: the counter is only incremented, the acceptor takes its own steps, and
a `Stop` that has returned stays so. -/
structure Frame (s s' : Registry) (x : RegistryAction) : Prop where
  issued : s.issued ≤ s'.issued
  acceptor : (∀ y, x ≠ .acceptor y) → s'.acceptor = s.acceptor
  emptied : s.emptied = true → s'.emptied = true

theorem frame_remove (s : Registry) (id : Bytes) (x : RegistryAction) :
    Frame s (s.remove id) x := by
  unfold remove
  split <;> exact ⟨Nat.le_refl _, fun _ => rfl, fun h => h⟩

theorem frame {x : RegistryAction} (hstep : s.step x = some s') : Frame s s' x := by
  cases x with
  | acceptor x =>
    obtain ⟨-, a, -, rfl⟩ := Registry.step_acceptor hstep
    exact ⟨Nat.le_refl _, fun h => absurd rfl (h x), fun h => h⟩
  | generate c =>
    obtain ⟨h, -, -, -, rfl⟩ := step_generate hstep
    exact ⟨Nat.le_succ _, fun _ => rfl, fun h => h⟩
  | generateElsewhere =>
    obtain ⟨-, hact⟩ := Option.ite_none_left_eq_some.mp hstep
    cases hact
    exact ⟨Nat.le_succ _, fun _ => rfl, fun h => h⟩
  | attach c =>
    obtain ⟨h, -, -, -, rfl⟩ := step_attach hstep
    exact ⟨Nat.le_refl _, fun _ => rfl, fun h => h⟩
  | register c =>
    obtain ⟨h, id, -, -, -, rfl⟩ := step_register hstep
    exact ⟨Nat.le_refl _, fun _ => rfl, fun h => h⟩
  | endSession c =>
    obtain ⟨h, -, -, rfl⟩ := step_endSession hstep
    exact ⟨Nat.le_refl _, fun _ => rfl, fun h => h⟩
  | wake c =>
    obtain ⟨h, -, -, -, rfl⟩ := step_wake hstep
    exact ⟨Nat.le_refl _, fun _ => rfl, fun h => h⟩
  | unregister c =>
    obtain ⟨-, hact⟩ := Option.ite_none_left_eq_some.mp hstep
    obtain ⟨h, hc, hgo⟩ := Option.bind_eq_some_iff.mp hact
    split at hgo
    · cases hgo
      obtain ⟨hissued, hacceptor, hemptied⟩ := frame_remove _ _ (.unregister c)
      exact ⟨hissued, hacceptor, hemptied⟩
    · cases hgo
  | lock =>
    obtain ⟨-, -, rfl⟩ := step_lock hstep
    exact ⟨Nat.le_refl _, fun _ => rfl, fun h => h⟩
  | clear id =>
    obtain ⟨-, c, -, rfl⟩ := step_clear hstep
    exact frame_remove s id _
  | release =>
    obtain ⟨-, -, rfl⟩ := step_release hstep
    exact ⟨Nat.le_refl _, fun _ => rfl, fun _ => rfl⟩

/-- **Once the acceptor has stopped it accepts no more.** -/
theorem Inv.returned_step (hinv : s.Inv) {x : RegistryAction} (hstep : s.step x = some s')
    (hret : s.acceptor.returned = true) :
    s'.acceptor.returned = true ∧ s'.acceptor.accepted = s.acceptor.accepted := by
  by_cases hx : ∃ y, x = .acceptor y
  · obtain ⟨y, rfl⟩ := hx
    obtain ⟨-, a, ha, rfl⟩ := Registry.step_acceptor hstep
    exact Acceptor.returned_step hinv.acceptor hret ha
  · rw [(frame hstep).acceptor fun y hy => hx ⟨y, hy⟩]
    exact ⟨hret, rfl⟩

end Registry

end FixMsg
