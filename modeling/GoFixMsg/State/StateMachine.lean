import GoFixMsg.GoLang.Strconv

/-!
# State/StateMachine — the states of a session and the events between them

`OnEvent` looks the event up at the current state, changes the state where there is a transition,
and returns whether there was one.  Only `disconnected` is taken in every state.  A session that
connects waits for a Logon, and the one that arrives makes it Active.  From there it goes by an
event of its own side, `logout` or `disconnect`; a Logout of the peer has no transition at Active,
and leaves the state as it is.
-/

namespace FixMsg

/-- The predefined states. -/
inductive State where
  | disconnected
  | connecting
  | logonInProgress
  | awaitingLogon
  | active
  | logoutInProgress
  | reconnecting
  deriving DecidableEq

/-- The predefined events, and every other text. -/
inductive StateEvent where
  | connect
  | connected
  | clientAccepted
  | logonSent
  | logonReceived
  | logonFailed
  | logout
  | logoutComplete
  | logoutReceived
  | disconnect
  | disconnected
  | initiateReconnect
  | reconnectFailedMax
  | giveup
  | undefined (event : Bytes)
  deriving DecidableEq

namespace State

/-- The transitions defined at a state, the global event apart. -/
def transition : State → StateEvent → Option State
  | .disconnected, .connect => some .connecting
  | .disconnected, .logoutReceived | .disconnected, .logonReceived => some .disconnected
  | .connecting, .connected | .connecting, .clientAccepted => some .awaitingLogon
  | .awaitingLogon, .logonSent => some .logonInProgress
  | .awaitingLogon, .logonReceived => some .active
  | .logonInProgress, .logonReceived => some .active
  | .logonInProgress, .logonFailed => some .reconnecting
  | .active, .logout => some .logoutInProgress
  | .active, .disconnect => some .reconnecting
  | .logoutInProgress, .logoutComplete | .logoutInProgress, .logoutReceived => some .disconnected
  | .reconnecting, .connected => some .awaitingLogon
  | .reconnecting, .initiateReconnect => some .reconnecting
  | .reconnecting, .reconnectFailedMax | .reconnecting, .giveup => some .disconnected
  | _, _ => none

/-- `OnEvent`: the state afterwards, and whether a transition was defined.  An event without one
leaves the state as it is. -/
def onEvent (s : State) (event : StateEvent) : State × Bool :=
  if event = .disconnected then (.disconnected, true)
  else
    match s.transition event with
    | some next => (next, true)
    | none => (s, false)

end State

end FixMsg
