import AnyPlayerSync.Sync.Model
import Mathlib.Logic.Function.Basic

/-!
# Update channels

`state.rs`: the map from a user to the sender of that user's broadcast channel, with the two phases
of `send_user_event` as separate steps, since the read lock is released between them. A channel is
known by a number, counted per user, so that a receiver whose channel left the map stays visible.
Following `tokio`, a send reaches every live receiver of the channel and fails when there is none.
-/

set_option autoImplicit false

namespace AnyPlayerSync.Sync

/-- The receiving end held by one WebSocket connection: its channel, whether the connection still
holds it, and the events sent to it so far, oldest first. -/
structure Receiver where
  channel : Nat
  live : Bool
  events : List UpdateEvent

/-- Give an event to a receiver of the channel. -/
def Receiver.push (channel : Nat) (event : UpdateEvent) (r : Receiver) : Receiver :=
  if r.live && r.channel == channel then { r with events := r.events ++ [event] } else r

/-- `user_channels` and the receivers that were handed out. `created` counts a user's channels. -/
structure Hub where
  userChannels : UserId → Option Nat
  created : UserId → Nat
  receivers : UserId → List Receiver

namespace Hub

/-- No channels and no receivers. -/
def empty : Hub where
  userChannels _ := none
  created _ := 0
  receivers _ := []

/-- `receiver_count` of a user's channel. -/
def receiverCount (hub : Hub) (user : UserId) (channel : Nat) : Nat :=
  ((hub.receivers user).filter fun r => r.live && r.channel == channel).length

/-- `subscribe_user`, under the write lock. -/
def subscribeUser (hub : Hub) (user : UserId) : Hub :=
  match hub.userChannels user with
  | some channel =>
      { hub with
        receivers := Function.update hub.receivers user
          (hub.receivers user ++ [⟨channel, true, []⟩]) }
  | none =>
      { userChannels := Function.update hub.userChannels user (some (hub.created user))
        created := Function.update hub.created user (hub.created user + 1)
        receivers := Function.update hub.receivers user
          (hub.receivers user ++ [⟨hub.created user, true, []⟩]) }

/-- First phase of `send_user_event`, under the read lock. The flag asks for the cleanup. -/
def sendUserEvent (hub : Hub) (user : UserId) (event : UpdateEvent) : Hub × Bool :=
  match hub.userChannels user with
  | none => (hub, false)
  -- `sender.send` fails exactly when no receiver is left
  | some channel =>
      if hub.receiverCount user channel = 0 then (hub, true)
      else
        ({ hub with
            receivers := Function.update hub.receivers user
              ((hub.receivers user).map (Receiver.push channel event)) }, false)

/-- Second phase of `send_user_event`, under the write lock: the count is read again, since a
receiver may have subscribed after the read lock was released. -/
def cleanupUser (hub : Hub) (user : UserId) : Hub :=
  match hub.userChannels user with
  | none => hub
  | some channel =>
      if hub.receiverCount user channel = 0 then
        { hub with userChannels := Function.update hub.userChannels user none }
      else hub

/-- The connection task ends and drops its receiver. -/
def dropReceiver (hub : Hub) (user : UserId) (i : Nat) : Hub :=
  { hub with
    receivers := Function.update hub.receivers user
      ((hub.receivers user).modify i fun r => { r with live := false }) }

/-! ## Other users are untouched -/

/-- A user's part of the hub. -/
def userView (hub : Hub) (user : UserId) : Option Nat × Nat × List Receiver :=
  (hub.userChannels user, hub.created user, hub.receivers user)

variable {hub hub' : Hub} {user other : UserId}

theorem userView_eq_iff :
    hub.userView user = hub'.userView user ↔
      hub.userChannels user = hub'.userChannels user ∧ hub.created user = hub'.created user ∧
        hub.receivers user = hub'.receivers user := by
  simp [userView]

theorem receiverCount_congr (h : hub.userView user = hub'.userView user) (channel : Nat) :
    hub.receiverCount user channel = hub'.receiverCount user channel := by
  obtain ⟨-, -, h3⟩ := userView_eq_iff.1 h
  rw [receiverCount, receiverCount, h3]

theorem subscribeUser_own (h : hub.userView user = hub'.userView user) :
    (hub.subscribeUser user).userView user = (hub'.subscribeUser user).userView user := by
  obtain ⟨h1, h2, h3⟩ := userView_eq_iff.1 h
  rw [subscribeUser, subscribeUser, h1]
  cases hub'.userChannels user <;> simp [userView, h1, h2, h3]

theorem subscribeUser_other (h : other ≠ user) :
    (hub.subscribeUser user).userView other = hub.userView other := by
  rw [subscribeUser]
  cases hub.userChannels user <;> simp [userView, Function.update_of_ne h]

theorem sendUserEvent_own (h : hub.userView user = hub'.userView user) (event : UpdateEvent) :
    (hub.sendUserEvent user event).1.userView user =
        (hub'.sendUserEvent user event).1.userView user ∧
      (hub.sendUserEvent user event).2 = (hub'.sendUserEvent user event).2 := by
  obtain ⟨h1, h2, h3⟩ := userView_eq_iff.1 h
  rw [sendUserEvent, sendUserEvent, h1]
  cases hub'.userChannels user with
  | none => exact ⟨h, rfl⟩
  | some channel =>
      -- both hubs count the same receivers, so they take the same branch
      simp only [receiverCount_congr h channel]
      split_ifs
      · exact ⟨h, rfl⟩
      · exact ⟨by simp [userView, h1, h2, h3], rfl⟩

theorem sendUserEvent_other (h : other ≠ user) (event : UpdateEvent) :
    (hub.sendUserEvent user event).1.userView other = hub.userView other := by
  rw [sendUserEvent]
  cases hub.userChannels user with
  | none => rfl
  | some channel =>
      simp only
      split_ifs
      · rfl
      · simp [userView, Function.update_of_ne h]

theorem cleanupUser_own (h : hub.userView user = hub'.userView user) :
    (hub.cleanupUser user).userView user = (hub'.cleanupUser user).userView user := by
  obtain ⟨h1, h2, h3⟩ := userView_eq_iff.1 h
  rw [cleanupUser, cleanupUser, h1]
  cases hub'.userChannels user with
  | none => exact h
  | some channel =>
      simp only [receiverCount_congr h channel]
      split_ifs
      · simp [userView, h2, h3]
      · exact h

theorem cleanupUser_other (h : other ≠ user) :
    (hub.cleanupUser user).userView other = hub.userView other := by
  rw [cleanupUser]
  cases hub.userChannels user with
  | none => rfl
  | some channel =>
      simp only
      split_ifs
      · simp [userView, Function.update_of_ne h]
      · rfl

theorem dropReceiver_own (h : hub.userView user = hub'.userView user) (i : Nat) :
    (hub.dropReceiver user i).userView user = (hub'.dropReceiver user i).userView user := by
  obtain ⟨h1, h2, h3⟩ := userView_eq_iff.1 h
  simp [dropReceiver, userView, h1, h2, h3]

theorem dropReceiver_other (h : other ≠ user) (i : Nat) :
    (hub.dropReceiver user i).userView other = hub.userView other := by
  simp [dropReceiver, userView, Function.update_of_ne h]

end Hub

end AnyPlayerSync.Sync
