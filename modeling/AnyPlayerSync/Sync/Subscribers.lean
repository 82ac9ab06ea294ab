import AnyPlayerSync.Sync.Server

/-!
# Subscribers are never orphaned

`subscribe_user`, `send_user_event` and the drops of receivers by themselves, for any number of
users and of sends. The two phases of a send are two steps: the first runs under the read lock and
decides on the cleanup, the second takes the write lock later, and subscriptions and drops may fall
between them.

A live receiver listens on the channel that the map holds for its user (`Hub.Attached`), whatever
the interleaving, so that the channels may be forgotten altogether: every connection has a mailbox,
and a send puts its event into each mailbox of the user that is open (`run_mailboxes`).
-/

set_option autoImplicit false

namespace AnyPlayerSync.Sync

open AnyPlayerSync.Foundation

/-! ## The machine -/

/-- A `send_user_event` call after its first phase: the cleanup is still to come, or it is over. -/
inductive SendState where
  | cleaning (user : UserId)
  | returned

/-- The channels and the sends that are not over. -/
structure Channels where
  hub : Hub
  sends : Nat → Option SendState

/-- A scheduling choice. -/
inductive ChannelAction where
  | subscribe (user : UserId)
  | send (id : Nat) (user : UserId) (event : UpdateEvent)
  | cleanup (id : Nat)
  | drop (user : UserId) (receiver : Nat)

/-- What a step tells. -/
inductive ChannelEvent where
  | subscribed (user : UserId)
  | sent (user : UserId) (event : UpdateEvent)
  | cleaned (user : UserId)
  | dropped (user : UserId) (receiver : Nat)

/-- One step of the channels. -/
def channelStep (s : Channels) : ChannelAction → Option (Channels × ChannelEvent)
  | .subscribe user => some ({ s with hub := s.hub.subscribeUser user }, .subscribed user)
  | .send id user event =>
      match s.sends id with
      | some _ => none
      | none =>
          let (hub, shouldCleanup) := s.hub.sendUserEvent user event
          let next := if shouldCleanup then .cleaning user else .returned
          some (⟨hub, Function.update s.sends id (some next)⟩, .sent user event)
  | .cleanup id =>
      match s.sends id with
      | some (.cleaning user) =>
          some (⟨s.hub.cleanupUser user, Function.update s.sends id (some .returned)⟩,
            .cleaned user)
      | _ => none
  | .drop user receiver =>
      some ({ s with hub := s.hub.dropReceiver user receiver }, .dropped user receiver)

/-- The channels, started without any. -/
def channels : Machine Channels ChannelAction ChannelEvent where
  init := ⟨Hub.empty, fun _ => none⟩
  step := channelStep

/-- What a step does to the hub. -/
def hubAfter (hub : Hub) : ChannelEvent → Hub
  | .subscribed user => hub.subscribeUser user
  | .sent user event => (hub.sendUserEvent user event).1
  | .cleaned user => hub.cleanupUser user
  | .dropped user receiver => hub.dropReceiver user receiver

theorem channelStep_hub {s s' : Channels} {a : ChannelAction} {e : ChannelEvent}
    (h : channelStep s a = some (s', e)) : s'.hub = hubAfter s.hub e := by
  cases a with
  | subscribe user => cases h; rfl
  | send id user event =>
      cases hs : s.sends id <;> simp only [channelStep, hs] at h <;> cases h
      rfl
  | cleanup id =>
      cases hs : s.sends id with
      | none => simp only [channelStep, hs] at h; cases h
      | some call => cases call <;> simp only [channelStep, hs] at h <;> cases h; rfl
  | drop user receiver => cases h; rfl

/-! ## Live receivers stay attached -/

/-- The receiver after an event has been queued for it, if it is live. -/
def Receiver.enqueue (event : UpdateEvent) (r : Receiver) : Receiver :=
  if r.live = true then { r with events := r.events ++ [event] } else r

/-- Each live receiver listens on the channel that the map holds for its user. -/
def Hub.Attached (hub : Hub) : Prop :=
  ∀ user, ∀ r ∈ hub.receivers user, r.live = true → hub.userChannels user = some r.channel

namespace Hub

variable {hub : Hub} {user : UserId}

theorem receiverCount_eq_zero {channel : Nat} :
    hub.receiverCount user channel = 0 ↔
      ∀ r ∈ hub.receivers user, r.live = true → r.channel ≠ channel := by
  rw [receiverCount, List.length_eq_zero_iff, List.filter_eq_nil_iff]
  simp

/-- What the operations on one user's channel leave to show: the other users' part is as it was. -/
theorem Attached.of_other {hub' : Hub} (ha : hub.Attached)
    (hother : ∀ other, other ≠ user → hub'.userView other = hub.userView other)
    (hown : ∀ r ∈ hub'.receivers user, r.live = true → hub'.userChannels user = some r.channel) :
    hub'.Attached := by
  intro other r hr hlive
  by_cases h : other = user
  · subst h
    exact hown r hr hlive
  · obtain ⟨h1, -, h3⟩ := userView_eq_iff.1 (hother other h)
    rw [h3] at hr
    rw [h1]
    exact ha other r hr hlive

theorem Attached.subscribeUser (ha : hub.Attached) : (hub.subscribeUser user).Attached := by
  apply ha.of_other fun other h => subscribeUser_other h
  intro r hr hlive
  cases hc : hub.userChannels user with
  | some channel =>
      simp only [Hub.subscribeUser, hc, Function.update_self] at hr ⊢
      rcases List.mem_append.1 hr with hr | hr
      · rw [← hc]
        exact ha user r hr hlive
      · rw [List.mem_singleton.1 hr]
  | none =>
      simp only [Hub.subscribeUser, hc, Function.update_self] at hr ⊢
      rcases List.mem_append.1 hr with hr | hr
      · have hold := ha user r hr hlive
        rw [hc] at hold
        cases hold
      · rw [List.mem_singleton.1 hr]

theorem push_live (channel : Nat) (event : UpdateEvent) (r : Receiver) :
    (r.push channel event).live = r.live ∧ (r.push channel event).channel = r.channel := by
  rw [Receiver.push]
  split_ifs <;> exact ⟨rfl, rfl⟩

theorem Attached.sendUserEvent (ha : hub.Attached) (event : UpdateEvent) :
    (hub.sendUserEvent user event).1.Attached := by
  apply ha.of_other fun other h => sendUserEvent_other h event
  intro r hr hlive
  cases hc : hub.userChannels user with
  | none =>
      simp only [Hub.sendUserEvent, hc] at hr ⊢
      rw [← hc]
      exact ha user r hr hlive
  | some channel =>
      by_cases hcount : hub.receiverCount user channel = 0
      · simp only [Hub.sendUserEvent, hc, if_pos hcount] at hr ⊢
        rw [← hc]
        exact ha user r hr hlive
      · simp only [Hub.sendUserEvent, hc, if_neg hcount, Function.update_self] at hr ⊢
        obtain ⟨old, hold, rfl⟩ := List.mem_map.1 hr
        rw [(push_live channel event old).1] at hlive
        rw [(push_live channel event old).2, ← hc]
        exact ha user old hold hlive

/-- The count is read again under the write lock, so a channel with a live receiver stays. -/
theorem Attached.cleanupUser (ha : hub.Attached) : (hub.cleanupUser user).Attached := by
  apply ha.of_other fun other h => cleanupUser_other h
  intro r hr hlive
  cases hc : hub.userChannels user with
  | none =>
      simp only [Hub.cleanupUser, hc] at hr ⊢
      rw [← hc]
      exact ha user r hr hlive
  | some channel =>
      have hold := ha user r
      by_cases hcount : hub.receiverCount user channel = 0
      · simp only [Hub.cleanupUser, hc, if_pos hcount] at hr hold ⊢
        have hchannel := Option.some.inj (hold hr hlive)
        exact absurd hchannel.symm (receiverCount_eq_zero.1 hcount r hr hlive)
      · simp only [Hub.cleanupUser, hc, if_neg hcount] at hr hold ⊢
        exact hold hr hlive

theorem Attached.dropReceiver (ha : hub.Attached) (i : Nat) :
    (hub.dropReceiver user i).Attached := by
  apply ha.of_other fun other h => dropReceiver_other h i
  intro r hr hlive
  simp only [Hub.dropReceiver, Function.update_self] at hr ⊢
  obtain ⟨j, hj⟩ := List.mem_iff_getElem?.1 hr
  rw [List.getElem?_modify] at hj
  obtain ⟨old, hold, rfl⟩ := Option.map_eq_some_iff.1 hj
  by_cases hij : i = j
  · simp [hij] at hlive
  · simp only [if_neg hij] at hlive ⊢
    exact ha user old (List.mem_of_getElem? hold) hlive

theorem Attached.after (ha : hub.Attached) (e : ChannelEvent) : (hubAfter hub e).Attached := by
  cases e with
  | subscribed user => exact ha.subscribeUser
  | sent user event => exact ha.sendUserEvent event
  | cleaned user => exact ha.cleanupUser
  | dropped user receiver => exact ha.dropReceiver receiver

theorem attached_empty : Hub.empty.Attached := fun _ _ hr => nomatch hr

/-- While the live receivers are attached, a send reaches exactly the user's live receivers. -/
theorem Attached.receivers_sendUserEvent (ha : hub.Attached) (event : UpdateEvent) :
    (hub.sendUserEvent user event).1.receivers user =
      (hub.receivers user).map (Receiver.enqueue event) := by
  -- a send that finds no channel, or no receiver on it, finds no live receiver of the user
  have hnone (hdead : ∀ r ∈ hub.receivers user, r.live ≠ true) :
      hub.receivers user = (hub.receivers user).map (Receiver.enqueue event) := by
    have hid : ∀ r ∈ hub.receivers user, Receiver.enqueue event r = id r := by
      intro r hr
      exact if_neg (hdead r hr)
    rw [List.map_congr_left hid, List.map_id]
  cases hc : hub.userChannels user with
  | none =>
      simp only [Hub.sendUserEvent, hc]
      apply hnone
      intro r hr hlive
      have hold := ha user r hr hlive
      rw [hc] at hold
      cases hold
  | some channel =>
      have hchannel : ∀ r ∈ hub.receivers user, r.live = true → r.channel = channel := by
        intro r hr hlive
        have hold := ha user r hr hlive
        rw [hc] at hold
        exact (Option.some.inj hold).symm
      by_cases hcount : hub.receiverCount user channel = 0
      · simp only [Hub.sendUserEvent, hc, if_pos hcount]
        apply hnone
        intro r hr hlive
        exact receiverCount_eq_zero.1 hcount r hr hlive (hchannel r hr hlive)
      · simp only [Hub.sendUserEvent, hc, if_neg hcount, Function.update_self]
        apply List.map_congr_left
        intro r hr
        rw [Receiver.push, Receiver.enqueue]
        by_cases hlive : r.live = true
        · simp [hlive, hchannel r hr hlive]
        · simp [hlive]

end Hub

/-! ## Whole runs -/

section Runs

variable {h : List ChannelEvent} {s : Channels}

theorem run_attached (hr : channels.Run h s) : s.hub.Attached := by
  refine hr.invariant (I := fun _ s => s.hub.Attached) Hub.attached_empty ?_
  intro _ s a s' e _ ih hs _
  rw [channelStep_hub hs]
  exact ih.after e

/-- **No live subscriber is orphaned.** In every reachable state the map holds the one channel on
which all live receivers of a user listen, so a send puts its event once into each of the user's
live receivers and into no other. -/
theorem no_subscriber_orphaned (hr : channels.Run h s) :
    (∀ user, (∃ r ∈ s.hub.receivers user, r.live = true) →
      ∃ channel, s.hub.userChannels user = some channel ∧
        ∀ r ∈ s.hub.receivers user, r.live = true → r.channel = channel) ∧
      ∀ id user event s' e, channels.step s (.send id user event) = some (s', e) →
        s'.hub.receivers user = (s.hub.receivers user).map (Receiver.enqueue event) ∧
          ∀ other, other ≠ user → s'.hub.receivers other = s.hub.receivers other := by
  have ha := run_attached hr
  constructor
  · rintro user ⟨r, hmem, hlive⟩
    refine ⟨r.channel, ha user r hmem hlive, ?_⟩
    intro r' hmem' hlive'
    have hchannel := ha user r hmem hlive
    rw [ha user r' hmem' hlive'] at hchannel
    exact Option.some.inj hchannel
  · intro id user event s' e hs
    have he : e = .sent user event := by
      cases hid : s.sends id <;> simp only [channels, channelStep, hid] at hs <;> cases hs
      rfl
    rw [channelStep_hub (a := .send id user event) hs, he]
    refine ⟨ha.receivers_sendUserEvent event, fun other hother => ?_⟩
    exact (Hub.userView_eq_iff.1 (Hub.sendUserEvent_other hother event)).2.2

end Runs

/-- A user reconnects while a send that found nobody has not cleaned up yet. -/
def reconnects : List ChannelAction :=
  [.subscribe 1, .drop 1 0, .send 0 1 ⟨"state_updated", .settings, 1, 0, none⟩, .subscribe 1,
    .cleanup 0]

theorem no_subscriber_orphaned_reconnects :
    ∃ channel, (channels.exec ([], channels.init) reconnects).2.hub.userChannels 1 = some channel ∧
      ∀ r ∈ (channels.exec ([], channels.init) reconnects).2.hub.receivers 1,
        r.live = true → r.channel = channel :=
  (no_subscriber_orphaned (Machine.run_exec reconnects)).1 1
    ⟨⟨0, true, []⟩, List.mem_of_getElem? (i := 1) rfl, rfl⟩

/-! ## Mailboxes -/

/-- A connection as its client sees it: open or closed, and the events queued for it. -/
structure Mailbox where
  live : Bool
  events : List UpdateEvent

/-- An open mailbox gets the event. -/
def Mailbox.enqueue (event : UpdateEvent) (m : Mailbox) : Mailbox :=
  if m.live = true then { m with events := m.events ++ [event] } else m

/-- A receiver as its client sees it. -/
def Receiver.mailbox (r : Receiver) : Mailbox := ⟨r.live, r.events⟩

/-- The mailboxes of a user after a history. There are no channels here: a send goes to every open
mailbox of its user, and a cleanup does nothing. -/
def mailboxes (user : UserId) : List ChannelEvent → List Mailbox
  | [] => []
  | .subscribed u :: h =>
      if u = user then mailboxes user h ++ [⟨true, []⟩] else mailboxes user h
  | .sent u event :: h =>
      if u = user then (mailboxes user h).map (Mailbox.enqueue event) else mailboxes user h
  | .cleaned _ :: h => mailboxes user h
  | .dropped u i :: h =>
      if u = user then (mailboxes user h).modify i fun m => { m with live := false }
      else mailboxes user h

section Mailboxes

variable {hub : Hub} {user : UserId}

theorem mailbox_enqueue (event : UpdateEvent) (r : Receiver) :
    (r.enqueue event).mailbox = r.mailbox.enqueue event := by
  rw [Receiver.enqueue, Mailbox.enqueue, Receiver.mailbox]
  by_cases hlive : r.live = true <;> simp [hlive, Receiver.mailbox]

theorem mailbox_close (i : Nat) (rs : List Receiver) :
    (rs.modify i fun r => { r with live := false }).map Receiver.mailbox =
      (rs.map Receiver.mailbox).modify i fun m => { m with live := false } := by
  apply List.ext_getElem?
  intro j
  rw [List.getElem?_map, List.getElem?_modify, List.getElem?_modify, List.getElem?_map]
  cases rs[j]? with
  | none => rfl
  | some r => by_cases hij : i = j <;> simp [hij, Receiver.mailbox]

theorem receivers_subscribeUser :
    ∃ channel, (hub.subscribeUser user).receivers user =
      hub.receivers user ++ [⟨channel, true, []⟩] := by
  cases hc : hub.userChannels user with
  | none => exact ⟨hub.created user, by simp [Hub.subscribeUser, hc]⟩
  | some channel => exact ⟨channel, by simp [Hub.subscribeUser, hc]⟩

theorem receivers_cleanupUser : (hub.cleanupUser user).receivers = hub.receivers := by
  rw [Hub.cleanupUser]
  cases hub.userChannels user with
  | none => rfl
  | some channel => simp only; split_ifs <;> rfl

/-- **The hub refines the mailboxes.** In every run each connection has received what the sends of
its user put into an open mailbox: every event once, in the order of the sends. -/
theorem run_mailboxes {h : List ChannelEvent} {s : Channels} (hr : channels.Run h s)
    (user : UserId) : (s.hub.receivers user).map Receiver.mailbox = mailboxes user h := by
  refine hr.invariant
    (I := fun h s => (s.hub.receivers user).map Receiver.mailbox = mailboxes user h) rfl ?_
  intro h s a s' e hr ih hs _
  rw [channelStep_hub hs]
  have hother {u : UserId} {hub' : Hub} (hview : hub'.userView user = s.hub.userView user) :
      (hub'.receivers user).map Receiver.mailbox = mailboxes user h := by
    rw [(Hub.userView_eq_iff.1 hview).2.2, ih]
  cases e with
  | subscribed u =>
      by_cases hu : u = user
      · subst hu
        obtain ⟨channel, hnew⟩ := @receivers_subscribeUser s.hub u
        simp [hubAfter, hnew, mailboxes, ih, Receiver.mailbox]
      · simpa [mailboxes, hu, hubAfter] using
          hother (u := u) (Hub.subscribeUser_other (Ne.symm hu))
  | sent u event =>
      by_cases hu : u = user
      · subst hu
        have hreach := @Hub.Attached.receivers_sendUserEvent s.hub u (run_attached hr) event
        simp [hubAfter, hreach, mailboxes, ← ih, Function.comp_def, mailbox_enqueue]
      · simpa [mailboxes, hu, hubAfter] using
          hother (u := u) (Hub.sendUserEvent_other (Ne.symm hu) event)
  | cleaned u => rw [hubAfter, receivers_cleanupUser, ih, mailboxes]
  | dropped u i =>
      by_cases hu : u = user
      · subst hu
        simp only [hubAfter, Hub.dropReceiver, Function.update_self, mailboxes, if_true, ← ih]
        exact mailbox_close i _
      · simpa [mailboxes, hu, hubAfter] using
          hother (u := u) (Hub.dropReceiver_other (Ne.symm hu) i)

end Mailboxes

/-! ## The sync server -/

theorem Statement.attached {docs docs' : Documents} {hub hub' : Hub} {user : UserId}
    {phase phase' : Phase} {progress : Progress}
    (hs : Statement docs hub user phase docs' hub' phase' progress) (ha : hub.Attached) :
    hub'.Attached := by
  cases hs with
  | sent event response => exact ha.sendUserEvent event
  | cleaned response => exact ha.cleanupUser
  | ensured | loaded | checked | committed | failed | answered => exact ha

/-- The requests of the sync server use the channels in the same way, so no WebSocket connection
is orphaned there either. -/
theorem server_attached {h : List Event} {s : State} (hr : server.Run h s) : s.hub.Attached := by
  refine hr.invariant (I := fun _ s => s.hub.Attached) Hub.attached_empty ?_
  intro _ s a s' e _ ih hs _
  obtain ⟨-, heffect⟩ := step_effect hs
  generalize e.kind = kind at heffect
  cases heffect with
  | received kind phase fresh planned => exact ih
  | moved inFlight statement => exact statement.attached ih
  | subscribed => exact ih.subscribeUser
  | dropped receiver => exact ih.dropReceiver receiver

end AnyPlayerSync.Sync
