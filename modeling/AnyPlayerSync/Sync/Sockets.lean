import AnyPlayerSync.Foundation.Broadcast
import AnyPlayerSync.Sync.Subscribers

/-!
# WebSocket connections

`ws.rs`: the loop that forwards the events of one receiver to its client, next to whatever the
other requests do with the channels. The receiver was handed out by `subscribe_user`; its mailbox
holds all that was sent to it, of which the channel retains the last 64 events. Following `tokio`, a
receiver that was overtaken gets one `Lagged` error and goes on with the oldest event that is
retained.

As long as the loop runs, what it forwards is a subsequence of what was sent, an event is missed
only when 64 later ones overtook it, and a loop with nothing left to receive has forwarded the last
event (`slow_client_learns`).
-/

set_option autoImplicit false

namespace AnyPlayerSync.Sync

open AnyPlayerSync.Foundation
open AnyPlayerSync.Foundation.Broadcast

/-- Capacity of a user's channel. -/
def userChannelCapacity : Nat := 64

/-- What `receiver.next()` answers: a close message, another message, or an error or the end. -/
inductive Incoming where
  | close
  | other
  | failed

/-- Where the loop of `handle_ws_connection` stands. -/
inductive LoopState where
  | waiting
  | sending (event : UpdateEvent) (message : Str)
  | ended
  deriving DecidableEq

/-- The channels, the position of the receiver, and the loop. -/
structure Socket where
  channels : Channels
  next : Nat
  loop : LoopState

/-- The event that is being sent. -/
def LoopState.inFlight : LoopState → List UpdateEvent
  | .sending event _ => [event]
  | .waiting | .ended => []

/-- A step of the other requests, or one of the loop: `recv` and `incoming` are the branches of
`select!`, `flush` is the end of a send to the client. -/
inductive SocketAction where
  | channel (a : ChannelAction)
  | recv
  | flush (ok : Bool)
  | incoming (message : Incoming)

/-- What a step tells. -/
inductive SocketEvent where
  | channel (e : ChannelEvent)
  | received (event : UpdateEvent)
  | unserialized (event : UpdateEvent)
  | lagged (missed : Nat)
  | forwarded (event : UpdateEvent) (message : Str)
  | ignored
  | ended

section Loop

variable (serialize : UpdateEvent → Option Str) (user : UserId) (i : Nat)

/-- What was sent to the receiver. -/
def Hub.mailbox (hub : Hub) : List UpdateEvent :=
  (((hub.receivers user)[i]?).map Receiver.events).getD []

/-- The map still holds the sender of the receiver's channel. -/
def Hub.connected (hub : Hub) : Bool :=
  ((hub.receivers user)[i]?).any fun r => hub.userChannels user == some r.channel

/-- The loop is over, and its receiver is dropped. -/
def Socket.finish (s : Socket) : Socket :=
  { s with
    channels := { s.channels with hub := s.channels.hub.dropReceiver user i }
    loop := .ended }

/-- Only the loop itself drops its receiver. -/
def ownDrop : ChannelEvent → Bool
  | .dropped u j => u == user && j == i
  | _ => false

/-- What `recv` finds, with the position after it. -/
def Socket.received (s : Socket) : Received UpdateEvent × Nat :=
  recv userChannelCapacity (s.channels.hub.mailbox user i) s.next

/-- One step of the channels or of the loop. -/
def socketStep (s : Socket) : SocketAction → Option (Socket × SocketEvent)
  | .channel a =>
      match channelStep s.channels a with
      | some (channels, e) =>
          if ownDrop user i e then none else some ({ s with channels := channels }, .channel e)
      | none => none
  | .recv =>
      match s.loop with
      | .waiting =>
          match s.received user i with
          | (.value event, next) =>
              match serialize event with
              | some message =>
                  some ({ s with next := next, loop := .sending event message }, .received event)
              | none => some ({ s with next := next }, .unserialized event)
          | (.lagged missed, next) => some ({ s with next := next }, .lagged missed)
          -- `Closed` when every sender is gone; otherwise the branch stays pending
          | (.empty, _) =>
              if s.channels.hub.connected user i then none else some (s.finish user i, .ended)
      | _ => none
  | .flush ok =>
      match s.loop with
      | .sending event message =>
          if ok then some ({ s with loop := .waiting }, .forwarded event message)
          else some (s.finish user i, .ended)
      | _ => none
  | .incoming message =>
      match s.loop with
      | .waiting =>
          match message with
          | .close => some (s.finish user i, .ended)
          | .other => some (s, .ignored)
          | .failed => some (s.finish user i, .ended)
      | _ => none

end Loop

/-- The connection of a user that subscribes in a state of the channels. -/
def socket (serialize : UpdateEvent → Option Str) (user : UserId) (s : Channels) :
    Machine Socket SocketAction SocketEvent where
  init := ⟨{ s with hub := s.hub.subscribeUser user }, 0, .waiting⟩
  step := socketStep serialize user (s.hub.receivers user).length

/-! ## What was sent and forwarded -/

/-- The events sent on the user's channel, oldest first. -/
def eventsSent (user : UserId) : List SocketEvent → List UpdateEvent
  | [] => []
  | .channel (.sent u event) :: h =>
      if u = user then eventsSent user h ++ [event] else eventsSent user h
  | _ :: h => eventsSent user h

/-- The events whose message reached the socket, oldest first. -/
def eventsForwarded : List SocketEvent → List UpdateEvent
  | [] => []
  | .forwarded event _ :: h => eventsForwarded h ++ [event]
  | _ :: h => eventsForwarded h

/-- A step of a run. -/
abbrev SocketStep := Machine.Step Socket SocketAction SocketEvent

/-- A step of the loop passed over the event at a position, which at least 64 sends had followed. -/
def Overrun (user : UserId) (l : List SocketStep) (p : Nat) : Prop :=
  ∃ later st earlier, l = later ++ st :: earlier ∧ st.before.next ≤ p ∧ p < st.after.next ∧
    (∃ missed, st.event = .lagged missed) ∧
    p + 1 + userChannelCapacity ≤ (eventsSent user (earlier.map Machine.Step.event)).length

/-- The loop waits and its receiver has nothing for it. -/
def Socket.Drained (user : UserId) (i : Nat) (s : Socket) : Prop :=
  s.loop = .waiting ∧ (s.received user i).1 = .empty

/-! ## The receiver -/

section Receivers

variable {user : UserId} {i : Nat}

/-- What a step of the channels adds to a mailbox. -/
def ChannelEvent.adds (user : UserId) : ChannelEvent → List UpdateEvent
  | .sent u event => if u = user then [event] else []
  | .subscribed _ | .cleaned _ | .dropped _ _ => []

theorem eventsSent_channel (e : ChannelEvent) (h : List SocketEvent) :
    eventsSent user (.channel e :: h) = eventsSent user h ++ e.adds user := by
  cases e with
  | sent u event =>
      rw [eventsSent, ChannelEvent.adds]
      split_ifs
      · rfl
      · rw [List.append_nil]
  | subscribed u => exact (List.append_nil _).symm
  | cleaned u => exact (List.append_nil _).symm
  | dropped u j => exact (List.append_nil _).symm

/-- The receivers of other users' steps are as they were. -/
theorem receivers_of_userView {hub hub' : Hub} (h : hub'.userView user = hub.userView user) :
    hub'.receivers user = hub.receivers user := (Hub.userView_eq_iff.1 h).2.2

/-- A live receiver that is not dropped gets what is sent to its user, and nothing else. -/
theorem receiver_after {hub : Hub} (ha : hub.Attached) {r : Receiver}
    (hr : (hub.receivers user)[i]? = some r) (hlive : r.live = true) {e : ChannelEvent}
    (hdrop : ownDrop user i e = false) :
    ((hubAfter hub e).receivers user)[i]? =
      some { r with events := r.events ++ e.adds user } := by
  have hsame : some r = some { r with events := r.events ++ [] } := by rw [List.append_nil]
  have hlt := (List.getElem?_eq_some_iff.1 hr).1
  cases e with
  | subscribed u =>
      rw [ChannelEvent.adds, ← hsame, hubAfter]
      by_cases hu : user = u
      · obtain ⟨channel, hnew⟩ := @receivers_subscribeUser hub user
        rw [← hu, hnew, List.getElem?_append_left hlt, hr]
      · rw [receivers_of_userView (Hub.subscribeUser_other hu), hr]
  | sent u event =>
      rw [ChannelEvent.adds, hubAfter]
      by_cases hu : user = u
      · rw [← hu, if_pos rfl, ha.receivers_sendUserEvent, List.getElem?_map, hr]
        exact congrArg some (if_pos hlive)
      · rw [if_neg (Ne.symm hu), ← hsame,
          receivers_of_userView (Hub.sendUserEvent_other hu event), hr]
  | cleaned u =>
      rw [ChannelEvent.adds, ← hsame, hubAfter, receivers_cleanupUser, hr]
  | dropped u j =>
      rw [ChannelEvent.adds, ← hsame, hubAfter]
      by_cases hu : user = u
      · have hj : j ≠ i := by
          intro hj
          rw [ownDrop, hu, hj] at hdrop
          simp at hdrop
        rw [← hu, Hub.dropReceiver]
        simp only [Function.update_self]
        rw [List.getElem?_modify, hr]
        simp [hj]
      · rw [receivers_of_userView (Hub.dropReceiver_other hu j), hr]

end Receivers

/-! ## Steps of the loop -/

section Steps

variable {serialize : UpdateEvent → Option Str} {user : UserId} {i : Nat} {s s' : Socket}
  {a : SocketAction} {e : SocketEvent}

/-- What one step does while the loop goes on. -/
inductive Moves (serialize : UpdateEvent → Option Str) (user : UserId) (i : Nat) (s : Socket) :
    Socket → SocketEvent → Prop
  | channel {a : ChannelAction} {channels : Channels} {e : ChannelEvent}
      (step : channelStep s.channels a = some (channels, e)) (other : ownDrop user i e = false) :
      Moves serialize user i s { s with channels := channels } (.channel e)
  | received {event : UpdateEvent} {message : Str} {next : Nat} (waiting : s.loop = .waiting)
      (value : s.received user i = (.value event, next)) (text : serialize event = some message) :
      Moves serialize user i s { s with next := next, loop := .sending event message }
        (.received event)
  | unserialized {event : UpdateEvent} {next : Nat} (waiting : s.loop = .waiting)
      (value : s.received user i = (.value event, next)) (text : serialize event = none) :
      Moves serialize user i s { s with next := next } (.unserialized event)
  | lagged {missed next : Nat} (waiting : s.loop = .waiting)
      (lag : s.received user i = (.lagged missed, next)) :
      Moves serialize user i s { s with next := next } (.lagged missed)
  | forwarded {event : UpdateEvent} {message : Str} (sending : s.loop = .sending event message) :
      Moves serialize user i s { s with loop := .waiting } (.forwarded event message)
  | ignored : Moves serialize user i s s .ignored

theorem recv_moves (h : socketStep serialize user i s .recv = some (s', e)) :
    s'.loop = .ended ∨ Moves serialize user i s s' e := by
  rw [socketStep] at h
  cases hloop : s.loop with
  | waiting =>
      rw [hloop] at h
      dsimp only at h
      generalize hrecv : s.received user i = answer at h
      obtain ⟨received, next⟩ := answer
      cases received with
      | value event =>
          dsimp only at h
          cases htext : serialize event with
          | some message =>
              rw [htext] at h
              cases h
              exact Or.inr (.received hloop hrecv htext)
          | none =>
              rw [htext] at h
              cases h
              exact Or.inr (hloop ▸ .unserialized hloop hrecv htext)
      | lagged missed =>
          cases h
          exact Or.inr (hloop ▸ .lagged hloop hrecv)
      | empty =>
          dsimp only at h
          split_ifs at h
          cases h
          exact Or.inl rfl
  | sending event message | ended =>
      rw [hloop] at h
      cases h

theorem flush_moves {ok : Bool} (h : socketStep serialize user i s (.flush ok) = some (s', e)) :
    s'.loop = .ended ∨ Moves serialize user i s s' e := by
  rw [socketStep] at h
  cases hloop : s.loop with
  | sending event message =>
      rw [hloop] at h
      dsimp only at h
      split_ifs at h
      · cases h
        exact Or.inr (.forwarded hloop)
      · cases h
        exact Or.inl rfl
  | waiting | ended =>
      rw [hloop] at h
      cases h

theorem incoming_moves {message : Incoming}
    (h : socketStep serialize user i s (.incoming message) = some (s', e)) :
    s'.loop = .ended ∨ Moves serialize user i s s' e := by
  rw [socketStep.eq_def] at h
  dsimp only at h
  cases hloop : s.loop with
  | waiting =>
      rw [hloop] at h
      cases message with
      | other =>
          cases h
          exact Or.inr .ignored
      | close | failed =>
          cases h
          exact Or.inl rfl
  | sending event text | ended =>
      rw [hloop] at h
      cases h

/-- A step ends the loop or is one of these. -/
theorem socketStep_moves (h : socketStep serialize user i s a = some (s', e)) :
    s'.loop = .ended ∨ Moves serialize user i s s' e := by
  cases a with
  | channel a =>
      rw [socketStep] at h
      cases hs : channelStep s.channels a with
      | none =>
          rw [hs] at h
          cases h
      | some p =>
          obtain ⟨channels, e₀⟩ := p
          rw [hs] at h
          dsimp only at h
          split_ifs at h with hown
          cases h
          exact Or.inr (.channel hs (Bool.not_eq_true _ ▸ hown))
  | recv => exact recv_moves h
  | flush ok => exact flush_moves h
  | incoming message => exact incoming_moves h

end Steps

/-! ## Whole runs -/

section Runs

variable {serialize : UpdateEvent → Option Str} {user : UserId} {s₀ : Channels}
  {l : List SocketStep} {s : Socket}

/-- The events sent since the subscription. -/
def sentSince (user : UserId) (l : List SocketStep) : List UpdateEvent :=
  eventsSent user (l.map Machine.Step.event)

/-- The events that reached the socket. -/
def forwarded (l : List SocketStep) : List UpdateEvent :=
  eventsForwarded (l.map Machine.Step.event)

theorem eventsSent_length_le (e : SocketEvent) (h : List SocketEvent) :
    (eventsSent user h).length ≤ (eventsSent user (e :: h)).length := by
  cases e with
  | channel e =>
      rw [eventsSent_channel, List.length_append]
      exact Nat.le_add_right _ _
  | received | unserialized | lagged | forwarded | ignored | ended => exact Nat.le_refl _

theorem sentSince_length_le (later earlier : List SocketStep) :
    (sentSince user earlier).length ≤ (sentSince user (later ++ earlier)).length := by
  induction later with
  | nil => exact Nat.le_refl _
  | cons st later ih => exact Nat.le_trans ih (eventsSent_length_le st.event _)

/-- While the loop runs, the mailbox of its live receiver is what was sent since the subscription,
and the loop has forwarded, or is about to, what it took. -/
structure Follows (user : UserId) (i : Nat) (l : List SocketStep) (s : Socket) : Prop where
  attached : s.channels.hub.Attached
  receiver : ∃ r, (s.channels.hub.receivers user)[i]? = some r ∧ r.live = true ∧
    r.events = sentSince user l
  reading : ∃ taken, Reading (sentSince user l) s.next taken (Overrun user l) ∧
    valuesAt (sentSince user l) taken = forwarded l ++ s.loop.inFlight

theorem Follows.mailbox {i : Nat} (h : Follows user i l s) :
    s.channels.hub.mailbox user i = sentSince user l := by
  obtain ⟨r, hr, -, hevents⟩ := h.receiver
  rw [Hub.mailbox, hr]
  exact hevents

theorem Overrun.cons {p : Nat} (h : Overrun user l p) (st : SocketStep) :
    Overrun user (st :: l) p := by
  obtain ⟨later, st', earlier, rfl, hover⟩ := h
  exact ⟨st :: later, st', earlier, rfl, hover⟩

theorem follows_init (ha : s₀.hub.Attached) :
    Follows user (s₀.hub.receivers user).length [] (socket serialize user s₀).init where
  attached := ha.subscribeUser
  receiver := by
    obtain ⟨channel, hnew⟩ := @receivers_subscribeUser s₀.hub user
    refine ⟨⟨channel, true, []⟩, ?_, rfl, rfl⟩
    show ((s₀.hub.subscribeUser user).receivers user)[_]? = _
    rw [hnew, List.getElem?_append_right (Nat.le_refl _), Nat.sub_self]
    rfl
  reading := ⟨[], Reading.start _ _, rfl⟩

/-- A step of the loop leaves the channels alone, and sends nothing. -/
theorem Follows.of_loop {i : Nat} (h : Follows user i l s) {s' : Socket} {a : SocketAction}
    {e : SocketEvent} (hchannels : s'.channels = s.channels)
    (hsent : sentSince user (⟨s, a, e, s'⟩ :: l) = sentSince user l)
    (hreading : ∃ taken, Reading (sentSince user l) s'.next taken
      (Overrun user (⟨s, a, e, s'⟩ :: l)) ∧
      valuesAt (sentSince user l) taken =
        forwarded (⟨s, a, e, s'⟩ :: l) ++ s'.loop.inFlight) :
    Follows user i (⟨s, a, e, s'⟩ :: l) s' where
  attached := hchannels ▸ h.attached
  receiver := by
    rw [hchannels, hsent]
    exact h.receiver
  reading := by
    rw [hsent]
    exact hreading

/-- A step that keeps the loop running keeps following. -/
theorem Follows.step {i : Nat} (hserialize : ∀ event, (serialize event).isSome = true)
    (h : Follows user i l s) {s' : Socket} {a : SocketAction} {e : SocketEvent}
    (hmoves : Moves serialize user i s s' e) : Follows user i (⟨s, a, e, s'⟩ :: l) s' := by
  obtain ⟨taken, hreading, hvalues⟩ := h.reading
  have hreceived : s.received user i = recv userChannelCapacity (sentSince user l) s.next := by
    rw [Socket.received, h.mailbox]
  cases hmoves with
  | @channel c channels e₀ hstep hother =>
      have hhub := channelStep_hub hstep
      obtain ⟨r, hr, hlive, hevents⟩ := h.receiver
      have hsent : sentSince user (⟨s, a, .channel e₀, { s with channels := channels }⟩ :: l) =
          sentSince user l ++ e₀.adds user := eventsSent_channel e₀ _
      refine ⟨?_, ⟨{ r with events := r.events ++ e₀.adds user }, ?_, hlive, ?_⟩, taken, ?_, ?_⟩
      · show channels.hub.Attached
        rw [hhub]
        exact h.attached.after e₀
      · show (channels.hub.receivers user)[i]? = _
        rw [hhub]
        exact receiver_after h.attached hr hlive hother
      · rw [hsent, ← hevents]
      · rw [hsent]
        exact (hreading.grow _).mono fun p hp => hp.cons _
      · rw [hsent, valuesAt_grow hreading.bounded]
        exact hvalues
  | @received event message next hwaiting hvalue htext =>
      rw [hwaiting] at hvalues
      rw [hreceived] at hvalue
      obtain ⟨hnext, hat, rfl⟩ := recv_value hvalue
      -- the position is taken, and its value is what is being sent
      refine h.of_loop rfl rfl ⟨taken ++ [s.next], (hreading.take hnext).mono fun p hp =>
        hp.cons _, ?_⟩
      rw [valuesAt_append, hvalues, valuesAt_singleton hat]
      show _ = forwarded l ++ [event]
      rw [LoopState.inFlight, List.append_nil]
  | @unserialized event next hwaiting hvalue htext =>
      have hsome := hserialize event
      rw [htext] at hsome
      cases hsome
  | @lagged missed next hwaiting hlag =>
      rw [hreceived] at hlag
      obtain ⟨hbehind, rfl⟩ := recv_lagged hlag
      refine h.of_loop rfl rfl ⟨taken, ?_, hvalues⟩
      -- this step overran the positions up to the oldest value that is retained
      apply (hreading.mono fun p hp => hp.cons _).lag (Nat.le_of_lt hbehind) (oldest_le _ _)
      intro p hle hlt
      refine ⟨[], _, l, rfl, hle, hlt, ⟨missed, rfl⟩, ?_⟩
      rw [oldest] at hlt
      rw [sentSince] at hlt
      omega
  | @forwarded event message hsending =>
      rw [hsending] at hvalues
      refine h.of_loop rfl rfl ⟨taken, hreading.mono fun p hp => hp.cons _, ?_⟩
      rw [hvalues]
      show _ = (forwarded l ++ [event]) ++ []
      rw [List.append_nil]
      rfl
  | ignored =>
      exact h.of_loop rfl rfl ⟨taken, hreading.mono fun p hp => hp.cons _, hvalues⟩

theorem Moves.running {i : Nat} {s' : Socket} {e : SocketEvent}
    (hmoves : Moves serialize user i s s' e) (hopen : s'.loop ≠ .ended) : s.loop ≠ .ended := by
  cases hmoves with
  | channel => exact hopen
  | received waiting => simp [waiting]
  | unserialized waiting => simp [waiting]
  | lagged waiting => simp [waiting]
  | forwarded sending => simp [sending]
  | ignored => exact hopen

theorem trace_follows (hserialize : ∀ event, (serialize event).isSome = true)
    (ha : s₀.hub.Attached) (ht : (socket serialize user s₀).Trace l s) :
    s.loop ≠ .ended → Follows user (s₀.hub.receivers user).length l s := by
  refine ht.invariant
    (I := fun l s => s.loop ≠ .ended → Follows user (s₀.hub.receivers user).length l s)
    (fun _ => follows_init ha) ?_
  intro l s a s' e _ ih hs hopen
  rcases socketStep_moves hs with hended | hmoves
  · exact absurd hended hopen
  · exact (ih (hmoves.running hopen)).step hserialize hmoves

/-- **A slow client learns of the latest change.** A connection subscribes in any reachable state of
the channels; from then on any requests and the steps of its loop interleave, and its events
serialise. As long as the loop runs, it has forwarded a subsequence of the events sent since, each
at most once; an event that was neither forwarded nor is being sent is still ahead of the loop, or
64 later events had been sent when the loop passed over it; and when the loop has drained its
receiver, the last event that it forwarded is the last one sent. -/
theorem slow_client_learns {history : List ChannelEvent} (h₀ : channels.Run history s₀)
    (hserialize : ∀ event, (serialize event).isSome = true)
    (ht : (socket serialize user s₀).Trace l s) (hopen : s.loop ≠ .ended) :
    (forwarded l).Sublist (sentSince user l) ∧
    (∃ taken : List Nat, taken.Pairwise (· < ·) ∧
      (taken.map fun p => (sentSince user l)[p]?) = (forwarded l ++ s.loop.inFlight).map some ∧
      ∀ p < (sentSince user l).length, p ∈ taken ∨ s.next ≤ p ∨ Overrun user l p) ∧
    (s.Drained user (s₀.hub.receivers user).length →
      (forwarded l).getLast? = (sentSince user l).getLast?) := by
  have h := trace_follows hserialize (run_attached h₀) ht hopen
  obtain ⟨taken, hreading, hvalues⟩ := h.reading
  refine ⟨?_, ⟨taken, hreading.sorted, ?_, fun p hp => ?_⟩, ?_⟩
  · have hsub : (valuesAt (sentSince user l) taken).Sublist (sentSince user l) :=
      valuesAt_sublist hreading.sorted
    rw [hvalues] at hsub
    exact (List.sublist_append_left _ _).trans hsub
  · rw [← valuesAt_eq_map hreading.bounded, hvalues]
  · rcases Nat.lt_or_ge p s.next with hlt | hge
    · exact (hreading.covered p hlt).imp_right Or.inr
    · exact Or.inr (Or.inl hge)
  · rintro ⟨hwaiting, hempty⟩
    rw [Socket.received, h.mailbox] at hempty
    -- the receiver stands at the end, so the last value was taken or overrun
    have hend : s.next = (sentSince user l).length :=
      Nat.le_antisymm hreading.le (length_le_of_recv_empty hempty)
    rw [hend] at hreading
    rw [hwaiting, LoopState.inFlight, List.append_nil] at hvalues
    rw [← hvalues]
    apply hreading.getLast?_eq
    rintro p hp ⟨later, st, earlier, rfl, -, -, -, hover⟩
    have hgrows : (sentSince user earlier).length ≤
        (sentSince user (later ++ st :: earlier)).length := by
      rw [List.append_cons]
      exact sentSince_length_le _ _
    simp only [sentSince] at hgrows hp
    simp only [userChannelCapacity] at hover
    omega

end Runs

/-- An update of a version of the settings. -/
def versionEvent (version : Nat) : UpdateEvent := ⟨"state_updated", .settings, version, 0, none⟩

/-- Its JSON text. -/
def versionText (event : UpdateEvent) : Option Str :=
  some ("\x7b\"event_type\":\"state_updated\",\"namespace\":\"settings\",\"version\":" ++
    toString event.version ++
    ",\"updated_at\":\"1970-01-01T00:00:00Z\",\"source_client_id\":null\x7d").toList

/-- While one event is being sent, 66 later ones overtake the loop; it then reads what is left. -/
def overtakes : List SocketAction :=
  let send (n : Nat) : SocketAction := .channel (.send n 1 (versionEvent n))
  [send 0, .recv] ++ (List.range 66).map (fun n => send (n + 1)) ++ [.flush true, .recv] ++
    (List.range 64).flatMap fun _ => [.recv, .flush true]

/-- Two events are missed, and the last one is forwarded last. -/
theorem slow_client_learns_overtakes :
    let run := (socket versionText 1 channels.init).trace
      ([], (socket versionText 1 channels.init).init) overtakes
    (forwarded run.1).Sublist (sentSince 1 run.1) ∧ (forwarded run.1).length = 65 ∧
      (forwarded run.1).getLast? = (sentSince 1 run.1).getLast? ∧
      (sentSince 1 run.1).getLast? = some (versionEvent 66) := by
  intro run
  have hdrained : run.2.Drained 1 0 := by
    constructor
    · decide +kernel
    · decide +kernel
  have hopen : run.2.loop ≠ .ended := by
    rw [hdrained.1]
    exact LoopState.noConfusion
  have h := slow_client_learns (Machine.RunIf.start (M := channels)) (fun _ => rfl)
    (Machine.trace_exec (M := socket versionText 1 channels.init) overtakes) hopen
  exact ⟨h.1, by decide +kernel, h.2.2 hdrained, by decide +kernel⟩

end AnyPlayerSync.Sync
