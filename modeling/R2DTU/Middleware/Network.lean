import R2DTU.Library.BoundedLoop
import R2DTU.Library.Machine
import R2DTU.Middleware.PubSub

/-!
# The ticks of the network

`Network::tick` sends what is enqueued and then takes events from the ENet host: a connection or a
disconnection changes the peer, a packet is copied to the receive queue. It takes at most 100
events, and the loop takes an event before it looks at the counter. So the hundredth is taken and
not handled (`tick_eq`), which is what `Relay` has for the packets of a link.

Events can arrive at any time between two calls of `enet_host_service`; those that do so during a
tick are pending when it begins or when the next one does. The logs of `Network` say what was taken
from the host and what became of it. No event is lost in exactly the runs whose ticks find fewer
than 100 events (`losesNothing_iff`): each event beyond that stays a gap between the logs
(`Network.gap_le`).
-/

namespace Middleware

/-- `ENetEvent`, as `enet_host_service` returns it with a positive result. -/
inductive ENetEvent (Peer : Type)
  | connect (peer : Peer)
  | disconnect (peer : Peer)
  | receive (peer : Peer) (data : List UInt8)
  deriving DecidableEq

namespace ENetEvent

variable {Peer : Type}

/-- The message in a packet. -/
def message : ENetEvent Peer → Option (List UInt8)
  | receive _ data => some data
  | connect _ | disconnect _ => none

/-- Events that are about the peer and not a packet. -/
def isPeerEvent (event : ENetEvent Peer) : Bool := event.message.isNone

/-- What an event means for the peer of the context. -/
def applyTo (peer : Option Peer) : ENetEvent Peer → Option Peer
  | connect newPeer => some newPeer
  | disconnect _ => none
  | receive _ _ => peer

end ENetEvent

/-- The context, the events the host has pending, and four logs: what was sent, the events taken
from the host, the events applied to the peer and the messages popped from the receive queue. -/
structure Network (Peer Packet : Type) where
  /-- What `enet_host_service` is going to return. -/
  pending : List (ENetEvent Peer)
  /-- The peer that is connected. -/
  peer : Option Peer
  /-- What is kept with a peer. -/
  peerData : Peer → Option ℕ
  /-- What is to be sent in the next tick. -/
  enqueuedMsgs : List (Packet × UInt8)
  /-- The messages that have not been read yet. -/
  receiveQueue : List (List UInt8)
  /-- All that was sent. -/
  sent : List (Peer × UInt8 × Packet)
  /-- All events that were taken from the host. -/
  taken : List (ENetEvent Peer)
  /-- Those that were applied to the peer. -/
  applied : List (ENetEvent Peer)
  /-- All messages that were read. -/
  popped : List (List UInt8)

/-- What happens to a node's network: events arrive, or a function is called; `pop` is a read of
`access_received()`. -/
inductive NetworkCall (Peer Packet : Type)
  | arrive (events : List (ENetEvent Peer))
  | enqueue (msg : Packet) (channelId : UInt8)
  | tick
  | pop

namespace Network

variable {Peer Packet : Type} {n n' : Network Peer Packet}

/-- A context that is connected to a peer or not, and a host without events. -/
def start (peer : Option Peer) : Network Peer Packet :=
  ⟨[], peer, fun _ ↦ none, [], [], [], [], [], []⟩

/-- `transmit`: without a peer the packet goes nowhere. -/
def transmit (n : Network Peer Packet) (msg : Packet × UInt8) : Network Peer Packet :=
  match n.peer with
  | some peer => { n with sent := n.sent ++ [(peer, msg.2, msg.1)] }
  | none => n

/-- The first loop of `tick`. -/
def transmitEnqueued (n : Network Peer Packet) : Network Peer Packet :=
  { n.enqueuedMsgs.foldl transmit n with enqueuedMsgs := [] }

/-- `enet_host_service`: the next pending event is removed. -/
def hostService (n : Network Peer Packet) : Option (ENetEvent Peer × Network Peer Packet) :=
  match n.pending with
  | [] => none
  | event :: pending => some (event, { n with pending := pending, taken := n.taken ++ [event] })

theorem hostService_of_cons {event : ENetEvent Peer} {pending : List (ENetEvent Peer)}
    (hp : n.pending = event :: pending) :
    n.hostService = some (event, { n with pending := pending, taken := n.taken ++ [event] }) := by
  simp only [hostService, hp]

theorem hostService_of_nil (hp : n.pending = []) : n.hostService = none := by
  simp only [hostService, hp]

theorem foldl_transmit (n : Network Peer Packet) (msgs : List (Packet × UInt8)) :
    ∃ sent, msgs.foldl transmit n = { n with sent := sent } := by
  induction msgs generalizing n with
  | nil => exact ⟨n.sent, rfl⟩
  | cons msg msgs ih =>
    obtain ⟨sent, hsent⟩ : ∃ sent, n.transmit msg = { n with sent := sent } := by
      rw [transmit]
      split
      · exact ⟨_, rfl⟩
      · exact ⟨n.sent, rfl⟩
    rw [List.foldl_cons, hsent]
    exact ih _

/-- Sending changes nothing else. -/
theorem transmitEnqueued_eq (n : Network Peer Packet) :
    ∃ sent, n.transmitEnqueued = { n with sent := sent, enqueuedMsgs := [] } := by
  obtain ⟨sent, hsent⟩ := foldl_transmit n n.enqueuedMsgs
  exact ⟨sent, by rw [transmitEnqueued, hsent]⟩

@[simp] theorem pending_transmitEnqueued (n : Network Peer Packet) :
    n.transmitEnqueued.pending = n.pending := by
  obtain ⟨sent, hsent⟩ := n.transmitEnqueued_eq
  rw [hsent]

/-- **Nothing is lost**: the messages of all packets taken from the host have been put on the
receive queue, and the other events have been applied to the peer, in order and once each. -/
structure LosesNothing (peer : Option Peer) (n : Network Peer Packet) : Prop where
  /-- All messages of packets are in the queue or were read. -/
  received_eq : n.popped ++ n.receiveQueue = n.taken.filterMap ENetEvent.message
  /-- All other events were applied. -/
  applied_eq : n.applied = n.taken.filter ENetEvent.isPeerEvent
  /-- The peer is the one that they lead to. -/
  peer_eq : n.peer = n.taken.foldl ENetEvent.applyTo peer

theorem losesNothing_start (peer : Option Peer) :
    LosesNothing peer (start peer : Network Peer Packet) :=
  ⟨rfl, rfl, rfl⟩

/-- How many events have been handled. -/
def handledCount (n : Network Peer Packet) : ℕ :=
  n.popped.length + n.receiveQueue.length + n.applied.length

theorem length_message_add_isPeerEvent (events : List (ENetEvent Peer)) :
    (events.filterMap ENetEvent.message).length + (events.filter ENetEvent.isPeerEvent).length =
      events.length := by
  induction events with
  | nil => rfl
  | cons event events ih =>
    rcases hm : event.message with _ | data
    · have hpeer : event.isPeerEvent = true := by rw [ENetEvent.isPeerEvent, hm]; rfl
      rw [List.filterMap_cons_none hm, List.filter_cons_of_pos hpeer, List.length_cons,
        List.length_cons]
      omega
    · have hpeer : ¬ event.isPeerEvent = true := by rw [ENetEvent.isPeerEvent, hm]; exact nofun
      rw [List.filterMap_cons_some hm, List.filter_cons_of_neg hpeer, List.length_cons,
        List.length_cons]
      omega

/-- Where nothing is lost, as many events have been handled as taken. -/
theorem LosesNothing.handledCount_eq {peer : Option Peer} (h : LosesNothing peer n) :
    n.handledCount = n.taken.length := by
  rw [handledCount, ← List.length_append, h.received_eq, h.applied_eq,
    length_message_add_isPeerEvent]

variable [DecidableEq Peer]

/-- `handle_connect`, `handle_disconnect` and `handle_receive`. -/
def handle (n : Network Peer Packet) : ENetEvent Peer → Network Peer Packet
  | .connect peer => { n with peer := some peer, applied := n.applied ++ [.connect peer] }
  | .disconnect peer =>
    { n with
      peerData := Function.update n.peerData peer none
      peer := none
      applied := n.applied ++ [.disconnect peer] }
  | .receive _ data => { n with receiveQueue := n.receiveQueue ++ [data] }

/-- One round of the second loop, with `limit_counter`. An event has been taken when the counter is
compared. -/
def tickStep (st : ℕ × Network Peer Packet) :
    (ℕ × Network Peer Packet) ⊕ Network Peer Packet :=
  match st.2.hostService with
  | none => Sum.inr st.2
  | some (event, n) =>
    let limitCounter := (st.1 + 1) % 256
    if limitCounter < eventLimit then Sum.inl (limitCounter, n.handle event) else Sum.inr n

/-- `tick`: what is enqueued is sent, and events are handled until none is left or the limit is
reached. -/
def tick (n : Network Peer Packet) : Option (Network Peer Packet) :=
  BoundedLoop.run tickStep eventLimit (0, n.transmitEnqueued)

/-- A call, with the message it returns. -/
def call (n : Network Peer Packet) :
    NetworkCall Peer Packet → Option (Option (List UInt8) × Network Peer Packet)
  | .arrive events => some (none, { n with pending := n.pending ++ events })
  | .enqueue msg channelId =>
    some (none, { n with enqueuedMsgs := n.enqueuedMsgs ++ [(msg, channelId)] })
  | .tick => n.tick.map (none, ·)
  | .pop => some (n.receiveQueue.head?,
      { n with
        receiveQueue := n.receiveQueue.tail
        popped := n.popped ++ n.receiveQueue.head?.toList })


/-! ### One tick -/

/-- Events are taken from the host and some of them handled. -/
def service (n : Network Peer Packet) (handled taken : List (ENetEvent Peer)) :
    Network Peer Packet :=
  handled.foldl handle
    { n with pending := n.pending.drop taken.length, taken := n.taken ++ taken }

theorem service_nil (n : Network Peer Packet) : n.service [] [] = n := by
  rw [service, List.append_nil]
  rfl

theorem service_cons {event : ENetEvent Peer} {pending : List (ENetEvent Peer)}
    (hp : n.pending = event :: pending) (handled taken : List (ENetEvent Peer)) :
    n.service (event :: handled) (event :: taken) =
      (({ n with pending := pending, taken := n.taken ++ [event] }).handle event).service
        handled taken := by
  rw [service, service, List.foldl_cons, hp, List.length_cons, List.drop_succ_cons]
  congr 1
  cases event <;> simp only [handle, List.append_assoc, List.singleton_append]

@[simp] theorem pending_handle (n : Network Peer Packet) (event : ENetEvent Peer) :
    (n.handle event).pending = n.pending := by
  cases event <;> rfl

/-- Without a pending event the loop ends. -/
theorem run_tickStep_of_nil (hp : n.pending = []) (fuel counter : ℕ) :
    BoundedLoop.run tickStep (fuel + 1) (counter, n) = some n := by
  refine BoundedLoop.run_succ_of_inr ?_ fuel
  simp only [tickStep, hostService_of_nil hp]

/-- The loop, `k` rounds before the counter reaches the limit. -/
theorem run_tickStep (k : ℕ) {counter : ℕ} (hk : counter + k + 1 = eventLimit)
    (n : Network Peer Packet) :
    BoundedLoop.run tickStep (k + 1) (counter, n) =
      some (n.service (n.pending.take k) (n.pending.take (k + 1))) := by
  have hlimit : eventLimit = 100 := rfl
  induction k generalizing counter n with
  | zero =>
    rcases hp : n.pending with _ | ⟨event, pending⟩
    · rw [run_tickStep_of_nil hp, List.take_nil, List.take_nil, service_nil]
    · have hround : tickStep (counter, n) =
          Sum.inr { n with pending := pending, taken := n.taken ++ [event] } := by
        simp only [tickStep, hostService_of_cons hp]
        exact if_neg (by omega)
      rw [BoundedLoop.run_succ_of_inr hround, List.take_zero, List.take_succ_cons, List.take_zero,
        service, hp]
      rfl
  | succ k ih =>
    rcases hp : n.pending with _ | ⟨event, pending⟩
    · rw [run_tickStep_of_nil hp, List.take_nil, List.take_nil, service_nil]
    · have hround : tickStep (counter, n) = Sum.inl (counter + 1,
          ({ n with pending := pending, taken := n.taken ++ [event] }).handle event) := by
        simp only [tickStep, hostService_of_cons hp]
        rw [Nat.mod_eq_of_lt (by omega)]
        exact if_pos (by omega)
      rw [BoundedLoop.run_succ_of_inl hround, ih (by omega), pending_handle, List.take_succ_cons,
        List.take_succ_cons, service_cons hp]

/-- **One tick** takes up to 100 events from the host and handles all of them but the hundredth. -/
theorem tick_eq (n : Network Peer Packet) :
    n.tick = some (n.transmitEnqueued.service (n.pending.take (eventLimit - 1))
      (n.pending.take eventLimit)) := by
  rw [tick, ← pending_transmitEnqueued]
  exact run_tickStep (eventLimit - 1) rfl n.transmitEnqueued

/-- What the logs and the peer are after some events have been taken and some of them handled. -/
structure Serviced (n n' : Network Peer Packet) (handled taken : List (ENetEvent Peer)) : Prop where
  popped_eq : n'.popped = n.popped
  receiveQueue_eq : n'.receiveQueue = n.receiveQueue ++ handled.filterMap ENetEvent.message
  applied_eq : n'.applied = n.applied ++ handled.filter ENetEvent.isPeerEvent
  peer_eq : n'.peer = handled.foldl ENetEvent.applyTo n.peer
  taken_eq : n'.taken = n.taken ++ taken

theorem serviced_foldl (n : Network Peer Packet) (handled : List (ENetEvent Peer)) :
    Serviced n (handled.foldl handle n) handled [] := by
  induction handled generalizing n with
  | nil => exact ⟨rfl, (List.append_nil _).symm, (List.append_nil _).symm, rfl,
      (List.append_nil _).symm⟩
  | cons event handled ih =>
    have h := ih (n.handle event)
    rcases event with peer | peer | ⟨peer, data⟩
    · refine ⟨h.popped_eq, h.receiveQueue_eq, h.applied_eq.trans ?_, h.peer_eq, h.taken_eq⟩
      exact List.append_assoc ..
    · refine ⟨h.popped_eq, h.receiveQueue_eq, h.applied_eq.trans ?_, h.peer_eq, h.taken_eq⟩
      exact List.append_assoc ..
    · refine ⟨h.popped_eq, h.receiveQueue_eq.trans ?_, h.applied_eq, h.peer_eq, h.taken_eq⟩
      exact List.append_assoc ..

/-- **One tick and the logs.** -/
theorem exists_tick (n : Network Peer Packet) :
    ∃ n', n.tick = some n' ∧
      Serviced n n' (n.pending.take (eventLimit - 1)) (n.pending.take eventLimit) := by
  obtain ⟨sent, hsent⟩ := n.transmitEnqueued_eq
  refine ⟨_, n.tick_eq, ?_⟩
  rw [hsent, service]
  have h := serviced_foldl
    { n with
      sent := sent
      enqueuedMsgs := []
      pending := n.pending.drop (n.pending.take eventLimit).length
      taken := n.taken ++ n.pending.take eventLimit }
    (n.pending.take (eventLimit - 1))
  exact ⟨h.popped_eq, h.receiveQueue_eq, h.applied_eq, h.peer_eq,
    h.taken_eq.trans (List.append_nil _)⟩

/-! ### Runs -/

/-- No call fails. -/
theorem exists_call (n : Network Peer Packet) (c : NetworkCall Peer Packet) :
    ∃ o n', n.call c = some (o, n') := by
  rcases c with events | ⟨msg, channelId⟩ | _ | _
  · exact ⟨_, _, rfl⟩
  · exact ⟨_, _, rfl⟩
  · obtain ⟨n', htick, -⟩ := n.exists_tick
    exact ⟨none, n', congrArg (Option.map _) htick⟩
  · exact ⟨_, _, rfl⟩

/-- **A call loses nothing** unless it is a tick that finds 100 events. -/
theorem LosesNothing.call {peer : Option Peer} (h : LosesNothing peer n)
    {c : NetworkCall Peer Packet} (hc : c = .tick → n.pending.length < eventLimit)
    {o : Option (List UInt8)} (hcall : n.call c = some (o, n')) : LosesNothing peer n' := by
  rcases c with events | ⟨msg, channelId⟩ | _ | _
  · obtain ⟨-, rfl⟩ := Prod.mk.inj (Option.some.inj hcall)
    exact ⟨h.received_eq, h.applied_eq, h.peer_eq⟩
  · obtain ⟨-, rfl⟩ := Prod.mk.inj (Option.some.inj hcall)
    exact ⟨h.received_eq, h.applied_eq, h.peer_eq⟩
  · obtain ⟨m, htick, hs⟩ := n.exists_tick
    obtain ⟨m', htick', heq⟩ := Option.map_eq_some_iff.1 hcall
    obtain rfl := Option.some.inj (htick.symm.trans htick')
    obtain ⟨-, rfl⟩ := Prod.mk.inj heq
    have hlt := hc rfl
    rw [List.take_of_length_le hlt.le, List.take_of_length_le (Nat.le_sub_one_of_lt hlt)] at hs
    refine ⟨?_, ?_, ?_⟩
    · rw [hs.popped_eq, hs.receiveQueue_eq, hs.taken_eq, ← List.append_assoc, h.received_eq,
        List.filterMap_append]
    · rw [hs.applied_eq, hs.taken_eq, h.applied_eq, List.filter_append]
    · rw [hs.peer_eq, hs.taken_eq, h.peer_eq, List.foldl_append]
  · obtain ⟨-, rfl⟩ := Prod.mk.inj (Option.some.inj hcall)
    refine ⟨?_, h.applied_eq, h.peer_eq⟩
    rw [← h.received_eq, List.append_assoc]
    refine congrArg (n.popped ++ ·) ?_
    rcases n.receiveQueue with _ | ⟨msg, msgs⟩ <;> rfl

/-- **The gap** between the events taken and those handled never closes, and a tick that finds 100
events widens it. -/
theorem gap_le {c : NetworkCall Peer Packet} {o : Option (List UInt8)}
    (hcall : n.call c = some (o, n')) :
    n'.handledCount + n.taken.length ≤ n.handledCount + n'.taken.length ∧
      (c = .tick → eventLimit ≤ n.pending.length →
        n'.handledCount + n.taken.length < n.handledCount + n'.taken.length) := by
  rcases c with events | ⟨msg, channelId⟩ | _ | _
  · obtain ⟨-, rfl⟩ := Prod.mk.inj (Option.some.inj hcall)
    exact ⟨le_rfl, nofun⟩
  · obtain ⟨-, rfl⟩ := Prod.mk.inj (Option.some.inj hcall)
    exact ⟨le_rfl, nofun⟩
  · obtain ⟨m, htick, hs⟩ := n.exists_tick
    obtain ⟨m', htick', heq⟩ := Option.map_eq_some_iff.1 hcall
    obtain rfl := Option.some.inj (htick.symm.trans htick')
    obtain ⟨-, rfl⟩ := Prod.mk.inj heq
    have hcount := length_message_add_isPeerEvent (n.pending.take (eventLimit - 1))
    have hlimit : eventLimit = 100 := rfl
    simp only [handledCount, hs.popped_eq, hs.receiveQueue_eq, hs.applied_eq, hs.taken_eq,
      List.length_append, List.length_take] at hcount ⊢
    omega
  · obtain ⟨-, rfl⟩ := Prod.mk.inj (Option.some.inj hcall)
    refine ⟨?_, nofun⟩
    simp only [handledCount, List.length_append]
    rcases n.receiveQueue with _ | ⟨msg, msgs⟩
    · exact le_rfl
    · simp only [List.head?_cons, Option.toList_some, List.tail_cons, List.length_cons,
        List.length_nil]
      omega

theorem gap_le_final {calls : List (NetworkCall Peer Packet)}
    (h : Machine.final call n calls = some n') :
    n'.handledCount + n.taken.length ≤ n.handledCount + n'.taken.length := by
  induction calls generalizing n with
  | nil =>
    obtain rfl := Option.some.inj h
    exact le_rfl
  | cons c calls ih =>
    obtain ⟨o, m, hcall⟩ := n.exists_call c
    rw [Machine.final_cons hcall] at h
    have hfirst := (gap_le hcall).1
    have hrest := ih h
    omega

theorem LosesNothing.final {peer : Option Peer} (h : LosesNothing peer n)
    {calls : List (NetworkCall Peer Packet)}
    (hc : ∀ before after m, calls = before ++ .tick :: after →
      Machine.final Network.call n before = some m → m.pending.length < eventLimit) :
    ∃ n', Machine.final Network.call n calls = some n' ∧ LosesNothing peer n' := by
  induction calls generalizing n with
  | nil => exact ⟨n, rfl, h⟩
  | cons c calls ih =>
    obtain ⟨o, m, hcall⟩ := n.exists_call c
    have hm : LosesNothing peer m :=
      h.call (fun htick ↦ hc [] calls n (congrArg (· :: calls) htick) rfl) hcall
    rw [Machine.final_cons hcall]
    refine ih hm fun before after m' hsplit hm' ↦ hc (c :: before) after m' ?_ ?_
    · rw [hsplit, List.cons_append]
    · rw [Machine.final_cons hcall, hm']

/-- **No event is lost** in exactly the runs in which every tick finds fewer than 100 pending
events. -/
theorem losesNothing_iff (peer : Option Peer) (calls : List (NetworkCall Peer Packet)) :
    (∃ n, Machine.final call (start peer) calls = some n ∧ LosesNothing peer n) ↔
      ∀ before after n, calls = before ++ .tick :: after →
        Machine.final call (start peer) before = some n → n.pending.length < eventLimit := by
  constructor
  · rintro ⟨n', hfinal, hn'⟩ before after n rfl hn
    by_contra hge
    obtain ⟨o, m, hcall⟩ := n.exists_call .tick
    rw [Machine.final_append, hn, Option.bind_some, Machine.final_cons hcall] at hfinal
    have hbefore := gap_le_final hn
    have htick := (gap_le hcall).2 rfl (Nat.le_of_not_lt hge)
    have hafter := gap_le_final hfinal
    have hstart := (@losesNothing_start Peer Packet peer).handledCount_eq
    have hend := hn'.handledCount_eq
    omega
  · exact (losesNothing_start peer).final

/-- A hundred packets arrive before a tick: one is lost. -/
theorem not_losesNothing_hundred :
    ¬ ∃ n, Machine.final call (start none : Network ℕ ℕ)
        [.arrive (List.replicate 100 (.receive 0 [])), .tick] = some n ∧ LosesNothing none n := by
  rintro ⟨n, hfinal, hn⟩
  have hcounts : (Machine.final call (start none : Network ℕ ℕ)
      [.arrive (List.replicate 100 (.receive 0 [])), .tick]).map
        (fun n ↦ (n.handledCount, n.taken.length)) = some (99, 100) := by
    decide +kernel
  rw [hfinal, Option.map_some, hn.handledCount_eq] at hcounts
  have heq := Prod.mk.inj (Option.some.inj hcounts)
  omega

end Network

end Middleware
