import R2DTU.Library.RingQueue
import R2DTU.Library.TransitionSystem
import Mathlib.Data.List.Nodup

/-!
# Publishers, subscribers and the relay between two nodes

A node has, for each topic, the subscribers of its publisher. `publish` pushes a message into the
queue of every subscriber. A topic that is advertised on the network has one more subscriber, marked
as networked, whose queue `network_tick` empties into the link; what arrives on the link is pushed
to the subscribers that are not networked.

The nodes agree on topic ids, so a channel id names the topic on both sides. Packets arrive in order
and none is lost on the way, but `Network::tick` looks at no more than 100 events in one call and
fetches the hundredth without handling it.

Messages carry the node and the topic they were published on and a serial number. None of the
functions below reads them; they, and the logs of `Relay`, are there to state what happens to a
message.
-/

namespace Middleware

/-- The two nodes. -/
inductive Side
  | host
  | client
  deriving DecidableEq

def Side.other : Side → Side
  | host => client
  | client => host

/-- A published message. -/
structure Message (Channel : Type) where
  /-- The node that has published it. -/
  origin : Side
  /-- The channel it was published on. -/
  topic : Channel
  /-- Its number among all messages that were published. -/
  serial : ℕ
  deriving DecidableEq

/-- `DEFAULT_QUEUE_SIZE`: how many messages the queue of a subscriber holds. -/
def defaultQueueSize : ℕ := 16

/-- `Subscriber`: the messages it has not read yet, and whether it stands for the network, which
reads them to send them to the other nodes. -/
structure Subscriber (Channel : Type) where
  /-- The messages it has not read yet. -/
  queue : RingQueue (Message Channel) defaultQueueSize
  /-- Whether it stands for the network. -/
  networked : Bool

namespace Subscriber

variable {Channel : Type}

/-- A new subscriber; `mark_as_networked` sets the flag before anything is pushed. -/
def new (networked : Bool) : Subscriber Channel := ⟨RingQueue.empty (by decide), networked⟩

def push (sub : Subscriber Channel) (msg : Message Channel) : Subscriber Channel :=
  { sub with queue := sub.queue.put msg }

def next (sub : Subscriber Channel) : Option (Message Channel × Subscriber Channel) :=
  sub.queue.get.map fun p ↦ (p.1, { sub with queue := p.2 })

/-- `next` until there is nothing left. -/
def takeAll (sub : Subscriber Channel) : List (Message Channel) × Subscriber Channel :=
  ((RingQueue.drain defaultQueueSize sub.queue).1,
    { sub with queue := (RingQueue.drain defaultQueueSize sub.queue).2 })

end Subscriber

/-- A packet: the channel written into the header, and the message. -/
abbrev Packet (Channel : Type) := Channel × Message Channel

/-- `Node`: the subscribers of each publisher, and the networked ones by publisher and position. -/
structure Node (Channel : Type) where
  /-- The subscribers of a channel, in the order in which they came. -/
  subscribers : Channel → List (Subscriber Channel)
  /-- The channel and the place of each subscriber that stands for the network. -/
  networkSubs : List (Channel × ℕ)

section Model

variable {Channel : Type} [DecidableEq Channel]

namespace Node

def empty : Node Channel := ⟨fun _ ↦ [], []⟩

def setSubscribers (n : Node Channel) (c : Channel) (subs : List (Subscriber Channel)) :
    Node Channel :=
  { n with subscribers := Function.update n.subscribers c subs }

/-- `subscribe`: a new reader of a channel inside the node. -/
def subscribe (n : Node Channel) (c : Channel) : Node Channel :=
  n.setSubscribers c (n.subscribers c ++ [Subscriber.new false])

/-- `network_advertise`: another node reads the channel from now on, so the network subscribes to
it. -/
def networkAdvertise (n : Node Channel) (c : Channel) : Node Channel :=
  { n.setSubscribers c (n.subscribers c ++ [Subscriber.new true]) with
    networkSubs := n.networkSubs ++ [(c, (n.subscribers c).length)] }

/-- `Publisher::publish`: the message goes to all subscribers of the channel, the network among
them. -/
def publish (n : Node Channel) (c : Channel) (msg : Message Channel) : Node Channel :=
  n.setSubscribers c ((n.subscribers c).map (·.push msg))

/-- The first loop of `network_tick` for one networked subscriber. -/
def sendFrom (st : List (Packet Channel) × Node Channel) (p : Channel × ℕ) :
    List (Packet Channel) × Node Channel :=
  match (st.2.subscribers p.1)[p.2]? with
  | none => st
  | some sub =>
    (st.1 ++ sub.takeAll.1.map fun msg ↦ (p.1, msg),
      st.2.setSubscribers p.1 ((st.2.subscribers p.1).set p.2 sub.takeAll.2))

/-- The first loop of `network_tick`: the packets transmitted, and the node afterwards. -/
def send (n : Node Channel) : List (Packet Channel) × Node Channel :=
  n.networkSubs.foldl sendFrom ([], n)

/-- The second loop of `network_tick` for one received message. -/
def deliver (n : Node Channel) (packet : Packet Channel) : Node Channel :=
  n.setSubscribers packet.1 ((n.subscribers packet.1).map fun sub ↦
    if sub.networked then sub else sub.push packet.2)

/-- `Subscriber::next` on the `k`-th subscriber of a publisher. -/
def next (n : Node Channel) (c : Channel) (k : ℕ) : Option (Message Channel × Node Channel) :=
  (n.subscribers c)[k]?.bind fun sub ↦ sub.next.map fun p ↦
    (p.1, n.setSubscribers c ((n.subscribers c).set k p.2))

end Node

/-! ### Two nodes and a link -/

/-- The nodes, the packets on their way from each side, and three logs: what was published, what
each side has transmitted and what each subscriber was handed. -/
structure Relay (Channel : Type) where
  /-- The two nodes. -/
  nodes : Side → Node Channel
  /-- The packets a node has sent and the other one has not received. -/
  link : Side → List (Packet Channel)
  /-- All messages that were published. -/
  published : List (Message Channel)
  /-- What a node has sent. -/
  crossed : Side → List (Message Channel)
  /-- What a subscriber was handed. -/
  handed : Side → Channel → ℕ → List (Message Channel)

/-- How many events `Network::tick` fetches at most, and how many of them it handles. -/
def eventLimit : ℕ := 100

/-- A call on one of the nodes. `networkTick` carries the number of packets that have arrived. -/
inductive Call (Channel : Type)
  | subscribe (s : Side) (c : Channel)
  | networkAdvertise (s : Side) (c : Channel)
  | publish (s : Side) (c : Channel)
  | networkTick (s : Side) (arrived : ℕ)
  | next (s : Side) (c : Channel) (k : ℕ)

namespace Relay

def start : Relay Channel := ⟨fun _ ↦ Node.empty, fun _ ↦ [], [], fun _ ↦ [], fun _ _ _ ↦ []⟩

def setNode (r : Relay Channel) (s : Side) (n : Node Channel) : Relay Channel :=
  { r with nodes := Function.update r.nodes s n }

/-- The message a publication creates. -/
def newMessage (r : Relay Channel) (s : Side) (c : Channel) : Message Channel :=
  ⟨s, c, r.published.length⟩

/-- `Publisher::publish` of a new message. -/
def publish (r : Relay Channel) (s : Side) (c : Channel) : Relay Channel :=
  { r.setNode s ((r.nodes s).publish c (r.newMessage s c)) with
    published := r.published ++ [r.newMessage s c] }

/-- Everything a side's networked subscribers hold goes on the link. -/
def transmit (r : Relay Channel) (s : Side) : Relay Channel :=
  { r.setNode s (r.nodes s).send.2 with
    link := Function.update r.link s (r.link s ++ (r.nodes s).send.1)
    crossed := Function.update r.crossed s (r.crossed s ++ (r.nodes s).send.1.map Prod.snd) }

/-- Packets that have arrived at a side are fetched, and all but the hundredth delivered. -/
def receive (r : Relay Channel) (s : Side) (arrived : ℕ) : Relay Channel :=
  let fetched := (r.link s.other).take (min arrived eventLimit)
  { r.setNode s ((fetched.take (eventLimit - 1)).foldl Node.deliver (r.nodes s)) with
    link := Function.update r.link s.other ((r.link s.other).drop (min arrived eventLimit)) }

/-- `Subscriber::next`, with what it returns added to the log. -/
def next (r : Relay Channel) (s : Side) (c : Channel) (k : ℕ) : Relay Channel :=
  match (r.nodes s).next c k with
  | none => r
  | some (msg, n) =>
    { r.setNode s n with
      handed := Function.update r.handed s (Function.update (r.handed s) c
        (Function.update (r.handed s c) k (r.handed s c k ++ [msg]))) }

/-- One call; `none` for a second `network_advertise` of a topic and for `next` on a networked
subscriber, which no module has. -/
def call (r : Relay Channel) : Call Channel → Option (Relay Channel)
  | .subscribe s c => some (r.setNode s ((r.nodes s).subscribe c))
  | .networkAdvertise s c =>
    if c ∈ (r.nodes s).networkSubs.map Prod.fst then none
    else some (r.setNode s ((r.nodes s).networkAdvertise c))
  | .publish s c => some (r.publish s c)
  | .networkTick s arrived => some ((r.transmit s).receive s arrived)
  | .next s c k => if (c, k) ∈ (r.nodes s).networkSubs then none else some (r.next s c k)

end Relay

/-- All interleavings of calls on the two nodes. -/
def relaying (Channel : Type) [DecidableEq Channel] : TransitionSystem (Relay Channel) where
  init := fun r ↦ r = Relay.start
  step := fun r r' ↦ ∃ c, r.call c = some r'

end Model

end Middleware
