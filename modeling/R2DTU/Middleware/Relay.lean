import R2DTU.Middleware.PubSub

/-!
# No echo, no duplicates, no reordering

What a message can still do is read off a chain of lists. For a subscriber on the side a message did
not come from the chain is: what the subscriber was handed, what it has in its queue, what is on the
link, and what waits in the networked queue at the origin. Along every run this chain, restricted to
the messages of one node on one topic, is a **sublist of what that node published on the topic**, in
the order of publication (`Relaying.foreign`); on the side of the origin the chain is shorter
(`Relaying.own`). Queues that are lapped and packets that are fetched and not handled only shorten
the chain.

Nothing returns to its origin, because received messages are not pushed to networked subscribers:
the networked queue of a node holds messages of that node only, which is part of
`Relaying.crossing`.

The node operations enter through what they do to `Node.pendingAt` and `Node.outbox`.
-/

namespace Middleware

variable {Channel : Type} [DecidableEq Channel]

namespace Node

variable {n : Node Channel}

/-! ### What a node holds -/

/-- The unread messages of a subscriber; none when there is no such subscriber. -/
def pendingAt (n : Node Channel) (c : Channel) (k : ℕ) : List (Message Channel) :=
  ((n.subscribers c)[k]?.map fun sub ↦ sub.queue.pending).getD []

/-- The unread messages of the networked subscriber of a topic. -/
def outbox (n : Node Channel) (c : Channel) : List (Message Channel) :=
  match n.networkSubs.find? fun p ↦ p.1 = c with
  | some p => n.pendingAt p.1 p.2
  | none => []

/-- Which subscribers of a topic are networked. -/
def flags (n : Node Channel) (c : Channel) : List Bool :=
  (n.subscribers c).map Subscriber.networked

/-- The list of networked subscribers has one entry per topic, and points to those that are marked
as networked. -/
structure Wired (n : Node Channel) : Prop where
  /-- A channel has one entry at most. -/
  nodup : (n.networkSubs.map Prod.fst).Nodup
  /-- The entries are the subscribers that are marked. -/
  flag_iff {c : Channel} {k : ℕ} : (n.flags c)[k]? = some true ↔ (c, k) ∈ n.networkSubs

omit [DecidableEq Channel] in
theorem Wired.congr {n' : Node Channel} (h : n.Wired) (hflags : ∀ c, n'.flags c = n.flags c)
    (hsubs : n'.networkSubs = n.networkSubs) : n'.Wired := by
  refine ⟨hsubs ▸ h.nodup, fun {c k} ↦ ?_⟩
  rw [hflags, hsubs]
  exact h.flag_iff

theorem subscribers_setSubscribers (c c' : Channel) (subs : List (Subscriber Channel)) :
    (n.setSubscribers c subs).subscribers c' = if c' = c then subs else n.subscribers c' := by
  simp only [setSubscribers, Function.update_apply]

omit [DecidableEq Channel] in
theorem networked_iff (h : n.Wired) {c : Channel} {k : ℕ} {sub : Subscriber Channel}
    (hsub : (n.subscribers c)[k]? = some sub) : sub.networked = true ↔ (c, k) ∈ n.networkSubs := by
  rw [← h.flag_iff, flags, List.getElem?_map, hsub, Option.map_some, Option.some.injEq]

/-- The outbox depends on the queues of the networked subscribers only. -/
theorem outbox_congr {n' : Node Channel} {c : Channel} (hsubs : n'.networkSubs = n.networkSubs)
    (hpend : ∀ k, (c, k) ∈ n.networkSubs → n'.pendingAt c k = n.pendingAt c k) :
    n'.outbox c = n.outbox c := by
  rw [outbox, outbox, hsubs]
  cases hfind : n.networkSubs.find? fun p ↦ p.1 = c with
  | none => rfl
  | some p =>
    have hc : p.1 = c := by simpa using List.find?_some hfind
    have hmem := List.mem_of_find?_eq_some hfind
    obtain ⟨d, k⟩ := p
    obtain rfl : d = c := hc
    exact hpend k hmem

/-! ### New subscribers -/

theorem pendingAt_append (c : Channel) (b : Bool) (c' : Channel) (k : ℕ) :
    (n.setSubscribers c (n.subscribers c ++ [Subscriber.new b])).pendingAt c' k =
      n.pendingAt c' k := by
  rw [pendingAt, pendingAt, subscribers_setSubscribers]
  split_ifs with hc
  · subst hc
    rcases Nat.lt_trichotomy k (n.subscribers c').length with hlt | rfl | hgt
    · rw [List.getElem?_append_left hlt]
    · simp [Subscriber.new]
    · rw [List.getElem?_eq_none (by simpa using Nat.succ_le_of_lt hgt),
        List.getElem?_eq_none (by omega)]
  · rfl

theorem flags_append (c : Channel) (b : Bool) (c' : Channel) :
    (n.setSubscribers c (n.subscribers c ++ [Subscriber.new b])).flags c' =
      if c' = c then n.flags c ++ [b] else n.flags c' := by
  rw [flags, subscribers_setSubscribers]
  split_ifs with hc
  · rw [List.map_append]
    rfl
  · rfl

theorem wired_subscribe (h : n.Wired) (c : Channel) : (n.subscribe c).Wired := by
  refine ⟨h.nodup, fun {c' k} ↦ ?_⟩
  show (Node.flags (n.setSubscribers c _) c')[k]? = some true ↔ (c', k) ∈ n.networkSubs
  rw [flags_append, ← h.flag_iff]
  split_ifs with hc
  · subst hc
    rcases Nat.lt_or_ge k (n.flags c').length with hlt | hge
    · rw [List.getElem?_append_left hlt]
    · rw [List.getElem?_append_right hge, List.getElem?_eq_none hge]
      cases k - (n.flags c').length <;> simp
  · rfl

theorem wired_networkAdvertise (h : n.Wired) {c : Channel}
    (hc : c ∉ n.networkSubs.map Prod.fst) : (n.networkAdvertise c).Wired := by
  refine ⟨?_, fun {c' k} ↦ ?_⟩
  · show ((n.networkSubs ++ [(c, (n.subscribers c).length)]).map Prod.fst).Nodup
    rw [List.map_append, List.map_singleton, List.nodup_append]
    refine ⟨h.nodup, List.nodup_singleton _, fun a ha b hb hab ↦ hc ?_⟩
    rwa [hab, List.mem_singleton.1 hb] at ha
  · show (Node.flags (n.setSubscribers c _) c')[k]? = some true ↔
      (c', k) ∈ n.networkSubs ++ [(c, (n.subscribers c).length)]
    have hlen : (n.flags c).length = (n.subscribers c).length := List.length_map _
    rw [flags_append, List.mem_append, List.mem_singleton, ← h.flag_iff, Prod.mk.injEq]
    split_ifs with hcc
    · subst hcc
      rcases Nat.lt_trichotomy k (n.flags c').length with hlt | rfl | hgt
      · rw [List.getElem?_append_left hlt]
        exact ⟨Or.inl, fun hk ↦ hk.resolve_right fun he ↦ by omega⟩
      · rw [hlen]
        simp [← hlen]
      · rw [List.getElem?_eq_none (by simpa using Nat.succ_le_of_lt hgt),
          List.getElem?_eq_none hgt.le]
        simp only [reduceCtorEq, false_or, true_and, false_iff]
        omega
    · exact ⟨Or.inl, fun hk ↦ hk.resolve_right fun he ↦ hcc he.1⟩

theorem outbox_networkAdvertise (c c' : Channel) :
    (n.networkAdvertise c).outbox c' = n.outbox c' := by
  have hpend : ∀ d k, (n.networkAdvertise c).pendingAt d k = n.pendingAt d k :=
    pendingAt_append c true
  rw [outbox, outbox]
  show (match (n.networkSubs ++ [(c, (n.subscribers c).length)]).find? fun p ↦ p.1 = c' with
    | some p => (n.networkAdvertise c).pendingAt p.1 p.2
    | none => []) = _
  rw [List.find?_append]
  cases hfind : n.networkSubs.find? fun p ↦ p.1 = c' with
  | some p => exact hpend p.1 p.2
  | none =>
    rw [Option.none_or]
    by_cases hcc : c = c'
    · rw [List.find?_cons_of_pos (by simpa using hcc)]
      show (n.networkAdvertise c).pendingAt c (n.subscribers c).length = []
      rw [hpend, pendingAt, List.getElem?_eq_none le_rfl]
      rfl
    · rw [List.find?_cons_of_neg (by simpa using hcc), List.find?_nil]

/-! ### Pushing messages -/

/-- Changing the subscribers of a topic one by one, without changing flags. -/
theorem flags_map {c : Channel} {f : Subscriber Channel → Subscriber Channel}
    (hf : ∀ sub, (f sub).networked = sub.networked) (c' : Channel) :
    (n.setSubscribers c ((n.subscribers c).map f)).flags c' = n.flags c' := by
  rw [flags, flags, subscribers_setSubscribers]
  split_ifs with hc
  · rw [hc, List.map_map]
    exact List.map_congr_left fun sub _ ↦ hf sub
  · rfl

theorem pendingAt_map {c : Channel} {f : Subscriber Channel → Subscriber Channel}
    {msgs : List (Message Channel)}
    (hf : ∀ sub, ((f sub).queue.pending).Sublist (sub.queue.pending ++ msgs)) (c' : Channel)
    (k : ℕ) :
    ((n.setSubscribers c ((n.subscribers c).map f)).pendingAt c' k).Sublist
      (n.pendingAt c' k ++ if c' = c then msgs else []) := by
  rw [pendingAt, pendingAt, subscribers_setSubscribers]
  split_ifs with hc
  · subst hc
    rw [List.getElem?_map]
    cases (n.subscribers c')[k]? with
    | none => exact List.nil_sublist _
    | some sub => exact hf sub
  · rw [List.append_nil]

theorem pendingAt_publish (c : Channel) (msg : Message Channel) (c' : Channel) (k : ℕ) :
    ((n.publish c msg).pendingAt c' k).Sublist
      (n.pendingAt c' k ++ if c' = c then [msg] else []) :=
  pendingAt_map (fun sub ↦ sub.queue.pending_put_sublist msg) c' k

theorem wired_publish (h : n.Wired) (c : Channel) (msg : Message Channel) :
    (n.publish c msg).Wired :=
  h.congr (flags_map fun _ ↦ rfl) rfl

theorem outbox_publish (c : Channel) (msg : Message Channel) (c' : Channel) :
    ((n.publish c msg).outbox c').Sublist (n.outbox c' ++ if c' = c then [msg] else []) := by
  rw [outbox, outbox, show (n.publish c msg).networkSubs = n.networkSubs from rfl]
  cases hfind : n.networkSubs.find? fun p ↦ p.1 = c' with
  | none => exact List.nil_sublist _
  | some p =>
    have hp : p.1 = c' := by simpa using List.find?_some hfind
    rw [← hp]
    exact pendingAt_publish c msg p.1 p.2

/-- **A received message** reaches the queues of the subscribers that are not networked, and leaves
the others alone. -/
theorem pendingAt_deliver (packet : Packet Channel) (c : Channel) (k : ℕ) :
    ((n.deliver packet).pendingAt c k).Sublist
      (n.pendingAt c k ++ if c = packet.1 then [packet.2] else []) := by
  refine pendingAt_map (fun sub ↦ ?_) c k
  split_ifs
  · exact List.sublist_append_left _ _
  · exact sub.queue.pending_put_sublist packet.2

theorem wired_deliver (h : n.Wired) (packet : Packet Channel) : (n.deliver packet).Wired :=
  h.congr (flags_map fun sub ↦ by split_ifs <;> rfl) rfl

theorem outbox_deliver (h : n.Wired) (packet : Packet Channel) (c : Channel) :
    (n.deliver packet).outbox c = n.outbox c := by
  refine outbox_congr rfl fun k hk ↦ ?_
  rw [deliver, pendingAt, pendingAt, subscribers_setSubscribers]
  split_ifs with hc
  · subst hc
    rw [List.getElem?_map]
    cases hsub : (n.subscribers packet.1)[k]? with
    | none => rfl
    | some sub =>
      have hnet := (networked_iff h hsub).2 hk
      simp only [Option.map_some, if_pos hnet]
  · rfl

/-- The messages of the packets on one channel, in order. -/
def onChannel (packets : List (Packet Channel)) (c : Channel) : List (Message Channel) :=
  (packets.filter fun p ↦ p.1 = c).map Prod.snd

theorem onChannel_append (ps qs : List (Packet Channel)) (c : Channel) :
    onChannel (ps ++ qs) c = onChannel ps c ++ onChannel qs c := by
  rw [onChannel, onChannel, onChannel, List.filter_append, List.map_append]

theorem onChannel_cons (p : Packet Channel) (ps : List (Packet Channel)) (c : Channel) :
    onChannel (p :: ps) c = (if c = p.1 then [p.2] else []) ++ onChannel ps c := by
  rw [onChannel, onChannel]
  by_cases hc : p.1 = c
  · rw [List.filter_cons_of_pos (by simpa using hc), if_pos hc.symm, List.map_cons]
    rfl
  · rw [List.filter_cons_of_neg (by simpa using hc), if_neg (Ne.symm hc), List.nil_append]

/-- **All received messages.** -/
theorem foldl_deliver (h : n.Wired) (packets : List (Packet Channel)) :
    (packets.foldl deliver n).Wired ∧
      (packets.foldl deliver n).networkSubs = n.networkSubs ∧
      (∀ c, (packets.foldl deliver n).outbox c = n.outbox c) ∧
      ∀ c k, ((packets.foldl deliver n).pendingAt c k).Sublist
        (n.pendingAt c k ++ onChannel packets c) := by
  induction packets generalizing n with
  | nil => exact ⟨h, rfl, fun _ ↦ rfl, fun c k ↦ by simp [onChannel]⟩
  | cons packet packets ih =>
    obtain ⟨hw, hsubs, hout, hpend⟩ := ih (wired_deliver h packet)
    refine ⟨hw, hsubs, fun c ↦ (hout c).trans (outbox_deliver h packet c), fun c k ↦ ?_⟩
    rw [onChannel_cons, ← List.append_assoc]
    exact (hpend c k).trans ((pendingAt_deliver packet c k).append_right _)

/-! ### Emptying the networked queues -/

omit [DecidableEq Channel] in
theorem takeAll_spec (sub : Subscriber Channel) :
    sub.takeAll.1 = sub.queue.pending ∧ sub.takeAll.2.queue.pending = [] ∧
      sub.takeAll.2.networked = sub.networked := by
  have hlen : sub.queue.pending.length ≤ defaultQueueSize := by
    rw [RingQueue.length_pending]
    exact sub.queue.count_lt.le
  have hdrain := RingQueue.drain_eq sub.queue hlen
  exact ⟨hdrain.1, hdrain.2, rfl⟩

/-- Replacing one subscriber by one with the same flag. -/
theorem flags_set {c : Channel} {k : ℕ} {sub sub' : Subscriber Channel}
    (hsub : (n.subscribers c)[k]? = some sub) (hflag : sub'.networked = sub.networked)
    (c' : Channel) :
    (n.setSubscribers c ((n.subscribers c).set k sub')).flags c' = n.flags c' := by
  rw [flags, flags, subscribers_setSubscribers]
  split_ifs with hc
  · subst hc
    obtain ⟨hk, hget⟩ := List.getElem?_eq_some_iff.1 hsub
    rw [List.map_set, hflag, ← hget, ← List.getElem_map Subscriber.networked, List.set_getElem_self]
    simpa using hk
  · rfl

theorem pendingAt_set {c : Channel} {k : ℕ} {sub sub' : Subscriber Channel}
    (hsub : (n.subscribers c)[k]? = some sub) (c' : Channel) (k' : ℕ) :
    (n.setSubscribers c ((n.subscribers c).set k sub')).pendingAt c' k' =
      if (c', k') = (c, k) then sub'.queue.pending else n.pendingAt c' k' := by
  have hk := (List.getElem?_eq_some_iff.1 hsub).1
  rw [pendingAt, pendingAt, subscribers_setSubscribers]
  simp only [Prod.mk.injEq]
  by_cases hc : c' = c
  · subst hc
    by_cases hkk : k' = k
    · subst hkk
      simp [hk]
    · simp [hkk, List.getElem?_set_ne (Ne.symm hkk)]
  · simp [hc]

/-- **One networked queue** is transmitted and left empty. -/
theorem sendFrom_spec (packets : List (Packet Channel)) (p : Channel × ℕ) :
    (sendFrom (packets, n) p).1 =
        packets ++ (n.pendingAt p.1 p.2).map (fun msg ↦ (p.1, msg)) ∧
      (sendFrom (packets, n) p).2.networkSubs = n.networkSubs ∧
      (∀ c, (sendFrom (packets, n) p).2.flags c = n.flags c) ∧
      ∀ c k, (sendFrom (packets, n) p).2.pendingAt c k =
        if (c, k) = p then [] else n.pendingAt c k := by
  cases hsub : (n.subscribers p.1)[p.2]? with
  | none =>
    have hnil : n.pendingAt p.1 p.2 = [] := by rw [pendingAt, hsub]; rfl
    have heq : sendFrom (packets, n) p = (packets, n) := by simp only [sendFrom, hsub]
    rw [heq, hnil]
    refine ⟨by simp, rfl, fun _ ↦ rfl, fun c k ↦ ?_⟩
    split_ifs with hp
    · rw [← hp] at hnil
      exact hnil
    · rfl
  | some sub =>
    obtain ⟨hall, hempty, hflag⟩ := takeAll_spec sub
    have hpend : n.pendingAt p.1 p.2 = sub.queue.pending := by rw [pendingAt, hsub]; rfl
    simp only [sendFrom, hsub]
    refine ⟨by rw [hall, hpend], rfl, flags_set hsub hflag, fun c k ↦ ?_⟩
    rw [pendingAt_set hsub, hempty]

theorem foldl_sendFrom (subs : List (Channel × ℕ)) (hnodup : (subs.map Prod.fst).Nodup)
    (packets : List (Packet Channel)) :
    (subs.foldl sendFrom (packets, n)).1 =
        packets ++ subs.flatMap (fun p ↦ (n.pendingAt p.1 p.2).map fun msg ↦ (p.1, msg)) ∧
      (subs.foldl sendFrom (packets, n)).2.networkSubs = n.networkSubs ∧
      (∀ c, (subs.foldl sendFrom (packets, n)).2.flags c = n.flags c) ∧
      ∀ c k, (subs.foldl sendFrom (packets, n)).2.pendingAt c k =
        if (c, k) ∈ subs then [] else n.pendingAt c k := by
  induction subs generalizing n packets with
  | nil => exact ⟨by simp, rfl, fun _ ↦ rfl, fun c k ↦ by simp⟩
  | cons p subs ih =>
    rw [List.map_cons, List.nodup_cons] at hnodup
    obtain ⟨hpackets, hsubs, hflags, hpend⟩ := @sendFrom_spec _ _ n packets p
    obtain ⟨ihpackets, ihsubs, ihflags, ihpend⟩ :=
      @ih (sendFrom (packets, n) p).2 hnodup.2 (sendFrom (packets, n) p).1
    rw [List.foldl_cons]
    refine ⟨?_, ihsubs.trans hsubs, fun c ↦ (ihflags c).trans (hflags c), fun c k ↦ ?_⟩
    · rw [ihpackets, hpackets, List.flatMap_cons, List.append_assoc]
      congr 2
      refine List.flatMap_congr fun q hq ↦ ?_
      -- the queues still to come belong to other topics
      rw [hpend, if_neg]
      rintro rfl
      exact hnodup.1 (List.mem_map_of_mem hq)
    · rw [ihpend, hpend]
      simp only [List.mem_cons]
      by_cases hp : (c, k) = p <;> by_cases hm : (c, k) ∈ subs <;> simp [hp, hm]

/-- The packets on one channel among the transmitted ones are the outbox of the topic. -/
theorem onChannel_flatMap (subs : List (Channel × ℕ)) (hnodup : (subs.map Prod.fst).Nodup)
    (f : Channel → ℕ → List (Message Channel)) (c : Channel) :
    onChannel (subs.flatMap fun p ↦ (f p.1 p.2).map fun msg ↦ (p.1, msg)) c =
      match subs.find? fun p ↦ p.1 = c with
      | some p => f p.1 p.2
      | none => [] := by
  have hmap : ∀ (d : Channel) (msgs : List (Message Channel)),
      onChannel (msgs.map fun msg ↦ (d, msg)) c = if d = c then msgs else [] := by
    intro d msgs
    rw [onChannel, List.filter_map, List.map_map]
    by_cases hd : d = c
    · simp [hd, Function.comp_def]
    · simp [hd, Function.comp_def]
  induction subs with
  | nil => rfl
  | cons p subs ih =>
    rw [List.map_cons, List.nodup_cons] at hnodup
    rw [List.flatMap_cons, onChannel_append, hmap, ih hnodup.2]
    by_cases hp : p.1 = c
    · have hnone : subs.find? (fun q ↦ q.1 = c) = none := by
        rw [List.find?_eq_none]
        intro q hq hqc
        refine hnodup.1 ?_
        rw [hp, ← of_decide_eq_true hqc]
        exact List.mem_map_of_mem hq
      rw [if_pos hp, hnone, List.find?_cons_of_pos (by simpa using hp)]
      exact List.append_nil _
    · rw [if_neg hp, List.nil_append, List.find?_cons_of_neg (by simpa using hp)]

/-- **The first loop of `network_tick`** moves every outbox to the link and leaves the other queues
alone. -/
theorem send_spec (h : n.Wired) :
    n.send.2.Wired ∧ n.send.2.networkSubs = n.networkSubs ∧
      (∀ c, onChannel n.send.1 c = n.outbox c) ∧ (∀ c, n.send.2.outbox c = []) ∧
      ∀ c k, (c, k) ∉ n.networkSubs → n.send.2.pendingAt c k = n.pendingAt c k := by
  obtain ⟨hpackets, hsubs, hflags, hpend⟩ := @foldl_sendFrom _ _ n n.networkSubs h.nodup []
  refine ⟨h.congr hflags hsubs, hsubs, fun c ↦ ?_, fun c ↦ ?_, fun c k hk ↦ ?_⟩
  · rw [send, hpackets, List.nil_append, onChannel_flatMap _ h.nodup n.pendingAt]
    rfl
  · rw [outbox, show n.send.2.networkSubs = n.networkSubs from hsubs]
    cases hfind : n.networkSubs.find? fun p ↦ p.1 = c with
    | none => rfl
    | some p =>
      show n.send.2.pendingAt p.1 p.2 = []
      rw [send, hpend, if_pos (List.mem_of_find?_eq_some hfind)]
  · rw [send, hpend, if_neg hk]

/-! ### Handing out -/

theorem next_spec (h : n.Wired) {c : Channel} {k : ℕ} {msg : Message Channel} {n' : Node Channel}
    (hk : (c, k) ∉ n.networkSubs) (hnext : n.next c k = some (msg, n')) :
    n'.Wired ∧ n'.networkSubs = n.networkSubs ∧ (∀ d, n'.outbox d = n.outbox d) ∧
      n.pendingAt c k = msg :: n'.pendingAt c k ∧
      ∀ d j, (d, j) ≠ (c, k) → n'.pendingAt d j = n.pendingAt d j := by
  obtain ⟨sub, hsub, hrest⟩ := Option.bind_eq_some_iff.1 hnext
  obtain ⟨p, hp, hpair⟩ := Option.map_eq_some_iff.1 hrest
  obtain ⟨q, hq, rfl⟩ := Option.map_eq_some_iff.1 hp
  obtain ⟨rfl, rfl⟩ := Prod.mk.inj hpair
  obtain ⟨a, q', hget, hcons⟩ : ∃ a q', sub.queue.get = some (a, q') ∧
      sub.queue.pending = a :: q'.pending := by
    rcases sub.queue.get_cases with ⟨hnone, -⟩ | hsome
    · rw [hnone] at hq
      exact absurd hq (by simp)
    · exact hsome
  obtain rfl := Option.some.inj (hget.symm.trans hq)
  have hpend := @pendingAt_set _ _ n c k sub { sub with queue := q' } hsub
  refine ⟨h.congr (flags_set hsub rfl) rfl, rfl, fun d ↦ outbox_congr rfl fun j hj ↦ ?_, ?_,
    fun d j hdj ↦ ?_⟩
  · rw [hpend, if_neg]
    rintro hdj
    exact hk (hdj ▸ hj)
  · rw [hpend, if_pos rfl, pendingAt, hsub]
    exact hcons
  · rw [hpend, if_neg hdj]

end Node

/-! ### The chain of a message -/

/-- The messages of one node. -/
def sentBy (s : Side) (msgs : List (Message Channel)) : List (Message Channel) :=
  msgs.filter fun m ↦ m.origin = s

omit [DecidableEq Channel] in
theorem sentBy_append (s : Side) (ms ms' : List (Message Channel)) :
    sentBy s (ms ++ ms') = sentBy s ms ++ sentBy s ms' :=
  List.filter_append _ _

@[simp] theorem Side.other_other (s : Side) : s.other.other = s := by cases s <;> rfl

theorem Side.other_ne (s : Side) : s.other ≠ s := by cases s <;> decide

theorem Side.eq_or_eq_other (s t : Side) : t = s ∨ t = s.other := by
  cases s <;> cases t <;> decide

namespace Relay

variable {r : Relay Channel}

/-- What a subscriber was handed, followed by what waits in its queue. -/
def seen (r : Relay Channel) (s : Side) (c : Channel) (k : ℕ) : List (Message Channel) :=
  r.handed s c k ++ (r.nodes s).pendingAt c k

/-- What a node published on a topic, in order of publication. -/
def publishedOn (r : Relay Channel) (s : Side) (c : Channel) : List (Message Channel) :=
  r.published.filter fun m ↦ m.origin = s ∧ m.topic = c

/-- What left a node on a topic or is about to: packets on the link, then the networked queue. -/
def outgoing (r : Relay Channel) (s : Side) (c : Channel) : List (Message Channel) :=
  Node.onChannel (r.link s) c ++ (r.nodes s).outbox c

/-- What was transmitted on a topic or is about to be. -/
def crossing (r : Relay Channel) (s : Side) (c : Channel) : List (Message Channel) :=
  (r.crossed s).filter (fun m ↦ m.topic = c) ++ (r.nodes s).outbox c

/-- **The chains of the messages of one node**: at a subscriber of its own, on the way to a
subscriber of the other node, and on the link. -/
structure Chains (r : Relay Channel) (o : Side) : Prop where
  /-- Subscribers of the node itself get its messages in order, each at most once. -/
  own {c : Channel} {k : ℕ} : (c, k) ∉ (r.nodes o).networkSubs →
    (sentBy o (r.seen o c k)).Sublist (r.publishedOn o c)
  /-- So do those of the other node, with what is still on its way to them. -/
  foreign {c : Channel} {k : ℕ} : (c, k) ∉ (r.nodes o.other).networkSubs →
    (sentBy o (r.seen o.other c k) ++ r.outgoing o c).Sublist (r.publishedOn o c)
  /-- So does the link. -/
  crossing (c : Channel) : (r.crossing o c).Sublist (r.publishedOn o c)

/-- **The invariant of the relay.** -/
structure Relaying (r : Relay Channel) : Prop where
  /-- Both nodes are wired. -/
  wired (s : Side) : (r.nodes s).Wired
  /-- A message has the number of its publication. -/
  serial {i : ℕ} {m : Message Channel} : r.published[i]? = some m → m.serial = i
  /-- The messages of both nodes are in their chains. -/
  chains (o : Side) : r.Chains o

theorem mem_publishedOn {s : Side} {c : Channel} {m : Message Channel} :
    m ∈ r.publishedOn s c ↔ m ∈ r.published ∧ m.origin = s ∧ m.topic = c := by
  rw [publishedOn, List.mem_filter, decide_eq_true_eq]

omit [DecidableEq Channel] in
theorem nodes_setNode (s : Side) (n : Node Channel) : (r.setNode s n).nodes s = n := by
  simp only [setNode, Function.update_self]

omit [DecidableEq Channel] in
theorem nodes_setNode_other {s t : Side} (h : t ≠ s) (n : Node Channel) :
    (r.setNode s n).nodes t = r.nodes t := by
  simp only [setNode, Function.update_of_ne h]

/-- **The chains grow at the end** by what is published, and may lose elements anywhere. -/
theorem Chains.grow {r' : Relay Channel} {o : Side} {new : Channel → List (Message Channel)}
    (h : r.Chains o) (hpub : ∀ c, r'.publishedOn o c = r.publishedOn o c ++ new c)
    (hsubs : ∀ s, (r.nodes s).networkSubs ⊆ (r'.nodes s).networkSubs)
    (hown : ∀ c k, (c, k) ∉ (r.nodes o).networkSubs →
      (sentBy o (r'.seen o c k)).Sublist (sentBy o (r.seen o c k) ++ new c))
    (hforeign : ∀ c k, (c, k) ∉ (r.nodes o.other).networkSubs →
      (sentBy o (r'.seen o.other c k) ++ r'.outgoing o c).Sublist
        (sentBy o (r.seen o.other c k) ++ r.outgoing o c ++ new c))
    (hcross : ∀ c, (r'.crossing o c).Sublist (r.crossing o c ++ new c)) : r'.Chains o where
  own := fun {c k} hk ↦ by
    have hk' : (c, k) ∉ (r.nodes o).networkSubs := fun hmem ↦ hk (hsubs o hmem)
    rw [hpub]
    exact (hown c k hk').trans ((h.own hk').append_right _)
  foreign := fun {c k} hk ↦ by
    have hk' : (c, k) ∉ (r.nodes o.other).networkSubs := fun hmem ↦ hk (hsubs o.other hmem)
    rw [hpub]
    exact (hforeign c k hk').trans ((h.foreign hk').append_right _)
  crossing := fun c ↦ by
    rw [hpub]
    exact (hcross c).trans ((h.crossing c).append_right _)

/-- The case where nothing is published. -/
theorem Chains.shrink {r' : Relay Channel} {o : Side} (h : r.Chains o)
    (hpub : r'.published = r.published)
    (hsubs : ∀ s, (r.nodes s).networkSubs ⊆ (r'.nodes s).networkSubs)
    (hown : ∀ c k, (c, k) ∉ (r.nodes o).networkSubs →
      (sentBy o (r'.seen o c k)).Sublist (sentBy o (r.seen o c k)))
    (hforeign : ∀ c k, (c, k) ∉ (r.nodes o.other).networkSubs →
      (sentBy o (r'.seen o.other c k) ++ r'.outgoing o c).Sublist
        (sentBy o (r.seen o.other c k) ++ r.outgoing o c))
    (hcross : ∀ c, (r'.crossing o c).Sublist (r.crossing o c)) : r'.Chains o := by
  refine @Chains.grow _ _ r r' o (fun _ ↦ []) h (fun c ↦ ?_) hsubs ?_ ?_ ?_
  · rw [publishedOn, hpub, List.append_nil]
    rfl
  all_goals simpa only [List.append_nil]

/-- A step that leaves the chains alone. The networked subscribers may become more. -/
theorem Relaying.congr {r' : Relay Channel} (h : r.Relaying) (hwired : ∀ s, (r'.nodes s).Wired)
    (hsubs : ∀ s, (r.nodes s).networkSubs ⊆ (r'.nodes s).networkSubs)
    (hseen : ∀ s c k, r'.seen s c k = r.seen s c k)
    (hbox : ∀ s c, (r'.nodes s).outbox c = (r.nodes s).outbox c) (hlink : r'.link = r.link)
    (hpub : r'.published = r.published) (hcrossed : r'.crossed = r.crossed) : r'.Relaying := by
  refine ⟨hwired, fun hi ↦ h.serial (hpub ▸ hi), fun o ↦ (h.chains o).shrink hpub hsubs
    (fun c k _ ↦ ?_) (fun c k _ ↦ ?_) fun c ↦ ?_⟩
  · rw [hseen]
  · rw [hseen, outgoing, hbox, hlink]
    exact List.Sublist.refl _
  · rw [crossing, hbox, hcrossed]
    exact List.Sublist.refl _

omit [DecidableEq Channel] in
/-- A property of both nodes after one of them was changed. -/
theorem forall_nodes_setNode (P : Side → Node Channel → Prop) {s : Side} {n : Node Channel}
    (hself : P s n) (hother : ∀ t, P t (r.nodes t)) (t : Side) :
    P t ((r.setNode s n).nodes t) :=
  (Function.forall_update_iff r.nodes P).2 ⟨hself, fun t _ ↦ hother t⟩ t

/-- Changing a node without touching its queues. -/
theorem Relaying.setNode (h : r.Relaying) {s : Side} {n : Node Channel} (hwired : n.Wired)
    (hsubs : (r.nodes s).networkSubs ⊆ n.networkSubs)
    (hpend : ∀ c k, n.pendingAt c k = (r.nodes s).pendingAt c k)
    (hbox : ∀ c, n.outbox c = (r.nodes s).outbox c) : (r.setNode s n).Relaying := by
  have hpend' := forall_nodes_setNode
    (fun t n' ↦ ∀ c k, n'.pendingAt c k = (r.nodes t).pendingAt c k) hpend fun _ _ _ ↦ rfl
  refine h.congr (forall_nodes_setNode (fun _ ↦ Node.Wired) hwired h.wired)
    (forall_nodes_setNode (fun t n' ↦ (r.nodes t).networkSubs ⊆ n'.networkSubs) hsubs
      fun _ ↦ List.Subset.refl _) (fun t c k ↦ ?_)
    (forall_nodes_setNode (fun t n' ↦ ∀ c, n'.outbox c = (r.nodes t).outbox c) hbox
      fun _ _ ↦ rfl) rfl rfl rfl
  rw [seen, hpend']
  rfl

/-- **What is under way** from a node was published there. -/
theorem Relaying.outgoing_sublist (h : r.Relaying) (s : Side) (c : Channel) :
    (r.outgoing s c).Sublist (r.publishedOn s c) := by
  -- a position where the receiving side has no subscriber at all
  have hk : (c, ((r.nodes s.other).flags c).length) ∉ (r.nodes s.other).networkSubs := by
    rw [← (h.wired s.other).flag_iff, List.getElem?_eq_none le_rfl]
    exact Option.some_ne_none true ∘ Eq.symm
  exact (List.sublist_append_right _ _).trans ((h.chains s).foreign hk)

theorem Relaying.origin_of_link (h : r.Relaying) {s : Side} {c : Channel} {m : Message Channel}
    (hm : m ∈ Node.onChannel (r.link s) c) : m.origin = s :=
  (mem_publishedOn.1 ((h.outgoing_sublist s c).subset (List.mem_append_left _ hm))).2.1

theorem Relaying.nodup (h : r.Relaying) : r.published.Nodup := by
  rw [List.nodup_iff_getElem?_ne_getElem?]
  intro i j hij hj he
  rw [List.getElem?_eq_getElem hj] at he
  have hi := h.serial he
  have hj' := h.serial (List.getElem?_eq_getElem hj)
  omega

/-! ### The steps -/

theorem relaying_start : (Relay.start : Relay Channel).Relaying where
  wired := fun s ↦ ⟨List.nodup_nil, by simp [Relay.start, Node.empty, Node.flags]⟩
  serial := fun hi ↦ absurd hi (by simp [Relay.start])
  chains := fun _ ↦ ⟨fun _ ↦ List.Sublist.refl _, fun _ ↦ List.Sublist.refl _,
    fun _ ↦ List.Sublist.refl _⟩

theorem Relaying.subscribe (h : r.Relaying) (s : Side) (c : Channel) :
    (r.setNode s ((r.nodes s).subscribe c)).Relaying := by
  have hpend := @Node.pendingAt_append _ _ (r.nodes s) c false
  exact h.setNode (Node.wired_subscribe (h.wired s) c) (List.Subset.refl _) hpend
    fun d ↦ Node.outbox_congr rfl fun k _ ↦ hpend d k

theorem Relaying.networkAdvertise (h : r.Relaying) {s : Side} {c : Channel}
    (hc : c ∉ (r.nodes s).networkSubs.map Prod.fst) :
    (r.setNode s ((r.nodes s).networkAdvertise c)).Relaying :=
  h.setNode (Node.wired_networkAdvertise (h.wired s) hc) (List.subset_append_left _ _)
    (Node.pendingAt_append c true) (Node.outbox_networkAdvertise c)

/-! Publishing lengthens the list of publications of one node on one topic, by what it appends to
the queues. -/

theorem filter_published_append (ms : List (Message Channel)) (m : Message Channel) (s : Side)
    (c : Channel) :
    ((ms ++ [m]).filter fun m ↦ m.origin = s ∧ m.topic = c) =
      (ms.filter fun m ↦ m.origin = s ∧ m.topic = c) ++
        if s = m.origin ∧ c = m.topic then [m] else [] := by
  rw [List.filter_append, List.filter_singleton]
  congr 1
  simp only [eq_comm, Bool.cond_decide]

theorem Relaying.publish (h : r.Relaying) (s : Side) (c : Channel) : (r.publish s c).Relaying := by
  set msg := r.newMessage s c with hmsg
  have hself : (r.publish s c).nodes s = (r.nodes s).publish c msg := nodes_setNode s _
  have hother : (r.publish s c).nodes s.other = r.nodes s.other :=
    nodes_setNode_other s.other_ne _
  have hsubs : ∀ t, (r.nodes t).networkSubs ⊆ ((r.publish s c).nodes t).networkSubs :=
    forall_nodes_setNode (fun t n' ↦ (r.nodes t).networkSubs ⊆ n'.networkSubs)
      (List.Subset.refl _) fun _ ↦ List.Subset.refl _
  have hpub : ∀ t d, (r.publish s c).publishedOn t d =
      r.publishedOn t d ++ if t = s ∧ d = c then [msg] else [] := filter_published_append _ msg
  have hseen : ∀ t d k, (sentBy t ((r.publish s c).seen s d k)).Sublist
      (sentBy t (r.seen s d k) ++ if t = s ∧ d = c then [msg] else []) := by
    intro t d k
    rw [seen, seen, hself]
    refine (((Node.pendingAt_publish c msg d k).append_left _).filter _).trans ?_
    rw [← List.append_assoc, List.filter_append]
    refine List.Sublist.append_left ?_ _
    split_ifs with hd ht ht
    · exact List.filter_sublist
    · rw [List.filter_cons_of_neg]
      · exact List.Sublist.refl _
      · simpa [hmsg, newMessage, hd, eq_comm] using ht
    · exact absurd ht.2 hd
    · exact List.Sublist.refl _
  have hout : ∀ d, (((r.publish s c).nodes s).outbox d).Sublist
      ((r.nodes s).outbox d ++ if s = s ∧ d = c then [msg] else []) := by
    intro d
    rw [hself]
    simpa only [true_and] using Node.outbox_publish c msg d
  have hwired : ∀ t, ((r.publish s c).nodes t).Wired :=
    forall_nodes_setNode (fun _ ↦ Node.Wired) (Node.wired_publish (h.wired s) c msg) h.wired
  refine ⟨hwired, fun {i m} hi ↦ ?_, fun o ↦ ?_⟩
  · rcases Nat.lt_or_ge i r.published.length with hlt | hge
    · exact h.serial (List.getElem?_append_left hlt ▸ hi)
    · have hi' : [msg][i - r.published.length]? = some m := List.getElem?_append_right hge ▸ hi
      obtain ⟨hzero, rfl⟩ : i - r.published.length = 0 ∧ msg = m := by
        cases hz : i - r.published.length <;> simp_all
      show r.published.length = i
      omega
  · rcases s.eq_or_eq_other o with rfl | rfl
    · refine (h.chains o).grow (hpub o) hsubs (fun d k _ ↦ hseen o d k) (fun d k _ ↦ ?_) fun d ↦ ?_
      · rw [seen, hother, outgoing, ← List.append_assoc]
        refine ((hout d).append_left _).trans ?_
        rw [← List.append_assoc, outgoing, ← List.append_assoc]
        exact List.Sublist.refl _
      · rw [crossing, crossing, List.append_assoc]
        exact (hout d).append_left _
    · -- the messages of the other node: nothing is published, but a queue may lose some of them
      have hnew : ∀ d, (if s.other = s ∧ d = c then [msg] else []) = [] := fun d ↦
        if_neg fun he ↦ s.other_ne he.1
      have hseen' := hseen s.other
      simp only [hnew, List.append_nil] at hseen'
      refine (h.chains s.other).grow (hpub s.other) hsubs (fun d k _ ↦ ?_) (fun d k _ ↦ ?_)
        fun d ↦ ?_
      · rw [hnew, List.append_nil, seen, hother]
        exact List.Sublist.refl _
      · rw [hnew, List.append_nil, outgoing, hother, Side.other_other]
        exact (hseen' d k).append_right _
      · rw [hnew, List.append_nil, crossing, hother]
        exact List.Sublist.refl _

theorem Relaying.topic_of_send (h : r.Relaying) {s : Side} {p : Packet Channel}
    (hp : p ∈ (r.nodes s).send.1) : p.2.topic = p.1 := by
  obtain ⟨-, -, hon, -, -⟩ := Node.send_spec (h.wired s)
  have hmem : p.2 ∈ Node.onChannel (r.nodes s).send.1 p.1 :=
    List.mem_map_of_mem (List.mem_filter.2 ⟨hp, decide_eq_true rfl⟩)
  rw [hon] at hmem
  exact (mem_publishedOn.1 (((h.chains s).crossing p.1).subset (List.mem_append_right _ hmem))).2.2

theorem Relaying.transmit (h : r.Relaying) (s : Side) : (r.transmit s).Relaying := by
  obtain ⟨hw, hnet, hon, hempty, hpend⟩ := Node.send_spec (h.wired s)
  have hself : (r.transmit s).nodes s = (r.nodes s).send.2 := nodes_setNode s _
  have hother : (r.transmit s).nodes s.other = r.nodes s.other := nodes_setNode_other s.other_ne _
  have hlink : (r.transmit s).link s = r.link s ++ (r.nodes s).send.1 := Function.update_self ..
  have hlink' : (r.transmit s).link s.other = r.link s.other :=
    Function.update_of_ne s.other_ne ..
  have hcross : (r.transmit s).crossed s = r.crossed s ++ (r.nodes s).send.1.map Prod.snd :=
    Function.update_self ..
  have hcross' : (r.transmit s).crossed s.other = r.crossed s.other :=
    Function.update_of_ne s.other_ne ..
  have hsubs : ∀ t, (r.nodes t).networkSubs ⊆ ((r.transmit s).nodes t).networkSubs :=
    forall_nodes_setNode (fun t n' ↦ (r.nodes t).networkSubs ⊆ n'.networkSubs)
      (hnet.symm ▸ List.Subset.refl _) fun _ ↦ List.Subset.refl _
  have hseen : ∀ d k, (d, k) ∉ (r.nodes s).networkSubs →
      (r.transmit s).seen s d k = r.seen s d k := by
    intro d k hk
    rw [seen, hself, hpend d k hk]
    rfl
  -- sending moves the queue to the end of the link, so the two together do not change
  have hout : ∀ d, (r.transmit s).outgoing s d = r.outgoing s d := by
    intro d
    rw [outgoing, hlink, Node.onChannel_append, hon, hself, hempty, List.append_nil]
    rfl
  refine ⟨forall_nodes_setNode (fun _ ↦ Node.Wired) hw h.wired, h.serial, fun o ↦ ?_⟩
  · rcases s.eq_or_eq_other o with rfl | rfl
    · refine (h.chains o).shrink rfl hsubs (fun d k hk ↦ ?_) (fun d k _ ↦ ?_) fun d ↦ ?_
      · rw [hseen d k hk]
      · rw [hout, seen, hother]
        exact List.Sublist.refl _
      · -- the log of what crossed is by message, the queue by channel
        have hfilter : ((r.nodes o).send.1.map Prod.snd).filter (fun m ↦ m.topic = d) =
            (r.nodes o).outbox d := by
          rw [← hon, Node.onChannel, List.filter_map]
          congr 1
          refine List.filter_congr fun p hp ↦ ?_
          rw [Function.comp_apply, h.topic_of_send hp]
        rw [crossing, hcross, List.filter_append, hfilter, hself, hempty, List.append_nil]
        exact List.Sublist.refl _
    · refine (h.chains s.other).shrink rfl hsubs (fun d k _ ↦ ?_) (fun d k hk ↦ ?_) fun d ↦ ?_
      · rw [seen, hother]
        exact List.Sublist.refl _
      · rw [Side.other_other] at hk ⊢
        rw [hseen d k hk, outgoing, hlink', hother]
        exact List.Sublist.refl _
      · rw [crossing, hcross', hother]
        exact List.Sublist.refl _

/-- Taking packets from the link and handling some of them, in order. -/
theorem Relaying.receive (h : r.Relaying) (s : Side) (arrived : ℕ) :
    (r.receive s arrived).Relaying := by
  set fetched := (r.link s.other).take (min arrived eventLimit) with hfetched
  set handled := fetched.take (eventLimit - 1) with hhandled
  obtain ⟨hw, hnet, hbox, hpend⟩ := Node.foldl_deliver (h.wired s) handled
  have hself : (r.receive s arrived).nodes s = handled.foldl Node.deliver (r.nodes s) :=
    nodes_setNode s _
  have hother : (r.receive s arrived).nodes s.other = r.nodes s.other :=
    nodes_setNode_other s.other_ne _
  have hlink : (r.receive s arrived).link s = r.link s :=
    Function.update_of_ne s.other_ne.symm ..
  have hlink' : (r.receive s arrived).link s.other =
      (r.link s.other).drop (min arrived eventLimit) := Function.update_self ..
  have hsubs : ∀ t, (r.nodes t).networkSubs ⊆ ((r.receive s arrived).nodes t).networkSubs :=
    forall_nodes_setNode (fun t n' ↦ (r.nodes t).networkSubs ⊆ n'.networkSubs)
      (hnet.symm ▸ List.Subset.refl _) fun _ ↦ List.Subset.refl _
  -- a full queue overwrites its oldest message, so a subscriber may see fewer than were handled
  have hseen : ∀ o d k, (sentBy o ((r.receive s arrived).seen s d k)).Sublist
      (sentBy o (r.seen s d k) ++ sentBy o (Node.onChannel handled d)) := by
    intro o d k
    rw [seen, seen, hself, ← sentBy_append, List.append_assoc]
    exact ((hpend d k).append_left _).filter _
  have hfetched_link : ∀ d,
      Node.onChannel fetched d ++ Node.onChannel ((r.receive s arrived).link s.other) d =
        Node.onChannel (r.link s.other) d := by
    intro d
    rw [hlink', ← Node.onChannel_append, List.take_append_drop]
  have hhandled_fetched : ∀ d, (Node.onChannel handled d).Sublist (Node.onChannel fetched d) :=
    fun d ↦ ((List.take_sublist _ _).filter _).map _
  refine ⟨forall_nodes_setNode (fun _ ↦ Node.Wired) hw h.wired, h.serial, fun o ↦ ?_⟩
  · rcases s.eq_or_eq_other o with rfl | rfl
    · refine (h.chains o).shrink rfl hsubs (fun d k hk ↦ ?_) (fun d k _ ↦ ?_) fun d ↦ ?_
      · -- nothing that arrives comes from here
        have hnil : sentBy o (Node.onChannel handled d) = [] := by
          rw [sentBy, List.filter_eq_nil_iff]
          intro m hm ho
          have hmem : m ∈ Node.onChannel (r.link o.other) d := by
            rw [← hfetched_link]
            exact List.mem_append_left _ ((hhandled_fetched d).subset hm)
          exact o.other_ne ((h.origin_of_link hmem).symm.trans (of_decide_eq_true ho))
        refine (hseen o d k).trans ?_
        rw [hnil, List.append_nil]
      · rw [seen, hother, outgoing, hlink, hself, hbox]
        exact List.Sublist.refl _
      · rw [crossing, hself, hbox]
        exact List.Sublist.refl _
    · refine (h.chains s.other).shrink rfl hsubs (fun d k _ ↦ ?_) (fun d k _ ↦ ?_) fun d ↦ ?_
      · rw [seen, hother]
        exact List.Sublist.refl _
      · rw [Side.other_other, outgoing, outgoing, hother, ← hfetched_link]
        refine ((hseen s.other d k).append_right _).trans ?_
        rw [List.append_assoc, List.append_assoc]
        refine List.Sublist.append_left (List.Sublist.append_right ?_ _) _
        exact List.filter_sublist.trans (hhandled_fetched d)
      · rw [crossing, hother]
        exact List.Sublist.refl _

/-- Handing out moves a message from the queue to the log. -/
theorem Relaying.next (h : r.Relaying) {s : Side} {c : Channel} {k : ℕ}
    (hk : (c, k) ∉ (r.nodes s).networkSubs) : (r.next s c k).Relaying := by
  cases hnext : (r.nodes s).next c k with
  | none =>
    have heq : r.next s c k = r := by simp only [Relay.next, hnext]
    rwa [heq]
  | some p =>
    obtain ⟨msg, n⟩ := p
    obtain ⟨hw, hnet, hbox, hhead, hrest⟩ := Node.next_spec (h.wired s) hk hnext
    have heq : r.next s c k = { r.setNode s n with
        handed := Function.update r.handed s (Function.update (r.handed s) c
          (Function.update (r.handed s c) k (r.handed s c k ++ [msg]))) } := by
      simp only [Relay.next, hnext]
    rw [heq]
    refine h.congr (forall_nodes_setNode (fun _ ↦ Node.Wired) hw h.wired)
      (forall_nodes_setNode (fun t n' ↦ (r.nodes t).networkSubs ⊆ n'.networkSubs)
        (hnet.symm ▸ List.Subset.refl _) fun _ ↦ List.Subset.refl _) (fun t d j ↦ ?_)
      (forall_nodes_setNode (fun t n' ↦ ∀ e, n'.outbox e = (r.nodes t).outbox e) hbox
        fun _ _ ↦ rfl) rfl rfl rfl
    -- only the subscriber that reads has another queue and another log, and together they agree
    rcases eq_or_ne t s with rfl | ht
    · rcases eq_or_ne (d, j) (c, k) with he | hne
      · obtain ⟨rfl, rfl⟩ := Prod.mk.inj he
        simp only [seen, Relay.setNode, Function.update_self, hhead, List.append_assoc,
          List.singleton_append]
      · have hhanded : Function.update (r.handed t) c (Function.update (r.handed t c) k
            (r.handed t c k ++ [msg])) d j = r.handed t d j := by
          rcases eq_or_ne d c with rfl | hd
          · rw [Function.update_self, Function.update_of_ne fun hj ↦ hne (by rw [hj])]
          · rw [Function.update_of_ne hd]
        simp only [seen, Relay.setNode, Function.update_self, hhanded, hrest d j hne]
    · simp only [seen, Relay.setNode, Function.update_of_ne ht]

/-- **One call.** -/
theorem Relaying.call {r' : Relay Channel} (h : r.Relaying) {call : Call Channel}
    (hcall : r.call call = some r') : r'.Relaying := by
  cases call with
  | subscribe s c => exact Option.some.inj hcall ▸ h.subscribe s c
  | networkAdvertise s c =>
    rw [Relay.call] at hcall
    split_ifs at hcall with hc
    exact Option.some.inj hcall ▸ h.networkAdvertise hc
  | publish s c => exact Option.some.inj hcall ▸ h.publish s c
  | networkTick s arrived => exact Option.some.inj hcall ▸ (h.transmit s).receive s arrived
  | next s c k =>
    rw [Relay.call] at hcall
    split_ifs at hcall with hk
    exact Option.some.inj hcall ▸ h.next hk

end Relay

theorem relaying_of_reachable {r : Relay Channel} (h : (relaying Channel).Reachable r) :
    r.Relaying :=
  TransitionSystem.invariant (fun hr ↦ hr ▸ Relay.relaying_start)
    (fun hr ⟨_, hcall⟩ ↦ hr.call hcall) h

/-- A list without duplicates in any class has none. -/
theorem nodup_of_nodup_filter {α β : Type} [DecidableEq β] (f : α → β) {l : List α}
    (h : ∀ b, (l.filter fun a ↦ f a = b).Nodup) : l.Nodup := by
  rw [List.nodup_iff_sublist]
  intro a ha
  refine List.nodup_iff_sublist.1 (h (f a)) a ?_
  have hself : [a, a].filter (fun x ↦ f x = f a) = [a, a] := by simp
  exact hself ▸ ha.filter _

/-- **The relay neither echoes nor duplicates nor reorders.** After any interleaving of calls, no
message was transmitted twice, each was transmitted by its origin only, and a subscriber that is not
networked was handed no message twice and those of one node in the order in which that node
published them on the topic. -/
theorem relay_no_echo_no_duplicate {r : Relay Channel} (h : (relaying Channel).Reachable r) :
    (r.crossed .host ++ r.crossed .client).Nodup ∧ (∀ s, ∀ m ∈ r.crossed s, m.origin = s) ∧
      ∀ s c k, (c, k) ∉ (r.nodes s).networkSubs → (r.handed s c k).Nodup ∧
        ∀ o, (sentBy o (r.handed s c k)).Sublist (r.publishedOn o c) := by
  have hinv := relaying_of_reachable h
  have hnodup : ∀ o c, (r.publishedOn o c).Nodup := fun o c ↦ hinv.nodup.filter _
  have hcross : ∀ s c, ((r.crossed s).filter fun m ↦ m.topic = c).Sublist (r.publishedOn s c) :=
    fun s c ↦ (List.sublist_append_left _ _).trans ((hinv.chains s).crossing c)
  have horigin : ∀ s, ∀ m ∈ r.crossed s, m.origin = s := fun s m hm ↦
    (Relay.mem_publishedOn.1
      ((hcross s m.topic).subset (List.mem_filter.2 ⟨hm, decide_eq_true rfl⟩))).2.1
  have hcrossed : ∀ s, (r.crossed s).Nodup := fun s ↦
    nodup_of_nodup_filter Message.topic fun c ↦ (hnodup s c).sublist (hcross s c)
  refine ⟨?_, horigin, fun s c k hk ↦ ?_⟩
  · rw [List.nodup_append]
    refine ⟨hcrossed _, hcrossed _, fun m hm m' hm' he ↦ ?_⟩
    have hside := (horigin _ m hm).symm.trans (he ▸ horigin _ m' hm')
    exact absurd hside (by decide)
  · have horder : ∀ o, (sentBy o (r.handed s c k)).Sublist (r.publishedOn o c) := by
      intro o
      have hseen : (sentBy o (r.handed s c k)).Sublist (sentBy o (r.seen s c k)) :=
        (List.sublist_append_left _ _).filter _
      rcases o.eq_or_eq_other s with rfl | rfl
      · exact hseen.trans ((hinv.chains _).own hk)
      · exact (hseen.trans (List.sublist_append_left _ _)).trans ((hinv.chains o).foreign hk)
    exact ⟨nodup_of_nodup_filter Message.origin fun o ↦ (hnodup o c).sublist (horder o), horder⟩

/-- Both nodes advertise a topic, publish on it, and read what arrives. -/
def exchange : List (Call ℕ) :=
  [.subscribe .host 5, .networkAdvertise .host 5, .subscribe .client 5, .networkAdvertise .client 5,
    .publish .host 5, .publish .client 5, .networkTick .host 0, .networkTick .client 2,
    .networkTick .host 2, .next .host 5 0, .next .host 5 0, .next .client 5 0, .next .client 5 0]

theorem relay_exchange :
    ∃ r : Relay ℕ, exchange.foldlM Relay.call Relay.start = some r ∧
      r.handed .host 5 0 = [⟨.host, 5, 0⟩, ⟨.client, 5, 1⟩] ∧
      r.handed .client 5 0 = [⟨.client, 5, 1⟩, ⟨.host, 5, 0⟩] ∧
      (r.crossed .host ++ r.crossed .client).Nodup ∧ (∀ s, ∀ m ∈ r.crossed s, m.origin = s) ∧
      ∀ s c k, (c, k) ∉ (r.nodes s).networkSubs → (r.handed s c k).Nodup ∧
        ∀ o, (sentBy o (r.handed s c k)).Sublist (r.publishedOn o c) := by
  obtain ⟨r, hr⟩ := Option.isSome_iff_exists.1
    (show (exchange.foldlM Relay.call Relay.start).isSome = true by decide)
  have hhanded : (exchange.foldlM Relay.call Relay.start).map
      (fun r ↦ (r.handed .host 5 0, r.handed .client 5 0)) =
        some ([⟨.host, 5, 0⟩, ⟨.client, 5, 1⟩], [⟨.client, 5, 1⟩, ⟨.host, 5, 0⟩]) := by
    decide
  rw [hr, Option.map_some, Option.some.injEq, Prod.mk.injEq] at hhanded
  have hstart : (relaying ℕ).Reachable Relay.start := .init rfl
  have hreach := hstart.replay (fun h ↦ ⟨_, h⟩) hr
  exact ⟨r, hr, hhanded.1, hhanded.2, relay_no_echo_no_duplicate hreach⟩

end Middleware
