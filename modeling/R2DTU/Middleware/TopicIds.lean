import R2DTU.Library.TransitionSystem
import Mathlib.Algebra.Group.Nat.Defs
import Mathlib.Data.Finset.Image
import Mathlib.Logic.Function.Basic

/-!
# Topic ids from a shared key-value store

Every node asks the store for the id of a topic when it first advertises it. A missing topic gets a
fresh id by `INCR` and `ZADD NX`, and whatever id the store holds afterwards is the one used. The
commands of several nodes interleave; a node runs one `advertise` at a time, because the call holds
the node's mutex, so its position in the call is one `Progress` value.

`INCR` may reply any number it has not replied before. A reply is a 64-bit number and an id has 32
bits, so `KVStore::incr` keeps the low half of the reply, and fresh replies need not be fresh ids
(`topicIds_clash`). The results are about runs in which they are (`IncrFresh`); replies below
`2 ^ 32` are enough for that (`incrFresh_of_lt`). Scores are read back with `std::stoi`, which
throws on values from `2 ^ 31` on and takes the node down.

`Advertising` is the invariant. Its heart is that a drawn id is not in the store before its own
`ZADD`, and that two nodes never hold the same drawn id: with that, `ZADD NX` keeps ids distinct
whoever wins the race, and everybody reads back the winner.
-/

namespace Middleware

/-- The counter `topic:next_id`, as the replies it has given, and the sorted set `topic:topics`. -/
structure KVStore (Topic : Type) where
  /-- All replies that `INCR` has given. -/
  issued : Finset ℕ
  /-- The score of a member, if it is there. -/
  topics : Topic → Option ℕ

/-- The cast of a reply to `uint32_t`. -/
def castId (reply : ℕ) : ℕ := reply % 2 ^ 32

/-- The ids of the replies so far. -/
def KVStore.ids {Topic : Type} (kv : KVStore Topic) : Finset ℕ := kv.issued.image castId

/-- Where a node is in `advertise`. -/
inductive Progress (Topic : Type)
  | idle
  | missing (topic : Topic)
  | drawn (topic : Topic) (id : ℕ)
  | added (topic : Topic)
  | aborted
  deriving DecidableEq

/-- The topic of a call under way. -/
def Progress.topic {Topic : Type} : Progress Topic → Option Topic
  | idle | aborted => none
  | missing topic | drawn topic _ | added topic => some topic

/-- The store and, for each node, its position and the two maps of its publishers. -/
structure Cluster (Peer Topic : Type) where
  kv : KVStore Topic
  /-- Where a node is in a call of `advertise`. -/
  progress : Peer → Progress Topic
  /-- The id a node has for a topic it has advertised. -/
  publishers : Peer → Topic → Option ℕ
  /-- The topic a node has for an id. -/
  publishersByChannel : Peer → ℕ → Option Topic

/-- One command of one node; `incr` carries the reply of the store. -/
inductive Command (Peer Topic : Type)
  | advertise (n : Peer) (topic : Topic)
  | incr (n : Peer) (reply : ℕ)
  | zadd (n : Peer)
  | zscore (n : Peer)

section Model

variable {Peer Topic : Type} [DecidableEq Peer] [DecidableEq Topic]

/-- `zadd` with `NX`: write only when the member is absent. -/
def KVStore.zaddNX (kv : KVStore Topic) (topic : Topic) (id : ℕ) : KVStore Topic :=
  match kv.topics topic with
  | none => { kv with topics := Function.update kv.topics topic (some id) }
  | some _ => kv

namespace Cluster

/-- No calls, and an empty store. -/
def start : Cluster Peer Topic := ⟨⟨∅, fun _ ↦ none⟩, fun _ ↦ .idle, fun _ _ ↦ none, fun _ _ ↦ none⟩

def setProgress (c : Cluster Peer Topic) (n : Peer) (p : Progress Topic) : Cluster Peer Topic :=
  { c with progress := Function.update c.progress n p }

/-- The end of `advertise`: a new publisher in both maps. `insert` keeps an entry that is there. -/
def register (c : Cluster Peer Topic) (n : Peer) (topic : Topic) (id : ℕ) : Cluster Peer Topic :=
  { c with
    progress := Function.update c.progress n .idle
    publishers :=
      Function.update c.publishers n (Function.update (c.publishers n) topic (some id))
    publishersByChannel := Function.update c.publishersByChannel n
      (match c.publishersByChannel n id with
      | none => Function.update (c.publishersByChannel n) id (some topic)
      | some _ => c.publishersByChannel n) }

/-- A score has been read: `std::stoi` converts it or throws. -/
def finish (c : Cluster Peer Topic) (n : Peer) (topic : Topic) (score : ℕ) : Cluster Peer Topic :=
  if score < 2 ^ 31 then c.register n topic score else c.setProgress n .aborted

/-- One command of `advertise`; `none` when the node is not there. -/
def next (c : Cluster Peer Topic) : Command Peer Topic → Option (Cluster Peer Topic)
  | .advertise n topic =>
    match c.progress n with
    | .idle =>
      match c.publishers n topic with
      | some _ => some c
      | none =>
        match c.kv.topics topic with
        | some score => some (c.finish n topic score)
        | none => some (c.setProgress n (.missing topic))
    | _ => none
  | .incr n reply =>
    match c.progress n with
    | .missing topic =>
      if reply ∉ c.kv.issued then
        some { c.setProgress n (.drawn topic (castId reply)) with
          kv := { c.kv with issued := insert reply c.kv.issued } }
      else none
    | _ => none
  | .zadd n =>
    match c.progress n with
    | .drawn topic id =>
      some { c.setProgress n (.added topic) with kv := c.kv.zaddNX topic id }
    | _ => none
  | .zscore n =>
    match c.progress n with
    | .added topic =>
      match c.kv.topics topic with
      | some score => some (c.finish n topic score)
      | none => some (c.setProgress n .aborted)
    | _ => none

end Cluster

/-- All interleavings of the nodes' commands that are allowed. -/
def advertising (Peer Topic : Type) [DecidableEq Peer] [DecidableEq Topic]
    (Allowed : Cluster Peer Topic → Command Peer Topic → Prop) :
    TransitionSystem (Cluster Peer Topic) where
  init := fun c ↦ c = Cluster.start
  step := fun c c' ↦ ∃ command, Allowed c command ∧ c.next command = some c'

/-- A reply of `INCR` gives an id that no reply has given before. -/
def IncrFresh (c : Cluster Peer Topic) : Command Peer Topic → Prop
  | .incr _ reply => castId reply ∉ c.kv.ids
  | _ => True

/-! ### What a command can do -/

variable {c c' : Cluster Peer Topic}

/-- The effects a command can have, each with what it has checked. -/
inductive Effect (c : Cluster Peer Topic) : Cluster Peer Topic → Prop
  | same : Effect c c
  | aborts (n : Peer) : Effect c (c.setProgress n .aborted)
  | registers {n : Peer} {topic : Topic} {score : ℕ} (hz : c.kv.topics topic = some score)
    (hnew : c.publishers n topic = none ∨ c.progress n = .added topic) :
    Effect c (c.register n topic score)
  | misses {n : Peer} {topic : Topic} (hnew : c.publishers n topic = none) :
    Effect c (c.setProgress n (.missing topic))
  | draws {n : Peer} {topic : Topic} {reply : ℕ} (hp : c.progress n = .missing topic)
    (hid : castId reply ∉ c.kv.ids) :
    Effect c { c.setProgress n (.drawn topic (castId reply)) with
      kv := { c.kv with issued := insert reply c.kv.issued } }
  | adds {n : Peer} {topic : Topic} {id : ℕ} (hp : c.progress n = .drawn topic id) :
    Effect c { c.setProgress n (.added topic) with kv := c.kv.zaddNX topic id }

theorem effect_finish {n : Peer} {topic : Topic} {score : ℕ}
    (hz : c.kv.topics topic = some score)
    (hnew : c.publishers n topic = none ∨ c.progress n = .added topic) :
    Effect c (c.finish n topic score) := by
  unfold Cluster.finish
  split_ifs
  · exact .registers hz hnew
  · exact .aborts n

theorem Cluster.effect_of_next {command : Command Peer Topic} (hfresh : IncrFresh c command)
    (h : c.next command = some c') : Effect c c' := by
  unfold Cluster.next at h
  cases command with
  | advertise n topic =>
    simp only at h
    split at h
    · split at h
      · obtain rfl := Option.some.inj h
        exact .same
      · rename_i hnew
        split at h
        · rename_i hz
          obtain rfl := Option.some.inj h
          exact effect_finish hz (Or.inl hnew)
        · obtain rfl := Option.some.inj h
          exact .misses hnew
    · exact absurd h.symm (Option.some_ne_none _)
  | incr n reply =>
    simp only at h
    split at h
    · rename_i hp
      split_ifs at h
      obtain rfl := Option.some.inj h
      exact .draws hp hfresh
    · exact absurd h.symm (Option.some_ne_none _)
  | zadd n =>
    simp only at h
    split at h
    · rename_i hp
      obtain rfl := Option.some.inj h
      exact .adds hp
    · exact absurd h.symm (Option.some_ne_none _)
  | zscore n =>
    simp only at h
    split at h
    · rename_i hp
      split at h
      · rename_i hz
        obtain rfl := Option.some.inj h
        exact effect_finish hz (Or.inr hp)
      · obtain rfl := Option.some.inj h
        exact .aborts n
    · exact absurd h.symm (Option.some_ne_none _)

/-- An absent member is written, a present one is kept. -/
theorem KVStore.topics_zaddNX (kv : KVStore Topic) (topic : Topic) (id : ℕ) (t : Topic) :
    (kv.zaddNX topic id).topics t =
      if t = topic ∧ kv.topics topic = none then some id else kv.topics t := by
  unfold KVStore.zaddNX
  split
  · rename_i hnone
    simp [Function.update_apply, hnone]
  · rename_i hsome
    simp [hsome]

theorem KVStore.ids_zaddNX (kv : KVStore Topic) (topic : Topic) (id : ℕ) :
    (kv.zaddNX topic id).ids = kv.ids := by
  unfold KVStore.zaddNX
  split <;> rfl

omit [DecidableEq Topic] in
theorem KVStore.mem_ids_insert {kv : KVStore Topic} {reply i : ℕ} :
    i ∈ ({ kv with issued := insert reply kv.issued } : KVStore Topic).ids ↔
      i = castId reply ∨ i ∈ kv.ids := by
  rw [KVStore.ids, Finset.image_insert, Finset.mem_insert]
  rfl

omit [DecidableEq Peer] [DecidableEq Topic] in
/-- **Replies below `2 ^ 32`** are ids as they are. -/
theorem incrFresh_of_lt (hold : ∀ reply ∈ c.kv.issued, reply < 2 ^ 32) {n : Peer} {reply : ℕ}
    (hlt : reply < 2 ^ 32) (hfresh : reply ∉ c.kv.issued) : IncrFresh c (.incr n reply) := by
  rw [IncrFresh, KVStore.ids, Finset.mem_image]
  rintro ⟨reply', hmem, hcast⟩
  rw [castId, castId, Nat.mod_eq_of_lt (hold _ hmem), Nat.mod_eq_of_lt hlt] at hcast
  exact hfresh (hcast ▸ hmem)

/-! ### The invariant -/

/-- What holds between any two commands. -/
structure Advertising (c : Cluster Peer Topic) : Prop where
  /-- Ids in the store were issued. -/
  mem_ids {t : Topic} {i : ℕ} (h : c.kv.topics t = some i) : i ∈ c.kv.ids
  /-- No two topics have one id in the store. -/
  topics_inj {t u : Topic} {i : ℕ} (ht : c.kv.topics t = some i) (hu : c.kv.topics u = some i) :
    t = u
  /-- A drawn id was issued. -/
  drawn_ids {n : Peer} {t : Topic} {i : ℕ} (h : c.progress n = .drawn t i) : i ∈ c.kv.ids
  /-- A drawn id is not in the store. -/
  drawn_absent {n : Peer} {t : Topic} {i : ℕ} (h : c.progress n = .drawn t i) (u : Topic) :
    c.kv.topics u ≠ some i
  /-- No two nodes have drawn one id. -/
  drawn_inj {n m : Peer} {t u : Topic} {i : ℕ} (hn : c.progress n = .drawn t i)
    (hm : c.progress m = .drawn u i) : n = m
  /-- What a node has is in the store. -/
  known {n : Peer} {t : Topic} {i : ℕ} (h : c.publishers n t = some i) : c.kv.topics t = some i
  /-- A node does not have what it is advertising. -/
  unregistered {n : Peer} {t : Topic} (h : (c.progress n).topic = some t) :
    c.publishers n t = none
  /-- The two maps of a node are inverse. -/
  byChannel_iff {n : Peer} {t : Topic} {i : ℕ} :
    c.publishersByChannel n i = some t ↔ c.publishers n t = some i

omit [DecidableEq Peer] [DecidableEq Topic] in
theorem advertising_start : Advertising (Cluster.start : Cluster Peer Topic) := by
  constructor <;> simp [Cluster.start, Progress.topic]

omit [DecidableEq Topic] in
/-- A node that moves on without touching the store keeps the invariant, if it holds no id and its
topic is not registered. -/
theorem Advertising.setProgress (h : Advertising c) {n : Peer} {p : Progress Topic}
    (hdrawn : ∀ t i, p ≠ .drawn t i) (hnew : ∀ t, p.topic = some t → c.publishers n t = none) :
    Advertising (c.setProgress n p) := by
  have hother : ∀ {m t i}, (c.setProgress n p).progress m = .drawn t i →
      c.progress m = .drawn t i := by
    intro m t i hm
    simp only [Cluster.setProgress, Function.update_apply] at hm
    split_ifs at hm with hmn
    · exact absurd hm (hdrawn t i)
    · exact hm
  refine { h with
    drawn_ids := fun hm ↦ h.drawn_ids (hother hm)
    drawn_absent := fun hm ↦ h.drawn_absent (hother hm)
    drawn_inj := fun hm hm' ↦ h.drawn_inj (hother hm) (hother hm')
    unregistered := fun {m t} hm ↦ ?_ }
  simp only [Cluster.setProgress, Function.update_apply] at hm
  split_ifs at hm with hmn
  · rw [hmn]
    exact hnew t hm
  · exact h.unregistered hm

/-- A new publisher has the id of its topic in the store, so nobody else on the node has it. -/
theorem Advertising.register (h : Advertising c) {n : Peer} {topic : Topic} {score : ℕ}
    (hz : c.kv.topics topic = some score) (hnone : c.publishers n topic = none) :
    Advertising (c.register n topic score) := by
  have hpub : ∀ {m t}, (c.register n topic score).publishers m t =
      if m = n ∧ t = topic then some score else c.publishers m t := by
    intro m t
    simp only [Cluster.register, Function.update_apply]
    by_cases hm : m = n
    · by_cases ht : t = topic <;> simp [hm, ht]
    · simp [hm]
  -- the channel is free on this node: its publisher would have the same topic
  have hfree : c.publishersByChannel n score = none := by
    rw [← Option.not_isSome_iff_eq_none, Option.isSome_iff_exists]
    rintro ⟨t, ht⟩
    have hpt := h.byChannel_iff.1 ht
    rw [h.topics_inj (h.known hpt) hz, hnone] at hpt
    exact absurd hpt (by simp)
  have hchan : ∀ {m i}, (c.register n topic score).publishersByChannel m i =
      if m = n ∧ i = score then some topic else c.publishersByChannel m i := by
    intro m i
    simp only [Cluster.register, hfree, Function.update_apply]
    by_cases hm : m = n
    · by_cases hi : i = score <;> simp [hm, hi]
    · simp [hm]
  have hdrawn : ∀ {m t i}, (c.register n topic score).progress m = .drawn t i →
      c.progress m = .drawn t i := by
    intro m t i hm
    simp only [Cluster.register, Function.update_apply] at hm
    split_ifs at hm
    exact hm
  refine ⟨h.mem_ids, h.topics_inj, fun hm ↦ h.drawn_ids (hdrawn hm),
    fun hm ↦ h.drawn_absent (hdrawn hm), fun hm hm' ↦ h.drawn_inj (hdrawn hm) (hdrawn hm'),
    fun {m t i} hm ↦ ?_, fun {m t} hm ↦ ?_, fun {m t i} ↦ ?_⟩
  · rw [hpub] at hm
    split_ifs at hm with hmt
    · rw [hmt.2, ← hm]
      exact hz
    · exact h.known hm
  · simp only [Cluster.register, Function.update_apply] at hm
    split_ifs at hm with hmn
    · exact absurd hm (by simp [Progress.topic])
    · rw [hpub, if_neg fun hmt ↦ hmn hmt.1]
      exact h.unregistered hm
  · rw [hpub, hchan]
    split_ifs with hi ht ht
    · rw [ht.2, hi.2]
      exact ⟨fun _ ↦ rfl, fun _ ↦ rfl⟩
    · -- another topic of the node with this id would be the topic itself
      refine ⟨fun he ↦ absurd ⟨hi.1, (Option.some.inj he).symm⟩ ht, fun he ↦ ?_⟩
      rw [hi.2] at he
      exact absurd ⟨hi.1, h.topics_inj (h.known he) hz⟩ ht
    · refine ⟨fun he ↦ ?_, fun he ↦ absurd ⟨ht.1, (Option.some.inj he).symm⟩ hi⟩
      rw [ht.1, ht.2] at he
      exact absurd (h.byChannel_iff.1 he) (by simp [hnone])
    · exact h.byChannel_iff

omit [DecidableEq Topic] in
/-- A fresh id is nobody else's, and not in the store. -/
theorem Advertising.draw (h : Advertising c) {n : Peer} {topic : Topic} {reply : ℕ}
    (hp : c.progress n = .missing topic) (hid : castId reply ∉ c.kv.ids) :
    Advertising { c.setProgress n (.drawn topic (castId reply)) with
      kv := { c.kv with issued := insert reply c.kv.issued } } := by
  have hother : ∀ {m t i},
      Function.update c.progress n (.drawn topic (castId reply)) m = .drawn t i →
        (m = n ∧ i = castId reply) ∨ (m ≠ n ∧ c.progress m = .drawn t i) := by
    intro m t i hm
    rw [Function.update_apply] at hm
    split_ifs at hm with hmn
    · exact Or.inl ⟨hmn, (Progress.drawn.inj hm).2.symm⟩
    · exact Or.inr ⟨hmn, hm⟩
  refine ⟨fun ht ↦ KVStore.mem_ids_insert.2 (.inr (h.mem_ids ht)), h.topics_inj,
    fun {m t i} hm ↦ KVStore.mem_ids_insert.2 ?_,
    fun {m t i} hm u hu ↦ ?_, fun {m m' t u i} hm hm' ↦ ?_, h.known, fun {m t} hm ↦ ?_,
    h.byChannel_iff⟩
  · rcases hother hm with ⟨-, rfl⟩ | ⟨-, hm⟩
    · exact .inl rfl
    · exact .inr (h.drawn_ids hm)
  · rcases hother hm with ⟨-, rfl⟩ | ⟨-, hm⟩
    · exact hid (h.mem_ids hu)
    · exact h.drawn_absent hm u hu
  · -- two nodes that have drawn: a fresh id is none of those issued before
    rcases hother hm with ⟨hmn, hi⟩ | ⟨-, hm⟩
    · rcases hother hm' with ⟨hmn', -⟩ | ⟨-, hm'⟩
      · rw [hmn, hmn']
      · exact absurd (hi ▸ h.drawn_ids hm') hid
    · rcases hother hm' with ⟨-, hi⟩ | ⟨-, hm'⟩
      · exact absurd (hi ▸ h.drawn_ids hm) hid
      · exact h.drawn_inj hm hm'
  · simp only [Cluster.setProgress, Function.update_apply] at hm
    split_ifs at hm with hmn
    · rw [hmn]
      refine h.unregistered ?_
      rw [hp]
      exact hm
    · exact h.unregistered hm

/-- `ZADD NX` with a drawn id keeps the ids of the topics distinct. -/
theorem Advertising.add (h : Advertising c) {n : Peer} {topic : Topic} {id : ℕ}
    (hp : c.progress n = .drawn topic id) :
    Advertising { c.setProgress n (.added topic) with kv := c.kv.zaddNX topic id } := by
  have hcases : ∀ {t i}, (c.kv.zaddNX topic id).topics t = some i →
      (t = topic ∧ i = id) ∨ c.kv.topics t = some i := by
    intro t i ht
    rw [KVStore.topics_zaddNX] at ht
    split_ifs at ht with htt
    · exact Or.inl ⟨htt.1, (Option.some.inj ht).symm⟩
    · exact Or.inr ht
  have hother : ∀ {m t i}, Function.update c.progress n (.added topic) m = .drawn t i →
      m ≠ n ∧ c.progress m = .drawn t i := by
    intro m t i hm
    rw [Function.update_apply] at hm
    split_ifs at hm with hmn
    exact ⟨hmn, hm⟩
  refine ⟨fun {t i} ht ↦ ?_, fun {t u i} ht hu ↦ ?_, fun {m t i} hm ↦ ?_, fun {m t i} hm u hu ↦ ?_,
    fun hm hm' ↦ h.drawn_inj (hother hm).2 (hother hm').2, fun {m t i} hm ↦ ?_, fun {m t} hm ↦ ?_,
    h.byChannel_iff⟩
  · rw [KVStore.ids_zaddNX]
    rcases hcases ht with ⟨-, rfl⟩ | ht
    · exact h.drawn_ids hp
    · exact h.mem_ids ht
  · -- an id that is drawn and not yet stored is the id of no topic
    rcases hcases ht with ⟨htt, hi⟩ | hold
    · rcases hcases hu with ⟨hut, -⟩ | hold
      · rw [htt, hut]
      · exact absurd (hi ▸ hold) (h.drawn_absent hp u)
    · rcases hcases hu with ⟨-, hi⟩ | hold'
      · exact absurd (hi ▸ hold) (h.drawn_absent hp t)
      · exact h.topics_inj hold hold'
  · rw [KVStore.ids_zaddNX]
    exact h.drawn_ids (hother hm).2
  · -- the id that is stored now was drawn by this node only
    rcases hcases hu with ⟨-, rfl⟩ | hu
    · exact (hother hm).1 (h.drawn_inj (hother hm).2 hp)
    · exact h.drawn_absent (hother hm).2 u hu
  · have ht := h.known hm
    show (c.kv.zaddNX topic id).topics t = some i
    rw [KVStore.topics_zaddNX, if_neg]
    · exact ht
    · rintro ⟨rfl, hnone⟩
      exact absurd (hnone.symm.trans ht) (by simp)
  · simp only [Cluster.setProgress, Function.update_apply] at hm
    split_ifs at hm with hmn
    · rw [hmn]
      refine h.unregistered ?_
      rw [hp]
      exact hm
    · exact h.unregistered hm

/-- **One command.** -/
theorem Advertising.effect (h : Advertising c) (he : Effect c c') : Advertising c' := by
  cases he with
  | same => exact h
  | aborts n =>
    exact h.setProgress (fun _ _ ↦ nofun) fun t ht ↦ absurd ht (by simp [Progress.topic])
  | registers hz hnew =>
    refine h.register hz (hnew.elim id fun hp ↦ h.unregistered ?_)
    rw [hp]
    rfl
  | misses hnew =>
    refine h.setProgress (fun _ _ ↦ nofun) fun t ht ↦ ?_
    rw [← Option.some.inj ht]
    exact hnew
  | draws hp hid => exact h.draw hp hid
  | adds hp => exact h.add hp

theorem advertising_of_reachable (h : (advertising Peer Topic IncrFresh).Reachable c) :
    Advertising c :=
  TransitionSystem.invariant (fun hs ↦ hs ▸ advertising_start)
    (fun hs ⟨_, hfresh, hnext⟩ ↦ hs.effect (Cluster.effect_of_next hfresh hnext)) h

/-- A publisher that exists is kept by every command. -/
theorem Advertising.publishers_effect (h : Advertising c) (he : Effect c c') {n : Peer} {t : Topic}
    {i : ℕ} (hn : c.publishers n t = some i) : c'.publishers n t = some i := by
  cases he with
  | same => exact hn
  | aborts => exact hn
  | misses => exact hn
  | draws => exact hn
  | adds => exact hn
  | @registers m topic score hz hnew =>
    show Function.update c.publishers m _ n t = some i
    rw [Function.update_apply]
    split_ifs with hmn
    · rw [Function.update_apply]
      split_ifs with ht
      · -- a second registration would read the id the first one has read
        rw [← hz, ← ht]
        exact h.known hn
      · rw [← hmn]
        exact hn
    · exact hn

/-- **Topic ids agree** between two states of a run: nodes that have finished advertising a topic
have one id for it, different topics have different ids, and the run does not change an id a node
has. -/
def IdsAgree (c c' : Cluster Peer Topic) : Prop :=
  (∀ n m t i j, c.publishers n t = some i → c.publishers m t = some j → i = j) ∧
    (∀ n m t u i, c.publishers n t = some i → c.publishers m u = some i → t = u) ∧
    ∀ n t i, c.publishers n t = some i → c'.publishers n t = some i

/-- **Topic ids agree** in every reachable state of every interleaving and in every continuation of
it, when the ids of the replies are fresh. -/
theorem topicIds_agree (h : (advertising Peer Topic IncrFresh).Reachable c)
    (hrun : Relation.ReflTransGen (advertising Peer Topic IncrFresh).step c c') :
    IdsAgree c c' := by
  have hinv := advertising_of_reachable h
  refine ⟨fun n m t i j hn hm ↦ ?_, fun n m t u i hn hm ↦ ?_, fun n t i hn ↦ ?_⟩
  · exact Option.some.inj ((hinv.known hn).symm.trans (hinv.known hm))
  · exact hinv.topics_inj (hinv.known hn) (hinv.known hm)
  · refine @TransitionSystem.stable _ (advertising Peer Topic IncrFresh)
      (fun c ↦ c.publishers n t = some i) ?_ c c' h hrun hn
    rintro s s' hs hn ⟨_, hfresh, hnext⟩
    exact (advertising_of_reachable hs).publishers_effect (Cluster.effect_of_next hfresh hnext) hn

end Model

/-! ### A race and a clash -/

instance (c : Cluster Bool String) (command : Command Bool String) :
    Decidable (IncrFresh c command) :=
  match command with
  | .incr _ reply => inferInstanceAs (Decidable (castId reply ∉ c.kv.ids))
  | .advertise _ _ => .isTrue trivial
  | .zadd _ => .isTrue trivial
  | .zscore _ => .isTrue trivial

/-- A command that draws no id again. -/
def Cluster.nextFresh (c : Cluster Bool String) (command : Command Bool String) :
    Option (Cluster Bool String) :=
  if IncrFresh c command then c.next command else none

theorem Cluster.step_of_nextFresh {c c' : Cluster Bool String} {command : Command Bool String}
    (h : c.nextFresh command = some c') : (advertising Bool String IncrFresh).step c c' := by
  rw [Cluster.nextFresh] at h
  split_ifs at h with hfresh
  exact ⟨command, hfresh, h⟩

/-- Two nodes that both find the topic missing and draw different ids; the second `ZADD` loses. -/
def race : List (Command Bool String) :=
  [.advertise false "chat", .advertise true "chat", .incr false 7, .incr true 3, .zadd true,
    .zadd false, .zscore false, .zscore true]

theorem topicIds_agree_race :
    ∃ c : Cluster Bool String, race.foldlM Cluster.nextFresh Cluster.start = some c ∧
      c.publishers false "chat" = some 3 ∧ IdsAgree c c := by
  obtain ⟨c, hc⟩ := Option.isSome_iff_exists.1
    (show (race.foldlM Cluster.nextFresh Cluster.start).isSome = true by decide)
  have hid :
      (race.foldlM Cluster.nextFresh Cluster.start).bind (·.publishers false "chat") = some 3 := by
    decide
  rw [hc, Option.bind_some] at hid
  have hstart : (advertising Bool String IncrFresh).Reachable Cluster.start := .init rfl
  exact ⟨c, hc, hid, topicIds_agree (hstart.replay Cluster.step_of_nextFresh hc) .refl⟩

/-- One node, two topics, and a second reply that is the first one plus `2 ^ 32`. -/
def clash : List (Command Bool String) :=
  [.advertise false "chat", .incr false 1, .zadd false, .zscore false,
    .advertise false "audio", .incr false (2 ^ 32 + 1), .zadd false, .zscore false]

/-- **One id for two topics**, from two different replies. -/
theorem topicIds_clash :
    ∃ c : Cluster Bool String, clash.foldlM Cluster.next Cluster.start = some c ∧
      (advertising Bool String fun _ _ ↦ True).Reachable c ∧
      c.publishers false "chat" = some 1 ∧ c.publishers false "audio" = some 1 ∧
      ¬ IdsAgree c c := by
  have hids : ((clash.foldlM Cluster.next Cluster.start).map fun c : Cluster Bool String ↦
      (c.publishers false "chat", c.publishers false "audio")) = some (some 1, some 1) := by
    decide
  obtain ⟨c, hc, hpair⟩ := Option.map_eq_some_iff.1 hids
  obtain ⟨hchat, haudio⟩ := Prod.mk.inj hpair
  have hstart : (advertising Bool String fun _ _ ↦ True).Reachable Cluster.start := .init rfl
  refine ⟨c, hc, hstart.replay (fun h ↦ ⟨_, trivial, h⟩) hc, hchat, haudio, fun hagree ↦ ?_⟩
  have htopics : "chat" = "audio" := hagree.2.1 false false _ _ 1 hchat haudio
  exact absurd htopics (by decide)

end Middleware
