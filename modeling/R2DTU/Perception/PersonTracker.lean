import R2DTU.Library.TransitionSystem
import R2DTU.Reasoning.WorldModel

/-!
# The person tracker

Each frame is processed in two steps. `update` matches the skeletons detected in it to the persons
and makes a **hypothesis** of every skeleton that is left. `tick` promotes the hypotheses that have
been sighted often enough, publishes the persons that are none, and drops those that were not
sighted for some time. Between frames a person can be learned or deleted.

How alike two skeletons are, and what the face detection finds, comes with the frame: a table of
scores and a function. The scores are rational numbers, and a NaN counts as 0, as both are not
greater than 0. `std::sort` is not stable, so it may be any function that sorts, and the indices of
the skeletons left are in a hash set. What is learned of faces is left out.
-/

namespace PersonTracker

open WorldModel (SetOrder)

universe u

variable {σ : Type u}

/-- `LOSE_COUNTER`: for how many ticks a confirmed person stays without being seen. -/
def loseCounter : ℤ := 30

/-- `LOCK_COUNTER`: the ticks in which a hypothesis has to be confirmed. -/
def lockCounter : ℤ := 30

/-- `SIGHTINGS_TO_LOCK`: how many sightings confirm a hypothesis. -/
def sightingsToLock : ℤ := 5

/-- `SKELETON_MATCH_THRESHOLD`: the `float` next to 0.7. -/
def skeletonMatchThreshold : ℚ := 11744051 / 16777216

/-- `Person`, for some type of skeletons. -/
structure Person (σ : Type u) where
  /-- The skeleton it was matched with last. -/
  latestSkeleton : σ
  /-- The name that was found in its face, or nothing. -/
  name : String
  id : UInt32
  shouldDelete : Bool
  /-- The ticks it has left without being seen. -/
  timeoutCounter : ℤ
  /-- How often it was seen while a hypothesis. -/
  sightingsCounter : ℤ
  /-- It has not been seen often enough to be published. -/
  hypothesis : Bool

/-- `PersonPercept`. The name is what its pointer shows at the end of the tick. -/
structure PersonPercept (σ : Type u) where
  /-- The id of the person. -/
  id : UInt32
  /-- The bytes at the pointer to its name. -/
  name : String
  /-- Its latest skeleton. -/
  skeleton : σ

/-- `PersonTrackerState`: the persons in the order of the vector, the id of the next one, and the id
of the person whose faces are learnt. -/
structure TrackerState (σ : Type u) where
  persons : List (Person σ)
  /-- The id of the next hypothesis. -/
  nextId : UInt32
  /-- The person whose faces are learnt. -/
  learningId : UInt32

/-- What a frame gives: the percepts, the score of each person and percept by their indices, and the
name found in the face of a person, which is empty when none is. -/
structure Frame (σ : Type u) where
  /-- The skeletons in the frame. -/
  percepts : List σ
  /-- How well a skeleton fits a person, by their indices. -/
  score : ℕ → ℕ → ℚ
  /-- The name found in the face of a person, or nothing. -/
  identify : Person σ → String

namespace Person

/-- A person for a new skeleton. -/
def new (id : UInt32) (skeleton : σ) : Person σ where
  latestSkeleton := skeleton
  name := ""
  id := id
  shouldDelete := false
  timeoutCounter := lockCounter
  sightingsCounter := 0
  hypothesis := true

/-- `update_person`: a sighting counts towards confirmation, or keeps a confirmed person alive. -/
def updatePerson (p : Person σ) (skeleton : σ) : Person σ :=
  if p.hypothesis then
    { p with sightingsCounter := p.sightingsCounter + 1, latestSkeleton := skeleton }
  else { p with timeoutCounter := loseCounter, latestSkeleton := skeleton }

/-- `face_scan_person`: a person without a name gets the one that is found in the face. -/
def faceScanPerson (identify : Person σ → String) (p : Person σ) : Person σ :=
  if p.name ≠ "" then p else { p with name := identify p }

/-- What `update` does to a person that is matched. -/
def sight (identify : Person σ → String) (p : Person σ) (skeleton : σ) : Person σ :=
  let p := p.updatePerson skeleton
  if !p.hypothesis then p.faceScanPerson identify else p

/-- The first branch of `tick`. -/
def promote (p : Person σ) : Person σ :=
  if p.hypothesis && p.sightingsCounter ≥ sightingsToLock then
    { p with hypothesis := false, timeoutCounter := loseCounter }
  else p

/-- What the person is to be published as. -/
def percept (p : Person σ) : PersonPercept σ := ⟨p.id, p.name, p.latestSkeleton⟩

/-- The timeout at the end of a round of `tick`. -/
def countDown (p : Person σ) : Person σ :=
  { p with timeoutCounter := max (p.timeoutCounter - 1) 0 }

/-- Whether a person is erased at the end of a round of `tick`. -/
def isErased (p : Person σ) : Bool := p.timeoutCounter ≤ 0 || p.shouldDelete

/-- The name that is in the place of a person at the end of `tick`, when the others come after it in
the vector. Erasing a person moves the next one into its place, and erasing the last one leaves the
bytes alone. The names are in the strings themselves, as those of up to 15 bytes are. -/
def placeName : Person σ → List (Person σ) → String
  | p, [] => p.name
  | p, q :: persons => if p.promote.countDown.isErased then placeName q persons else p.name

end Person

/-! ### Updates -/

/-- `MatchScore`: how well a percept fits a person, both by their indices, and whether one of them
has been matched with a better score. -/
structure MatchScore where
  /-- How well the two fit. -/
  score : ℚ
  /-- The place of the person. -/
  object : ℕ
  /-- The place of the percept. -/
  percept : ℕ
  /-- One of them has been matched. -/
  invalid : Bool
  deriving DecidableEq

/-- What `std::sort` may do with scores. -/
structure ScoreSort where
  scores : List MatchScore → List MatchScore
  /-- Nothing is lost or doubled. -/
  scores_perm (l : List MatchScore) : (scores l).Perm l
  /-- Better scores come first. -/
  pairwise_scores (l : List MatchScore) : (scores l).Pairwise fun a b ↦ b.score ≤ a.score

/-- Merge sort is one of them. -/
def ScoreSort.merge : ScoreSort where
  scores l := l.mergeSort fun a b ↦ b.score ≤ a.score
  scores_perm l := List.mergeSort_perm l _
  pairwise_scores l := (List.pairwise_mergeSort
    (fun a b c hab hbc ↦ decide_eq_true ((of_decide_eq_true hbc).trans (of_decide_eq_true hab)))
    (fun a b ↦ by simpa using le_total b.score a.score) l).imp of_decide_eq_true

/-- The state of the loop over the scores, with the pairs that were matched so far. -/
structure Matching (σ : Type u) where
  /-- The persons, with those that were matched updated. -/
  persons : List (Person σ)
  /-- The percepts that no person has got. -/
  unusedPercepts : List ℕ
  /-- The pairs, the best one first. -/
  matched : List MatchScore

namespace Frame

/-- The pairs with a score, before they are sorted. -/
def scores (frame : Frame σ) (numPersons : ℕ) : List MatchScore :=
  (List.range frame.percepts.length).flatMap fun j ↦
    (List.range numPersons).filterMap fun i ↦
      if frame.score i j > 0 then some ⟨frame.score i j, i, j, false⟩ else none

/-- The loop over `j`: the later pairs with the same percept or object become invalid. -/
def invalidate (s : MatchScore) (later : List MatchScore) : List MatchScore :=
  later.map fun s' ↦
    if s'.percept = s.percept ∨ s'.object = s.object then { s' with invalid := true } else s'

@[simp] theorem length_invalidate (s : MatchScore) (later : List MatchScore) :
    (invalidate s later).length = later.length :=
  List.length_map ..

/-- A pair is matched. -/
def matchPair (frame : Frame σ) (s : MatchScore) (m : Matching σ) : Matching σ where
  persons :=
    match frame.percepts[s.percept]? with
    | some skeleton => m.persons.modify s.object fun p ↦ p.sight frame.identify skeleton
    | none => m.persons
  unusedPercepts := m.unusedPercepts.erase s.percept
  matched := m.matched ++ [s]

/-- The loop over the sorted scores. -/
def matchLoop (frame : Frame σ) : List MatchScore → Matching σ → Matching σ
  | [], m => m
  | s :: later, m =>
    if s.invalid then matchLoop frame later m
    else if s.score < skeletonMatchThreshold then m
    else matchLoop frame (invalidate s later) (frame.matchPair s m)
termination_by scores => scores.length

/-- The matching of a frame. -/
def matching (frame : Frame σ) (sort : ScoreSort) (persons : List (Person σ)) : Matching σ :=
  frame.matchLoop (sort.scores (frame.scores persons.length))
    ⟨persons, List.range frame.percepts.length, []⟩

end Frame

namespace TrackerState

/-- A hypothesis for the percept at an index. -/
def addHypothesis (frame : Frame σ) (st : TrackerState σ) (i : ℕ) : TrackerState σ :=
  match frame.percepts[i]? with
  | some skeleton =>
    { st with
      persons := st.persons ++ [Person.new st.nextId skeleton]
      nextId := st.nextId + 1 }
  | none => st

/-- `update`: a frame is matched with the persons, and the percepts left over become hypotheses. -/
def update (sort : ScoreSort) (order : SetOrder) (frame : Frame σ) (st : TrackerState σ) :
    TrackerState σ :=
  let m := frame.matching sort st.persons
  (order.indices m.unusedPercepts).foldl (addHypothesis frame) { st with persons := m.persons }

/-! ### Ticks -/

/-- The loop of `tick`, with the names that are published and the percepts. A pointer from `c_str()`
is never null, so the name of every person that is published is kept. The percept has the pointer,
which points into the vector. -/
def tickLoop : List (Person σ) → List String → List (PersonPercept σ) →
    List (Person σ) × List (PersonPercept σ)
  | [], _, percepts => ([], percepts)
  | person :: persons, names, percepts =>
    let shown := person.placeName persons
    let person := person.promote
    let publish := !person.hypothesis && !names.contains person.name
    let names := if publish then names ++ [person.name] else names
    let percepts :=
      if publish then percepts ++ [⟨person.id, shown, person.latestSkeleton⟩] else percepts
    let person := person.countDown
    let (persons, percepts) := tickLoop persons names percepts
    (if person.isErased then persons else person :: persons, percepts)

/-- `tick`, with what it adds to the percepts. -/
def tick (st : TrackerState σ) : TrackerState σ × List (PersonPercept σ) :=
  let (persons, percepts) := tickLoop st.persons [] []
  ({ st with persons }, percepts)

/-- `process`: a frame, and then a tick that publishes the confirmed persons. -/
def process (sort : ScoreSort) (order : SetOrder) (frame : Frame σ) (st : TrackerState σ) :
    TrackerState σ × List (PersonPercept σ) :=
  (st.update sort order frame).tick

/-! ### Between frames -/

/-- `start_learn`: the faces of a person are learnt from now on. -/
def startLearn (id : UInt32) (st : TrackerState σ) : TrackerState σ := { st with learningId := id }

/-- `learn`: the person that was learned is found again under its name. -/
def learn (st : TrackerState σ) : TrackerState σ :=
  { st with
    persons :=
      match st.persons.findIdx? (·.id = st.learningId) with
      | some i => st.persons.modify i fun p ↦ { p with shouldDelete := true }
      | none => st.persons
    learningId := 0 }

/-- `delete_person`: persons with a name are removed at once. -/
def deletePerson (name : String) (st : TrackerState σ) : TrackerState σ :=
  { st with persons := st.persons.filter (·.name ≠ name) }

/-- The state after `initialize`. -/
def initial : TrackerState σ := ⟨[], 1, 0⟩

end TrackerState

/-- What the worker does. -/
inductive Command (σ : Type u)
  | process (sort : ScoreSort) (order : SetOrder) (frame : Frame σ)
  | startLearn (id : UInt32)
  | learn
  | deletePerson (name : String)

namespace Command

/-- The state after a command. -/
def next : Command σ → TrackerState σ → TrackerState σ
  | process sort order frame, st => (st.process sort order frame).1
  | startLearn id, st => st.startLearn id
  | learn, st => st.learn
  | deletePerson name, st => st.deletePerson name

/-- The hypotheses that a command creates. -/
def created : Command σ → TrackerState σ → ℕ
  | process sort _ frame, st => (frame.matching sort st.persons).unusedPercepts.length
  | _, _ => 0

end Command

/-- The worker, with the number of ids it has handed out. -/
def tracker (σ : Type u) : TransitionSystem (ℕ × TrackerState σ) where
  init s := s = (0, TrackerState.initial)
  step s t := ∃ command : Command σ, t = (s.1 + command.created s.2, command.next s.2)

end PersonTracker
