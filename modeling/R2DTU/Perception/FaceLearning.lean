import R2DTU.Library.Machine
import R2DTU.Library.RecentRing
import R2DTU.Perception.PersonTracker
import Mathlib.Algebra.BigOperators.Group.List.Basic
import Mathlib.Data.List.Forall2

/-!
# Learning faces

A person without a name gets the name of the known person whose faces are closest to its own. While
a person is learned, the faces of it that nobody is recognised in go into a buffer of eight, over
the oldest ones, and `learn` makes a known person of what is in the buffer.

The tracker is here the one of `PersonTracker` with the known persons and the buffer. A **notebook**
is what the faces are kept in. The buffer is one notebook, and a list of all faces of the lesson, of
which the last eight are used, is another: trackers with these two publish the same
(`published_eq`), in every run. With the list it can be said where the faces of a known person come
from (`knownPersons_provenance`).

Distances are rational numbers, a distance is no NaN, and their mean is exact. The source adds
`float`s in the order of the slots, where the sum may depend on the order by a rounding; the results
here are about exact sums. The mean over no faces is a NaN, so that a person learned without faces
is never recognised. `identify_person` takes the last of the known persons with the least mean.
-/

namespace PersonTracker

open WorldModel (SetOrder)

universe u v w

variable {σ : Type u} {E : Type v} {N : Type w}

/-- `LEARNING_BUFFER_SIZE`: how many faces of a person are kept. -/
def learningBufferSize : ℕ := 8

/-- The first value of `best_avg_dist`: the `float` next to 0.55. -/
def recognitionThreshold : ℚ := 9227469 / 16777216

/-- `KnownPerson`, for some type of faces. -/
structure KnownPerson (E : Type v) where
  /-- The name it is published under. -/
  name : String
  /-- Whether it was loaded at the start. -/
  priority : Bool
  /-- The faces it was learned from. -/
  faceEmbeddings : List E

/-- The exact mean of the distances of a known person to a face; `none` is a NaN. -/
def KnownPerson.averageDistance (compare : E → E → ℚ) (known : KnownPerson E) (face : E) :
    Option ℚ :=
  if known.faceEmbeddings.length = 0 then none
  else some ((known.faceEmbeddings.map (compare · face)).sum / known.faceEmbeddings.length)

/-- One round of `identify_person`, with `best_known` and `best_avg_dist`. -/
def compareKnown (compare : E → E → ℚ) (face : E) (best : String × ℚ) (known : KnownPerson E) :
    String × ℚ :=
  match known.averageDistance compare face with
  | some avg => if avg ≤ best.2 then (known.name, avg) else best
  | none => best

/-- `identify_person`: the name of the known person with the least average distance to the face, if
the threshold is not below it. -/
def identifyPerson (compare : E → E → ℚ) (knownPersons : List (KnownPerson E)) (face : E) :
    String :=
  (knownPersons.foldl (compareKnown compare face) ("", recognitionThreshold)).1

/-- A frame, with the face that is detected where the skeleton of a person has its eyes. -/
structure FaceFrame (σ : Type u) (E : Type v) where
  /-- The skeletons in the frame. -/
  percepts : List σ
  /-- How well a skeleton fits a person, by their indices. -/
  score : ℕ → ℕ → ℚ
  /-- The face at the eyes of a skeleton. -/
  detect : Person σ → Option E

namespace FaceFrame

variable (frame : FaceFrame σ E) (identify : E → String)

/-- The frame as it is for the tracker without faces. -/
def toFrame : Frame σ where
  percepts := frame.percepts
  score := frame.score
  identify p := ((frame.detect p).map identify).getD ""

/-- The face `face_scan_person` finds for a pair and recognises nobody in, with the id of the
person. -/
def unrecognised (s : MatchScore) (m : Matching σ) : Option (UInt32 × E) :=
  match frame.percepts[s.percept]?, m.persons[s.object]? with
  | some skeleton, some p =>
    let p := p.updatePerson skeleton
    if !p.hypothesis && p.name = "" then
      ((frame.detect p).filter fun face ↦ identify face = "").map (p.id, ·)
    else none
  | _, _ => none

/-- A pair is matched, and the face that is not recognised is noted. -/
def matchPair (note : N → UInt32 × E → N) (s : MatchScore) (st : Matching σ × N) :
    Matching σ × N :=
  ((frame.toFrame identify).matchPair s st.1,
    (frame.unrecognised identify s st.1).elim st.2 (note st.2))

/-- The loop over the sorted scores. -/
def matchLoop (note : N → UInt32 × E → N) : List MatchScore → Matching σ × N → Matching σ × N
  | [], st => st
  | s :: later, st =>
    if s.invalid then matchLoop note later st
    else if s.score < skeletonMatchThreshold then st
    else matchLoop note (Frame.invalidate s later) (frame.matchPair identify note s st)
termination_by scores => scores.length

/-- The matching of a frame. -/
def matching (note : N → UInt32 × E → N) (sort : ScoreSort) (persons : List (Person σ))
    (notebook : N) : Matching σ × N :=
  frame.matchLoop identify note (sort.scores ((frame.toFrame identify).scores persons.length))
    (⟨persons, List.range frame.percepts.length, []⟩, notebook)

/-- The faces that nobody is recognised in, in the order they are found. -/
def noticed (sort : ScoreSort) (persons : List (Person σ)) : List (UInt32 × E) :=
  (frame.matching identify (fun found f ↦ found ++ [f]) sort persons []).2

end FaceFrame

/-! ### The tracker -/

/-- What the faces of a lesson are kept in. -/
structure Notebook (E : Type v) (N : Type w) where
  /-- What is kept when a lesson starts. -/
  blank : N
  /-- One more face. -/
  push : N → E → N
  /-- The faces to learn from. -/
  faces : N → List E

/-- `learning_buffer`, with `next_learning_buffer_id`. -/
def learningBuffer : Notebook E (RecentRing E learningBufferSize) where
  blank := .blank (by decide)
  push := .push
  faces := RecentRing.entries

/-- All faces, of which the last eight are used. -/
def recentFaces : Notebook E (List E) where
  blank := []
  push faces face := faces ++ [face]
  faces faces := faces.drop (faces.length - learningBufferSize)

/-- `PersonTrackerState` with the faces: the persons in front of the camera, those whose faces have
been learnt, and what is kept of the present lesson. -/
structure FaceTracker (σ : Type u) (E : Type v) (N : Type w) where
  /-- The persons in front of the camera. -/
  tracker : TrackerState σ
  /-- The persons whose faces were learnt or loaded. -/
  knownPersons : List (KnownPerson E)
  /-- What is kept of the present lesson. -/
  notebook : N

/-- What the worker does. -/
inductive FaceCommand (σ : Type u) (E : Type v)
  | process (sort : ScoreSort) (order : SetOrder) (frame : FaceFrame σ E)
  | startLearn (id : UInt32)
  | learn (name : String)
  | deletePerson (name : String)

namespace FaceTracker

variable (book : Notebook E N) (compare : E → E → ℚ)

/-- The state after `initialize`, with the persons that are loaded. -/
def initial (loaded : List (KnownPerson E)) : FaceTracker σ E N := ⟨.initial, loaded, book.blank⟩

/-- The end of `face_scan_person`: the face is kept if it is of the person that is learned. -/
def keep (learningId : UInt32) (notebook : N) (found : UInt32 × E) : N :=
  if learningId = found.1 then book.push notebook found.2 else notebook

/-- `update`: a frame is matched with the persons, faces are identified and learnt on the way, and
the percepts left over become hypotheses. -/
def update (sort : ScoreSort) (order : SetOrder) (frame : FaceFrame σ E) (st : FaceTracker σ E N) :
    FaceTracker σ E N :=
  let identify := identifyPerson compare st.knownPersons
  let (m, notebook) := frame.matching identify (keep book st.tracker.learningId) sort
    st.tracker.persons st.notebook
  { st with
    tracker := (order.indices m.unusedPercepts).foldl
      (TrackerState.addHypothesis (frame.toFrame identify)) { st.tracker with persons := m.persons }
    notebook }

/-- `process`: a frame, and then a tick that publishes the confirmed persons. -/
def process (sort : ScoreSort) (order : SetOrder) (frame : FaceFrame σ E) (st : FaceTracker σ E N) :
    List (PersonPercept σ) × FaceTracker σ E N :=
  let st := st.update book compare sort order frame
  let (tracker, percepts) := st.tracker.tick
  (percepts, { st with tracker })

/-- `start_learn`: a lesson begins, and nothing is kept of an earlier one. -/
def startLearn (id : UInt32) (st : FaceTracker σ E N) : FaceTracker σ E N :=
  { st with tracker := st.tracker.startLearn id, notebook := book.blank }

/-- `learn`. What is in the buffer stays there. -/
def learn (name : String) (st : FaceTracker σ E N) : FaceTracker σ E N :=
  { st with
    tracker := st.tracker.learn
    knownPersons := st.knownPersons ++ [⟨name, false, book.faces st.notebook⟩] }

/-- `delete_person`: a name is forgotten, in front of the camera and among the learnt faces. -/
def deletePerson (name : String) (st : FaceTracker σ E N) : FaceTracker σ E N :=
  { st with
    tracker := st.tracker.deletePerson name
    knownPersons := st.knownPersons.filter (·.name ≠ name) }

/-- A command, with the percepts that are published. -/
def execute (st : FaceTracker σ E N) :
    FaceCommand σ E → List (PersonPercept σ) × FaceTracker σ E N
  | .process sort order frame => st.process book compare sort order frame
  | .startLearn id => ([], st.startLearn book id)
  | .learn name => ([], st.learn book name)
  | .deletePerson name => ([], st.deletePerson name)

def step (st : FaceTracker σ E N) (command : FaceCommand σ E) :
    Option (List (PersonPercept σ) × FaceTracker σ E N) :=
  some (st.execute book compare command)

end FaceTracker

/-! ### The matching and the faces -/

section Matching

variable {frame : FaceFrame σ E} {identify : E → String}

/-- The matching is that of the tracker without faces. -/
theorem FaceFrame.fst_matchLoop (note : N → UInt32 × E → N) (scores : List MatchScore)
    (st : Matching σ × N) : (frame.matchLoop identify note scores st).1 =
      (frame.toFrame identify).matchLoop scores st.1 := by
  induction scores, st using FaceFrame.matchLoop.induct frame identify note with
  | case1 st => rw [matchLoop, Frame.matchLoop]
  | case2 s later st hinvalid ih =>
    rw [matchLoop, Frame.matchLoop, if_pos hinvalid, if_pos hinvalid, ih]
  | case3 s later st hinvalid hlow =>
    rw [matchLoop, Frame.matchLoop, if_neg hinvalid, if_neg hinvalid, if_pos hlow, if_pos hlow]
  | case4 s later st hinvalid hlow ih =>
    rw [matchLoop, Frame.matchLoop, if_neg hinvalid, if_neg hinvalid, if_neg hlow, if_neg hlow, ih]
    rfl

/-- Whatever is done with the faces, they are found in the same order. -/
theorem FaceFrame.snd_matchLoop (note : N → UInt32 × E → N) (n : N) (scores : List MatchScore)
    (st : Matching σ × List (UInt32 × E)) :
    (frame.matchLoop identify note scores (st.1, st.2.foldl note n)).2 =
      (frame.matchLoop identify (fun found f ↦ found ++ [f]) scores st).2.foldl note n := by
  induction scores, st using FaceFrame.matchLoop.induct frame identify
    fun found f ↦ found ++ [f] with
  | case1 st => rw [matchLoop, matchLoop]
  | case2 s later st hinvalid ih =>
    rw [matchLoop, matchLoop, if_pos hinvalid, if_pos hinvalid, ih]
  | case3 s later st hinvalid hlow =>
    rw [matchLoop, matchLoop, if_neg hinvalid, if_neg hinvalid, if_pos hlow, if_pos hlow]
  | case4 s later st hinvalid hlow ih =>
    rw [matchLoop, matchLoop, if_neg hinvalid, if_neg hinvalid, if_neg hlow, if_neg hlow, ← ih]
    congr 2
    rw [matchPair, matchPair]
    cases frame.unrecognised identify s st.1 with
    | none => rfl
    | some found =>
      show _ = (_, (st.2 ++ [found]).foldl note n)
      rw [List.foldl_append]
      rfl

theorem FaceFrame.snd_matching (note : N → UInt32 × E → N) (sort : ScoreSort)
    (persons : List (Person σ)) (n : N) : (frame.matching identify note sort persons n).2 =
      (frame.noticed identify sort persons).foldl note n :=
  snd_matchLoop note n _ (_, [])

/-- **What a frame does**: the tracker is updated as without faces, and the faces found are kept. -/
theorem FaceTracker.update_eq (book : Notebook E N) (compare : E → E → ℚ) (sort : ScoreSort)
    (order : SetOrder) (st : FaceTracker σ E N) : st.update book compare sort order frame =
      { st with
        tracker := st.tracker.update sort order
          (frame.toFrame (identifyPerson compare st.knownPersons))
        notebook := (frame.noticed (identifyPerson compare st.knownPersons) sort
          st.tracker.persons).foldl (keep book st.tracker.learningId) st.notebook } := by
  have hfst : (frame.matching (identifyPerson compare st.knownPersons)
      (keep book st.tracker.learningId) sort st.tracker.persons st.notebook).1 =
        (frame.toFrame (identifyPerson compare st.knownPersons)).matching sort
          st.tracker.persons := FaceFrame.fst_matchLoop _ _ _
  rw [← FaceFrame.snd_matching, TrackerState.update, ← hfst]
  rfl

end Matching

/-! ### Notebooks that hold the same -/

/-- The two hold the same faces, whatever is done with them. -/
structure Notebook.Simulates {N' : Type w} (R : N → N' → Prop) (book : Notebook E N)
    (book' : Notebook E N') : Prop where
  /-- They start with the same faces. -/
  blank : R book.blank book'.blank
  /-- They go on with the same faces. -/
  push {n n'} (h : R n n') (face : E) : R (book.push n face) (book'.push n' face)
  /-- They have the same faces to learn from, in some order. -/
  faces_perm {n n'} (h : R n n') : (book.faces n).Perm (book'.faces n')

/-- **The buffer holds the last eight faces.** -/
theorem simulates_learningBuffer : Notebook.Simulates
    (fun (ring : RecentRing E learningBufferSize) faces ↦ ring.Shows faces) learningBuffer
      recentFaces where
  blank := RecentRing.shows_blank _
  push h := h.push
  faces_perm h := h.entries_perm

/-- The same known person, with its faces in some order. -/
structure KnownPerson.Same (known known' : KnownPerson E) : Prop where
  name_eq : known.name = known'.name
  priority_eq : known.priority = known'.priority
  faces_perm : known.faceEmbeddings.Perm known'.faceEmbeddings

theorem KnownPerson.Same.refl (known : KnownPerson E) : known.Same known :=
  ⟨rfl, rfl, List.Perm.refl _⟩

theorem KnownPerson.Same.averageDistance_eq {known known' : KnownPerson E} (h : known.Same known')
    (compare : E → E → ℚ) (face : E) :
    known.averageDistance compare face = known'.averageDistance compare face := by
  rw [averageDistance, averageDistance, h.faces_perm.length_eq,
    (h.faces_perm.map (compare · face)).sum_eq]

theorem identifyPerson_eq {known known' : List (KnownPerson E)}
    (h : List.Forall₂ KnownPerson.Same known known') (compare : E → E → ℚ) :
    identifyPerson compare known = identifyPerson compare known' := by
  funext face
  rw [identifyPerson, identifyPerson]
  generalize ("", recognitionThreshold) = best
  induction h generalizing best with
  | nil => rfl
  | cons hsame _ ih =>
    rw [List.foldl_cons, List.foldl_cons, ih]
    rw [compareKnown, compareKnown, hsame.averageDistance_eq, hsame.name_eq]

namespace FaceTracker

section Simulation

variable {N' : Type w} {R : N → N' → Prop} {book : Notebook E N} {book' : Notebook E N'}
  {compare : E → E → ℚ} {st : FaceTracker σ E N} {st' : FaceTracker σ E N'}

/-- Two trackers differ in their notebooks only. -/
structure Alike (R : N → N' → Prop) (st : FaceTracker σ E N) (st' : FaceTracker σ E N') : Prop where
  tracker_eq : st.tracker = st'.tracker
  knownPersons : List.Forall₂ KnownPerson.Same st.knownPersons st'.knownPersons
  notebook : R st.notebook st'.notebook

theorem alike_initial (h : Notebook.Simulates R book book') (loaded : List (KnownPerson E)) :
    Alike R (initial book loaded : FaceTracker σ E N) (initial book' loaded) :=
  ⟨rfl, List.forall₂_same.2 fun known _ ↦ .refl known, h.blank⟩

theorem Alike.keep (hbook : Notebook.Simulates R book book') {n : N} {n' : N'} (h : R n n')
    (learningId : UInt32) (found : List (UInt32 × E)) :
    R (found.foldl (FaceTracker.keep book learningId) n)
      (found.foldl (FaceTracker.keep book' learningId) n') := by
  induction found generalizing n n' with
  | nil => exact h
  | cons f found ih =>
    refine ih ?_
    rw [FaceTracker.keep, FaceTracker.keep]
    split_ifs
    · exact hbook.push h f.2
    · exact h

theorem Alike.update (hbook : Notebook.Simulates R book book') (h : Alike R st st')
    (sort : ScoreSort) (order : SetOrder) (frame : FaceFrame σ E) :
    Alike R (st.update book compare sort order frame)
      (st'.update book' compare sort order frame) := by
  rw [update_eq, update_eq, ← identifyPerson_eq h.knownPersons, ← h.tracker_eq]
  exact ⟨rfl, h.knownPersons, Alike.keep hbook h.notebook _ _⟩

/-- **One command.** -/
theorem Alike.step (hbook : Notebook.Simulates R book book') (h : Alike R st st')
    (command : FaceCommand σ E) : ∃ percepts next next',
      st.step book compare command = some (percepts, next) ∧
        st'.step book' compare command = some (percepts, next') ∧ Alike R next next' := by
  cases command with
  | process sort order frame =>
    have hupdate : Alike R (st.update book compare sort order frame)
        (st'.update book' compare sort order frame) := Alike.update hbook h sort order frame
    refine ⟨(st.update book compare sort order frame).tracker.tick.2,
      { st.update book compare sort order frame with
        tracker := (st.update book compare sort order frame).tracker.tick.1 },
      { st'.update book' compare sort order frame with
        tracker := (st'.update book' compare sort order frame).tracker.tick.1 }, rfl, ?_, ?_⟩
    · rw [hupdate.tracker_eq]
      rfl
    · exact ⟨by rw [hupdate.tracker_eq], hupdate.knownPersons, hupdate.notebook⟩
  | startLearn id =>
    refine ⟨[], st.startLearn book id, st'.startLearn book' id, rfl, rfl, ?_, h.knownPersons,
      hbook.blank⟩
    rw [startLearn, startLearn, h.tracker_eq]
  | learn name =>
    refine ⟨[], st.learn book name, st'.learn book' name, rfl, rfl, ?_, ?_, h.notebook⟩
    · rw [learn, learn, h.tracker_eq]
    · exact List.rel_append h.knownPersons (.cons ⟨rfl, rfl, hbook.faces_perm h.notebook⟩ .nil)
  | deletePerson name =>
    refine ⟨[], st.deletePerson name, st'.deletePerson name, rfl, rfl, ?_, ?_, h.notebook⟩
    · rw [deletePerson, deletePerson, h.tracker_eq]
    · refine List.rel_filter (fun known known' hsame ↦ ?_) h.knownPersons
      simp only [hsame.name_eq]

end Simulation

/-- **The buffer is the last eight faces.** In every run, whatever is detected and learned, the
tracker with the buffer publishes the percepts that one publishes that keeps all faces of a lesson
and learns from the last eight. The buffer has them in another order than the lesson, so this rests
on exact means. -/
theorem published_eq (compare : E → E → ℚ) (loaded : List (KnownPerson E))
    (commands : List (FaceCommand σ E)) :
    Machine.outputs (step learningBuffer compare) (initial learningBuffer loaded) commands =
      Machine.outputs (step recentFaces compare) (initial recentFaces loaded) commands :=
  Machine.outputs_eq (R := Alike fun ring faces ↦ ring.Shows faces)
    (fun h _ ↦ Alike.step simulates_learningBuffer h _)
    (alike_initial simulates_learningBuffer loaded) (.of_forall (fun _ _ ↦ trivial) _ _)

/-- The command without faces. -/
def toCommand (compare : E → E → ℚ) (st : FaceTracker σ E N) : FaceCommand σ E → Command σ
  | .process sort order frame =>
    .process sort order (frame.toFrame (identifyPerson compare st.knownPersons))
  | .startLearn id => .startLearn id
  | .learn _ => .learn
  | .deletePerson name => .deletePerson name

/-- **The tracker without faces** does the same to the persons. -/
theorem tracker_execute (book : Notebook E N) (compare : E → E → ℚ) (st : FaceTracker σ E N)
    (command : FaceCommand σ E) : (st.execute book compare command).2.tracker =
      (st.toCommand compare command).next st.tracker := by
  cases command with
  | process sort order frame =>
    rw [execute, process, update_eq]
    rfl
  | startLearn id => rfl
  | learn name => rfl
  | deletePerson name => rfl

/-! ### Where the faces of a known person come from -/

/-- What happens to the lessons. -/
inductive Note (E : Type v)
  | started (id : UInt32)
  | noticed (id : UInt32) (face : E)
  | learned (name : String)

/-- The lesson that is going on: the id, and its faces since the start. -/
structure Lesson (E : Type v) where
  /-- The person it is about. -/
  id : UInt32
  /-- The faces of the person since it started. -/
  faces : List E

def Lesson.note (l : Lesson E) : Note E → Lesson E
  | .started id => ⟨id, []⟩
  | .noticed id face => if l.id = id then { l with faces := l.faces ++ [face] } else l
  | .learned _ => { l with id := 0 }

/-- The lesson after some notes. -/
def lesson (notes : List (Note E)) : Lesson E := notes.foldl Lesson.note ⟨0, []⟩

/-- The notes of a command: all faces that nobody is recognised in, of any person. -/
def notes (compare : E → E → ℚ) (st : FaceTracker σ E N) : FaceCommand σ E → List (Note E)
  | .process sort _ frame =>
    (frame.noticed (identifyPerson compare st.knownPersons) sort st.tracker.persons).map
      fun found ↦ .noticed found.1 found.2
  | .startLearn id => [.started id]
  | .learn name => [.learned name]
  | .deletePerson _ => []

/-- A run of the tracker with its notes. -/
def run (compare : E → E → ℚ) (loaded : List (KnownPerson E)) (commands : List (FaceCommand σ E)) :
    FaceTracker σ E (RecentRing E learningBufferSize) × List (Note E) :=
  commands.foldl
    (fun st command ↦
      ((st.1.execute learningBuffer compare command).2, st.2 ++ st.1.notes compare command))
    (initial learningBuffer loaded, [])

/-- The person was learned from the last faces of a lesson. -/
def Taught (notes : List (Note E)) (known : KnownPerson E) : Prop :=
  ∃ before after, notes = before ++ .learned known.name :: after ∧ known.priority = false ∧
    known.faceEmbeddings.Perm
      ((lesson before).faces.drop ((lesson before).faces.length - learningBufferSize))

/-- **The invariant**: the buffer holds the faces of the lesson, and the known persons were loaded
or learned. -/
structure Records (loaded : List (KnownPerson E))
    (st : FaceTracker σ E (RecentRing E learningBufferSize)) (notes : List (Note E)) : Prop where
  /-- The tracker has the id of the lesson. -/
  learningId_eq : st.tracker.learningId = (lesson notes).id
  /-- The buffer has the last faces of the lesson. -/
  notebook : st.notebook.Shows (lesson notes).faces
  /-- Known persons were loaded or taught. -/
  knownPersons : ∀ known ∈ st.knownPersons, known ∈ loaded ∨ Taught notes known

variable {loaded : List (KnownPerson E)} {st : FaceTracker σ E (RecentRing E learningBufferSize)}
  {notes notes' : List (Note E)} {compare : E → E → ℚ}

theorem lesson_append : lesson (notes ++ notes') = notes'.foldl Lesson.note (lesson notes) :=
  List.foldl_append

theorem Taught.append {known : KnownPerson E} (h : Taught notes known) (later : List (Note E)) :
    Taught (notes ++ later) known := by
  obtain ⟨before, after, rfl, hpriority, hperm⟩ := h
  exact ⟨before, after ++ later, by rw [List.append_assoc, List.cons_append], hpriority, hperm⟩

/-- The faces of a frame go into the buffer as they go into the lesson. -/
theorem shows_keep {ring : RecentRing E learningBufferSize} {l : Lesson E} (h : ring.Shows l.faces)
    (found : List (UInt32 × E)) :
    (found.foldl (keep learningBuffer l.id) ring).Shows
        ((found.map fun f ↦ Note.noticed f.1 f.2).foldl Lesson.note l).faces ∧
      ((found.map fun f ↦ Note.noticed f.1 f.2).foldl Lesson.note l).id = l.id := by
  induction found generalizing ring l with
  | nil => exact ⟨h, rfl⟩
  | cons f found ih =>
    by_cases hid : l.id = f.1
    · have hnote : l.note (.noticed f.1 f.2) = { l with faces := l.faces ++ [f.2] } := if_pos hid
      have hkeep : keep learningBuffer l.id ring f = ring.push f.2 := if_pos hid
      rw [List.map_cons, List.foldl_cons, List.foldl_cons, hnote, hkeep]
      exact ih (l := { l with faces := l.faces ++ [f.2] }) (h.push f.2)
    · have hnote : l.note (.noticed f.1 f.2) = l := if_neg hid
      have hkeep : keep learningBuffer l.id ring f = ring := if_neg hid
      rw [List.map_cons, List.foldl_cons, List.foldl_cons, hnote, hkeep]
      exact ih h

/-- What a tick and the matching of a frame keep. -/
theorem learningId_update (sort : ScoreSort) (order : SetOrder) (frame : Frame σ)
    (tracker : TrackerState σ) :
    (tracker.update sort order frame).learningId = tracker.learningId := by
  rw [TrackerState.update]
  refine List.foldlRecOn _ _
    (motive := fun st : TrackerState σ ↦ st.learningId = tracker.learningId) rfl fun st hst i _ ↦ ?_
  rw [TrackerState.addHypothesis]
  split
  · exact hst
  · exact hst

/-- **One command.** -/
theorem Records.execute (h : Records loaded st notes) (command : FaceCommand σ E) :
    Records loaded (st.execute learningBuffer compare command).2
      (notes ++ st.notes compare command) := by
  have hknown : ∀ known ∈ st.knownPersons,
      known ∈ loaded ∨ Taught (notes ++ st.notes compare command) known := fun known hmem ↦
    (h.knownPersons known hmem).imp_right fun ht ↦ ht.append _
  cases command with
  | process sort order frame =>
    obtain ⟨hshows, hid⟩ := shows_keep h.notebook
      (frame.noticed (identifyPerson compare st.knownPersons) sort st.tracker.persons)
    rw [← h.learningId_eq] at hshows
    rw [FaceTracker.execute, process, update_eq]
    refine ⟨?_, ?_, hknown⟩
    · rw [lesson_append, FaceTracker.notes, hid, ← h.learningId_eq]
      exact learningId_update sort order _ st.tracker
    · rw [lesson_append]
      exact hshows
  | startLearn id =>
    refine ⟨?_, ?_, hknown⟩
    · rw [lesson_append]
      rfl
    · rw [lesson_append]
      exact RecentRing.shows_blank _
  | learn name =>
    refine ⟨?_, ?_, fun known hmem ↦ ?_⟩
    · rw [lesson_append]
      rfl
    · rw [lesson_append]
      exact h.notebook
    · rcases List.mem_append.1 hmem with hold | hnew
      · exact hknown known hold
      · obtain rfl := List.mem_singleton.1 hnew
        exact Or.inr ⟨notes, [], rfl, rfl, h.notebook.entries_perm⟩
  | deletePerson name =>
    rw [FaceTracker.notes, List.append_nil] at hknown ⊢
    exact ⟨h.learningId_eq, h.notebook, fun known hmem ↦ hknown known (List.mem_of_mem_filter hmem)⟩

/-- **The faces of known persons.** In every run, a known person was loaded or was learned, from the
last eight of the faces that nobody was recognised in, found since the lesson started at persons
with the id of the lesson. -/
theorem knownPersons_provenance (compare : E → E → ℚ) (loaded : List (KnownPerson E))
    (commands : List (FaceCommand σ E)) :
    ∀ known ∈ (run compare loaded commands).1.knownPersons,
      known ∈ loaded ∨ Taught (run compare loaded commands).2 known := by
  have hrun : Records loaded (run compare loaded commands).1 (run compare loaded commands).2 := by
    refine List.foldlRecOn _ _
      (motive := fun st : FaceTracker σ E _ × List (Note E) ↦ Records loaded st.1 st.2) ?_
      fun st hst command _ ↦ hst.execute command
    exact ⟨rfl, RecentRing.shows_blank _, fun known hmem ↦ Or.inl hmem⟩
  exact hrun.knownPersons

/-- A lesson about the person 1 and sixteen frames in which it is alone, the face of each
numbered. -/
def longLesson : List (FaceCommand Unit ℕ) :=
  .startLearn 1 :: ((List.range 16).map fun face ↦
    .process .merge .insertion ⟨[()], fun _ _ ↦ 1, fun _ ↦ some face⟩) ++ [.learn "ann"]

/-- The person is confirmed in frame 6, so the lesson has ten faces, and it is learned from the last
eight of them. -/
theorem knownPersons_provenance_longLesson :
    ∃ known, (run (fun _ _ ↦ 1) [] longLesson).1.knownPersons = [known] ∧
      known.faceEmbeddings = [14, 15, 8, 9, 10, 11, 12, 13] ∧
      Taught (run (fun _ _ ↦ 1) [] longLesson).2 known := by
  have hfaces : (run (fun _ _ ↦ 1) [] longLesson).1.knownPersons.map KnownPerson.faceEmbeddings =
      [[14, 15, 8, 9, 10, 11, 12, 13]] := by decide +kernel
  obtain ⟨known, hknown, hembeddings⟩ := List.map_eq_singleton_iff.1 hfaces
  have hmem : known ∈ (run (fun _ _ ↦ 1) [] longLesson).1.knownPersons :=
    hknown ▸ List.mem_singleton_self known
  exact ⟨known, hknown, hembeddings, (knownPersons_provenance (fun _ _ ↦ 1) [] longLesson known
    hmem).resolve_left List.not_mem_nil⟩

/-- So what holds of the tracker without faces holds in every run. -/
theorem exists_reachable_run (compare : E → E → ℚ) (loaded : List (KnownPerson E))
    (commands : List (FaceCommand σ E)) :
    ∃ n, (PersonTracker.tracker σ).Reachable (n, (run compare loaded commands).1.tracker) := by
  refine List.foldlRecOn _ _ (motive := fun st : FaceTracker σ E _ × List (Note E) ↦
    ∃ n, (PersonTracker.tracker σ).Reachable (n, st.1.tracker)) ⟨0, .init rfl⟩
      fun st ⟨n, hst⟩ command _ ↦ ?_
  refine ⟨n + (st.1.toCommand compare command).created st.1.tracker,
    hst.step ⟨st.1.toCommand compare command, ?_⟩⟩
  rw [tracker_execute]

end FaceTracker

end PersonTracker
