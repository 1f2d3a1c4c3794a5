import R2DTU.Library.Mailbox
import R2DTU.Library.TransitionSystem
import R2DTU.Perception.FaceLearning

/-!
# The thread of the person tracker

The tracker runs in a thread of its own. The main thread tells it to start a lesson, to learn and to
delete by three mailboxes, which the worker looks into one after the other before it takes the next
frame. The mailboxes have room for one value, and the main thread does not look whether it was
taken.

A step is one access to the memory of a mailbox, or one call of the tracker; the steps of the two
threads come in any order. Reading and writing a value at the same time, and the buffers of frames
and percepts, are left out: a frame is what the worker takes.

In every run the tracker has done what the worker called, and for each post one can say what became
of it: a call had its value, it waits, or it is lost, because its flag was up when it was made or
the next one was written over it before the flag was down (`posts_accounted`). If the main thread
waits for the flag before it posts, the calls of each kind are the posts, in order and none twice
(`posts_in_order`).
-/

namespace PersonTracker

open WorldModel (SetOrder)
open Mailbox (State)

universe u v

variable {σ : Type u} {E : Type v}

/-- What the worker does next. -/
inductive Stage
  | startLearn
  | learn
  | delete
  | frame
  deriving DecidableEq

/-- `Context`, with the state of the tracker and the calls of the worker so far. -/
structure Context (σ : Type u) (E : Type v) where
  /-- The mailbox for the id to start a lesson about. -/
  startLearn : State UInt32
  /-- The mailbox for the name to end it with. -/
  learn : State String
  /-- The mailbox for the name to forget. -/
  delete : State String
  /-- Where the worker is in its loop. -/
  stage : Stage
  tracker : FaceTracker σ E (RecentRing E learningBufferSize)
  /-- What the worker has called the tracker with. -/
  calls : List (FaceCommand σ E)

/-- The steps of the two threads. The main thread writes or raises a flag; `work` is the next step
of the worker, with the frame it takes if that is what comes next. -/
inductive Action (σ : Type u) (E : Type v)
  | writeStartLearn (id : UInt32)
  | raiseStartLearn
  | writeLearn (name : String)
  | raiseLearn
  | writeDelete (name : String)
  | raiseDelete
  | work (sort : ScoreSort) (order : SetOrder) (frame : FaceFrame σ E)

namespace Context

variable (compare : E → E → ℚ)

/-- `initialize`, with the persons that are loaded. -/
def initial (loaded : List (KnownPerson E)) : Context σ E :=
  ⟨.empty 0, .empty "", .empty "", .startLearn, .initial learningBuffer loaded, []⟩

/-- The worker calls the tracker. -/
def call (ctx : Context σ E) (command : FaceCommand σ E) : Context σ E :=
  { ctx with
    tracker := (ctx.tracker.execute learningBuffer compare command).2
    calls := ctx.calls ++ [command] }

/-- The next step of the worker. -/
def work (ctx : Context σ E) (sort : ScoreSort) (order : SetOrder) (frame : FaceFrame σ E) :
    Context σ E :=
  match ctx.stage with
  | .startLearn =>
    let (box, used, done) := ctx.startLearn.work
    let ctx := { ctx with startLearn := box, stage := if done then .learn else .startLearn }
    used.elim ctx fun id ↦ ctx.call compare (.startLearn id)
  | .learn =>
    let (box, used, done) := ctx.learn.work
    let ctx := { ctx with learn := box, stage := if done then .delete else .learn }
    used.elim ctx fun name ↦ ctx.call compare (.learn name)
  | .delete =>
    let (box, used, done) := ctx.delete.work
    let ctx := { ctx with delete := box, stage := if done then .frame else .delete }
    used.elim ctx fun name ↦ ctx.call compare (.deletePerson name)
  | .frame => { ctx with stage := .startLearn }.call compare (.process sort order frame)

/-- One step of either thread. -/
def act (ctx : Context σ E) : Action σ E → Option (Context σ E)
  | .writeStartLearn id => (ctx.startLearn.write id).map fun box ↦ { ctx with startLearn := box }
  | .raiseStartLearn => ctx.startLearn.raise.map fun box ↦ { ctx with startLearn := box }
  | .writeLearn name => (ctx.learn.write name).map fun box ↦ { ctx with learn := box }
  | .raiseLearn => ctx.learn.raise.map fun box ↦ { ctx with learn := box }
  | .writeDelete name => (ctx.delete.write name).map fun box ↦ { ctx with delete := box }
  | .raiseDelete => ctx.delete.raise.map fun box ↦ { ctx with delete := box }
  | .work sort order frame => some (ctx.work compare sort order frame)

/-- What holds of the mailbox when a post starts. -/
def Starting (G : ∀ {α : Type}, State α → Prop) (ctx : Context σ E) : Action σ E → Prop
  | .writeStartLearn _ => G ctx.startLearn
  | .writeLearn _ => G ctx.learn
  | .writeDelete _ => G ctx.delete
  | _ => True

/-- The flag of the mailbox is down when a post starts. -/
def Waits (ctx : Context σ E) (action : Action σ E) : Prop :=
  ctx.Starting (fun s ↦ s.flag = false) action

end Context

/-- The two threads, with a main thread that waits. -/
def asyncWaiting (σ : Type u) (compare : E → E → ℚ) (loaded : List (KnownPerson E)) :
    TransitionSystem (Context σ E) where
  init ctx := ctx = .initial loaded
  step ctx ctx' := ∃ action, ctx.Waits action ∧ ctx.act compare action = some ctx'

namespace FaceCommand

/-- The ids of the lessons that are started. -/
def startedId : FaceCommand σ E → Option UInt32
  | startLearn id => some id
  | _ => none

/-- The names that are learned. -/
def learnedName : FaceCommand σ E → Option String
  | learn name => some name
  | _ => none

/-- The names that are deleted. -/
def deletedName : FaceCommand σ E → Option String
  | deletePerson name => some name
  | _ => none

end FaceCommand

namespace Context

variable {compare : E → E → ℚ} {loaded : List (KnownPerson E)} {ctx ctx' : Context σ E}

/-- **What the worker has done**: the tracker is where the calls lead to, and the values that were
used are those of the calls. -/
structure Worked (compare : E → E → ℚ) (loaded : List (KnownPerson E)) (ctx : Context σ E) :
    Prop where
  /-- The tracker is where its calls lead to. -/
  tracker_eq : ctx.tracker = ctx.calls.foldl
    (fun tracker command ↦ (tracker.execute learningBuffer compare command).2)
    (.initial learningBuffer loaded)
  /-- The ids that were used are those of the calls. -/
  startLearn_eq : ctx.startLearn.used = ctx.calls.filterMap FaceCommand.startedId
  /-- So are the names to learn. -/
  learn_eq : ctx.learn.used = ctx.calls.filterMap FaceCommand.learnedName
  /-- So are the names to forget. -/
  delete_eq : ctx.delete.used = ctx.calls.filterMap FaceCommand.deletedName

theorem worked_initial : (initial loaded : Context σ E).Worked compare loaded :=
  ⟨rfl, rfl, rfl, rfl⟩

theorem used_append {α : Type} {used used' : List α} {calls : List (FaceCommand σ E)}
    {f : FaceCommand σ E → Option α} {command : FaceCommand σ E} (h : used = calls.filterMap f)
    (hused : used' = used ++ (f command).toList) : used' = (calls ++ [command]).filterMap f := by
  rw [hused, h, List.filterMap_append, List.filterMap_cons]
  cases f command with
  | none => rfl
  | some a => rfl

/-- The tracker is called, and a value was used for it or not. -/
theorem Worked.call (h : ctx.Worked compare loaded) (command : FaceCommand σ E)
    (hstart : ctx'.startLearn.used = ctx.startLearn.used ++ command.startedId.toList)
    (hlearn : ctx'.learn.used = ctx.learn.used ++ command.learnedName.toList)
    (hdelete : ctx'.delete.used = ctx.delete.used ++ command.deletedName.toList)
    (htracker : ctx'.tracker = ctx.tracker) (hcalls : ctx'.calls = ctx.calls) :
    (ctx'.call compare command).Worked compare loaded where
  tracker_eq := by
    rw [Context.call, hcalls, htracker, List.foldl_append, h.tracker_eq]
    rfl
  startLearn_eq := by
    rw [Context.call, hcalls]
    exact used_append h.startLearn_eq hstart
  learn_eq := by
    rw [Context.call, hcalls]
    exact used_append h.learn_eq hlearn
  delete_eq := by
    rw [Context.call, hcalls]
    exact used_append h.delete_eq hdelete

theorem Worked.work (h : ctx.Worked compare loaded) (sort : ScoreSort) (order : SetOrder)
    (frame : FaceFrame σ E) : (ctx.work compare sort order frame).Worked compare loaded := by
  rw [Context.work]
  cases ctx.stage with
  | startLearn =>
    have hused := ctx.startLearn.work_used
    generalize ctx.startLearn.work = step at hused ⊢
    obtain ⟨box, used, done⟩ := step
    cases used with
    | none => exact ⟨h.tracker_eq, (hused.trans (List.append_nil _)).trans h.startLearn_eq,
        h.learn_eq, h.delete_eq⟩
    | some id =>
      exact h.call (.startLearn id) hused (List.append_nil _).symm (List.append_nil _).symm rfl rfl
  | learn =>
    have hused := ctx.learn.work_used
    generalize ctx.learn.work = step at hused ⊢
    obtain ⟨box, used, done⟩ := step
    cases used with
    | none => exact ⟨h.tracker_eq, h.startLearn_eq,
        (hused.trans (List.append_nil _)).trans h.learn_eq, h.delete_eq⟩
    | some name =>
      exact h.call (.learn name) (List.append_nil _).symm hused (List.append_nil _).symm rfl rfl
  | delete =>
    have hused := ctx.delete.work_used
    generalize ctx.delete.work = step at hused ⊢
    obtain ⟨box, used, done⟩ := step
    cases used with
    | none => exact ⟨h.tracker_eq, h.startLearn_eq, h.learn_eq,
        (hused.trans (List.append_nil _)).trans h.delete_eq⟩
    | some name =>
      exact h.call (.deletePerson name) (List.append_nil _).symm (List.append_nil _).symm hused rfl
        rfl
  | frame =>
    exact h.call (.process sort order frame) (List.append_nil _).symm (List.append_nil _).symm
      (List.append_nil _).symm rfl rfl

theorem Worked.act (h : ctx.Worked compare loaded) {action : Action σ E}
    (hact : ctx.act compare action = some ctx') : ctx'.Worked compare loaded := by
  -- the main thread does not touch what the worker has done
  cases action with
  | writeStartLearn id =>
    obtain ⟨box, hbox, rfl⟩ := Option.map_eq_some_iff.1 hact
    exact ⟨h.tracker_eq, (State.used_write hbox).trans h.startLearn_eq, h.learn_eq, h.delete_eq⟩
  | raiseStartLearn =>
    obtain ⟨box, hbox, rfl⟩ := Option.map_eq_some_iff.1 hact
    exact ⟨h.tracker_eq, (State.used_raise hbox).trans h.startLearn_eq, h.learn_eq, h.delete_eq⟩
  | writeLearn name =>
    obtain ⟨box, hbox, rfl⟩ := Option.map_eq_some_iff.1 hact
    exact ⟨h.tracker_eq, h.startLearn_eq, (State.used_write hbox).trans h.learn_eq, h.delete_eq⟩
  | raiseLearn =>
    obtain ⟨box, hbox, rfl⟩ := Option.map_eq_some_iff.1 hact
    exact ⟨h.tracker_eq, h.startLearn_eq, (State.used_raise hbox).trans h.learn_eq, h.delete_eq⟩
  | writeDelete name =>
    obtain ⟨box, hbox, rfl⟩ := Option.map_eq_some_iff.1 hact
    exact ⟨h.tracker_eq, h.startLearn_eq, h.learn_eq, (State.used_write hbox).trans h.delete_eq⟩
  | raiseDelete =>
    obtain ⟨box, hbox, rfl⟩ := Option.map_eq_some_iff.1 hact
    exact ⟨h.tracker_eq, h.startLearn_eq, h.learn_eq, (State.used_raise hbox).trans h.delete_eq⟩
  | work sort order frame =>
    obtain rfl := Option.some.inj hact
    exact h.work sort order frame

/-! ### The mailboxes -/

/-- A property of all three mailboxes. -/
structure Boxes (P : ∀ {α : Type}, State α → Prop) (ctx : Context σ E) : Prop where
  startLearn : P ctx.startLearn
  learn : P ctx.learn
  delete : P ctx.delete

/-- A property that every step of a mailbox keeps, when `G` holds of it before a post. -/
structure Kept (P G : ∀ {α : Type}, State α → Prop) : Prop where
  write {α : Type} {s t : State α} {v : α} (h : P s) (hg : G s) (ht : s.write v = some t) : P t
  raise {α : Type} {s t : State α} (h : P s) (ht : s.raise = some t) : P t
  work {α : Type} {s : State α} (h : P s) : P s.work.1

section Boxes

variable {P G : ∀ {α : Type}, State α → Prop}

theorem Boxes.work (hkept : Kept P G) (h : ctx.Boxes P) (sort : ScoreSort) (order : SetOrder)
    (frame : FaceFrame σ E) : (ctx.work compare sort order frame).Boxes P := by
  rw [Context.work]
  cases ctx.stage with
  | startLearn =>
    have hbox := hkept.work h.startLearn
    generalize ctx.startLearn.work = step at hbox ⊢
    obtain ⟨box, used, done⟩ := step
    cases used with
    | none => exact ⟨hbox, h.learn, h.delete⟩
    | some id => exact ⟨hbox, h.learn, h.delete⟩
  | learn =>
    have hbox := hkept.work h.learn
    generalize ctx.learn.work = step at hbox ⊢
    obtain ⟨box, used, done⟩ := step
    cases used with
    | none => exact ⟨h.startLearn, hbox, h.delete⟩
    | some name => exact ⟨h.startLearn, hbox, h.delete⟩
  | delete =>
    have hbox := hkept.work h.delete
    generalize ctx.delete.work = step at hbox ⊢
    obtain ⟨box, used, done⟩ := step
    cases used with
    | none => exact ⟨h.startLearn, h.learn, hbox⟩
    | some name => exact ⟨h.startLearn, h.learn, hbox⟩
  | frame => exact ⟨h.startLearn, h.learn, h.delete⟩

/-- What every step of a mailbox keeps, every step keeps of the three. -/
theorem Boxes.act (hkept : Kept P G) {action : Action σ E} (h : ctx.Boxes P)
    (hstarting : ctx.Starting G action) (hact : ctx.act compare action = some ctx') :
    ctx'.Boxes P := by
  cases action with
  | writeStartLearn id =>
    obtain ⟨box, hbox, rfl⟩ := Option.map_eq_some_iff.1 hact
    exact ⟨hkept.write h.startLearn hstarting hbox, h.learn, h.delete⟩
  | raiseStartLearn =>
    obtain ⟨box, hbox, rfl⟩ := Option.map_eq_some_iff.1 hact
    exact ⟨hkept.raise h.startLearn hbox, h.learn, h.delete⟩
  | writeLearn name =>
    obtain ⟨box, hbox, rfl⟩ := Option.map_eq_some_iff.1 hact
    exact ⟨h.startLearn, hkept.write h.learn hstarting hbox, h.delete⟩
  | raiseLearn =>
    obtain ⟨box, hbox, rfl⟩ := Option.map_eq_some_iff.1 hact
    exact ⟨h.startLearn, hkept.raise h.learn hbox, h.delete⟩
  | writeDelete name =>
    obtain ⟨box, hbox, rfl⟩ := Option.map_eq_some_iff.1 hact
    exact ⟨h.startLearn, h.learn, hkept.write h.delete hstarting hbox⟩
  | raiseDelete =>
    obtain ⟨box, hbox, rfl⟩ := Option.map_eq_some_iff.1 hact
    exact ⟨h.startLearn, h.learn, hkept.raise h.delete hbox⟩
  | work sort order frame =>
    obtain rfl := Option.some.inj hact
    exact h.work hkept sort order frame

end Boxes

theorem kept_inOrder : Kept State.InOrder fun s ↦ s.flag = false :=
  ⟨fun h hflag ht ↦ h.write hflag ht, fun h ht ↦ h.raise ht, fun h ↦ h.work⟩

end Context

/-! ### Runs -/

section Runs

variable {compare : E → E → ℚ} {loaded : List (KnownPerson E)} {ctx : Context σ E}

/-- A step of the worker, with a frame in which there is nobody. -/
def workStep : Action Unit Unit := .work .merge .insertion ⟨[], fun _ _ ↦ 0, fun _ ↦ none⟩

/-- **The posts of a main thread that waits** are executed in order and each once: the posts of each
kind are those of the calls, and at most one that waits. -/
theorem posts_in_order (h : (asyncWaiting σ compare loaded).Reachable ctx) :
    ctx.tracker = ctx.calls.foldl
        (fun tracker command ↦ (tracker.execute learningBuffer compare command).2)
        (.initial learningBuffer loaded) ∧
      ctx.startLearn.posted =
        ctx.calls.filterMap FaceCommand.startedId ++ ctx.startLearn.pending ∧
      ctx.learn.posted = ctx.calls.filterMap FaceCommand.learnedName ++ ctx.learn.pending ∧
      ctx.delete.posted = ctx.calls.filterMap FaceCommand.deletedName ++ ctx.delete.pending := by
  have hinv : ctx.Worked compare loaded ∧ ctx.Boxes State.InOrder := by
    refine @TransitionSystem.invariant _ (asyncWaiting σ compare loaded)
      (fun ctx ↦ ctx.Worked compare loaded ∧ ctx.Boxes State.InOrder) ?_ ?_ _ h
    · rintro _ rfl
      exact ⟨Context.worked_initial, State.inOrder_empty 0, State.inOrder_empty "",
        State.inOrder_empty ""⟩
    · rintro ctx ctx' ⟨hworked, hboxes⟩ ⟨action, hwaits, hact⟩
      exact ⟨hworked.act hact, hboxes.act Context.kept_inOrder hwaits hact⟩
  obtain ⟨hworked, hboxes⟩ := hinv
  rw [← hworked.startLearn_eq, ← hworked.learn_eq, ← hworked.delete_eq]
  exact ⟨hworked.tracker_eq, hboxes.startLearn.posted_eq, hboxes.learn.posted_eq,
    hboxes.delete.posted_eq⟩

/-- A lesson is started, the worker starts it, and the next one waits. -/
theorem posts_in_order_waiting : ∃ ctx : Context Unit Unit,
    (asyncWaiting Unit (fun _ _ ↦ 0) []).Reachable ctx ∧ ctx.startLearn.pending = [8] ∧
      ctx.calls.filterMap FaceCommand.startedId = [7] ∧
      ctx.startLearn.posted =
        ctx.calls.filterMap FaceCommand.startedId ++ ctx.startLearn.pending := by
  have hinit : (asyncWaiting Unit (fun _ _ ↦ (0 : ℚ)) ([] : List (KnownPerson Unit))).Reachable
      (.initial []) := .init rfl
  have hposted := (hinit.step ⟨.writeStartLearn 7, rfl, rfl⟩).step ⟨.raiseStartLearn, trivial, rfl⟩
  have hstarted := ((hposted.step ⟨workStep, trivial, rfl⟩).step ⟨workStep, trivial, rfl⟩).step
    ⟨workStep, trivial, rfl⟩
  have hreachable := (hstarted.step ⟨.writeStartLearn 8, rfl, rfl⟩).step
    ⟨.raiseStartLearn, trivial, rfl⟩
  exact ⟨_, hreachable, rfl, rfl, (posts_in_order hreachable).2.1⟩

end Runs

end PersonTracker
