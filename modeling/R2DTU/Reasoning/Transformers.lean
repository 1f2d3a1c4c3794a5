import R2DTU.Reasoning.Session

/-!
# The transformers of a session

A session and `Observing` have transformers of the same events: those of the session put out what
they ask for and read positions, and those of `Observing` only have the reasoner and the remembered
containers, and are told what is inside what. Here they are shown to agree (`observing_…`), so that
what is proved of the bookkeeping of containers is also true in sessions.
-/

namespace Reasoning

namespace Session

open Reactive

variable {L : DelDomain}

theorem perform_run (order : Del.HashOrder) (call : EpistemicReasoning.Call)
    (s : Session L) (out : List Output) :
    perform order call (s, out) = (s.epistemic.call order call).map fun e ↦
      ((), { s with epistemic := e }, out ++ [.epistemic call]) := by
  simp only [perform, bind_run, read_run, Option.bind_some, ofOption_run, change_run, emit_run]
  cases s.epistemic.call order call <;> rfl

theorem heard_run (text : String) (s : Session L) (out : List Output) :
    ∃ out', heard text (s, out) = some ((), s, out') := by
  have heach (sentences : List String) (out : List Output) :
      each (fun sentence ↦ emit (.hear sentence)) sentences (s, out) =
        some ((), s, out ++ sentences.map .hear) := by
    induction sentences generalizing out with
    | nil => rw [each_nil_run, List.map_nil, List.append_nil]
    | cons sentence sentences ih =>
      rw [each_cons_run, emit_run, Option.bind_some, ih, List.append_assoc]
      rfl
  rw [heard, bind_run, heach, Option.bind_some]
  split
  · exact ⟨_, rfl⟩
  · exact ⟨_, rfl⟩

/-- What a program does to the reasoner and to the remembered containers. -/
def observing (p : Program L Unit) (s : Session L) (out : List Output) : Option (Observing L) :=
  (p (s, out)).map (·.2.1.toObserving)

theorem observing_objectNewTransformer (order : Del.HashOrder) (text : String) (obj : Entity)
    (s : Session L) (out : List Output) :
    observing (objectNewTransformer order text obj) s out =
      s.toObserving.objectNewTransformer order obj.toWorldObject := by
  obtain ⟨out', hheard⟩ := heard_run text s out
  cases obj with
  | movable obj =>
    simp only [observing, objectNewTransformer, Entity.toWorldObject,
      Observing.objectNewTransformer]
    split
    · rw [perform_run, EpistemicReasoning.call]
      cases s.epistemic.addObject order .storable obj.name <;> rfl
    · split
      · rw [perform_run, EpistemicReasoning.call]
        cases s.epistemic.addObject order .container obj.name <;> rfl
      · split
        · rw [startListening, hheard]
          rfl
        · rfl
  | person p =>
    simp only [observing, objectNewTransformer, Entity.toWorldObject,
      Observing.objectNewTransformer]
    split
    · rfl
    · rw [bind_run, perform_run, EpistemicReasoning.call]
      cases s.epistemic.addObject order .agent p.name with
      | none => rfl
      | some e =>
        rw [Option.map_some, Option.bind_some, bind_run, perform_run, EpistemicReasoning.call]
        cases he : e.agentAppear p.name with
        | none => simp [he]
        | some e' => simp [he, change_run]

theorem observing_takeOut (order : Del.HashOrder) (obj : MovableObj) (s : Session L)
    (out : List Output) :
    observing (takeOut order obj.name) s out =
      s.toObserving.objectAppearTransformer (.movable obj) := by
  rw [observing, takeOut, bind_run, read_run, Option.bind_some, Observing.objectAppearTransformer]
  cases s.currentContainer obj.name with
  | none => rfl
  | some container =>
    show ((perform order _ >>= _) (s, out)).map _ = _
    rw [bind_run, perform_run, EpistemicReasoning.call]
    cases he : s.epistemic.takeOutOfContainer Observing.robot obj.name container with
    | none => simp [he]
    | some e => simp [he, change_run]

theorem observing_objectAppearTransformer (order : Del.HashOrder) (text : String) (obj : Entity)
    (s : Session L) (out : List Output) :
    observing (objectAppearTransformer order text obj) s out =
      s.toObserving.objectAppearTransformer obj.toWorldObject := by
  cases obj with
  | person p =>
    simp only [observing, objectAppearTransformer, Entity.toWorldObject,
      Observing.objectAppearTransformer]
    split
    · rfl
    · rw [perform_run, EpistemicReasoning.call]
      cases s.epistemic.agentAppear p.name <;> rfl
  | movable obj =>
    rw [Entity.toWorldObject, ← observing_takeOut order obj.toMovableObj s out, observing,
      observing, objectAppearTransformer, bind_run]
    cases takeOut order obj.name (s, out) with
    | none => rfl
    | some r =>
      obtain ⟨-, s', out'⟩ := r
      obtain ⟨out'', hheard⟩ := heard_run text s' out'
      rw [Option.bind_some]
      split
      · rw [startListening, hheard]
        rfl
      · rfl

theorem observing_lookInto (order : Del.HashOrder) (obj movable : Movable)
    {inside : MovableObj → Bool} (hinside : inside movable.toMovableObj = movable.holds obj.center)
    (s : Session L) (out : List Output) :
    observing (lookInto order obj movable) s out =
      Observing.lookInto obj.toMovableObj inside s.toObserving movable.toMovableObj := by
  rw [observing, lookInto, Observing.lookInto, hinside]
  split
  · rfl
  · split
    · rfl
    · split
      · rw [bind_run, change_run, Option.bind_some, perform_run, EpistemicReasoning.call]
        cases s.epistemic.putInContainer Observing.robot obj.name movable.name with
        | none => simp
        | some e => simp
      · rfl

theorem observing_each_lookInto (order : Del.HashOrder) (obj : Movable) {movables : List Movable}
    {inside : MovableObj → Bool}
    (hinside : ∀ m ∈ movables, inside m.toMovableObj = m.holds obj.center) (s : Session L)
    (out : List Output) :
    observing (each (lookInto order obj) movables) s out =
      (movables.map (·.toMovableObj)).foldlM (Observing.lookInto obj.toMovableObj inside)
        s.toObserving := by
  induction movables generalizing s out with
  | nil => rfl
  | cons m movables ih =>
    rw [List.map_cons, List.foldlM_cons,
      ← observing_lookInto order obj m (hinside m List.mem_cons_self) s out, observing, observing,
      each_cons_run]
    cases lookInto order obj m (s, out) with
    | none => rfl
    | some r => exact ih (fun m' hm' ↦ hinside m' (List.mem_cons_of_mem _ hm')) r.2.1 r.2.2

theorem observing_disappear_person (order : Del.HashOrder) (text : String) (p : PersonObj)
    (movables : List MovableObj) (inside : MovableObj → Bool) (s : Session L) (out : List Output) :
    observing (objectDisappearTransformer order text (.person p)) s out =
      s.toObserving.objectDisappearTransformer movables inside (.person p.name) := by
  rw [observing, objectDisappearTransformer, Observing.objectDisappearTransformer]
  split
  · rfl
  · rw [bind_run, perform_run, EpistemicReasoning.call]
    cases s.epistemic.agentDisappear p.name with
    | none => simp
    | some e => simp [change_run]

/-- **The transformers are those of `Observing`**, when an event says of each container whether the
object is inside. -/
theorem observing_objectDisappearTransformer (order : Del.HashOrder) (text : String) (obj : Movable)
    {inside : MovableObj → Bool} (s : Session L)
    (hinside : ∀ m ∈ s.world.movables, inside m.toMovableObj = m.holds obj.center)
    (out : List Output) :
    observing (objectDisappearTransformer order text (.movable obj)) s out =
      s.toObserving.objectDisappearTransformer (s.world.movables.map (·.toMovableObj)) inside
        (.movable obj.toMovableObj) := by
  have hall (s' : Session L) (hs' : s'.toObserving = s.toObserving) (hworld : s'.world = s.world)
      (out : List Output) : observing (lookIntoAll order obj) s' out =
        (s.world.movables.map (·.toMovableObj)).foldlM (Observing.lookInto obj.toMovableObj inside)
          s.toObserving := by
    rw [← hworld] at hinside ⊢
    rw [← hs']
    exact observing_each_lookInto order obj hinside s' out
  obtain ⟨out', hheard⟩ := heard_run text s out
  rw [observing, objectDisappearTransformer, Observing.objectDisappearTransformer]
  split
  · rfl
  · split
    · rw [bind_run, stopListening, bind_run, hheard, Option.bind_some, change_run, Option.bind_some]
      exact hall { s with recording := false } rfl rfl out'
    · exact hall s rfl rfl out

end Session

end Reasoning
