import R2DTU.Reasoning.TickPass

/-!
# The views of persons and movables

The world lists its persons and its movables a second time, by pointers into the vector of objects.
A new object is put into the list of its type, and `World::clear` empties the lists with the vector.
The loop of `World::tick` removes objects from the vector only. The pointer to an object that was
removed stays in its list, and nothing takes it out again but `World::clear`.

`ViewsMatch` says that the lists are right. The invariant behind it is `InStep`: each list is the
vector, restricted to its type, in the same order. Every operation keeps it except a tick that
removes an object (`InStep.operate`), and a tick that removes one leaves a pointer to it
(`InStep.exists_not_viewsMatch`). `viewsMatch_run_iff` puts the two together for whole runs.
-/

namespace WorldModel

variable {order : SetOrder}

/-! ### Runs with `World::clear` -/

/-- `World::clear`. It forgets the triggers and transformers as well. -/
def World.clear (w : World) : World :=
  { w with
    latestEvents := []
    objects := []
    personObjects := []
    movableObjects := []
    newPercepts := false }

/-- What happens to a world. -/
inductive Operation
  | command (c : Command)
  | clear

namespace World

def operate (order : SetOrder) (w : World) : Operation → Option World
  | .command c => w.exec order c
  | .clear => some w.clear

/-- The lists of persons and movables are the live objects of their types, each once. -/
structure ViewsMatch (w : World) : Prop where
  /-- No person is in its view twice. -/
  nodup_persons : w.personObjects.Nodup
  /-- No movable is in its view twice. -/
  nodup_movables : w.movableObjects.Nodup
  /-- The view of persons has the persons of the vector. -/
  mem_persons {uid : ℕ} :
    uid ∈ w.personObjects ↔ ∃ obj ∈ w.objects, obj.type = .person ∧ obj.uid = uid
  /-- The view of movables has its movables. -/
  mem_movables {uid : ℕ} :
    uid ∈ w.movableObjects ↔ ∃ obj ∈ w.objects, obj.type = .movable ∧ obj.uid = uid

/-- The lists match in every state of the run. -/
def RunViewsMatch (order : SetOrder) : World → List Operation → Prop
  | w, [] => w.ViewsMatch
  | w, op :: ops => w.ViewsMatch ∧ ∀ w' ∈ w.operate order op, RunViewsMatch order w' ops

/-- If the operation is a tick, no object is expired when its loop starts. -/
def DeletesNothing (order : SetOrder) (w : World) : Operation → Prop
  | .command (.tick pending) => w.isPaused = false →
      ∀ w₁ ∈ pending.foldlM (processPercepts order) { w with latestEvents := [] },
        w₁.newPercepts = true → ∀ obj ∈ w₁.objects, ¬ obj.Expired
  | _ => True

theorem RunViewsMatch.viewsMatch {w : World} {ops : List Operation}
    (h : w.RunViewsMatch order ops) : w.ViewsMatch := by
  cases ops with
  | nil => exact h
  | cons op ops => exact h.1

/-- No tick of the run deletes an object. -/
def RunDeletesNothing (order : SetOrder) : World → List Operation → Prop
  | _, [] => True
  | w, op :: ops => w.DeletesNothing order op ∧
      ∀ w' ∈ w.operate order op, RunDeletesNothing order w' ops

/-! ### The invariant -/

/-- The identities of one type. -/
def uidsOf (idents : List (ℕ × WorldObjectType)) (type : WorldObjectType) : List ℕ :=
  (idents.filter (·.2 = type)).map Prod.fst

/-- **The invariant**: each list is the vector, restricted to its type. -/
structure InStep (w : World) : Prop where
  /-- An object is told by its identity. -/
  distinct : w.Distinct
  /-- The persons are listed in the order of the vector. -/
  persons_eq : w.personObjects = uidsOf w.idents .person
  /-- So are the movables. -/
  movables_eq : w.movableObjects = uidsOf w.idents .movable

variable {w w' : World}

theorem mem_uidsOf {type : WorldObjectType} {uid : ℕ} :
    uid ∈ uidsOf w.idents type ↔ ∃ obj ∈ w.objects, obj.type = type ∧ obj.uid = uid := by
  simp only [uidsOf, idents, List.mem_map, List.mem_filter, decide_eq_true_eq]
  constructor
  · rintro ⟨_, ⟨⟨obj, hobj, rfl⟩, htype⟩, huid⟩
    exact ⟨obj, hobj, htype, huid⟩
  · rintro ⟨obj, hobj, htype, huid⟩
    exact ⟨obj.ident, ⟨⟨obj, hobj, rfl⟩, htype⟩, huid⟩

theorem nodup_uidsOf (h : w.Distinct) (type : WorldObjectType) :
    (uidsOf w.idents type).Nodup := by
  refine List.Nodup.sublist (List.filter_sublist.map Prod.fst) ?_
  rw [map_fst_idents]
  exact h.nodup

theorem uidsOf_append_singleton (idents : List (ℕ × WorldObjectType)) (obj : WorldObject)
    (type : WorldObjectType) :
    uidsOf (idents ++ [obj.ident]) type =
      if obj.type = type then uidsOf idents type ++ [obj.uid] else uidsOf idents type := by
  have hone : [obj.ident].filter (fun i ↦ decide (i.2 = type)) =
      if obj.type = type then [obj.ident] else [] := by
    show (match decide (obj.type = type) with | true => [obj.ident] | false => []) = _
    split_ifs with htype
    · rw [decide_eq_true htype]
    · rw [decide_eq_false htype]
  rw [uidsOf, List.filter_append, List.map_append, hone]
  split_ifs
  · rfl
  · exact List.append_nil _

theorem InStep.viewsMatch (h : w.InStep) : w.ViewsMatch := by
  refine ⟨?_, ?_, ?_, ?_⟩
  · exact h.persons_eq ▸ nodup_uidsOf h.distinct .person
  · exact h.movables_eq ▸ nodup_uidsOf h.distinct .movable
  · exact h.persons_eq ▸ mem_uidsOf
  · exact h.movables_eq ▸ mem_uidsOf

theorem InStep.of_idents (h : w.InStep) (hidents : w'.idents = w.idents)
    (hnext : w'.nextUid = w.nextUid) (hpersons : w'.personObjects = w.personObjects)
    (hmovables : w'.movableObjects = w.movableObjects) : w'.InStep := by
  refine ⟨h.distinct.of_idents hidents hnext, ?_, ?_⟩
  · rw [hpersons, hidents, h.persons_eq]
  · rw [hmovables, hidents, h.movables_eq]

/-- A new object is put into the list of its type. -/
theorem InStep.addObject (h : w.InStep) {obj : WorldObject} (hobj : obj.uid = w.nextUid)
    (percept : Percept) : (w.addObject obj percept).InStep := by
  refine ⟨h.distinct.addObject hobj percept, ?_, ?_⟩
  · rw [idents_addObject, uidsOf_append_singleton, ← h.persons_eq]
    rfl
  · rw [idents_addObject, uidsOf_append_singleton, ← h.movables_eq]
    rfl

theorem InStep.processPercepts {msg : PerceptsMsg} (h : w.InStep)
    (hp : w.processPercepts order msg = some w') : w'.InStep := by
  refine processPercepts_rule (P := InStep) ?_ ?_ ?_ ?_ h hp
  · intro v percept objects hv hmatch
    exact hv.of_idents (map_ident_matchPercept hmatch) rfl rfl rfl
  · intro v percept hv
    rcases v.createHypothesis_eq_addObject percept with hsame | ⟨obj, hobj, hadd⟩
    · rwa [hsame]
    · exact hadd ▸ hv.addObject hobj percept
  · exact fun v hv ↦ hv.of_idents rfl rfl rfl rfl
  · exact fun v sources hv ↦ hv.of_idents rfl rfl rfl rfl

/-! ### Ticks -/

/-- A pass that finds no expired object ticks all of them and removes none. -/
theorem map_ident_tickObjects {objects : List WorldObject}
    (h : ∀ obj ∈ objects, ¬ obj.Expired) :
    (tickObjects objects).objects.map WorldObject.ident = objects.map WorldObject.ident := by
  have halive : ∀ obj ∈ objects, obj.tick.1.shouldDelete = false :=
    fun obj hobj ↦ obj.shouldDelete_tick_eq_false_iff.2 (h obj hobj)
  have hkeep : objects.filter (fun obj ↦ !obj.tick.1.shouldDelete) = objects := by
    refine List.filter_eq_self.2 fun obj hobj ↦ ?_
    rw [halive obj hobj]
    rfl
  rw [show (tickObjects objects).objects = (passOver objects.length 0 objects).1 from
    (tickLoop_eq_sweep _ _).1, passOver_of_alive fun obj hobj ↦ h obj (List.dropLast_subset _ hobj),
    hkeep, List.map_map]
  exact List.map_congr_left fun obj _ ↦ obj.ident_tick

/-- A pass that finds an expired object removes one for good. -/
theorem exists_removed_tickObjects {objects : List WorldObject}
    (hnodup : (objects.map (·.uid)).Nodup) {obj : WorldObject} (hobj : obj ∈ objects)
    (h : obj.Expired) : ∃ i ∈ objects.map WorldObject.ident,
      i.1 ∉ (tickObjects objects).objects.map (·.uid) := by
  have hperm := perm_passOver objects
  have hleft : (tickObjects objects).objects = (passOver objects.length 0 objects).1 :=
    (tickLoop_eq_sweep _ _).1
  obtain ⟨gone, hgone, hmarked⟩ := exists_expired_passOver hobj h
  rw [List.map_append] at hperm
  have hremoved : gone.ident ∈ ((passOver objects.length 0 objects).2.filter
      fun obj ↦ obj.tick.1.shouldDelete).map WorldObject.ident :=
    List.mem_map_of_mem (List.mem_filter.2 ⟨hgone, hmarked⟩)
  refine ⟨gone.ident, hperm.subset (List.mem_append_right _ hremoved), fun hmem ↦ ?_⟩
  -- what is left and what was removed share no identity
  have hapart : (objects.map WorldObject.ident).map Prod.fst = objects.map (·.uid) := List.map_map
  have huids := (hperm.map Prod.fst).nodup_iff.2 (hapart ▸ hnodup)
  rw [List.map_append] at huids
  refine (List.nodup_append.1 huids).2.2 _ ?_ _ (List.mem_map_of_mem hremoved) rfl
  rw [List.map_map, ← hleft]
  exact hmem

/-- A tick, by what is left to do after its messages. -/
theorem tick_cases {pending : List PerceptsMsg} (h : w.tick order pending = some w') :
    (w.isPaused = true ∧ w' = w) ∨ (w.isPaused = false ∧ ∃ w₁,
      pending.foldlM (World.processPercepts order) { w with latestEvents := [] } = some w₁ ∧
        ((w₁.newPercepts = false ∧ w' = w₁) ∨ (w₁.newPercepts = true ∧
          w' = { w₁ with
            objects := (tickObjects w₁.objects).objects
            latestEvents := (tickObjects w₁.objects).events
            newPercepts := false }))) := by
  rw [tick] at h
  split_ifs at h with hpaused
  · exact Or.inl ⟨hpaused, (Option.some.inj h).symm⟩
  · obtain ⟨w₁, hmsgs, rfl⟩ := Option.map_eq_some_iff.1 h
    refine Or.inr ⟨by simpa using hpaused, w₁, hmsgs, ?_⟩
    cases hnew : w₁.newPercepts with
    | false => exact Or.inl ⟨rfl, rfl⟩
    | true => exact Or.inr ⟨rfl, rfl⟩

/-- The messages of a tick. -/
theorem InStep.tickMessages {pending : List PerceptsMsg} (h : w.InStep)
    (hmsgs : pending.foldlM (World.processPercepts order) { w with latestEvents := [] } = some w') :
    w'.InStep :=
  have hstart : ({ w with latestEvents := [] } : World).InStep := h.of_idents rfl rfl rfl rfl
  foldlM_processPercepts_rule (P := InStep) (fun _ _ _ hv hp ↦ hv.processPercepts hp) hstart hmsgs

/-- **A tick that removes an object leaves a pointer to it.** -/
theorem InStep.exists_not_viewsMatch {op : Operation} (h : w.InStep)
    (hdelete : ¬ w.DeletesNothing order op) : ∃ w', w.operate order op = some w' ∧
      ¬ w'.ViewsMatch := by
  obtain ⟨pending, rfl⟩ : ∃ pending, op = .command (.tick pending) := by
    cases op with
    | clear => exact absurd trivial hdelete
    | command c =>
      cases c with
      | tick pending => exact ⟨pending, rfl⟩
      | percepts msg => exact absurd trivial hdelete
      | pause paused => exact absurd trivial hdelete
      | requestCalibration id => exact absurd trivial hdelete
  simp only [DeletesNothing, not_forall, not_not] at hdelete
  obtain ⟨hpaused, w₁, hmsgs, hnew, obj, hobj, hexpired⟩ := hdelete
  have hstep : w₁.InStep := h.tickMessages hmsgs
  refine ⟨_, tick_of_newPercepts hpaused hmsgs hnew, fun hmatch ↦ ?_⟩
  obtain ⟨⟨uid, type⟩, hident, hgone⟩ :=
    exists_removed_tickObjects hstep.distinct.nodup hobj hexpired
  -- it is still in the list of its type
  have hlisted : uid ∈ uidsOf w₁.idents type :=
    List.mem_map.2 ⟨(uid, type), List.mem_filter.2 ⟨hident, decide_eq_true rfl⟩, rfl⟩
  have hlive : ∃ obj ∈ (tickObjects w₁.objects).objects, obj.type = type ∧ obj.uid = uid := by
    cases type with
    | person => exact hmatch.mem_persons.1 (hstep.persons_eq.symm ▸ hlisted)
    | movable => exact hmatch.mem_movables.1 (hstep.movables_eq.symm ▸ hlisted)
  obtain ⟨o, ho, -, rfl⟩ := hlive
  exact hgone (List.mem_map_of_mem ho)

theorem inStep_new (newPercepts : Bool) : (World.new newPercepts).InStep := by
  refine ⟨⟨List.nodup_nil, fun {obj} h ↦ ?_⟩, rfl, rfl⟩
  exact absurd h List.not_mem_nil

/-- **One operation** that deletes nothing. -/
theorem InStep.operate {op : Operation} (h : w.InStep) (hop : w.operate order op = some w')
    (hkeep : w.DeletesNothing order op) : w'.InStep := by
  cases op with
  | clear =>
    obtain rfl := Option.some.inj hop
    exact ⟨⟨List.nodup_nil, fun hmem ↦ absurd hmem List.not_mem_nil⟩, rfl, rfl⟩
  | command c =>
    cases c with
    | percepts msg => exact h.processPercepts hop
    | pause paused =>
      obtain rfl := Option.some.inj hop
      exact h.of_idents rfl rfl rfl rfl
    | requestCalibration id =>
      obtain rfl := Option.some.inj hop
      exact h.of_idents rfl rfl rfl rfl
    | tick pending =>
      have htick : w.tick order pending = some w' := hop
      rcases tick_cases htick with ⟨-, rfl⟩ | ⟨hpaused, w₁, hmsgs, hrest⟩
      · exact h
      · have hstep : w₁.InStep := h.tickMessages hmsgs
        rcases hrest with ⟨-, rfl⟩ | ⟨hnew, rfl⟩
        · exact hstep
        · exact hstep.of_idents (map_ident_tickObjects (hkeep hpaused w₁ hmsgs hnew)) rfl rfl rfl

/-- **A whole run.** -/
theorem InStep.run_iff (h : w.InStep) (ops : List Operation) :
    w.RunViewsMatch order ops ↔ w.RunDeletesNothing order ops := by
  induction ops generalizing w with
  | nil => exact ⟨fun _ ↦ trivial, fun _ ↦ h.viewsMatch⟩
  | cons op ops ih =>
    constructor
    · intro ⟨_, hrest⟩
      have hkeep : w.DeletesNothing order op := by
        by_contra hdelete
        obtain ⟨w', hw', hnot⟩ := h.exists_not_viewsMatch hdelete
        exact hnot (hrest w' hw').viewsMatch
      exact ⟨hkeep, fun w' hw' ↦ (ih (h.operate hw' hkeep)).1 (hrest w' hw')⟩
    · intro ⟨hkeep, hrest⟩
      exact ⟨h.viewsMatch, fun w' hw' ↦ (ih (h.operate hw' hkeep)).2 (hrest w' hw')⟩

end World

/-- **The views match the contents** in every state of a run exactly when no tick of the run finds
an expired object. -/
theorem viewsMatch_run_iff (order : SetOrder) (newPercepts : Bool) (ops : List Operation) :
    (World.new newPercepts).RunViewsMatch order ops ↔
      (World.new newPercepts).RunDeletesNothing order ops :=
  World.InStep.run_iff (World.inStep_new newPercepts) ops

/-- **A pointer to an object that is gone.** Marker 1 is seen once and times out. -/
theorem views_dangle :
    ∃ w log, (World.new false).run SetOrder.insertion (List.replicate 21 Cups.calibration ++
        Cups.frame [1] 0 :: List.replicate 10 (Cups.frame [] 0)) = some (w, log) ∧
      w.movableObjects = [0] ∧ w.objects = [] ∧ ¬ w.ViewsMatch := by
  have hrun : ((World.new false).run SetOrder.insertion (List.replicate 21 Cups.calibration ++
      Cups.frame [1] 0 :: List.replicate 10 (Cups.frame [] 0))).map
        (fun r ↦ (r.1.movableObjects, r.1.objects)) = some ([0], []) := by decide +kernel
  obtain ⟨⟨w, log⟩, hw, hvalues⟩ := Option.map_eq_some_iff.1 hrun
  obtain ⟨hlisted, hgone⟩ := Prod.mk.inj hvalues
  refine ⟨w, log, hw, hlisted, hgone, fun h ↦ ?_⟩
  obtain ⟨obj, hobj, -⟩ := h.mem_movables.1 (hlisted ▸ List.mem_singleton_self 0)
  exact absurd (hgone ▸ hobj) List.not_mem_nil

end WorldModel
