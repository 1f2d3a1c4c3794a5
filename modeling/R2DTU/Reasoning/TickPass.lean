import R2DTU.Library.Sweep
import R2DTU.Reasoning.Announcement

/-!
# What a tick of the world looks at

With new percepts `World::tick` goes through the vector of objects once: every object is ticked, one
that is marked is removed, and for each of the others the single triggers of its type are called. A
removal swaps with the last object, and the loop goes on with the next index. So the object that was
moved is ticked by no one in this call, and its triggers are not called.

`Expired` says which objects a tick marks, and this can be read off before the loop starts.
`VisitsEach` is what the loop is for, and `visitsEach_tick_iff` that it does this exactly when no
object is expired except, perhaps, the last of the vector. It rests on `SwapPop.sweep`, which the
loop is an instance of (`tickLoop_eq_sweep`).

`Distinct` is what identities are: an object keeps its own, no two objects share one, and the next
object gets a fresh one.
-/

namespace WorldModel

variable {order : SetOrder}

/-! ### Identities -/

namespace WorldObject

/-- What an object never loses: its identity and its type. -/
def ident (obj : WorldObject) : ℕ × WorldObjectType := (obj.uid, obj.type)

@[simp] theorem ident_tick (obj : WorldObject) : obj.tick.1.ident = obj.ident := by
  have hstatus : obj.tickStatus.1.ident = obj.ident := by
    rw [tickStatus]
    split <;> split_ifs <;> rfl
  exact hstatus

@[simp] theorem uid_tick (obj : WorldObject) : obj.tick.1.uid = obj.uid :=
  congrArg Prod.fst obj.ident_tick

@[simp] theorem ident_runUpdate (obj : WorldObject) (percept : Percept) :
    (obj.runUpdate percept).ident = obj.ident := by
  have hsight : obj.produceSighting.ident = obj.ident := by
    rw [produceSighting]
    split <;> rfl
  cases percept with
  | marker p => exact hsight
  | object p => exact hsight
  | person p =>
    rw [runUpdate, update]
    split_ifs
    · exact hsight
    · exact hsight

end WorldObject

namespace World

/-- The objects that are there, by what they never lose. -/
def idents (w : World) : List (ℕ × WorldObjectType) := w.objects.map WorldObject.ident

/-- No two objects share an identity, and the next one is fresh. -/
structure Distinct (w : World) : Prop where
  /-- No two objects share an identity. -/
  nodup : (w.objects.map (·.uid)).Nodup
  /-- The next one is new. -/
  uid_lt {obj : WorldObject} (h : obj ∈ w.objects) : obj.uid < w.nextUid

variable {w w' : World}

theorem map_fst_idents (w : World) : w.idents.map Prod.fst = w.objects.map (·.uid) :=
  List.map_map

/-- Whoever matches a percept keeps its identity. -/
theorem map_ident_matchPercept {objects objects' : List WorldObject} {percept : Percept}
    (h : matchPercept objects percept = some objects') :
    objects'.map WorldObject.ident = objects.map WorldObject.ident := by
  obtain ⟨i, -, rfl⟩ := Option.map_eq_some_iff.1 h
  refine List.ext_getElem? fun j ↦ ?_
  rw [List.getElem?_map, List.getElem?_map, List.getElem?_modify]
  cases objects[j]? with
  | none => rfl
  | some obj =>
    show some (if i = j then obj.runUpdate percept else obj).ident = some obj.ident
    split_ifs
    · rw [WorldObject.ident_runUpdate]
    · rfl

theorem idents_addObject (w : World) (obj : WorldObject) (percept : Percept) :
    (w.addObject obj percept).idents = w.idents ++ [obj.ident] := by
  rw [idents, addObject, List.map_append, List.map_singleton, WorldObject.ident_runUpdate]
  rfl

/-- A new object has the identity that was kept for it. -/
theorem createHypothesis_eq_addObject (w : World) (percept : Percept) :
    w.createHypothesis percept = w ∨ ∃ obj : WorldObject, obj.uid = w.nextUid ∧
      w.createHypothesis percept = w.addObject obj percept := by
  rcases w.createHypothesis_cases percept with h | ⟨obj, ⟨id, name, hobj⟩, h⟩
  · exact Or.inl h
  · refine Or.inr ⟨obj, ?_, h⟩
    rcases hobj with rfl | rfl
    · rfl
    · rfl

theorem Distinct.of_idents (h : w.Distinct) (hidents : w'.idents = w.idents)
    (hnext : w'.nextUid = w.nextUid) : w'.Distinct := by
  refine ⟨?_, fun {obj} hobj ↦ ?_⟩
  · rw [← map_fst_idents, hidents, map_fst_idents]
    exact h.nodup
  · have hmem : obj.ident ∈ w.idents := hidents ▸ List.mem_map_of_mem hobj
    obtain ⟨obj', hobj', hident⟩ := List.mem_map.1 hmem
    have huid : obj'.uid = obj.uid := congrArg Prod.fst hident
    rw [hnext, ← huid]
    exact h.uid_lt hobj'

theorem Distinct.addObject (h : w.Distinct) {obj : WorldObject} (hobj : obj.uid = w.nextUid)
    (percept : Percept) : (w.addObject obj percept).Distinct := by
  have huid : (obj.runUpdate percept).uid = w.nextUid :=
    (congrArg Prod.fst (obj.ident_runUpdate percept)).trans hobj
  refine ⟨?_, fun {o} ho ↦ ?_⟩
  · show ((w.objects ++ [obj.runUpdate percept]).map (·.uid)).Nodup
    rw [List.map_append, List.map_singleton, huid]
    refine List.nodup_append.2 ⟨h.nodup, List.nodup_singleton _, fun a ha b hb ↦ ?_⟩
    obtain ⟨o, ho, rfl⟩ := List.mem_map.1 ha
    rw [List.mem_singleton.1 hb]
    exact Nat.ne_of_lt (h.uid_lt ho)
  · show o.uid < w.nextUid + 1
    rcases List.mem_append.1 ho with ho | ho
    · exact Nat.lt_succ_of_lt (h.uid_lt ho)
    · rw [List.mem_singleton.1 ho, huid]
      exact Nat.lt_succ_self _

/-- **Messages and identities**: the objects that were there keep theirs, and new ones come after
them. -/
theorem Distinct.foldlM_processPercepts {pending : List PerceptsMsg} (h : w.Distinct)
    (hw : pending.foldlM (processPercepts order) w = some w') :
    w'.Distinct ∧ w.idents <+: w'.idents := by
  refine foldlM_processPercepts_rule (P := fun v ↦ v.Distinct ∧ w.idents <+: v.idents)
    (fun v v' msg hv hp ↦ ?_) ⟨h, List.prefix_refl _⟩ hw
  refine processPercepts_rule (P := fun v ↦ v.Distinct ∧ w.idents <+: v.idents) ?_ ?_ ?_ ?_ hv hp
  · intro v percept objects hv hmatch
    have hidents : ({ v with objects } : World).idents = v.idents := map_ident_matchPercept hmatch
    exact ⟨hv.1.of_idents hidents rfl, hidents ▸ hv.2⟩
  · intro v percept hv
    rcases v.createHypothesis_eq_addObject percept with hsame | ⟨obj, hobj, hadd⟩
    · rwa [hsame]
    · rw [hadd, idents_addObject]
      exact ⟨hv.1.addObject hobj percept, hv.2.trans (List.prefix_append _ _)⟩
  · exact fun v hv ↦ ⟨hv.1.of_idents rfl rfl, hv.2⟩
  · exact fun v sources hv ↦ ⟨hv.1.of_idents rfl rfl, hv.2⟩

end World

/-! ### Objects that are removed -/

namespace WorldObject

/-- A hypothesis whose time is up without the sightings it needs, or an object that is marked
already. -/
def Expired (obj : WorldObject) : Prop :=
  obj.shouldDelete = true ∨ obj.status = .hypothetical ∧
    obj.sightingsCounter < obj.neededSightings ∧ obj.timeoutCounter ≤ 0

instance (obj : WorldObject) : Decidable obj.Expired :=
  inferInstanceAs (Decidable (_ ∨ _ ∧ _ ∧ _))

/-- **A tick marks the expired objects.** -/
theorem shouldDelete_tick_iff (obj : WorldObject) :
    obj.tick.1.shouldDelete = true ↔ obj.Expired := by
  show obj.tickStatus.1.shouldDelete = true ↔ obj.Expired
  rw [tickStatus, Expired]
  rcases hstatus : obj.status with _ | _ | _
  · simp only
    split_ifs with hneed htime
    · simp [Int.not_lt.2 hneed]
    · simp [Int.not_le.1 hneed, htime]
    · simp [htime]
  · simp only
    split_ifs <;> simp
  · simp only
    split_ifs <;> simp

theorem shouldDelete_tick_eq_false_iff (obj : WorldObject) :
    obj.tick.1.shouldDelete = false ↔ ¬ obj.Expired := by
  rw [← shouldDelete_tick_iff, Bool.not_eq_true]

end WorldObject

/-! ### The calls of one pass -/

/-- `WorldTrigger`, with its function by identity. -/
structure WorldTrigger where
  entityType : WorldObjectType
  f : ℕ
  deriving DecidableEq

/-- The loop over the single triggers for one object: the functions that are called on it. -/
def runTriggers (triggers : List WorldTrigger) (obj : WorldObject) : List (ℕ × ℕ) :=
  (triggers.filter (·.entityType = obj.type)).map fun trig ↦ (trig.f, obj.uid)

namespace World

/-- The objects `tickLoop` ticks, as they are when it comes to them. -/
def ticked : ℕ → TickState → List WorldObject
  | 0, _ => []
  | fuel + 1, st =>
    match st.objects[st.index]? with
    | none => []
    | some obj => obj :: ticked fuel (st.visit obj)

/-- The calls of single triggers in `tickLoop`. -/
def triggerCalls (triggers : List WorldTrigger) : ℕ → TickState → List (ℕ × ℕ)
  | 0, _ => []
  | fuel + 1, st =>
    match st.objects[st.index]? with
    | none => []
    | some obj =>
      (if obj.tick.1.shouldDelete then [] else runTriggers triggers obj.tick.1) ++
        triggerCalls triggers fuel (st.visit obj)

/-- **What the loop over the objects is for.** It starts from `objects` and leaves `left`, and
`start` are the identities that were there when the tick was called: each of those is ticked once,
the objects its tick marks are removed and no others, and for each object that is left the single
triggers of its type are called once. -/
structure VisitsEach (start : List ℕ) (objects left : List WorldObject) : Prop where
  /-- Every object is ticked once. -/
  ticked_once {uid : ℕ} (h : uid ∈ start) :
    ((ticked objects.length ⟨objects, 0, [], []⟩).map (·.uid)).count uid = 1
  /-- Those that are not deleted are left. -/
  left_perm : (left.map (·.uid)).Perm
    ((objects.filter fun obj ↦ !obj.tick.1.shouldDelete).map (·.uid))
  /-- Each of those gets its triggers once. -/
  calls_perm (triggers : List WorldTrigger) :
    (triggerCalls triggers objects.length ⟨objects, 0, [], []⟩).Perm
      (left.flatMap (runTriggers triggers))

/-! ### The loop is a pass that removes while it walks -/

/-- `SwapPop.sweep`, with the tick of an object. -/
def passOver (fuel index : ℕ) (objects : List WorldObject) : List WorldObject × List WorldObject :=
  SwapPop.sweep (fun obj : WorldObject ↦ obj.tick.1) (·.shouldDelete) fuel index objects

theorem tickLoop_eq_sweep (fuel : ℕ) (st : TickState) :
    (tickLoop fuel st).objects = (passOver fuel st.index st.objects).1 ∧
      ticked fuel st = (passOver fuel st.index st.objects).2 := by
  induction fuel generalizing st with
  | zero => exact ⟨rfl, rfl⟩
  | succ fuel ih =>
    rw [tickLoop, ticked, passOver, SwapPop.sweep]
    cases hget : st.objects[st.index]? with
    | none => exact ⟨rfl, rfl⟩
    | some obj =>
      have hnext : (st.visit obj).objects = (if obj.tick.1.shouldDelete then
          SwapPop.swapPop (st.objects.set st.index obj.tick.1) st.index else
            st.objects.set st.index obj.tick.1) ∧ (st.visit obj).index = st.index + 1 := by
        by_cases hdelete : obj.tick.1.shouldDelete = true
        · simp [TickState.visit, hdelete]
        · simp [TickState.visit, hdelete]
      obtain ⟨hobjects, hticked⟩ := ih (st.visit obj)
      rw [hnext.1, hnext.2] at hobjects hticked
      exact ⟨hobjects, congrArg (obj :: ·) hticked⟩

/-- The triggers are called for the objects that are ticked and stay. -/
theorem triggerCalls_eq (triggers : List WorldTrigger) (fuel : ℕ) (st : TickState) :
    triggerCalls triggers fuel st =
      ((ticked fuel st).filter fun obj ↦ !obj.tick.1.shouldDelete).flatMap fun obj ↦
        runTriggers triggers obj.tick.1 := by
  induction fuel generalizing st with
  | zero => rfl
  | succ fuel ih =>
    rw [triggerCalls, ticked]
    cases st.objects[st.index]? with
    | none => rfl
    | some obj =>
      show _ ++ triggerCalls triggers fuel (st.visit obj) = _
      rw [ih (st.visit obj), List.filter_cons]
      cases obj.tick.1.shouldDelete with
      | true => rfl
      | false => rfl

/-- What is left and what was removed. -/
theorem perm_passOver (objects : List WorldObject) :
    (((passOver objects.length 0 objects).1 ++
      (passOver objects.length 0 objects).2.filter fun obj ↦ obj.tick.1.shouldDelete).map
        WorldObject.ident).Perm (objects.map WorldObject.ident) :=
  SwapPop.perm_sweep WorldObject.ident_tick objects.length [] objects

theorem length_snd_passOver_lt {objects : List WorldObject} {obj : WorldObject}
    (hobj : obj ∈ objects.dropLast) (h : obj.Expired) :
    (passOver objects.length 0 objects).2.length < objects.length :=
  (SwapPop.length_snd_sweep objects.length [] objects).2
    ⟨obj, hobj, obj.shouldDelete_tick_iff.2 h⟩

/-- A pass that removes at most the last object ticks all of them. -/
theorem passOver_of_alive {objects : List WorldObject}
    (h : ∀ obj ∈ objects.dropLast, ¬ obj.Expired) :
    passOver objects.length 0 objects = ((objects.filter fun obj ↦ !obj.tick.1.shouldDelete).map
      fun obj ↦ obj.tick.1, objects) := by
  have hall : passOver objects.length ([] : List WorldObject).length ([] ++ objects) = _ :=
    SwapPop.sweep_of_alive (Nat.le_refl _) fun obj hobj ↦
      obj.shouldDelete_tick_eq_false_iff.2 (h obj hobj)
  refine hall.trans ?_
  rw [List.nil_append, List.filter_map]
  rfl

/-- A pass over an expired object comes to one. -/
theorem exists_expired_passOver {objects : List WorldObject} {obj : WorldObject}
    (hobj : obj ∈ objects) (h : obj.Expired) :
    ∃ gone ∈ (passOver objects.length 0 objects).2, gone.tick.1.shouldDelete = true := by
  have hpass : ∃ gone ∈ (passOver objects.length ([] : List WorldObject).length
      ([] ++ objects)).2, gone.tick.1.shouldDelete = true :=
    SwapPop.exists_dead_sweep (Nat.le_refl _) ⟨obj, hobj, obj.shouldDelete_tick_iff.2 h⟩
  exact hpass

/-- A trigger for each type. -/
theorem length_runTriggers_both (obj : WorldObject) :
    (runTriggers [⟨.person, 0⟩, ⟨.movable, 0⟩] obj).length = 1 := by
  rw [runTriggers]
  cases obj.type with
  | person => rfl
  | movable => rfl

/-- **The loop does what it is for** exactly when no object is expired except, perhaps, the last. -/
theorem visitsEach_tickObjects_iff {start : List ℕ} {objects : List WorldObject}
    (hnodup : (objects.map (·.uid)).Nodup) (hstart : start ⊆ objects.map (·.uid)) :
    VisitsEach start objects (tickObjects objects).objects ↔
      ∀ obj ∈ objects.dropLast, ¬ obj.Expired := by
  obtain ⟨hleft, hticked⟩ : (tickObjects objects).objects = (passOver objects.length 0 objects).1 ∧
      ticked objects.length ⟨objects, 0, [], []⟩ = (passOver objects.length 0 objects).2 :=
    tickLoop_eq_sweep objects.length ⟨objects, 0, [], []⟩
  constructor
  · intro h obj hobj hexpired
    -- with a trigger for each type there are as many calls as objects left
    have hcalls := (h.calls_perm [⟨.person, 0⟩, ⟨.movable, 0⟩]).length_eq
    rw [triggerCalls_eq, List.length_flatMap, List.length_flatMap] at hcalls
    simp only [length_runTriggers_both, List.map_const', List.sum_replicate, smul_eq_mul,
      mul_one] at hcalls
    have hkept := (perm_passOver objects).length_eq
    rw [List.length_map, List.length_append, List.length_map] at hkept
    have hfewer := length_snd_passOver_lt hobj hexpired
    have hsplit := List.length_eq_length_filter_add (l := (passOver objects.length 0 objects).2)
      fun obj ↦ obj.tick.1.shouldDelete
    rw [hticked, hleft] at hcalls
    omega
  · intro h
    rw [passOver_of_alive h] at hleft hticked
    refine ⟨fun {uid} huid ↦ ?_, ?_, fun triggers ↦ ?_⟩
    · rw [hticked]
      exact List.count_eq_one_of_mem hnodup (hstart huid)
    · rw [hleft, List.map_map]
      exact List.Perm.of_eq (List.map_congr_left fun obj _ ↦ obj.uid_tick)
    · rw [triggerCalls_eq, hticked, hleft, List.flatMap_map]

/-! ### Ticks of the world -/

/-- What a tick with new percepts does to the objects. -/
theorem tick_of_newPercepts {w w₁ : World} {pending : List PerceptsMsg}
    (hpaused : w.isPaused = false)
    (hmsgs : pending.foldlM (processPercepts order) { w with latestEvents := [] } = some w₁)
    (hnew : w₁.newPercepts = true) :
    w.tick order pending = some { w₁ with
      objects := (tickObjects w₁.objects).objects
      latestEvents := (tickObjects w₁.objects).events
      newPercepts := false } := by
  rw [tick, if_neg (by simp [hpaused]), hmsgs, Option.map_some]
  simp only [hnew, if_true]

/-- **What a tick looks at.** A tick with new percepts visits each object, and each object that was
there before the messages in particular, exactly when no object is expired except, perhaps, the last
of the vector. `w₁` is the world when the loop starts, with the messages processed. -/
theorem visitsEach_tick_iff (order : SetOrder) (w w₁ : World) (pending : List PerceptsMsg)
    (hw : w.Distinct) (hpaused : w.isPaused = false)
    (hmsgs : pending.foldlM (processPercepts order) { w with latestEvents := [] } = some w₁)
    (hnew : w₁.newPercepts = true) :
    ∃ w', w.tick order pending = some w' ∧
      (VisitsEach (w.objects.map (·.uid)) w₁.objects w'.objects ↔
        ∀ obj ∈ w₁.objects.dropLast, ¬ obj.Expired) := by
  have hstart : ({ w with latestEvents := [] } : World).Distinct := hw.of_idents rfl rfl
  obtain ⟨hdistinct, hsublist⟩ := hstart.foldlM_processPercepts hmsgs
  refine ⟨_, tick_of_newPercepts hpaused hmsgs hnew,
    visitsEach_tickObjects_iff hdistinct.nodup ?_⟩
  rw [← map_fst_idents, ← map_fst_idents]
  exact (hsublist.map Prod.fst).subset

end World

namespace Cups

/-- A cup that is tracked and a hypothesis behind it whose time is up. -/
def lastExpired : World :=
  { World.new true with
    objects := [⟨0, .movable, .tracked, "cup-101", 101, 5, 2, 2, 10, 10, false, false⟩,
      ⟨1, .person, .hypothetical, "", 1, 0, 1, 2, 4, 4, false, false⟩]
    personObjects := [1]
    movableObjects := [0]
    nextUid := 2 }

/-- Marker 1 is seen once, and marker 2 when the time of marker 1 is almost up. -/
def passing : List Command :=
  List.replicate 21 calibration ++ frame [1] 0 :: List.replicate 8 (frame [] 0) ++ [frame [2] 0]

end Cups

theorem World.visitsEach_tick_lastExpired :
    ∃ w', Cups.lastExpired.tick SetOrder.insertion [] = some w' ∧
      VisitsEach [0, 1] Cups.lastExpired.objects w'.objects := by
  obtain ⟨w', htick, hiff⟩ := visitsEach_tick_iff SetOrder.insertion Cups.lastExpired
    { Cups.lastExpired with latestEvents := [] } [] ⟨by decide, by decide⟩ rfl rfl rfl
  exact ⟨w', htick, hiff.2 (by decide)⟩

/-- **A tick that passes over an object.** Marker 1 is removed, marker 2 takes its place, and the
loop goes on behind it. -/
theorem World.tick_passes_over :
    ∃ w log w₁ w', (World.new false).run SetOrder.insertion Cups.passing = some (w, log) ∧
      w.isPaused = false ∧ [⟨[], [], [], 0⟩].foldlM (processPercepts SetOrder.insertion)
        { w with latestEvents := [] } = some w₁ ∧ w₁.newPercepts = true ∧
      w.tick SetOrder.insertion [⟨[], [], [], 0⟩] = some w' ∧ (1 ∈ w.objects.map (·.uid)) ∧
      ¬ VisitsEach (w.objects.map (·.uid)) w₁.objects w'.objects := by
  have hrun : (((World.new false).run SetOrder.insertion Cups.passing).bind fun r ↦
      ([⟨[], [], [], 0⟩].foldlM (processPercepts SetOrder.insertion)
        { r.1 with latestEvents := [] }).map fun w₁ ↦
          (r.1.isPaused, r.1.objects.map (·.uid), w₁.newPercepts,
            (ticked w₁.objects.length ⟨w₁.objects, 0, [], []⟩).map (·.uid))) =
        some (false, [0, 1], true, [0]) := by decide +kernel
  obtain ⟨⟨w, log⟩, hw, hrest⟩ := Option.bind_eq_some_iff.1 hrun
  obtain ⟨w₁, hmsgs, hvalues⟩ := Option.map_eq_some_iff.1 hrest
  simp only [Prod.mk.injEq] at hvalues
  obtain ⟨hpaused, huids, hnew, hticked⟩ := hvalues
  refine ⟨w, log, w₁, _, hw, hpaused, hmsgs, hnew, tick_of_newPercepts hpaused hmsgs hnew, ?_, ?_⟩
  · rw [huids]
    exact List.mem_cons_of_mem _ List.mem_cons_self
  · intro h
    have honce := h.ticked_once (show 1 ∈ w.objects.map (·.uid) by rw [huids]; decide)
    rw [hticked] at honce
    exact absurd honce (by decide)

end WorldModel
