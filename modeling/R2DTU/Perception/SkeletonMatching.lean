import R2DTU.Library.GreedySelection
import R2DTU.Perception.PersonTracker
import Mathlib.Tactic.NormNum

/-!
# Matching skeletons to persons

The loop over the sorted scores is a greedy selection (`matched_matchLoop`). A score is marked
invalid when it conflicts with a pair that was matched before, and stopping at the first score below
the threshold is the same as leaving those scores out, because the others come before them.

**Ids** are numbers of 32 bits. They are handed out one after the other, and the persons are always
in the order in which they were created, so the persons have different ids until 2 ^ 32 of them have
been handed out (`nodup_of_issued`). The next id is the first one again, and the first person can
still be there (`exists_reachable_not_nodup`).
-/

namespace PersonTracker

open WorldModel (SetOrder)
open PersonTracker.Frame

universe u

variable {σ : Type u}

/-! ### The loop as a selection -/

/-- Two pairs with the same percept or the same person. -/
def Conflict (s later : MatchScore) : Prop := later.percept = s.percept ∨ later.object = s.object

instance : DecidableRel Conflict := fun s later ↦
  inferInstanceAs (Decidable (later.percept = s.percept ∨ later.object = s.object))

/-- A score, marked if it conflicts with a pair that is matched. -/
def flag (matched : List MatchScore) (s : MatchScore) : MatchScore :=
  { s with invalid := decide (∃ m ∈ matched, Conflict m s) }

theorem flag_nil {s : MatchScore} (hs : s.invalid = false) : flag [] s = s := by
  obtain ⟨score, object, percept, invalid⟩ := s
  obtain rfl : invalid = false := hs
  simp [flag]

theorem invalidate_flag (matched : List MatchScore) (s : MatchScore) (later : List MatchScore) :
    invalidate s (later.map (flag matched)) = later.map (flag (matched ++ [s])) := by
  rw [invalidate, List.map_map]
  refine List.map_congr_left fun s' _ ↦ ?_
  have hexists : (∃ m ∈ matched ++ [s], Conflict m s') ↔
      (∃ m ∈ matched, Conflict m s') ∨ Conflict s s' := by
    constructor
    · rintro ⟨m, hm, hconflict⟩
      rcases List.mem_append.1 hm with hm | hm
      · exact Or.inl ⟨m, hm, hconflict⟩
      · exact Or.inr (List.mem_singleton.1 hm ▸ hconflict)
    · rintro (⟨m, hm, hconflict⟩ | hconflict)
      · exact ⟨m, List.mem_append_left _ hm, hconflict⟩
      · exact ⟨s, List.mem_append_right _ (List.mem_singleton_self s), hconflict⟩
  show (if Conflict s s' then _ else flag matched s') = _
  split_ifs with h
  · simp only [flag, hexists, h, or_true, decide_true]
  · simp only [flag, hexists, h, or_false]

/-- **The loop selects.** -/
theorem matched_matchLoop (frame : Frame σ) {scores : List MatchScore}
    (hsorted : scores.Pairwise fun a b ↦ b.score ≤ a.score)
    (hvalid : ∀ s ∈ scores, s.invalid = false) (m : Matching σ) :
    (frame.matchLoop (scores.map (flag m.matched)) m).matched =
      Greedy.select Conflict m.matched
        (scores.filter fun s ↦ skeletonMatchThreshold ≤ s.score) := by
  induction scores generalizing m with
  | nil =>
    rw [List.map_nil, matchLoop]
    rfl
  | cons s scores ih =>
    obtain ⟨hle, hsorted⟩ := List.pairwise_cons.1 hsorted
    obtain ⟨hs, hvalid⟩ := List.forall_mem_cons.1 hvalid
    rw [List.map_cons, matchLoop]
    by_cases hconflict : ∃ m' ∈ m.matched, Conflict m' s
    · rw [if_pos (show (flag m.matched s).invalid = true from decide_eq_true hconflict),
        ih hsorted hvalid, List.filter_cons]
      split_ifs
      · rw [Greedy.select, if_pos hconflict]
      · rfl
    · have hflag : flag m.matched s = s := by
        rw [flag, decide_eq_false hconflict, ← hs]
      rw [hflag, hs, if_neg Bool.false_ne_true]
      by_cases hlt : s.score < skeletonMatchThreshold
      · -- everything behind a score below the threshold is below it
        rw [if_pos hlt, List.filter_eq_nil_iff.2]
        · rfl
        · intro s' hs'
          rw [decide_eq_true_iff, not_le]
          rcases List.mem_cons.1 hs' with rfl | hs'
          · exact hlt
          · exact (hle s' hs').trans_lt hlt
      · rw [if_neg hlt, invalidate_flag, List.filter_cons,
          if_pos (decide_eq_true (not_lt.1 hlt)), Greedy.select, if_neg hconflict]
        exact ih hsorted hvalid (frame.matchPair s m)

/-- **What every match keeps**, the loop keeps. -/
theorem matchLoop_induction {frame : Frame σ} {P : Matching σ → Prop}
    (hstep : ∀ s m, P m → P (frame.matchPair s m)) {scores : List MatchScore} {m : Matching σ}
    (hm : P m) : P (frame.matchLoop scores m) := by
  induction scores, m using matchLoop.induct frame with
  | case1 m => rwa [matchLoop]
  | case2 s later m h ih =>
    rw [matchLoop, if_pos h]
    exact ih hm
  | case3 s later m h hlt => rwa [matchLoop, if_neg h, if_pos hlt]
  | case4 s later m h hlt ih =>
    rw [matchLoop, if_neg h, if_neg hlt]
    exact ih (hstep s m hm)

/-! ### The pairs that are matched -/

theorem skeletonMatchThreshold_pos : 0 < skeletonMatchThreshold := by
  rw [skeletonMatchThreshold]
  norm_num

theorem mem_scores {frame : Frame σ} {numPersons : ℕ} {s : MatchScore} :
    s ∈ frame.scores numPersons ↔ s.object < numPersons ∧ s.percept < frame.percepts.length ∧
      0 < frame.score s.object s.percept ∧
        s = ⟨frame.score s.object s.percept, s.object, s.percept, false⟩ := by
  rw [scores, List.mem_flatMap]
  constructor
  · rintro ⟨j, hj, hs⟩
    obtain ⟨i, hi, hs⟩ := List.mem_filterMap.1 hs
    split_ifs at hs with hpos
    obtain rfl := Option.some.inj hs
    exact ⟨List.mem_range.1 hi, List.mem_range.1 hj, hpos, rfl⟩
  · rintro ⟨hi, hj, hpos, hs⟩
    refine ⟨s.percept, List.mem_range.2 hj, List.mem_filterMap.2
      ⟨s.object, List.mem_range.2 hi, ?_⟩⟩
    rw [if_pos hpos, ← hs]

/-- **A greedy matching** of a frame to some number of persons. -/
structure IsGreedyMatching (frame : Frame σ) (numPersons : ℕ) (matched : List MatchScore) :
    Prop where
  /-- A person gets one percept at most. -/
  object_nodup : (matched.map MatchScore.object).Nodup
  /-- A percept goes to one person at most. -/
  percept_nodup : (matched.map MatchScore.percept).Nodup
  /-- What is matched is there, and fits well enough. -/
  mem : ∀ m ∈ matched, m.object < numPersons ∧ m.percept < frame.percepts.length ∧
    m.score = frame.score m.object m.percept ∧ skeletonMatchThreshold ≤ m.score
  /-- What fits well enough is matched, or gives way to a score that is no worse. -/
  stable : ∀ i < numPersons, ∀ j < frame.percepts.length,
    skeletonMatchThreshold ≤ frame.score i j →
      (∃ m ∈ matched, m.object = i ∧ m.percept = j) ∨
        ∃ m ∈ matched, (m.object = i ∨ m.percept = j) ∧ frame.score i j ≤ m.score

/-- The sorted scores that reach the threshold. -/
def candidates (frame : Frame σ) (sort : ScoreSort) (numPersons : ℕ) : List MatchScore :=
  (sort.scores (frame.scores numPersons)).filter fun s ↦ skeletonMatchThreshold ≤ s.score

theorem mem_candidates {frame : Frame σ} {sort : ScoreSort} {numPersons : ℕ} {s : MatchScore} :
    s ∈ candidates frame sort numPersons ↔ s.object < numPersons ∧
      s.percept < frame.percepts.length ∧
        skeletonMatchThreshold ≤ frame.score s.object s.percept ∧
          s = ⟨frame.score s.object s.percept, s.object, s.percept, false⟩ := by
  rw [candidates, List.mem_filter, (sort.scores_perm _).mem_iff, decide_eq_true_iff, mem_scores]
  constructor
  · rintro ⟨⟨hobject, hpercept, -, hs⟩, hle⟩
    exact ⟨hobject, hpercept, hle.trans_eq (congrArg MatchScore.score hs), hs⟩
  · rintro ⟨hobject, hpercept, hle, hs⟩
    exact ⟨⟨hobject, hpercept, skeletonMatchThreshold_pos.trans_le hle, hs⟩,
      hle.trans_eq (congrArg MatchScore.score hs).symm⟩

variable (frame : Frame σ) (sort : ScoreSort) (persons : List (Person σ))

/-- **The matching of a frame** is a selection from the candidates. -/
theorem matched_matching : (frame.matching sort persons).matched =
    Greedy.select Conflict [] (candidates frame sort persons.length) := by
  have hvalid : ∀ s ∈ sort.scores (frame.scores persons.length), s.invalid = false := by
    intro s hs
    obtain ⟨-, -, -, hs⟩ := mem_scores.1 ((sort.scores_perm _).subset hs)
    rw [hs]
  have hmap : (sort.scores (frame.scores persons.length)).map (flag []) =
      sort.scores (frame.scores persons.length) :=
    (List.map_congr_left fun s hs ↦ flag_nil (hvalid s hs)).trans (List.map_id' _)
  have hloop := matched_matchLoop frame (sort.pairwise_scores (frame.scores persons.length)) hvalid
    ⟨persons, List.range frame.percepts.length, []⟩
  rwa [hmap] at hloop

theorem isGreedyMatching :
    IsGreedyMatching frame persons.length (frame.matching sort persons).matched := by
  have hconflict : (Greedy.select Conflict [] (candidates frame sort persons.length)).Pairwise
      fun m m' ↦ ¬ Conflict m m' := Greedy.pairwise_select List.Pairwise.nil
  have hbefore : (candidates frame sort persons.length).Pairwise fun a b ↦ b.score ≤ a.score :=
    (sort.pairwise_scores _).sublist List.filter_sublist
  rw [matched_matching]
  refine ⟨?_, ?_, fun m hm ↦ ?_, fun i hi j hj hij ↦ ?_⟩
  · rw [List.Nodup, List.pairwise_map]
    exact hconflict.imp fun hne heq ↦ hne (Or.inr heq.symm)
  · rw [List.Nodup, List.pairwise_map]
    exact hconflict.imp fun hne heq ↦ hne (Or.inl heq.symm)
  · rcases Greedy.mem_of_mem_select hm with hm | hm
    · exact absurd hm List.not_mem_nil
    · obtain ⟨hobject, hpercept, hle, hs⟩ := mem_candidates.1 hm
      have hscore := congrArg MatchScore.score hs
      exact ⟨hobject, hpercept, hscore, hle.trans_eq hscore.symm⟩
  · have hs : ⟨frame.score i j, i, j, false⟩ ∈ candidates frame sort persons.length :=
      mem_candidates.2 ⟨hi, hj, hij, rfl⟩
    rcases @Greedy.mem_select_or_exists _ Conflict _ [] _ _ hbefore _ hs with
      hin | ⟨m, hm, hshare, hle⟩
    · exact Or.inl ⟨_, hin, rfl, rfl⟩
    · exact Or.inr ⟨m, hm, hshare.symm.imp Eq.symm Eq.symm, hle⟩

/-! ### The persons after the loop -/

section Persons

variable {frame sort persons}

/-- A person that is matched with the percept at an index. -/
def sightPercept (frame : Frame σ) (j : ℕ) (p : Person σ) : Person σ :=
  match frame.percepts[j]? with
  | some skeleton => p.sight frame.identify skeleton
  | none => p

theorem persons_matchPair (s : MatchScore) (m : Matching σ) :
    (frame.matchPair s m).persons = m.persons.modify s.object (sightPercept frame s.percept) := by
  have hmatch : (frame.matchPair s m).persons = match frame.percepts[s.percept]? with
      | some skeleton => m.persons.modify s.object fun p ↦ p.sight frame.identify skeleton
      | none => m.persons := rfl
  rw [hmatch]
  rcases h : frame.percepts[s.percept]? with - | skeleton
  · have hid : sightPercept frame s.percept = id := funext fun p ↦ by rw [sightPercept, h]; rfl
    rw [hid, List.modify_id]
  · have hsight : sightPercept frame s.percept = fun p ↦ p.sight frame.identify skeleton :=
      funext fun p ↦ by rw [sightPercept, h]
    rw [hsight]

/-- The matched pairs of a person, one after the other. -/
theorem getElem?_persons_matching (i : ℕ) :
    (frame.matching sort persons).persons[i]? = persons[i]?.map fun p ↦
      ((frame.matching sort persons).matched.filter fun m ↦ m.object = i).foldl
        (fun p m ↦ sightPercept frame m.percept p) p := by
  refine @matchLoop_induction _ frame (fun m ↦ m.persons[i]? = persons[i]?.map fun p ↦
    (m.matched.filter fun m ↦ m.object = i).foldl (fun p m ↦ sightPercept frame m.percept p) p)
    (fun s m hm ↦ ?_) _ _ ?_
  · have hmatched : (frame.matchPair s m).matched = m.matched ++ [s] := rfl
    rw [persons_matchPair, List.getElem?_modify, hm, hmatched, List.filter_append]
    rcases persons[i]? with - | p
    · rfl
    · by_cases hi : s.object = i
      · simp [hi]
      · simp [hi]
  · show persons[i]? = persons[i]?.map fun p ↦ p
    rw [Option.map_id']

/-- A person is in one matched pair. -/
theorem filter_object_eq_singleton {matched : List MatchScore}
    (h : (matched.map MatchScore.object).Nodup) {m : MatchScore} (hm : m ∈ matched) :
    matched.filter (fun m' ↦ m'.object = m.object) = [m] := by
  induction matched with
  | nil => exact absurd hm List.not_mem_nil
  | cons m' matched ih =>
    obtain ⟨hout, h⟩ := List.nodup_cons.1 h
    rcases List.mem_cons.1 hm with rfl | hm
    · have hrest : matched.filter (fun m' ↦ m'.object = m.object) = [] :=
        List.filter_eq_nil_iff.2 fun m' hm' heq ↦
          hout (List.mem_map.2 ⟨m', hm', of_decide_eq_true heq⟩)
      rw [List.filter_cons, if_pos (decide_eq_true rfl), hrest]
    · have hne : m'.object ≠ m.object := fun heq ↦ hout (List.mem_map.2 ⟨m, hm, heq.symm⟩)
      rw [List.filter_cons_of_neg (by simpa using hne), ih h hm]

/-- **A matched person** is updated by its percept. -/
theorem getElem?_persons_of_mem {m : MatchScore} {p : Person σ} {skeleton : σ}
    (hm : m ∈ (frame.matching sort persons).matched) (hp : persons[m.object]? = some p)
    (hskeleton : frame.percepts[m.percept]? = some skeleton) :
    (frame.matching sort persons).persons[m.object]? =
      some (p.sight frame.identify skeleton) := by
  rw [getElem?_persons_matching, hp,
    filter_object_eq_singleton (isGreedyMatching frame sort persons).object_nodup hm]
  show some (sightPercept frame m.percept p) = _
  rw [sightPercept, hskeleton]

/-- **Other persons** stay. -/
theorem getElem?_persons_of_forall_ne {i : ℕ}
    (hi : ∀ m ∈ (frame.matching sort persons).matched, m.object ≠ i) :
    (frame.matching sort persons).persons[i]? = persons[i]? := by
  have hfilter : (frame.matching sort persons).matched.filter (fun m ↦ m.object = i) = [] :=
    List.filter_eq_nil_iff.2 fun m hm ↦ by simpa using hi m hm
  rw [getElem?_persons_matching, hfilter]
  exact Option.map_id'

theorem length_persons_matching :
    (frame.matching sort persons).persons.length = persons.length := by
  refine @matchLoop_induction _ frame (fun m ↦ m.persons.length = persons.length)
    (fun s m hm ↦ ?_) _ _ rfl
  rw [persons_matchPair, List.length_modify, hm]

/-- **The percepts left** are those that are not matched. -/
theorem unusedPercepts_matching : (frame.matching sort persons).unusedPercepts =
    (List.range frame.percepts.length).filter fun j ↦
      ∀ m ∈ (frame.matching sort persons).matched, m.percept ≠ j := by
  refine @matchLoop_induction _ frame (fun m ↦ m.unusedPercepts =
    (List.range frame.percepts.length).filter fun j ↦ ∀ m' ∈ m.matched, m'.percept ≠ j)
    (fun s m hm ↦ ?_) _ _ ?_
  · have hunused : (frame.matchPair s m).unusedPercepts = m.unusedPercepts.erase s.percept := rfl
    have hmatched : (frame.matchPair s m).matched = m.matched ++ [s] := rfl
    have hnodup : m.unusedPercepts.Nodup := hm ▸ List.nodup_range.filter _
    rw [hunused, hnodup.erase_eq_filter, hm, List.filter_filter, hmatched]
    refine List.filter_congr fun j _ ↦ ?_
    rw [Bool.eq_iff_iff]
    simp only [bne_iff_ne, ne_eq, Bool.and_eq_true, decide_eq_true_iff, List.forall_mem_append,
      List.forall_mem_singleton]
    exact ⟨fun h ↦ ⟨h.2, Ne.symm h.1⟩, fun h ↦ ⟨Ne.symm h.2, h.1⟩⟩
  · exact (List.filter_eq_self.2 fun j _ ↦ by simp).symm

end Persons

/-! ### Updates -/

section Update

variable {frame persons}

/-- **What an update does**, for the pairs that are matched and the percepts that are left: the
matched persons are updated by their percepts, the others stay, and the percepts left become
hypotheses with the next ids. -/
structure IsUpdate (frame : Frame σ) (matched : List MatchScore) (unmatched : List ℕ)
    (st st' : TrackerState σ) : Prop where
  /-- The pairs are a greedy matching. -/
  matching : IsGreedyMatching frame st.persons.length matched
  unmatched_nodup : unmatched.Nodup
  /-- The percepts that are left are those without a person. -/
  mem_unmatched (j : ℕ) : j ∈ unmatched ↔
    j < frame.percepts.length ∧ ∀ m ∈ matched, m.percept ≠ j
  /-- A matched person is seen. -/
  matched_person : ∀ m ∈ matched, ∀ p skeleton, st.persons[m.object]? = some p →
    frame.percepts[m.percept]? = some skeleton →
      st'.persons[m.object]? = some (p.sight frame.identify skeleton)
  /-- Another one stays as it is. -/
  other_person : ∀ i p, st.persons[i]? = some p → (∀ m ∈ matched, m.object ≠ i) →
    st'.persons[i]? = some p
  /-- Each percept that is left becomes a hypothesis. -/
  hypotheses : List.Forall₂ (fun j p ↦ ∃ skeleton, frame.percepts[j]? = some skeleton ∧
    p = Person.new p.id skeleton) unmatched (st'.persons.drop st.persons.length)
  /-- They get the next ids. -/
  ids : (st'.persons.drop st.persons.length).map Person.id =
    (List.range unmatched.length).map fun k ↦ st.nextId + UInt32.ofNat k

/-- **The loop over the percepts left.** -/
theorem foldl_addHypothesis {unmatched : List ℕ} (h : ∀ j ∈ unmatched, j < frame.percepts.length)
    (st : TrackerState σ) :
    ∃ created, (unmatched.foldl (TrackerState.addHypothesis frame) st).persons =
        st.persons ++ created ∧
      List.Forall₂ (fun j p ↦ ∃ skeleton, frame.percepts[j]? = some skeleton ∧
        p = Person.new p.id skeleton) unmatched created ∧
      created.map Person.id =
        (List.range unmatched.length).map (fun k ↦ st.nextId + UInt32.ofNat k) ∧
      (unmatched.foldl (TrackerState.addHypothesis frame) st).nextId =
        st.nextId + UInt32.ofNat unmatched.length := by
  induction unmatched generalizing st with
  | nil => exact ⟨[], (List.append_nil _).symm, List.Forall₂.nil, rfl, (UInt32.add_zero _).symm⟩
  | cons j unmatched ih =>
    obtain ⟨hj, h⟩ := List.forall_mem_cons.1 h
    have hskeleton := List.getElem?_eq_getElem hj
    have hadd : st.addHypothesis frame j =
        { st with
          persons := st.persons ++ [Person.new st.nextId frame.percepts[j]]
          nextId := st.nextId + 1 } := by
      rw [TrackerState.addHypothesis, hskeleton]
    obtain ⟨created, hpersons, hhypotheses, hids, hnext⟩ := ih h (st.addHypothesis frame j)
    have hsucc : ∀ k, st.nextId + 1 + UInt32.ofNat k = st.nextId + UInt32.ofNat (k + 1) := by
      intro k
      rw [UInt32.add_assoc, UInt32.ofNat_add, UInt32.add_comm 1]
      rfl
    refine ⟨Person.new st.nextId frame.percepts[j] :: created, ?_, ?_, ?_, ?_⟩
    · rw [List.foldl_cons, hpersons, hadd, List.append_assoc, List.singleton_append]
    · exact List.Forall₂.cons ⟨_, hskeleton, rfl⟩ hhypotheses
    · rw [List.map_cons, hids, hadd, List.length_cons, List.range_succ_eq_map, List.map_cons,
        List.map_map]
      congr 1
      · exact (UInt32.add_zero _).symm
      · exact List.map_congr_left fun k _ ↦ hsucc k
    · rw [List.foldl_cons, hnext, hadd, List.length_cons]
      exact hsucc _

variable {sort : ScoreSort} {order : SetOrder} {st : TrackerState σ}

theorem mem_indices_iff {j : ℕ} :
    j ∈ order.indices (frame.matching sort persons).unusedPercepts ↔
      j < frame.percepts.length ∧ ∀ m ∈ (frame.matching sort persons).matched, m.percept ≠ j := by
  rw [(order.indices_perm _).mem_iff, unusedPercepts_matching, List.mem_filter, List.mem_range,
    decide_eq_true_iff]

variable (frame sort order st) in
/-- **The hypotheses of an update** come behind the persons that the loop leaves. -/
theorem exists_hypotheses : ∃ created,
    (st.update sort order frame).persons =
        (frame.matching sort st.persons).persons ++ created ∧
      List.Forall₂ (fun j p ↦ ∃ skeleton, frame.percepts[j]? = some skeleton ∧
        p = Person.new p.id skeleton)
          (order.indices (frame.matching sort st.persons).unusedPercepts) created ∧
      created.map Person.id =
        (List.range (frame.matching sort st.persons).unusedPercepts.length).map
          (fun k ↦ st.nextId + UInt32.ofNat k) ∧
      (st.update sort order frame).nextId =
        st.nextId + UInt32.ofNat (frame.matching sort st.persons).unusedPercepts.length := by
  obtain ⟨created, hpersons, hhypotheses, hids, hnext⟩ := @foldl_addHypothesis _ frame
    (order.indices (frame.matching sort st.persons).unusedPercepts)
      (fun j hj ↦ (mem_indices_iff.1 hj).1)
        { st with persons := (frame.matching sort st.persons).persons }
  rw [(order.indices_perm _).length_eq] at hids hnext
  exact ⟨created, hpersons, hhypotheses, hids, hnext⟩

/-- **One update.** -/
theorem isUpdate_update : IsUpdate frame (frame.matching sort st.persons).matched
    (order.indices (frame.matching sort st.persons).unusedPercepts) st
      (st.update sort order frame) := by
  set m := frame.matching sort st.persons
  have hlength : m.persons.length = st.persons.length := length_persons_matching
  obtain ⟨created, hupdate, hhypotheses, hids, -⟩ := exists_hypotheses frame sort order st
  have hold : ∀ (i : ℕ) p, m.persons[i]? = some p →
      (st.update sort order frame).persons[i]? = some p := by
    intro i p hp
    rw [hupdate, List.getElem?_append_left (List.getElem?_eq_some_iff.1 hp).1, hp]
  have hdrop : (st.update sort order frame).persons.drop st.persons.length = created := by
    rw [hupdate, ← hlength, List.drop_left]
  refine ⟨isGreedyMatching frame sort st.persons, ?_, fun j ↦ mem_indices_iff,
    fun s hs p skeleton hp hskeleton ↦ hold _ _ (getElem?_persons_of_mem hs hp hskeleton),
    fun i p hp hi ↦ hold _ _ ((getElem?_persons_of_forall_ne hi).trans hp), ?_, ?_⟩
  · rw [(order.indices_perm _).nodup_iff, unusedPercepts_matching]
    exact List.nodup_range.filter _
  · rwa [hdrop]
  · rwa [hdrop, (order.indices_perm _).length_eq]

end Update

/-! ### Ids -/

/-- **The ids of the persons**, when `n` have been handed out: they are in the order in which they
were handed out, and none of them twice. -/
def Issued (n : ℕ) (ids : List UInt32) : Prop :=
  ∃ births : List ℕ, births.Pairwise (· < ·) ∧ (∀ b ∈ births, 1 ≤ b ∧ b ≤ n) ∧
    ids = births.map UInt32.ofNat

section Ids

variable {n k : ℕ} {ids ids' : List UInt32}

theorem Issued.sublist (h : Issued n ids) (hsub : ids'.Sublist ids) : Issued n ids' := by
  obtain ⟨births, hlt, hbound, rfl⟩ := h
  obtain ⟨births', hbirths, rfl⟩ := List.sublist_map_iff.1 hsub
  exact ⟨births', hlt.sublist hbirths, fun b hb ↦ hbound b (hbirths.subset hb), rfl⟩

/-- Ids that are handed out next. -/
theorem Issued.append (h : Issued n ids) (k : ℕ) : Issued (n + k)
    (ids ++ (List.range k).map fun i ↦ UInt32.ofNat (n + 1) + UInt32.ofNat i) := by
  obtain ⟨births, hlt, hbound, rfl⟩ := h
  refine ⟨births ++ (List.range k).map fun i ↦ n + 1 + i, ?_, fun b hb ↦ ?_, ?_⟩
  · refine List.pairwise_append.2 ⟨hlt, ?_, fun b hb b' hb' ↦ ?_⟩
    · rw [List.pairwise_map]
      exact List.pairwise_lt_range.imp fun hij ↦ Nat.add_lt_add_left hij _
    · obtain ⟨i, -, rfl⟩ := List.mem_map.1 hb'
      have hb := (hbound b hb).2
      omega
  · rcases List.mem_append.1 hb with hb | hb
    · have hb := hbound b hb
      omega
    · obtain ⟨i, hi, rfl⟩ := List.mem_map.1 hb
      have hi := List.mem_range.1 hi
      omega
  · rw [List.map_append, List.map_map]
    congr 1
    exact List.map_congr_left fun i _ ↦ (UInt32.ofNat_add _ _).symm

/-- **Different ids**, until all numbers of 32 bits have been handed out. -/
theorem Issued.nodup (h : Issued n ids) (hn : n ≤ 2 ^ 32) : ids.Nodup := by
  obtain ⟨births, hlt, hbound, rfl⟩ := h
  rw [List.Nodup, List.pairwise_map]
  refine hlt.imp_of_mem fun {b b'} hb hb' hlt heq ↦ ?_
  have hb := hbound b hb
  have hb' := hbound b' hb'
  have hmod : b % 2 ^ 32 = b' % 2 ^ 32 := by
    have htoNat := congrArg UInt32.toNat heq
    rwa [UInt32.toNat_ofNat', UInt32.toNat_ofNat'] at htoNat
  omega

end Ids

/-- The ids of a state, and the next one. -/
structure HandedOut (n : ℕ) (st : TrackerState σ) : Prop where
  issued : Issued n (st.persons.map Person.id)
  nextId : st.nextId = UInt32.ofNat (n + 1)

section HandedOut

variable {frame persons} {n : ℕ} {sort : ScoreSort} {order : SetOrder} {st : TrackerState σ}

theorem id_sight (identify : Person σ → String) (p : Person σ) (skeleton : σ) :
    (p.sight identify skeleton).id = p.id := by
  have hupdate : (p.updatePerson skeleton).id = p.id := by
    rw [Person.updatePerson]
    split_ifs <;> rfl
  have hscan : ∀ q : Person σ, (q.faceScanPerson identify).id = q.id := by
    intro q
    rw [Person.faceScanPerson]
    split_ifs <;> rfl
  simp only [Person.sight]
  split_ifs
  · rw [hscan, hupdate]
  · exact hupdate

theorem map_id_modify {f : Person σ → Person σ} (hf : ∀ p, (f p).id = p.id)
    (persons : List (Person σ)) (i : ℕ) :
    (persons.modify i f).map Person.id = persons.map Person.id := by
  refine List.ext_getElem? fun k ↦ ?_
  rw [List.getElem?_map, List.getElem?_map, List.getElem?_modify]
  rcases persons[k]? with - | p
  · rfl
  · by_cases hi : i = k
    · simp [hi, hf]
    · simp [hi]

theorem map_id_persons_matching : (frame.matching sort persons).persons.map Person.id =
    persons.map Person.id := by
  refine @matchLoop_induction _ frame (fun m ↦ m.persons.map Person.id = persons.map Person.id)
    (fun s m hm ↦ ?_) _ _ rfl
  rw [persons_matchPair, map_id_modify fun p ↦ ?_, hm]
  rw [sightPercept]
  split
  · exact id_sight _ _ _
  · rfl

/-- **An update hands out ids.** -/
theorem HandedOut.update (h : HandedOut n st) :
    HandedOut (n + (frame.matching sort st.persons).unusedPercepts.length)
      (st.update sort order frame) := by
  obtain ⟨created, hpersons, -, hids, hnext⟩ := exists_hypotheses frame sort order st
  constructor
  · have hmatching : (frame.matching sort st.persons).persons.map Person.id =
        st.persons.map Person.id := map_id_persons_matching
    rw [hpersons, List.map_append, hmatching, hids, h.nextId]
    exact h.issued.append _
  · rw [hnext, h.nextId, ← UInt32.ofNat_add, Nat.add_right_comm]

/-- One round of `tick`, as far as the persons are concerned. -/
theorem fst_tickLoop_cons (p : Person σ) (persons : List (Person σ)) (names : List String)
    (percepts : List (PersonPercept σ)) :
    ∃ names' percepts', (TrackerState.tickLoop (p :: persons) names percepts).1 =
      if p.promote.countDown.isErased then (TrackerState.tickLoop persons names' percepts').1
      else p.promote.countDown :: (TrackerState.tickLoop persons names' percepts').1 :=
  ⟨_, _, rfl⟩

theorem id_countDown_promote (p : Person σ) : p.promote.countDown.id = p.id := by
  show p.promote.id = p.id
  rw [Person.promote]
  split_ifs <;> rfl

theorem map_id_tickLoop (persons : List (Person σ)) (names : List String)
    (percepts : List (PersonPercept σ)) :
    ((TrackerState.tickLoop persons names percepts).1.map Person.id).Sublist
      (persons.map Person.id) := by
  induction persons generalizing names percepts with
  | nil => exact List.Sublist.refl _
  | cons p persons ih =>
    obtain ⟨names', percepts', htick⟩ := fst_tickLoop_cons p persons names percepts
    rw [htick]
    split_ifs
    · exact (ih names' percepts').cons p.id
    · rw [List.map_cons, List.map_cons, id_countDown_promote]
      exact (ih names' percepts').cons_cons p.id

/-- **One command.** -/
theorem HandedOut.next (h : HandedOut n st) (command : Command σ) :
    HandedOut (n + command.created st) (command.next st) := by
  rcases command with ⟨sort, order, frame⟩ | id | - | name
  · have hupdate : HandedOut _ (st.update sort order frame) := h.update
    exact ⟨hupdate.issued.sublist (map_id_tickLoop _ _ _), hupdate.nextId⟩
  · exact ⟨h.issued, h.nextId⟩
  · refine ⟨?_, h.nextId⟩
    have hids : (st.learn.persons).map Person.id = st.persons.map Person.id := by
      rw [TrackerState.learn]
      split
      · exact @map_id_modify _ (fun p ↦ { p with shouldDelete := true }) (fun _ ↦ rfl) _ _
      · rfl
    exact (hids.symm ▸ h.issued : Issued n (st.learn.persons.map Person.id))
  · exact ⟨h.issued.sublist (List.filter_sublist.map Person.id), h.nextId⟩

/-- **All runs.** -/
theorem handedOut_of_reachable {s : ℕ × TrackerState σ} (h : (tracker σ).Reachable s) :
    HandedOut s.1 s.2 := by
  refine @TransitionSystem.invariant _ (tracker σ) (fun s ↦ HandedOut s.1 s.2)
    (fun {s} hs ↦ ?_) (fun {s t} hs hst ↦ ?_) s h
  · obtain rfl : s = (0, TrackerState.initial) := hs
    exact ⟨⟨[], List.Pairwise.nil, fun b hb ↦ absurd hb List.not_mem_nil, rfl⟩, rfl⟩
  · obtain ⟨command, rfl⟩ := hst
    exact hs.next command

/-- **Updates.** An update matches greedily and makes hypotheses of the percepts left. In a run that
has handed out at most 2 ^ 32 ids, this update included, all persons have different ids after it. -/
theorem update_greedy (sort : ScoreSort) (order : SetOrder) (frame : Frame σ)
    (st : TrackerState σ) :
    IsUpdate frame (frame.matching sort st.persons).matched
        (order.indices (frame.matching sort st.persons).unusedPercepts) st
        (st.update sort order frame) ∧
      ∀ n, (tracker σ).Reachable (n, st) →
        n + (frame.matching sort st.persons).unusedPercepts.length ≤ 2 ^ 32 →
          ((st.update sort order frame).persons.map Person.id).Nodup :=
  ⟨isUpdate_update, fun _ hst hn ↦ (handedOut_of_reachable hst).update.issued.nodup hn⟩

/-- The first frame of a run, with one skeleton. -/
def firstFrame : Frame Unit := ⟨[()], fun _ _ ↦ 0, fun _ ↦ ""⟩

theorem update_greedy_firstFrame :
    ((TrackerState.initial.update ScoreSort.merge SetOrder.insertion firstFrame).persons.map
      Person.id).Nodup := by
  have hunused : (firstFrame.matching ScoreSort.merge
      (TrackerState.initial : TrackerState Unit).persons).unusedPercepts.length ≤ 1 := by
    rw [unusedPercepts_matching]
    exact List.length_filter_le _ _
  exact (update_greedy ScoreSort.merge SetOrder.insertion firstFrame TrackerState.initial).2 0
    (TransitionSystem.Reachable.init rfl) (by omega)

end HandedOut

/-! ### The ids run out -/

section RunOut

/-- A frame in which the first person is seen, and somebody else. -/
def nextFrame : Frame Unit := ⟨[(), ()], fun i j ↦ if i = 0 ∧ j = 0 then 1 else 0, fun _ ↦ ""⟩

theorem score_nextFrame {i j : ℕ} :
    skeletonMatchThreshold ≤ nextFrame.score i j ↔ i = 0 ∧ j = 0 := by
  show skeletonMatchThreshold ≤ (if i = 0 ∧ j = 0 then 1 else 0) ↔ _
  split_ifs with h
  · refine iff_of_true ?_ h
    rw [skeletonMatchThreshold]
    norm_num
  · exact iff_of_false skeletonMatchThreshold_pos.not_ge h

/-- The first person is matched with the first percept, and the second percept is left. -/
theorem matching_nextFrame {sort : ScoreSort} {persons : List (Person Unit)} (h : persons ≠ []) :
    (∃ m ∈ (nextFrame.matching sort persons).matched, m.object = 0 ∧ m.percept = 0) ∧
      (nextFrame.matching sort persons).unusedPercepts = [1] := by
  have hgreedy := isGreedyMatching nextFrame sort persons
  have hall : ∀ m ∈ (nextFrame.matching sort persons).matched, m.object = 0 ∧ m.percept = 0 := by
    intro m hm
    obtain ⟨-, -, hscore, hle⟩ := hgreedy.mem m hm
    exact score_nextFrame.1 (hscore ▸ hle)
  have hex : ∃ m ∈ (nextFrame.matching sort persons).matched, m.object = 0 ∧ m.percept = 0 := by
    rcases hgreedy.stable 0 (List.length_pos_iff.2 h) 0 (by decide)
      (score_nextFrame.2 ⟨rfl, rfl⟩) with hm | ⟨m, hm, -⟩
    · exact hm
    · exact ⟨m, hm, hall m hm⟩
  refine ⟨hex, ?_⟩
  obtain ⟨m, hm, -, hpercept⟩ := hex
  have hzero : ¬ ∀ m ∈ (nextFrame.matching sort persons).matched, m.percept ≠ 0 :=
    fun hne ↦ hne m hm hpercept
  have hone : ∀ m ∈ (nextFrame.matching sort persons).matched, m.percept ≠ 1 := by
    intro m hm
    rw [(hall m hm).2]
    decide
  rw [unusedPercepts_matching, show List.range nextFrame.percepts.length = [0, 1] from rfl,
    List.filter_cons_of_neg (by simpa using hzero), List.filter_cons_of_pos (by simpa using hone)]
  rfl

theorem promote_confirmed {p : Person σ} (h : p.hypothesis = false) : p.promote = p := by
  rw [Person.promote, h, Bool.false_and, if_neg Bool.false_ne_true]

theorem promote_hypothesis {p : Person σ} (h : p.hypothesis = true) :
    p.promote = if sightingsToLock ≤ p.sightingsCounter then
      { p with hypothesis := false, timeoutCounter := loseCounter } else p := by
  rw [Person.promote, h, Bool.true_and]
  simp only [ge_iff_le, decide_eq_true_iff]

/-- A person that stays when it is seen in every frame: a hypothesis still has enough time to be
promoted. -/
structure Person.Stays (p : Person Unit) : Prop where
  shouldDelete : p.shouldDelete = false
  timeout : p.hypothesis = true → 0 ≤ p.sightingsCounter ∧ p.sightingsCounter ≤ 4 ∧
    p.timeoutCounter = 29 - p.sightingsCounter

/-- A confirmed person that was just seen, or a hypothesis that was just promoted. -/
theorem stays_of_loseCounter {p : Person Unit} (hhypothesis : p.hypothesis = false)
    (hdelete : p.shouldDelete = false) (htimeout : p.timeoutCounter = loseCounter) :
    p.countDown.isErased = false ∧ p.countDown.Stays := by
  obtain ⟨_, name, id, shouldDelete, timeoutCounter, sightingsCounter, hypothesis⟩ := p
  obtain rfl : hypothesis = false := hhypothesis
  obtain rfl : shouldDelete = false := hdelete
  obtain rfl : timeoutCounter = loseCounter := htimeout
  exact ⟨rfl, rfl, nofun⟩

/-- A person that is seen, by whether it is a hypothesis. -/
theorem Person.Stays.round {p : Person Unit} (h : p.Stays) (identify : Person Unit → String) :
    (p.sight identify ()).promote.countDown.isErased = false ∧
      (p.sight identify ()).promote.countDown.Stays := by
  rcases p with ⟨_, name, id, shouldDelete, timeoutCounter, sightingsCounter, hypothesis⟩
  obtain rfl : shouldDelete = false := h.shouldDelete
  rcases hypothesis with - | -
  · -- a confirmed person has its full time again
    obtain ⟨name', hsight⟩ : ∃ name',
        (Person.mk () name id false timeoutCounter sightingsCounter false).sight identify () =
          ⟨(), name', id, false, loseCounter, sightingsCounter, false⟩ := by
      simp only [Person.sight, Person.updatePerson, Person.faceScanPerson]
      by_cases hname : name = "" <;> simp [hname]
    rw [hsight, promote_confirmed rfl]
    exact stays_of_loseCounter rfl rfl rfl
  · obtain ⟨hnonneg, hle, htimeout⟩ := h.timeout rfl
    have hsight :
        (Person.mk () name id false timeoutCounter sightingsCounter true).sight identify () =
          ⟨(), name, id, false, timeoutCounter, sightingsCounter + 1, true⟩ := rfl
    simp only at hnonneg hle htimeout
    rw [hsight, promote_hypothesis rfl]
    by_cases hlock : sightingsToLock ≤ sightingsCounter + 1
    · rw [if_pos hlock]
      exact stays_of_loseCounter rfl rfl rfl
    · rw [if_neg hlock]
      rw [sightingsToLock] at hlock
      refine ⟨?_, rfl, fun _ ↦ ⟨?_, ?_, ?_⟩⟩
      · show (decide (max (timeoutCounter - 1) 0 ≤ 0) || false) = false
        rw [Bool.or_false]
        exact decide_eq_false (by omega)
      all_goals
        simp only [Person.countDown]
        omega

/-- The person with the first id is still the first one, and stays. -/
def FirstStays (st : TrackerState Unit) : Prop :=
  ∃ p persons, st.persons = p :: persons ∧ p.id = 1 ∧ p.Stays

variable {sort : ScoreSort} {order : SetOrder} {st : TrackerState Unit}

/-- The first person after the update of a frame. -/
theorem FirstStays.update (h : FirstStays st) :
    ∃ p persons, st.persons = p :: persons ∧ p.id = 1 ∧ p.Stays ∧
      (st.update sort order nextFrame).persons.head? =
        some (p.sight nextFrame.identify ()) := by
  obtain ⟨p, persons, hpersons, hid, hstays⟩ := h
  refine ⟨p, persons, hpersons, hid, hstays, ?_⟩
  obtain ⟨⟨m, hm, hobject, hpercept⟩, -⟩ := @matching_nextFrame sort st.persons (by simp [hpersons])
  have hupdate : IsUpdate nextFrame _ _ st (st.update sort order nextFrame) := isUpdate_update
  have hfirst := hupdate.matched_person m hm p () (by rw [hobject, hpersons]; rfl)
    (by rw [hpercept]; rfl)
  rwa [hobject, ← List.head?_eq_getElem?] at hfirst

theorem FirstStays.process (h : FirstStays st) :
    FirstStays ((Command.process sort order nextFrame).next st) := by
  obtain ⟨p, persons, -, hid, hstays, hhead⟩ := @FirstStays.update sort order _ h
  obtain ⟨rest, hrest⟩ := List.head?_eq_some_iff.1 hhead
  obtain ⟨herased, hround⟩ := hstays.round nextFrame.identify
  obtain ⟨names, percepts, htick⟩ := fst_tickLoop_cons (p.sight nextFrame.identify ()) rest [] []
  refine ⟨_, (TrackerState.tickLoop rest names percepts).1, ?_, ?_, hround⟩
  · show (TrackerState.tickLoop (st.update sort order nextFrame).persons [] []).1 = _
    rw [hrest, htick, herased, if_neg Bool.false_ne_true]
  · rw [id_countDown_promote, id_sight, hid]

theorem matching_firstFrame : firstFrame.matching ScoreSort.merge [] = ⟨[], [0], []⟩ := by
  have hscores : ScoreSort.merge.scores (firstFrame.scores 0) = [] := List.mergeSort_nil
  rw [Frame.matching, List.length_nil, hscores, matchLoop]
  rfl

theorem persons_process_firstFrame :
    ((Command.process ScoreSort.merge SetOrder.insertion firstFrame).next
      TrackerState.initial).persons = [⟨(), "", 1, false, 29, 0, true⟩] := by
  have hupdate : (TrackerState.initial.update ScoreSort.merge SetOrder.insertion
      firstFrame).persons = [Person.new 1 ()] := by
    rw [TrackerState.update, show (TrackerState.initial : TrackerState Unit).persons = [] from rfl,
      matching_firstFrame]
    rfl
  show (TrackerState.tickLoop (TrackerState.initial.update ScoreSort.merge SetOrder.insertion
    firstFrame).persons [] []).1 = _
  rw [hupdate]
  rfl

/-- After the first frame and `k` more, `k + 1` ids have been handed out. -/
theorem exists_reachable_firstStays (k : ℕ) :
    ∃ st : TrackerState Unit, (tracker Unit).Reachable (k + 1, st) ∧ FirstStays st := by
  induction k with
  | zero =>
    refine ⟨(Command.process ScoreSort.merge SetOrder.insertion firstFrame).next
      TrackerState.initial, ?_, _, [], persons_process_firstFrame, rfl, rfl, fun _ ↦ by decide⟩
    refine @TransitionSystem.Reachable.step _ (tracker Unit) (0, TrackerState.initial) _
      (TransitionSystem.Reachable.init rfl)
        ⟨.process ScoreSort.merge SetOrder.insertion firstFrame, ?_⟩
    show _ = (0 + (firstFrame.matching ScoreSort.merge []).unusedPercepts.length, _)
    rw [matching_firstFrame]
    rfl
  | succ k ih =>
    obtain ⟨st, hst, hstays⟩ := ih
    refine ⟨(Command.process ScoreSort.merge SetOrder.insertion nextFrame).next st,
      hst.step ⟨.process ScoreSort.merge SetOrder.insertion nextFrame, ?_⟩, hstays.process⟩
    obtain ⟨p, persons, hpersons, -⟩ := hstays
    have hunused := (@matching_nextFrame ScoreSort.merge st.persons (by simp [hpersons])).2
    rw [Command.created, hunused]
    rfl

/-- **The ids run out.** In some run the first person is still there when its id is handed out
again. -/
theorem exists_reachable_not_nodup : ∃ (n : ℕ) (st : TrackerState Unit),
    (tracker Unit).Reachable (n, st) ∧
      ¬ ((st.update ScoreSort.merge SetOrder.insertion nextFrame).persons.map Person.id).Nodup := by
  obtain ⟨st, hst, hstays⟩ := exists_reachable_firstStays (2 ^ 32 - 1)
  refine ⟨_, st, hst, fun hnodup ↦ ?_⟩
  have hnext : st.nextId = 1 :=
    (handedOut_of_reachable hst).nextId.trans (show UInt32.ofNat (2 ^ 32 - 1 + 1 + 1) = 1 by decide)
  obtain ⟨p, persons, hpersons, hid, -, hhead⟩ :=
    @FirstStays.update ScoreSort.merge SetOrder.insertion _ hstays
  obtain ⟨rest, hrest⟩ := List.head?_eq_some_iff.1 hhead
  have hupdate : IsUpdate nextFrame _ _ st
    (st.update ScoreSort.merge SetOrder.insertion nextFrame) := isUpdate_update
  have hids := hupdate.ids
  rw [(@matching_nextFrame ScoreSort.merge st.persons (by simp [hpersons])).2, hnext, hrest,
    hpersons, List.length_cons, List.drop_succ_cons] at hids
  -- the new id is the one of the first person
  have hmem : (1 : UInt32) ∈ rest.map Person.id := by
    refine List.map_subset Person.id (List.drop_subset persons.length rest) ?_
    rw [hids]
    decide
  rw [hrest, List.map_cons, List.nodup_cons, id_sight, hid] at hnodup
  exact hnodup.1 hmem

end RunOut

end PersonTracker
