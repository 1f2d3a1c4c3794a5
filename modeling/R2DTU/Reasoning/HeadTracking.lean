import R2DTU.Reasoning.Session

/-!
# The head of the robot

`tick` keeps in `static` variables whom the robot looks at. No session resets them. Which states of
them can later ticks tell apart?

How long ago a cube was looked at only counts until the head is idle: states that agree in
everything else are `Alike`, and `Alike.tick` says that they stay so and turn the head in the same
way. Conversely, a head that does what it does at the start of the process while there are persons
and no cubes is idle, has its timer at zero and follows nobody (`isIdle_of_run`, `timer_of_run`,
`target_of_run`): one person shows the first, a hundred ticks and then a second person the second,
and two persons the third.
-/

namespace Reasoning

namespace HeadTracking

variable {h h' : HeadTracking}

/-- Two states that no further tick can tell apart: how long ago a cube was looked at only counts
until the head is idle. -/
structure Alike (h h' : HeadTracking) : Prop where
  target : h.currentlyTrackTarget = h'.currentlyTrackTarget
  timer : h.personSwitchTimer = h'.personSwitchTimer
  idle : h.isIdle = h'.isIdle
  last : h.isIdle = false → h.lastLookAtCube = h'.lastLookAtCube

theorem isIdle_iff : h.isIdle = true ↔ h.lastLookAtCube < 0 ∨ h.lastLookAtCube > 8 := by
  simp [isIdle]

theorem Alike.eq (hh : h.Alike h') (hidle : h.isIdle = false) : h = h' := by
  obtain ⟨l, t, k⟩ := h
  obtain ⟨l', t', k'⟩ := h'
  obtain rfl : l = l' := hh.last hidle
  obtain rfl : t = t' := hh.target
  obtain rfl : k = k' := hh.timer
  rfl

theorem Alike.refl (h : HeadTracking) : h.Alike h := ⟨rfl, rfl, rfl, fun _ ↦ rfl⟩

theorem Alike.choose (hh : h.Alike h') (persons : List (String × Vec3)) :
    h.choose persons = h'.choose persons := by
  unfold HeadTracking.choose
  rw [hh.target, hh.timer]

theorem target_count (h : HeadTracking) :
    h.count.currentlyTrackTarget = h.currentlyTrackTarget := by
  unfold count
  split <;> rfl

theorem timer_count (h : HeadTracking) : h.count.personSwitchTimer = h.personSwitchTimer := by
  unfold count
  split <;> rfl

/-- An idle head stays idle while ticks are counted. -/
theorem isIdle_count (hidle : h.isIdle = true) : h.count.isIdle = true := by
  rw [isIdle_iff] at hidle ⊢
  unfold count
  split
  · show h.lastLookAtCube + 1 < 0 ∨ h.lastLookAtCube + 1 > 8
    omega
  · exact hidle

theorem Alike.count (hh : h.Alike h') : h.count.Alike h'.count := by
  cases hidle : h.isIdle with
  | false =>
    obtain rfl := hh.eq hidle
    exact .refl _
  | true =>
    have hcount := isIdle_count hidle
    have hcount' := isIdle_count (hh.idle ▸ hidle)
    refine ⟨?_, ?_, hcount.trans hcount'.symm, fun hbusy ↦ ?_⟩
    · rw [target_count, target_count, hh.target]
    · rw [timer_count, timer_count, hh.timer]
    · exact absurd (hbusy.symm.trans hcount) (by decide)

theorem Alike.look (hh : h.Alike h') (cubes : List Vec3) (persons : List (String × Vec3)) :
    (h.look cubes persons).1.Alike (h'.look cubes persons).1 ∧
      (h.look cubes persons).2 = (h'.look cubes persons).2 := by
  cases cubes with
  | cons cube cubes => exact ⟨⟨hh.target, hh.timer, rfl, fun _ ↦ rfl⟩, rfl⟩
  | nil =>
    simp only [HeadTracking.look, ← hh.idle, ← hh.choose persons]
    split
    · cases h.choose persons with
      | some chosen => exact ⟨.refl _, rfl⟩
      | none => exact ⟨hh, rfl⟩
    · exact ⟨hh, rfl⟩

/-- **A tick** puts out the same in states that are alike. -/
theorem Alike.tick (hh : h.Alike h') (cubes : List Vec3) (persons : List (String × Vec3)) :
    (h.tick cubes persons).1.Alike (h'.tick cubes persons).1 ∧
      (h.tick cubes persons).2 = (h'.tick cubes persons).2 :=
  ⟨(hh.look cubes persons).1.count, (hh.look cubes persons).2⟩

/-! ### Telling heads apart -/

/-- The state of the variables before the first tick of the process. -/
def start : HeadTracking := ⟨-1, "", 0⟩

/-- What the head does while there are persons and no cubes. -/
def run : HeadTracking → List (List (String × Vec3)) → List Output
  | _, [] => []
  | h, persons :: l => (h.tick [] persons).2 ++ (h.tick [] persons).1.run l

theorem run_cons (h : HeadTracking) (persons : List (String × Vec3))
    (l : List (List (String × Vec3))) :
    h.run (persons :: l) = (h.tick [] persons).2 ++ (h.tick [] persons).1.run l := rfl

/-- The head only looks. -/
theorem isCommand_of_mem_tick {cubes : List Vec3} {persons : List (String × Vec3)} {o : Output}
    (ho : o ∈ (h.tick cubes persons).2) : o.isCommand = true := by
  simp only [HeadTracking.tick, HeadTracking.look] at ho
  split at ho
  · obtain rfl := List.mem_singleton.1 ho
    rfl
  · split at ho
    · split at ho
      · obtain rfl := List.mem_singleton.1 ho
        rfl
      · exact absurd ho List.not_mem_nil
    · exact absurd ho List.not_mem_nil

theorem isCommand_of_mem_run {l : List (List (String × Vec3))} {o : Output} (ho : o ∈ h.run l) :
    o.isCommand = true := by
  induction l generalizing h with
  | nil => exact absurd ho List.not_mem_nil
  | cons persons l ih =>
    rcases List.mem_append.1 ho with htick | hrest
    · exact isCommand_of_mem_tick htick
    · exact ih hrest

theorem tick_of_busy (hidle : h.isIdle = false) (persons : List (String × Vec3)) :
    (h.tick [] persons).2 = [] := by
  simp [HeadTracking.tick, HeadTracking.look, hidle]

theorem tick_of_choose {persons : List (String × Vec3)} {person : String × Vec3} {timer : ℕ}
    (hidle : h.isIdle = true) (hchoose : h.choose persons = some (person, timer)) :
    h.tick [] persons = (⟨-1, person.1, timer + 1⟩, [.lookAt person.2]) := by
  simp [HeadTracking.tick, HeadTracking.look, hidle, hchoose, HeadTracking.count]

/-- An idle head looks at the only person. -/
theorem run_one (hidle : h.isIdle = true) (person : String × Vec3)
    (l : List (List (String × Vec3))) :
    h.run ([person] :: l) =
      .lookAt person.2 :: run ⟨-1, person.1, h.personSwitchTimer + 1⟩ l := by
  rw [run_cons, tick_of_choose hidle rfl]
  rfl

/-- While one person is looked at, the timer runs. -/
theorem run_replicate (n k : ℕ) (person : String × Vec3) (l : List (List (String × Vec3))) :
    run ⟨-1, person.1, k⟩ (List.replicate n [person] ++ l) =
      List.replicate n (.lookAt person.2) ++ run ⟨-1, person.1, k + n⟩ l := by
  induction n generalizing k with
  | zero => rfl
  | succ n ih =>
    rw [List.replicate_succ, List.cons_append, run_one rfl, ih, List.replicate_succ,
      List.cons_append, Nat.add_assoc, Nat.add_comm 1 n]

/-- Two persons of which the first is tracked. -/
theorem run_two (hidle : h.isIdle = true) {fst : String × Vec3}
    (htarget : fst.1 = h.currentlyTrackTarget) (snd : String × Vec3) :
    h.run [[fst, snd]] =
      [.lookAt (if h.personSwitchTimer > 100 then snd.2 else fst.2)] := by
  rw [run_cons]
  split
  · have hchoose : h.choose [fst, snd] = some (snd, 0) := by simp [choose, *]
    rw [tick_of_choose hidle hchoose]
    rfl
  · have hchoose : h.choose [fst, snd] = some (fst, h.personSwitchTimer) := by simp [choose, *]
    rw [tick_of_choose hidle hchoose]
    rfl

/-- All persons have names. -/
def Named (l : List (List (String × Vec3))) : Prop := ∀ persons ∈ l, ∀ p ∈ persons, p.1 ≠ ""

theorem named_pair {fst snd : String × Vec3} (hfst : fst.1 ≠ "") (hsnd : snd.1 ≠ "") :
    Named [[fst, snd]] := by
  intro persons hmem p hp
  rw [List.mem_singleton.1 hmem, List.mem_pair] at hp
  rcases hp with rfl | rfl
  · exact hfst
  · exact hsnd

theorem isIdle_of_run (hrun : ∀ l, Named l → h.run l = start.run l) : h.isIdle = true := by
  have hone := hrun [[("A", .zero)]] (by simp [Named])
  cases hidle : h.isIdle with
  | true => rfl
  | false =>
    rw [run_cons, tick_of_busy hidle, run_one rfl] at hone
    exact absurd hone (by simp [run])

theorem timer_of_run (hidle : h.isIdle = true)
    (hrun : ∀ l, Named l → h.run l = start.run l) : h.personSwitchTimer = 0 := by
  have hnamed : Named ([("A", .zero)] :: (List.replicate 99 [("A", .zero)] ++
      [[("A", .zero), ("B", ⟨1, 0, 0⟩)]])) := by
    unfold Named
    decide +kernel
  have hhundred := hrun _ hnamed
  rw [run_one hidle, run_one rfl, run_replicate, run_replicate, run_two rfl rfl,
    run_two rfl rfl] at hhundred
  have hlast := List.append_cancel_left (List.cons.inj hhundred).2
  by_contra htimer
  have hlate : h.personSwitchTimer + 1 + 99 > 100 := by omega
  rw [if_pos hlate] at hlast
  exact absurd hlast (by decide)

theorem target_of_run (hidle : h.isIdle = true) (htimer : h.personSwitchTimer = 0)
    (hrun : ∀ l, Named l → h.run l = start.run l) : h.currentlyTrackTarget = "" := by
  by_contra htarget
  have htwo := hrun [[(h.currentlyTrackTarget, .zero), ("B", ⟨1, 0, 0⟩)]]
    (named_pair htarget (by decide))
  have hchoose : start.choose [(h.currentlyTrackTarget, .zero), ("B", ⟨1, 0, 0⟩)] =
      some (("B", ⟨1, 0, 0⟩), 0) := by
    simp [choose, start, htarget]
  rw [run_two hidle rfl, htimer, if_neg (by decide), run_cons, tick_of_choose rfl hchoose] at htwo
  exact absurd (List.cons.inj htwo).1 (by simp [Vec3.zero])

end HeadTracking

end Reasoning
