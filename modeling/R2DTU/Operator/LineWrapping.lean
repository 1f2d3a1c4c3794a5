import R2DTU.Library.BoundedLoop
import Mathlib.Data.Int.Basic
import Mathlib.Data.List.Basic
import Mathlib.Tactic.NormNum

/-!
# Line wrapping in the operator's views

The descriptions of script items and the command line of the terminal are broken into lines by the
same loop, once in the constructor of `ScriptItem` and once in `TerminalView::render`. The loop
remembers the last space it has seen; 41 characters after the last cut it cuts there, or on the spot
when there was none, and goes back to the cut to look for the next line.

Going back does not make it endless: a cut moves `last_cut` forward, except that a leading space
gives an empty first line and that happens once (`Wrapping.measure_lt`). What it has cut off is
always the part of the sentence before `last_cut` (`Wrapping.step`).

The index is an `int`, and the bound of the loop is the length converted to one. `castInt` makes the
conversion explicit; from `2 ^ 31` characters on it is no longer the length, and the rest becomes
one line.
-/

namespace Ocs

/-- `' '`. -/
def space : UInt8 := 32

/-- The conversion of a size to `int`. -/
def castInt (n : ℕ) : ℤ := (n : ℤ).bmod (2 ^ 32)

/-- `substr`. No call has its position outside the string. -/
def substr (s : List UInt8) (pos count : ℕ) : List UInt8 := (s.drop pos).take count

/-- The variables of the loop. A `last_space` of `-1` is `none`. -/
structure WrapState where
  /-- The byte that is looked at. -/
  i : ℕ
  /-- The last space since the last cut. -/
  lastSpace : Option ℕ
  /-- Where the next line begins. -/
  lastCut : ℕ
  /-- The lines so far. -/
  lines : List (List UInt8)

/-- `last_space` after the character at the index has been looked at. -/
def WrapState.scan (s : List UInt8) (st : WrapState) : Option ℕ :=
  if s[st.i]? = some space then some st.i else st.lastSpace

/-- One round of the loop, with the line that is pushed behind it. -/
def wrapStep (s : List UInt8) (st : WrapState) : WrapState ⊕ List (List UInt8) :=
  if (st.i : ℤ) < castInt s.length then
    let lastSpace := st.scan s
    if st.i - st.lastCut > 40 then
      -- without a space on this line, the cut is right here
      let cut := lastSpace.getD st.i
      Sum.inl ⟨cut + 1, none, cut, st.lines ++ [substr s st.lastCut (cut - st.lastCut)]⟩
    else Sum.inl ⟨st.i + 1, lastSpace, st.lastCut, st.lines⟩
  else Sum.inr (st.lines ++ [substr s st.lastCut (s.length - st.lastCut)])

/-- The loop and the line after it. -/
def wrapLines (s : List UInt8) : Option (List (List UInt8)) :=
  BoundedLoop.run (wrapStep s) (43 * (s.length + 1) + 43) ⟨0, none, 0, []⟩

/-- `long_desc_` of a script item. -/
def ScriptItem.longDesc (sentence : List UInt8) : Option (List (List UInt8)) := wrapLines sentence

/-- `cmd_buffer_draw` of the terminal. -/
def TerminalView.cmdBufferDraw (cmdBuffer : List UInt8) : Option (List (List UInt8)) :=
  wrapLines cmdBuffer

/-! ### What wrapped lines are -/

/-- The line `l`, which comes after the lines `pre`, ends before a space of `s`, or has no space
after its first character and 41 characters. -/
def EndsAtBreak (s : List UInt8) (pre : List (List UInt8)) (l : List UInt8) : Prop :=
  s[(pre.flatten ++ l).length]? = some space ∨ (space ∉ l.tail ∧ l.length = 41)

/-- The lines are the sentence, broken at spaces where possible. -/
structure Wraps (s : List UInt8) (lines : List (List UInt8)) : Prop where
  /-- Nothing is lost. -/
  flatten_eq : lines.flatten = s
  /-- A line fits. -/
  length_le : ∀ l ∈ lines, l.length ≤ 41
  /-- All lines but the last one end where a line may be broken. -/
  ends : ∀ pre l post, lines = pre ++ l :: post → post ≠ [] → EndsAtBreak s pre l

/-! ### The conversion -/

theorem castInt_eq (n : ℕ) : castInt n =
    if (n : ℤ) % 4294967296 < 2147483648 then (n : ℤ) % 4294967296
    else (n : ℤ) % 4294967296 - 4294967296 := by
  have h : castInt n = (n : ℤ).bmod 4294967296 := rfl
  rw [h, Int.bmod_def]
  norm_num

theorem castInt_of_lt {n : ℕ} (h : n < 2 ^ 31) : castInt n = n := by
  rw [castInt_eq]
  omega

/-- From `2 ^ 31` on, the converted length is far below the length. -/
theorem castInt_of_le {n : ℕ} (h : 2 ^ 31 ≤ n) : castInt n ≤ n - 2 ^ 32 := by
  rw [castInt_eq]
  omega

theorem toNat_castInt_le (n : ℕ) : (castInt n).toNat ≤ n := by
  rcases Nat.lt_or_ge n (2 ^ 31) with h | h
  · rw [castInt_of_lt h, Int.toNat_natCast]
  · have hle := castInt_of_le h
    omega

/-! ### The loop -/

section Loop

variable {s : List UInt8} {st st' : WrapState}

theorem substr_append (s : List UInt8) {a b : ℕ} (h : a ≤ b) :
    s.take a ++ substr s a (b - a) = s.take b := by
  rw [substr, ← List.take_add, Nat.add_sub_cancel' h]

theorem length_substr_le (s : List UInt8) (pos count : ℕ) : (substr s pos count).length ≤ count :=
  List.length_take_le ..

/-- Between two rounds: the lines so far are the sentence up to the last cut, and `last_space` is a
space after it, if there is one. Only a first line can be empty. -/
structure Wrapping (s : List UInt8) (st : WrapState) : Prop where
  /-- The cut is behind us. -/
  lastCut_le : st.lastCut ≤ st.i
  /-- The line has not got too long. -/
  i_le : st.i ≤ st.lastCut + 41
  /-- The loop is in the sentence. -/
  i_le_bound : st.i ≤ (castInt s.length).toNat
  /-- The lines are what is before the cut. -/
  flatten_eq : st.lines.flatten = s.take st.lastCut
  /-- Each of them fits. -/
  length_le : ∀ l ∈ st.lines, l.length ≤ 41
  /-- Each ends where a line may be broken. -/
  ends : ∀ pre l post, st.lines = pre ++ l :: post → EndsAtBreak s pre l
  /-- After a cut, a byte behind it has been read. -/
  lastCut_lt : st.lines ≠ [] → st.lastCut < st.i
  /-- The last space is behind the cut. -/
  space_of_some : ∀ k, st.lastSpace = some k → st.lastCut ≤ k ∧ k < st.i ∧
    s[k]? = some space ∧ (st.lines ≠ [] → st.lastCut < k)
  /-- There is none if none is known. -/
  no_space_of_none : st.lastSpace = none →
    ∀ k, st.lastCut < k → k < st.i → s[k]? ≠ some space

theorem wrapping_init (s : List UInt8) : Wrapping s ⟨0, none, 0, []⟩ where
  lastCut_le := le_rfl
  i_le := Nat.zero_le _
  i_le_bound := Nat.zero_le _
  flatten_eq := rfl
  length_le _ h := absurd h List.not_mem_nil
  ends _ _ _ h := absurd h.symm (List.append_ne_nil_of_right_ne_nil _ (List.cons_ne_nil _ _))
  lastCut_lt h := absurd rfl h
  space_of_some k h := absurd h.symm (Option.some_ne_none k)
  no_space_of_none _ _ _ hk := absurd hk (Nat.not_lt_zero _)

/-- A remembered space, with the character at the index included. -/
theorem Wrapping.scan_some (h : Wrapping s st) {k : ℕ} (hk : st.scan s = some k) :
    st.lastCut ≤ k ∧ k ≤ st.i ∧ s[k]? = some space ∧ (st.lines ≠ [] → st.lastCut < k) := by
  rw [WrapState.scan] at hk
  split_ifs at hk with hspace
  · obtain rfl := Option.some.inj hk
    exact ⟨h.lastCut_le, le_rfl, hspace, h.lastCut_lt⟩
  · obtain ⟨hle, hlt, hs, hne⟩ := h.space_of_some k hk
    exact ⟨hle, hlt.le, hs, hne⟩

theorem Wrapping.scan_none (h : Wrapping s st) (hk : st.scan s = none) :
    ∀ k, st.lastCut < k → k ≤ st.i → s[k]? ≠ some space := by
  rw [WrapState.scan] at hk
  split_ifs at hk with hspace
  intro k hlt hle
  rcases hle.lt_or_eq with hlt' | rfl
  · exact h.no_space_of_none hk k hlt hlt'
  · exact hspace

/-- Where a line is cut: at a remembered space, or at the index when there is none. -/
theorem Wrapping.cut_spec (h : Wrapping s st) (hcut : st.i - st.lastCut > 40) :
    st.lastCut ≤ (st.scan s).getD st.i ∧ (st.scan s).getD st.i ≤ st.i ∧
      (st.lines ≠ [] → st.lastCut < (st.scan s).getD st.i) ∧
      (s[(st.scan s).getD st.i]? = some space ∨
        ((st.scan s).getD st.i = st.lastCut + 41 ∧
          ∀ k, st.lastCut < k → k < (st.scan s).getD st.i → s[k]? ≠ some space)) := by
  have hi := h.i_le
  rcases hk : st.scan s with _ | k
  · have hnone := h.scan_none hk
    refine ⟨h.lastCut_le, le_rfl, fun _ ↦ ?_, Or.inr ⟨?_, fun k hlt hlt' ↦ hnone k hlt hlt'.le⟩⟩
    · rw [Option.getD_none]
      omega
    · rw [Option.getD_none]
      omega
  · obtain ⟨hle, hle', hspace, hne⟩ := h.scan_some hk
    exact ⟨hle, hle', hne, Or.inl hspace⟩

/-- The lines of a list with one more line at its end. -/
theorem split_concat {α : Type} {xs pre post : List α} {x y : α}
    (h : xs ++ [y] = pre ++ x :: post) :
    (pre = xs ∧ x = y) ∨ ∃ post', xs = pre ++ x :: post' := by
  rcases List.eq_nil_or_concat post with rfl | ⟨post', z, rfl⟩
  · obtain ⟨rfl, hxy⟩ := List.append_inj' h rfl
    exact Or.inl ⟨rfl, (List.singleton_inj.1 hxy).symm⟩
  · rw [List.concat_eq_append, ← List.cons_append, ← List.append_assoc] at h
    exact Or.inr ⟨post', (List.append_inj' h rfl).1⟩

/-- The line that is cut off ends at a break. -/
theorem Wrapping.endsAtBreak (h : Wrapping s st) (hlt : st.i < s.length)
    (hcut : st.i - st.lastCut > 40) :
    EndsAtBreak s st.lines (substr s st.lastCut ((st.scan s).getD st.i - st.lastCut)) := by
  obtain ⟨hle, hle', -, hbreak⟩ := h.cut_spec hcut
  have hlen : (substr s st.lastCut ((st.scan s).getD st.i - st.lastCut)).length =
      (st.scan s).getD st.i - st.lastCut := by
    rw [substr, List.length_take, List.length_drop]
    omega
  rcases hbreak with hspace | ⟨heq, hno⟩
  · refine Or.inl ?_
    rw [h.flatten_eq, substr_append s hle, List.length_take, Nat.min_eq_left (by omega)]
    exact hspace
  · refine Or.inr ⟨fun hmem ↦ ?_, by omega⟩
    obtain ⟨j, hj⟩ := List.mem_iff_getElem?.1 hmem
    have hjlt := (List.getElem?_eq_some_iff.1 hj).1
    rw [List.length_tail, hlen] at hjlt
    rw [substr, List.getElem?_tail, List.getElem?_take_of_lt (by omega), List.getElem?_drop] at hj
    exact hno (st.lastCut + (j + 1)) (by omega) (by omega) hj

/-- **A round** of the loop keeps the invariant. -/
theorem Wrapping.step (h : Wrapping s st) (hb : wrapStep s st = Sum.inl st') : Wrapping s st' := by
  rw [wrapStep] at hb
  split_ifs at hb with hlt hcut
  · obtain rfl := Sum.inl.inj hb
    have hbound : st.i < (castInt s.length).toNat := by omega
    have hi := hbound.trans_le (toNat_castInt_le s.length)
    obtain ⟨hle, hle', -, -⟩ := h.cut_spec hcut
    have hi' := h.i_le
    exact {
      lastCut_le := Nat.le_succ _
      i_le := Nat.add_le_add_left (by omega) _
      i_le_bound := (Nat.succ_le_succ hle').trans hbound
      flatten_eq := by
        rw [List.flatten_append, h.flatten_eq, List.flatten_singleton, substr_append s hle]
      length_le := fun l hl ↦ by
        rcases List.mem_append.1 hl with hl | hl
        · exact h.length_le l hl
        · rw [List.mem_singleton.1 hl]
          exact (length_substr_le ..).trans (by omega)
      ends := fun pre l post hsplit ↦ by
        rcases split_concat hsplit with ⟨rfl, rfl⟩ | ⟨post', hlines⟩
        · exact h.endsAtBreak hi hcut
        · exact h.ends pre l post' hlines
      lastCut_lt := fun _ ↦ Nat.lt_succ_self _
      space_of_some := fun k hk ↦ absurd hk.symm (Option.some_ne_none k)
      no_space_of_none := fun _ k hk hk' ↦ absurd hk' (Nat.not_lt_of_le hk) }
  · obtain rfl := Sum.inl.inj hb
    have hle := h.lastCut_le
    exact { h with
      lastCut_le := hle.trans (Nat.le_succ _)
      i_le := by
        show st.i + 1 ≤ st.lastCut + 41
        omega
      i_le_bound := by
        show st.i + 1 ≤ (castInt s.length).toNat
        omega
      lastCut_lt := fun _ ↦ Nat.lt_succ_of_le hle
      space_of_some := fun k hk ↦ by
        obtain ⟨hle, hle', hrest⟩ := h.scan_some hk
        exact ⟨hle, Nat.lt_succ_of_le hle', hrest⟩
      no_space_of_none := fun hk k hlt hlt' ↦ h.scan_none hk k hlt (Nat.le_of_lt_succ hlt') }

/-- What is left of the sentence counts 43 rounds a character, and so does the chance of an empty
first line; 41 rounds lead from one cut to the next. -/
def WrapState.measure (s : List UInt8) (st : WrapState) : ℕ :=
  43 * (s.length - st.lastCut + if st.lines = [] then 1 else 0) + (42 - (st.i - st.lastCut))

/-- **Going back makes progress.** -/
theorem Wrapping.measure_lt (h : Wrapping s st) (hb : wrapStep s st = Sum.inl st') :
    st'.measure s < st.measure s := by
  rw [wrapStep] at hb
  split_ifs at hb with hlt hcut
  · obtain rfl := Sum.inl.inj hb
    have hi : st.i < s.length := by
      have hle := toNat_castInt_le s.length
      omega
    obtain ⟨hle, hle', hne, -⟩ := h.cut_spec hcut
    have hi' := h.i_le
    simp only [WrapState.measure, List.append_ne_nil_of_right_ne_nil _ (List.cons_ne_nil _ _),
      if_false]
    by_cases hlines : st.lines = []
    · rw [if_pos hlines]
      omega
    · have hlt' := hne hlines
      rw [if_neg hlines]
      omega
  · obtain rfl := Sum.inl.inj hb
    have hle := h.lastCut_le
    simp only [WrapState.measure]
    omega

/-! ### The lines -/

/-- The loop ends. Its lines are those before the last cut and the rest of the sentence. -/
theorem wrapLines_spec (s : List UInt8) :
    ∃ st, wrapLines s = some (st.lines ++ [substr s st.lastCut (s.length - st.lastCut)]) ∧
      Wrapping s st ∧ (castInt s.length).toNat ≤ st.i := by
  obtain ⟨lines, hrun, st, rfl, hst, hexit⟩ := @BoundedLoop.run_total _ _ (wrapStep s) (Wrapping s)
    (fun lines ↦ ∃ st, lines = st.lines ++ [substr s st.lastCut (s.length - st.lastCut)] ∧
      Wrapping s st ∧ (castInt s.length).toNat ≤ st.i) (WrapState.measure s)
    (fun h hb ↦ ⟨h.step hb, h.measure_lt hb⟩)
    (fun {st lines} h hb ↦ by
      rw [wrapStep] at hb
      split_ifs at hb with hlt
      exact ⟨st, (Sum.inr.inj hb).symm, h, by omega⟩)
    (43 * (s.length + 1) + 43) ⟨0, none, 0, []⟩ (wrapping_init s)
    (by
      simp only [WrapState.measure, if_true]
      omega)
  exact ⟨st, hrun, hst, hexit⟩

theorem Wrapping.lastCut_le_length (h : Wrapping s st) : st.lastCut ≤ s.length :=
  h.lastCut_le.trans (h.i_le_bound.trans (toNat_castInt_le s.length))

theorem Wrapping.flatten_lines (h : Wrapping s st) :
    (st.lines ++ [substr s st.lastCut (s.length - st.lastCut)]).flatten = s := by
  rw [List.flatten_append, h.flatten_eq, List.flatten_singleton,
    substr_append s h.lastCut_le_length, List.take_length]

/-- The last line is too long exactly when the conversion has lost the length. -/
theorem Wrapping.wraps_iff (h : Wrapping s st) (hexit : (castInt s.length).toNat ≤ st.i) :
    Wraps s (st.lines ++ [substr s st.lastCut (s.length - st.lastCut)]) ↔ s.length < 2 ^ 31 := by
  have hle := h.lastCut_le
  have hi := h.i_le
  have hbound := h.i_le_bound
  have hlen : (substr s st.lastCut (s.length - st.lastCut)).length = s.length - st.lastCut := by
    rw [substr, List.length_take, List.length_drop, Nat.min_self]
  constructor
  · intro hw
    by_contra hge
    have hcast := castInt_of_le (Nat.le_of_not_lt hge)
    have hlast := hw.length_le _ (List.mem_append_right _ (List.mem_singleton_self _))
    rw [hlen] at hlast
    omega
  · intro hlt
    rw [castInt_of_lt hlt, Int.toNat_natCast] at hexit
    refine ⟨h.flatten_lines, fun l hl ↦ ?_, fun pre l post hsplit hpost ↦ ?_⟩
    · rcases List.mem_append.1 hl with hl | hl
      · exact h.length_le l hl
      · rw [List.mem_singleton.1 hl, hlen]
        omega
    · rcases split_concat hsplit with ⟨rfl, rfl⟩ | ⟨post', hlines⟩
      · exact absurd (List.cons.inj (List.append_cancel_left hsplit)).2.symm hpost
      · exact h.ends pre l post' hlines

end Loop

/-- **Line wrapping.** Both loops end, and the lines are the sentence: none has more than 41
characters, and a line is only broken off before a space, or when it has no space after its first
character — exactly for the sentences whose length an `int` can hold. -/
theorem wraps_iff_length_lt (sentence : List UInt8) :
    ∃ lines, ScriptItem.longDesc sentence = some lines ∧
      TerminalView.cmdBufferDraw sentence = some lines ∧ lines.flatten = sentence ∧
      (Wraps sentence lines ↔ sentence.length < 2 ^ 31) := by
  obtain ⟨st, hrun, hst, hexit⟩ := wrapLines_spec sentence
  exact ⟨_, hrun, hrun, hst.flatten_lines, hst.wraps_iff hexit⟩

/-- A length that converts to no positive `int` makes the sentence one line. -/
theorem wrapLines_of_nonpos {s : List UInt8} (h : castInt s.length ≤ 0) :
    wrapLines s = some [s] := by
  have hexit : wrapStep s ⟨0, none, 0, []⟩ = Sum.inr [s] := by
    rw [wrapStep, if_neg (by show ¬ (0 : ℤ) < _; omega)]
    simp [substr]
  exact BoundedLoop.run_succ_of_inr hexit _

/-- `2 ^ 31` times `a`: the loop does not run at all, and the sentence is one line. -/
theorem not_wraps_replicate :
    ScriptItem.longDesc (List.replicate (2 ^ 31) 97) = some [List.replicate (2 ^ 31) 97] ∧
      ¬ Wraps (List.replicate (2 ^ 31) 97) [List.replicate (2 ^ 31) 97] := by
  have hlen : (List.replicate (2 ^ 31) (97 : UInt8)).length = 2 ^ 31 := List.length_replicate
  refine ⟨wrapLines_of_nonpos ?_, fun hw ↦ ?_⟩
  · have hcast := castInt_of_le hlen.ge
    omega
  · have hle := hw.length_le _ (List.mem_singleton_self _)
    omega

end Ocs
