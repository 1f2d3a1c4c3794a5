import Mathlib.Data.List.TakeWhile

/-!
# Scanning by the longest match

A scanner has a list of rules. Of the rest of the input it takes the longest part that a rule
matches, by the earliest of the rules that match so much, and goes on behind it (`scan`). What is
taken can be skipped, and so is an element that no rule matches.

To know what a scanner does with some input one compares the lengths of its rules there
(`pick_append_cons`), and then reads lexeme by lexeme (`scan_append`).
-/

namespace LongestMatch

universe u v

/-- A rule of a scanner: how much it matches at the front of the rest, which is nothing if it does
not match, and what it makes of that. -/
structure Rule (α : Type u) (τ : Type v) where
  /-- How much of a text the rule takes; nothing if it does not match. -/
  length : List α → ℕ
  /-- The token for what it takes, if there is one. -/
  action : List α → Option τ

variable {α : Type u} {τ : Type v}

/-! ### Rules -/

/-- One element of a class. -/
def oneOf (p : α → Bool) (action : List α → Option τ) : Rule α τ where
  length cs := if cs.head?.any p then 1 else 0
  action := action

/-- A word. -/
def literal [DecidableEq α] (w : List α) (action : List α → Option τ) : Rule α τ where
  length cs := if w.isPrefixOf cs then w.length else 0
  action := action

/-- One or more elements of a class. -/
def many (p : α → Bool) (action : List α → Option τ) : Rule α τ where
  length cs := (cs.takeWhile p).length
  action := action

variable {p : α → Bool} {action : List α → Option τ} {c : α} {w cs : List α}

theorem oneOf_length_cons (c : α) (cs : List α) :
    (oneOf p action).length (c :: cs) = if p c then 1 else 0 := rfl

theorem oneOf_length_le (cs : List α) : (oneOf p action).length cs ≤ 1 := by
  rw [oneOf]
  dsimp only
  split_ifs
  · exact Nat.le_refl 1
  · exact Nat.zero_le 1

/-- The elements of a class, as far as they go. -/
theorem takeWhile_append_eq (hw : ∀ c ∈ w, p c) (hcs : ∀ c ∈ cs.head?, p c = false) :
    (w ++ cs).takeWhile p = w := by
  rw [List.takeWhile_append_of_pos hw]
  cases cs with
  | nil => exact List.append_nil w
  | cons c cs =>
    rw [List.takeWhile_cons_of_neg (Bool.not_eq_true _ ▸ hcs c rfl), List.append_nil]

/-- A list that begins in a class has its elements in front. -/
theorem exists_eq_append (hc : p c) (cs : List α) : ∃ w cs', c :: cs = w ++ cs' ∧ w ≠ [] ∧
    (∀ c ∈ w, p c) ∧ ∀ c ∈ cs'.head?, p c = false := by
  refine ⟨(c :: cs).takeWhile p, (c :: cs).dropWhile p, List.takeWhile_append_dropWhile.symm, ?_,
    fun c hmem ↦ List.mem_takeWhile_imp hmem, ?_⟩
  · rw [List.takeWhile_cons_of_pos hc]
    exact List.cons_ne_nil _ _
  · intro c' hc'
    have hnot := List.head?_dropWhile_not p (c :: cs)
    rwa [Option.mem_def.1 hc'] at hnot

theorem many_length_append (hw : ∀ c ∈ w, p c) (hcs : ∀ c ∈ cs.head?, p c = false) :
    (many p action).length (w ++ cs) = w.length :=
  congrArg List.length (takeWhile_append_eq hw hcs)

theorem many_length_cons (hc : p c = false) : (many p action).length (c :: cs) = 0 :=
  congrArg List.length (List.takeWhile_cons_of_neg (by rw [hc]; exact Bool.false_ne_true))

/-- The elements of a class end within a word that is not of the class. -/
theorem many_length_lt (hw : ∃ c ∈ w, p c = false) (cs : List α) :
    (many p action).length (w ++ cs) < w.length := by
  obtain ⟨c, hmem, hc⟩ := hw
  have hne : (w.takeWhile p).length ≠ w.length := by
    intro hlen
    have hall := (List.takeWhile_prefix p).eq_of_length hlen
    exact Bool.false_ne_true (hc.symm.trans (List.takeWhile_eq_self_iff.1 hall c hmem))
  have htake : (w ++ cs).takeWhile p = w.takeWhile p := by
    rw [List.takeWhile_append, if_neg hne]
  rw [many]
  dsimp only
  rw [htake]
  exact Nat.lt_of_le_of_ne (List.takeWhile_prefix p).length_le hne

/-- A word of a class goes no further than the elements of the class. -/
theorem prefix_of_class {v : List α} (hvp : ∀ c ∈ v, p c) (hwp : ∀ c ∈ w, p c)
    (hcs : ∀ c ∈ cs.head?, p c = false) (hpre : v <+: w ++ cs) : v <+: w := by
  obtain ⟨t, ht⟩ := hpre
  have htake : (v ++ t).takeWhile p = w := ht ▸ takeWhile_append_eq hwp hcs
  rw [List.takeWhile_append_of_pos hvp] at htake
  exact ⟨_, htake⟩

section literal

variable [DecidableEq α] {v : List α}

theorem literal_length_append (w cs : List α) :
    (literal w action).length (w ++ cs) = w.length :=
  if_pos (List.isPrefixOf_iff_prefix.2 (List.prefix_append w cs))

theorem literal_length_le (cs : List α) : (literal w action).length cs ≤ w.length := by
  rw [literal]
  dsimp only
  split_ifs
  · exact Nat.le_refl _
  · exact Nat.zero_le _

theorem literal_length_eq_zero (h : ¬ w <+: cs) : (literal w action).length cs = 0 :=
  if_neg fun hpre ↦ h (List.isPrefixOf_iff_prefix.1 hpre)

theorem literal_length_cons {a : α} (ha : w.head? = some a) (hne : a ≠ c) :
    (literal w action).length (c :: cs) = 0 := by
  refine literal_length_eq_zero ?_
  rintro ⟨t, ht⟩
  obtain ⟨w', rfl⟩ := List.head?_eq_some_iff.1 ha
  exact hne (List.cons.inj ht).1

/-- **A word of a class**, where the elements of the class end: it is all of them, or less. -/
theorem literal_length_lt (hvp : ∀ c ∈ v, p c) (hw : w ≠ []) (hwp : ∀ c ∈ w, p c)
    (hcs : ∀ c ∈ cs.head?, p c = false) (hne : v ≠ w) :
    (literal v action).length (w ++ cs) < w.length := by
  by_cases hpre : v <+: w ++ cs
  · have hvw := prefix_of_class hvp hwp hcs hpre
    refine Nat.lt_of_le_of_lt (literal_length_le _) (Nat.lt_of_le_of_ne hvw.length_le ?_)
    exact fun hlen ↦ hne (hvw.eq_of_length hlen)
  · rw [literal_length_eq_zero hpre]
    exact List.length_pos_iff.2 hw

end literal

/-! ### Picking a rule -/

/-- The first of the rules that match the most. -/
def pick : List (Rule α τ) → List α → Option (Rule α τ)
  | [], _ => none
  | r :: rules, cs =>
    match pick rules cs with
    | none => if 0 < r.length cs then some r else none
    | some r' => if r'.length cs ≤ r.length cs then some r else some r'

variable {rules before after : List (Rule α τ)} {r : Rule α τ}

theorem mem_of_pick_eq_some (h : pick rules cs = some r) : r ∈ rules := by
  induction rules with
  | nil => exact absurd h nofun
  | cons r' rules ih =>
    rw [pick] at h
    split at h <;> split_ifs at h
    · exact Option.some.inj h ▸ List.mem_cons_self
    · exact Option.some.inj h ▸ List.mem_cons_self
    · rename_i hpick _
      exact List.mem_cons_of_mem _ (ih (Option.some.inj h ▸ hpick))

theorem length_pos_of_pick_eq_some (h : pick rules cs = some r) : 0 < r.length cs := by
  induction rules generalizing r with
  | nil => exact absurd h nofun
  | cons r' rules ih =>
    rw [pick] at h
    split at h
    · split_ifs at h with hpos
      exact Option.some.inj h ▸ hpos
    · rename_i r'' hpick
      split_ifs at h with hle
      · exact Option.some.inj h ▸ Nat.lt_of_lt_of_le (ih hpick) hle
      · exact Option.some.inj h ▸ ih hpick

/-- Where a rule matches, one is picked. -/
theorem exists_pick_eq_some (hr : r ∈ rules) (hpos : 0 < r.length cs) :
    ∃ r', pick rules cs = some r' := by
  induction rules with
  | nil => exact absurd hr List.not_mem_nil
  | cons r' rules ih =>
    rw [pick]
    split
    · rename_i hpick
      rcases List.mem_cons.1 hr with rfl | hmem
      · exact ⟨r, if_pos hpos⟩
      · obtain ⟨r'', hpick'⟩ := ih hmem
        exact absurd (hpick.symm.trans hpick') nofun
    · split_ifs
      · exact ⟨_, rfl⟩
      · exact ⟨_, rfl⟩

/-- **The rule that is picked** matches more than those before it and no less than those behind. -/
theorem pick_append_cons (hbefore : ∀ r' ∈ before, r'.length cs < r.length cs)
    (hafter : ∀ r' ∈ after, r'.length cs ≤ r.length cs) (hpos : 0 < r.length cs) :
    pick (before ++ r :: after) cs = some r := by
  induction before with
  | nil =>
    rw [List.nil_append, pick]
    split
    · exact if_pos hpos
    · rename_i r' hpick
      exact if_pos (hafter r' (mem_of_pick_eq_some hpick))
  | cons b before ih =>
    have hlt := hbefore b List.mem_cons_self
    rw [List.cons_append, pick, ih fun r' hr' ↦ hbefore r' (List.mem_cons_of_mem _ hr')]
    exact if_neg (Nat.not_le.2 hlt)

/-! ### Scanning -/

/-- Scanning on, where the first `n` elements are part of what has been taken. -/
def scanFrom (rules : List (Rule α τ)) : ℕ → List α → List τ
  | _, [] => []
  | n + 1, _ :: cs => scanFrom rules n cs
  | 0, c :: cs =>
    match pick rules (c :: cs) with
    | none => scanFrom rules 0 cs
    | some r =>
      (r.action ((c :: cs).take (r.length (c :: cs)))).toList ++
        scanFrom rules (r.length (c :: cs) - 1) cs

def scan (rules : List (Rule α τ)) (cs : List α) : List τ := scanFrom rules 0 cs

theorem scanFrom_length_append (w cs : List α) :
    scanFrom rules w.length (w ++ cs) = scan rules cs := by
  induction w with
  | nil => rfl
  | cons c w ih => exact ih

/-- **One lexeme.** -/
theorem scan_append (hw : w ≠ []) (hpick : pick rules (w ++ cs) = some r)
    (hlen : r.length (w ++ cs) = w.length) :
    scan rules (w ++ cs) = (r.action w).toList ++ scan rules cs := by
  obtain ⟨c, w, rfl⟩ := List.exists_cons_of_ne_nil hw
  rw [List.cons_append] at hpick hlen ⊢
  rw [scan, scanFrom, hpick]
  dsimp only
  rw [hlen, ← List.cons_append, List.take_left' rfl]
  exact congrArg _ (scanFrom_length_append w cs)

/-- **One lexeme**, from the lengths of the rules. -/
theorem scan_longest (hrules : rules = before ++ r :: after) (hw : w ≠ [])
    (hlen : r.length (w ++ cs) = w.length)
    (hbefore : ∀ r' ∈ before, r'.length (w ++ cs) < w.length)
    (hafter : ∀ r' ∈ after, r'.length (w ++ cs) ≤ w.length) :
    scan rules (w ++ cs) = (r.action w).toList ++ scan rules cs := by
  refine scan_append hw ?_ hlen
  rw [hrules]
  refine pick_append_cons ?_ ?_ ?_
  · rwa [hlen]
  · rwa [hlen]
  · rw [hlen]
    exact List.length_pos_iff.2 hw

end LongestMatch
