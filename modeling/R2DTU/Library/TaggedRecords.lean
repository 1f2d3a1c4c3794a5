import R2DTU.Library.ByteMemory
import Mathlib.Data.List.TakeWhile

/-!
# Files of tagged records

A record is a number in a fixed number of bytes and a payload of a fixed size behind it. A reader
has read the tag of a record before it reads the payload; what such a reader has before it is
`Pending`, and a file that has been written record by record gives the records back
(`pending_encode`).

A reader that waits for a clock takes the records up to the first one with a later tag, and as the
clock rises it takes as much in several steps as at once (`takeWhile_append_takeWhile`).
-/

universe u

namespace TaggedRecords

variable {w n : ℕ}

/-! ### Reading items -/

/-- Bytes of a fixed number. -/
abbrev Item (n : ℕ) := { bs : List UInt8 // bs.length = n }

/-- The next item, if there is enough left for it; what is not enough is lost. -/
def fread (n : ℕ) (file : List UInt8) : Option (Item n) × List UInt8 :=
  if h : n ≤ file.length then (some ⟨file.take n, List.length_take_of_le h⟩, file.drop n)
  else (none, [])

theorem fread_append (item : Item n) (file : List UInt8) :
    fread n (item.1 ++ file) = (some item, file) := by
  have hle : n ≤ (item.1 ++ file).length := by
    rw [List.length_append, item.2]
    exact Nat.le_add_right n _
  rw [fread, dif_pos hle]
  exact Prod.ext (congrArg some (Subtype.ext (List.take_left' item.2))) (List.drop_left' item.2)

theorem fread_of_lt {file : List UInt8} (h : file.length < n) : fread n file = (none, []) :=
  dif_neg (Nat.not_le.2 h)

/-! ### Records -/

/-- A tag, as it is written. -/
def tagItem (w tag : ℕ) : Item w := ⟨littleEndian w tag, length_littleEndian w tag⟩

/-- Records, as they are written. -/
def encode (w : ℕ) (rs : List (ℕ × Item n)) : List UInt8 :=
  rs.flatMap fun r ↦ (tagItem w r.1).1 ++ r.2.1

/-- The records before a reader that has read a tag. What is left behind them is too short for a
tag, or for a payload. -/
inductive Pending (w n : ℕ) : ℕ → List UInt8 → List (ℕ × Item n) → Prop
  | stop {tag : ℕ} {file : List UInt8} (h : file.length < n) : Pending w n tag file []
  | last {tag : ℕ} (payload : Item n) {file : List UInt8} (h : file.length < w) :
      Pending w n tag (payload.1 ++ file) [(tag, payload)]
  | cons {tag : ℕ} (payload : Item n) (item : Item w) {file : List UInt8}
      {rs : List (ℕ × Item n)} (h : Pending w n (ofLittleEndian item.1) file rs) :
      Pending w n tag (payload.1 ++ (item.1 ++ file)) ((tag, payload) :: rs)

theorem Pending.head?_eq {tag : ℕ} {file : List UInt8} {rs : List (ℕ × Item n)}
    (h : Pending w n tag file rs) : ∀ r ∈ rs.head?, r.1 = tag := by
  rcases h with _ | _ | _
  · exact nofun
  · rintro r ⟨⟩
    rfl
  · rintro r ⟨⟩
    rfl

theorem Pending.length_lt {tag : ℕ} {file : List UInt8} (h : Pending w n tag file []) :
    file.length < n := by
  rcases h with h | _ | _
  exact h

theorem Pending.length_le {tag : ℕ} {file : List UInt8} {rs : List (ℕ × Item n)}
    (h : Pending w n tag file rs) (hn : 0 < n) : rs.length ≤ file.length := by
  induction h with
  | stop _ => exact Nat.zero_le _
  | last payload _ =>
    rw [List.length_singleton, List.length_append, payload.2]
    omega
  | cons payload item _ ih =>
    rw [List.length_cons, List.length_append, List.length_append, payload.2]
    omega

theorem ofLittleEndian_tagItem {tag : ℕ} (h : tag < 256 ^ w) :
    ofLittleEndian (tagItem w tag).1 = tag := by
  rw [tagItem, ofLittleEndian_littleEndian, Nat.mod_eq_of_lt h]

/-- **Records that have been written** are before a reader that has read the first tag. -/
theorem pending_encode {r : ℕ × Item n} {rs : List (ℕ × Item n)} (hw : 0 < w)
    (htags : ∀ r ∈ rs, r.1 < 256 ^ w) :
    Pending w n r.1 (r.2.1 ++ encode w rs) (r :: rs) := by
  induction rs generalizing r with
  | nil => exact .last r.2 hw
  | cons r' rs ih =>
    have hrest := ih (r := r') fun r'' hr'' ↦ htags r'' (List.mem_cons_of_mem _ hr'')
    have htag := ofLittleEndian_tagItem (htags r' List.mem_cons_self)
    rw [encode, List.flatMap_cons, List.append_assoc]
    rw [← htag] at hrest
    exact .cons r.2 (tagItem w r'.1) hrest

/-- A reader that has read the first tag of a file, where bytes that are missing are zero. -/
theorem pending_take_drop {rs : List (ℕ × Item n)} (hw : 0 < w) (hn : 0 < n)
    (htags : ∀ r ∈ rs, r.1 < 256 ^ w) :
    Pending w n (ofLittleEndian ((encode w rs).take w)) ((encode w rs).drop w) rs := by
  rcases rs with - | ⟨r, rs⟩
  · refine .stop ?_
    rw [encode, List.flatMap_nil, List.drop_nil]
    exact hn
  · have hpending := pending_encode (r := r) hw fun r' hr' ↦ htags r' (List.mem_cons_of_mem _ hr')
    have htag := ofLittleEndian_tagItem (htags r List.mem_cons_self)
    have hencode : encode w (r :: rs) = (tagItem w r.1).1 ++ (r.2.1 ++ encode w rs) := by
      rw [encode, List.flatMap_cons, List.append_assoc, encode]
    rw [hencode, List.take_left' (tagItem w r.1).2, List.drop_left' (tagItem w r.1).2, htag]
    exact hpending

end TaggedRecords

/-- **In two steps**, where the second condition holds wherever the first one does. -/
theorem takeWhile_append_takeWhile {α : Type u} {p q : α → Bool} (h : ∀ a, p a → q a)
    (l : List α) : l.takeWhile p ++ (l.dropWhile p).takeWhile q = l.takeWhile q ∧
      (l.dropWhile p).dropWhile q = l.dropWhile q := by
  induction l with
  | nil => exact ⟨rfl, rfl⟩
  | cons a l ih =>
    by_cases ha : p a
    · rw [List.takeWhile_cons_of_pos ha, List.dropWhile_cons_of_pos ha,
        List.takeWhile_cons_of_pos (h a ha), List.dropWhile_cons_of_pos (h a ha),
        List.cons_append, ih.1]
      exact ⟨rfl, ih.2⟩
    · rw [List.takeWhile_cons_of_neg ha, List.dropWhile_cons_of_neg ha, List.nil_append]
      exact ⟨rfl, rfl⟩

theorem takeWhile_eq_nil_of_head? {α : Type u} {p : α → Bool} {l : List α}
    (h : ∀ a ∈ l.head?, ¬ p a) : l.takeWhile p = [] ∧ l.dropWhile p = l := by
  rcases l with - | ⟨a, l⟩
  · exact ⟨rfl, rfl⟩
  · exact ⟨List.takeWhile_cons_of_neg (h a rfl), List.dropWhile_cons_of_neg (h a rfl)⟩

/-- Where a condition holds of all elements before one that meets it. -/
theorem takeWhile_eq_filter {α : Type u} {p : α → Bool} {l : List α}
    (h : l.Pairwise fun a b ↦ p b → p a) : l.takeWhile p = l.filter p := by
  induction l with
  | nil => rfl
  | cons a l ih =>
    obtain ⟨hhead, htail⟩ := List.pairwise_cons.1 h
    by_cases ha : p a
    · rw [List.takeWhile_cons_of_pos ha, List.filter_cons_of_pos ha, ih htail]
    · have hrest : l.filter p = [] := List.filter_eq_nil_iff.2 fun b hb hpb ↦ ha (hhead b hb hpb)
      rw [List.takeWhile_cons_of_neg ha, List.filter_cons_of_neg ha, hrest]
