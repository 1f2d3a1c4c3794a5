import Mathlib.Data.List.Basic
import Mathlib.Data.List.Induction
import Mathlib.Data.Nat.Bitwise

/-!
# Bytes in memory

Memory maps addresses to bytes. `write` stores a list of bytes from an address on and `read` loads
one; `read_write` and `read_write_of_disjoint` are all that is used about the two. Numbers are
stored least significant byte first, in a fixed number of bytes, and `readWord_writeWord` reads back
what fits.

`Apart` says that two ranges of addresses share nothing. An empty range is apart from every other.
-/

/-- Bytes by address. -/
abbrev ByteMemory := ℕ → UInt8

/-! ### Numbers as bytes -/

/-- The `n` lowest bytes of a number, the lowest first. -/
def littleEndian : ℕ → ℕ → List UInt8
  | 0, _ => []
  | n + 1, w => UInt8.ofNat w :: littleEndian n (w / 256)

/-- The number with the given bytes, the lowest first. -/
def ofLittleEndian : List UInt8 → ℕ
  | [] => 0
  | b :: bs => b.toNat + 256 * ofLittleEndian bs

@[simp] theorem length_littleEndian (n w : ℕ) : (littleEndian n w).length = n := by
  induction n generalizing w with
  | zero => rfl
  | succ n ih => rw [littleEndian, List.length_cons, ih]

/-- **Reading a number back** keeps what fits into the bytes. -/
theorem ofLittleEndian_littleEndian (n w : ℕ) :
    ofLittleEndian (littleEndian n w) = w % 256 ^ n := by
  induction n generalizing w with
  | zero => rw [littleEndian, ofLittleEndian, Nat.pow_zero, Nat.mod_one]
  | succ n ih =>
    have hbyte : (UInt8.ofNat w).toNat = w % 256 := UInt8.toNat_ofNat' ..
    rw [littleEndian, ofLittleEndian, ih, hbyte, Nat.pow_succ, Nat.mul_comm (256 ^ n), Nat.mod_mul]

namespace ByteMemory

variable {m m' : ByteMemory}

/-- Store bytes from an address on. -/
def write (m : ByteMemory) (a : ℕ) (bs : List UInt8) : ByteMemory :=
  fun x ↦ if x < a then m x else (bs[x - a]?).getD (m x)

/-- Load `n` bytes from an address on. -/
def read (m : ByteMemory) (a n : ℕ) : List UInt8 := (List.range n).map fun i ↦ m (a + i)

/-- Ranges of addresses that share nothing. -/
def Apart (a n a' n' : ℕ) : Prop := n = 0 ∨ n' = 0 ∨ a + n ≤ a' ∨ a' + n' ≤ a

instance (a n a' n' : ℕ) : Decidable (Apart a n a' n') :=
  inferInstanceAs (Decidable (n = 0 ∨ n' = 0 ∨ a + n ≤ a' ∨ a' + n' ≤ a))

theorem Apart.symm {a n a' n' : ℕ} (h : Apart a n a' n') : Apart a' n' a n := by
  rw [Apart] at h ⊢
  omega

@[simp] theorem length_read (m : ByteMemory) (a n : ℕ) : (m.read a n).length = n := by
  rw [read, List.length_map, List.length_range]

theorem getElem?_read {a n i : ℕ} (hi : i < n) : (m.read a n)[i]? = some (m (a + i)) := by
  rw [read, List.getElem?_map, List.getElem?_range hi, Option.map_some]

/-- Equal bytes read equal. -/
theorem read_congr {a a' n : ℕ} (h : ∀ i < n, m (a + i) = m' (a' + i)) :
    m.read a n = m'.read a' n :=
  List.map_congr_left fun i hi ↦ h i (List.mem_range.1 hi)

theorem apply_eq_of_read_eq {a a' n i : ℕ} (h : m.read a n = m'.read a' n) (hi : i < n) :
    m (a + i) = m' (a' + i) := by
  have hget := congrArg (fun bs ↦ bs[i]?) h
  simp only [getElem?_read hi] at hget
  exact Option.some.inj hget

/-- A shorter read is part of a longer one. -/
theorem read_eq_of_read_eq {a a' n k l : ℕ} (h : m.read a n = m'.read a' n) (hk : k + l ≤ n) :
    m.read (a + k) l = m'.read (a' + k) l := by
  refine read_congr fun i hi ↦ ?_
  rw [Nat.add_assoc, Nat.add_assoc]
  exact apply_eq_of_read_eq h (by omega)

theorem read_add (m : ByteMemory) (a n k : ℕ) :
    m.read a (n + k) = m.read a n ++ m.read (a + n) k := by
  rw [read, read, read, List.range_add, List.map_append, List.map_map]
  congr 1
  exact List.map_congr_left fun i _ ↦ by rw [Function.comp_apply, Nat.add_assoc]

/-! ### Writing -/

theorem write_of_outside {a x : ℕ} {bs : List UInt8} (h : x < a ∨ a + bs.length ≤ x) :
    m.write a bs x = m x := by
  rw [write]
  split_ifs with hx
  · rfl
  · rw [List.getElem?_eq_none (by omega), Option.getD_none]

/-- **What was written** is read back. -/
theorem read_write (m : ByteMemory) (a : ℕ) (bs : List UInt8) :
    (m.write a bs).read a bs.length = bs := by
  refine List.ext_getElem? fun i ↦ ?_
  rcases Nat.lt_or_ge i bs.length with hi | hi
  · rw [getElem?_read hi, write, if_neg (by omega), Nat.add_sub_cancel_left,
      List.getElem?_eq_getElem hi, Option.getD_some]
  · rw [List.getElem?_eq_none hi, List.getElem?_eq_none (by rwa [length_read])]

/-- **What was not written** stays. -/
theorem read_write_of_apart {a x n : ℕ} {bs : List UInt8} (h : Apart x n a bs.length) :
    (m.write a bs).read x n = m.read x n := by
  refine read_congr fun i hi ↦ ?_
  rw [Apart] at h
  exact write_of_outside (by omega)

/-- **Copying** a range. -/
theorem read_copy (m m' : ByteMemory) (a b n : ℕ) :
    (m.write a (m'.read b n)).read a n = m'.read b n := by
  have hread := m.read_write a (m'.read b n)
  rwa [length_read] at hread

theorem read_copy_of_apart {a b n x k : ℕ} (h : Apart x k a n) :
    (m.write a (m'.read b n)).read x k = m.read x k := by
  refine read_write_of_apart ?_
  rwa [length_read]

/-- **Several writes** to ranges that share nothing. -/
theorem read_foldl_write {rs : List (ℕ × List UInt8)} {r : ℕ × List UInt8}
    (h : rs.Pairwise fun r s ↦ Apart r.1 r.2.length s.1 s.2.length) (hr : r ∈ rs) :
    (rs.foldl (fun m r ↦ m.write r.1 r.2) m).read r.1 r.2.length = r.2 := by
  induction rs using List.reverseRecOn with
  | nil => exact absurd hr List.not_mem_nil
  | append_singleton rs s ih =>
    obtain ⟨hrs, -, hlast⟩ := List.pairwise_append.1 h
    rw [List.foldl_append, List.foldl_cons, List.foldl_nil]
    rcases List.mem_append.1 hr with hr | hr
    · rw [read_write_of_apart (hlast r hr s (List.mem_singleton_self s))]
      exact ih hrs hr
    · obtain rfl := List.mem_singleton.1 hr
      exact read_write _ _ _

/-! ### Words -/

/-- Store a number in `n` bytes. -/
def writeWord (m : ByteMemory) (n a w : ℕ) : ByteMemory := m.write a (littleEndian n w)

/-- Numbers in `n` bytes each, one after the other. -/
def wordBytes (n : ℕ) (ws : List ℕ) : List UInt8 := ws.flatMap (littleEndian n)

/-- Load a number of `n` bytes. -/
def readWord (m : ByteMemory) (n a : ℕ) : ℕ := ofLittleEndian (m.read a n)

theorem readWord_writeWord {n w : ℕ} (m : ByteMemory) (a : ℕ) (hw : w < 256 ^ n) :
    (m.writeWord n a w).readWord n a = w := by
  have hread := m.read_write a (littleEndian n w)
  rw [length_littleEndian] at hread
  rw [readWord, writeWord, hread, ofLittleEndian_littleEndian, Nat.mod_eq_of_lt hw]

theorem read_writeWord_of_apart {n a w x k : ℕ} (h : Apart x k a n) :
    (m.writeWord n a w).read x k = m.read x k := by
  refine read_write_of_apart ?_
  rwa [length_littleEndian]

theorem length_wordBytes (n : ℕ) (ws : List ℕ) : (wordBytes n ws).length = ws.length * n := by
  rw [wordBytes, List.length_flatMap]
  simp

/-- **An array of numbers** is read at multiples of their size. -/
theorem readWord_of_read_wordBytes {n k w a : ℕ} {ws : List ℕ}
    (h : m.read a (ws.length * n) = wordBytes n ws) (hk : ws[k]? = some w) (hw : w < 256 ^ n) :
    m.readWord n (a + n * k) = w := by
  induction ws generalizing a k with
  | nil => exact absurd hk (by simp)
  | cons v ws ih =>
    have hlen : (v :: ws).length * n = n + ws.length * n := by
      rw [List.length_cons, Nat.succ_mul, Nat.add_comm]
    rw [hlen, read_add, wordBytes, List.flatMap_cons] at h
    obtain ⟨hfirst, hrest⟩ := List.append_inj h (by rw [length_read, length_littleEndian])
    cases k with
    | zero =>
      obtain rfl := Option.some.inj hk
      rw [Nat.mul_zero, Nat.add_zero, readWord, hfirst, ofLittleEndian_littleEndian,
        Nat.mod_eq_of_lt hw]
    | succ k =>
      rw [List.getElem?_cons_succ] at hk
      rw [Nat.mul_succ, Nat.add_comm (n * k), ← Nat.add_assoc]
      exact ih hrest hk

end ByteMemory
