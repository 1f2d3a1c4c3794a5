import R2DTU.Middleware.Message

/-!
# What is written into a message is read from every copy of it

The `k`-th block lies behind the struct and the blocks before it. Two counters say so: `offset_`,
from which the distance in the field is computed when the block is registered (`Built`), and the
counter of the loop in `pack`, which decides where the block goes (`copyBlocks_spec`). Both are the
sum of the sizes so far as long as the whole message stays below 4 GiB, which also keeps lengths and
distances within their halves of the word (`target_fieldWord`).

Everything a reader looks at is at a distance from the field, so that a copy of the bytes reads as
the original does.

A builder keeps pointers and `pack` is what reads the contents, so a reader gets the bytes that are
at the pointer then. They are what was written exactly if the contents are still there
(`message_roundTrip_iff`): a `std::string` made from a literal for the call is gone by then.
-/

namespace Middleware

/-! ### The word of a field -/

/-- The word for a block of the given length at the given distance. -/
def fieldWord (len distance : ℕ) : ℕ := (len <<< msgLenShift) % 2 ^ 64 ||| distance

section FieldWord

variable {len distance : ℕ}

theorem fieldWord_eq (hlen : len < 2 ^ 32) (hd : distance < 2 ^ 32) :
    fieldWord len distance = 2 ^ 32 * len + distance := by
  have hshift : (len <<< msgLenShift) % 2 ^ 64 = 2 ^ 32 * len := by
    rw [msgLenShift, Nat.shiftLeft_eq, Nat.mul_comm]
    exact Nat.mod_eq_of_lt (by omega)
  rw [fieldWord, hshift, Nat.two_pow_add_eq_or_of_lt hd]

theorem fieldWord_lt (hlen : len < 2 ^ 32) (hd : distance < 2 ^ 32) :
    fieldWord len distance < 256 ^ 8 := by
  rw [fieldWord_eq hlen hd]
  omega

theorem fieldWord_and_offsetMask (hlen : len < 2 ^ 32) (hd : distance < 2 ^ 32) :
    fieldWord len distance &&& msgOffsetMask = distance := by
  rw [show msgOffsetMask = 2 ^ 32 - 1 from rfl, Nat.and_two_pow_sub_one_eq_mod,
    fieldWord_eq hlen hd, Nat.mul_add_mod, Nat.mod_eq_of_lt hd]

theorem fieldWord_and_lenMask (hlen : len < 2 ^ 32) (hd : distance < 2 ^ 32) :
    (fieldWord len distance &&& msgLenMask) >>> msgLenShift = len := by
  rw [Nat.shiftRight_and_distrib, show msgLenMask >>> msgLenShift = 2 ^ 32 - 1 from rfl,
    Nat.and_two_pow_sub_one_eq_mod, fieldWord_eq hlen hd, msgLenShift, Nat.shiftRight_eq_div_pow,
    Nat.mul_add_div (by decide), Nat.div_eq_of_lt hd, Nat.add_zero, Nat.mod_eq_of_lt hlen]

/-- **A field finds its block.** -/
theorem target_fieldWord {mem : ByteMemory} {field : ℕ} (hlen : len < 2 ^ 32)
    (hd : distance < 2 ^ 32) (hword : mem.readWord 8 field = fieldWord len distance) :
    Messages.target mem field = ⟨field + distance, len⟩ := by
  rw [Messages.target, hword, fieldWord_and_offsetMask hlen hd, fieldWord_and_lenMask hlen hd]

end FieldWord

/-! ### Calls -/

/-- Whether a call is one of `write_string` or of `write_blob`. -/
inductive FieldKind
  | text
  | blob
  deriving DecidableEq

/-- A call: the field, the address of the contents, and the contents. -/
structure Write where
  /-- Whether a string or a blob is written. -/
  kind : FieldKind
  /-- Where the field is in the struct. -/
  field : ℕ
  /-- The address that is passed. -/
  start : ℕ
  /-- What is at that address when it is passed. -/
  bytes : List UInt8

namespace Write

/-- The call on a builder. -/
def call (w : Write) (b : MessageBuilder) : Option MessageBuilder :=
  match w.kind with
  | .text => b.writeString w.field ⟨w.start, w.bytes.length⟩
  | .blob => b.writeBlob w.field ⟨w.start, w.bytes.length⟩

/-- The bytes of the block: those of a string end with a zero byte. -/
def stored (w : Write) : List UInt8 :=
  match w.kind with
  | .text => w.bytes ++ [0]
  | .blob => w.bytes

/-- The block. -/
def block (w : Write) : Slice := ⟨w.start, w.stored.length⟩

/-- The contents are at the address that was passed. -/
def Holds (w : Write) (mem : ByteMemory) : Prop := mem.read w.start w.bytes.length = w.bytes

instance (w : Write) (mem : ByteMemory) : Decidable (w.Holds mem) :=
  inferInstanceAs (Decidable (mem.read w.start w.bytes.length = w.bytes))

/-- What a reader of the field at an address gets. -/
def readBack (w : Write) (mem : ByteMemory) (field : ℕ) : List UInt8 :=
  match w.kind with
  | .text => Messages.readString mem field
  | .blob => mem.read (Messages.accessBlob mem field).start (Messages.accessBlob mem field).size

theorem call_eq (w : Write) (b : MessageBuilder) : w.call b = b.writeBlock w.field w.block := by
  rcases w with ⟨kind, field, start, bytes⟩
  cases kind with
  | text =>
    show b.writeBlock field ⟨start, bytes.length + 1⟩ = b.writeBlock field _
    rw [block, stored, List.length_append, List.length_singleton]
  | blob => rfl

theorem length_bytes_le (w : Write) : w.bytes.length ≤ w.stored.length := by
  rcases w with ⟨kind, field, start, bytes⟩
  cases kind with
  | text =>
    show bytes.length ≤ (bytes ++ [0]).length
    rw [List.length_append]
    omega
  | blob => exact le_rfl

/-- **Reading a field** gives the bytes of its block, but for the terminator of a string. -/
theorem readBack_eq {w : Write} {mem : ByteMemory} {field start : ℕ}
    (htarget : Messages.target mem field = ⟨start, w.stored.length⟩)
    (hlen : w.stored.length < 2 ^ 32) : w.readBack mem field = mem.read start w.bytes.length := by
  rcases w with ⟨kind, f, a, bytes⟩
  cases kind with
  | text =>
    have hstored : (Write.mk .text f a bytes).stored.length = bytes.length + 1 := by
      rw [stored, List.length_append, List.length_singleton]
    rw [hstored] at htarget hlen
    show mem.read (Messages.target mem field).start _ = mem.read start bytes.length
    rw [htarget, show (bytes.length + 1 + 2 ^ 64 - 1) % 2 ^ 64 = bytes.length by omega]
  | blob =>
    show mem.read (Messages.target mem field).start ((Messages.target mem field).size % 2 ^ 32) =
      mem.read start bytes.length
    rw [htarget, Nat.mod_eq_of_lt hlen]
    rfl

end Write

/-- The bytes of all blocks. -/
def blockBytes (ws : List Write) : ℕ := (ws.map fun w ↦ w.stored.length).sum

theorem blockBytes_append (ws vs : List Write) :
    blockBytes (ws ++ vs) = blockBytes ws + blockBytes vs := by
  rw [blockBytes, List.map_append, List.sum_append]
  rfl

theorem blockBytes_singleton (w : Write) : blockBytes [w] = w.stored.length :=
  List.sum_singleton

/-- A block lies within all blocks. -/
theorem blockBytes_take_add_le {ws : List Write} {k : ℕ} {w : Write} (h : ws[k]? = some w) :
    blockBytes (ws.take k) + w.stored.length ≤ blockBytes ws := by
  have hsplit : blockBytes (ws.take k) + blockBytes (ws.drop k) = blockBytes ws := by
    rw [← blockBytes_append, List.take_append_drop]
  obtain ⟨hk, rfl⟩ := List.getElem?_eq_some_iff.1 h
  rw [List.drop_eq_getElem_cons hk] at hsplit
  rw [← hsplit, ← List.singleton_append, blockBytes_append, blockBytes_singleton]
  omega

/-! ### Registering blocks -/

namespace MessageBuilder

open ByteMemory

/-- **The builder after some calls**, for a struct with the given bytes. -/
structure Built (msg : ByteMemory) (size : ℕ) (ws : List Write) (b : MessageBuilder) : Prop where
  msgSize_eq : b.msgSize = size
  /-- There is a block for each call. -/
  blocks_eq : b.blocks = ws.map Write.block
  /-- The next one goes behind all of them. -/
  offset_eq : b.offset = size + blockBytes ws
  /-- A field has the distance to its block, and its length. -/
  word {k : ℕ} {w : Write} : ws[k]? = some w →
    b.msg.readWord 8 w.field = fieldWord w.stored.length (size + blockBytes (ws.take k) - w.field)
  /-- The other bytes of the struct are as they were. -/
  other {i : ℕ} : (∀ w ∈ ws, i < w.field ∨ w.field + 8 ≤ i) → b.msg i = msg i

variable {msg : ByteMemory} {size : ℕ} {ws : List Write} {b : MessageBuilder}

theorem built_new (msg : ByteMemory) (size : ℕ) : Built msg size [] (new msg size) where
  msgSize_eq := rfl
  blocks_eq := rfl
  offset_eq := rfl
  word := fun hk ↦ absurd hk (by simp)
  other := fun _ ↦ rfl

/-- **One call** to a field that is apart from the earlier ones. -/
theorem Built.call (h : Built msg size ws b) {w : Write} (hfield : w.field + 8 ≤ size)
    (hapart : ∀ v ∈ ws, Apart v.field 8 w.field 8) (hcount : ws.length < maxBlocks)
    (hsize : size + blockBytes (ws ++ [w]) < 2 ^ 32) :
    ∃ b', w.call b = some b' ∧ Built msg size (ws ++ [w]) b' := by
  have hbytes : blockBytes (ws ++ [w]) = blockBytes ws + w.stored.length := by
    rw [blockBytes_append, blockBytes_singleton]
  -- the field lies before the block, so the subtraction of addresses does not wrap
  have hdist : (b.offset + 2 ^ 64 - w.field) % 2 ^ 64 = size + blockBytes ws - w.field := by
    rw [h.offset_eq]
    omega
  have hguard : b.blocks.length < maxBlocks := by
    rw [h.blocks_eq, List.length_map]
    exact hcount
  refine ⟨_, by rw [Write.call_eq, writeBlock, if_pos hguard, hdist], ?_⟩
  refine ⟨h.msgSize_eq, ?_, ?_, fun {k v} hk ↦ ?_, fun {i} hi ↦ ?_⟩
  · rw [h.blocks_eq, List.map_append, List.map_singleton]
  · show (b.offset + w.stored.length) % 2 ^ 64 = size + blockBytes (ws ++ [w])
    rw [h.offset_eq, hbytes]
    omega
  · show (b.msg.writeWord 8 w.field (fieldWord w.stored.length _)).readWord 8 v.field = _
    rcases Nat.lt_or_ge k ws.length with hlt | hge
    · -- an earlier field keeps its word
      rw [List.getElem?_append_left hlt] at hk
      rw [readWord, read_writeWord_of_apart (hapart v (List.mem_of_getElem? hk)),
        List.take_append_of_le_length hlt.le]
      exact h.word hk
    · obtain ⟨rfl, rfl⟩ : k = ws.length ∧ w = v := by
        rw [List.getElem?_append_right hge] at hk
        obtain ⟨hlen, hget⟩ := List.getElem?_eq_some_iff.1 hk
        rw [List.length_singleton] at hlen
        refine ⟨by omega, ?_⟩
        rw [← hget, List.getElem_singleton]
      rw [List.take_left]
      exact readWord_writeWord _ _ (fieldWord_lt (by omega) (by omega))
  · rw [← h.other fun v hv ↦ hi v (List.mem_append_left _ hv)]
    refine write_of_outside ?_
    rw [length_littleEndian]
    exact hi w (List.mem_append_right _ (List.mem_singleton_self w))

/-- **All calls.** -/
theorem Built.foldlM (h : Built msg size ws b) {vs : List Write}
    (hfield : ∀ w ∈ vs, w.field + 8 ≤ size)
    (hapart : (ws ++ vs).Pairwise fun w v ↦ Apart w.field 8 v.field 8)
    (hcount : (ws ++ vs).length ≤ maxBlocks) (hsize : size + blockBytes (ws ++ vs) < 2 ^ 32) :
    ∃ b', vs.foldlM (fun b w ↦ w.call b) b = some b' ∧ Built msg size (ws ++ vs) b' := by
  induction vs generalizing ws b with
  | nil => exact ⟨b, rfl, by rwa [List.append_nil]⟩
  | cons w vs ih =>
    rw [← List.singleton_append, ← List.append_assoc] at hapart hcount hsize ⊢
    have hprefix : ((ws ++ [w]).Pairwise fun w v ↦ Apart w.field 8 v.field 8) :=
      hapart.sublist (List.sublist_append_left _ _)
    have hlen : (ws ++ [w]).length ≤ maxBlocks :=
      (List.sublist_append_left _ _).length_le.trans hcount
    have hle : blockBytes (ws ++ [w]) ≤ blockBytes (ws ++ [w] ++ vs) := by
      rw [blockBytes_append _ vs]
      omega
    obtain ⟨b', hcall, hb'⟩ := h.call (hfield w List.mem_cons_self)
      (fun v hv ↦ (List.pairwise_append.1 hprefix).2.2 v hv w (List.mem_singleton_self w))
      (by rwa [List.length_append, List.length_singleton] at hlen) (by omega)
    obtain ⟨b'', hrest, hb''⟩ := ih hb' (fun v hv ↦ hfield v (List.mem_cons_of_mem _ hv)) hapart
      hcount hsize
    refine ⟨b'', ?_, hb''⟩
    rw [List.singleton_append, List.foldlM_cons, hcall]
    exact hrest

/-! ### Packing -/

/-- The sizes of some blocks together. -/
def bytesOf (blocks : List Slice) : ℕ := (blocks.map Slice.size).sum

/-- **The loop of `pack`** puts each block behind the earlier ones and leaves everything else
alone. -/
theorem copyBlocks_spec (header : ℕ) (blocks : List Slice) {counter : ℕ} {mem : ByteMemory}
    (hsize : counter + bytesOf blocks < 2 ^ 64)
    (hapart : ∀ block ∈ blocks, Apart block.start block.size
      (Messages.contentOffset header counter) (bytesOf blocks)) :
    (∀ x n, Apart x n (Messages.contentOffset header counter) (bytesOf blocks) →
      (copyBlocks header blocks counter mem).read x n = mem.read x n) ∧
    ∀ k block, blocks[k]? = some block →
      (copyBlocks header blocks counter mem).read
          (Messages.contentOffset header (counter + bytesOf (blocks.take k))) block.size =
        mem.read block.start block.size := by
  induction blocks generalizing counter mem with
  | nil => exact ⟨fun _ _ _ ↦ rfl, fun k block hk ↦ absurd hk (by simp)⟩
  | cons first blocks ih =>
    have hbytes : bytesOf (first :: blocks) = first.size + bytesOf blocks := List.sum_cons
    have hmod : (counter + first.size) % 2 ^ 64 = counter + first.size :=
      Nat.mod_eq_of_lt (by omega)
    set mem' := mem.write (Messages.contentOffset header counter)
      (mem.read first.start first.size) with hmem'
    have hkeep : ∀ x n, Apart x n (Messages.contentOffset header counter) first.size →
        mem'.read x n = mem.read x n := fun _ _ ↦ read_copy_of_apart
    -- what is apart from all blocks is apart from the first one and from the others
    have hrest : ∀ x n, Apart x n (Messages.contentOffset header counter)
        (bytesOf (first :: blocks)) → Apart x n (Messages.contentOffset header counter) first.size ∧
          Apart x n (Messages.contentOffset header (counter + first.size)) (bytesOf blocks) := by
      intro x n hx
      rw [hbytes] at hx
      simp only [Apart, Messages.contentOffset] at hx ⊢
      omega
    have hcopy : copyBlocks header (first :: blocks) counter mem =
        copyBlocks header blocks (counter + first.size) mem' := by
      rw [copyBlocks, hmod]
    obtain ⟨ihkeep, ihblock⟩ := @ih (counter + first.size) mem' (by omega) fun block hb ↦
      (hrest _ _ (hapart block (List.mem_cons_of_mem _ hb))).2
    rw [hcopy]
    refine ⟨fun x n hx ↦ ?_, fun k block hk ↦ ?_⟩
    · rw [ihkeep x n (hrest x n hx).2, hkeep x n (hrest x n hx).1]
    · cases k with
      | zero =>
        obtain rfl : first = block := Option.some.inj hk
        rw [List.take_zero, show bytesOf [] = 0 from rfl, Nat.add_zero, ihkeep]
        · exact ByteMemory.read_copy _ _ _ _ _
        · simp only [Apart, Messages.contentOffset]
          omega
      | succ k =>
        rw [List.getElem?_cons_succ] at hk
        have htake : counter + bytesOf ((first :: blocks).take (k + 1)) =
            counter + first.size + bytesOf (blocks.take k) := by
          rw [List.take_succ_cons, Nat.add_assoc]
          rfl
        have hmem := List.mem_cons_of_mem first (List.mem_of_getElem? hk)
        rw [htake, ihblock k block hk, hkeep _ _ (hrest _ _ (hapart block hmem)).1]

theorem bytesOf_map_block (ws : List Write) : bytesOf (ws.map Write.block) = blockBytes ws := by
  rw [bytesOf, blockBytes, List.map_map]
  rfl

variable {mem : ByteMemory} {header : ℕ}

/-- **The parts of a packed message**: the size, the struct and the blocks. -/
theorem Built.pack (h : Built msg size ws b) (hsize : headerSize + size + blockBytes ws < 2 ^ 32)
    (hmalloc : ∀ w ∈ ws,
      Apart w.start w.stored.length header (headerSize + size + blockBytes ws)) :
    Messages.sizeOf (b.pack mem header) header = headerSize + size + blockBytes ws ∧
      (b.pack mem header).read (Messages.contentOffset header 0) size = b.msg.read 0 size ∧
      ∀ k w, ws[k]? = some w →
        (b.pack mem header).read (Messages.contentOffset header (size + blockBytes (ws.take k)))
          w.stored.length = mem.read w.start w.stored.length := by
  have hheader : headerSize = 8 := rfl
  set mem₁ := Messages.alloc mem header b.offset with hmem₁
  set mem₂ := mem₁.write (Messages.contentOffset header 0) (b.msg.read 0 size) with hmem₂
  have hpack : b.pack mem header = copyBlocks header (ws.map Write.block) size mem₂ := by
    rw [MessageBuilder.pack, h.blocks_eq, h.msgSize_eq]
  have halloc : ∀ x n, Apart x n header headerSize → mem₁.read x n = mem.read x n := by
    intro x n hx
    rw [hmem₁, Messages.alloc, read_writeWord_of_apart, read_writeWord_of_apart]
    all_goals
      simp only [Apart] at hx ⊢
      omega
  have hstruct : ∀ x n, Apart x n (Messages.contentOffset header 0) size →
      mem₂.read x n = mem₁.read x n := fun _ _ ↦ read_copy_of_apart
  -- the blocks are outside the new message, so copying does not change them
  have hsource : ∀ w ∈ ws,
      mem₂.read w.start w.stored.length = mem.read w.start w.stored.length := by
    intro w hw
    have hm := hmalloc w hw
    rw [hstruct, halloc]
    all_goals
      simp only [Apart, Messages.contentOffset] at hm ⊢
      omega
  obtain ⟨hkeep, hblock⟩ := @copyBlocks_spec header (ws.map Write.block) size mem₂
    (by rw [bytesOf_map_block]; omega) (by
      intro block hb
      obtain ⟨w, hw, rfl⟩ := List.mem_map.1 hb
      have hm := hmalloc w hw
      rw [bytesOf_map_block]
      simp only [Apart, Messages.contentOffset, Write.block] at hm ⊢
      omega)
  rw [bytesOf_map_block] at hkeep
  rw [hpack]
  refine ⟨?_, ?_, fun k w hk ↦ ?_⟩
  · have hword : (headerSize + b.offset % 2 ^ 32) % 2 ^ 32 = headerSize + size + blockBytes ws := by
      rw [h.offset_eq]
      omega
    rw [Messages.sizeOf, readWord, hkeep, hstruct, hmem₁, Messages.alloc,
      read_writeWord_of_apart, ← readWord, hword]
    · exact readWord_writeWord _ _ (by omega)
    all_goals
      simp only [Apart, Messages.contentOffset]
      omega
  · rw [hkeep]
    · exact ByteMemory.read_copy _ _ _ _ _
    · simp only [Apart, Messages.contentOffset]
      omega
  · have hk' : (ws.map Write.block)[k]? = some w.block := by rw [List.getElem?_map, hk]; rfl
    have hread := hblock k w.block hk'
    rw [← List.map_take, bytesOf_map_block] at hread
    exact hread.trans (hsource w (List.mem_of_getElem? hk))

end MessageBuilder

/-! ### Reading a copy -/

theorem contentOffset_zero_add (header k : ℕ) :
    Messages.contentOffset header 0 + k = Messages.contentOffset header k := by
  simp only [Messages.contentOffset]
  omega

open ByteMemory MessageBuilder

/-- **Where a field leads.** Behind a copy of the struct, each field that was written finds the
place its block was given. -/
theorem MessageBuilder.Built.target_eq {msg mem : ByteMemory} {size header k : ℕ} {ws : List Write}
    {b : MessageBuilder} {w : Write} (h : Built msg size ws b) (hk : ws[k]? = some w)
    (hfield : w.field + 8 ≤ size) (hsize : headerSize + size + blockBytes ws < 2 ^ 32)
    (hstruct : mem.read (Messages.contentOffset header 0) size = b.msg.read 0 size) :
    Messages.target mem (Messages.contentOffset header w.field) =
      ⟨Messages.contentOffset header (size + blockBytes (ws.take k)), w.stored.length⟩ := by
  have hle := blockBytes_take_add_le hk
  have hword : mem.readWord 8 (Messages.contentOffset header w.field) =
      fieldWord w.stored.length (size + blockBytes (ws.take k) - w.field) := by
    have hread := read_eq_of_read_eq hstruct hfield
    rw [contentOffset_zero_add, Nat.zero_add] at hread
    rw [← h.word hk, readWord, readWord, hread]
  have hstart : Messages.contentOffset header w.field +
      (size + blockBytes (ws.take k) - w.field) =
        Messages.contentOffset header (size + blockBytes (ws.take k)) := by
    simp only [Messages.contentOffset]
    omega
  rw [target_fieldWord (by omega) (by omega) hword, hstart]

/-- **Reading a copy of a packed message**: each field that was written reads what was at the
address of its contents when the message was packed. -/
theorem MessageBuilder.Built.read_copy {msg mem mem' : ByteMemory} {size header header' : ℕ}
    {ws : List Write} {b : MessageBuilder} (h : Built msg size ws b)
    (hfield : ∀ w ∈ ws, w.field + 8 ≤ size)
    (hsize : headerSize + size + blockBytes ws < 2 ^ 32)
    (hmalloc : ∀ w ∈ ws,
      Apart w.start w.stored.length header (headerSize + size + blockBytes ws))
    (hcopy : mem'.read header' (Messages.sizeOf (b.pack mem header) header) =
      (b.pack mem header).read header (Messages.sizeOf (b.pack mem header) header)) :
    (∀ w ∈ ws,
      let field := Messages.contentOffset header' w.field
      w.readBack mem' field = mem.read w.start w.bytes.length ∧
        Messages.contentOffset header' size ≤ (Messages.target mem' field).start ∧
        (Messages.target mem' field).start + (Messages.target mem' field).size ≤
          header' + Messages.sizeOf mem' header') ∧
    ∀ i < size, (∀ w ∈ ws, i < w.field ∨ w.field + 8 ≤ i) →
      mem' (Messages.contentOffset header' i) = msg i := by
  have hheader : headerSize = 8 := rfl
  obtain ⟨hsizeOf, hstruct, hblock⟩ := h.pack hsize hmalloc
  rw [hsizeOf] at hcopy
  -- every part of the message is read from the copy as from the original
  have hpart : ∀ k n, headerSize + k + n ≤ headerSize + size + blockBytes ws →
      mem'.read (Messages.contentOffset header' k) n =
        (b.pack mem header).read (Messages.contentOffset header k) n := fun k n hk ↦
    read_eq_of_read_eq hcopy hk
  have hstruct' : mem'.read (Messages.contentOffset header' 0) size = b.msg.read 0 size :=
    (hpart 0 size (by omega)).trans hstruct
  refine ⟨fun w hw ↦ ?_, fun i hi hother ↦ ?_⟩
  · obtain ⟨k, hk⟩ := List.mem_iff_getElem?.1 hw
    have hf := hfield w hw
    have hle := blockBytes_take_add_le hk
    have htarget := h.target_eq hk hf hsize hstruct'
    have hsize' : Messages.sizeOf mem' header' = headerSize + size + blockBytes ws := by
      have hread := @read_eq_of_read_eq _ _ _ _ _ 0 4 hcopy (by omega)
      rw [Nat.add_zero, Nat.add_zero] at hread
      rw [← hsizeOf, Messages.sizeOf, Messages.sizeOf, readWord, readWord, hread]
    have hbytes := w.length_bytes_le
    have hcontents := @read_eq_of_read_eq _ _ _ _ _ 0 w.bytes.length (hblock k w hk) (by omega)
    rw [Nat.add_zero, Nat.add_zero] at hcontents
    refine ⟨?_, ?_, ?_⟩
    · rw [Write.readBack_eq htarget (by omega), hpart _ _ (by omega), hcontents]
    · rw [htarget]
      simp only [Messages.contentOffset]
      omega
    · rw [htarget, hsize']
      simp only [Messages.contentOffset]
      omega
  · have hbyte := apply_eq_of_read_eq hstruct' hi
    rwa [contentOffset_zero_add, Nat.zero_add, h.other hother] at hbyte

/-- **The encoding round-trips**: the calls succeed, the header has the size of the message, and in
every copy of its bytes each field that was written reads back what was written, from behind the
struct and within the message, and every byte of the struct outside these fields is as it was. `mem`
is the memory when `pack` runs. -/
def RoundTrips (msg : ByteMemory) (size : ℕ) (ws : List Write) (mem : ByteMemory) (header : ℕ) :
    Prop :=
  ∃ b, ws.foldlM (fun b w ↦ w.call b) (MessageBuilder.new msg size) = some b ∧
    Messages.sizeOf (b.pack mem header) header = headerSize + size + blockBytes ws ∧
    ∀ mem' header', mem'.read header' (Messages.sizeOf (b.pack mem header) header) =
        (b.pack mem header).read header (Messages.sizeOf (b.pack mem header) header) →
      (∀ w ∈ ws,
        let field := Messages.contentOffset header' w.field
        w.readBack mem' field = w.bytes ∧
          Messages.contentOffset header' size ≤ (Messages.target mem' field).start ∧
          (Messages.target mem' field).start + (Messages.target mem' field).size ≤
            header' + Messages.sizeOf mem' header') ∧
      ∀ i < size, (∀ w ∈ ws, i < w.field ∨ w.field + 8 ≤ i) →
        mem' (Messages.contentOffset header' i) = msg i

section RoundTrips

variable {msg mem : ByteMemory} {size header : ℕ} {ws : List Write}

/-- The builder after all calls. -/
theorem exists_built (hfield : ∀ w ∈ ws, w.field + 8 ≤ size)
    (hapart : ws.Pairwise fun w v ↦ Apart w.field 8 v.field 8) (hcount : ws.length ≤ maxBlocks)
    (hsize : headerSize + size + blockBytes ws < 2 ^ 32) :
    ∃ b, ws.foldlM (fun b w ↦ w.call b) (MessageBuilder.new msg size) = some b ∧
      Built msg size ws b := by
  have hb := (built_new msg size).foldlM hfield hapart hcount (by rw [List.nil_append]; omega)
  rwa [List.nil_append] at hb

/-- What reads back was there when the message was packed. -/
theorem RoundTrips.holds (h : RoundTrips msg size ws mem header)
    (hfield : ∀ w ∈ ws, w.field + 8 ≤ size)
    (hapart : ws.Pairwise fun w v ↦ Apart w.field 8 v.field 8) (hcount : ws.length ≤ maxBlocks)
    (hsize : headerSize + size + blockBytes ws < 2 ^ 32)
    (hmalloc : ∀ w ∈ ws,
      Apart w.start w.stored.length header (headerSize + size + blockBytes ws)) :
    ∀ w ∈ ws, w.Holds mem := by
  obtain ⟨b, hcalls, hb⟩ := @exists_built msg size ws hfield hapart hcount hsize
  obtain ⟨b', hcalls', -, hcopy⟩ := h
  obtain rfl := Option.some.inj (hcalls.symm.trans hcalls')
  have hitself : (b.pack mem header).read header (Messages.sizeOf (b.pack mem header) header) =
      (b.pack mem header).read header (Messages.sizeOf (b.pack mem header) header) := rfl
  intro w hw
  have hthere := ((hb.read_copy hfield hsize hmalloc hitself).1 w hw).1
  exact hthere.symm.trans ((hcopy _ _ hitself).1 w hw).1

/-- **When the encoding round-trips.** After at most 16 calls to fields that share no bytes, for a
message below 4 GiB, it does exactly if the contents of every call are still where they were when
`pack` runs. `malloc` returns memory apart from them. -/
theorem message_roundTrip_iff (hfield : ∀ w ∈ ws, w.field + 8 ≤ size)
    (hapart : ws.Pairwise fun w v ↦ Apart w.field 8 v.field 8) (hcount : ws.length ≤ maxBlocks)
    (hsize : headerSize + size + blockBytes ws < 2 ^ 32)
    (hmalloc : ∀ w ∈ ws,
      Apart w.start w.stored.length header (headerSize + size + blockBytes ws)) :
    RoundTrips msg size ws mem header ↔ ∀ w ∈ ws, w.Holds mem := by
  refine ⟨fun h ↦ h.holds hfield hapart hcount hsize hmalloc, fun hholds ↦ ?_⟩
  obtain ⟨b, hcalls, hb⟩ := @exists_built msg size ws hfield hapart hcount hsize
  refine ⟨b, hcalls, (hb.pack hsize hmalloc).1, fun mem' header' hcopy ↦ ?_⟩
  obtain ⟨hread, hother⟩ := hb.read_copy hfield hsize hmalloc hcopy
  refine ⟨fun w hw ↦ ?_, hother⟩
  obtain ⟨hback, hinside⟩ := hread w hw
  exact ⟨hback.trans (hholds w hw), hinside⟩

end RoundTrips

/-- A string with a zero byte in it, a blob and an empty blob, for a struct of 32 bytes whose bytes
16 to 23 are not a field. -/
def greeting : List Write :=
  [⟨.text, 24, 100, [104, 0, 105]⟩, ⟨.blob, 0, 200, [7, 8]⟩, ⟨.blob, 8, 0, []⟩]

/-- The memory the contents of `greeting` are in. -/
def greetingMemory : ByteMemory :=
  ByteMemory.write (ByteMemory.write (fun _ ↦ 255) 100 [104, 0, 105, 0]) 200 [7, 8]

theorem message_roundTrip_iff_greeting :
    RoundTrips (fun _ ↦ 42) 32 greeting greetingMemory 1000 :=
  (message_roundTrip_iff (by decide) (by decide) (by decide) (by decide) (by decide)).2 (by decide)

/-- The message of `Robot::hear`: the string of the first call is made from the literal `hear:` and
destroyed when the call returns. -/
def hear : List Write := [⟨.text, 0, 100, [104, 101, 97, 114, 58]⟩, ⟨.text, 8, 200, [104, 105]⟩]

/-- The memory when it is packed: something else is where the first string was. -/
def hearMemory : ByteMemory := ByteMemory.write (fun _ ↦ 255) 200 [104, 105, 0]

/-- **A message that does not round-trip.** -/
theorem not_roundTrips_hear : ¬ RoundTrips (fun _ ↦ 0) 16 hear hearMemory 1000 := fun h ↦
  absurd (h.holds (by decide) (by decide) (by decide) (by decide) (by decide)) (by decide)

end Middleware
