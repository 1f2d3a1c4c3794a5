import R2DTU.Library.ByteMemory

/-!
# Messages as bytes

A message is one block of memory: a header of 8 bytes, the bytes of a struct, and after them the
strings and blobs of its `MsgText` and `MsgBlob` fields. Such a field is a 64-bit word with the
length in the upper half and, in the lower half, the **distance from the field itself** to its
block, so that a message can be copied to any address.

The struct is known here by its size and its bytes; a field is its position in the struct. Addresses
are natural numbers. `MessageBuilder` keeps pointers to strings and blobs and reads them when it
packs, so `pack` takes the memory they are in, together with the address `malloc` returns.
-/

namespace Middleware

/-- `sizeof(MessageHeader)`: the size and the channel in front of a message. -/
def headerSize : ℕ := 8

/-- `MSG_OFFSET_MASK`: the half of a field with the distance to its bytes. -/
def msgOffsetMask : ℕ := 0x00000000FFFFFFFF

/-- `MSG_LEN_MASK`: the half of a field with the number of its bytes. -/
def msgLenMask : ℕ := 0xFFFFFFFF00000000

/-- `MSG_LEN_SHIFT`: how far up in a field the number of bytes is. -/
def msgLenShift : ℕ := 32

/-- A pointer and the number of bytes it stands for. -/
structure Slice where
  /-- The address of the first byte. -/
  start : ℕ
  /-- The number of bytes. -/
  size : ℕ
  deriving DecidableEq

namespace Messages

/-- `content_offset`: where a place behind the header is in memory. -/
def contentOffset (header offset : ℕ) : ℕ := header + (headerSize + offset)

/-- `alloc`, with what `malloc` returns. The size is truncated twice: in the parameter and in the
header. -/
def alloc (mem : ByteMemory) (header msgSize : ℕ) : ByteMemory :=
  (mem.writeWord 4 header ((headerSize + msgSize % 2 ^ 32) % 2 ^ 32)).writeWord 4 (header + 4) 0

/-- `header->size`. -/
def sizeOf (mem : ByteMemory) (header : ℕ) : ℕ := mem.readWord 4 header

/-- Where a field points to, and its length. -/
def target (mem : ByteMemory) (field : ℕ) : Slice :=
  ⟨field + (mem.readWord 8 field &&& msgOffsetMask),
    (mem.readWord 8 field &&& msgLenMask) >>> msgLenShift⟩

/-- `read_string`: the length counts a terminator, which is left out. -/
def readString (mem : ByteMemory) (str : ℕ) : List UInt8 :=
  mem.read (target mem str).start (((target mem str).size + 2 ^ 64 - 1) % 2 ^ 64)

/-- `access_blob`: the bytes of a blob, where they are. The size is an `uint32_t`. -/
def accessBlob (mem : ByteMemory) (blob : ℕ) : Slice :=
  ⟨(target mem blob).start, (target mem blob).size % 2 ^ 32⟩

end Messages

/-- `MessageBuilder`: the struct, its size, the blocks and where the next one goes. -/
structure MessageBuilder where
  /-- The bytes of the struct, with the fields written so far. -/
  msg : ByteMemory
  /-- The size of the struct. -/
  msgSize : ℕ
  /-- Where the contents of the fields are, until `pack` copies them. -/
  blocks : List Slice
  /-- Where the next block goes, behind the struct and the blocks before. -/
  offset : ℕ

namespace MessageBuilder

/-- `MAX_BLOCKS`: how many strings and blobs a message may have. -/
def maxBlocks : ℕ := 16

/-- The constructor, for a struct of the given size whose bytes are `msg`. -/
def new (msg : ByteMemory) (msgSize : ℕ) : MessageBuilder := ⟨msg, msgSize, [], msgSize⟩

/-- What `write_string` and `write_blob` have in common; `none` when the assertion aborts. -/
def writeBlock (b : MessageBuilder) (ptr : ℕ) (block : Slice) : Option MessageBuilder :=
  if b.blocks.length < maxBlocks then
    let distance := (b.offset + 2 ^ 64 - ptr) % 2 ^ 64
    some
      { b with
        msg := b.msg.writeWord 8 ptr ((block.size <<< msgLenShift) % 2 ^ 64 ||| distance)
        blocks := b.blocks ++ [block]
        offset := (b.offset + block.size) % 2 ^ 64 }
  else none

/-- `write_string`: the block ends with the terminator of `c_str()`. -/
def writeString (b : MessageBuilder) (ptr : ℕ) (str : Slice) : Option MessageBuilder :=
  b.writeBlock ptr ⟨str.start, str.size + 1⟩

/-- `write_blob`: a blob is a block as it is. -/
def writeBlob (b : MessageBuilder) (ptr : ℕ) (blob : Slice) : Option MessageBuilder :=
  b.writeBlock ptr blob

/-- The loop of `pack`: blocks are copied one after the other. -/
def copyBlocks (header : ℕ) : List Slice → ℕ → ByteMemory → ByteMemory
  | [], _, mem => mem
  | block :: blocks, counter, mem =>
    copyBlocks header blocks ((counter + block.size) % 2 ^ 64)
      (mem.write (Messages.contentOffset header counter) (mem.read block.start block.size))

/-- `pack`: the memory after it, with the message at `header`. -/
def pack (b : MessageBuilder) (mem : ByteMemory) (header : ℕ) : ByteMemory :=
  copyBlocks header b.blocks b.msgSize
    ((Messages.alloc mem header b.offset).write (Messages.contentOffset header 0)
      (b.msg.read 0 b.msgSize))

end MessageBuilder

end Middleware
