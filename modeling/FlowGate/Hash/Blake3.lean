import FlowGate.Hash.Digest

/-!
# BLAKE3

The unkeyed BLAKE3 hash with an output of 32 bytes. A message is cut into chunks of 1024 bytes; the
chunks are the leaves of a binary tree whose left subtrees are complete, and every chunk is a chain
of blocks of 64 bytes.

## Main definitions

* `Blake3.compress` — the compression function, cut to eight words
* `Blake3.chunk` — the chaining value of a chunk
* `Blake3.subtree` — the chaining value of a run of chunks
* `Blake3.hash` — the digest of a message
-/

namespace FlowGate.Blake3

/-- A chaining value: eight words. -/
structure Chain where
  (c₀ c₁ c₂ c₃ c₄ c₅ c₆ c₇ : UInt32)

/-- A message block or a working state: sixteen words. -/
structure Block where
  (w₀ w₁ w₂ w₃ w₄ w₅ w₆ w₇ w₈ w₉ w₁₀ w₁₁ w₁₂ w₁₃ w₁₄ w₁₅ : UInt32)

/-- Four words of the state that are mixed together. -/
structure Lane where
  (a b c d : UInt32)

/-- The chaining value from which every chunk and every parent starts. -/
def initial : Chain :=
  ⟨0x6a09e667, 0xbb67ae85, 0x3c6ef372, 0xa54ff53a, 0x510e527f, 0x9b05688c, 0x1f83d9ab, 0x5be0cd19⟩

/-- Marks the first block of a chunk. -/
def chunkStart : UInt32 := 1

/-- Marks the last block of a chunk. -/
def chunkEnd : UInt32 := 2

/-- Marks a block that joins two chaining values. -/
def parentFlag : UInt32 := 4

/-- Marks the block whose output is the digest. -/
def rootFlag : UInt32 := 8

/-- Rotates a word to the right. -/
@[inline] def rotate (x n : UInt32) : UInt32 := (x >>> n) ||| (x <<< (32 - n))

/-- Mixes two message words into four words of the state. -/
@[inline] def mix (a b c d x y : UInt32) : Lane :=
  let a := a + b + x
  let d := rotate (d ^^^ a) 16
  let c := c + d
  let b := rotate (b ^^^ c) 12
  let a := a + b + y
  let d := rotate (d ^^^ a) 8
  let c := c + d
  let b := rotate (b ^^^ c) 7
  ⟨a, b, c, d⟩

/-- One round: the columns of the state, then its diagonals. -/
def round (s m : Block) : Block :=
  let p := mix s.w₀ s.w₄ s.w₈ s.w₁₂ m.w₀ m.w₁
  let q := mix s.w₁ s.w₅ s.w₉ s.w₁₃ m.w₂ m.w₃
  let r := mix s.w₂ s.w₆ s.w₁₀ s.w₁₄ m.w₄ m.w₅
  let t := mix s.w₃ s.w₇ s.w₁₁ s.w₁₅ m.w₆ m.w₇
  let i := mix p.a q.b r.c t.d m.w₈ m.w₉
  let j := mix q.a r.b t.c p.d m.w₁₀ m.w₁₁
  let k := mix r.a t.b p.c q.d m.w₁₂ m.w₁₃
  let l := mix t.a p.b q.c r.d m.w₁₄ m.w₁₅
  ⟨i.a, j.a, k.a, l.a, l.b, i.b, j.b, k.b, k.c, l.c, i.c, j.c, j.d, k.d, l.d, i.d⟩

/-- The order in which the next round takes the message words. -/
def permute (m : Block) : Block :=
  ⟨m.w₂, m.w₆, m.w₃, m.w₁₀, m.w₇, m.w₀, m.w₄, m.w₁₃, m.w₁, m.w₁₁, m.w₁₂, m.w₅, m.w₉, m.w₁₄,
    m.w₁₅, m.w₈⟩

/-- The given number of rounds. -/
def rounds : Nat → Block → Block → Block
  | 0, s, _ => s
  | n + 1, s, m => rounds n (round s m) (permute m)

/-- The compression function, of whose output the first eight words are kept. -/
def compress (chain : Chain) (m : Block) (counter : UInt64) (size flags : UInt32) : Chain :=
  -- The state is the chain, then constants, counter, size and marks.
  let s := rounds 7 ⟨chain.c₀, chain.c₁, chain.c₂, chain.c₃, chain.c₄, chain.c₅, chain.c₆,
    chain.c₇, initial.c₀, initial.c₁, initial.c₂, initial.c₃, counter.toUInt32,
    (counter >>> 32).toUInt32, size, flags⟩ m
  ⟨s.w₀ ^^^ s.w₈, s.w₁ ^^^ s.w₉, s.w₂ ^^^ s.w₁₀, s.w₃ ^^^ s.w₁₁, s.w₄ ^^^ s.w₁₂, s.w₅ ^^^ s.w₁₃,
    s.w₆ ^^^ s.w₁₄, s.w₇ ^^^ s.w₁₅⟩

/-- The word at the start of a byte string, which is continued by zeros, and the rest. -/
def takeWord : Bytes → UInt32 × Bytes
  | a :: b :: c :: d :: rest =>
    (a.toUInt32 ||| (b.toUInt32 <<< 8) ||| (c.toUInt32 <<< 16) ||| (d.toUInt32 <<< 24), rest)
  | [a, b, c] => (a.toUInt32 ||| (b.toUInt32 <<< 8) ||| (c.toUInt32 <<< 16), [])
  | [a, b] => (a.toUInt32 ||| (b.toUInt32 <<< 8), [])
  | [a] => (a.toUInt32, [])
  | [] => (0, [])

/-- The block that up to 64 bytes spell, continued by zeros. -/
def Block.ofBytes (bs : Bytes) : Block :=
  let (w₀, bs) := takeWord bs
  let (w₁, bs) := takeWord bs
  let (w₂, bs) := takeWord bs
  let (w₃, bs) := takeWord bs
  let (w₄, bs) := takeWord bs
  let (w₅, bs) := takeWord bs
  let (w₆, bs) := takeWord bs
  let (w₇, bs) := takeWord bs
  let (w₈, bs) := takeWord bs
  let (w₉, bs) := takeWord bs
  let (w₁₀, bs) := takeWord bs
  let (w₁₁, bs) := takeWord bs
  let (w₁₂, bs) := takeWord bs
  let (w₁₃, bs) := takeWord bs
  let (w₁₄, bs) := takeWord bs
  let (w₁₅, _) := takeWord bs
  ⟨w₀, w₁, w₂, w₃, w₄, w₅, w₆, w₇, w₈, w₉, w₁₀, w₁₁, w₁₂, w₁₃, w₁₄, w₁₅⟩

/-- Chains the blocks of a chunk. `start` marks the first block and `last` is added to the marks of
the final one. -/
def chainBlocks (counter : UInt64) (last : UInt32) (chain : Chain) (start : UInt32)
    (bs : Bytes) : Chain :=
  -- An empty chunk has one block too.
  if bs.length ≤ 64 then
    compress chain (.ofBytes bs) counter (UInt32.ofNat bs.length) (start ||| chunkEnd ||| last)
  else
    chainBlocks counter last (compress chain (.ofBytes (bs.take 64)) counter 64 start) 0
      (bs.drop 64)
termination_by bs.length
decreasing_by
  rw [List.length_drop]
  omega

/-- The chaining value of the chunk at position `counter`; `last` is the root mark if the chunk is
the whole message. -/
def chunk (counter : UInt64) (last : UInt32) (bs : Bytes) : Chain :=
  chainBlocks counter last initial chunkStart bs

/-- Joins the chaining values of two subtrees. -/
def join (left right : Chain) (last : UInt32) : Chain :=
  compress initial ⟨left.c₀, left.c₁, left.c₂, left.c₃, left.c₄, left.c₅, left.c₆, left.c₇,
    right.c₀, right.c₁, right.c₂, right.c₃, right.c₄, right.c₅, right.c₆, right.c₇⟩ 0 64
    (parentFlag ||| last)

/-- How many of `size` bytes belong to the left subtree: the largest power of two of chunks that
leaves something for the right one. -/
def leftSize (size : Nat) : Nat := 1024 * 2 ^ ((size - 1) / 1024).log2

theorem leftSize_pos (size : Nat) : 0 < leftSize size :=
  Nat.mul_pos (by omega) (Nat.two_pow_pos _)

theorem leftSize_lt {size : Nat} (h : 1024 < size) : leftSize size < size := by
  have hne : (size - 1) / 1024 ≠ 0 := by omega
  have hpow := Nat.log2_self_le hne
  simp only [leftSize]
  omega

/-- The chaining value of a run of chunks that starts at position `counter`. -/
def subtree (counter : UInt64) (last : UInt32) (bs : Bytes) : Chain :=
  if bs.length ≤ 1024 then chunk counter last bs
  else
    -- The mark of the root goes to the topmost block alone.
    let cut := leftSize bs.length
    join (subtree counter 0 (bs.take cut))
      (subtree (counter + UInt64.ofNat (cut / 1024)) 0 (bs.drop cut)) last
termination_by bs.length
decreasing_by
  · have hlt := leftSize_lt (Nat.lt_of_not_le (by assumption : ¬ bs.length ≤ 1024))
    rw [List.length_take]
    exact Nat.lt_of_le_of_lt (Nat.min_le_left _ _) hlt
  · have hlt := leftSize_lt (Nat.lt_of_not_le (by assumption : ¬ bs.length ≤ 1024))
    rw [List.length_drop]
    exact Nat.sub_lt (Nat.lt_of_le_of_lt (Nat.zero_le _) hlt) (leftSize_pos _)

/-- The chaining value of a single block. -/
theorem subtree_of_length_le {bs : Bytes} (h : bs.length ≤ 64) (counter : UInt64) (last : UInt32) :
    subtree counter last bs = compress initial (.ofBytes bs) counter (UInt32.ofNat bs.length)
      (chunkStart ||| chunkEnd ||| last) := by
  rw [subtree, if_pos (by omega), chunk, chainBlocks, if_pos h]

/-- The digest of a message. -/
def hash (message : Bytes) : Digest :=
  let c := subtree 0 rootFlag message
  .ofWords Digest.littleEndian Digest.length_littleEndian c.c₀ c.c₁ c.c₂ c.c₃ c.c₄ c.c₅ c.c₆ c.c₇

/-- The digest of a message that is a single block. -/
theorem hash_of_length_le {message : Bytes} (h : message.length ≤ 64) :
    hash message =
      let c := compress initial (.ofBytes message) 0 (UInt32.ofNat message.length)
        (chunkStart ||| chunkEnd ||| rootFlag)
      .ofWords Digest.littleEndian Digest.length_littleEndian
        c.c₀ c.c₁ c.c₂ c.c₃ c.c₄ c.c₅ c.c₆ c.c₇ := by
  rw [hash, subtree_of_length_le h]

end FlowGate.Blake3
