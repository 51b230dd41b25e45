import UtxoWire.Bytes

/-!
# BLAKE3

The digest that identifies transactions, in its plain mode: no key, 32 bytes of output.

Input is cut into chunks of 1024 bytes, and each chunk into blocks of 64 bytes.  `compress` mixes a
block into the eight words carried along a chunk.  The chunks are the leaves of a binary tree, the
left side of which is always a full one; a parent compresses the words of its two children.  The
digest is read off the root, which is compressed once more under a flag of its own.

* `Node` — a compression not carried out yet, since the root is to be flagged.
* `tree` — the node over a list of chunks.
* `hash` — the digest.
-/

namespace UtxoWire.Blake3

/-- The words every chunk starts from. -/
def initialWords : Vector UInt32 8 :=
  #v[0x6A09E667, 0xBB67AE85, 0x3C6EF372, 0xA54FF53A, 0x510E527F, 0x9B05688C, 0x1F83D9AB, 0x5BE0CD19]

/-! ## Compression -/

/-- The word turned right by a number of bits between 1 and 31. -/
def rotateRight (word count : UInt32) : UInt32 :=
  (word >>> count) ||| (word <<< (32 - count))

/-- Mixes two words of the message into a column or diagonal of the state. -/
def mix (state : Vector UInt32 16) (a b c d : Fin 16) (x y : UInt32) : Vector UInt32 16 :=
  let wa := state[a] + state[b] + x
  let wd := rotateRight (state[d] ^^^ wa) 16
  let wc := state[c] + wd
  let wb := rotateRight (state[b] ^^^ wc) 12
  let wa := wa + wb + y
  let wd := rotateRight (wd ^^^ wa) 8
  let wc := wc + wd
  let wb := rotateRight (wb ^^^ wc) 7
  (((state.set a wa).set b wb).set c wc).set d wd

/-- One round: the four columns, then the four diagonals. -/
def round (message state : Vector UInt32 16) : Vector UInt32 16 :=
  let state := mix state 0 4 8 12 message[0] message[1]
  let state := mix state 1 5 9 13 message[2] message[3]
  let state := mix state 2 6 10 14 message[4] message[5]
  let state := mix state 3 7 11 15 message[6] message[7]
  let state := mix state 0 5 10 15 message[8] message[9]
  let state := mix state 1 6 11 12 message[10] message[11]
  let state := mix state 2 7 8 13 message[12] message[13]
  mix state 3 4 9 14 message[14] message[15]

/-- The order of the message words in the next round. -/
def permute (message : Vector UInt32 16) : Vector UInt32 16 :=
  #v[message[2], message[6], message[3], message[10], message[7], message[0], message[4],
    message[13], message[1], message[11], message[12], message[5], message[9], message[14],
    message[15], message[8]]

/-- A number of rounds, the message permuted between them. -/
def rounds : Nat → (message state : Vector UInt32 16) → Vector UInt32 16
  | 0, _, state => state
  | count + 1, message, state => rounds count (permute message) (round message state)

/-- Marks the first block of a chunk. -/
def chunkStart : UInt32 := 1

/-- Marks the last block of a chunk. -/
def chunkEnd : UInt32 := 2

/-- Marks the block of a parent. -/
def parentFlag : UInt32 := 4

/-- Marks the compression at the root. -/
def rootFlag : UInt32 := 8

/-- A compression not carried out yet. -/
structure Node where
  /-- The words carried along. -/
  words : Vector UInt32 8
  /-- The block to be mixed in. -/
  block : Vector UInt32 16
  /-- The number of the chunk; 0 in a parent. -/
  counter : UInt64
  /-- How many bytes of the block are in use. -/
  blockLength : UInt32
  /-- What kind of block it is. -/
  flags : UInt32

/-- Carries a compression out, under one more flag, and gives the eight words that come of it. -/
def Node.compress (node : Node) (flag : UInt32) : Vector UInt32 8 :=
  let w := node.words
  let iv := initialWords
  let state := rounds 7 node.block
    #v[w[0], w[1], w[2], w[3], w[4], w[5], w[6], w[7], iv[0], iv[1], iv[2], iv[3],
      node.counter.toUInt32, (node.counter >>> 32).toUInt32, node.blockLength,
      node.flags ||| flag]
  #v[state[0] ^^^ state[8], state[1] ^^^ state[9], state[2] ^^^ state[10],
    state[3] ^^^ state[11], state[4] ^^^ state[12], state[5] ^^^ state[13],
    state[6] ^^^ state[14], state[7] ^^^ state[15]]

/-! ## Chunks -/

/-- The words of a block, missing bytes being zero. -/
def blockWords (bytes : Bytes) : Vector UInt32 16 :=
  Vector.ofFn fun i => UInt32.ofNat (ofLittleEndian ((bytes.drop (4 * i)).take 4))

/-- The node of a chunk: all its blocks but the last are mixed in, the last is left to do.
`flags` marks the first block and is zero afterwards. -/
def chunkNode (counter : UInt64) (words : Vector UInt32 8) (flags : UInt32) (bytes : Bytes) :
    Node :=
  let block := bytes.take 64
  let node : Node := ⟨words, blockWords block, counter, UInt32.ofNat block.length, flags⟩
  if 64 < bytes.length then
    chunkNode counter (node.compress 0) 0 (bytes.drop 64)
  else
    { node with flags := flags ||| chunkEnd }
termination_by bytes.length
decreasing_by simp only [List.length_drop]; omega

/-- Cuts bytes into chunks; no bytes are one empty chunk. -/
def chunks (bytes : Bytes) : List Bytes :=
  if 1024 < bytes.length then bytes.take 1024 :: chunks (bytes.drop 1024)
  else [bytes]
termination_by bytes.length
decreasing_by simp only [List.length_drop]; omega

/-! ## The tree -/

/-- The node over two children. -/
def parentNode (left right : Vector UInt32 8) : Node :=
  ⟨initialWords, left ++ right, 0, 64, parentFlag⟩

/-- The largest power of two below a number above one: how many chunks go to the left. -/
def leftSize (count : Nat) : Nat :=
  Nat.pow 2 (count - 1).log2

/-- The node over chunks, the first of them with the given number. -/
def tree (counter : Nat) (leaves : List Bytes) : Node :=
  if h : 1 < leaves.length then
    let size := leftSize leaves.length
    have hlt : size < leaves.length := by
      have hle : size ≤ leaves.length - 1 := Nat.log2_self_le (by omega)
      omega
    have hpos : 0 < size := Nat.two_pow_pos _
    parentNode ((tree counter (leaves.take size)).compress 0)
      ((tree (counter + size) (leaves.drop size)).compress 0)
  else
    chunkNode (UInt64.ofNat counter) initialWords chunkStart leaves.flatten
termination_by leaves.length
decreasing_by
  · simp only [List.length_take]; omega
  · simp only [List.length_drop]; omega

/-- The digest. -/
def hash (bytes : Bytes) : FixedBytes 32 :=
  let words := (tree 0 (chunks bytes)).compress rootFlag
  ⟨(words.toList.map fun word => toLittleEndian 4 word.toNat).flatten, by
    simp [Function.comp_def, List.map_const']⟩

end UtxoWire.Blake3
