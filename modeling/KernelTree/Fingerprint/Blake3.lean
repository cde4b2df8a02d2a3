/-! The BLAKE3 digest of a list of bytes, without a key. A text is cut into chunks of 1024 bytes,
these into blocks of 64. Chunks are the leaves of a binary tree in which a left subtree is complete
and at least as large as its right neighbour. -/
namespace KernelTree.Blake3

abbrev Chain := Vector UInt32 8

/-- The words of one block, or the state of a compression. -/
abbrev Words := Vector UInt32 16

def initial : Chain :=
  #v[0x6A09E667, 0xBB67AE85, 0x3C6EF372, 0xA54FF53A, 0x510E527F, 0x9B05688C, 0x1F83D9AB,
    0x5BE0CD19]

def chunkStart : UInt32 := 1

def chunkEnd : UInt32 := 2

def parentFlag : UInt32 := 4

def rootFlag : UInt32 := 8

def rotateRight (x : UInt32) (n : UInt32) : UInt32 := (x >>> n) ||| (x <<< (32 - n))

/-- Mixes two message words into four words of the state. -/
def mix (s : Words) (a b c d : Fin 16) (x y : UInt32) : Words :=
  let a₁ := s[a] + s[b] + x
  let d₁ := rotateRight (s[d] ^^^ a₁) 16
  let c₁ := s[c] + d₁
  let b₁ := rotateRight (s[b] ^^^ c₁) 12
  let a₂ := a₁ + b₁ + y
  let d₂ := rotateRight (d₁ ^^^ a₂) 8
  let c₂ := c₁ + d₂
  let b₂ := rotateRight (b₁ ^^^ c₂) 7
  (((s.set a a₂).set b b₂).set c c₂).set d d₂

/-- Mixes the columns of the state, then its diagonals. -/
def round (s m : Words) : Words :=
  let s := mix s 0 4 8 12 m[0] m[1]
  let s := mix s 1 5 9 13 m[2] m[3]
  let s := mix s 2 6 10 14 m[4] m[5]
  let s := mix s 3 7 11 15 m[6] m[7]
  let s := mix s 0 5 10 15 m[8] m[9]
  let s := mix s 1 6 11 12 m[10] m[11]
  let s := mix s 2 7 8 13 m[12] m[13]
  mix s 3 4 9 14 m[14] m[15]

/-- The order of the message words in the next round. -/
def permute (m : Words) : Words :=
  #v[m[2], m[6], m[3], m[10], m[7], m[0], m[4], m[13],
    m[1], m[11], m[12], m[5], m[9], m[14], m[15], m[8]]

def rounds : Nat → Words → Words → Words
  | 0, s, _ => s
  | n + 1, s, m => rounds n (round s m) (permute m)

/-- What is compressed last to give a chaining value or a digest. -/
structure Output where
  chain : Chain
  block : Words
  counter : UInt64
  size : UInt32
  flags : UInt32

def Output.compress (o : Output) : Words :=
  let h := o.chain
  let start : Words :=
    #v[h[0], h[1], h[2], h[3], h[4], h[5], h[6], h[7],
      initial[0], initial[1], initial[2], initial[3],
      o.counter.toUInt32, (o.counter >>> 32).toUInt32, o.size, o.flags]
  let s := rounds 7 start o.block
  Vector.ofFn fun i =>
    if h : i.val < 8 then s[i] ^^^ s[i.val + 8] else s[i] ^^^ o.chain[i.val - 8]

def Output.chainingValue (o : Output) : Chain :=
  let s := o.compress
  Vector.ofFn fun i => s[i.val]

/-- The words of a block, which is filled up with zero bytes. -/
def wordsOfBytes (bytes : List UInt8) : Words :=
  let bytes := bytes.toArray
  let byte (i : Nat) : UInt32 := (bytes[i]?.getD 0).toUInt32
  Vector.ofFn fun i =>
    byte (4 * i) ||| byte (4 * i + 1) <<< 8 ||| byte (4 * i + 2) <<< 16 |||
      byte (4 * i + 3) <<< 24

/-- The output of a chunk whose blocks before `bytes` have led to `chain`. -/
def chunkOutput (counter : UInt64) (chain : Chain) (flags : UInt32) (bytes : List UInt8) :
    Output :=
  if bytes.length ≤ 64 then
    { chain, block := wordsOfBytes bytes, counter, size := bytes.length.toUInt32,
      flags := flags ||| chunkEnd }
  else
    let first : Output :=
      { chain, block := wordsOfBytes (bytes.take 64), counter, size := 64, flags }
    chunkOutput counter first.chainingValue 0 (bytes.drop 64)
termination_by bytes.length
decreasing_by simp only [List.length_drop]; omega

def parentOutput (left right : Chain) : Output :=
  { chain := initial, block := left ++ right, counter := 0, size := 64, flags := parentFlag }

/-- The number of bytes in the left subtree of a text longer than a chunk: the greatest power of
two of chunks that leaves something for the right. -/
def leftSize (n : Nat) : Nat := 1024 <<< ((n - 1) / 1024).log2

theorem leftSize_pos (n : Nat) : 0 < leftSize n := by
  rw [leftSize, Nat.shiftLeft_eq]
  exact Nat.mul_pos (by decide) (Nat.pow_pos (by decide))

theorem leftSize_lt {n : Nat} (h : 1024 < n) : leftSize n < n := by
  have chunks : (n - 1) / 1024 ≠ 0 := by omega
  have power := Nat.log2_self_le chunks
  rw [leftSize, Nat.shiftLeft_eq]
  omega

/-- The output of a run of chunks, the first of which has the number `counter`. -/
def treeOutput (counter : Nat) (bytes : List UInt8) : Output :=
  if h : bytes.length ≤ 1024 then
    chunkOutput counter.toUInt64 initial chunkStart bytes
  else
    let size := leftSize bytes.length
    parentOutput
      (treeOutput counter (bytes.take size)).chainingValue
      (treeOutput (counter + size / 1024) (bytes.drop size)).chainingValue
termination_by bytes.length
decreasing_by
  · have := leftSize_lt (n := bytes.length) (by omega)
    simp only [List.length_take]; omega
  · have := leftSize_pos bytes.length
    simp only [List.length_drop]; omega

def digest (bytes : List UInt8) : List UInt8 :=
  let o := treeOutput 0 bytes
  let words := { o with flags := o.flags ||| rootFlag }.compress
  (words.toList.take 8).flatMap fun (w : UInt32) =>
    [w.toUInt8, (w >>> 8).toUInt8, (w >>> 16).toUInt8, (w >>> 24).toUInt8]

end KernelTree.Blake3
