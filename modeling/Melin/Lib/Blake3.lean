import Melin.Lib.Bytes

/-! BLAKE3 in its default mode, with a 32-byte output. -/

namespace Lib.Blake3

def initial : List UInt32 :=
  [0x6A09E667, 0xBB67AE85, 0x3C6EF372, 0xA54FF53A, 0x510E527F, 0x9B05688C, 0x1F83D9AB, 0x5BE0CD19]

def permutation : List Nat := [2, 6, 3, 10, 7, 0, 4, 13, 1, 11, 12, 5, 9, 14, 15, 8]

def lanes : List (Nat × Nat × Nat × Nat) :=
  [(0, 4, 8, 12), (1, 5, 9, 13), (2, 6, 10, 14), (3, 7, 11, 15),
    (0, 5, 10, 15), (1, 6, 11, 12), (2, 7, 8, 13), (3, 4, 9, 14)]

def rotr (word : UInt32) (count : UInt32) : UInt32 :=
  (word >>> count) ||| (word <<< (32 - count))

def mix (state : List UInt32) (lane : Nat × Nat × Nat × Nat) (first second : UInt32) :
    List UInt32 :=
  let (ia, ib, ic, id) := lane
  let a := state.getD ia 0 + state.getD ib 0 + first
  let d := rotr (state.getD id 0 ^^^ a) 16
  let c := state.getD ic 0 + d
  let b := rotr (state.getD ib 0 ^^^ c) 12
  let a := a + b + second
  let d := rotr (d ^^^ a) 8
  let c := c + d
  let b := rotr (b ^^^ c) 7
  (((state.set ia a).set ib b).set ic c).set id d

def mixLanes : List (Nat × Nat × Nat × Nat) → List UInt32 → List UInt32 → List UInt32
  | lane :: rest, first :: second :: words, state =>
    mixLanes rest words (mix state lane first second)
  | _, _, state => state

def rounds : Nat → List UInt32 → List UInt32 → List UInt32
  | 0, _, state => state
  | count + 1, words, state =>
    rounds count (permutation.map fun index => words.getD index 0) (mixLanes lanes words state)

def wordsOf (block : Bytes) : List UInt32 :=
  (List.range 16).map fun index => UInt32.ofNat (leNat (slice block (4 * index) 4))

/-- The input of one compression, kept until it is known whether it is the root. -/
structure Node where
  chaining : List UInt32
  block : List UInt32
  counter : Nat
  length : Nat
  flags : UInt32

def Node.compress (node : Node) (flags : UInt32) : List UInt32 :=
  let state := rounds 7 node.block
    (node.chaining ++ initial.take 4 ++ [UInt32.ofNat node.counter,
      UInt32.ofNat (node.counter / 2 ^ 32), UInt32.ofNat node.length, node.flags ||| flags])
  (List.range 8).map fun index => state.getD index 0 ^^^ state.getD (index + 8) 0

def chunkNode (counter : Nat) : Nat → UInt32 → List UInt32 → Bytes → Node
  | 0, start, chaining, bytes =>
    { chaining, block := wordsOf bytes, counter, length := bytes.length, flags := start ||| 2 }
  | more + 1, start, chaining, bytes =>
    let node : Node :=
      { chaining, block := wordsOf (bytes.take 64), counter, length := 64, flags := start }
    chunkNode counter more 0 (node.compress 0) (bytes.drop 64)

def subtree : Nat → Nat → Bytes → Node
  | 0, counter, bytes => chunkNode counter ((bytes.length - 1) / 64) 1 initial bytes
  | fuel + 1, counter, bytes =>
    if bytes.length ≤ 1024 then chunkNode counter ((bytes.length - 1) / 64) 1 initial bytes
    else
      -- The left subtree takes the largest power of two of chunks that leaves the right one some.
      let chunks := 2 ^ Nat.log2 ((bytes.length - 1) / 1024)
      let left := subtree fuel counter (bytes.take (1024 * chunks))
      let right := subtree fuel (counter + chunks) (bytes.drop (1024 * chunks))
      { chaining := initial, block := left.compress 0 ++ right.compress 0, counter := 0,
        length := 64, flags := 4 }

def digest (bytes : Bytes) : Bytes :=
  let node := subtree bytes.length 0 bytes
  let words := { node with counter := 0 }.compress 8
  (List.range 8).flatMap fun index => leBytes 4 (words.getD index 0).toNat

@[simp] theorem digest_length (bytes : Bytes) : (digest bytes).length = 32 := by
  -- Eight words of four bytes each, whatever the state they were taken from.
  simp [digest, List.length_flatMap]

-- The published digest of the empty string.
example : (digest []).take 8 = [0xAF, 0x13, 0x49, 0xB9, 0xF5, 0xF9, 0xA1, 0xA6] := by
  decide +kernel

end Lib.Blake3
