import Clepsydra.Library.Bytes

/-!
Owns: SHA-256 of a list of bytes, as FIPS 180-4 defines it.

Proves: a digest has 32 bytes.
-/

namespace Clepsydra.Library.Sha256

abbrev Word := BitVec 32

/-! ### The functions of one word -/

def smallSigma0 (word : Word) : Word := word.rotateRight 7 ^^^ word.rotateRight 18 ^^^ word >>> 3

def smallSigma1 (word : Word) : Word := word.rotateRight 17 ^^^ word.rotateRight 19 ^^^ word >>> 10

def bigSigma0 (word : Word) : Word :=
  word.rotateRight 2 ^^^ word.rotateRight 13 ^^^ word.rotateRight 22

def bigSigma1 (word : Word) : Word :=
  word.rotateRight 6 ^^^ word.rotateRight 11 ^^^ word.rotateRight 25

def choose (selector yes no : Word) : Word := (selector &&& yes) ^^^ (~~~selector &&& no)

def majority (first second third : Word) : Word :=
  (first &&& second) ^^^ (first &&& third) ^^^ (second &&& third)

def constants : List Word :=
  [0x428a2f98#32, 0x71374491#32, 0xb5c0fbcf#32, 0xe9b5dba5#32, 0x3956c25b#32, 0x59f111f1#32,
    0x923f82a4#32, 0xab1c5ed5#32, 0xd807aa98#32, 0x12835b01#32, 0x243185be#32, 0x550c7dc3#32,
    0x72be5d74#32, 0x80deb1fe#32, 0x9bdc06a7#32, 0xc19bf174#32, 0xe49b69c1#32, 0xefbe4786#32,
    0x0fc19dc6#32, 0x240ca1cc#32, 0x2de92c6f#32, 0x4a7484aa#32, 0x5cb0a9dc#32, 0x76f988da#32,
    0x983e5152#32, 0xa831c66d#32, 0xb00327c8#32, 0xbf597fc7#32, 0xc6e00bf3#32, 0xd5a79147#32,
    0x06ca6351#32, 0x14292967#32, 0x27b70a85#32, 0x2e1b2138#32, 0x4d2c6dfc#32, 0x53380d13#32,
    0x650a7354#32, 0x766a0abb#32, 0x81c2c92e#32, 0x92722c85#32, 0xa2bfe8a1#32, 0xa81a664b#32,
    0xc24b8b70#32, 0xc76c51a3#32, 0xd192e819#32, 0xd6990624#32, 0xf40e3585#32, 0x106aa070#32,
    0x19a4c116#32, 0x1e376c08#32, 0x2748774c#32, 0x34b0bcb5#32, 0x391c0cb3#32, 0x4ed8aa4a#32,
    0x5b9cca4f#32, 0x682e6ff3#32, 0x748f82ee#32, 0x78a5636f#32, 0x84c87814#32, 0x8cc70208#32,
    0x90befffa#32, 0xa4506ceb#32, 0xbef9a3f7#32, 0xc67178f2#32]

/-! ### Compression -/

structure State where
  a : Word
  b : Word
  c : Word
  d : Word
  e : Word
  f : Word
  g : Word
  h : Word

def State.initial : State :=
  ⟨0x6a09e667#32, 0xbb67ae85#32, 0x3c6ef372#32, 0xa54ff53a#32, 0x510e527f#32, 0x9b05688c#32,
    0x1f83d9ab#32, 0x5be0cd19#32⟩

def State.words (state : State) : List Word :=
  [state.a, state.b, state.c, state.d, state.e, state.f, state.g, state.h]

def State.add (left right : State) : State :=
  ⟨left.a + right.a, left.b + right.b, left.c + right.c, left.d + right.d, left.e + right.e,
    left.f + right.f, left.g + right.g, left.h + right.h⟩

def State.round (state : State) (constant word : Word) : State :=
  let first := state.h + bigSigma1 state.e + choose state.e state.f state.g + constant + word
  let second := bigSigma0 state.a + majority state.a state.b state.c
  ⟨first + second, state.a, state.b, state.c, state.d + first, state.e, state.f, state.g⟩

def rounds : List Word → List Word → State → State
  | constant :: constants, oldest :: window, state =>
    let next :=
      smallSigma1 (window.getD 13 0) + window.getD 8 0 + smallSigma0 (window.getD 0 0) + oldest
    rounds constants (window ++ [next]) (state.round constant oldest)
  | _, _, state => state

def State.compress (state : State) (block : List Word) : State :=
  state.add (rounds constants block state)

/-! ### Messages -/

def words : List UInt8 → List Word
  | first :: second :: third :: fourth :: rest =>
    BitVec.ofNat 32 (((first.toNat * 256 + second.toNat) * 256 + third.toNat) * 256 + fourth.toNat)
      :: words rest
  | _ => []

def padded (message : List UInt8) : List UInt8 :=
  message ++ 0x80 :: List.replicate ((119 - message.length % 64) % 64) 0
    ++ bigEndian 8 (8 * message.length)

def compressAll : Nat → State → List Word → State
  | 0, state, _ => state
  | count + 1, state, words =>
    compressAll count (state.compress (words.take 16)) (words.drop 16)

def digest (message : List UInt8) : List UInt8 :=
  let blocks := words (padded message)
  (compressAll (blocks.length / 16) State.initial blocks).words.flatMap fun word =>
    bigEndian 4 word.toNat

theorem length_digest (message : List UInt8) : (digest message).length = 32 := by
  simp [digest, State.words, length_bigEndian]

/-- The digest of `abc`. -/
example : digest [97, 98, 99]
    = [0xba, 0x78, 0x16, 0xbf, 0x8f, 0x01, 0xcf, 0xea, 0x41, 0x41, 0x40, 0xde, 0x5d, 0xae, 0x22,
      0x23, 0xb0, 0x03, 0x61, 0xa3, 0x96, 0x17, 0x7a, 0x9c, 0xb4, 0x10, 0xff, 0x61, 0xf2, 0x00,
      0x15, 0xad] := by decide +kernel

end Clepsydra.Library.Sha256
