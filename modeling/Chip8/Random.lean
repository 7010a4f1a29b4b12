import Chip8.Address

/-!
# Random bytes

Random bytes come from a counter mode key stream.  A seed is stretched to a key of
eight words.  Block `k` of the stream scrambles the constants, the key and the number
`k` with twelve rounds and adds the scrambled words to the start.  Every word of the
stream gives one byte.
-/

namespace Chip8
namespace Keystream

def rotateLeft (w n : UInt32) : UInt32 := w <<< n ||| w >>> (32 - n)

def rotateRight (w n : UInt32) : UInt32 := w >>> n ||| w <<< (32 - n)

abbrev State := Vector UInt32 16

/-- Adds the second word to the first, combines the third with the sum and rotates
it. -/
def mix (s : State) (a b c : Fin 16) (n : UInt32) : State :=
  let s := s.set a (s[a] + s[b])
  s.set c (rotateLeft (s[c] ^^^ s[a]) n)

def quarterRound (s : State) (a b c d : Fin 16) : State :=
  mix (mix (mix (mix s a b d 16) c d b 12) a b d 8) c d b 7

/-- A round on the columns of the block and one on its diagonals. -/
def doubleRound (s : State) : State :=
  let s := quarterRound s 0 4 8 12
  let s := quarterRound s 1 5 9 13
  let s := quarterRound s 2 6 10 14
  let s := quarterRound s 3 7 11 15
  let s := quarterRound s 0 5 10 15
  let s := quarterRound s 1 6 11 12
  let s := quarterRound s 2 7 8 13
  quarterRound s 3 4 9 14

def doubleRounds : Nat → State → State
  | 0, s => s
  | count + 1, s => doubleRounds count (doubleRound s)

/-- The successive states of the generator that stretches a seed. -/
def stretch (seed : UInt64) : Nat → UInt64
  | 0 => seed
  | n + 1 => stretch seed n * 6364136223846793005 + 11634580027462260723

/-- The word that a state of the stretching generator gives. -/
def stretchWord (s : UInt64) : UInt32 :=
  rotateRight (((s >>> 18) ^^^ s) >>> 27).toUInt32 (s >>> 59).toUInt32

def key (seed : UInt64) : Vector UInt32 8 :=
  Vector.ofFn (fun i ↦ stretchWord (stretch seed (i.val + 1)))

def constants : Vector UInt32 4 := #v[0x61707865, 0x3320646e, 0x79622d32, 0x6b206574]

/-- The number of a block in two words, the low one first, and two unused words. -/
def counter (number : Nat) : Vector UInt32 4 :=
  #v[UInt32.ofNat number, UInt32.ofNat (number / 0x100000000), 0, 0]

def start (seed : UInt64) (number : Nat) : State :=
  constants ++ key seed ++ counter number

def block (seed : UInt64) (number : Nat) : State :=
  let s := start seed number
  Vector.zipWith (· + ·) (doubleRounds 6 s) s

def byte (seed : UInt64) (position : Nat) : UInt8 :=
  (block seed (position / 16))[Fin.ofNat 16 position].toUInt8

end Keystream

/-- A source of random bytes: its seed and how many bytes it has given. -/
structure RandomSource where
  seed : UInt64
  position : Nat := 0
deriving DecidableEq

namespace RandomSource

def peek (source : RandomSource) : UInt8 := Keystream.byte source.seed source.position

def advance (source : RandomSource) : RandomSource :=
  { source with position := source.position + 1 }

end RandomSource
end Chip8
