/-!
# The word stream behind a shuffle

The ChaCha block function with twelve rounds, keyed by eight words that are stretched from a seed
of 64 bits. A stream is the sequence of the words of blocks 0, 1, 2, and so on; what follows
depends on nothing but the word that stands at each place.
-/
namespace Holdem.ChaCha

/-- The sixteen words that a block is computed from and made of. -/
abbrev Block := Vector UInt32 16

/-- Turns the bits of a word to the left by `n`, which lies strictly between 0 and 32. -/
def rotateLeft (x n : UInt32) : UInt32 := (x <<< n) ||| (x >>> (32 - n))

/-- Mixes four of the words. -/
def quarterRound (s : Block) (i j k l : Fin 16) : Block :=
  let a := s[i] + s[j]
  let d := rotateLeft (s[l] ^^^ a) 16
  let c := s[k] + d
  let b := rotateLeft (s[j] ^^^ c) 12
  let a := a + b
  let d := rotateLeft (d ^^^ a) 8
  let c := c + d
  let b := rotateLeft (b ^^^ c) 7
  (((s.set i a).set j b).set k c).set l d

/-- Mixes the four columns and then the four diagonals. -/
def doubleRound (s : Block) : Block :=
  let s := quarterRound s 0 4 8 12
  let s := quarterRound s 1 5 9 13
  let s := quarterRound s 2 6 10 14
  let s := quarterRound s 3 7 11 15
  let s := quarterRound s 0 5 10 15
  let s := quarterRound s 1 6 11 12
  let s := quarterRound s 2 7 8 13
  quarterRound s 3 4 9 14

def rounds : Nat → Block → Block
  | 0, s => s
  | n + 1, s => rounds n (doubleRound s)

/-- The block before mixing: four fixed words, the key, the number of the block in two words. -/
def initial (key : Vector UInt32 8) (number : UInt64) : Block :=
  #v[0x61707865, 0x3320646e, 0x79622d32, 0x6b206574,
    key[0], key[1], key[2], key[3], key[4], key[5], key[6], key[7],
    number.toUInt32, (number >>> 32).toUInt32, 0, 0]

/-- A block: six double rounds, added to what they started from. -/
def block (key : Vector UInt32 8) (number : UInt64) : Block :=
  let start := initial key number
  (rounds 6 start).zipWith (· + ·) start

/-- One step of the sequence that stretches a seed. -/
def nextState (state : UInt64) : UInt64 :=
  state * 6364136223846793005 + 11634580027462260723

/-- The key word read off a state of that sequence. -/
def keyWord (state : UInt64) : UInt32 :=
  let x := (((state >>> 18) ^^^ state) >>> 27).toUInt32
  let n := (state >>> 59).toUInt32
  if n = 0 then x else rotateLeft x (32 - n)

/-- The first `n` key words that follow a state. -/
def keyWords : Nat → UInt64 → List UInt32
  | 0, _ => []
  | n + 1, state => keyWord (nextState state) :: keyWords n (nextState state)

def key (seed : UInt64) : Vector UInt32 8 :=
  let words := keyWords 8 seed
  Vector.ofFn fun i => words.getD i 0

/-- The word at place `n` of the stream of a seed. -/
def word (seed : UInt64) (n : Nat) : UInt32 :=
  (block (key seed) (n / 16).toUInt64).toArray.getD (n % 16) 0

end Holdem.ChaCha
