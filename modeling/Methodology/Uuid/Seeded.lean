import Methodology.Fresh

/-!
# Uuids of a seed

Words are drawn from the ChaCha cipher with twelve rounds, its key spread out from a seed of 64 bits.

* `ChaCha.block`: the sixteen words that a key gives for a block counter.
* `ChaCha.keyOfSeed`: the key of a seed, eight outputs of a permuted congruential generator.
* `ChaCha.Generator`: a key, the counter of the next block and the words not yet drawn;
  `Generator.nextWord`, `Generator.nextWords`.
* `Uuid.draw`: the next uuid of a generator, which takes the low byte of sixteen words.
* `Uuid.seeded`: **the uuids that a seed gives.**
-/

/-! ## The generator -/

namespace Methodology.ChaCha

/-- The sixteen words of the cipher's state. -/
abbrev State := Vector UInt32 16

/-- The word with its bits turned to the left. -/
def rotateLeft (w k : UInt32) : UInt32 := (w <<< k) ||| (w >>> (32 - k))

/-- The word with its bits turned to the right; a turn by nothing keeps it. -/
def rotateRight (w k : UInt32) : UInt32 := if k = 0 then w else (w >>> k) ||| (w <<< (32 - k))

/-- The quarter round on four words of the state. -/
def quarterRound (s : State) (a b c d : Fin 16) : State :=
  let s := s.set a (s[a] + s[b])
  let s := s.set d (rotateLeft (s[d] ^^^ s[a]) 16)
  let s := s.set c (s[c] + s[d])
  let s := s.set b (rotateLeft (s[b] ^^^ s[c]) 12)
  let s := s.set a (s[a] + s[b])
  let s := s.set d (rotateLeft (s[d] ^^^ s[a]) 8)
  let s := s.set c (s[c] + s[d])
  s.set b (rotateLeft (s[b] ^^^ s[c]) 7)

/-- Two rounds: one on the columns and one on the diagonals. -/
def doubleRound (s : State) : State :=
  let s := quarterRound s 0 4 8 12
  let s := quarterRound s 1 5 9 13
  let s := quarterRound s 2 6 10 14
  let s := quarterRound s 3 7 11 15
  let s := quarterRound s 0 5 10 15
  let s := quarterRound s 1 6 11 12
  let s := quarterRound s 2 7 8 13
  quarterRound s 3 4 9 14

/-- A key of 256 bits. -/
abbrev Key := Vector UInt32 8

/-- The state before the rounds: four fixed words, the key, the counter and an empty stream name. -/
def start (key : Key) (counter : UInt64) : State :=
  #v[0x61707865, 0x3320646e, 0x79622d32, 0x6b206574,
    key[0], key[1], key[2], key[3], key[4], key[5], key[6], key[7],
    counter.toUInt32, (counter >>> 32).toUInt32, 0, 0]

/-- So many double rounds. -/
def rounds (s : State) : Nat → State
  | 0 => s
  | n + 1 => rounds (doubleRound s) n

/-- **A block.** The state after twelve rounds, added word by word to the state before them. -/
def block (key : Key) (counter : UInt64) : State :=
  let s := start key counter
  Vector.zipWith (· + ·) (rounds s 6) s

/-- The state that follows in the generator that spreads a seed out. -/
def congruential (state : UInt64) : UInt64 :=
  state * 6364136223846793005 + 11634580027462260723

/-- The word that a state of that generator shows. -/
def permuted (state : UInt64) : UInt32 :=
  rotateRight (((state >>> 18) ^^^ state) >>> 27).toUInt32 (state >>> 59).toUInt32

/-- The states that follow a seed. -/
def seedState (seed : UInt64) : Nat → UInt64
  | 0 => congruential seed
  | n + 1 => congruential (seedState seed n)

/-- The key of a seed. -/
def keyOfSeed (seed : UInt64) : Key := Vector.ofFn fun i => permuted (seedState seed i)

/-- A generator: its key, the counter of the next block and the words of the last one that are
left. -/
structure Generator where
  key : Key
  counter : UInt64
  pending : List UInt32

namespace Generator

/-- The generator of a seed, from which nothing is drawn yet. -/
def ofSeed (seed : UInt64) : Generator := ⟨keyOfSeed seed, 0, []⟩

/-- The next word, from a new block when the last one is used up. -/
def nextWord (g : Generator) : UInt32 × Generator :=
  match g.pending with
  | w :: rest => (w, { g with pending := rest })
  | [] =>
    let words := (block g.key g.counter).toList
    (words.headD 0, ⟨g.key, g.counter + 1, words.tail⟩)

/-- The next `n` words. -/
def nextWords (g : Generator) : Nat → List UInt32 × Generator
  | 0 => ([], g)
  | n + 1 =>
    let (w, g) := g.nextWord
    let (ws, g) := g.nextWords n
    (w :: ws, g)

end Generator

end Methodology.ChaCha

/-! ## Uuids -/

namespace Methodology.Uuid

/-- The uuid made of the low bytes of sixteen words. -/
def ofWords (words : List UInt32) : Uuid := ofRandomBytes (words.map fun w => w.toNat % 256)

/-- The next uuid of a generator. -/
def draw (g : ChaCha.Generator) : Uuid × ChaCha.Generator :=
  let (words, g) := g.nextWords 16
  (ofWords words, g)

/-- **The uuids that a seed gives.** -/
def seeded (seed : UInt64) : Supply Uuid := Supply.unfold draw (ChaCha.Generator.ofSeed seed)

end Methodology.Uuid
