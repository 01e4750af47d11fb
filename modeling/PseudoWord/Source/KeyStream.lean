namespace PseudoWord

@[inline]
def rotateLeft (x count : UInt32) : UInt32 := x <<< count ||| x >>> (32 - count)

def rotateRight (x count : UInt32) : UInt32 := x >>> count ||| x <<< (32 - count)

/-- Four words that are worked on side by side. -/
structure Quad where
  a : UInt32
  b : UInt32
  c : UInt32
  d : UInt32

namespace Quad

@[inline]
def add (x y : Quad) : Quad := ⟨x.a + y.a, x.b + y.b, x.c + y.c, x.d + y.d⟩

/-- The exclusive or of two quads, every word of it turned. -/
@[inline]
def mix (x y : Quad) (count : UInt32) : Quad :=
  ⟨rotateLeft (x.a ^^^ y.a) count, rotateLeft (x.b ^^^ y.b) count,
    rotateLeft (x.c ^^^ y.c) count, rotateLeft (x.d ^^^ y.d) count⟩

/-- The words moved along by one place. -/
@[inline]
def turn (x : Quad) : Quad := ⟨x.b, x.c, x.d, x.a⟩

def toList (x : Quad) : List UInt32 := [x.a, x.b, x.c, x.d]

end Quad

/-- The eight words of a cipher key. -/
structure Key where
  low : Quad
  high : Quad

namespace Key

/-- The state of the generator that spreads a seed over a key. -/
def nextState (state : UInt64) : UInt64 := state * 6364136223846793005 + 11634580027462260723

/-- The word that a state of the generator gives: its high bits, turned by the highest five. -/
def wordOf (state : UInt64) : UInt32 :=
  rotateRight ((state >>> 18 ^^^ state) >>> 27).toUInt32 (state >>> 59).toUInt32

/-- The word of the state after so many steps from a seed. -/
def seedWord (seed : UInt64) (steps : Nat) : UInt32 := wordOf (Nat.repeat nextState steps seed)

def ofSeed (seed : UInt64) : Key :=
  ⟨⟨seedWord seed 1, seedWord seed 2, seedWord seed 3, seedWord seed 4⟩,
    ⟨seedWord seed 5, seedWord seed 6, seedWord seed 7, seedWord seed 8⟩⟩

end Key

/-- A cipher block as its four rows. -/
structure Block where
  first : Quad
  second : Quad
  third : Quad
  fourth : Quad

namespace Block

/-- The quarter rounds on the four columns. -/
@[inline]
def round (x : Block) : Block :=
  let a := x.first.add x.second
  let d := x.fourth.mix a 16
  let c := x.third.add d
  let b := x.second.mix c 12
  let a := a.add b
  let d := d.mix a 8
  let c := c.add d
  ⟨a, b.mix c 7, c, d⟩

/-- A round on the columns, then one on the diagonals. -/
def doubleRound (x : Block) : Block :=
  let x := x.round
  let x := round ⟨x.first, x.second.turn, x.third.turn.turn, x.fourth.turn.turn.turn⟩
  ⟨x.first, x.second.turn.turn.turn, x.third.turn.turn, x.fourth.turn⟩

def add (x y : Block) : Block :=
  ⟨x.first.add y.first, x.second.add y.second, x.third.add y.third, x.fourth.add y.fourth⟩

/-- Constants, key, block counter (low word first) and an empty nonce. -/
def initial (key : Key) (counter : UInt64) : Block :=
  ⟨⟨0x61707865, 0x3320646e, 0x79622d32, 0x6b206574⟩, key.low, key.high,
    ⟨counter.toUInt32, (counter >>> 32).toUInt32, 0, 0⟩⟩

/-- The block of the key stream at a counter: twelve rounds, then the initial words added. -/
def ofCounter (key : Key) (counter : UInt64) : Block :=
  (Nat.repeat doubleRound 6 (initial key counter)).add (initial key counter)

/-- The words of a block but the first, which is that of its first row. -/
def laterWords (x : Block) : List UInt32 :=
  x.first.toList.tail ++ x.second.toList ++ x.third.toList ++ x.fourth.toList

end Block

/-- A position in the endless stream of words that a key gives, block after block. -/
structure KeyStream where
  key : Key
  counter : UInt64
  pending : List UInt32

namespace KeyStream

def ofSeed (seed : UInt64) : KeyStream := ⟨.ofSeed seed, 0, []⟩

def next (s : KeyStream) : UInt32 × KeyStream :=
  match s.pending with
  | word :: rest => (word, ⟨s.key, s.counter, rest⟩)
  | [] =>
    let block := Block.ofCounter s.key s.counter
    (block.first.a, ⟨s.key, s.counter + 1, block.laterWords⟩)

/-- Two words of the stream as one number, the first as its low half. -/
def next64 (s : KeyStream) : UInt64 × KeyStream :=
  match s.next with
  | (low, s) =>
    match s.next with
    | (high, s) => (high.toUInt64 <<< 32 ||| low.toUInt64, s)

end KeyStream

end PseudoWord
