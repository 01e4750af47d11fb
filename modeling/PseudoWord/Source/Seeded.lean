import PseudoWord.Source.Basic
import PseudoWord.Source.KeyStream

namespace PseudoWord

/-- The width of the words that a request reads from the stream. -/
inductive WordWidth where
  | narrow
  | wide
deriving DecidableEq

namespace WordWidth

@[noinline]
def narrowSize : Nat := 4294967296

@[noinline]
def wideSize : Nat := 18446744073709551616

/-- The number of words of a width. The two numbers stand apart so that they are made once and not
with every request. -/
def size : WordWidth → Nat
  | narrow => narrowSize
  | wide => wideSize

/-- The upper bound of a request decides its width; the span does not. -/
def ofBound (high : UInt64) : WordWidth := if high < 4294967296 then narrow else wide

/-- The next word of a width. -/
def next : WordWidth → KeyStream → Nat × KeyStream
  | narrow, s => match s.next with | (word, s) => (word.toNat, s)
  | wide, s => match s.next64 with | (word, s) => (word.toNat, s)

end WordWidth

/-- A source that is determined by a 64-bit seed. -/
structure Seeded where
  stream : KeyStream

namespace Seeded

def ofSeed (seed : UInt64) : Seeded := ⟨.ofSeed seed⟩

/-- A number below `span`: the high half of a word times the span, which a carry from a second word
may raise by one. A span of zero stands for all words of the width. -/
def below (width : WordWidth) (span : Nat) (s : KeyStream) : Nat × KeyStream :=
  match width.next s with
  | (first, s) =>
    if span = 0 then (first, s)
    else
      let high := first * span / width.size
      let low := first * span % width.size
      if width.size - span < low then
        match width.next s with
        | (second, s) =>
          if width.size ≤ low + second * span / width.size then (high + 1, s) else (high, s)
      else (high, s)

instance : Source Seeded where
  draw low high s :=
    if high < low then (.error (.invalidRange low high), s)
    else
      let width := WordWidth.ofBound high
      match below width ((high.toNat - low.toNat + 1) % width.size) s.stream with
      | (offset, stream) => (.ok (low + offset.toUInt64), ⟨stream⟩)

end Seeded

end PseudoWord
