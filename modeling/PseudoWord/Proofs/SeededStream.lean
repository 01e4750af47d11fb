import PseudoWord.Proofs.SeededBounds

namespace PseudoWord

/-- The sixteen words of a block in their order. -/
def Block.words (x : Block) : List UInt32 := x.first.a :: x.laterWords

theorem Block.length_words (x : Block) : x.words.length = 16 := rfl

namespace Key

def block (key : Key) (number : Nat) : Block := .ofCounter key number.toUInt64

/-- The word at a place of the stream that a key gives. -/
def word (key : Key) (place : Nat) : UInt32 :=
  have inside : place % 16 < (key.block (place / 16)).words.length := Nat.mod_lt place (by decide)
  (key.block (place / 16)).words[place % 16]

end Key

namespace KeyStream

/-- The stream of a key after so many words were read. A block is made when its first word is asked
for, and not before. -/
def after (key : Key) : Nat → KeyStream
  | 0 => ⟨key, 0, []⟩
  | last + 1 => ⟨key, (last / 16 + 1).toUInt64, (key.block (last / 16)).words.drop (last % 16 + 1)⟩

theorem next_of_used (key : Key) (number : Nat) :
    next ⟨key, number.toUInt64, []⟩ =
      (key.word (16 * number), after key (16 * number + 1)) := by
  have quotient : 16 * number / 16 = number := by omega
  have remainder : 16 * number % 16 = 0 := by omega
  have counter : number.toUInt64 + 1 = (number + 1).toUInt64 := (UInt64.ofNat_add number 1).symm
  simp only [next, counter, Key.word, after, quotient, remainder]
  rfl

theorem next_after (key : Key) (place : Nat) :
    (after key place).next = (key.word place, after key (place + 1)) := by
  cases place with
  | zero => exact next_of_used key 0
  | succ last =>
    have length := (key.block (last / 16)).length_words
    by_cases full : last % 16 = 15
    · have place : last + 1 = 16 * (last / 16 + 1) := by omega
      have used : (key.block (last / 16)).words.drop (last % 16 + 1) = [] := by
        rw [List.drop_eq_nil_iff]
        omega
      rw [after, used, next_of_used, ← place]
    · have number : (last + 1) / 16 = last / 16 := by omega
      have place : (last + 1) % 16 = last % 16 + 1 := by omega
      have more : last % 16 + 1 < (key.block (last / 16)).words.length := by omega
      simp only [after, List.drop_eq_getElem_cons more, next, Key.word, number, place]

end KeyStream

namespace WordWidth

/-- How many words of the stream make one of this width. -/
def words : WordWidth → Nat
  | narrow => 1
  | wide => 2

/-- The word of this width that begins at a place of the stream; the low half of a wide one comes first. -/
def wordAt (key : Key) (place : Nat) : WordWidth → Nat
  | narrow => (key.word place).toNat
  | wide => (key.word (place + 1)).toNat * UInt32.size + (key.word place).toNat

theorem toNat_joined (low high : UInt32) :
    (high.toUInt64 <<< 32 ||| low.toUInt64).toNat = high.toNat * UInt32.size + low.toNat := by
  have below : low.toNat < 2 ^ 32 := low.toNat_lt_size
  have above : high.toNat < 2 ^ 32 := high.toNat_lt_size
  have shift : UInt64.toNat 32 % 64 = 32 := by decide
  have fits : high.toNat <<< 32 < 2 ^ 64 := by
    rw [Nat.shiftLeft_eq]
    omega
  rw [UInt64.toNat_or, UInt64.toNat_shiftLeft, shift, UInt32.toNat_toUInt64, UInt32.toNat_toUInt64,
    Nat.mod_eq_of_lt fits, ← Nat.shiftLeft_add_eq_or_of_lt below, Nat.shiftLeft_eq]

theorem next_after (width : WordWidth) (key : Key) (place : Nat) :
    width.next (.after key place) = (width.wordAt key place, .after key (place + width.words)) := by
  cases width with
  | narrow => simp only [next, KeyStream.next_after, wordAt, words]
  | wide => simp only [next, KeyStream.next64, KeyStream.next_after, toNat_joined, wordAt, words]

end WordWidth

namespace Seeded

/-- The state of a source after requests, be they answered or refused. -/
def history (s : Seeded) (requests : List (UInt64 × UInt64)) : Seeded :=
  requests.foldl (fun s request => (Source.draw request.1 request.2 s).2) s

/-- How a request is answered at a place of the stream: with a number inside the bounds, made of the word
that begins there and of the one after it. The second word is read when the first one leaves the answer
open, and only then. -/
structure MadeOf (width : WordWidth) (key : Key) (place : Nat) (low high value : UInt64) (count : Nat) :
    Prop where
  lower : low ≤ value
  upper : value ≤ high
  few : count = 1 ∨ count = 2
  second : count = 2 ↔ ∃ one other, one < width.size ∧ other < width.size ∧
    width.portion (span low high) (width.wordAt key place) one ≠
      width.portion (span low high) (width.wordAt key place) other
  value : value.toNat = low.toNat + width.portion (span low high) (width.wordAt key place)
    (width.wordAt key (place + width.words))

/-- A request that can be answered, at a place of the stream. -/
theorem exists_madeOf {low high : UInt64} (order : low ≤ high) (key : Key) (place : Nat) :
    ∃ value count, MadeOf (.ofBound high) key place low high value count ∧
      Source.draw low high (⟨.after key place⟩ : Seeded) =
        (.ok value, ⟨.after key (place + count * (WordWidth.ofBound high).words)⟩) := by
  generalize size : WordWidth.ofBound high = width
  have fits : span low high ≤ width.size := size ▸ span_le_size low high
  have undecided : width.Carries (span low high) (width.wordAt key place) ↔ _ :=
    WordWidth.carries_iff (span_pos low high) fits
  have read : offset low high ⟨.after key place⟩ =
      (width.portion (span low high) (width.wordAt key place) (width.wordAt key (place + width.words)),
        .after key (place + (if width.Carries (span low high) (width.wordAt key place) then 2 else 1) *
          width.words)) := by
    rw [offset, size, below_eq (span_pos low high) fits]
    simp only [WordWidth.next_after]
    split
    · rw [Nat.two_mul, Nat.add_assoc]
    · rw [Nat.one_mul]
  have answer := draw_of_le order ⟨.after key place⟩
  have sum := toNat_add_offset order ⟨.after key place⟩
  have bounds := BoundedSource.inside (congrArg Prod.fst answer)
  rw [read] at answer sum bounds
  refine ⟨_, _, ⟨bounds.1, bounds.2, ?_, ?_, sum⟩, answer⟩
  · split
    · exact .inr rfl
    · exact .inl rfl
  · rw [← undecided]
    split
    · rename_i carries
      exact iff_of_true rfl carries
    · rename_i settled
      exact iff_of_false (by decide) settled

theorem history_after (key : Key) (place : Nat) (requests : List (UInt64 × UInt64)) :
    ∃ later, history ⟨.after key place⟩ requests = ⟨.after key later⟩ := by
  induction requests generalizing place with
  | nil => exact ⟨place, rfl⟩
  | cons request rest ih =>
    rw [history, List.foldl_cons, ← history]
    by_cases empty : request.2 < request.1
    · rw [draw_of_lt empty]
      exact ih place
    · obtain ⟨value, count, _, answer⟩ := exists_madeOf (UInt64.not_lt.mp empty) key place
      rw [answer]
      exact ih _

/-- What a request gives after any others. It fails exactly on an empty range, and then nothing is read.
Otherwise its answer is inside the bounds, and one or two words of the width that the upper bound decides
are read from the stream of the seed. -/
theorem answers_from_stream (seed : UInt64) (requests : List (UInt64 × UInt64)) (low high : UInt64) :
    ∃ place, (ofSeed seed).history requests = ⟨.after (.ofSeed seed) place⟩ ∧
      (∀ cause, (Source.draw low high ((ofSeed seed).history requests)).1 = .error cause ↔
        high < low ∧ cause = .invalidRange low high) ∧
      (high < low → (Source.draw low high ((ofSeed seed).history requests)).2 =
        (ofSeed seed).history requests) ∧
      (low ≤ high → ∃ value count, MadeOf (.ofBound high) (.ofSeed seed) place low high value count ∧
        Source.draw low high ((ofSeed seed).history requests) =
          (.ok value, ⟨.after (.ofSeed seed) (place + count * (WordWidth.ofBound high).words)⟩)) := by
  obtain ⟨place, atPlace⟩ := history_after (.ofSeed seed) 0 requests
  have begun : ofSeed seed = ⟨.after (.ofSeed seed) 0⟩ := rfl
  rw [begun, atPlace]
  refine ⟨place, rfl, fun cause => ?_, fun empty => congrArg Prod.snd (draw_of_lt empty _),
    fun order => exists_madeOf order _ place⟩
  by_cases empty : high < low
  · rw [draw_of_lt empty]
    constructor
    · rintro ⟨⟩
      exact ⟨empty, rfl⟩
    · rintro ⟨_, rfl⟩
      rfl
  · rw [draw_of_le (UInt64.not_lt.mp empty)]
    constructor
    · rintro ⟨⟩
    · rintro ⟨other, _⟩
      exact absurd other empty

end Seeded

end PseudoWord
