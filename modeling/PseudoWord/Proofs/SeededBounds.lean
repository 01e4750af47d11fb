import PseudoWord.Proofs.Contract
import PseudoWord.Source.Seeded

namespace PseudoWord

namespace WordWidth

theorem size_pos (width : WordWidth) : 0 < width.size := by cases width <;> decide

theorem next_lt (width : WordWidth) (s : KeyStream) : (width.next s).1 < width.size := by
  cases width with
  | narrow => exact UInt32.toNat_lt_size _
  | wide => exact UInt64.toNat_lt_size _

/-- What two words take from a span. They are the digits of a fraction below one, the first word before
the second, and the span is multiplied by this fraction. -/
def portion (width : WordWidth) (span first second : Nat) : Nat :=
  (first * width.size + second) * span / (width.size * width.size)

/-- The low half of the first word's product with a span is so near to the next multiple that a second
word may carry it over. -/
def Carries (width : WordWidth) (span first : Nat) : Prop :=
  width.size - span < first * span % width.size

instance (width : WordWidth) (span first : Nat) : Decidable (width.Carries span first) :=
  inferInstanceAs (Decidable (_ < _))

variable {width : WordWidth} {span first second : Nat}

theorem portion_lt (positive : 0 < span) (one : first < width.size) (two : second < width.size) :
    width.portion span first second < span := by
  have digits : first * width.size + second < width.size * width.size := by
    have row := Nat.mul_le_mul_right width.size (Nat.succ_le_of_lt one)
    rw [Nat.succ_mul] at row
    omega
  exact Nat.div_lt_of_lt_mul (Nat.mul_lt_mul_of_pos_right digits positive)

/-- Of the second word's product with the span only the high half counts, and only by a carry. -/
theorem portion_eq (two : second < width.size) (fits : span ≤ width.size) :
    width.portion span first second =
      if width.size ≤ first * span % width.size + second * span / width.size then
        first * span / width.size + 1
      else first * span / width.size := by
  have positive := width.size_pos
  have low := Nat.mod_lt (first * span) positive
  have high : second * span / width.size < width.size :=
    Nat.div_lt_of_lt_mul (Nat.mul_lt_mul_of_lt_of_le two fits (Nat.zero_lt_of_lt two))
  have halves := Nat.div_add_mod (first * span) width.size
  have sum : width.portion span first second =
      (first * span + second * span / width.size) / width.size := by
    rw [portion, ← Nat.div_div_eq_div_mul, Nat.add_mul, Nat.mul_right_comm,
      Nat.add_comm, Nat.add_mul_div_right _ _ positive, Nat.add_comm]
  have split : first * span + second * span / width.size =
      first * span % width.size + second * span / width.size +
        first * span / width.size * width.size := by
    rw [Nat.mul_comm (first * span / width.size)]
    omega
  rw [sum, split, Nat.add_mul_div_right _ _ positive, Nat.add_comm]
  split
  · rename_i carried
    have once : (first * span % width.size + second * span / width.size) / width.size = 1 :=
      Nat.div_eq_of_lt_le (by omega) (by omega)
    rw [once]
  · rename_i kept
    rw [Nat.div_eq_of_lt (Nat.not_le.mp kept), Nat.add_zero]

/-- Without a carry to come the first word alone says what is taken. -/
theorem portion_of_not_carries (positive : 0 < span) (two : second < width.size)
    (fits : span ≤ width.size) (settled : ¬ width.Carries span first) :
    width.portion span first second = first * span / width.size := by
  have added : second * span / width.size < span :=
    Nat.div_lt_of_lt_mul (Nat.mul_lt_mul_of_pos_right two positive)
  rw [Carries] at settled
  rw [portion_eq two fits, if_neg (by omega)]

/-- A span of the whole width leaves nothing for a carry. -/
theorem not_carries_size (width : WordWidth) (first : Nat) : ¬ width.Carries width.size first := by
  rw [Carries, Nat.mul_mod_left]
  omega

/-- The second word is asked for exactly when the first one leaves open what is taken. -/
theorem carries_iff (positive : 0 < span) (fits : span ≤ width.size) :
    width.Carries span first ↔
      ∃ one other, one < width.size ∧ other < width.size ∧
        width.portion span first one ≠ width.portion span first other := by
  constructor
  · intro carries
    have sizePos := width.size_pos
    have most : (width.size - 1) * span / width.size = span - 1 := by
      have product : (width.size - 1) * span = width.size * span - span := Nat.sub_one_mul _ _
      have whole : width.size * span = width.size * (span - 1) + width.size := by
        rw [← Nat.mul_succ, Nat.succ_eq_add_one, Nat.sub_add_cancel positive]
      rw [product, whole, Nat.add_sub_assoc fits, Nat.mul_add_div sizePos,
        Nat.div_eq_of_lt (Nat.sub_lt sizePos positive), Nat.add_zero]
    have low := Nat.mod_lt (first * span) sizePos
    rw [Carries] at carries
    refine ⟨0, width.size - 1, sizePos, Nat.sub_lt sizePos Nat.one_pos, ?_⟩
    rw [portion_eq sizePos fits, portion_eq (Nat.sub_lt sizePos Nat.one_pos) fits, most,
      Nat.zero_mul, Nat.zero_div, if_neg (by omega), if_pos (by omega)]
    omega
  · rintro ⟨one, other, first, second, differ⟩
    refine Decidable.byContradiction fun settled => differ ?_
    rw [portion_of_not_carries positive first fits settled,
      portion_of_not_carries positive second fits settled]

end WordWidth

namespace Seeded

/-- A number below a span that fits into the width is the part of the span that two words take, of which
the second one is read only where it may carry. -/
theorem below_eq {width : WordWidth} {span : Nat} (positive : 0 < span) (fits : span ≤ width.size)
    (s : KeyStream) :
    below width (span % width.size) s =
      (width.portion span (width.next s).1 (width.next (width.next s).2).1,
        if width.Carries span (width.next s).1 then (width.next (width.next s).2).2
        else (width.next s).2) := by
  have second := width.next_lt (width.next s).2
  rw [below]
  by_cases full : span = width.size
  · subst full
    have settled := width.not_carries_size (width.next s).1
    rw [Nat.mod_self, WordWidth.portion_of_not_carries positive second fits settled,
      Nat.mul_div_cancel _ positive, if_neg settled]
    rfl
  · rw [Nat.mod_eq_of_lt (Nat.lt_of_le_of_ne fits full)]
    simp only [if_neg (Nat.pos_iff_ne_zero.mp positive)]
    by_cases carries : width.Carries span (width.next s).1
    · rw [WordWidth.portion_eq second fits, if_pos carries]
      simp only [if_pos (show width.size - span < _ from carries)]
      split <;> rfl
    · rw [WordWidth.portion_of_not_carries positive second fits carries, if_neg carries]
      simp only [if_neg (show ¬ width.size - span < _ from carries)]

/-- How many numbers a request may be answered with. -/
def span (low high : UInt64) : Nat := high.toNat - low.toNat + 1

theorem span_pos (low high : UInt64) : 0 < span low high := Nat.succ_pos _

/-- The width is chosen so that the whole range fits into its words. -/
theorem span_le_size (low high : UInt64) : span low high ≤ (WordWidth.ofBound high).size := by
  have fits : high.toNat < (WordWidth.ofBound high).size := by
    rw [WordWidth.ofBound]
    split
    · rename_i narrow
      exact UInt64.lt_iff_toNat_lt.mp narrow
    · exact high.toNat_lt_size
  rw [span]
  omega

/-- How far above the lower bound the answer to a request lies, and the stream after it. -/
def offset (low high : UInt64) (s : Seeded) : Nat × KeyStream :=
  below (.ofBound high) (span low high % (WordWidth.ofBound high).size) s.stream

theorem offset_le (low high : UInt64) (s : Seeded) :
    (offset low high s).1 ≤ high.toNat - low.toNat := by
  rw [offset, below_eq (span_pos low high) (span_le_size low high)]
  exact Nat.le_of_lt_succ (WordWidth.portion_lt (span_pos low high) (WordWidth.next_lt _ _)
    (WordWidth.next_lt _ _))

theorem draw_of_le {low high : UInt64} (order : low ≤ high) (s : Seeded) :
    Source.draw low high s =
      (.ok (low + (offset low high s).1.toUInt64), ⟨(offset low high s).2⟩) := by
  simp only [Source.draw, if_neg (UInt64.not_lt.mpr order), offset, span]

theorem draw_of_lt {low high : UInt64} (empty : high < low) (s : Seeded) :
    Source.draw low high s = (.error (.invalidRange low high), s) := by
  simp only [Source.draw, if_pos empty]

theorem toNat_add_offset {low high : UInt64} (order : low ≤ high) (s : Seeded) :
    (low + (offset low high s).1.toUInt64).toNat = low.toNat + (offset low high s).1 := by
  have bound := offset_le low high s
  have size := high.toNat_lt_size
  rw [UInt64.le_iff_toNat_le] at order
  have fits : (offset low high s).1.toUInt64.toNat = (offset low high s).1 :=
    UInt64.toNat_ofNat_of_lt' (by omega)
  rw [UInt64.toNat_add, fits, Nat.mod_eq_of_lt]
  have size : high.toNat < 2 ^ 64 := size
  omega

instance : ContractSource Seeded where
  inside := by
    intro low high s value answer
    by_cases empty : high < low
    · rw [draw_of_lt empty] at answer
      cases answer
    · have order := UInt64.not_lt.mp empty
      have bound := offset_le low high s
      have sum := toNat_add_offset order s
      rw [draw_of_le order] at answer
      cases answer
      rw [UInt64.le_iff_toNat_le] at order
      rw [UInt64.le_iff_toNat_le, UInt64.le_iff_toNat_le, sum]
      omega
  answered s order := ⟨_, congrArg Prod.fst (draw_of_le order s)⟩
  refused s empty := congrArg Prod.fst (draw_of_lt empty s)

end Seeded

end PseudoWord
