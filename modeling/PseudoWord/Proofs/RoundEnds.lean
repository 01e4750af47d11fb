import Mathlib.Algebra.Ring.Nat
import PseudoWord.Request.Basic

namespace PseudoWord

namespace Request

variable {r a b : Request} {found : Nat → Nat}

/-- The attempts of a round before which so many words were found. -/
def roundSize (r : Request) (found : Nat) : Nat := r.count.toNat - found / 2

theorem roundSize_bounds {words : Nat} (missing : words < r.count.toNat) :
    1 ≤ r.roundSize words ∧ r.roundSize words ≤ r.count.toNat := by
  rw [roundSize]
  omega

/-- How many attempts so many rounds make, where `found` tells how many distinct words come of the first
so many attempts. -/
def roundEnd (r : Request) (found : Nat → Nat) : Nat → Nat
  | 0 => 0
  | round + 1 => roundEnd r found round + r.roundSize (found (roundEnd r found round))

/-- So many rounds are run: before each of them words were missing and tries were left, and after the
last one either of these has come to an end. -/
structure Rounds (r : Request) (found : Nat → Nat) (rounds : Nat) : Prop where
  within : rounds ≤ r.maxTries.toNat
  short : ∀ round < rounds, found (r.roundEnd found round) < r.count.toNat
  last : rounds < r.maxTries.toNat → r.count.toNat ≤ found (r.roundEnd found rounds)

theorem roundEnd_eq_sum (r : Request) (found : Nat → Nat) (rounds : Nat) :
    r.roundEnd found rounds =
      ((List.range rounds).map fun round => r.roundSize (found (r.roundEnd found round))).sum := by
  induction rounds with
  | zero => rfl
  | succ rounds ih =>
    rw [List.range_succ, List.map_append, List.sum_append_nat, ← ih]
    rfl

theorem roundEnd_mono (r : Request) (found : Nat → Nat) {first later : Nat} (order : first ≤ later) :
    r.roundEnd found first ≤ r.roundEnd found later := by
  induction order with
  | refl => exact Nat.le_refl _
  | step _ ih => exact Nat.le_trans ih (Nat.le_add_right _ _)

/-- As long as words are missing for the smaller request, the larger one has made at least as many
attempts: the words by which its next round may be the smaller took it attempts of its own to find. -/
theorem roundEnd_le (counts : a.count ≤ b.count)
    (slow : ∀ first more, found (first + more) ≤ found first + more) {rounds : Nat}
    (short : ∀ round < rounds, found (a.roundEnd found round) < a.count.toNat) :
    a.roundEnd found rounds ≤ b.roundEnd found rounds := by
  induction rounds with
  | zero => exact Nat.le_refl 0
  | succ rounds ih =>
    have before := ih fun round below => short round (Nat.lt_succ_of_lt below)
    have missing := short rounds (Nat.lt_succ_self rounds)
    obtain ⟨ahead, same⟩ := Nat.exists_eq_add_of_le before
    have gained := slow (a.roundEnd found rounds) ahead
    rw [← same] at gained
    have wanted := UInt64.le_iff_toNat_le.mp counts
    rw [roundEnd, roundEnd, roundSize, roundSize]
    omega

/-- The request for more makes at least as many attempts as the other, unless it has all the words that
the other asks for. -/
theorem Rounds.enough {m n : Nat} (few : a.Rounds found m) (many : b.Rounds found n)
    (counts : a.count ≤ b.count) (tries : a.maxTries ≤ b.maxTries)
    (slow : ∀ first more, found (first + more) ≤ found first + more) :
    a.roundEnd found m ≤ b.roundEnd found n ∨ a.count.toNat ≤ found (b.roundEnd found n) := by
  rcases Nat.lt_or_ge n m with order | order
  · have left : n < b.maxTries.toNat :=
      Nat.lt_of_lt_of_le order (Nat.le_trans few.within (UInt64.le_iff_toNat_le.mp tries))
    exact .inr (Nat.le_trans (UInt64.le_iff_toNat_le.mp counts) (many.last left))
  · have reached := roundEnd_le counts slow few.short
    exact .inl (Nat.le_trans reached (b.roundEnd_mono found order))

end Request

end PseudoWord
