/-!
The arithmetic of the Integer type: signed words of 32 bits, two's complement.
-/

namespace ObjectPascal.Word

def minValue : Int := -2147483648

def maxValue : Int := 2147483647

/-- The integers that a word of 32 bits holds. -/
def InRange (n : Int) : Prop :=
  minValue ≤ n ∧ n ≤ maxValue

instance (n : Int) : Decidable (InRange n) :=
  inferInstanceAs (Decidable (_ ∧ _))

/-- The integers that the 64-bit intermediate of an operation holds. -/
def FitsWide (n : Int) : Prop :=
  -9223372036854775808 ≤ n ∧ n ≤ 9223372036854775807

instance (n : Int) : Decidable (FitsWide n) :=
  inferInstanceAs (Decidable (_ ∧ _))

/-- The low 32 bits of `n`, read as a signed word. -/
def wrap (n : Int) : Int :=
  n.bmod 4294967296

/-- `wrap`, for an `n` that the 64-bit intermediate can hold. -/
def narrow? (n : Int) : Option Int :=
  if FitsWide n then some (wrap n) else none

/-- The quotient without its fraction, `none` for a zero divisor. -/
def quotient? (a b : Int) : Option Int :=
  if b = 0 then none else some (a.tdiv b)

/-- By cases on the signs. -/
theorem tdiv_eq_natAbs (a b : Int) :
    a.tdiv b =
      if (a < 0) = (b < 0) then (a.natAbs : Int) / b.natAbs
      else -((a.natAbs : Int) / b.natAbs) := by
  have hnat (n : Nat) : ¬ Int.ofNat n < 0 := Int.not_lt.mpr (Int.natCast_nonneg n)
  cases a with
  | ofNat a =>
    cases b with
    | ofNat b =>
      rw [if_pos (propext (iff_of_false (hnat a) (hnat b)))]
      rfl
    | negSucc b =>
      rw [if_neg fun h => hnat a (h.mpr (Int.negSucc_lt_zero b))]
      rfl
  | negSucc a =>
    cases b with
    | ofNat b =>
      rw [if_neg fun h => hnat b (h.mp (Int.negSucc_lt_zero a))]
      rfl
    | negSucc b =>
      rw [if_pos (propext (iff_of_true (Int.negSucc_lt_zero a) (Int.negSucc_lt_zero b)))]
      rfl

/-- The quotient is that of the sizes, rounded down, with a minus sign if one operand has one. -/
theorem quotient?_eq (a b : Int) :
    quotient? a b =
      if b = 0 then none
      else some (if (a < 0) = (b < 0) then (a.natAbs : Int) / b.natAbs
        else -((a.natAbs : Int) / b.natAbs)) := by
  unfold quotient?
  rw [tdiv_eq_natAbs]

theorem wrap_inRange (n : Int) : InRange (wrap n) := by
  have lo := Int.le_bmod (x := n) (m := 4294967296) (by decide)
  have hi := Int.bmod_lt (x := n) (m := 4294967296) (by decide)
  unfold InRange wrap minValue maxValue
  omega

theorem wrap_of_inRange {n : Int} (h : InRange n) : wrap n = n := by
  unfold InRange minValue maxValue at h
  unfold wrap
  rw [Int.bmod_def]
  split <;> omega

end ObjectPascal.Word
