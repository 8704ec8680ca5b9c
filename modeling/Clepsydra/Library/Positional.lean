import Mathlib

/-!
Owns: numbers written in a fixed count of digits, the highest first.

Proves: in increasing digits, numbers that fit are written in lexicographic order.
-/

namespace Clepsydra.Library

open List

variable {Digit : Type} {digit : Nat → Digit} {base : Nat}

/-- The lowest digits of a number, as many as asked for, the highest first. -/
def positional (digit : Nat → Digit) (base : Nat) : (count value : Nat) → List Digit
  | 0, _ => []
  | count + 1, value => positional digit base count (value / base) ++ [digit (value % base)]

@[simp] theorem length_positional (count value : Nat) :
    (positional digit base count value).length = count := by
  induction count generalizing value with
  | zero => rfl
  | succ count ih => rw [positional, length_append, ih, length_singleton]

theorem mem_positional {count value : Nat} {written : Digit}
    (member : written ∈ positional digit base count value) : ∃ index, written = digit index := by
  induction count generalizing value with
  | zero => exact nomatch member
  | succ count ih =>
    rw [positional, mem_append, mem_singleton] at member
    exact member.elim ih fun isLast => ⟨_, isLast⟩

theorem append_lt_append [LT Digit] {first second : List Digit} (less : first < second)
    (sameLength : first.length = second.length) (left right : List Digit) :
    first ++ left < second ++ right := by
  change List.Lex (· < ·) _ _ at less
  induction less with
  | nil => exact nomatch sameLength
  | rel less => exact .rel less
  | cons _ ih => exact .cons (ih (Nat.succ.inj sameLength))

theorem positional_lt [LT Digit]
    (increasing : ∀ low high, low < high → high < base → digit low < digit high)
    {count low high : Nat} (less : low < high) (fits : high < base ^ count) :
    positional digit base count low < positional digit base count high := by
  induction count generalizing low high with
  | zero =>
    rw [Nat.pow_zero] at fits
    omega
  | succ count ih =>
    have positive : 0 < base := Nat.pos_of_ne_zero fun none => by simp [none] at fits
    have ordered : low / base ≤ high / base := Nat.div_le_div_right (Nat.le_of_lt less)
    have shorter : high / base < base ^ count :=
      Nat.div_lt_of_lt_mul (by rwa [Nat.mul_comm, ← Nat.pow_succ])
    rcases Nat.lt_or_eq_of_le ordered with higher | same
    · exact append_lt_append (ih higher shorter) (by simp) _ _
    · -- the higher digits agree, so the lowest ones tell the numbers apart
      have lowest : low % base < high % base := by
        have lowParts := Nat.div_add_mod low base
        have highParts := Nat.div_add_mod high base
        rw [same] at lowParts
        omega
      rw [positional, positional, same]
      exact append_left_lt (.rel (increasing _ _ lowest (Nat.mod_lt _ positive)))

end Clepsydra.Library
