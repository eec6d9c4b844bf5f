import Mathlib.Data.List.Induction
import Netter.Http.Written

/-!
# The numbers in a request

The parser reads a number digit after digit and looks for an overflow at each one. What it has read is never more than the
whole number, so a number that fits is read without one.
-/

namespace Netter.Http

open Exec

variable {base n : Nat} {ch : UInt8} {w text : List UInt8}

theorem valueOf_snoc (base : Nat) (w : List UInt8) (ch : UInt8) :
    valueOf base (w ++ [ch]) = valueOf base w * base + digit ch := by
  rw [valueOf, List.reverse_append, List.reverse_singleton, List.map_append, List.map_singleton, List.singleton_append,
    Nat.ofDigits_cons, valueOf, Nat.mul_comm, Nat.add_comm]

/-- What has been read of a number is not more than it. -/
theorem valueOf_le (positive : 0 < base) (front : w <+: text) : valueOf base w ≤ valueOf base text := by
  obtain ⟨rest, rfl⟩ := front
  induction rest using List.reverseRecOn with
  | nil => rw [List.append_nil]
  | append_singleton rest ch ih =>
    rw [← List.append_assoc, valueOf_snoc]
    calc valueOf base w ≤ valueOf base (w ++ rest) := ih
      _ ≤ valueOf base (w ++ rest) * base := Nat.le_mul_of_pos_right _ positive
      _ ≤ valueOf base (w ++ rest) * base + digit ch := Nat.le_add_right _ _

theorem addDigit_eq {b d t : UInt64} (positive : 0 < b.toNat) (value : t.toNat * b.toNat + d.toNat = n)
    (fits : n < ullongMax.toNat) : addDigit b d t = some (UInt64.ofNat n) := by
  have max : ullongMax.toNat = 2 ^ 64 - 1 := rfl
  have product : (t * b).toNat = t.toNat * b.toNat := by
    rw [UInt64.toNat_mul]
    exact Nat.mod_eq_of_lt (by omega)
  have sum : (t * b + d).toNat = n := by
    rw [UInt64.toNat_add, product, value]
    exact Nat.mod_eq_of_lt (by omega)
  have more : t.toNat ≤ t.toNat * b.toNat := Nat.le_mul_of_pos_right _ positive
  have fine : ¬ (t * b + d < t ∨ t * b + d = ullongMax) := by
    rintro (less | full)
    · rw [UInt64.lt_iff_toNat_lt, sum] at less
      omega
    · rw [full] at sum
      omega
  have same : t * b + d = UInt64.ofNat n := by rw [← sum, UInt64.ofNat_toNat]
  unfold addDigit
  rw [if_neg fine, same]

/-! ## Digits -/

theorem isNum_of_digit (xdigit : isXdigit ch = true) (small : digit ch < 10) : isNum ch = true := by
  by_contra other
  unfold digit at small
  rw [if_neg other] at small
  simp only [isXdigit, other, Bool.false_or, Bool.and_eq_true, decide_eq_true_eq, UInt8.le_iff_toNat_le] at xdigit
  obtain ⟨low, high⟩ := xdigit
  change 97 ≤ (lower ch).toNat at low
  change (lower ch).toNat ≤ 102 at high
  have above : 'a'.toUInt8 ≤ lower ch := UInt8.le_iff_toNat_le.mpr low
  rw [UInt8.toNat_add, UInt8.toNat_sub_of_le _ _ above] at small
  change ((lower ch).toNat - 97 + 10) % 256 < 10 at small
  omega

theorem toNat_isNum (number : isNum ch = true) : (ch - '0'.toUInt8).toUInt64.toNat = digit ch := by
  rw [digit, if_pos number, UInt8.toNat_toUInt64]

theorem unhex_eq (xdigit : isXdigit ch = true) : ∃ d, unhex ch = some d ∧ d.toNat = digit ch := by
  unfold unhex digit
  by_cases number : isNum ch = true
  · simp only [number, if_true]
    exact ⟨_, rfl, UInt8.toNat_toUInt64 _⟩
  · simp only [isXdigit, number, Bool.false_or, Bool.and_eq_true, decide_eq_true_eq] at xdigit
    simp only [number, xdigit, and_self, if_true]
    exact ⟨_, rfl, UInt8.toNat_toUInt64 _⟩

namespace Numeral

variable {t d : UInt64}

/-- The next digit of a number that fits. -/
theorem addDigit {b : UInt64} (numeral : Numeral b.toNat text n) (positive : 0 < b.toNat) (fits : n < ullongMax.toNat)
    (front : w ++ [ch] <+: text) (before : t = UInt64.ofNat (valueOf b.toNat w)) (stands : d.toNat = digit ch) :
    Exec.addDigit b d t = some (UInt64.ofNat (valueOf b.toNat (w ++ [ch]))) := by
  have whole := valueOf_le positive front
  rw [numeral.counts] at whole
  have less := valueOf_le positive (List.prefix_append w [ch])
  have max : ullongMax.toNat = 2 ^ 64 - 1 := rfl
  have same : t.toNat = valueOf b.toNat w := by
    rw [before, UInt64.toNat_ofNat_of_lt']
    show _ < 2 ^ 64
    omega
  exact addDigit_eq positive (by rw [same, stands, valueOf_snoc]) (by omega)

end Numeral

end Netter.Http
