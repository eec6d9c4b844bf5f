import Mathlib.Data.List.Basic

/-!
# Big-endian words

`toBytes k v` writes the low `k` bytes of a word, most significant first, and `ofBytes`
reads a byte list back into a word of any width. Both are spelled with the shifts a C program
writes; the bit-level lemmas `getLsbD_ofBytes_toBytes` and `ofBytes_toBytes` say that the
second undoes the first. A signed program shifts arithmetically: `toBytesSigned` is that
spelling, and it produces the same bytes (`toBytesSigned_eq`).
-/

namespace Lib.BigEndian

/-- Byte `i` of a word, counted from the least significant one. -/
def byteAt {w : Nat} (v : BitVec w) (i : Nat) : UInt8 := UInt8.ofBitVec ((v >>> (8 * i)).setWidth 8)

/-- The low `k` bytes of `v`, most significant byte first. -/
def toBytes {w : Nat} : (k : Nat) → BitVec w → List UInt8
  | 0, _ => []
  | k + 1, v => byteAt v k :: toBytes k v

/-- The word with the given bytes, most significant byte first. -/
def ofBytes {w : Nat} : List UInt8 → BitVec w
  | [] => 0
  | b :: bs => (b.toBitVec.setWidth w <<< (8 * bs.length)) ||| ofBytes bs

/-- `toBytes` with arithmetic shifts. -/
def toBytesSigned {w : Nat} : (k : Nat) → BitVec w → List UInt8
  | 0, _ => []
  | k + 1, v => UInt8.ofBitVec ((v.sshiftRight (8 * k)).setWidth 8) :: toBytesSigned k v

@[simp] theorem length_toBytes {w : Nat} (k : Nat) (v : BitVec w) : (toBytes k v).length = k := by
  induction k with
  | zero => rfl
  | succ k ih => simp [toBytes, ih]

/-- The bits of a word read back from its own low bytes. -/
theorem getLsbD_ofBytes_toBytes {w : Nat} (k : Nat) (v : BitVec w) (fits : 8 * k ≤ w) (i : Nat) :
    (ofBytes (toBytes k v) : BitVec w).getLsbD i = (decide (i < 8 * k) && v.getLsbD i) := by
  induction k with
  | zero => simp [toBytes, ofBytes]
  | succ k ih =>
    have tail := ih (by omega)
    simp only [toBytes, ofBytes, byteAt, length_toBytes, BitVec.getLsbD_or, tail,
      BitVec.getLsbD_shiftLeft, BitVec.getLsbD_setWidth, BitVec.getLsbD_ushiftRight]
    by_cases low : i < 8 * k
    · simp [low, show i < 8 * (k + 1) by omega]
    · by_cases top : i < 8 * (k + 1)
      · have back : 8 * k + (i - 8 * k) = i := by omega
        simp [low, top, back, show i < w by omega, show i - 8 * k < w by omega,
          show i - 8 * k < 8 by omega]
      · simp [low, top, show ¬ i - 8 * k < 8 by omega]

/-- Reading all bytes of a word gives the word back. -/
theorem ofBytes_toBytes {w : Nat} (k : Nat) (v : BitVec w) (whole : 8 * k = w) :
    (ofBytes (toBytes k v) : BitVec w) = v := by
  apply BitVec.eq_of_getLsbD_eq
  intro i bound
  rw [getLsbD_ofBytes_toBytes k v (by omega)]
  simp [show i < 8 * k by omega]

/-- Below the top byte an arithmetic shift and a logical one show the same byte. -/
theorem toBytesSigned_eq {w : Nat} (k : Nat) (v : BitVec w) (fits : 8 * k ≤ w) :
    toBytesSigned k v = toBytes k v := by
  induction k with
  | zero => rfl
  | succ k ih =>
    rw [toBytesSigned, toBytes, ih (by omega), byteAt]
    congr 2
    apply BitVec.eq_of_getLsbD_eq
    intro i bound
    simp only [BitVec.getLsbD_setWidth, BitVec.getLsbD_sshiftRight, BitVec.getLsbD_ushiftRight]
    simp [show 8 * k + i < w by omega, show ¬ w ≤ i by omega]

end Lib.BigEndian
