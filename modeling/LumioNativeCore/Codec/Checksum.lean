import LumioNativeCore.Library.Absorbing
import Mathlib.Tactic

/-! The private checksum (`checksum.rs`): FNV-1a 64, with a little-endian digest. -/
namespace Codec

def offset : UInt64 := 0xcbf29ce484222325

def prime : UInt64 := 0x00000100000001b3

/-- One turn of the loop. -/
def absorb (hash : UInt64) (byte : UInt8) : UInt64 := (hash ^^^ byte.toUInt64) * prime

/-- `u64::to_le_bytes`. -/
def toLeBytes (v : UInt64) : List UInt8 :=
  [v.toUInt8, (v >>> 8).toUInt8, (v >>> 16).toUInt8, (v >>> 24).toUInt8, (v >>> 32).toUInt8,
    (v >>> 40).toUInt8, (v >>> 48).toUInt8, (v >>> 56).toUInt8]

def checksumBytes (input : List UInt8) : List UInt8 := toLeBytes (input.foldl absorb offset)

/-- The prime is a unit. -/
theorem mul_prime_injective : Function.Injective (· * prime) := by
  intro a b hSame
  have hUnit : prime * 0xce965057aff6957b = 1 := by decide
  calc a
    _ = a * prime * 0xce965057aff6957b := by rw [UInt64.mul_assoc, hUnit, UInt64.mul_one]
    _ = b * prime * 0xce965057aff6957b := congrArg (· * 0xce965057aff6957b) hSame
    _ = b := by rw [UInt64.mul_assoc, hUnit, UInt64.mul_one]

theorem absorb_separates : Absorbing.Separates absorb where
  hashes := by
    intro byte hash hash' hSame
    exact (UInt64.xor_left_inj _).mp (mul_prime_injective hSame)
  symbols := by
    intro hash byte byte' hSame
    have hBytes := (UInt64.xor_right_inj _).mp (mul_prime_injective hSame)
    rwa [← UInt64.toNat_inj, UInt8.toNat_toUInt64, UInt8.toNat_toUInt64, UInt8.toNat_inj] at hBytes

/-- The digits of base 256 determine a number. -/
theorem eq_of_digits {n a b : Nat} (ha : a < 2 ^ (8 * n)) (hb : b < 2 ^ (8 * n))
    (h : ∀ k < n, a / 2 ^ (8 * k) % 256 = b / 2 ^ (8 * k) % 256) : a = b := by
  induction n generalizing a b with
  | zero => omega
  | succ n ih =>
      have hFirst := h 0 (Nat.succ_pos n)
      rw [Nat.mul_succ, Nat.pow_add] at ha hb
      have hRest : a / 256 = b / 256 := by
        apply ih
        · exact (Nat.div_lt_iff_lt_mul (by decide)).mpr ha
        · exact (Nat.div_lt_iff_lt_mul (by decide)).mpr hb
        · intro k hk
          have hNext := h (k + 1) (Nat.succ_lt_succ hk)
          rw [Nat.mul_succ, Nat.pow_add, Nat.mul_comm (2 ^ (8 * k)), ← Nat.div_div_eq_div_mul,
            ← Nat.div_div_eq_div_mul] at hNext
          exact hNext
      simp only [Nat.mul_zero, Nat.pow_zero, Nat.div_one] at hFirst
      omega

theorem toLeBytes_injective : Function.Injective toLeBytes := by
  intro v w hSame
  simp only [toLeBytes, List.cons.injEq, ← UInt8.toNat_inj, UInt64.toNat_toUInt8,
    UInt64.toNat_shiftRight, Nat.shiftRight_eq_div_pow] at hSame
  have hBytes : ∀ k < 8, v.toNat / 2 ^ (8 * k) % 256 = w.toNat / 2 ^ (8 * k) % 256 := by
    intro k hk
    interval_cases k
    · simpa using hSame.1
    · exact hSame.2.1
    · exact hSame.2.2.1
    · exact hSame.2.2.2.1
    · exact hSame.2.2.2.2.1
    · exact hSame.2.2.2.2.2.1
    · exact hSame.2.2.2.2.2.2.1
    · exact hSame.2.2.2.2.2.2.2.1
  have hv := v.toNat_lt
  have hw := w.toNat_lt
  exact UInt64.toNat_inj.mp (eq_of_digits (by simpa using hv) (by simpa using hw) hBytes)

/-- The checksum tells any two inputs apart that differ in one byte, and what follows a
difference never hides it. -/
theorem checksum_detects :
    (∀ before after byte byte', checksumBytes (before ++ byte :: after) =
      checksumBytes (before ++ byte' :: after) ↔ byte = byte') ∧
    ∀ input input' suffix, checksumBytes (input ++ suffix) = checksumBytes (input' ++ suffix) ↔
      checksumBytes input = checksumBytes input' := by
  refine ⟨fun before after byte byte' => ?_, fun input input' suffix => ?_⟩
  · exact toLeBytes_injective.eq_iff.trans (absorb_separates.replaced_iff _ _ _ _ _)
  · exact toLeBytes_injective.eq_iff.trans
      ((absorb_separates.append_iff _ _ _ _).trans toLeBytes_injective.eq_iff.symm)

example : checksumBytes [97] = [0x8c, 0xec, 0x01, 0x86, 0x4c, 0xdc, 0x63, 0xaf] := by decide

end Codec
