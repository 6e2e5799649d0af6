import Mathlib.Algebra.Group.Nat.Even
import Mathlib.Data.List.Induction
import Mathlib.Tactic.Ring

/-!
Big-endian byte strings of fixed length, the network order of `htons`, `htonl`
and their inverses. A number keeps its low `8 * count` bits.
-/

namespace Orcm.BigEndian

def encode : Nat → Nat → List UInt8
  | 0, _ => []
  | count + 1, value => encode count (value / 256) ++ [UInt8.ofNat (value % 256)]

def decode (bytes : List UInt8) : Nat := bytes.foldl (fun value byte => 256 * value + byte.toNat) 0

@[simp] theorem encode_length {count value : Nat} : (encode count value).length = count := by
  induction count generalizing value with
  | zero => rfl
  | succ count ih => simp [encode, ih]

theorem decode_concat :
    decode (bytes ++ [byte]) = 256 * decode bytes + byte.toNat := by
  simp [decode]

theorem decode_encode {count value : Nat} : decode (encode count value) = value % 256 ^ count := by
  induction count generalizing value with
  | zero => simp [encode, decode, Nat.mod_one]
  | succ count ih =>
    have byte : (UInt8.ofNat (value % 256)).toNat = value % 256 := by
      rw [UInt8.toNat_ofNat']
      omega
    rw [encode, decode_concat, ih, byte, pow_succ', Nat.mod_mul, Nat.add_comm]

theorem decode_lt (bytes : List UInt8) : decode bytes < 256 ^ bytes.length := by
  induction bytes using List.reverseRecOn with
  | nil => simp [decode]
  | append_singleton bytes byte =>
    have := byte.toNat_lt
    rw [decode_concat, List.length_append, List.length_singleton]
    omega

theorem encode_decode : encode bytes.length (decode bytes) = bytes := by
  induction bytes using List.reverseRecOn with
  | nil => rfl
  | append_singleton bytes byte ih =>
    have small := byte.toNat_lt
    rw [decode_concat, List.length_append, List.length_singleton, encode]
    have high : (256 * decode bytes + byte.toNat) / 256 = decode bytes := by omega
    have low : (256 * decode bytes + byte.toNat) % 256 = byte.toNat := by omega
    rw [high, low, ih, UInt8.ofNat_toNat]

end Orcm.BigEndian
