import Mathlib.Data.List.Basic
import Mathlib.Tactic.Ring
/-!
# Bytes — little-endian integers in lists of bytes

A byte string is a `List UInt8`.  `leBytes k v` is the number `v` in `k` bytes, least significant first, and `leValue`
reads such a string back.  `int32` writes a number of 32 bits; `int32At` and `int64At` read at a position.  The rules
for a position walk over an append, so that a record that is written field by field is read field by field.
-/
namespace Bytes

/-- The `k` low bytes of `v`, least significant first. -/
def leBytes : Nat → Nat → List UInt8
  | 0, _ => []
  | k + 1, v => UInt8.ofNat v :: leBytes k (v / 256)

/-- The number whose bytes these are, least significant first. -/
def leValue : List UInt8 → Nat
  | [] => 0
  | b :: bs => b.toNat + 256 * leValue bs

@[simp] theorem length_leBytes : ∀ (k v : Nat), (leBytes k v).length = k
  | 0, _ => rfl
  | k + 1, v => by rw [leBytes, List.length_cons, length_leBytes k]

theorem leValue_leBytes : ∀ (k v : Nat), leValue (leBytes k v) = v % 256 ^ k
  | 0, v => by simp [leBytes, leValue, Nat.mod_one]
  | k + 1, v => by
    have hpow : 256 ^ (k + 1) = 256 * 256 ^ k := pow_succ' 256 k
    have hbyte : (UInt8.ofNat v).toNat = v % 256 := UInt8.toNat_ofNat'
    rw [leBytes, leValue, leValue_leBytes k, hbyte, hpow, Nat.mod_mul]

/-! ## The bytes at a position -/

def slice (bs : List UInt8) (i k : Nat) : List UInt8 := (bs.drop i).take k

variable {as bs : List UInt8}

@[simp] theorem slice_zero_append {k : Nat} (h : as.length = k) : slice (as ++ bs) 0 k = as := by
  unfold slice
  rw [List.drop_zero, List.take_left' h]

def int32 (v : BitVec 32) : List UInt8 := leBytes 4 v.toNat

def int32At (bs : List UInt8) (i : Nat) : BitVec 32 := BitVec.ofNat 32 (leValue (slice bs i 4))

def int64At (bs : List UInt8) (i : Nat) : BitVec 64 := BitVec.ofNat 64 (leValue (slice bs i 8))

@[simp] theorem length_int32 (v : BitVec 32) : (int32 v).length = 4 := length_leBytes 4 _

theorem ofNat_leValue {k : Nat} (v : BitVec (8 * k)) : BitVec.ofNat (8 * k) (leValue (leBytes k v.toNat)) = v := by
  have hpow : 256 ^ k = 2 ^ (8 * k) := by
    rw [pow_mul]
    norm_num
  rw [leValue_leBytes, hpow, Nat.mod_eq_of_lt v.isLt, BitVec.ofNat_toNat, BitVec.setWidth_eq]

theorem int32At_zero (v : BitVec 32) (bs : List UInt8) : int32At (int32 v ++ bs) 0 = v := by
  unfold int32At
  rw [slice_zero_append (length_int32 v)]
  exact ofNat_leValue (k := 4) v

theorem int32At_append {i : Nat} (h : as.length ≤ i) : int32At (as ++ bs) i = int32At bs (i - as.length) := by
  unfold int32At slice
  rw [List.drop_append, List.drop_eq_nil_of_le h, List.nil_append]

theorem int32At_int32 (v : BitVec 32) : int32At (int32 v) 0 = v := by
  have := int32At_zero v []
  rwa [List.append_nil] at this

theorem int32At_four (u v : BitVec 32) : int32At (int32 u ++ int32 v) 4 = v := by
  rw [int32At_append (by simp), length_int32]
  exact int32At_int32 v

theorem leValue_replicate_zero : ∀ n : Nat, leValue (List.replicate n 0) = 0
  | 0 => rfl
  | n + 1 => by
    rw [List.replicate_succ, leValue, leValue_replicate_zero n]
    rfl

theorem int32At_replicate_zero (n i : Nat) : int32At (List.replicate n 0) i = 0 := by
  unfold int32At slice
  rw [List.drop_replicate, List.take_replicate, leValue_replicate_zero]
  rfl

end Bytes
