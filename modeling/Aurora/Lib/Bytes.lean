import Aurora.Lib.Ring
import Mathlib.Data.Nat.Digits.Defs
import Mathlib.Data.List.TakeDrop

/-!
# Little-endian fields

Records on a device are byte lists; a field is a little-endian number at an offset.

## Main definitions

* `toLE n v`: the `n` low bytes of `v`; `ofLE`: the number of a byte list.
* `field xs off n`: the field of `n` bytes at an offset.
* `field_append`: reading back a field that was written.
* `getLE`, `putLE`: a field of a buffer in memory.
-/

namespace Aurora.Lib

open List

/-- The `n` low bytes of `v`, the lowest first. -/
def toLE : ℕ → ℕ → List UInt8
  | 0, _ => []
  | n + 1, v => UInt8.ofNat v :: toLE n (v / 256)

/-- The number that a byte list stands for, the lowest byte first. -/
def ofLE (xs : List UInt8) : ℕ := Nat.ofDigits 256 (xs.map UInt8.toNat)

/-- The field of `n` bytes at offset `off`. -/
def field (xs : List UInt8) (off n : ℕ) : ℕ := ofLE ((xs.drop off).take n)

@[simp] lemma length_toLE (n v : ℕ) : (toLE n v).length = n := by
  induction n generalizing v with
  | zero => rfl
  | succ n ih => simp [toLE, ih]

lemma ofLE_toLE (n v : ℕ) : ofLE (toLE n v) = v % 256 ^ n := by
  induction n generalizing v with
  | zero => simp [toLE, ofLE, Nat.mod_one]
  | succ n ih =>
    have hcons : ofLE (toLE (n + 1) v) = v % 256 + 256 * ofLE (toLE n (v / 256)) := by
      simp [toLE, ofLE, Nat.ofDigits_cons]
    rw [hcons, ih, pow_succ', Nat.mod_mul]

lemma ofLE_lt (xs : List UInt8) : ofLE xs < 256 ^ xs.length := by
  have hdigits : ∀ d ∈ xs.map UInt8.toNat, d < 256 := by
    intro d hd
    obtain ⟨b, -, rfl⟩ := mem_map.1 hd
    exact b.toNat_lt
  simpa [ofLE] using Nat.ofDigits_lt_base_pow_length (by decide : 1 < 256) hdigits

lemma field_lt (xs : List UInt8) (off n : ℕ) : field xs off n < 256 ^ n := by
  refine (ofLE_lt _).trans_le (Nat.pow_le_pow_right (by decide) ?_)
  simp

/-- **Reading back a field**: the bytes before it determine its offset. -/
lemma field_append {xs ys : List UInt8} {off n v : ℕ} (hoff : xs.length = off)
    (hv : v < 256 ^ n) : field (xs ++ (toLE n v ++ ys)) off n = v := by
  have hdrop : (xs ++ (toLE n v ++ ys)).drop off = toLE n v ++ ys := by
    rw [← hoff, drop_left]
  have htake : (toLE n v ++ ys).take n = toLE n v := by
    rw [take_append_of_le_length (length_toLE n v).ge, take_of_length_le (by simp)]
  rw [field, hdrop, htake, ofLE_toLE, Nat.mod_eq_of_lt hv]

lemma field_toLE_append {ys : List UInt8} {n v : ℕ} (hv : v < 256 ^ n) :
    field (toLE n v ++ ys) 0 n = v := by
  rw [← nil_append (toLE n v ++ ys)]
  exact field_append rfl hv

/-- **Reading back a record** of fields of equal width. -/
lemma field_flatMap_toLE {vs : List ℕ} {n k v : ℕ} (hk : vs[k]? = some v) (hv : v < 256 ^ n) :
    field (vs.flatMap (toLE n)) (n * k) n = v := by
  induction vs generalizing k with
  | nil => simp at hk
  | cons w vs ih =>
    cases k with
    | zero =>
      obtain rfl : w = v := by simpa using hk
      exact field_toLE_append hv
    | succ k =>
      have hdrop : (toLE n w ++ vs.flatMap (toLE n)).drop (n * (k + 1)) =
          (vs.flatMap (toLE n)).drop (n * k) := by
        rw [drop_append, length_toLE, drop_of_length_le, nil_append]
        · congr 1
          rw [Nat.mul_succ]
          omega
        · rw [length_toLE]
          exact Nat.le_mul_of_pos_right n (Nat.succ_pos k)
      rw [flatMap_cons, field, hdrop]
      exact ih (by simpa using hk)

/-! ## Fields of a buffer in memory -/

/-- The field of `n` bytes at offset `off` of a buffer. -/
def getLE (buf : ℕ → UInt8) (off n : ℕ) : ℕ := ofLE (slice buf off n)

/-- The buffer after a field of `n` bytes has been written. -/
def putLE (buf : ℕ → UInt8) (off n v : ℕ) : ℕ → UInt8 := blit buf off (toLE n v)

lemma getLE_lt (buf : ℕ → UInt8) (off n : ℕ) : getLE buf off n < 256 ^ n := by
  simpa [getLE] using ofLE_lt (slice buf off n)

lemma getLE_congr {buf buf' : ℕ → UInt8} {off n : ℕ}
    (h : ∀ i < n, buf' (off + i) = buf (off + i)) : getLE buf' off n = getLE buf off n := by
  rw [getLE, slice_congr h, getLE]

/-- The low byte of a field is the first one. -/
lemma getLE_mod (buf : ℕ → UInt8) (off n : ℕ) : getLE buf off (n + 1) % 256 = (buf off).toNat := by
  have hcons : slice buf off (n + 1) = buf off :: slice buf (off + 1) n := by
    simp only [slice, range_succ_eq_map, map_cons, map_map, Nat.add_zero]
    congr 1
    refine map_congr_left fun i _ => ?_
    simp only [Function.comp_apply]
    congr 1
    omega
  rw [getLE, hcons, ofLE, map_cons, Nat.ofDigits_cons, Nat.add_mul_mod_self_left]
  exact Nat.mod_eq_of_lt (buf off).toNat_lt

@[simp] lemma getLE_putLE_self (buf : ℕ → UInt8) (off n v : ℕ) :
    getLE (putLE buf off n v) off n = v % 256 ^ n := by
  have hslice := slice_blit buf off (toLE n v)
  rw [length_toLE] at hslice
  rw [getLE, putLE, hslice, ofLE_toLE]

lemma getLE_putLE_of_disjoint {buf : ℕ → UInt8} {off n v off' n' : ℕ}
    (h : off' + n' ≤ off ∨ off + n ≤ off') :
    getLE (putLE buf off n v) off' n' = getLE buf off' n' := by
  rw [getLE, putLE, slice_blit_of_disjoint, getLE]
  rwa [length_toLE]

end Aurora.Lib
