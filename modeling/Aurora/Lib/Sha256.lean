import Mathlib.Algebra.Group.Nat.Defs
import Mathlib.Data.List.GetD
import Mathlib.Data.Nat.NthRoot.Defs
import Mathlib.Tactic.SplitIfs

/-!
# SHA-256

The hash of FIPS 180-4 over byte strings. The constants are read off the roots of the first
primes, as the standard defines them, and not off a table.

## Main definitions

* `padded data`: the message with its padding, a whole number of blocks.
* `compress H block`: one block worked into the hash value.
* `chain p n`: the hash value after the first `n` blocks of `p`.
* `digest data`: the message digest.
-/

namespace Aurora.Lib.Sha256

open List

/-- Eight words: a hash value, or the working variables. -/
structure Words where
  (a b c d e f g h : UInt32)
  deriving DecidableEq

/-- The first sixty-four primes: a divisor of a composite number below `18 ^ 2` is at most 17. -/
def primes : List ℕ :=
  (List.range 312).filter fun p => 2 ≤ p ∧ ∀ d ∈ range' 2 16, d ∣ p → d = p

/-- The first 32 bits of the fractional part of the `n`th root of `p`. -/
def rootBits (n p : ℕ) : UInt32 := .ofNat (Nat.nthRoot n (p * 2 ^ (32 * n)))

/-- The constants of the sixty-four rounds. -/
def constants : List UInt32 := primes.map (rootBits 3)

def initial : Words :=
  ⟨rootBits 2 2, rootBits 2 3, rootBits 2 5, rootBits 2 7, rootBits 2 11, rootBits 2 13,
    rootBits 2 17, rootBits 2 19⟩

def rotr (n : ℕ) (x : UInt32) : UInt32 := ⟨x.toBitVec.rotateRight n⟩

def ch (x y z : UInt32) : UInt32 := (x &&& y) ^^^ (~~~x &&& z)

def maj (x y z : UInt32) : UInt32 := (x &&& y) ^^^ (x &&& z) ^^^ (y &&& z)

/-- The functions the standard writes with a capital sigma: three rotations. -/
def bigSigma (i j k : ℕ) (x : UInt32) : UInt32 := rotr i x ^^^ rotr j x ^^^ rotr k x

/-- The functions the standard writes with a small sigma: two rotations and a shift. -/
def smallSigma (i j : ℕ) (k x : UInt32) : UInt32 := rotr i x ^^^ rotr j x ^^^ (x >>> k)

/-- Word `t` of a block, the highest byte first. -/
def word (block : ℕ → UInt8) (t : ℕ) : UInt32 :=
  ⟨(block (4 * t)).toBitVec ++ (block (4 * t + 1)).toBitVec ++ (block (4 * t + 2)).toBitVec ++
    (block (4 * t + 3)).toBitVec⟩

/-- The message schedule of a block. -/
def schedule (block : ℕ → UInt8) (t : ℕ) : UInt32 :=
  if t < 16 then word block t
  else smallSigma 17 19 10 (schedule block (t - 2)) + schedule block (t - 7) +
    smallSigma 7 18 3 (schedule block (t - 15)) + schedule block (t - 16)

def round (w : ℕ → UInt32) (v : Words) (t : ℕ) : Words :=
  let t1 := v.h + bigSigma 6 11 25 v.e + ch v.e v.f v.g + constants.getD t 0 + w t
  let t2 := bigSigma 2 13 22 v.a + maj v.a v.b v.c
  ⟨t1 + t2, v.a, v.b, v.c, v.d + t1, v.e, v.f, v.g⟩

def compress (H : Words) (block : ℕ → UInt8) : Words :=
  let v := (List.range 64).foldl (round (schedule block)) H
  ⟨v.a + H.a, v.b + H.b, v.c + H.c, v.d + H.d, v.e + H.e, v.f + H.f, v.g + H.g, v.h + H.h⟩

/-- The `n` bytes of a number, the highest first. -/
def toBE (n v : ℕ) : List UInt8 := (List.range n).map fun i => .ofNat (v / 256 ^ (n - 1 - i))

/-- The message, a one bit, zeros up to eight bytes before the end of a block, and the length of
the message in bits. -/
def padded (data : List UInt8) : List UInt8 :=
  data ++ 0x80 :: (List.replicate ((119 - data.length % 64) % 64) 0 ++
    toBE 8 (8 * data.length))

/-- The hash value after the first `n` blocks of `p`. -/
def chain (p : ℕ → UInt8) (n : ℕ) : Words :=
  (List.range n).foldl (fun H i => compress H fun j => p (64 * i + j)) initial

def digest (data : List UInt8) : List UInt8 :=
  let H := chain ((padded data).getD · 0) ((padded data).length / 64)
  [H.a, H.b, H.c, H.d, H.e, H.f, H.g, H.h].flatMap fun x => toBE 4 x.toNat

variable {data : List UInt8} {p block block' : ℕ → UInt8} {H : Words} {i n : ℕ}

/-! ## Only the bytes of the block count -/

lemma schedule_congr (h : ∀ j < 64, block j = block' j) (t : ℕ) :
    schedule block t = schedule block' t := by
  induction t using Nat.strongRecOn with
  | ind t ih =>
    rw [schedule, schedule.eq_def block']
    split_ifs with ht
    · simp only [word, h _ (show 4 * t + 3 < 64 by omega), h _ (show 4 * t + 2 < 64 by omega),
        h _ (show 4 * t + 1 < 64 by omega), h _ (show 4 * t < 64 by omega)]
    · rw [ih (t - 2) (by omega), ih (t - 7) (by omega), ih (t - 15) (by omega),
        ih (t - 16) (by omega)]

/-- **One more block**: a buffer that holds the next block takes the hash value on. -/
lemma compress_chain (h : ∀ j < 64, block j = p (64 * n + j)) :
    compress (chain p n) block = chain p (n + 1) := by
  rw [chain, chain, range_succ, foldl_append, foldl_cons, foldl_nil, compress,
    compress, funext (schedule_congr h)]

/-! ## The padding -/

lemma length_padded (data : List UInt8) :
    (padded data).length = 64 * ((data.length + 8) / 64 + 1) := by
  simp only [padded, length_append, length_cons, length_replicate,
    toBE, length_map, length_range]
  omega

lemma getD_padded_of_lt (h : i < data.length) : (padded data).getD i 0 = data[i] := by
  rw [padded, getD_append _ _ _ _ h, getD_eq_getElem _ _ h]

lemma getD_padded_length (data : List UInt8) : (padded data).getD data.length 0 = 0x80 := by
  rw [padded, getD_append_right _ _ _ _ (Nat.le_refl _), Nat.sub_self, getD_cons_zero]

lemma getD_padded_add (data : List UInt8) (i : ℕ) : (padded data).getD (data.length + (i + 1)) 0 =
      (List.replicate ((119 - data.length % 64) % 64) 0 ++ toBE 8 (8 * data.length)).getD i 0 := by
  rw [padded, getD_append_right _ _ _ _ (Nat.le_add_right _ _), Nat.add_sub_cancel_left,
    getD_cons_succ]

lemma getD_padded_of_gt (h : data.length < i) (hi : i + 8 < (padded data).length) :
    (padded data).getD i 0 = 0 := by
  rw [length_padded] at hi
  obtain ⟨j, rfl⟩ := Nat.exists_eq_add_of_lt h
  rw [Nat.add_assoc, getD_padded_add, getD_append _ _ _ _ (by simp; omega)]
  simp

lemma getD_padded_end (hi : i < 8) : (padded data).getD ((padded data).length - 8 + i) 0 =
    .ofNat (8 * data.length / 256 ^ (7 - i)) := by
  have hidx : (padded data).length - 8 + i =
      data.length + ((119 - data.length % 64) % 64 + i + 1) := by
    rw [length_padded]
    omega
  rw [hidx, getD_padded_add, getD_append_right _ _ _ _ (by simp)]
  simp [toBE, hi]

end Aurora.Lib.Sha256
