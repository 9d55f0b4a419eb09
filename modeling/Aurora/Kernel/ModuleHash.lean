import Aurora.Lib.Ring
import Aurora.Lib.Sha256

/-!
# The hash of a module image

A kernel module is signed over the SHA-256 digest of its image, which the kernel computes with
loops of its own: the message is copied byte by byte into a block of 64 bytes on the stack, and
the padding is written into that block behind the last byte, which may take a second block.

## Main definitions

* `sha256Transform state block`: one block worked into the state.
* `absorb ctx x`: the loop over the message; `endMessage`: the end mark.
* `sha256 stack data`: the digest, from a block with any contents.
* `Reads p n ctx`: the loop has taken the first `n` bytes of `p`.

## Source

`src/kernel/module_sign.c`: `sha256_k`, `sha256_rotr`, `sha256_transform`, `sha256`.
-/

namespace Aurora.ModuleSign

open Lib Sha256 List Function

/-! ## The code -/

def sha256K : List UInt32 := [
  0x428a2f98, 0x71374491, 0xb5c0fbcf, 0xe9b5dba5, 0x3956c25b, 0x59f111f1, 0x923f82a4, 0xab1c5ed5,
  0xd807aa98, 0x12835b01, 0x243185be, 0x550c7dc3, 0x72be5d74, 0x80deb1fe, 0x9bdc06a7, 0xc19bf174,
  0xe49b69c1, 0xefbe4786, 0x0fc19dc6, 0x240ca1cc, 0x2de92c6f, 0x4a7484aa, 0x5cb0a9dc, 0x76f988da,
  0x983e5152, 0xa831c66d, 0xb00327c8, 0xbf597fc7, 0xc6e00bf3, 0xd5a79147, 0x06ca6351, 0x14292967,
  0x27b70a85, 0x2e1b2138, 0x4d2c6dfc, 0x53380d13, 0x650a7354, 0x766a0abb, 0x81c2c92e, 0x92722c85,
  0xa2bfe8a1, 0xa81a664b, 0xc24b8b70, 0xc76c51a3, 0xd192e819, 0xd6990624, 0xf40e3585, 0x106aa070,
  0x19a4c116, 0x1e376c08, 0x2748774c, 0x34b0bcb5, 0x391c0cb3, 0x4ed8aa4a, 0x5b9cca4f, 0x682e6ff3,
  0x748f82ee, 0x78a5636f, 0x84c87814, 0x8cc70208, 0x90befffa, 0xa4506ceb, 0xbef9a3f7, 0xc67178f2]

def sha256Rotr (x n : UInt32) : UInt32 := (x >>> n) ||| (x <<< (32 - n))

/-- The value of `w[i]` in the first loop. -/
def loadWord (block : ℕ → UInt8) (i : ℕ) : UInt32 :=
  (block (i * 4)).toUInt32 <<< 24 ||| (block (i * 4 + 1)).toUInt32 <<< 16 |||
    (block (i * 4 + 2)).toUInt32 <<< 8 ||| (block (i * 4 + 3)).toUInt32

/-- The value of `w[i]` in the second loop. -/
def extendWord (w : ℕ → UInt32) (i : ℕ) : UInt32 :=
  let s0 := sha256Rotr (w (i - 15)) 7 ^^^ sha256Rotr (w (i - 15)) 18 ^^^ (w (i - 15) >>> 3)
  let s1 := sha256Rotr (w (i - 2)) 17 ^^^ sha256Rotr (w (i - 2)) 19 ^^^ (w (i - 2) >>> 10)
  w (i - 16) + s0 + w (i - 7) + s1

/-- The array `w` after both loops; what it held before is never read. -/
def fillWords (block : ℕ → UInt8) : ℕ → UInt32 :=
  let w := (range' 0 16).foldl (fun w i => update w i (loadWord block i)) fun _ => 0
  (range' 16 48).foldl (fun w i => update w i (extendWord w i)) w

def roundStep (w : ℕ → UInt32) (v : Words) (i : ℕ) : Words :=
  let S1 := sha256Rotr v.e 6 ^^^ sha256Rotr v.e 11 ^^^ sha256Rotr v.e 25
  let ch := (v.e &&& v.f) ^^^ (~~~v.e &&& v.g)
  let t1 := v.h + S1 + ch + sha256K.getD i 0 + w i
  let S0 := sha256Rotr v.a 2 ^^^ sha256Rotr v.a 13 ^^^ sha256Rotr v.a 22
  let maj := (v.a &&& v.b) ^^^ (v.a &&& v.c) ^^^ (v.b &&& v.c)
  let t2 := S0 + maj
  ⟨t1 + t2, v.a, v.b, v.c, v.d + t1, v.e, v.f, v.g⟩

def sha256Transform (state : Words) (block : ℕ → UInt8) : Words :=
  let v := (List.range 64).foldl (roundStep (fillWords block)) state
  ⟨state.a + v.a, state.b + v.b, state.c + v.c, state.d + v.d, state.e + v.e, state.f + v.f,
    state.g + v.g, state.h + v.h⟩

/-- The variables of `sha256`. -/
structure Ctx where
  state : Words
  block : ℕ → UInt8
  blockIdx : ℕ

def start (stack : ℕ → UInt8) : Ctx where
  state := ⟨0x6a09e667, 0xbb67ae85, 0x3c6ef372, 0xa54ff53a,
    0x510e527f, 0x9b05688c, 0x1f83d9ab, 0x5be0cd19⟩
  block := stack
  blockIdx := 0

/-- One pass of the loop over the message. -/
def absorb (ctx : Ctx) (x : UInt8) : Ctx :=
  let block := update ctx.block ctx.blockIdx x
  if ctx.blockIdx + 1 = 64 then ⟨sha256Transform ctx.state block, block, 0⟩
  else ⟨ctx.state, block, ctx.blockIdx + 1⟩

/-- The end mark, and the block it leaves no room in for the length. -/
def endMessage (ctx : Ctx) : Ctx :=
  let block := update ctx.block ctx.blockIdx 0x80
  let blockIdx := ctx.blockIdx + 1
  if blockIdx > 56 then
    let block := blit block blockIdx (List.replicate (64 - blockIdx) 0)
    ⟨sha256Transform ctx.state block, block, 0⟩
  else ⟨ctx.state, block, blockIdx⟩

def sha256 (stack : ℕ → UInt8) (data : List UInt8) : List UInt8 :=
  let bitLen : UInt64 := .ofNat data.length * 8
  let ctx := endMessage (data.foldl absorb (start stack))
  let block := blit ctx.block ctx.blockIdx (List.replicate (56 - ctx.blockIdx) 0)
  let block := (range' 0 8).foldl (fun block i =>
    update block (56 + i) (bitLen >>> .ofNat (56 - i * 8)).toUInt8) block
  let state := sha256Transform ctx.state block
  [state.a, state.b, state.c, state.d, state.e, state.f, state.g, state.h].flatMap
    fun (x : UInt32) => [(x >>> 24).toUInt8, (x >>> 16).toUInt8, (x >>> 8).toUInt8, x.toUInt8]

/-! ## One block -/

variable {p block : ℕ → UInt8} {ctx : Ctx} {n : ℕ} {data : List UInt8} {x : UInt8}

lemma sha256K_eq : sha256K = constants := by
  decide +kernel

lemma loadWord_eq (block : ℕ → UInt8) (i : ℕ) : loadWord block i = word block i := by
  apply UInt32.eq_of_toBitVec_eq
  rw [loadWord, word, Nat.mul_comm]
  ext j hj
  simp
  grind

/-- **A loop that fills an array**: each pass reads only what earlier passes have written. -/
lemma foldl_update_eq {α : Type*} {f : (ℕ → α) → ℕ → α} {w W : ℕ → α} {a : ℕ}
    (hw : ∀ t < a, w t = W t)
    (hf : ∀ w, ∀ i, a ≤ i → i < a + n → (∀ t < i, w t = W t) → f w i = W i) :
    ∀ t < a + n, (range' a n).foldl (fun w i => update w i (f w i)) w t = W t := by
  induction n with
  | zero => simpa using hw
  | succ n ih =>
    have hpre := ih fun w i hi hlt => hf w i hi (by omega)
    intro t _
    rw [range'_concat, foldl_append, foldl_cons, foldl_nil, one_mul]
    rcases (show t < a + n ∨ t = a + n by omega) with hlt | rfl
    · rw [update_of_ne (by omega), hpre t hlt]
    · simp [hf _ _ (by omega) (by omega) hpre]

lemma fillWords_eq (block : ℕ → UInt8) : ∀ t < 64, fillWords block t = schedule block t := by
  refine foldl_update_eq (n := 48)
    (foldl_update_eq (n := 16) (fun t ht => absurd ht (by omega)) ?_) ?_
  · intro w i _ hi _
    rw [loadWord_eq, schedule, if_pos (by omega)]
  · intro w i hi _ hw
    rw [extendWord, schedule, if_neg (by omega), hw (i - 15) (by omega), hw (i - 2) (by omega),
      hw (i - 16) (by omega), hw (i - 7) (by omega)]
    change _ + smallSigma 7 18 3 _ + _ + smallSigma 17 19 10 _ = _
    ac_rfl

lemma sha256Transform_eq (state : Words) (block : ℕ → UInt8) :
    sha256Transform state block = compress state block := by
  have hround : ∀ v, ∀ i ∈ List.range 64,
      roundStep (fillWords block) v i = round (schedule block) v i := by
    intro v i hi
    rw [roundStep, fillWords_eq block i (mem_range.1 hi), sha256K_eq]
    rfl
  rw [sha256Transform, compress, foldl_ext _ _ _ hround]
  simp only [UInt32.add_comm]

/-! ## The loop over the message -/

/-- The loop has taken the first `n` bytes of `p`. -/
structure Reads (p : ℕ → UInt8) (n : ℕ) (ctx : Ctx) : Prop where
  state_eq : ctx.state = chain p (n / 64)
  idx_eq : ctx.blockIdx = n % 64
  block_eq : ∀ j < n % 64, ctx.block j = p (64 * (n / 64) + j)

lemma Reads.update (h : Reads p n ctx) (hx : x = p n) :
    ∀ j < n % 64 + 1, update ctx.block ctx.blockIdx x j = p (64 * (n / 64) + j) := by
  intro j hj
  rw [h.idx_eq]
  rcases Nat.lt_succ_iff_lt_or_eq.1 hj with hlt | rfl
  · rw [update_of_ne (by omega), h.block_eq j hlt]
  · simp [hx, Nat.div_add_mod]

lemma Reads.absorb (h : Reads p n ctx) (hx : x = p n) : Reads p (n + 1) (absorb ctx x) := by
  have hfill := h.update hx
  rw [h.idx_eq] at hfill
  rw [ModuleSign.absorb, h.idx_eq]
  split_ifs with hfull
  · have hdiv : (n + 1) / 64 = n / 64 + 1 := by omega
    have hmod : (n + 1) % 64 = 0 := by omega
    refine ⟨?_, hmod.symm, by simp [hmod]⟩
    rw [sha256Transform_eq, h.state_eq, compress_chain fun j hj => hfill j (by omega), hdiv]
  · have hdiv : (n + 1) / 64 = n / 64 := by omega
    have hmod : (n + 1) % 64 = n % 64 + 1 := by omega
    exact ⟨hdiv ▸ h.state_eq, hmod.symm, by rwa [hmod, hdiv]⟩

lemma start_reads (p stack : ℕ → UInt8) : Reads p 0 (start stack) :=
  ⟨show (start fun _ => 0).state = initial by decide +kernel, rfl, nofun⟩

lemma foldl_absorb_reads (stack : ℕ → UInt8) (hp : ∀ i (hi : i < data.length), data[i] = p i) :
    Reads p data.length (data.foldl absorb (start stack)) := by
  induction data using reverseRecOn with
  | nil => exact start_reads p stack
  | append_singleton data x ih =>
    rw [foldl_append, length_append]
    refine (ih fun i hi => ?_).absorb ?_
    · rw [← hp i (by simp; omega), getElem_append_left hi]
    · rw [← hp data.length (by simp)]
      simp

/-! ## The padding -/

/-- The buffer holds the next bytes of `p` once zeros have been written behind it. -/
lemma blit_zeros {a k : ℕ} (hbl : ∀ j < a, block j = p (64 * n + j))
    (hp : ∀ j, a ≤ j → j < k → p (64 * n + j) = 0) :
    ∀ j < k, blit block a (List.replicate (k - a) 0) j = p (64 * n + j) := by
  intro j hj
  rcases Nat.lt_or_ge j a with hlt | hge
  · rw [blit_of_lt hlt, hbl j hlt]
  · rw [hp j hge hj, blit, if_pos hge, getElem?_replicate, if_pos (by omega)]
    rfl

lemma Reads.endMessage (h : Reads p n ctx) (hmark : p n = 0x80)
    (hzero : ∀ i, n < i → i + 8 < 64 * ((n + 8) / 64 + 1) → p i = 0) :
    ∃ m, n < m ∧ m / 64 = (n + 8) / 64 ∧ Reads p m (endMessage ctx) := by
  have hfill := h.update hmark.symm
  rw [h.idx_eq] at hfill
  rw [ModuleSign.endMessage, h.idx_eq]
  dsimp only
  split_ifs with hspill
  · have hdiv : 64 * (n / 64 + 1) / 64 = n / 64 + 1 := by omega
    have hmod : 64 * (n / 64 + 1) % 64 = 0 := by omega
    refine ⟨64 * (n / 64 + 1), by omega, by omega, ?_, hmod.symm, by simp [hmod]⟩
    rw [sha256Transform_eq, h.state_eq, hdiv]
    exact compress_chain (blit_zeros hfill fun j hj hlt => hzero _ (by omega) (by omega))
  · have hdiv : (n + 1) / 64 = n / 64 := by omega
    have hmod : (n + 1) % 64 = n % 64 + 1 := by omega
    refine ⟨n + 1, by omega, by omega, hdiv ▸ h.state_eq, hmod.symm, ?_⟩
    rwa [hmod, hdiv]

lemma length_byte (hn : n < 2 ^ 61) {i : ℕ} (hi : i < 8) :
    ((UInt64.ofNat n * 8) >>> UInt64.ofNat (56 - i * 8)).toUInt8 =
      .ofNat (8 * n / 256 ^ (7 - i)) := by
  have hpow : 256 ^ (7 - i) = 2 ^ (56 - i * 8) := by
    rw [show 56 - i * 8 = 8 * (7 - i) by omega, pow_mul]
    rfl
  have hlen : (UInt64.ofNat n * 8).toNat = 8 * n := by
    simp
    omega
  have hshift : (UInt64.ofNat (56 - i * 8)).toNat % 64 = 56 - i * 8 := by
    simp
    omega
  apply UInt8.toNat.inj
  rw [UInt64.toNat_toUInt8, UInt64.toNat_shiftRight, hlen, hshift, hpow, Nat.shiftRight_eq_div_pow]
  simp

lemma bytes_eq (x : UInt32) :
    [(x >>> 24).toUInt8, (x >>> 16).toUInt8, (x >>> 8).toUInt8, x.toUInt8] = toBE 4 x.toNat := by
  have hbyte : ∀ s : UInt32, s.toNat < 32 → (x >>> s).toUInt8 = .ofNat (x.toNat / 2 ^ s.toNat) := by
    intro s hs
    apply UInt8.toNat.inj
    simp [Nat.shiftRight_eq_div_pow, Nat.mod_eq_of_lt hs]
  rw [hbyte 24 (by decide), hbyte 16 (by decide), hbyte 8 (by decide)]
  simp [toBE, range_succ]

/-- The last block: zeros behind the message, then the length. -/
lemma Reads.finish {g : ℕ → UInt8} (h : Reads p n ctx)
    (hzero : ∀ j, n % 64 ≤ j → j < 56 → p (64 * (n / 64) + j) = 0)
    (hlength : ∀ i < 8, g i = p (64 * (n / 64) + (56 + i))) :
    sha256Transform ctx.state ((range' 0 8).foldl
      (fun block i => Function.update block (56 + i) (g i))
      (blit ctx.block ctx.blockIdx (List.replicate (56 - ctx.blockIdx) 0))) =
        chain p (n / 64 + 1) := by
  rw [sha256Transform_eq, h.state_eq, h.idx_eq]
  refine compress_chain (foldl_update_eq (n := 8) (f := fun _ i => g (i - 56))
    (blit_zeros h.block_eq hzero) fun _ i hi hlt _ => ?_)
  rw [hlength _ (by omega), Nat.add_sub_cancel' hi]

/-- **The digest is that of the standard**, whatever the block on the stack held before. -/
theorem sha256_eq_digest (stack : ℕ → UInt8) (data : List UInt8) (hlen : data.length < 2 ^ 61) :
    sha256 stack data = digest data := by
  have hreads := foldl_absorb_reads (p := ((padded data).getD · 0)) stack fun i hi =>
    (getD_padded_of_lt hi).symm
  obtain ⟨m, hlt, hdiv, hend⟩ := hreads.endMessage (getD_padded_length data) fun i hi h =>
    getD_padded_of_gt hi (h.trans_eq (length_padded data).symm)
  have hstate := hend.finish (g := fun i => ((UInt64.ofNat data.length * 8) >>>
      UInt64.ofNat (56 - i * 8)).toUInt8)
    (fun j hj hlt => getD_padded_of_gt (by omega) (by rw [length_padded]; omega))
    (fun i hi => by
      rw [length_byte hlen hi, ← getD_padded_end hi, length_padded]
      congr 1
      omega)
  simp only [sha256, digest, length_padded, hstate, bytes_eq, hdiv]
  rw [Nat.mul_div_cancel_left _ (by decide)]

/-- A message whose padding takes a second block. -/
theorem sha256_eq_digest_spill : (List.replicate 56 0x61).length < 2 ^ 61 ∧
    sha256 (fun _ => 0xAA) (List.replicate 56 0x61) = digest (List.replicate 56 0x61) :=
  ⟨by simp, sha256_eq_digest _ _ (by simp)⟩

end Aurora.ModuleSign
