import Mathlib.Data.List.Range
import Mathlib.Tactic.Ring

/-!
# Circular byte buffers

A ring of capacity `n` keeps its elements in cells `0 … n - 1` of a buffer, from
`head` on and around the end. Programs copy into and out of it with at most two
block copies: up to the end of the buffer, then from its start. The lemmas say
what the two copies do to the FIFO view of the ring.

## Main definitions

* `slice buf off len`: what a block copy out of the buffer delivers.
* `blit buf off xs`: the buffer after a block copy into it.
* `window n buf head count`: the FIFO view of a ring.
* `slice_append_slice`: a two-part copy out delivers the front of the view.
* `window_blit_blit`: a two-part copy in appends to the view.
-/

namespace Aurora.Lib

open List

universe u
variable {α : Type u}

/-- The `len` cells from `off` on: what a block copy out of `buf` delivers. -/
def slice (buf : ℕ → α) (off len : ℕ) : List α := (List.range len).map fun i => buf (off + i)

/-- The buffer after `xs` has been copied to the cells from `off` on. -/
def blit (buf : ℕ → α) (off : ℕ) (xs : List α) : ℕ → α := fun i =>
  if off ≤ i then xs[i - off]?.getD (buf i) else buf i

/-- The FIFO view: `count` elements from `head` on, around the end at `n`. -/
def window (n : ℕ) (buf : ℕ → α) (head count : ℕ) : List α :=
  (List.range count).map fun i => buf ((head + i) % n)

@[simp] lemma length_slice (buf : ℕ → α) (off len : ℕ) : (slice buf off len).length = len := by
  simp [slice]

@[simp] lemma length_window (n : ℕ) (buf : ℕ → α) (head count : ℕ) :
    (window n buf head count).length = count := by
  simp [window]

@[simp] lemma window_zero (n : ℕ) (buf : ℕ → α) (head : ℕ) : window n buf head 0 = [] := rfl

/-- A view is its first `a` elements followed by the view that starts behind them. -/
lemma window_add (n : ℕ) (buf : ℕ → α) (head a b : ℕ) :
    window n buf head (a + b) = window n buf head a ++ window n buf ((head + a) % n) b := by
  simp only [window, range_add, map_append, map_map]
  congr 1
  refine map_congr_left fun i _ => ?_
  simp [Nat.add_assoc]

variable {n head count : ℕ} {buf : ℕ → α}

/-- Two buffers that agree on the cells of a view have the same view. -/
lemma window_congr {buf' : ℕ → α} (h : ∀ i < count, buf' ((head + i) % n) = buf ((head + i) % n)) :
    window n buf' head count = window n buf head count :=
  map_congr_left fun i hi => h i (mem_range.1 hi)

/-- A view that does not reach the end of the buffer is one block. -/
lemma window_eq_slice (buf : ℕ → α) (h : head + count ≤ n) :
    window n buf head count = slice buf head count := by
  refine map_congr_left fun i hi => ?_
  have hi' : i < count := mem_range.1 hi
  rw [Nat.mod_eq_of_lt (by omega)]

variable {len : ℕ}

/-- **A two-part copy out of the buffer delivers the front of the view**, also
around the end. -/
lemma slice_append_slice (buf : ℕ → α) {first : ℕ} (hhead : head < n) (hlen : len ≤ n)
    (hfirst : first = min len (n - head)) :
    slice buf head first ++ slice buf 0 (len - first) = window n buf head len := by
  have hsplit : len = first + (len - first) := by omega
  conv_rhs => rw [hsplit]
  rw [window_add, window_eq_slice buf (by omega)]
  by_cases hwrap : len ≤ n - head
  · have hzero : len - first = 0 := by omega
    simp [hzero, slice]
  · have hend : head + first = n := by omega
    rw [hend, Nat.mod_self, window_eq_slice buf (by omega)]

variable {off : ℕ} {xs : List α}

lemma blit_of_lt {i : ℕ} (h : i < off) : blit buf off xs i = buf i := by
  simp [blit, Nat.not_le.2 h]

lemma blit_of_ge {i : ℕ} (h : off + xs.length ≤ i) : blit buf off xs i = buf i := by
  unfold blit
  split
  · rw [getElem?_eq_none (by omega)]; rfl
  · rfl

lemma slice_congr {buf' : ℕ → α} (h : ∀ i < len, buf' (off + i) = buf (off + i)) :
    slice buf' off len = slice buf off len :=
  map_congr_left fun i hi => h i (mem_range.1 hi)

lemma slice_eq_iff (hlen : xs.length = len) :
    slice buf off len = xs ↔ ∀ i (h : i < xs.length), buf (off + i) = xs[i] := by
  constructor
  · rintro rfl i hi
    simp [slice]
  · intro h
    refine ext_getElem (by simp [hlen]) fun i hi hi' => ?_
    simpa [slice] using h i hi'

/-- A copy into the buffer fixes a cell or leaves it alone, whatever the buffer was. -/
lemma blit_cases (off : ℕ) (xs : List α) (i : ℕ) :
    (∃ v, ∀ buf : ℕ → α, blit buf off xs i = v) ∨ ∀ buf : ℕ → α, blit buf off xs i = buf i := by
  by_cases h : off ≤ i ∧ i - off < xs.length
  · refine .inl ⟨xs[i - off], fun buf => ?_⟩
    simp [blit, h.1, getElem?_eq_getElem h.2]
  · refine .inr fun buf => ?_
    by_cases hoff : off ≤ i
    · exact blit_of_ge (by omega)
    · exact blit_of_lt (by omega)

/-- Reading back the block that was copied in. -/
lemma slice_blit (buf : ℕ → α) (off : ℕ) (xs : List α) :
    slice (blit buf off xs) off xs.length = xs := by
  refine ext_getElem (by simp) fun i hi _ => ?_
  have hi' : i < xs.length := by simpa using hi
  simp [slice, blit, getElem?_eq_getElem hi']

lemma slice_drop (buf : ℕ → α) (off len n : ℕ) :
    (slice buf off len).drop n = slice buf (off + n) (len - n) := by
  apply ext_getElem
  · simp
  · intro i _ _
    simp [slice, Nat.add_assoc]

lemma slice_take (buf : ℕ → α) (off len n : ℕ) :
    (slice buf off len).take n = slice buf off (min n len) := by
  apply ext_getElem
  · simp
  · intro i _ _
    simp [slice]

/-- A block behind another one makes it longer. -/
lemma slice_blit_append (buf : ℕ → α) (off len : ℕ) (xs : List α) :
    slice (blit buf (off + len) xs) off (len + xs.length) = slice buf off len ++ xs := by
  have hold : slice (blit buf (off + len) xs) off len = slice buf off len :=
    slice_congr fun i hi => blit_of_lt (by omega)
  have hnew := slice_blit buf (off + len) xs
  rw [← take_append_drop len (slice _ off (len + xs.length)), slice_take, slice_drop,
    Nat.min_eq_left (Nat.le_add_right _ _), Nat.add_sub_cancel_left, hold, hnew]

/-- A block outside the copied one is unchanged. -/
lemma slice_blit_of_disjoint {o : ℕ} (h : o + len ≤ off ∨ off + xs.length ≤ o) :
    slice (blit buf off xs) o len = slice buf o len := by
  refine map_congr_left fun i hi => ?_
  have hi' : i < len := mem_range.1 hi
  rcases h with h | h
  · exact blit_of_lt (by omega)
  · exact blit_of_ge (by omega)

/-- **A two-part copy into the free cells appends to the view**, also around the
end. -/
lemma window_blit_blit (buf : ℕ → α) {tail first : ℕ} (hhead : head < n)
    (hroom : count + xs.length ≤ n) (htail : tail = (head + count) % n)
    (hfirst : first = min xs.length (n - tail)) :
    window n (blit (blit buf tail (xs.take first)) 0 (xs.drop first)) head (count + xs.length)
      = window n buf head count ++ xs := by
  set buf' := blit (blit buf tail (xs.take first)) 0 (xs.drop first) with hbuf'
  have htail_lt : tail < n := htail ▸ Nat.mod_lt _ (by omega)
  have htake : (xs.take first).length = first := by simp; omega
  have hdrop : (xs.drop first).length = xs.length - first := by simp
  -- the second part ends before the oldest element, so neither part touches the old view
  have hold : window n buf' head count = window n buf head count := by
    refine window_congr fun i hi => ?_
    have houtside : ((head + i) % n < tail ∨ tail + first ≤ (head + i) % n) ∧
        xs.length - first ≤ (head + i) % n := by
      rw [htail] at hfirst ⊢
      by_cases hc : head + count < n
      · rw [Nat.mod_eq_of_lt hc] at hfirst ⊢
        rw [Nat.mod_eq_of_lt (by omega : head + i < n)]
        omega
      · have hmod : (head + count) % n = head + count - n := by
          rw [Nat.mod_eq_sub_mod (by omega), Nat.mod_eq_of_lt (by omega)]
        by_cases hin : head + i < n
        · rw [Nat.mod_eq_of_lt hin]; omega
        · rw [Nat.mod_eq_sub_mod (by omega), Nat.mod_eq_of_lt (by omega)]; omega
    rw [hbuf', blit_of_ge (by omega)]
    rcases houtside.1 with h | h
    · exact blit_of_lt h
    · exact blit_of_ge (by omega)
  have hnew : window n buf' tail xs.length = xs := by
    rw [← slice_append_slice buf' htail_lt (by omega) hfirst]
    have hsecond : slice buf' 0 (xs.length - first) = xs.drop first := by
      rw [hbuf', ← hdrop]; exact slice_blit _ _ _
    have hfront : slice buf' tail first = xs.take first := by
      by_cases hz : xs.length - first = 0
      · have hnil : xs.drop first = [] := drop_eq_nil_of_le (by omega)
        conv_lhs => rw [← htake]
        rw [hbuf', hnil, slice_blit_of_disjoint (by simp)]
        exact slice_blit _ _ _
      · conv_lhs => rw [← htake]
        rw [hbuf', slice_blit_of_disjoint (Or.inr (by omega))]
        exact slice_blit _ _ _
    rw [hfront, hsecond, take_append_drop]
  rw [window_add, hold, ← htail, hnew]

end Aurora.Lib
