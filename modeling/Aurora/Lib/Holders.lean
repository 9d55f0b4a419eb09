import Mathlib.Data.List.Count
import Mathlib.Data.List.Nodup

/-!
# Counting the holders of a value

Keys hold values, and a count is kept for each value. The lemmas relate the number of keys that
hold a value before and after one key changes.

## Main definitions

* `holders f ks x`: how many of the keys `ks` hold `x` under `f`.
-/

namespace Aurora.Lib

open Function List

variable {K F : Type} [DecidableEq F]

/-- How many of the keys hold the value. -/
def holders (f : K → Option F) (ks : List K) (x : F) : ℕ := ks.countP fun k => f k = some x

variable {f f' : K → Option F} {ks : List K} {x : F}

@[simp] lemma holders_nil (f : K → Option F) (x : F) : holders f [] x = 0 := rfl

lemma holders_append (f : K → Option F) (ks ks' : List K) (x : F) :
    holders f (ks ++ ks') x = holders f ks x + holders f ks' x := countP_append ..

lemma holders_map {L : Type} (f : K → Option F) (h : L → K) (ls : List L) (x : F) :
    holders f (ls.map h) x = holders (f ∘ h) ls x := countP_map ..

lemma holders_congr (h : ∀ k ∈ ks, f k = some x ↔ f' k = some x) :
    holders f ks x = holders f' ks x :=
  countP_congr fun k hk => by simpa using h k hk

lemma holders_eq_zero : holders f ks x = 0 ↔ ∀ k ∈ ks, f k ≠ some x := by
  rw [holders, countP_eq_zero]
  simp

lemma one_le_holders {k : K} (hk : k ∈ ks) (hf : f k = some x) : 1 ≤ holders f ks x :=
  countP_pos_iff.2 ⟨k, hk, by simpa using hf⟩

/-- A value with at most one holder has no two. -/
lemma eq_of_holders_le_one (hle : holders f ks x ≤ 1) {k k' : K} (hk : k ∈ ks)
    (hk' : k' ∈ ks) (hf : f k = some x) (hf' : f k' = some x) : k = k' := by
  by_contra hne
  have hsub : [k, k'] ⊆ ks.filter fun k => f k = some x := by
    intro a ha
    rw [mem_cons, mem_singleton] at ha
    obtain rfl | rfl := ha
    · exact mem_filter.2 ⟨hk, by simpa using hf⟩
    · exact mem_filter.2 ⟨hk', by simpa using hf'⟩
  have hpair : [k, k'].Nodup := by simpa using hne
  have hlen := (subperm_of_subset hpair hsub).length_le
  rw [← countP_eq_length_filter] at hlen
  unfold holders at hle
  simp only [length_cons, length_nil] at hlen
  omega

/-- A value that no two keys hold has at most one holder. -/
lemma holders_le_one (hnodup : ks.Nodup)
    (h : ∀ k ∈ ks, ∀ k' ∈ ks, f k = some x → f k' = some x → k = k') : holders f ks x ≤ 1 := by
  by_contra hlt
  unfold holders at hlt
  obtain ⟨k, hk, hf⟩ := countP_pos_iff.1 (Nat.zero_lt_of_lt (Nat.lt_of_not_le hlt))
  have hsub : (ks.filter fun k => f k = some x) ⊆ [k] := by
    intro a ha
    rw [mem_filter, decide_eq_true_eq] at ha
    exact mem_singleton.2 (h a ha.1 k hk ha.2 (by simpa using hf))
  have hlen := (subperm_of_subset (hnodup.filter _) hsub).length_le
  rw [← countP_eq_length_filter] at hlen
  exact hlt hlen

/-- No key outside a part of the keys holds the value. -/
lemma holders_of_sublist {ks' : List K} (hsub : ks.Sublist ks') (hnodup : ks'.Nodup)
    (hout : ∀ k ∈ ks', k ∉ ks → f k ≠ some x) : holders f ks' x = holders f ks x := by
  unfold holders
  induction hsub with
  | slnil => rfl
  | cons a hsub ih =>
    obtain ⟨ha, hnodup⟩ := nodup_cons.1 hnodup
    rw [countP_cons_of_neg]
    · exact ih hnodup fun b hb => hout b (mem_cons_of_mem _ hb)
    · simpa using hout a mem_cons_self fun hmem => ha (hsub.subset hmem)
  | cons_cons a hsub ih =>
    obtain ⟨ha, hnodup⟩ := nodup_cons.1 hnodup
    rw [countP_cons, countP_cons, ih hnodup]
    intro b hb hnot
    refine hout b (mem_cons_of_mem _ hb) fun hmem => ?_
    obtain rfl | hmem := mem_cons.1 hmem
    · exact ha hb
    · exact hnot hmem

/-- When one key changes, the number of holders changes by what it held and what it holds. -/
lemma holders_update [DecidableEq K] (hnodup : ks.Nodup) {k : K} (hk : k ∈ ks) (y : Option F) :
    holders (update f k y) ks x + (if f k = some x then 1 else 0) =
      holders f ks x + (if y = some x then 1 else 0) := by
  obtain ⟨ls, ls', rfl⟩ := append_of_mem hk
  rw [nodup_append, nodup_cons] at hnodup
  obtain ⟨-, ⟨hk', -⟩, hdis⟩ := hnodup
  have hleft : holders (update f k y) ls x = holders f ls x :=
    holders_congr fun a ha => by
      rw [update_of_ne fun hak => hdis a ha k mem_cons_self hak]
  have hright : holders (update f k y) ls' x = holders f ls' x :=
    holders_congr fun a ha => by
      rw [update_of_ne]
      rintro rfl
      exact hk' ha
  have hcons : ∀ g : K → Option F, holders g (k :: ls') x =
      holders g ls' x + if g k = some x then 1 else 0 := by
    intro g
    unfold holders
    rw [countP_cons]
    simp
  rw [holders_append, holders_append, hcons, hcons, hleft, hright, update_self]
  omega

end Aurora.Lib
