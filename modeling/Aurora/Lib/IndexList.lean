import Mathlib.Data.List.Nodup

/-!
# Linked segments without an end marker

Cells of an array are linked by a `next` field that always holds an index. Where a list ends is
not written in it: `Seg next a l b` says that following `next` from `a` visits the cells of `l`
and then arrives at `b`, whatever `b` is.

## Main definitions

* `Seg`: the representation predicate.
* `cells next a n`: the first `n` cells from `a` on.
-/

namespace Aurora.Lib

variable {α : Type*}

/-- Following `next` from `a` visits exactly `l` and arrives at `b`. -/
def Seg (next : α → α) : α → List α → α → Prop
  | a, [], b => a = b
  | a, x :: l, b => a = x ∧ Seg next (next x) l b

/-- The first `n` cells from `a` on. -/
def cells (next : α → α) : α → ℕ → List α
  | _, 0 => []
  | a, n + 1 => a :: cells next (next a) n

variable {next next' : α → α} {a b c x : α} {l m : List α}

@[simp] lemma seg_nil : Seg next a [] b ↔ a = b := Iff.rfl

@[simp] lemma seg_cons : Seg next a (x :: l) b ↔ a = x ∧ Seg next (next x) l b := Iff.rfl

lemma Seg.congr (h : Seg next a l b) (hnext : ∀ x ∈ l, next' x = next x) : Seg next' a l b := by
  induction l generalizing a with
  | nil => exact h
  | cons x l ih =>
    refine ⟨h.1, ?_⟩
    rw [hnext x List.mem_cons_self]
    exact ih h.2 fun y hy => hnext y (List.mem_cons_of_mem x hy)

lemma Seg.append (h : Seg next a l b) (h' : Seg next b m c) : Seg next a (l ++ m) c := by
  induction l generalizing a with
  | nil =>
    obtain rfl := seg_nil.1 h
    exact h'
  | cons x l ih => exact ⟨h.1, ih h.2⟩

lemma seg_append : Seg next a (l ++ m) c ↔ ∃ b, Seg next a l b ∧ Seg next b m c := by
  refine ⟨fun h => ?_, fun ⟨b, h, h'⟩ => h.append h'⟩
  induction l generalizing a with
  | nil => exact ⟨a, rfl, h⟩
  | cons x l ih =>
    obtain ⟨b, hl, hm⟩ := ih h.2
    exact ⟨b, ⟨h.1, hl⟩, hm⟩

/-- The cells of a segment are those that are found by following the links. -/
lemma Seg.cells_eq (h : Seg next a l b) : cells next a l.length = l := by
  induction l generalizing a with
  | nil => rfl
  | cons x l ih =>
    obtain ⟨rfl, h⟩ := h
    rw [List.length_cons, cells, ih h]

end Aurora.Lib
