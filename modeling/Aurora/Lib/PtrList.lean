import Mathlib.Data.List.Nodup

/-!
# Singly linked lists in memory

A list of cells is a head pointer and a `next` field in each cell; a null pointer is
`none`. `IsList next p l` says that following `next` from `p` visits exactly the
cells of `l` and then ends.

## Main definitions

* `IsList`: the representation predicate.
* `findPrev`: the search for the predecessor of a cell.
-/

namespace Aurora.Lib

open List Option Function

variable {α : Type*}

/-- Following `next` from `p` visits exactly `l` and ends. -/
def IsList (next : α → Option α) : Option α → List α → Prop
  | p, [] => p = none
  | p, a :: l => p = some a ∧ IsList next (next a) l

variable {next next' : α → Option α} {p : Option α} {a b : α} {l l1 l2 : List α}

@[simp] lemma isList_nil : IsList next p [] ↔ p = none := Iff.rfl

@[simp] lemma isList_cons : IsList next p (a :: l) ↔ p = some a ∧ IsList next (next a) l :=
  Iff.rfl

lemma IsList.congr (h : IsList next p l) (hnext : ∀ a ∈ l, next' a = next a) :
    IsList next' p l := by
  induction l generalizing p with
  | nil => exact h
  | cons a l ih =>
    refine ⟨h.1, ?_⟩
    rw [hnext a mem_cons_self]
    exact ih h.2 fun b hb => hnext b (mem_cons_of_mem a hb)

lemma IsList.head_eq (h : IsList next p l) : p = l.head? := by
  cases l with
  | nil => exact h
  | cons a l => exact h.1

/-- A pointer determines the list it starts. -/
lemma IsList.unique {m : List α} (h : IsList next p l) (h' : IsList next p m) : l = m := by
  induction l generalizing p m with
  | nil =>
    cases m with
    | nil => rfl
    | cons b m =>
      have := h.symm.trans h'.1
      cases this
  | cons a l ih =>
    cases m with
    | nil =>
      have := h'.symm.trans h.1
      cases this
    | cons b m =>
      cases h.1.symm.trans h'.1
      rw [ih h.2 h'.2]

/-- The part of a list from one of its cells on. -/
lemma IsList.suffix (h : IsList next p (l1 ++ a :: l2)) : IsList next (some a) (a :: l2) := by
  induction l1 generalizing p with
  | nil => exact ⟨rfl, h.2⟩
  | cons b l1 ih => exact ih h.2

/-- A list that ends does not come back to a cell. -/
lemma IsList.nodup (h : IsList next p l) : l.Nodup := by
  induction l generalizing p with
  | nil => exact nodup_nil
  | cons a l ih =>
    refine nodup_cons.2 ⟨fun ha => ?_, ih h.2⟩
    obtain ⟨l1, l2, rfl⟩ := append_of_mem ha
    have heq := (h.2.suffix.unique ⟨rfl, h.2⟩ : a :: l2 = a :: (l1 ++ a :: l2))
    have hlen := congrArg List.length heq
    simp only [length_cons, length_append] at hlen
    omega

lemma IsList.not_mem_left (h : IsList next p (l1 ++ a :: l2)) : a ∉ l1 := fun hmem =>
  (nodup_append.1 h.nodup).2.2 a hmem a mem_cons_self rfl

lemma IsList.next_eq (h : IsList next p (l1 ++ a :: l2)) : next a = l2.head? :=
  h.suffix.2.head_eq

variable [DecidableEq α]

lemma IsList.update (h : IsList next p l) (ha : a ∉ l) (v : Option α) :
    IsList (Function.update next a v) p l :=
  h.congr fun b hb => update_of_ne (fun he : b = a => ha (he ▸ hb)) _ _

lemma IsList.push (h : IsList next p l) (ha : a ∉ l) :
    IsList (Function.update next a p) (some a) (a :: l) := by
  refine ⟨rfl, ?_⟩
  rw [update_self]
  exact h.update ha p

/-- Pushing a cell that is in the list makes a cycle. -/
lemma IsList.not_isList_push (h : IsList next p (l1 ++ a :: l2)) (m : List α) :
    ¬ IsList (Function.update next a p) (some a) m := by
  -- whatever list starts at a cell before `a` contains one that starts at `a`
  have hreach : ∀ (l1 : List α) (q : Option α) (n : List α), a ∉ l1 →
      IsList next q (l1 ++ a :: l2) → IsList (Function.update next a p) q n →
      ∃ n', n'.length ≤ n.length ∧ IsList (Function.update next a p) (some a) n' := by
    intro l1
    induction l1 with
    | nil =>
      rintro q n - ⟨rfl, -⟩ hn
      exact ⟨n, Nat.le_refl _, hn⟩
    | cons b l1 ih =>
      rintro q n hb ⟨rfl, hrest⟩ hn
      rw [mem_cons, not_or] at hb
      cases n with
      | nil => cases isList_nil.1 hn
      | cons c n =>
        obtain ⟨hc, hn⟩ := hn
        cases hc
        rw [update_of_ne (Ne.symm hb.1)] at hn
        obtain ⟨n', hle, hn'⟩ := ih (next b) n hb.2 hrest hn
        exact ⟨n', Nat.le_succ_of_le hle, hn'⟩
  intro hm
  cases m with
  | nil => cases isList_nil.1 hm
  | cons b m =>
    obtain ⟨hb, hrest⟩ := hm
    cases hb
    rw [update_self] at hrest
    obtain ⟨n', hle, hn'⟩ := hreach l1 p m h.not_mem_left h hrest
    have heq := hn'.unique (m := a :: m) ⟨rfl, by rwa [update_self]⟩
    rw [heq, length_cons] at hle
    omega

/-- Appending a cell behind the last one. -/
lemma IsList.snoc (h : IsList next p (l ++ [b])) (ha : a ∉ l ++ [b]) :
    IsList (Function.update (Function.update next a none) b (some a)) p (l ++ [b, a]) := by
  induction l generalizing p with
  | nil =>
    have hab : a ≠ b := fun he => ha (by simp [he])
    refine ⟨h.1, ?_⟩
    simp [hab]
  | cons c l ih =>
    have hcb : c ≠ b := fun he => (nodup_cons.1 h.nodup).1 (by simp [he])
    simp only [cons_append, mem_cons, not_or] at ha
    refine ⟨h.1, ?_⟩
    rw [update_of_ne hcb, update_of_ne (Ne.symm ha.1)]
    exact ih h.2 ha.2

section

variable (h : IsList next p (l1 ++ b :: a :: l2))

include h

/-- Unlinking an inner cell: its predecessor takes over its successor. -/
lemma IsList.unlink (v : Option α) :
    IsList (Function.update (Function.update next b (next a)) a v) p (l1 ++ b :: l2) := by
  induction l1 generalizing p with
  | nil =>
    have hnd := h.nodup
    obtain ⟨hp, -, hrest⟩ := h
    simp only [nil_append, nodup_cons, mem_cons, not_or] at hnd
    obtain ⟨⟨hba, hbl⟩, hal, -⟩ := hnd
    refine ⟨hp, ?_⟩
    rw [update_of_ne hba, update_self]
    exact (hrest.update hbl _).update hal _
  | cons c l1 ih =>
    have hnd := h.nodup
    simp only [cons_append, nodup_cons, mem_append, mem_cons, not_or] at hnd
    obtain ⟨⟨-, hcb, hca, -⟩, -⟩ := hnd
    refine ⟨h.1, ?_⟩
    rw [update_of_ne hca, update_of_ne hcb]
    exact ih h.2

/-- Skipping an inner cell, whose own link stays. -/
lemma IsList.skip : IsList (Function.update next b (next a)) p (l1 ++ b :: l2) := by
  have := h.unlink (Function.update next b (next a) a)
  rwa [update_eq_self] at this

omit h in
/-- The cell before `a`: `while (prev && prev->next != a) prev = prev->next`. -/
def findPrev (next : α → Option α) (a : α) : ℕ → Option α → Option (Option α)
  | 0, _ => none
  | _ + 1, none => some none
  | fuel + 1, some b => if next b = some a then some (some b) else findPrev next a fuel (next b)

lemma findPrev_eq {fuel : ℕ} (hfuel : l1.length < fuel) :
    findPrev next a fuel p = some (some b) := by
  induction l1 generalizing p fuel with
  | nil =>
    obtain ⟨fuel, rfl⟩ := Nat.exists_eq_add_of_lt hfuel
    obtain ⟨rfl, hb, -⟩ := h
    simp [findPrev, hb]
  | cons c l1 ih =>
    simp only [length_cons] at hfuel
    obtain ⟨fuel, rfl⟩ := Nat.exists_eq_add_of_lt hfuel
    have hnd := h.nodup
    obtain ⟨rfl, hrest⟩ := h
    have hnext : next c ≠ some a := by
      intro hca
      rw [hca] at hrest
      cases l1 with
      | nil =>
        obtain ⟨hab, -⟩ := hrest
        simp [some.inj hab] at hnd
      | cons d l1 =>
        obtain ⟨had, -⟩ := hrest
        simp [some.inj had] at hnd
    rw [findPrev, if_neg hnext]
    exact ih hrest (by omega)

end

end Aurora.Lib
