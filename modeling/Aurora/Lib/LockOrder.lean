import Aurora.Lib.Run
import Mathlib.Data.Set.Finite.Lemmas

/-!
# Parties that take locks

Parties run programs, whose steps acquire and release locks in any interleaving. If every program
acquires its locks in ascending order, there is never a set of parties that wait for each other.

## Main definitions

* `Action`, `Locks`, `Locks.step`: programs, and the machine that runs them.
* `Locks.Deadlock`: a set of parties each of which waits for a lock that another one holds.
* `Climbs`: a program that acquires locks above those it holds, and releases all.
* `Locks.Orderly`: what every party's program keeps.
* `Locks.Orderly.not_deadlock`: there is no deadlock then.
-/

namespace Aurora.Lib

open Function

variable {P L : Type}

/-- A step of a program. -/
inductive Action (L : Type)
  | acquire (l : L)
  | release (l : L)

/-- The party that holds each lock, and what is left of each party's program. -/
structure Locks (P L : Type) where
  owner : L → Option P
  prog : P → List (Action L)

namespace Locks

/-- No lock is held, and no program runs. -/
def init : Locks P L := ⟨fun _ => none, fun _ => []⟩

/-- A party whose program has ended starts another one. -/
def start [DecidableEq P] (s : Locks P L) (p : P) (prog : List (Action L)) : Option (Locks P L) :=
  match s.prog p with
  | [] => some { s with prog := Function.update s.prog p prog }
  | _ :: _ => none

/-- A party makes the next step of its program, for which it waits while the lock is held. -/
def act [DecidableEq P] [DecidableEq L] (s : Locks P L) (p : P) : Option (Locks P L) :=
  match s.prog p with
  | [] => none
  | .acquire l :: rest =>
    match s.owner l with
    | none => some ⟨Function.update s.owner l (some p), Function.update s.prog p rest⟩
    | some _ => none
  | .release l :: rest => some ⟨Function.update s.owner l none, Function.update s.prog p rest⟩

/-- The party waits for the lock, which the other party holds. -/
def WaitsFor (s : Locks P L) (p : P) (l : L) (q : P) : Prop :=
  (∃ rest, s.prog p = .acquire l :: rest) ∧ s.owner l = some q

/-- Each party of some set waits for a lock that another party of the set holds. -/
def Deadlock (s : Locks P L) : Prop :=
  ∃ S : Set P, S.Nonempty ∧ ∀ p ∈ S, ∃ q ∈ S, q ≠ p ∧ ∃ l, s.WaitsFor p l q

end Locks

section

variable [LinearOrder L]

/-- With the locks `held`, the program acquires only locks above them, releases only locks that it
holds, and ends with none. -/
def Climbs : List L → List (Action L) → Prop
  | held, [] => held = []
  | held, .acquire l :: rest => (∀ h ∈ held, h < l) ∧ Climbs (l :: held) rest
  | held, .release l :: rest => l ∈ held ∧ Climbs (held.erase l) rest

namespace Locks

/-- Each party holds some locks, above which the rest of its program climbs. -/
def Orderly (s : Locks P L) : Prop :=
  ∀ p, ∃ held : List L, held.Nodup ∧ (∀ l, s.owner l = some p ↔ l ∈ held) ∧ Climbs held (s.prog p)

variable {s s' : Locks P L}

lemma orderly_init : (init : Locks P L).Orderly :=
  fun _ => ⟨[], List.nodup_nil, fun _ => ⟨nofun, nofun⟩, rfl⟩

/-- **No deadlock.** Of the locks that the parties of the set wait for, take the highest one: the
party that holds it waits for a higher one. -/
lemma Orderly.not_deadlock [Finite P] (h : s.Orderly) : ¬ s.Deadlock := by
  rintro ⟨S, ⟨p0, hp0⟩, hS⟩
  obtain ⟨-, -, -, l0, -⟩ := hS p0 hp0
  have hlocks : Nonempty L := ⟨l0⟩
  choose! next hnext _ lock hwaits using hS
  obtain ⟨p, hp, hmax⟩ := Set.exists_max_image S lock (Set.toFinite S) ⟨p0, hp0⟩
  obtain ⟨held, -, hheld, hclimbs⟩ := h (next p)
  obtain ⟨⟨_, hprog⟩, -⟩ := hwaits (next p) (hnext p hp)
  rw [hprog] at hclimbs
  have hlt := hclimbs.1 (lock p) ((hheld (lock p)).1 (hwaits p hp).2)
  exact absurd (hmax (next p) (hnext p hp)) (not_le.2 hlt)

/-- A program that climbs from no lock may be started. -/
lemma Orderly.start [DecidableEq P] {p : P} {prog : List (Action L)} (h : s.Orderly)
    (hprog : Climbs [] prog) (hstart : s.start p prog = some s') : s'.Orderly := by
  unfold Locks.start at hstart
  split at hstart
  · rename_i hdone
    cases hstart
    intro q
    obtain ⟨held, hnodup, hheld, hclimbs⟩ := h q
    refine ⟨held, hnodup, hheld, ?_⟩
    show Climbs held (update s.prog p prog q)
    by_cases hq : q = p
    · rw [hq, hdone] at hclimbs
      have hnone : held = [] := hclimbs
      rwa [hq, update_self, hnone]
    · rwa [update_of_ne hq]
  · cases hstart

/-- A party that acquires a lock holds one more. -/
lemma Orderly.acquire [DecidableEq P] {p : P} {l : L} {rest : List (Action L)} (h : s.Orderly)
    (hprog : s.prog p = .acquire l :: rest) (hfree : s.owner l = none) :
    Orderly ⟨update s.owner l (some p), update s.prog p rest⟩ := by
  intro q
  obtain ⟨held, hnodup, hheld, hclimbs⟩ := h q
  have hnot : l ∉ held := fun hl => by cases hfree.symm.trans ((hheld l).2 hl)
  by_cases hq : q = p
  · rw [hq, hprog] at hclimbs
    refine ⟨l :: held, List.nodup_cons.2 ⟨hnot, hnodup⟩, fun l' => ?_, ?_⟩
    · by_cases hl : l' = l
      · simp [hl, hq]
      · simp [hl, hheld]
    · simp only [hq, update_self]
      exact hclimbs.2
  · refine ⟨held, hnodup, fun l' => ?_, ?_⟩
    · by_cases hl : l' = l
      · simp [hl, hnot, Ne.symm hq]
      · simp [hl, hheld]
    · simp only [update_of_ne hq]
      exact hclimbs

/-- A party that releases a lock holds one less. -/
lemma Orderly.release [DecidableEq P] {p : P} {l : L} {rest : List (Action L)} (h : s.Orderly)
    (hprog : s.prog p = .release l :: rest) :
    Orderly ⟨update s.owner l none, update s.prog p rest⟩ := by
  have howner : s.owner l = some p := by
    obtain ⟨held, -, hheld, hclimbs⟩ := h p
    rw [hprog] at hclimbs
    exact (hheld l).2 hclimbs.1
  intro q
  obtain ⟨held, hnodup, hheld, hclimbs⟩ := h q
  by_cases hq : q = p
  · rw [hq, hprog] at hclimbs
    refine ⟨held.erase l, hnodup.erase l, fun l' => ?_, ?_⟩
    · by_cases hl : l' = l
      · simp [hl, hnodup.not_mem_erase]
      · simp [hl, hheld, List.mem_erase_of_ne hl]
    · simp only [hq, update_self]
      exact hclimbs.2
  · have hnot : l ∉ held := fun hl => hq (Option.some.inj (((hheld l).2 hl).symm.trans howner))
    refine ⟨held, hnodup, fun l' => ?_, ?_⟩
    · by_cases hl : l' = l
      · simp [hl, hnot]
      · simp [hl, hheld]
    · simp only [update_of_ne hq]
      exact hclimbs

/-- Every step of a program keeps the order. -/
lemma Orderly.act [DecidableEq P] {p : P} (h : s.Orderly) (hact : s.act p = some s') :
    s'.Orderly := by
  unfold Locks.act at hact
  split at hact
  · cases hact
  · rename_i l rest hprog
    split at hact
    · rename_i hfree
      cases hact
      exact h.acquire hprog hfree
    · cases hact
  · rename_i l rest hprog
    cases hact
    exact h.release hprog

end Locks

end

end Aurora.Lib
