import Mathlib.Data.List.Basic

/-!
# Runs of a partial step function

A system is a state type, an event type and a step function that answers `none`
when an event is not enabled. `run` folds a list of events over a state and
leaves the state alone at an event that is not enabled, so a statement about
`run step s es` for every `es` is a statement about every schedule.

## Main definitions

* `exec step s e`: one event, ignored when it is not enabled.
* `run step s es`: a whole schedule.
* `run_invariant`: what every enabled step keeps, every run keeps.
* `Along step P s es`: every event of a schedule meets `P` in the state it finds.
* `run_invariant_along`: the invariant rule for such schedules.
* `along_congr`, `Along.congr`, `Along.mono`: conditions that are the same, or stronger, under an
  invariant.
* `Along.forall_prefix_iff`, `forall_prefix_iff_along`: a condition that is needed at every step
  as well, among the schedules that meet another one or among all.
-/

namespace Aurora.Lib

universe u v
variable {σ : Type u} {ε : Type v}

/-- One event of a schedule; an event that is not enabled changes nothing. -/
def exec (step : σ → ε → Option σ) (s : σ) (e : ε) : σ := (step s e).getD s

/-- A whole schedule, from left to right. -/
def run (step : σ → ε → Option σ) (s : σ) (es : List ε) : σ := es.foldl (exec step) s

section

variable (step : σ → ε → Option σ) (s : σ)

@[simp] lemma run_nil : run step s [] = s := rfl

@[simp] lemma run_cons (e : ε) (es : List ε) :
    run step s (e :: es) = run step (exec step s e) es := rfl

lemma run_append (es fs : List ε) : run step s (es ++ fs) = run step (run step s es) fs := by
  simp [run, List.foldl_append]

end

variable {step : σ → ε → Option σ} {I : σ → Prop} {s : σ}

/-- What one enabled step keeps, one event of a schedule keeps. -/
lemma exec_invariant {e : ε} (hstep : ∀ s', step s e = some s' → I s') (hs : I s) :
    I (exec step s e) := by
  unfold exec
  cases h : step s e with
  | none => exact hs
  | some s' => exact hstep s' h

/-- **The invariant rule.** What every enabled step keeps, every run keeps. -/
lemma run_invariant (hstep : ∀ s e s', I s → step s e = some s' → I s') (hs : I s) (es : List ε) :
    I (run step s es) := by
  induction es generalizing s with
  | nil => exact hs
  | cons e es ih => exact ih (exec_invariant (fun s' h => hstep s e s' hs h) hs)

/-- Every event of the schedule meets `P` in the state in which it comes. -/
def Along (step : σ → ε → Option σ) (P : σ → ε → Prop) : σ → List ε → Prop
  | _, [] => True
  | s, e :: es => P s e ∧ Along step P (exec step s e) es

variable {P : σ → ε → Prop} {es : List ε}

/-- **The invariant rule for schedules with a condition.** What every enabled step
that meets `P` keeps, every run whose steps meet `P` keeps. -/
lemma run_invariant_along (hstep : ∀ s e s', I s → P s e → step s e = some s' → I s') (hs : I s)
    (hes : Along step P s es) : I (run step s es) := by
  induction es generalizing s with
  | nil => exact hs
  | cons e es ih =>
    obtain ⟨he, hes⟩ := hes
    exact ih (exec_invariant (fun s' h => hstep s e s' hs he h) hs) hes

variable {Q : σ → ε → Prop}

/-- Two conditions that are the same as long as an invariant holds, which they keep. -/
lemma along_congr (hiff : ∀ s e, I s → (P s e ↔ Q s e))
    (hkeep : ∀ s e, I s → Q s e → I (exec step s e)) (hs : I s) (es : List ε) :
    Along step P s es ↔ Along step Q s es := by
  induction es generalizing s with
  | nil => exact Iff.rfl
  | cons e es ih =>
    constructor
    · rintro ⟨he, hes⟩
      have he' := (hiff s e hs).1 he
      exact ⟨he', (ih (hkeep s e hs he')).1 hes⟩
    · rintro ⟨he, hes⟩
      exact ⟨(hiff s e hs).2 he, (ih (hkeep s e hs he)).2 hes⟩

/-- A condition that always holds. -/
lemma along_of_forall (h : ∀ s e, P s e) (s : σ) (es : List ε) : Along step P s es := by
  induction es generalizing s with
  | nil => trivial
  | cons e es ih => exact ⟨h s e, ih (exec step s e)⟩

/-- At each event of a schedule with a condition, the invariant and the condition hold. -/
lemma Along.at_split (hkeep : ∀ s e, I s → P s e → I (exec step s e)) (hs : I s) {fs : List ε}
    {e : ε} (h : Along step P s (es ++ e :: fs)) : I (run step s es) ∧ P (run step s es) e := by
  induction es generalizing s with
  | nil => exact ⟨hs, h.1⟩
  | cons d es ih => exact ih (hkeep s d hs h.1) h.2

/-- What a condition implies as long as an invariant holds, which it keeps. -/
lemma Along.mono (himp : ∀ s e, I s → Q s e → P s e)
    (hkeep : ∀ s e, I s → Q s e → I (exec step s e)) (hs : I s) (hes : Along step Q s es) :
    Along step P s es := by
  induction es generalizing s with
  | nil => trivial
  | cons e es ih =>
    obtain ⟨he, hes⟩ := hes
    exact ⟨himp s e hs he, ih (hkeep s e hs he) hes⟩

/-- Conditions that are the same as long as an invariant holds, which a third one keeps. -/
lemma Along.congr {P' : σ → ε → Prop} (hiff : ∀ s e, I s → (P s e ↔ P' s e))
    (hkeep : ∀ s e, I s → Q s e → I (exec step s e)) (hs : I s) (hes : Along step Q s es) :
    Along step P s es ↔ Along step P' s es := by
  induction es generalizing s with
  | nil => exact Iff.rfl
  | cons e es ih => exact and_congr (hiff s e hs) (ih (hkeep s e hs hes.1) hes.2)

variable {J : σ → Prop}

/-- **Conditions that are exact**, among the schedules that meet `Q`. If `I` implies `J`, a step
that meets `P` keeps `I`, and a step that does not meet it breaks `J`, then `J` holds all along a
schedule exactly if every event meets `P`. -/
lemma Along.forall_prefix_iff (himp : ∀ s, I s → J s)
    (hkeep : ∀ s e, I s → Q s e → P s e → I (exec step s e))
    (hneed : ∀ s e, I s → Q s e → J (exec step s e) → P s e) (hs : I s) (hes : Along step Q s es) :
    (∀ fs, fs <+: es → J (run step s fs)) ↔ Along step P s es := by
  induction es generalizing s with
  | nil =>
    refine ⟨fun _ => trivial, fun _ fs hfs => ?_⟩
    rw [List.prefix_nil.1 hfs]
    exact himp s hs
  | cons e es ih =>
    constructor
    · intro h
      have he : P s e := hneed s e hs hes.1 (h [e] ⟨es, rfl⟩)
      refine ⟨he, (ih (hkeep s e hs hes.1 he) hes.2).1 fun fs hfs => ?_⟩
      exact h (e :: fs) (List.cons_prefix_cons.2 ⟨rfl, hfs⟩)
    · rintro ⟨he, htail⟩ fs hfs
      cases fs with
      | nil => exact himp s hs
      | cons f fs =>
        obtain ⟨rfl, hrest⟩ := List.cons_prefix_cons.1 hfs
        exact (ih (hkeep s f hs hes.1 he) hes.2).2 htail fs hrest

/-- Conditions that are exact, among all schedules. -/
lemma forall_prefix_iff_along (himp : ∀ s, I s → J s)
    (hkeep : ∀ s e, I s → P s e → I (exec step s e))
    (hneed : ∀ s e, I s → J (exec step s e) → P s e) (hs : I s) (es : List ε) :
    (∀ fs, fs <+: es → J (run step s fs)) ↔ Along step P s es :=
  (along_of_forall (fun _ _ => trivial) s es).forall_prefix_iff (Q := fun _ _ => True) himp
    (fun s e hI _ => hkeep s e hI) (fun s e hI _ => hneed s e hI) hs

end Aurora.Lib
