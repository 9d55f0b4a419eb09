import Aurora.Kernel.SignalReturn
import Aurora.Lib.Run

/-!
# The mask of blocked signals

`sigprocmask` takes `SIGKILL` and `SIGSTOP` out of the mask, but it is not the only one that
writes it: the delivery of a signal adds the mask of its action, and `sigreturn` takes the mask
from the frame on the user stack.

## Main definitions

* `Event`, `step`: what can happen to a task and its signal state.
* `Unblockable`: the two signals stay out of the mask, and `SIGKILL` ends the task.
* `unblockable_iff`: when.
-/

namespace Aurora.Signal

open Lib Option

def sigkill : ℕ := 9
def sigstop : ℕ := 19

/-- `do_sys_sigaction` with an action that can be read. -/
def doSysSigaction (t : Task) (signo : ℕ) (act : Sigaction) : Task :=
  if signo < 1 ∨ signo ≥ nsig ∨ signo = sigkill then t
  else { t with actions := Function.update t.actions signo act }

/-- `sys_sigprocmask` with a set that can be read. -/
def sysSigprocmask (t : Task) (how : ℤ) (set : BitVec 64) : Task :=
  if how < 0 ∨ how > 2 then t
  else
    let blocked :=
      if how = 0 then t.blocked ||| set else if how = 1 then t.blocked &&& ~~~set else set
    { t with blocked := blocked &&& ~~~(1#64 <<< sigkill ||| 1#64 <<< sigstop) }

/-- What can happen to a task. -/
inductive Event where
  | sigaction (signo : ℕ) (act : Sigaction)
  | sigprocmask (how : ℤ) (set : BitVec 64)
  | kill (s : ℕ)
  /-- The task runs in user mode, and its memory and registers change. -/
  | user (tf : Trapframe) (mem : ℕ → UInt8) (mapped vma : ℕ → Bool)
  | checkSignals
  | sigreturn (garbage : BitVec 64)

/-- The task afterwards, unless it was ended. -/
def Delivery.task : Delivery → Option Task
  | .exited _ => none
  | .returned t => some t
  | .entered _ t => some t

def act (t : Task) : Event → Option Task
  | .sigaction signo act => some (doSysSigaction t signo act)
  | .sigprocmask how set => some (sysSigprocmask t how set)
  | .kill s => some { t with pending := raise t.pending s }
  | .user tf mem mapped vma => some { t with tf, mem, mapped, vma }
  | .checkSignals => (checkSignals t).task
  | .sigreturn garbage => some (doSysSigreturn garbage t)

def step (s : Option Task) (e : Event) : Option (Option Task) := s.map (act · e)

/-- Neither of the two signals is in the mask. -/
def Free (mask : BitVec 64) : Prop := mask.getLsbD sigkill = false ∧ mask.getLsbD sigstop = false

/-- The mask stays free of the two signals, and with `SIGKILL` pending the task is ended when its
signals are checked. -/
def Unblockable (s : Option Task) (e : Event) : Prop :=
  ∀ t, s = some t → (∀ t', act t e = some t' → Free t'.blocked) ∧
    (e = .checkSignals → t.pending.getLsbD sigkill = true → act t e = none)

/-- The mask that `sigreturn` restores. -/
def restoredMask (garbage : BitVec 64) (t : Task) : BitVec 64 :=
  ((copyFrame t (t.savedRsp - BitVec.ofNat 64 sigframeSize).toNat).map Sigframe.blocked).getD
    garbage

/-- The mask restored from the frame is free of the two signals; and so is the mask of an action
whose handler is entered, which is not that of `SIGSTOP` nor entered with `SIGKILL` pending. -/
def Careful (s : Option Task) (e : Event) : Prop :=
  ∀ t, s = some t →
    match e with
    | .checkSignals => ∀ s, chosen t = some s → (t.actions s).handler ≠ sigDfl → hasRoom t = true →
        t.pending.getLsbD sigkill = false ∧ s ≠ sigstop ∧ Free (t.actions s).mask
    | .sigreturn garbage => t.savedRip ≠ 0 → Free (restoredMask garbage t)
    | _ => True

/-- The mask is free of the two signals, and `SIGKILL` has its default action. -/
def Inv (s : Option Task) : Prop :=
  ∀ t, s = some t → Free t.blocked ∧ (t.actions sigkill).handler = sigDfl

section

variable {t t' : Task} {e : Event}

section

variable (hfree : Free t.blocked) (hdfl : (t.actions sigkill).handler = sigDfl)

include hfree hdfl

lemma chosen_of_pending (hpend : t.pending.getLsbD sigkill = true) :
    ∃ s, chosen t = some s ∧ s ≤ sigkill := by
  have hacts : t.acts sigkill = true := by simp [Task.acts, hpend, hfree.1, hdfl]
  cases hs : chosen t with
  | none =>
    have := List.find?_eq_none.1 hs sigkill (by decide)
    contradiction
  | some s =>
    refine ⟨s, rfl, not_lt.1 fun hlt => ?_⟩
    obtain ⟨-, -, hmin⟩ := List.find?_range'_eq_some.1 hs
    simpa [hacts] using hmin sigkill (by decide) hlt

omit hfree hdfl in
/-- The default action of a signal up to `SIGKILL` ends the task. -/
lemma task_doSignalDefault {s : ℕ} (hs : s ≤ sigkill) : (doSignalDefault t s).task = none := by
  have hne : s ≠ sigchld := by
    rintro rfl
    exact absurd hs (by decide)
  rw [doSignalDefault, if_neg hne]
  rfl

omit hfree hdfl in
lemma blocked_doSignalDefault {s : ℕ} (h : (doSignalDefault t s).task = some t') : t' = t := by
  unfold doSignalDefault at h
  split_ifs at h
  · exact (some.inj h).symm
  · cases h

omit hdfl in
/-- The mask while a handler runs. -/
lemma free_pushFrame {s : ℕ} (hs : s ≠ sigkill) :
    Free (pushFrame t s).blocked ↔ s ≠ sigstop ∧ Free (t.actions s).mask := by
  have hkill : sigkill ≠ s := hs.symm
  simp only [Free, pushFrame, BitVec.getLsbD_or, getLsbD_sigbit, hfree.1, hfree.2, hkill, ne_eq,
    decide_false, Bool.and_false, Bool.false_or, Bool.or_eq_false_iff, Bool.and_eq_false_iff,
    decide_eq_false_iff_not, eq_comm (a := sigstop)]
  simp [sigstop]
  tauto

lemma unblockable_checkSignals :
    Unblockable (some t) .checkSignals ↔ Careful (some t) .checkSignals := by
  obtain ⟨p, -, hrun⟩ := checkSignals_eq t
  have hlow := chosen_of_pending hfree hdfl
  simp only [Unblockable, Careful, some.injEq, forall_eq', act, hrun, true_implies]
  cases hs : chosen t with
  | none =>
    rw [hs] at hlow
    refine iff_of_true ⟨?_, fun hpend => ?_⟩ nofun
    · rintro t' ⟨⟩
      exact hfree
    · obtain ⟨s, ⟨⟩, -⟩ := hlow hpend
  | some s =>
    have hlow : t.pending.getLsbD sigkill = true → s ≤ sigkill := by
      intro hpend
      obtain ⟨s', hs', hle⟩ := hlow hpend
      cases hs.symm.trans hs'
      exact hle
    -- the default action, also without room for the frame
    have hdefault : (∀ t', (doSignalDefault { t with pending := p } s).task = some t' →
          Free t'.blocked) ∧ (t.pending.getLsbD sigkill = true →
          (doSignalDefault { t with pending := p } s).task = none) := by
      refine ⟨fun t' ht' => ?_, fun hpend => task_doSignalDefault (hlow hpend)⟩
      rwa [blocked_doSignalDefault ht']
    by_cases hact : (t.actions s).handler = sigDfl
    · simp only [hact, if_true]
      refine iff_of_true hdefault ?_
      rintro s' ⟨⟩ hne
      exact absurd hact hne
    simp only [hact, if_false, enterHandler]
    by_cases hroom : hasRoom t = true
    · have hroom' : hasRoom { t with pending := p } = true := hroom
      have hne : s ≠ sigkill := by
        rintro rfl
        exact hact hdfl
      have hpush := free_pushFrame (t := { t with pending := p }) hfree hne
      simp only [hroom', if_true, Delivery.task, some.injEq, forall_eq', hpush, reduceCtorEq,
        imp_false, Bool.not_eq_true, hact, hroom, not_false_eq_true, true_implies, ne_eq]
      tauto
    · have hroom' : ¬ hasRoom { t with pending := p } = true := hroom
      simp only [hroom']
      refine iff_of_true hdefault fun _ _ _ hyes => absurd hyes hroom

/-- At one event. -/
lemma unblockable_iff_careful (e : Event) : Unblockable (some t) e ↔ Careful (some t) e := by
  cases e with
  | checkSignals => exact unblockable_checkSignals hfree hdfl
  | sigreturn _ =>
    simp only [Unblockable, Careful, some.injEq, forall_eq', act, doSysSigreturn,
      restoredMask, reduceCtorEq, false_implies, and_true]
    by_cases hsaved : t.savedRip = 0
    · simp [hsaved, hfree]
    · simp only [hsaved, ne_eq, not_false_eq_true, if_true, true_implies]
      cases copyFrame t (t.savedRsp - BitVec.ofNat 64 sigframeSize).toNat <;> rfl
  | sigaction _ a =>
    refine iff_of_true ?_ fun _ _ => trivial
    simp only [Unblockable, some.injEq, forall_eq', act, doSysSigaction]
    split_ifs <;> exact ⟨hfree, by simp⟩
  | sigprocmask _ _ =>
    refine iff_of_true ?_ fun _ _ => trivial
    simp only [Unblockable, some.injEq, forall_eq', act, sysSigprocmask]
    refine ⟨?_, by simp⟩
    split_ifs
    · exact hfree
    all_goals simp [Free, sigkill, sigstop]
  | kill => exact iff_of_true (by simpa [Unblockable, act] using hfree) fun _ _ => trivial
  | user => exact iff_of_true (by simpa [Unblockable, act] using hfree) fun _ _ => trivial

end

/-- Nothing changes the action of `SIGKILL`. -/
lemma actions_act (h : act t e = some t') : t'.actions sigkill = t.actions sigkill := by
  cases e with
  | checkSignals =>
    obtain ⟨p, -, hrun⟩ := checkSignals_eq t
    rw [act, hrun] at h
    split at h
    · cases h
      rfl
    · simp only [enterHandler] at h
      split_ifs at h
      · rw [blocked_doSignalDefault h]
      · cases h
        rfl
      · rw [blocked_doSignalDefault h]
  | sigreturn _ =>
    cases h
    simp only [doSysSigreturn]
    split_ifs
    · split <;> rfl
    · rfl
  | sigaction _ a =>
    cases h
    unfold doSysSigaction
    split_ifs with hno
    · rfl
    · rw [not_or, not_or] at hno
      exact Function.update_of_ne (Ne.symm hno.2.2) ..
  | sigprocmask _ _ =>
    cases h
    simp only [sysSigprocmask]
    split_ifs <;> rfl
  | kill | user =>
    cases h
    rfl

end

lemma inv_exec {s : Option Task} {e : Event} (h : Inv s) (he : Careful s e) :
    Inv (exec step s e) := by
  cases s with
  | none => exact h
  | some t =>
    obtain ⟨hfree, hdfl⟩ := h t rfl
    have hlaw := (unblockable_iff_careful hfree hdfl e).2 he
    intro t' ht'
    exact ⟨(hlaw t rfl).1 t' ht', (congrArg Sigaction.handler (actions_act ht')).trans hdfl⟩

/-- A task whose signal state is new. -/
def newTask (tf : Trapframe) (mem : ℕ → UInt8) (mapped vma : ℕ → Bool) : Task where
  actions _ := ⟨sigDfl, 0⟩
  pending := 0
  blocked := 0
  savedRsp := 0
  savedRip := 0
  tf := tf
  mem := mem
  mapped := mapped
  vma := vma

/-- **`SIGKILL` and `SIGSTOP`** stay out of the mask and `SIGKILL` ends the task, exactly if every
event is careful. -/
theorem unblockable_iff (tf : Trapframe) (mem : ℕ → UInt8) (mapped vma : ℕ → Bool)
    (es : List Event) :
    Along step Unblockable (some (newTask tf mem mapped vma)) es ↔
      Along step Careful (some (newTask tf mem mapped vma)) es := by
  refine along_congr (I := Inv) (fun s e h => ?_) (fun s e h he => inv_exec h he) ?_ es
  · cases s with
    | none => exact iff_of_true nofun nofun
    | some t => exact unblockable_iff_careful (h t rfl).1 (h t rfl).2 e
  · rintro t ⟨⟩
    exact ⟨⟨BitVec.getLsbD_zero, BitVec.getLsbD_zero⟩, rfl⟩

/-- `SIGUSR1` gets a handler that blocks `SIGKILL`, and is delivered. -/
theorem not_unblockable_mask :
    ¬ Along step Unblockable (some (newTask ⟨0, 0, 0, 0, 0x246, 0, 0, 0, 0, 0, 0, 0x400000, 0,
        0x400000, 0x7FFF0000⟩ (fun _ => 0) (fun _ => true) fun _ => true))
      [.sigaction 10 ⟨0x500000, 0x200⟩, .kill 10, .checkSignals] := by
  intro h
  have hfree := ((h.2.2.1 _ rfl).1 _ rfl).1
  revert hfree
  decide

end Aurora.Signal
