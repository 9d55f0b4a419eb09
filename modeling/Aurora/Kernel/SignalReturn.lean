import Aurora.Kernel.Signal
import Mathlib.Tactic.IntervalCases

/-!
# Signal handlers return to where they interrupted

While a handler runs, the task makes further system calls, memory outside the frame changes,
actions and the mask are replaced and signals are raised; each call ends with another delivery.
The saved context keeps a second handler out, and so the frame is still there for `sigreturn`.

Only the flags do not come back as they should: the mask that `do_sys_sigreturn` applies keeps
AC and drops reserved bits.

## Main definitions

* `Syscall`, `Leaves`, `Handling`: what happens while a handler runs.
* `RoundTrip`: what delivery and return should come to.
* `sigreturn_roundTrip_iff`: when they do.
-/

namespace Aurora.Signal

variable {l : List ℕ} {s : ℕ} {t : Task}

open Lib Aurora.Paging List

/-! ## While a handler runs -/

/-- What happens to the task from one delivery to the next. -/
structure Syscall where
  tf : Trapframe
  mem : ℕ → UInt8
  mapped : ℕ → Bool
  vma : ℕ → Bool
  actions : ℕ → Sigaction
  /-- The mask, which `sigprocmask` may have replaced. -/
  blocked : BitVec 64
  /-- The signals sent to the task. -/
  raised : List ℕ

/-- `do_sys_kill`, as far as the mask of the target. -/
def raise (pending : BitVec 64) (s : ℕ) : BitVec 64 :=
  if s < 1 ∨ s ≥ nsig then pending else pending ||| sigbit s

def Syscall.apply (e : Syscall) (t : Task) : Task :=
  { t with tf := e.tf, mem := e.mem, mapped := e.mapped, vma := e.vma, actions := e.actions,
           blocked := e.blocked, pending := e.raised.foldl raise t.pending }

/-- Where the frame is while a handler runs. -/
def frameAt (t : Task) : ℕ := t.savedRsp.toNat - sigframeSize

/-- The bytes of the frame are left untouched, and are still mapped. -/
structure Leaves (e : Syscall) (t : Task) : Prop where
  mem : ∀ a, frameAt t ≤ a → a < frameAt t + sigframeSize → e.mem a = t.mem a
  mapped : (pages (frameAt t) sigframeSize).all e.mapped = true

/-- The system calls `es` lead from `t` to `t'`, each with a delivery that returned. -/
inductive Handling (t : Task) : List Syscall → Task → Prop where
  | nil : Handling t [] t
  | snoc {es : List Syscall} {e : Syscall} {t₁ t₂ : Task} : Handling t es t₁ → Leaves e t₁ →
      checkSignals (e.apply t₁) = .returned t₂ → Handling t (es ++ [e]) t₂

/-- The signal has a handler in user mode. -/
def Handled (actions : ℕ → Sigaction) (s : ℕ) : Prop :=
  (actions s).handler ≠ sigDfl ∧ (actions s).handler ≠ sigIgn

/-- Flags for user mode: IOPL, NT, TF and AC cleared and IF set. -/
def userFlags (flags : BitVec 64) : BitVec 64 := (flags &&& ~~~0x47100) ||| 0x200

/-- What is true when a handler returns, at the end of the calls `es` and the call `e` of
`sigreturn`. -/
structure Restored (t : Task) (es : List Syscall) (e : Syscall) (t' : Task) : Prop where
  tf : t'.tf = { t.tf with r11 := userFlags t.tf.r11 }
  blocked : t'.blocked = t.blocked
  /-- A signal that was raised and had a handler from then on is pending. -/
  pending : ∀ s es₁ e₁ es₂, 1 ≤ s → s < nsig → es ++ [e] = es₁ ++ e₁ :: es₂ → s ∈ e₁.raised →
    (∀ e₂ ∈ e₁ :: es₂, Handled e₂.actions s) → t'.pending.getLsbD s = true

/-- **The round trip**: whatever happens while a handler runs, no other handler is entered, and
`sigreturn` restores the context. -/
def RoundTrip (t : Task) : Prop :=
  ∀ s t₁, checkSignals t = .entered s t₁ → ∀ es t₂, Handling t₁ es t₂ → ∀ e, Leaves e t₂ →
    (∀ s' t', checkSignals (e.apply t₂) ≠ .entered s' t') ∧
      ∀ garbage, Restored t es e (doSysSigreturn garbage (e.apply t₂))

/-! ## Masks -/

lemma getLsbD_sigbit {i : ℕ} : (sigbit s).getLsbD i = (decide (i < 32) && decide (i = s)) := by
  simp only [sigbit, BitVec.getLsbD_setWidth, BitVec.getLsbD_shiftLeft, BitVec.getLsbD_one]
  by_cases hi : i < 32
  · by_cases his : i = s
    · subst his
      simp [hi]
      omega
    · simp [hi, his]
      omega
  · simp [hi]

lemma getLsbD_sigclear {i : ℕ} (hi : i < 32) : (sigclear s).getLsbD i = !decide (i = s) := by
  simp only [sigclear, BitVec.getLsbD_setWidth, BitVec.getLsbD_not, BitVec.getLsbD_shiftLeft,
    BitVec.getLsbD_one]
  by_cases his : i = s
  · subst his
    simp [hi]
  · simp [hi, his]
    omega

/-- Raising signals keeps those that are pending. -/
lemma getLsbD_foldl_raise {pending : BitVec 64}
    (h : pending.getLsbD s = true) : (l.foldl raise pending).getLsbD s = true := by
  induction l generalizing pending with
  | nil => exact h
  | cons a l ih =>
    refine ih ?_
    unfold raise
    split_ifs
    · exact h
    · simp [h]

lemma getLsbD_foldl_raise_of_mem {pending : BitVec 64} (hs : 1 ≤ s)
    (hlt : s < nsig) (hmem : s ∈ l) : (l.foldl raise pending).getLsbD s = true := by
  obtain ⟨_, _, rfl⟩ := append_of_mem hmem
  rw [foldl_append, foldl_cons]
  refine getLsbD_foldl_raise ?_
  have hlt' : s < 32 := hlt
  rw [raise, if_neg (by omega)]
  simp [getLsbD_sigbit, hlt']

/-! ## Delivery -/

/-- The loop of `check_signals` ends with this signal: it is pending, not blocked and not ignored,
and it has the default action or no handler is running. -/
def Task.acts (t : Task) (s : ℕ) : Bool :=
  t.pending.getLsbD s && !t.blocked.getLsbD s &&
    ((t.actions s).handler = sigDfl || (t.actions s).handler ≠ sigIgn && t.savedRip = 0)

/-- What the loop comes to; on the way it only changes the pending signals, and of these the ones
with a handler stay. -/
lemma deliver_eq (hnd : l.Nodup) (hlt : ∀ s ∈ l, s < 32) (t : Task) {q : BitVec 64}
    (hq : ∀ s ∈ l, q.getLsbD s = t.pending.getLsbD s) :
    ∃ p, (∀ s < 32, Handled t.actions s → l.find? t.acts ≠ some s → q.getLsbD s = true →
        p.getLsbD s = true) ∧
      deliver l { t with pending := q } = match l.find? t.acts with
        | none => .returned { t with pending := p }
        | some s =>
          if (t.actions s).handler = sigDfl then doSignalDefault { t with pending := p } s
          else enterHandler { t with pending := p } s := by
  induction l generalizing q with
  | nil => exact ⟨q, fun _ _ _ _ h => h, rfl⟩
  | cons a l ih =>
    obtain ⟨ha, hnd⟩ := nodup_cons.1 hnd
    obtain ⟨hqa, hq⟩ := forall_mem_cons.1 hq
    have hlt' := fun s hs => hlt s (mem_cons_of_mem a hs)
    have hclear : ∀ s < 32, s ≠ a → (q &&& sigclear a).getLsbD s = q.getLsbD s := by
      intro s hs hne
      simp [getLsbD_sigclear hs, hne]
    have hne : ∀ s ∈ l, s ≠ a := fun s hs he => ha (he ▸ hs)
    rw [deliver, find?_cons]
    simp only [hqa]
    cases hacts : t.acts a with
    | true =>
      refine ⟨q &&& sigclear a, fun s hs _ hsa hqs => ?_, ?_⟩
      · rwa [hclear s hs fun he => hsa (by rw [he])]
      · simp only [Task.acts, Bool.and_eq_true, Bool.not_eq_true', Bool.or_eq_true,
          decide_eq_true_eq] at hacts
        obtain ⟨⟨hpend, hblocked⟩, hact⟩ := hacts
        simp only [hpend, hblocked, Bool.not_true, Bool.false_eq_true, if_false]
        split_ifs with hdfl hign hsaved
        · rfl
        · exact absurd hign (hact.resolve_left hdfl).1
        · exact absurd (hact.resolve_left hdfl).2 hsaved
        · rfl
    | false =>
      simp only [Task.acts, Bool.and_eq_false_iff, Bool.not_eq_false', Bool.or_eq_false_iff,
        decide_eq_false_iff_not, not_not] at hacts
      split_ifs with hpend hblocked hdfl hign hsaved
      · exact ih hnd hlt' hq
      · exact ih hnd hlt' hq
      · simp_all
      · refine (ih hnd hlt' fun s hs => (hclear s (hlt' s hs) (hne s hs)).trans (hq s hs)).imp
          fun p hp => ⟨fun s hs hh hsa hqs => hp.1 s hs hh hsa ?_, hp.2⟩
        rwa [hclear s hs]
        rintro rfl
        exact hh.2 hign
      · -- taken off and put back
        refine (ih hnd hlt' fun s hs => ?_).imp fun p hp =>
          ⟨fun s hs hh hsa hqs => hp.1 s hs hh hsa ?_, hp.2⟩
        · rw [BitVec.getLsbD_or, hclear s (hlt' s hs) (hne s hs), getLsbD_sigbit,
            decide_eq_false (hne s hs), Bool.and_false, Bool.or_false, hq s hs]
        · rw [BitVec.getLsbD_or, getLsbD_sigbit]
          by_cases hsa : s = a
          · simp [hsa, hlt a]
          · rw [hclear s hs hsa, hqs, Bool.true_or]
      · simp_all

/-- The signal that `check_signals` acts on. -/
def chosen (t : Task) : Option ℕ := (range' 1 (nsig - 1)).find? t.acts

lemma checkSignals_eq (t : Task) :
    ∃ p, (∀ s < nsig, Handled t.actions s → chosen t ≠ some s → t.pending.getLsbD s = true →
        p.getLsbD s = true) ∧
      checkSignals t = match chosen t with
        | none => .returned { t with pending := p }
        | some s =>
          if (t.actions s).handler = sigDfl then doSignalDefault { t with pending := p } s
          else enterHandler { t with pending := p } s := by
  unfold checkSignals
  split_ifs with hzero
  · have hnone : chosen t = none := by simp [chosen, Task.acts, hzero]
    exact ⟨t.pending, fun _ _ _ _ h => h, by rw [hnone]⟩
  · exact deliver_eq (nodup_range' ..) (fun s hs => (mem_range'_1.1 hs).2) t
      fun _ _ => rfl

/-- With a saved context no handler is entered, nothing but the pending signals changes, and
of these the ones with a handler stay. -/
lemma checkSignals_of_saved (hsaved : t.savedRip ≠ 0) :
    (∀ s t', checkSignals t ≠ .entered s t') ∧ ∀ t', checkSignals t = .returned t' →
      ∃ p, t' = { t with pending := p } ∧
        ∀ s < nsig, Handled t.actions s → t.pending.getLsbD s = true → p.getLsbD s = true := by
  obtain ⟨p, hkeep, hrun⟩ := checkSignals_eq t
  cases hs : chosen t with
  | none =>
    rw [hrun, hs]
    refine ⟨nofun, ?_⟩
    rintro _ ⟨⟩
    exact ⟨p, rfl, fun s hlt hh => hkeep s hlt hh (by rw [hs]; nofun)⟩
  | some a =>
    have hdfl : (t.actions a).handler = sigDfl := by
      have hacts := find?_some hs
      simp only [Task.acts, hsaved, decide_false, Bool.and_false, Bool.or_false, Bool.and_eq_true,
        decide_eq_true_eq] at hacts
      exact hacts.2
    simp only [hs, hdfl, if_true, doSignalDefault] at hrun
    rw [hrun]
    split_ifs
    · refine ⟨nofun, ?_⟩
      rintro _ ⟨⟩
      refine ⟨p, rfl, fun s hlt hh => hkeep s hlt hh ?_⟩
      rw [hs]
      rintro ⟨⟩
      exact hh.1 hdfl
    · exact ⟨nofun, nofun⟩

/-! ## Entering a handler -/

lemma doSignalDefault_ne_entered (t : Task) (a s : ℕ) (t₁ : Task) :
    doSignalDefault t a ≠ .entered s t₁ := by
  unfold doSignalDefault
  split_ifs <;> exact nofun

lemma enterHandler_entered {t₁ : Task} {a : ℕ} (h : enterHandler t a = .entered s t₁) :
    a = s ∧ hasRoom t = true ∧ t₁ = pushFrame t s := by
  unfold enterHandler at h
  split_ifs at h with hroom
  · cases h
    exact ⟨rfl, hroom, rfl⟩
  · exact absurd h (doSignalDefault_ne_entered _ _ _ _)

/-- The context saved for the handler of `s` is in place. -/
structure Saved (t : Task) (s : ℕ) (t₂ : Task) : Prop where
  savedRip : t₂.savedRip = t.tf.rip
  savedRsp : t₂.savedRsp = t.tf.rsp
  frame : slice t₂.mem (frameAt t₂) sigframeSize = (Sigframe.save t s).bytes

lemma length_bytes (f : Sigframe) : f.bytes.length = sigframeSize := by
  simp [Sigframe.bytes, Sigframe.words, sigframeSize]

lemma ofBytes_bytes (f : Sigframe) : Sigframe.ofBytes f.bytes = f := by
  have hword : ∀ k v, f.words[k]? = some v → BitVec.ofNat 64 (field f.bytes (8 * k) 8) = v := by
    intro k v hk
    rw [Sigframe.bytes, field_flatMap_toLE (v := v.toNat)]
    · exact BitVec.ofNat_toNat .. |>.trans (BitVec.setWidth_eq v)
    · simp [hk]
    · exact v.isLt
  apply Sigframe.ext <;> exact hword _ _ rfl

/-- The checks on the stack, in numbers. -/
lemma hasRoom_spec (h : hasRoom t = true) :
    frameSize + 0x1000 ≤ t.tf.rsp.toNat ∧ (newRsp t).toNat = t.tf.rsp.toNat - frameSize ∧
      t.rangeMapped (t.tf.rsp.toNat - frameSize) frameSize = true := by
  unfold hasRoom at h
  split_ifs at h with hsmall hwrap hvma
  have hnew : (newRsp t).toNat = t.tf.rsp.toNat - frameSize := by
    simp only [newRsp, frameSize, sigframeSize, sigTrampolineSize] at hsmall ⊢
    bv_omega
  have hsize : 8 + sigTrampolineSize + sigframeSize = frameSize := by decide
  rw [hnew, hsize] at h
  exact ⟨not_lt.1 hsmall, hnew, h⟩

/-- A range within a mapped range is mapped. -/
lemma rangeMapped_mono {a n b k : ℕ} (h : t.rangeMapped a n = true) (hab : a ≤ b)
    (hbk : b + k = a + n) (ha : a < 2 ^ 64) (hn : n < 2 ^ 64) : t.rangeMapped b k = true := by
  rw [Task.rangeMapped, Bool.and_eq_true, all_eq_true] at h ⊢
  obtain ⟨hok, hall⟩ := h
  rw [userAddrRangeOk_iff ha hn] at hok
  have hmax : userAddrMax < 2 ^ 64 := by decide
  refine ⟨(userAddrRangeOk_iff (by omega) (by omega)).2 (by omega), fun p hp => hall p ?_⟩
  obtain ⟨k', hk', rfl⟩ := mem_map.1 hp
  rw [mem_range] at hk'
  refine mem_map.2 ⟨b / 4096 - a / 4096 + k', mem_range.2 ?_, ?_⟩
  · omega
  · have : a / 4096 ≤ b / 4096 := Nat.div_le_div_right hab
    rw [← Nat.add_mul, ← Nat.add_mul]
    congr 1
    omega

/-- **Entering a handler** saves the context. -/
lemma saved_pushFrame (s : ℕ) (p : BitVec 64) (h : hasRoom t = true) :
    Saved t s (pushFrame { t with pending := p } s) where
  savedRip := rfl
  savedRsp := rfl
  frame := by
    obtain ⟨hroom, hnew, -⟩ := hasRoom_spec h
    have hnew' : (newRsp { t with pending := p }).toNat = t.tf.rsp.toNat - frameSize := hnew
    have hat : frameAt (pushFrame { t with pending := p } s) =
        t.tf.rsp.toNat - frameSize + 8 + sigTrampolineSize := by
      simp only [frameAt, pushFrame, Sigframe.save, frameSize, sigframeSize,
        sigTrampolineSize] at hroom ⊢
      omega
    have hframe : (Sigframe.save { t with pending := p } s) = Sigframe.save t s := rfl
    rw [hat, pushFrame]
    simp only [hnew', hframe]
    -- what is written later lies below the frame
    rw [slice_blit_of_disjoint, slice_blit_of_disjoint]
    · have := slice_blit t.mem (t.tf.rsp.toNat - frameSize + 8 + sigTrampolineSize)
        (Sigframe.save t s).bytes
      rwa [length_bytes] at this
    · simp [sigTrampolineSize]
    · have : trampoline.length = sigTrampolineSize := by decide
      omega

/-- The frame is mapped when the handler is entered. -/
lemma mapped_pushFrame (s : ℕ) (p : BitVec 64) (h : hasRoom t = true) :
    (pushFrame { t with pending := p } s).rangeMapped
      (frameAt (pushFrame { t with pending := p } s)) sigframeSize = true := by
  obtain ⟨hroom, -, hmapped⟩ := hasRoom_spec h
  have hsame : (pushFrame { t with pending := p } s).rangeMapped = t.rangeMapped := rfl
  have hat : frameAt (pushFrame { t with pending := p } s) = t.tf.rsp.toNat - sigframeSize := rfl
  rw [hsame, hat]
  simp only [frameSize, sigframeSize, sigTrampolineSize] at hroom hmapped ⊢
  exact rangeMapped_mono hmapped (by omega) (by omega) (by omega) (by decide)

/-! ## The saved context survives -/

variable {t t₁ t₂ : Task} {s : ℕ} {es : List Syscall} {e : Syscall}

lemma Saved.apply (h : Saved t s t₂) (he : Leaves e t₂) : Saved t s (e.apply t₂) where
  savedRip := h.savedRip
  savedRsp := h.savedRsp
  frame := by
    rw [← h.frame]
    refine slice_congr fun i hi => ?_
    exact he.mem _ (Nat.le_add_right _ _) (Nat.add_lt_add_left hi _)

/-- While a handler runs, the saved context stays in place. -/
lemma Handling.saved (hsaved : Saved t s t₁) (hrip : t.tf.rip ≠ 0) (h : Handling t₁ es t₂) :
    Saved t s t₂ := by
  induction h with
  | nil => exact hsaved
  | snoc _ he hcheck ih =>
    have happ := ih.apply he
    have hne : (Syscall.apply _ _).savedRip ≠ 0 := happ.savedRip ▸ hrip
    obtain ⟨p, rfl, -⟩ := (checkSignals_of_saved hne).2 _ hcheck
    exact ⟨happ.savedRip, happ.savedRsp, happ.frame⟩

/-- A signal that was raised while a handler runs, and has a handler itself from then on, is
pending. -/
lemma Handling.pending (hsaved : Saved t s t₁) (hrip : t.tf.rip ≠ 0) (h : Handling t₁ es t₂)
    {s' : ℕ} {es₁ es₂ : List Syscall} {e₁ : Syscall} (hs : 1 ≤ s') (hlt : s' < nsig)
    (hes : es ++ [e] = es₁ ++ e₁ :: es₂) (hraised : s' ∈ e₁.raised)
    (hhandled : ∀ e₂ ∈ e₁ :: es₂, Handled e₂.actions s') :
    (e.apply t₂).pending.getLsbD s' = true := by
  induction es₂ using reverseRecOn generalizing es e t₂ with
  | nil =>
    obtain ⟨-, hlast⟩ := append_inj' hes rfl
    obtain rfl : e = e₁ := by simpa using hlast
    exact getLsbD_foldl_raise_of_mem hs hlt hraised
  | append_singleton es₂ e3 ih =>
    rw [← cons_append, ← append_assoc] at hes
    obtain ⟨hfront, -⟩ := append_inj' hes rfl
    have hhandled' : ∀ e₂ ∈ e₁ :: es₂, Handled e₂.actions s' := fun e₂ he2 =>
      hhandled e₂ (mem_append_left [e3] he2)
    cases h with
    | nil => simp at hfront
    | @snoc es' e' t' _ hprev he hcheck =>
      have hne : (e'.apply t').savedRip ≠ 0 := ((hprev.saved hsaved hrip).apply he).savedRip ▸ hrip
      have hmem : e' ∈ e₁ :: es₂ := by
        refine mem_of_getLast? ?_
        rw [← getLast?_append_cons es₁, ← hfront, getLast?_concat]
      obtain ⟨p, rfl, hkeep⟩ := (checkSignals_of_saved hne).2 _ hcheck
      exact getLsbD_foldl_raise (hkeep s' hlt (hhandled' e' hmem) (ih hprev hfront hhandled'))

/-! ## Returning -/

/-- The flags come back as they should exactly if AC and the reserved bits were clear. -/
lemma userFlags_eq_iff (x : BitVec 64) :
    (x &&& 0x3F0CF7) ||| 0x200 = userFlags x ↔ x &&& 0xFFFFFFFFFFC48008 = 0 := by
  constructor
  · intro h
    refine BitVec.eq_of_getLsbD_eq fun i hi => ?_
    have hbit := congrArg (BitVec.getLsbD · i) h
    simp only [userFlags] at hbit
    clear h
    interval_cases i <;> simp_all
  · intro h
    refine BitVec.eq_of_getLsbD_eq fun i hi => ?_
    have hbit := congrArg (BitVec.getLsbD · i) h
    simp only [userFlags]
    clear h
    interval_cases i <;> simp_all

/-- `sigreturn` with the saved context in place. -/
lemma doSysSigreturn_of_saved (garbage : BitVec 64) (hsaved : Saved t s t₂)
    (hrip : t.tf.rip ≠ 0) (hs : 1 ≤ s) (hlt : s < nsig) (hrsp : sigframeSize < t.tf.rsp.toNat)
    (hmax : t.tf.rsp.toNat ≤ userAddrMax)
    (hmapped : (pages (frameAt t₂) sigframeSize).all t₂.mapped = true) :
    doSysSigreturn garbage t₂ =
      { t₂ with tf := { t.tf with r11 := (t.tf.r11 &&& 0x3F0CF7) ||| 0x200 },
                savedRip := 0, savedRsp := 0, blocked := t.blocked } := by
  have hne : t₂.savedRip ≠ 0 := hsaved.savedRip ▸ hrip
  have haddr : (t₂.savedRsp - BitVec.ofNat 64 sigframeSize).toNat = frameAt t₂ := by
    simp only [frameAt, hsaved.savedRsp, sigframeSize] at hrsp ⊢
    bv_omega
  have hframe : copyFrame t₂ (frameAt t₂) = some (Sigframe.save t s) := by
    have hat : frameAt t₂ = t.tf.rsp.toNat - sigframeSize := by rw [frameAt, hsaved.savedRsp]
    have hok : userAddrRangeOk (frameAt t₂) sigframeSize = true := by
      have hsize : sigframeSize < 2 ^ 64 := by decide
      rw [userAddrRangeOk_iff (by omega) hsize]
      omega
    have hrange : t₂.rangeMapped (frameAt t₂) sigframeSize = true := by
      rw [Task.rangeMapped, hok, hmapped]
      rfl
    rw [copyFrame, if_neg (by omega), hrange, hsaved.frame, ofBytes_bytes]
    rfl
  have hsigno : 0 < (Sigframe.save t s).signo ∧
      (Sigframe.save t s).signo < BitVec.ofNat 64 nsig := by
    simp only [Sigframe.save, nsig] at hlt ⊢
    constructor <;> bv_omega
  rw [doSysSigreturn, if_pos hne]
  dsimp only
  rw [haddr, hframe]
  dsimp only
  rw [if_pos hsigno]
  rfl

/-! ## The round trip -/

/-- What is known when a handler has been entered. -/
structure Entered (t : Task) (s : ℕ) (t₁ : Task) : Prop where
  one_le : 1 ≤ s
  lt_nsig : s < nsig
  saved : Saved t s t₁
  rsp_gt : sigframeSize < t.tf.rsp.toNat
  rsp_le : t.tf.rsp.toNat ≤ userAddrMax
  mapped : t₁.rangeMapped (frameAt t₁) sigframeSize = true

lemma entered_of_checkSignals (h : checkSignals t = .entered s t₁) : Entered t s t₁ := by
  obtain ⟨p, -, hrun⟩ := checkSignals_eq t
  rw [hrun] at h
  cases hc : chosen t with
  | none =>
    simp [hc] at h
  | some a =>
  simp only [hc] at h
  split_ifs at h
  · exact absurd h (doSignalDefault_ne_entered _ _ _ _)
  obtain ⟨rfl, hroom, rfl⟩ := enterHandler_entered h
  have hroom : hasRoom t = true := hroom
  obtain ⟨hge, -, hmapped⟩ := hasRoom_spec hroom
  have hs : 1 ≤ a ∧ a < 1 + (nsig - 1) := mem_range'_1.1 (mem_of_find?_eq_some hc)
  have hbound : 1 + (nsig - 1) = nsig := by decide
  have hsize : sigframeSize ≤ frameSize := by decide
  have hle : t.tf.rsp.toNat ≤ userAddrMax := by
    rw [Task.rangeMapped, Bool.and_eq_true, userAddrRangeOk_iff] at hmapped
    · omega
    · exact (Nat.sub_le _ _).trans_lt t.tf.rsp.isLt
    · decide
  exact ⟨hs.1, hbound ▸ hs.2, saved_pushFrame a p hroom, by omega, hle, mapped_pushFrame a p hroom⟩

/-- While a handler runs, no other one is entered. -/
lemma Entered.no_second (h : Entered t s t₁) (hrip : t.tf.rip ≠ 0) (hrun : Handling t₁ es t₂)
    (he : Leaves e t₂) (s' : ℕ) (t' : Task) : checkSignals (e.apply t₂) ≠ .entered s' t' := by
  have happ := (hrun.saved h.saved hrip).apply he
  have hne : (e.apply t₂).savedRip ≠ 0 := happ.savedRip ▸ hrip
  exact (checkSignals_of_saved hne).1 s' t'

/-- What `sigreturn` leads to. -/
lemma Entered.sigreturn (h : Entered t s t₁) (hrip : t.tf.rip ≠ 0) (hrun : Handling t₁ es t₂)
    (he : Leaves e t₂) (garbage : BitVec 64) :
    doSysSigreturn garbage (e.apply t₂) =
      { e.apply t₂ with tf := { t.tf with r11 := (t.tf.r11 &&& 0x3F0CF7) ||| 0x200 },
                        savedRip := 0, savedRsp := 0, blocked := t.blocked } :=
  doSysSigreturn_of_saved garbage ((hrun.saved h.saved hrip).apply he) hrip h.one_le h.lt_nsig
    h.rsp_gt h.rsp_le he.mapped

/-- The call of `sigreturn` by a handler that does nothing else. -/
def Syscall.idle (t : Task) : Syscall :=
  { tf := t.tf, mem := t.mem, mapped := t.mapped, vma := t.vma, actions := t.actions,
    blocked := t.blocked, raised := [] }

lemma Entered.leaves_idle (h : Entered t s t₁) : Leaves (Syscall.idle t₁) t₁ where
  mem _ _ _ := rfl
  mapped := by
    have := h.mapped
    rw [Task.rangeMapped, Bool.and_eq_true] at this
    exact this.2

lemma RoundTrip.flags (h : RoundTrip t) (hrip : t.tf.rip ≠ 0)
    (hentered : checkSignals t = .entered s t₁) : t.tf.r11 &&& 0xFFFFFFFFFFC48008 = 0 := by
  have hent := entered_of_checkSignals hentered
  obtain ⟨-, hback⟩ := h s t₁ hentered [] t₁ .nil (Syscall.idle t₁) hent.leaves_idle
  have htf := (hback 0).tf
  rw [hent.sigreturn hrip .nil hent.leaves_idle 0] at htf
  exact (userFlags_eq_iff _).1 (congrArg Trapframe.r11 htf)

/-- **Signal delivery** is undone by `sigreturn`, for every behaviour of the handler, exactly if
AC and the reserved bits of the flags are clear when a handler is entered. -/
theorem sigreturn_roundTrip_iff (t : Task) (hrip : t.tf.rip ≠ 0) :
    RoundTrip t ↔
      ((∃ s t₁, checkSignals t = .entered s t₁) → t.tf.r11 &&& 0xFFFFFFFFFFC48008 = 0) := by
  constructor
  · rintro h ⟨s, t₁, hentered⟩
    exact h.flags hrip hentered
  · intro hflags s t₁ hentered _ _ hrun e he
    have hent := entered_of_checkSignals hentered
    have hr11 := (userFlags_eq_iff _).2 (hflags ⟨s, t₁, hentered⟩)
    refine ⟨hent.no_second hrip hrun he, fun garbage => ?_⟩
    rw [hent.sigreturn hrip hrun he garbage]
    constructor
    · simp only [hr11]
    · rfl
    · intro _ _ _ _ hs hlt hes hraised hhandled
      exact hrun.pending hent.saved hrip hs hlt hes hraised hhandled

/-- A task with `SIGUSR1` pending and a handler for it, and the given flags. -/
def sampleTask (flags : BitVec 64) : Task where
  actions _ := ⟨0x500000, 0⟩
  pending := 0x400
  blocked := 0
  savedRsp := 0
  savedRip := 0
  tf := ⟨0, 0, 0, 0, flags, 0, 0, 0, 0, 0, 0, 0x400000, 0, 0x400000, 0x7FFF0000⟩
  mem _ := 0
  mapped _ := true
  vma _ := true

/-- With AC clear, the handler of `SIGUSR1` is entered, and its return restores the context. -/
theorem sigreturn_roundTrip_sampleTask :
    (∃ t₁, checkSignals (sampleTask 0x246) = .entered 10 t₁) ∧ RoundTrip (sampleTask 0x246) :=
  ⟨⟨_, rfl⟩, (sigreturn_roundTrip_iff (sampleTask 0x246) (by decide)).2 fun _ => by decide⟩

/-- With AC set, the handler of `SIGUSR1` is entered and AC is still set after its return. -/
theorem not_roundTrip_sampleTask :
    (∃ t₁, checkSignals (sampleTask 0x40246) = .entered 10 t₁ ∧
      (doSysSigreturn 0 t₁).tf.r11 = 0x40246) ∧ ¬ RoundTrip (sampleTask 0x40246) := by
  have hrip : (sampleTask 0x40246).tf.rip ≠ 0 := by decide
  obtain ⟨t₁, hentered⟩ : ∃ t₁, checkSignals (sampleTask 0x40246) = .entered 10 t₁ := ⟨_, rfl⟩
  have hent := entered_of_checkSignals hentered
  refine ⟨⟨t₁, hentered, ?_⟩, fun h => ?_⟩
  · have := hent.sigreturn hrip .nil hent.leaves_idle 0
    exact congrArg (fun t => t.tf.r11) this
  · have := h.flags hrip hentered
    revert this
    decide

end Aurora.Signal
