import Aurora.Kernel.Pipe
import Aurora.Lib.PtrList
import Mathlib.Data.List.Perm.Subperm

/-!
# The lists of blocked tasks of a pipe

A call that has to wait links a node of its own stack into `blocked_readers` or
`blocked_writers`. Three things take a node out again: a wake-up of the whole list,
the unlinking of a call that sees a pending signal before it sleeps, and nothing
else. `do_sys_kill` wakes a sleeping task without unlinking; the task then comes
back to the top of its loop with its node still linked and links it once more.

The lists stay well formed exactly as long as this does not happen: in a schedule in
which no signal wakes a task that sleeps in its loop, both lists are finite, hold
each node once, hold only nodes of calls that have not returned, and the loops that
wake them come to an end.

## Main definitions

* `ListOk s head`: the list that starts at `head` is well formed.
* `Tame s e`: the event does not wake a sleeper past its list.
* `Linked s call`: what holds of a call whose node is in a list.
* `blockedLists_ok`: the lists are well formed along every tame schedule.
-/

namespace Aurora.Pipe

variable {call' : Call} {fuel : ℕ} {node : CallId → PipeBlockedNode} {t : Tid}

open Lib Function List Option PipeState

/-- The list that starts at `head` ends, holds no node twice and no node of a call
that has returned, and the loop that wakes it terminates. -/
def ListOk (s : PipeState) (head : Option CallId) : Prop :=
  (∃ l : List CallId, IsList (fun c => (s.node c).next) head l ∧ l.Nodup ∧
    ∀ c ∈ l, ∃ call, s.call c = some call ∧ ∀ ret, call.phase ≠ .returned ret) ∧
  ∀ state, (wakeAll s.node (s.ncalls + 1) head state).isSome

/-- The event does not wake a task that sleeps in the loop of a call, and pending
signals are taken by a task outside its calls, as `check_signals` does on the way
back to user mode. -/
def Tame (s : PipeState) : Event → Prop
  | .kill t true => ∀ c call, s.call c = some call → call.task = t → call.phase = .waiting →
      s.state t ≠ .blocked
  | .takeSignals t => s.busy t = false
  | _ => True

/-! ## The invariant -/

/-- The call runs `pipe_read`. -/
def CallOp.isRead : CallOp → Bool
  | .read _ => true
  | .write _ _ => false

/-- The head of the list of readers or of writers. -/
def PipeState.headOf (s : PipeState) (rd : Bool) : Option CallId :=
  if rd then s.ring.blockedReaders else s.ring.blockedWriters

/-- What holds of a call whose node is in a list: it is behind its `unlock`, and
unless it is about to see a signal its task is blocked. -/
def Linked (s : PipeState) (call : Call) : Prop :=
  match call.phase with
  | .linked => s.state call.task = .blocked ∨ s.pending call.task = true
  | .unlinking => True
  | .waiting => s.state call.task = .blocked
  | _ => False

/-- The list of one side, with the calls in it. -/
structure QueueInv (s : PipeState) (rd : Bool) (head : Option CallId) (l : List CallId) :
    Prop where
  list : IsList (fun c => (s.node c).next) head l
  linked : ∀ c ∈ l, ∃ call, s.call c = some call ∧ call.op.isRead = rd ∧ Linked s call

/-- A call has not returned. -/
def Call.Active (call : Call) : Prop := ∀ ret, call.phase ≠ .returned ret

/-- The calls: each owns its node, and those in progress belong to different tasks. -/
structure CallsInv (s : PipeState) : Prop where
  owner : ∀ c call, s.call c = some call → (s.node c).task = call.task
  lt : ∀ c call, s.call c = some call → c < s.ncalls
  busy : ∀ c call, s.call c = some call → call.Active → s.busy call.task = true
  unique : ∀ c call c' call', s.call c = some call → s.call c' = some call' →
    call.Active → call'.Active → call.task = call'.task → c = c'

/-- The invariant: the calls and both lists. -/
structure Inv (s : PipeState) : Prop where
  calls : CallsInv s
  lists : ∀ rd, ∃ l, QueueInv s rd (s.headOf rd) l

variable {s s' : PipeState} {c : CallId} {call : Call} {rd : Bool} {head : Option CallId}
  {l : List CallId}

lemma Linked.active (h : Linked s call) : call.Active := by
  intro _ hret
  simp [Linked, hret] at h

/-- Only the state and the pending signals of the caller matter. -/
lemma Linked.congr (h : Linked s call) (hstate : s'.state call.task = s.state call.task)
    (hpending : s'.pending call.task = s.pending call.task) : Linked s' call := by
  unfold Linked at h ⊢
  rwa [hstate, hpending]

lemma QueueInv.nil (h : head = none) : QueueInv s rd head [] :=
  ⟨h, fun _ hc => absurd hc not_mem_nil⟩

/-- A list is kept by a step that leaves its nodes, its calls and what `Linked` says of
them alone. -/
lemma QueueInv.frame (h : QueueInv s rd head l)
    (hnode : ∀ c ∈ l, (s'.node c).next = (s.node c).next)
    (hcall : ∀ c ∈ l, s'.call c = s.call c)
    (hlinked : ∀ c ∈ l, ∀ call, s.call c = some call → Linked s call → Linked s' call) :
    QueueInv s' rd head l := by
  refine ⟨h.list.congr hnode, fun c hc => ?_⟩
  obtain ⟨call, hcall', hop, hl⟩ := h.linked c hc
  exact ⟨call, by rw [hcall c hc, hcall'], hop, hlinked c hc call hcall' hl⟩

/-- A call that is not behind its `unlock` has no node in a list. -/
lemma QueueInv.notMem (h : QueueInv s rd head l) (hcall : s.call c = some call)
    (hl : ¬ Linked s call) : c ∉ l := by
  intro hc
  obtain ⟨call', hcall', -, hl'⟩ := h.linked c hc
  cases hcall.symm.trans hcall'
  exact hl hl'

/-- A call that is not in a list belongs to another task than the calls in it. -/
lemma CallsInv.task_ne (h : CallsInv s) (hq : QueueInv s rd head l) (hcall : s.call c = some call)
    (hact : call.Active) (hc : c ∉ l) {d : CallId} (hd : d ∈ l) {dcall : Call}
    (hdcall : s.call d = some dcall) : dcall.task ≠ call.task := by
  intro htask
  obtain ⟨call', hcall', -, hl'⟩ := hq.linked d hd
  cases hdcall.symm.trans hcall'
  exact hc (h.unique c call d dcall hcall hdcall hact hl'.active htask.symm ▸ hd)

/-! ## The wake-up loop -/

lemma wakeTask_of_ne {state : Tid → TaskState} {u : Tid} (h : u ≠ t) :
    wakeTask state t u = state u := by
  unfold wakeTask
  split
  · exact update_of_ne h _ _
  · rfl

/-- The loop terminates on a list that is shorter than its fuel. -/
lemma wakeAll_isSome (h : IsList (fun c => (node c).next) head l) (hfuel : l.length ≤ fuel)
    (state : Tid → TaskState) : (wakeAll node fuel head state).isSome := by
  induction l generalizing head fuel state with
  | nil =>
    obtain rfl : head = none := h
    cases fuel <;> rfl
  | cons c l ih =>
    obtain ⟨rfl, h⟩ := h
    cases fuel with
    | zero => simp at hfuel
    | succ fuel => exact ih h (by simpa using hfuel) _

/-- The loop changes the state of no task outside the list. -/
lemma wakeAll_state (h : IsList (fun c => (node c).next) head l) {state state' : Tid → TaskState}
    (hw : wakeAll node fuel head state = some state')
    (ht : ∀ c ∈ l, (node c).task ≠ t) : state' t = state t := by
  induction l generalizing head fuel state with
  | nil =>
    obtain rfl : head = none := h
    cases fuel <;> (cases hw; rfl)
  | cons c l ih =>
    obtain ⟨rfl, h⟩ := h
    cases fuel with
    | zero => cases hw
    | succ fuel =>
      rw [ih h hw fun d hd => ht d (mem_cons_of_mem c hd)]
      exact wakeTask_of_ne (ht c mem_cons_self).symm

/-- A list of the invariant is no longer than the number of calls. -/
lemma QueueInv.length_le (hi : CallsInv s) (h : QueueInv s rd head l) : l.length ≤ s.ncalls := by
  have hsub : l ⊆ List.range s.ncalls := by
    intro c hc
    obtain ⟨call, hcall, -⟩ := h.linked c hc
    exact mem_range.2 (hi.lt c call hcall)
  simpa using (subperm_of_subset h.list.nodup hsub).length_le

lemma Inv.listOk (h : Inv s) (rd : Bool) : ListOk s (s.headOf rd) := by
  obtain ⟨l, hl⟩ := h.lists rd
  refine ⟨⟨l, hl.list, hl.list.nodup, ?_⟩, fun state => ?_⟩
  · intro c hc
    obtain ⟨call, hcall, -, hlink⟩ := hl.linked c hc
    exact ⟨call, hcall, hlink.active⟩
  · exact wakeAll_isSome hl.list (Nat.le_succ_of_le (hl.length_le h.calls)) state

/-! ## What each section does to the lists -/

lemma active_of_phase {p : Phase} (h : call.phase = p) (hp : ∀ ret, p ≠ .returned ret) :
    call.Active := fun ret => h ▸ hp ret

/-- A call in progress goes on; its task stays busy unless it returns. -/
structure Moves (s : PipeState) (c : CallId) (call call' : Call) (s' : PipeState) : Prop where
  old : s.call c = some call
  active : call.Active
  new : s'.call = Function.update s.call c (some call')
  task : call'.task = call.task
  ncalls : s'.ncalls = s.ncalls
  others : ∀ t, t ≠ call.task → s'.busy t = s.busy t
  busy : call'.Active → s'.busy call.task = true

lemma Moves.returned {op : CallOp} {ret : ℤ} (hcall : s.call c = some call) (hact : call.Active)
    (hnew : s'.call = update s.call c (some ⟨call.task, op, .returned ret⟩))
    (hn : s'.ncalls = s.ncalls) (hbusy : s'.busy = update s.busy call.task false) :
    Moves s c call ⟨call.task, op, .returned ret⟩ s' where
  old := hcall
  active := hact
  new := hnew
  task := rfl
  ncalls := hn
  others t ht := by simp [hbusy, ht]
  busy ha := absurd rfl (ha ret)

lemma Moves.goes {op : CallOp} {p : Phase} (h : Inv s) (hcall : s.call c = some call)
    (hact : call.Active) (hnew : s'.call = update s.call c (some ⟨call.task, op, p⟩))
    (hn : s'.ncalls = s.ncalls) (hbusy : s'.busy = s.busy) :
    Moves s c call ⟨call.task, op, p⟩ s' where
  old := hcall
  active := hact
  new := hnew
  task := rfl
  ncalls := hn
  others t _ := by rw [hbusy]
  busy _ := by rw [hbusy, h.calls.busy c call hcall hact]

lemma CallsInv.advance (h : CallsInv s) (hm : Moves s c call call' s')
    (hnode : ∀ d, (s'.node d).task = (s.node d).task) : CallsInv s' := by
  obtain ⟨hcall, hact, hcall', htask, hn, hbusy, hbusy'⟩ := hm
  -- every call of the new state is a call of the old one with the same task
  have hold : ∀ d dcall, s'.call d = some dcall → ∃ old, s.call d = some old ∧
      old.task = dcall.task ∧ (dcall.Active → old.Active) := by
    intro d dcall hd
    rw [hcall', update_apply] at hd
    split at hd
    · next he =>
      cases hd
      exact ⟨call, he ▸ hcall, htask.symm, fun _ => hact⟩
    · exact ⟨dcall, hd, rfl, id⟩
  constructor
  · intro d dcall hd
    obtain ⟨old, hold, hot, -⟩ := hold d dcall hd
    rw [hnode, h.owner d old hold, hot]
  · intro d dcall hd
    obtain ⟨old, hold, -, -⟩ := hold d dcall hd
    rw [hn]
    exact h.lt d old hold
  · intro d dcall hd hda
    by_cases hdc : d = c
    · subst hdc
      rw [hcall', update_self] at hd
      cases hd
      rw [htask]
      exact hbusy' hda
    · rw [hcall', update_of_ne hdc] at hd
      have hne : dcall.task ≠ call.task := fun he =>
        hdc (h.unique d dcall c call hd hcall hda hact he)
      rw [hbusy _ hne]
      exact h.busy d dcall hd hda
  · intro d dcall e ecall hd he hda hea hde
    obtain ⟨dold, hdold, hdt, hda'⟩ := hold d dcall hd
    obtain ⟨eold, heold, het, hea'⟩ := hold e ecall he
    exact h.unique d dold e eold hdold heold (hda' hda) (hea' hea) (by rw [hdt, het, hde])

/-- A list is kept when a call outside it goes on. -/
lemma QueueInv.advance (h : QueueInv s rd head l) (hc : c ∉ l)
    (hcall' : s'.call = update s.call c (some call'))
    (hnode : ∀ d ∈ l, (s'.node d).next = (s.node d).next)
    (hstate : ∀ d ∈ l, ∀ dcall, s.call d = some dcall → s'.state dcall.task = s.state dcall.task)
    (hpending : s'.pending = s.pending) : QueueInv s' rd head l := by
  refine h.frame hnode ?_ ?_
  · intro d hd
    have hdc : d ≠ c := fun he => hc (he ▸ hd)
    simp [hcall', hdc]
  · intro d hd dcall hdcall hl
    exact hl.congr (hstate d hd dcall hdcall) (by rw [hpending])

section

variable (h : Inv s)

include h

/-- A call outside both lists goes on, and the lists are left alone. -/
lemma Inv.advance (hm : Moves s c call call' s') (hnl : ¬ Linked s call)
    (hnode : s'.node = s.node) (hring : ∀ rd, s'.headOf rd = s.headOf rd)
    (hstate : ∀ t, t ≠ call.task → s'.state t = s.state t)
    (hpending : s'.pending = s.pending) : Inv s' := by
  refine ⟨h.calls.advance hm fun d => by rw [hnode], fun rd => ?_⟩
  obtain ⟨l, hl⟩ := h.lists rd
  have hc : c ∉ l := hl.notMem hm.old hnl
  refine ⟨l, ?_⟩
  rw [hring]
  refine hl.advance hc hm.new (fun d _ => by rw [hnode]) ?_ hpending
  intro d hd _ hdcall
  exact hstate _ (h.calls.task_ne hl hm.old hm.active hc hd hdcall)

/-- A task outside its calls starts one. -/
lemma Inv.start (hidle : s.busy call.task = false)
    (hcall' : s'.call = update s.call s.ncalls (some call'))
    (htask : call'.task = call.task)
    (hnode : s'.node = update s.node s.ncalls ⟨call.task, none⟩)
    (hn : s'.ncalls = s.ncalls + 1)
    (hbusy : ∀ t, t ≠ call.task → s'.busy t = s.busy t)
    (hbusy' : call'.Active → s'.busy call.task = true) (hring : s'.ring = s.ring)
    (hstate : s'.state = s.state) (hpending : s'.pending = s.pending) : Inv s' := by
  have hcases : ∀ d dcall, s'.call d = some dcall →
      (d = s.ncalls ∧ dcall = call') ∨ (d ≠ s.ncalls ∧ s.call d = some dcall) := by
    intro d dcall hd
    rw [hcall', update_apply] at hd
    split at hd
    · next he => exact .inl ⟨he, (some.inj hd).symm⟩
    · next he => exact .inr ⟨he, hd⟩
  -- a call in progress belongs to a busy task, so not to the caller
  have hother : ∀ d dcall, s.call d = some dcall → dcall.Active → dcall.task ≠ call.task := by
    intro d dcall hd hda he
    have := h.calls.busy d dcall hd hda
    simp [he, hidle] at this
  refine ⟨⟨?_, ?_, ?_, ?_⟩, ?_⟩
  · intro d dcall hd
    rw [hnode]
    rcases hcases d dcall hd with ⟨rfl, rfl⟩ | ⟨hne, hd⟩
    · simp [htask]
    · rw [update_of_ne hne]
      exact h.calls.owner d dcall hd
  · intro d dcall hd
    rw [hn]
    rcases hcases d dcall hd with ⟨rfl, -⟩ | ⟨-, hd⟩
    · exact Nat.lt_succ_self _
    · exact Nat.lt_succ_of_lt (h.calls.lt d dcall hd)
  · intro d dcall hd hda
    rcases hcases d dcall hd with ⟨-, rfl⟩ | ⟨-, hd⟩
    · rw [htask]
      exact hbusy' hda
    · rw [hbusy _ (hother d dcall hd hda)]
      exact h.calls.busy d dcall hd hda
  · intro d dcall e ecall hd he hda hea hde
    rcases hcases d dcall hd with ⟨rfl, rfl⟩ | ⟨-, hd⟩
    · rcases hcases e ecall he with ⟨rfl, -⟩ | ⟨-, he⟩
      · rfl
      · exact absurd (hde.symm.trans htask) (hother e ecall he hea)
    · rcases hcases e ecall he with ⟨rfl, rfl⟩ | ⟨-, he⟩
      · exact absurd (hde.trans htask) (hother d dcall hd hda)
      · exact h.calls.unique d dcall e ecall hd he hda hea hde
  · intro rd
    obtain ⟨l, hl⟩ := h.lists rd
    have hnew : s.ncalls ∉ l := by
      intro hc
      obtain ⟨old, hold, -⟩ := hl.linked _ hc
      exact lt_irrefl _ (h.calls.lt _ old hold)
    refine ⟨l, ?_⟩
    have hhead : s'.headOf rd = s.headOf rd := by rw [headOf, hring]; rfl
    rw [hhead]
    refine hl.advance hnew hcall' ?_ (fun d _ dcall _ => by rw [hstate]) hpending
    intro d hd
    rw [hnode, update_of_ne fun he : d = s.ncalls => hnew (he ▸ hd)]

lemma startCall_inv {rangeOk : Bool} (hstep : startCall s call rangeOk = some s') : Inv s' := by
  simp only [startCall] at hstep
  split at hstep
  · cases hstep
  next hbusy =>
  have hidle : s.busy call.task = false := by simpa using hbusy
  -- the three ways to return at once differ in the error number only
  have hcall : ((s.newCall call).finish s.ncalls call (-1)).call =
      update s.call s.ncalls (some { call with phase := .returned (-1) }) := by
    simp [finish, goto, newCall]
  have hothers : ∀ t, t ≠ call.task →
      ((s.newCall call).finish s.ncalls call (-1)).busy t = s.busy t := by
    intro t ht
    simp [finish, goto, newCall, ht]
  split at hstep
  · cases hstep
    exact h.start hidle hcall rfl rfl rfl hothers (fun ha => absurd rfl (ha (-1))) rfl rfl rfl
  split at hstep
  · cases hstep
    exact h.start hidle hcall rfl rfl rfl hothers (fun ha => absurd rfl (ha (-1))) rfl rfl rfl
  split at hstep
  · cases hstep
    refine h.start hidle rfl rfl rfl rfl ?_ ?_ rfl rfl rfl
    · exact fun t ht => update_of_ne ht _ _
    · exact fun _ => update_self _ _ _
  · cases hstep
    exact h.start hidle hcall rfl rfl rfl hothers (fun ha => absurd rfl (ha (-1))) rfl rfl rfl

/-- A call outside both lists wakes one of them and goes on. -/
lemma Inv.wake (hm : Moves s c call call' s') (hnl : ¬ Linked s call)
    (hnode : s'.node = s.node) (woken : Bool)
    (hwoken : s'.headOf woken = none) (hkept : s'.headOf (!woken) = s.headOf (!woken))
    (hw : wakeAll s.node (s.ncalls + 1) (s.headOf woken) s.state = some s'.state)
    (hpending : s'.pending = s.pending) : Inv s' := by
  refine ⟨h.calls.advance hm fun d => by rw [hnode], fun rd => ?_⟩
  by_cases hrd : rd = woken
  · exact ⟨[], .nil (hrd ▸ hwoken)⟩
  obtain rfl : rd = !woken := Bool.eq_not.2 hrd
  obtain ⟨l, hl⟩ := h.lists (!woken)
  obtain ⟨_, hlw⟩ := h.lists woken
  refine ⟨l, ?_⟩
  rw [hkept]
  refine hl.advance (hl.notMem hm.old hnl) hm.new (fun d _ => by rw [hnode]) ?_ hpending
  intro d hd dcall hdcall
  refine wakeAll_state hlw.list hw fun e he => ?_
  -- the two lists hold calls of different kinds, hence different calls and tasks
  obtain ⟨ecall, hecall, heop, hel⟩ := hlw.linked e he
  obtain ⟨dcall', hdcall', hdop, hdl⟩ := hl.linked d hd
  cases hdcall.symm.trans hdcall'
  rw [h.calls.owner e ecall hecall]
  intro heq
  obtain rfl := h.calls.unique e ecall d dcall hecall hdcall hel.active hdl.active heq
  cases hecall.symm.trans hdcall
  rw [heop] at hdop
  cases woken <;> cases hdop

/-- A call outside both lists blocks: its node becomes the head of its list. -/
lemma Inv.block (hcall : s.call c = some call) (hact : call.Active)
    (hnl : ¬ Linked s call) (hop : call.op.isRead = rd) {ring : PipeRing}
    (hhead : (s.block c call (s.headOf rd) ring).headOf rd = some c)
    (hkept : (s.block c call (s.headOf rd) ring).headOf (!rd) = s.headOf (!rd)) :
    Inv (s.block c call (s.headOf rd) ring) := by
  refine ⟨h.calls.advance (.goes h hcall hact rfl rfl rfl) ?_, ?_⟩
  · intro d
    by_cases hd : d = c
    · subst hd; simp [block]
    · simp [PipeState.block, hd]
  intro rd'
  -- no list but the new one is touched, and its calls belong to other tasks
  have hkeep : ∀ rd' l, QueueInv s rd' (s.headOf rd') l →
      QueueInv (s.block c call (s.headOf rd) ring) rd' (s.headOf rd') l := by
    intro rd' l hl
    have hc : c ∉ l := hl.notMem hcall hnl
    have hlinked : (s.block c call (s.headOf rd) ring).call
        = update s.call c (some { call with phase := .linked }) := rfl
    refine hl.advance hc hlinked ?_ ?_ rfl
    · intro d hd
      have hdc : d ≠ c := fun he => hc (he ▸ hd)
      simp [PipeState.block, hdc]
    · intro d hd _ hdcall
      exact update_of_ne (h.calls.task_ne hl hcall hact hc hd hdcall) _ _
  obtain ⟨l, hl⟩ := h.lists rd'
  by_cases hrd : rd' = rd
  · subst hrd
    have hl' := hkeep _ l hl
    refine ⟨c :: l, ?_, ?_⟩
    · rw [hhead]
      refine ⟨rfl, ?_⟩
      simp only [block, update_self]
      exact hl'.list
    · intro d hd
      rcases mem_cons.1 hd with rfl | hd
      · refine ⟨{ call with phase := .linked }, ?_, hop, ?_⟩
        · exact update_self _ _ _
        · exact .inl (update_self _ _ _)
      · exact hl'.linked d hd
  · obtain rfl : rd' = !rd := Bool.eq_not.2 hrd
    exact ⟨l, hkept ▸ hkeep _ l hl⟩

/-! ## The unlinking loop -/

omit h in
/-- Behind a node other than `c`, the loop takes `c` out of the rest of the list if it
is there, and touches no node outside the list. -/
lemma unlinkAfter_spec {p : CallId} {node' : CallId → PipeBlockedNode}
    (hl : IsList (fun d => (node d).next) (some p) (p :: l))
    (h : unlinkAfter c fuel p node = some node') :
    IsList (fun d => (node' d).next) (some p) (p :: l.erase c) ∧
      (∀ d, (node' d).task = (node d).task) ∧ ∀ d, d ∉ p :: l → node' d = node d := by
  induction fuel generalizing p l with
  | zero => cases h
  | succ fuel ih =>
    have hp := (nodup_cons.1 hl.nodup).1
    obtain ⟨-, hrest⟩ := hl
    rw [unlinkAfter] at h
    cases hnext : (node p).next with
    | none =>
      simp only [hnext] at h hrest
      cases h
      obtain rfl : l = [] := by
        cases l with
        | nil => rfl
        | cons q l => cases hrest.1
      exact ⟨⟨rfl, hnext⟩, fun _ => rfl, fun _ _ => rfl⟩
    | some q =>
      simp only [hnext] at h hrest
      obtain ⟨l, rfl⟩ : ∃ l', l = q :: l' := by
        cases l with
        | nil => cases hrest
        | cons a l => exact ⟨l, by rw [some.inj hrest.1]⟩
      obtain ⟨-, hrest⟩ := hrest
      split at h
      · next hqc =>
        subst hqc
        cases h
        refine ⟨⟨rfl, ?_⟩, fun d => ?_, fun d hd => ?_⟩
        · simp only [erase_cons_head, update_self]
          refine hrest.congr fun d hd => ?_
          have hdp : d ≠ p := fun he => hp (he ▸ mem_cons_of_mem q hd)
          simp [hdp]
        · by_cases hd : d = p
          · subst hd; simp
          · simp [hd]
        · exact update_of_ne (fun he : d = p => hd (he ▸ mem_cons_self)) _ _
      · next hqc =>
        obtain ⟨hlist, htask, hframe⟩ := ih ⟨rfl, hrest⟩ h
        rw [erase_cons_tail (by simpa using hqc)]
        refine ⟨⟨rfl, ?_⟩, htask, fun d hd => hframe d fun hd' =>
          hd (mem_cons_of_mem p hd')⟩
        simp only [hframe p hp, hnext]
        exact hlist

omit h in
/-- The loop takes `c` out of the list if it is there. -/
lemma unlink_spec {head' : Option CallId} {node' : CallId → PipeBlockedNode}
    (hl : IsList (fun d => (node d).next) head l)
    (h : unlink fuel c head node = some (head', node')) :
    IsList (fun d => (node' d).next) head' (l.erase c) ∧
      (∀ d, (node' d).task = (node d).task) ∧ ∀ d, d ∉ l → node' d = node d := by
  cases l with
  | nil =>
    obtain rfl : head = none := hl
    cases h
    exact ⟨rfl, fun _ => rfl, fun _ _ => rfl⟩
  | cons p l =>
    obtain ⟨rfl, hrest⟩ := hl
    simp only [unlink] at h
    split at h
    · next hpc =>
      subst hpc
      cases h
      rw [erase_cons_head]
      exact ⟨hrest, fun _ => rfl, fun _ _ => rfl⟩
    · next hpc =>
      obtain ⟨_, h1, heq⟩ := map_eq_some_iff.1 h
      cases heq
      rw [erase_cons_tail (by simpa using hpc)]
      exact unlinkAfter_spec ⟨rfl, hrest⟩ h1

/-! ## The sections -/

section

variable (hcall : s.call c = some call)

include hcall

lemma pipeReadLocked_inv {count : ℕ} (hphase : call.phase = .lockTop)
    (hop : call.op.isRead = true) (hstep : pipeReadLocked s c call count = some s') : Inv s' := by
  have hact := active_of_phase hphase nofun
  have hnl : ¬ Linked s call := by simp [Linked, hphase]
  simp only [pipeReadLocked] at hstep
  split at hstep
  · obtain ⟨_, hw, rfl⟩ := map_eq_some_iff.1 hstep
    exact h.wake (.returned hcall hact rfl rfl rfl) hnl rfl false rfl rfl hw rfl
  split at hstep
  · cases hstep
    exact h.advance (.returned hcall hact rfl rfl rfl) hnl rfl (fun _ => rfl) (fun _ _ => rfl) rfl
  · cases hstep
    exact h.block hcall hact hnl hop rfl rfl

lemma pipeWriteLocked_inv {src : List UInt8} {total : ℕ} (hphase : call.phase = .lockTop)
    (hop : call.op.isRead = false) (hstep : pipeWriteLocked s c call src total = some s') :
    Inv s' := by
  have hact := active_of_phase hphase nofun
  have hnl : ¬ Linked s call := by simp [Linked, hphase]
  simp only [pipeWriteLocked] at hstep
  split at hstep
  · obtain ⟨_, hw, rfl⟩ := map_eq_some_iff.1 hstep
    split
    · exact h.wake (.goes h hcall hact rfl rfl rfl) hnl rfl true rfl rfl hw rfl
    · exact h.wake (.returned hcall hact rfl rfl rfl) hnl rfl true rfl rfl hw rfl
  split at hstep
  · cases hstep
    exact h.advance (.returned hcall hact rfl rfl rfl) hnl rfl (fun _ => rfl) (fun _ _ => rfl) rfl
  · cases hstep
    exact h.block hcall hact hnl hop rfl rfl

lemma checkOpenSection_inv (hphase : call.phase = .checkOpen)
    (hstep : checkOpenSection s c call = some s') : Inv s' := by
  have hact := active_of_phase hphase nofun
  have hnl : ¬ Linked s call := by simp [Linked, hphase]
  simp only [checkOpenSection] at hstep
  split at hstep
  · cases hstep
  split at hstep
  · cases hstep
    exact h.advance (.returned hcall hact rfl rfl rfl) hnl rfl (fun _ => rfl) (fun _ _ => rfl) rfl
  split at hstep
  · cases hstep
    exact h.advance (.returned hcall hact rfl rfl rfl) hnl rfl (fun _ => rfl) (fun _ _ => rfl) rfl
  · cases hstep
    exact h.advance (.goes h hcall hact rfl rfl rfl) hnl rfl (fun _ => rfl) (fun _ _ => rfl) rfl

/-- A call that is behind its `unlock` looks at its pending signals. -/
lemma linkedSection_inv (hphase : call.phase = .linked) :
    Inv (s.goto c call (if s.pending call.task then .unlinking else .waiting)) := by
  have hact := active_of_phase hphase nofun
  refine ⟨h.calls.advance (.goes h hcall hact rfl rfl rfl) fun _ => rfl, fun rd => ?_⟩
  obtain ⟨l, hl⟩ := h.lists rd
  refine ⟨l, hl.list, fun d hd => ?_⟩
  obtain ⟨dcall, hdcall, hop, hlink⟩ := hl.linked d hd
  by_cases hdc : d = c
  · subst hdc
    cases hcall.symm.trans hdcall
    refine ⟨_, update_self _ _ _, hop, ?_⟩
    -- without a pending signal the task is still blocked
    cases hpend : s.pending call.task with
    | true => trivial
    | false =>
      simp only [Linked, hphase, hpend, Bool.false_eq_true, or_false] at hlink
      exact hlink
  · exact ⟨dcall, (update_of_ne hdc _ _).trans hdcall, hop, hlink⟩

omit hcall in
/-- Taking the node of an interrupted call out of its list. -/
lemma Inv.interrupt (hm : Moves s c call call' s')
    (hunlink : unlink (s.ncalls + 1) c (s.headOf call.op.isRead) s.node
      = some (s'.headOf call.op.isRead, s'.node))
    (hkept : s'.headOf (!call.op.isRead) = s.headOf (!call.op.isRead))
    (hstate : ∀ t, t ≠ call.task → s'.state t = s.state t)
    (hpending : s'.pending = s.pending) : Inv s' := by
  obtain ⟨l, hl⟩ := h.lists call.op.isRead
  obtain ⟨hlist, hown, hframe⟩ := unlink_spec hl.list hunlink
  refine ⟨h.calls.advance hm hown, fun rd => ?_⟩
  obtain ⟨hcall, hact, hcall', -⟩ := hm
  by_cases hrd : rd = call.op.isRead
  · subst hrd
    refine ⟨l.erase c, hlist, fun d hd => ?_⟩
    obtain ⟨hdc, hdl⟩ := hl.list.nodup.mem_erase_iff.1 hd
    obtain ⟨dcall, hdcall, hop, hlink⟩ := hl.linked d hdl
    refine ⟨dcall, ?_, hop, ?_⟩
    · simp [hcall', hdc, hdcall]
    · have hne : dcall.task ≠ call.task := fun he =>
        hdc (h.calls.unique d dcall c call hdcall hcall hlink.active hact he)
      exact hlink.congr (hstate _ hne) (by rw [hpending])
  · obtain rfl : rd = !call.op.isRead := Bool.eq_not.2 hrd
    obtain ⟨m, hm⟩ := h.lists (!call.op.isRead)
    -- a call is of one kind, so the other list shares no node with this one
    have hdisj : ∀ d ∈ m, ∀ dcall, s.call d = some dcall → dcall.op.isRead ≠ call.op.isRead := by
      intro d hd dcall hdcall heq
      obtain ⟨dcall', hdcall', hop, -⟩ := hm.linked d hd
      cases hdcall.symm.trans hdcall'
      rw [heq] at hop
      cases hb : call.op.isRead <;> rw [hb] at hop <;> cases hop
    have hc : c ∉ m := fun hc => hdisj c hc call hcall rfl
    refine ⟨m, ?_⟩
    rw [hkept]
    refine hm.advance hc hcall' (fun d hd => ?_) (fun d hd dcall hdcall =>
      hstate _ (h.calls.task_ne hm hcall hact hc hd hdcall)) hpending
    have hdl : d ∉ l := by
      intro hdl
      obtain ⟨dcall, hdcall, hop, -⟩ := hl.linked d hdl
      exact hdisj d hd dcall hdcall hop
    rw [hframe d hdl]

lemma unlinkLocked_inv (hphase : call.phase = .unlinking)
    (hstep : unlinkLocked s c call = some s') : Inv s' := by
  have hact := active_of_phase hphase nofun
  simp only [unlinkLocked] at hstep
  cases hop : call.op with
  | read | write =>
    simp only [hop] at hstep
    obtain ⟨⟨head, _⟩, hunlink, rfl⟩ := map_eq_some_iff.1 hstep
    refine h.interrupt (.returned hcall hact rfl rfl rfl) ?_ ?_
      (fun t ht => update_of_ne ht _ _) rfl
    · rw [hop]; exact hunlink
    · rw [hop]; rfl

lemma runCall_inv (hstep : runCall s c call = some s') : Inv s' := by
  unfold runCall at hstep
  split at hstep <;> rename_i hphase
  · split_ifs at hstep
    exact checkOpenSection_inv h hcall hphase hstep
  · split_ifs at hstep
    simp only [lockTopSection] at hstep
    split at hstep
    · next hop => exact pipeReadLocked_inv h hcall hphase (by rw [hop]; rfl) hstep
    · next hop => exact pipeWriteLocked_inv h hcall hphase (by rw [hop]; rfl) hstep
  · cases hstep
    exact linkedSection_inv h hcall hphase
  · split_ifs at hstep
    exact unlinkLocked_inv h hcall hphase hstep
  · split_ifs at hstep with hstate
    cases hstep
    -- the task was woken together with its list, so its node is not linked any more
    have hact := active_of_phase hphase nofun
    have hnl : ¬ Linked s call := by simpa [Linked, hphase] using hstate
    exact h.advance (.goes h hcall hact rfl rfl rfl) hnl rfl (fun _ => rfl)
      (fun t ht => update_of_ne ht _ _) rfl
  · cases hstep

end

lemma pipeClose_inv {readEnd : Bool} (hstep : pipeClose s readEnd = some s') : Inv s' := by
  simp only [pipeClose] at hstep
  split at hstep
  · cases hstep
    exact h
  · obtain ⟨_, -, hstep⟩ := bind_eq_some_iff.1 hstep
    obtain ⟨_, -, rfl⟩ := map_eq_some_iff.1 hstep
    exact ⟨⟨h.calls.owner, h.calls.lt, h.calls.busy, h.calls.unique⟩,
      fun rd => ⟨[], .nil (by cases rd <;> rfl)⟩⟩

/-- A signal for a task that does not sleep in its loop leaves the lists in order: a
call that it catches in between sees it before it sleeps. -/
lemma kill_inv {wakes : Bool} (htame : Tame s (.kill t wakes))
    (hstep : step s (.kill t wakes) = some s') : Inv s' := by
  cases hstep
  refine ⟨⟨h.calls.owner, h.calls.lt, h.calls.busy, h.calls.unique⟩, fun rd => ?_⟩
  obtain ⟨l, hl⟩ := h.lists rd
  refine ⟨l, hl.frame (fun _ _ => rfl) (fun _ _ => rfl) fun d hd dcall hdcall hlink => ?_⟩
  by_cases ht : dcall.task = t
  · subst ht
    unfold Linked at hlink ⊢
    cases hphase : dcall.phase with
    | linked => exact .inr (update_self _ _ _)
    | unlinking => trivial
    | waiting =>
      simp only [hphase] at hlink ⊢
      cases wakes with
      | false => exact hlink
      | true => exact absurd hlink (htame d dcall hdcall rfl hphase)
    | _ => simp [hphase] at hlink
  · refine hlink.congr ?_ (update_of_ne ht _ _)
    cases wakes with
    | false => rfl
    | true => exact wakeTask_of_ne ht

lemma takeSignals_inv (htame : Tame s (.takeSignals t))
    (hstep : step s (.takeSignals t) = some s') : Inv s' := by
  cases hstep
  refine ⟨⟨h.calls.owner, h.calls.lt, h.calls.busy, h.calls.unique⟩, fun rd => ?_⟩
  obtain ⟨l, hl⟩ := h.lists rd
  refine ⟨l, hl.frame (fun _ _ => rfl) (fun _ _ => rfl) fun d hd dcall hdcall hlink => ?_⟩
  have ht : dcall.task ≠ t := by
    rintro rfl
    have := h.calls.busy d dcall hdcall hlink.active
    simp [show s.busy dcall.task = false from htame] at this
  exact hlink.congr rfl (update_of_ne ht _ _)

/-- **A tame step keeps the lists.** -/
lemma step_inv {e : Event} (htame : Tame s e) (hstep : step s e = some s') : Inv s' := by
  cases e with
  | startRead t _ rangeOk => exact startCall_inv h hstep
  | startWrite t _ rangeOk => exact startCall_inv h hstep
  | run c =>
    obtain ⟨_, hcall, hstep⟩ := bind_eq_some_iff.1 hstep
    exact runCall_inv h hcall hstep
  | close _ => exact pipeClose_inv h hstep
  | kill t _ => exact kill_inv h htame hstep
  | takeSignals t => exact takeSignals_inv h htame hstep

end

lemma inv_pipeInit : Inv pipeInit := by
  have hnone : ∀ c call, pipeInit.call c ≠ some call := fun _ _ h => by cases h
  exact ⟨⟨fun c call h => absurd h (hnone c call), fun c call h => absurd h (hnone c call),
    fun c call h => absurd h (hnone c call), fun c call _ _ h => absurd h (hnone c call)⟩,
    fun rd => ⟨[], .nil (by cases rd <;> rfl)⟩⟩

/-- **The lists of blocked tasks stay well formed.** Along every schedule in which no
signal wakes a task that sleeps in the loop of a pipe call, both lists end, hold each
node once and no node of a call that has returned, and the loops that wake them
terminate. -/
theorem blockedLists_ok (es : List Event) (hes : Along step Tame pipeInit es) :
    ListOk (run step pipeInit es) (run step pipeInit es).ring.blockedReaders ∧
      ListOk (run step pipeInit es) (run step pipeInit es).ring.blockedWriters := by
  have h : Inv (run step pipeInit es) :=
    run_invariant_along (fun _ _ _ hs htame hstep => step_inv hs htame hstep) inv_pipeInit hes
  exact ⟨h.listOk true, h.listOk false⟩

/-- A reader that a signal catches between its `unlock` and its look at the pending
signals. -/
def caughtReader : List Event :=
  [.startRead 0 1 true, .run 0, .kill 0 true, .run 0, .run 0]

theorem blockedLists_ok_caughtReader :
    Along step Tame pipeInit caughtReader ∧
    ListOk (run step pipeInit caughtReader)
      (run step pipeInit caughtReader).ring.blockedReaders ∧
    ListOk (run step pipeInit caughtReader)
      (run step pipeInit caughtReader).ring.blockedWriters := by
  have hes : Along step Tame pipeInit caughtReader := by
    refine ⟨trivial, trivial, ?_, trivial, trivial, trivial⟩
    intro c _ hcall _ hphase
    cases c with
    | zero => cases hcall; cases hphase
    | succ c => cases hcall
  exact ⟨hes, blockedLists_ok caughtReader hes⟩

/-- A reader that sleeps, is woken by a signal, and finds the pipe still empty. -/
def relinkedReader : List Event :=
  [.startRead 0 1 true, .run 0, .run 0, .kill 0 true, .run 0, .run 0]

/-- The reader links its node a second time, in front of itself. -/
theorem not_listOk_relinkedReader :
    (run step pipeInit relinkedReader).ring.blockedReaders = some 0 ∧
    ((run step pipeInit relinkedReader).node 0).next = some 0 ∧
    ¬ ListOk (run step pipeInit relinkedReader)
      (run step pipeInit relinkedReader).ring.blockedReaders := by
  refine ⟨rfl, rfl, fun h => ?_⟩
  have hwake := h.2 fun _ => .ready
  cases hwake

end Aurora.Pipe
