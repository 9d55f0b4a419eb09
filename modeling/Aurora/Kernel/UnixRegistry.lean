import Aurora.Kernel.UnixLinks

/-!
# The registry of bound Unix sockets

`unix_bind` puts a socket in front of the list of bound sockets and leaves it in the state in
which it can be bound. If it is bound again, the list becomes a cycle.

## Main definitions

* `Registry`: the list ends, holds exactly the bound sockets, and a search finds the right one.
* `Tame`: no socket is bound twice and no freed socket is touched.
* `registry_iff`: the registry is in order exactly along the runs that are tame.
-/

namespace Aurora.Unix

open Lib Function Option

/-- The list of bound sockets ends; it contains exactly the sockets that were bound and not closed
since, which are all allocated, each once and with different paths; and the search for a path
returns the socket that is bound to it. -/
def Registry (s : Sys) : Prop :=
  s.broken = false ∧ ∃ l, IsList s.mem.next s.mem.boundList l ∧ l.Nodup ∧
    (∀ x, x ∈ l ↔ s.bound x = true) ∧ (∀ x ∈ l, s.mem.live x = true) ∧
    (∀ x ∈ l, ∀ y ∈ l, (s.mem.heap x).path = (s.mem.heap y).path → x = y) ∧
    ∀ path, ∃ r, unixFindBound s.mem path = some r ∧
      ∀ x, r = some x ↔ x ∈ l ∧ (s.mem.heap x).path = path

/-- Whether the operation follows the pointer to its socket. -/
def Op.touches : Op → Prop
  | .create _ => False
  | .bind _ addr =>
    addr.family = afUnix ∧ addr.path.length ≠ 0 ∧ addr.path.length < unixPathMax
  | .connect _ addr _ => addr.family = afUnix
  | .send _ data => data ≠ []
  | .recv _ maxLen => maxLen ≠ 0
  | .listen _ _ | .accept _ | .fork _ | .close _ => True

/-- What an operation has to look out for beside its own socket: a socket is not bound again, the
first socket of an accept queue was not freed, and closing a socket does not free a peer that is
bound. -/
def Minds (s : Sys) : Op → Prop
  | .bind x addr => ¬ (s.bound x = true ∧ Linked.BindOk s x addr)
  | .accept x =>
    (s.mem.heap x).type = .stream → (s.mem.heap x).state = .listening →
      0 < (s.mem.heap x).acceptQueueLen →
      ∃ y, (s.mem.heap x).acceptQueue = some y ∧ s.mem.live y = true
  | .close x => ∀ p, (s.mem.heap x).peer = some p →
      ¬ (s.bound p = true ∧ (s.mem.heap p).refcount = 1)
  | _ => True

/-- The condition: the socket of the operation was not freed, and the operation is careful. -/
def Tame (s : Sys) (op : Op) : Prop :=
  (∀ x, op.target = some x → 0 < s.fds x) →
    (∀ x, op.target = some x → op.touches → s.mem.live x = true) ∧ Minds s op

section

variable {op : Op}

variable {s : Sys} {l : List ℕ} {x : ℕ}

/-- The invariant is enough for the registry. -/
lemma Linked.registry (h : Linked s l) : Registry s := by
  refine ⟨h.sound, l, h.list, h.list.nodup, h.mem_iff, h.live, h.path_inj, fun path => ?_⟩
  obtain ⟨r, hfind, hsome, hnone⟩ := h.findBound path
  refine ⟨r, hfind, fun x => ⟨hsome x, fun ⟨hx, hpath⟩ => ?_⟩⟩
  cases r with
  | none => exact absurd hpath (hnone rfl x hx)
  | some y =>
    obtain ⟨hy, hpathy⟩ := hsome y rfl
    rw [h.path_inj y hy x hx (hpathy.trans hpath.symm)]

/-- An operation that does not touch its socket fails and changes nothing. -/
lemma act_of_not_touches (hx : op.target = some x) (htouch : ¬ op.touches) : act s op = some s := by
  cases op with
  | create _ => cases hx
  | bind y addr =>
    have hrun : ∃ e, unixBind s.mem y addr = some (s.mem, some e) := by
      unfold unixBind
      by_cases hfam : addr.family = afUnix
      · have hlen : addr.path.length = 0 ∨ unixPathMax ≤ addr.path.length := by
          by_contra hno
          exact htouch ⟨hfam, by omega, by omega⟩
        exact ⟨.einval, by rw [if_neg (not_not.2 hfam), if_pos hlen]; rfl⟩
      · exact ⟨.eafnosupport, by rw [if_pos hfam]; rfl⟩
    obtain ⟨e, hrun⟩ := hrun
    simp only [act, hrun, map_some]
    rfl
  | connect y addr mem =>
    have hrun : unixConnect s.mem y addr mem = some (s.mem, .error .eafnosupport) := by
      rw [unixConnect, if_pos (show addr.family ≠ afUnix from htouch)]
      rfl
    simp only [act, hrun, map_some]
  | send y data =>
    have hdata : data = [] := not_not.1 htouch
    subst hdata
    rfl
  | recv y maxLen =>
    have hlen : maxLen = 0 := not_not.1 htouch
    subst hlen
    rfl
  | listen y _ => exact absurd trivial htouch
  | accept y => exact absurd trivial htouch
  | fork y => exact absurd trivial htouch
  | close y => exact absurd trivial htouch

/-- An operation that touches a freed socket has no result. -/
lemma act_of_freed (hx : op.target = some x) (htouch : op.touches)
    (hfreed : s.mem.live x = false) : act s op = none := by
  have hget := Mem.get_of_not_live hfreed
  cases op with
  | create _ => cases hx
  | bind y addr =>
    cases hx
    obtain ⟨hfam, h1, h2⟩ := htouch
    rw [act, unixBind, if_neg (not_not.2 hfam), if_neg (by omega), hget]
    rfl
  | connect y addr mem =>
    cases hx
    rw [act, unixConnect, if_neg (not_not.2 (show addr.family = afUnix from htouch)), hget]
    rfl
  | send y data =>
    cases hx
    rw [act, unixSend, if_neg (show data ≠ [] from htouch), hget]
    rfl
  | recv y maxLen =>
    cases hx
    rw [act, unixRecv, if_neg (show maxLen ≠ 0 from htouch), hget]
    rfl
  | listen y _ =>
    cases hx
    rw [act, unixListen, hget]
    rfl
  | accept y =>
    cases hx
    rw [act, unixAccept, hget]
    rfl
  | fork y =>
    cases hx
    rw [act, unixSocketFork, hget]
    rfl
  | close y =>
    cases hx
    rw [act, unixClose, hget]
    rfl

lemma Linked.unixClose (h : Linked s l) (hx : s.mem.live x = true) :
    ∃ m', unixClose s.mem x = some m' ∧ Closed x l s.mem m' :=
  unixClose_spec hx (fun p hp => ⟨(h.peer x p hx hp).1, (h.peer x p hx hp).2.1⟩) h.list h.live
    h.length_le (h.path_ne x)

/-- `unix_accept` of a socket that was not freed, when the first socket of the queue was not freed
either. -/
lemma Linked.unixAccept (hx : s.mem.live x = true) (hminds : Minds s (.accept x)) :
    (∃ r, (∀ y, r ≠ .sock y) ∧ unixAccept s.mem x = some (s.mem, r)) ∨
      ∃ y n, (s.mem.heap x).acceptQueue = some y ∧ s.mem.live y = true ∧ 
        unixAccept s.mem x = some (s.mem.dequeue x y n, .sock y) := by
  obtain ⟨r, hr, hsame, -⟩ | ⟨htype, hstate, hlen, hrun⟩ := Linked.unixAccept_cases hx
  · exact .inl ⟨r, hr, hsame⟩
  · obtain ⟨y, hy, hlive⟩ := hminds htype hstate hlen
    refine .inr ⟨y, (s.mem.heap x).acceptQueueLen - 1, hy, hlive, ?_⟩
    rw [hrun, hy, bind_some, Mem.get_of_live hlive]
    rfl

/-- **A careful operation** keeps the links. -/
lemma Linked.act (h : Linked s l) (hfds : ∀ x, op.target = some x → 0 < s.fds x)
    (hlive : ∀ x, op.target = some x → op.touches → s.mem.live x = true) (hminds : Minds s op) :
    ∃ s' l', act s op = some s' ∧ Linked s' l' := by
  by_cases htouch : op.touches
  swap
  · cases hx : op.target with
    | some x => exact ⟨s, l, act_of_not_touches hx htouch, h⟩
    | none =>
      cases op with
      | create type => exact ⟨_, l, rfl, h.create type⟩
      | _ => cases hx
  cases op with
  | create type => cases htouch
  | bind x addr =>
    have hx := hlive x rfl htouch
    obtain ⟨-, e, hrun⟩ | ⟨hok, hrun⟩ := h.unixBind_cases hx addr
    · refine ⟨s, l, ?_, h⟩
      simp only [Unix.act, hrun, map_some]
      rfl
    · have hnew : s.bound x = false := by
        cases hb : s.bound x with
        | false => rfl
        | true => exact absurd ⟨hb, hok⟩ hminds
      refine ⟨_, x :: l, ?_, h.bind hx (hfds x rfl) hnew hok⟩
      simp only [Unix.act, hrun, map_some]
      rfl
  | listen x backlog =>
    have hx := hlive x rfl htouch
    obtain ⟨e, hrun⟩ | ⟨n, hstate, hrun⟩ := Linked.unixListen_cases hx backlog
    · exact ⟨s, l, by simp only [Unix.act, hrun, map_some], h⟩
    · exact ⟨_, l, by simp only [Unix.act, hrun, map_some], h.listen hx hstate n⟩
  | connect x addr mem =>
    have hx := hlive x rfl htouch
    obtain ⟨e, hrun⟩ | ⟨k, m', hk, hlisten, hstate, -, hrun, hc⟩ := h.unixConnect_cases hx addr mem
    · exact ⟨s, l, by simp only [Unix.act, hrun, map_some], h⟩
    · exact ⟨_, l, by simp only [Unix.act, hrun, map_some]; rfl, h.connect hx hk hstate hlisten hc⟩
  | accept x =>
    have hx := hlive x rfl htouch
    obtain ⟨r, hr, hrun⟩ | ⟨y, n, hqueue, hy, hrun⟩ := Linked.unixAccept hx hminds
    · refine ⟨s, l, ?_, h⟩
      cases r with
      | sock y => exact absurd rfl (hr y)
      | null => simp only [Unix.act, hrun, map_some]
      | blocked => simp only [Unix.act, hrun, map_some]
    · exact ⟨_, l, by simp only [Unix.act, hrun, map_some], h.accept (hfds x rfl) hqueue hy n⟩
  | send x data =>
    have hx := hlive x rfl htouch
    obtain ⟨r, hr, hrun⟩ | ⟨p, n, first, hp, -, -, -, hrun⟩ := h.unixSend_cases hx data
    · refine ⟨s, l, ?_, h⟩
      simp only [Unix.act, hrun, map_some]
      cases r with
      | sent n => exact absurd rfl (hr n)
      | _ => rfl
    · refine ⟨_, l, by simp only [Unix.act, hrun, hp, map_some]; rfl, ?_⟩
      exact h.set_data ⟨rfl, rfl, rfl, rfl, rfl⟩ fun _ => Iff.rfl
  | recv x maxLen =>
    have hx := hlive x rfl htouch
    obtain ⟨r, hr, hrun, -⟩ | ⟨n, first, -, -, -, hrun⟩ := h.unixRecv_cases hx maxLen
    · refine ⟨s, l, ?_, h⟩
      cases r with
      | received bytes => exact absurd rfl (hr bytes)
      | _ => simp only [Unix.act, hrun, map_some]
    · refine ⟨_, l, by simp only [Unix.act, hrun, map_some]; rfl, ?_⟩
      exact h.set_data ⟨rfl, rfl, rfl, rfl, rfl⟩ fun _ => Iff.rfl
  | fork x =>
    have hx := hlive x rfl htouch
    have hpos := hfds x rfl
    refine ⟨_, l, by simp only [Unix.act, unixSocketFork_eq hx, map_some]; rfl, ?_⟩
    refine h.set_data ⟨rfl, rfl, rfl, rfl, rfl⟩ fun z => ?_
    by_cases hz : z = x
    · rw [hz, update_self]
      omega
    · simp [hz]
  | close x =>
    have hx := hlive x rfl htouch
    obtain ⟨m', hrun, hc⟩ := h.unixClose hx
    exact ⟨_, l.erase x, by simp only [Unix.act, hrun, map_some]; rfl,
      h.close hx (hfds x rfl) hc hminds⟩

lemma exec_eq (h : Linked s l) (hfds : ∀ x, op.target = some x → 0 < s.fds x) :
    exec step s op = (Unix.act s op).getD { s with broken := true } := by
  rw [exec, step, if_pos ⟨h.sound, hfds⟩, getD_some]

/-- The links are kept along tame runs. -/
lemma Linked.exec (h : Linked s l) (htame : Tame s op) : ∃ l', Linked (exec step s op) l' := by
  by_cases hfds : ∀ x, op.target = some x → 0 < s.fds x
  · obtain ⟨hlive, hminds⟩ := htame hfds
    obtain ⟨_, l', hrun, h'⟩ := h.act hfds hlive hminds
    rw [exec_eq h hfds, hrun]
    exact ⟨l', h'⟩
  · rw [Lib.exec, step, if_neg fun hno => hfds hno.2]
    exact ⟨l, h⟩

/-- **An operation that is not tame** breaks the registry. -/
lemma Linked.tame (h : Linked s l) (hreg : Registry (Lib.exec step s op)) : Tame s op := by
  intro hfds
  rw [exec_eq h hfds] at hreg
  have hact : Unix.act s op ≠ none := by
    intro hnone
    rw [hnone] at hreg
    cases hreg.1
  have hlive : ∀ x, op.target = some x → op.touches → s.mem.live x = true := by
    intro x hx htouch
    cases hfreed : s.mem.live x with
    | true => rfl
    | false => exact absurd (act_of_freed hx htouch hfreed) hact
  refine ⟨hlive, ?_⟩
  cases op with
  | bind x addr =>
    rintro ⟨hb, hok⟩
    have hx := hlive x rfl ⟨hok.1, hok.2.1, hok.2.2.1⟩
    obtain ⟨hno, -⟩ | ⟨-, hrun⟩ := h.unixBind_cases hx addr
    · exact hno hok
    · simp only [Unix.act, hrun, map_some, getD_some] at hreg
      obtain ⟨-, m, hlist, -⟩ := hreg
      obtain ⟨_, _, rfl⟩ := List.append_of_mem ((h.mem_iff x).2 hb)
      refine h.list.not_isList_push m ?_
      refine hlist.congr fun y _ => ?_
      by_cases hy : y = x
      · rw [hy, update_self]
        show _ = ((s.mem.set x _).heap x).next
        rw [Mem.set_self]
      · rw [update_of_ne hy]
        show _ = ((s.mem.set x _).heap y).next
        rw [Mem.set_other _ _ hy]
        rfl
  | accept x =>
    intro htype hstate hlen
    refine Linked.exists_queued (hlive x rfl trivial) htype hstate hlen fun hrun => hact ?_
    simp only [Unix.act, hrun, map_none]
  | close x =>
    rintro p hp ⟨hb, href⟩
    have hx := hlive x rfl trivial
    obtain ⟨m', hrun, hc⟩ := h.unixClose hx
    simp only [Unix.act, hrun, map_some, getD_some] at hreg
    obtain ⟨-, m, -, -, hmem, hall, -⟩ := hreg
    have hpx := (h.peer x p hx hp).1
    have hpm : p ∈ m := (hmem p).2 (by
      show update s.bound x false p = true
      rw [update_of_ne hpx, hb])
    have hdead : m'.live p = true := hall p hpm
    rw [hc.live, decide_eq_true (.inr hp : p = x ∨ _), decide_eq_true href] at hdead
    simp at hdead
  | _ => trivial

end

/-- **The registry of bound sockets** is in order in every state that is reached exactly if every
operation is tame. -/
theorem registry_iff (ops : List Op) :
    (∀ fs, fs <+: ops → Registry (run step .init fs)) ↔ Along step Tame .init ops :=
  forall_prefix_iff_along (I := fun s => ∃ l, Linked s l) (fun _ ⟨_, h⟩ => h.registry)
    (fun _ _ ⟨_, h⟩ htame => h.exec htame) (fun _ _ ⟨_, h⟩ hreg => h.tame hreg)
    ⟨[], linked_init⟩ ops

/-- A socket that is bound twice points to itself, and the search for another path does not
end. -/
theorem not_registry_rebind :
    unixFindBound (run step .init
      [.create .stream, .bind 0 ⟨afUnix, "/a"⟩, .bind 0 ⟨afUnix, "/b"⟩]).mem "/c" = none ∧
    ¬ Registry (run step .init
      [.create .stream, .bind 0 ⟨afUnix, "/a"⟩, .bind 0 ⟨afUnix, "/b"⟩]) := by
  have hnone : unixFindBound (run step .init
      [.create .stream, .bind 0 ⟨afUnix, "/a"⟩, .bind 0 ⟨afUnix, "/b"⟩]).mem "/c" = none := by
    decide
  refine ⟨hnone, fun ⟨_, _, _, _, _, _, _, hfind⟩ => ?_⟩
  obtain ⟨r, hr, -⟩ := hfind "/c"
  cases hr

end Aurora.Unix
