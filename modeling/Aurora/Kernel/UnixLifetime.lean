import Aurora.Kernel.UnixRegistry

/-!
# The lifetime of Unix sockets

Each descriptor of a socket and the accept queue it waits in hold a reference to it.
`unix_close` drops two: the one of the descriptor, and one of the peer, which the connection never
took. So a socket whose peers were closed has fewer references than descriptors, and closing a
descriptor of it frees it while there are others.

## Main definitions

* `Lifetime`: a socket with descriptors was not freed, and what was delivered to it can be
  received.
* `Sys.refs`: the references that there are to a socket; `Alive.refs` says that they are counted.
* `Kept`: the descriptors of the socket that is closed and of its peer outnumber the references
  that they have lost.
* `lifetime_iff`: sockets live long enough exactly if every operation keeps to this.
-/

namespace Aurora.Unix

open Lib Function List Option

/-- A socket of which descriptors are held was not freed; and what was delivered to an end of a
connection that was not itself closed is received before anything else is reported. -/
def Lifetime (s : Sys) : Prop :=
  s.broken = false ∧ (∀ x, 0 < s.fds x → s.mem.live x = true) ∧
    ∀ x n, 0 < s.fds x → s.up x = true → 0 < n → s.inbox x ≠ [] →
      ∃ m', unixRecv s.mem x n = some (m', .received ((s.inbox x).take n))

/-- A socket is not bound again. -/
def BindsOnce (s : Sys) : Op → Prop
  | .bind x addr => 0 < s.fds x → ¬ (s.bound x = true ∧ Linked.BindOk s x addr)
  | _ => True

/-- The first socket of an accept queue was not freed. A socket is closed when its peer, if it has
descriptors, has at least two more than it has lost references, and so has the socket unless this
is its last descriptor. -/
def Kept (s : Sys) : Op → Prop
  | .accept x => 0 < s.fds x → Minds s (.accept x)
  | .close x => 0 < s.fds x →
      (∀ p, (s.mem.heap x).peer = some p → 0 < s.fds p → s.dropped p + 1 < s.fds p) ∧
      (1 < s.fds x → s.dropped x + 1 < s.fds x)
  | _ => True

/-- The references to a socket: one for each descriptor and one from the accept queue, less those
that closing its peers has dropped. -/
def Sys.refs (s : Sys) (x : ℕ) : ℤ := s.fds x + (s.queued x).toNat - s.dropped x

/-- The buffer of a socket holds `bytes`. -/
structure Holds (sk : UnixSock) (bytes : List UInt8) : Prop where
  head : sk.head < sk.bufSize
  tail : sk.tail = (sk.head + sk.count) % sk.bufSize
  count : sk.count ≤ sk.bufSize
  view : window sk.bufSize sk.buf sk.head sk.count = bytes

/-- The buffer of a socket, with where it starts and ends. -/
def UnixSock.ring (sk : UnixSock) : (ℕ → UInt8) × ℕ × ℕ × ℕ × ℕ :=
  (sk.buf, sk.head, sk.tail, sk.count, sk.bufSize)

variable {sk : UnixSock} {bytes : List UInt8}

lemma Holds.congr {sk' : UnixSock} (h : Holds sk bytes) (hring : sk'.ring = sk.ring) :
    Holds sk' bytes := by
  simp only [UnixSock.ring, Prod.mk.injEq] at hring
  obtain ⟨h1, h2, h3, h4, h5⟩ := hring
  constructor
  · rw [h2, h5]
    exact h.head
  · rw [h2, h3, h4, h5]
    exact h.tail
  · rw [h4, h5]
    exact h.count
  · rw [h1, h2, h4, h5]
    exact h.view

lemma Holds.length_eq (h : Holds sk bytes) : bytes.length = sk.count := by
  rw [← h.view, length_window]

lemma holds_new (sk : UnixSock) (hbuf : sk.head = 0 ∧ sk.tail = 0 ∧ sk.count = 0)
    (hsize : sk.bufSize = unixBufSize) : Holds sk [] := by
  obtain ⟨h1, h2, h3⟩ := hbuf
  refine ⟨?_, ?_, ?_, ?_⟩
  · rw [h1, hsize]
    decide
  · rw [h1, h2, h3, hsize]
    rfl
  · rw [h3]
    exact Nat.zero_le _
  · rw [h3]
    rfl

/-- A write appends to what the buffer holds. -/
lemma Holds.write {data : List UInt8} {n first : ℕ} (h : Holds sk bytes)
    (hn : n = min data.length (sk.bufSize - sk.count))
    (hfirst : first = min (sk.bufSize - sk.tail) n) :
    Holds { sk with
      buf := blit (blit sk.buf sk.tail (data.take first)) 0 ((data.take n).drop first)
      tail := (sk.tail + n) % sk.bufSize, count := sk.count + n } (bytes ++ data.take n) := by
  have hcount := h.count
  have hlen : (data.take n).length = n := by
    rw [length_take]
    omega
  have htake : data.take first = (data.take n).take first := by
    rw [take_take, Nat.min_eq_left (by omega)]
  refine ⟨h.head, ?_, ?_, ?_⟩
  · rw [h.tail, Nat.mod_add_mod, Nat.add_assoc]
  · show sk.count + n ≤ sk.bufSize
    omega
  · have hroom : sk.count + (data.take n).length ≤ sk.bufSize := by
      rw [hlen]
      omega
    have hsplit : first = min (data.take n).length (sk.bufSize - sk.tail) := by
      rw [hlen]
      omega
    have hview := window_blit_blit sk.buf h.head hroom h.tail hsplit
    rw [hlen, h.view] at hview
    rwa [htake]

/-- A read takes the front of what the buffer holds. -/
lemma Holds.read {n maxLen first : ℕ} (h : Holds sk bytes) (hn : n = min maxLen sk.count)
    (hfirst : first = min (sk.bufSize - sk.head) n) :
    slice sk.buf sk.head first ++ slice sk.buf 0 (n - first) = bytes.take maxLen ∧
      Holds { sk with head := (sk.head + n) % sk.bufSize, count := sk.count - n }
        (bytes.drop n) := by
  have hcount := h.count
  have hhead := h.head
  have hlen := h.length_eq
  have hsplit : window sk.bufSize sk.buf sk.head n ++
      window sk.bufSize sk.buf ((sk.head + n) % sk.bufSize) (sk.count - n) = bytes := by
    rw [← window_add, ← h.view, show n + (sk.count - n) = sk.count by omega]
  have hfront : bytes.take n = window sk.bufSize sk.buf sk.head n := by
    rw [← hsplit, take_append_of_le_length (by rw [length_window]),
      take_of_length_le (by rw [length_window])]
  have htake : bytes.take maxLen = bytes.take n := by
    by_cases hle : maxLen ≤ sk.count
    · rw [hn, Nat.min_eq_left hle]
    · rw [hn, Nat.min_eq_right (by omega), take_of_length_le (by omega),
        take_of_length_le (by omega)]
  refine ⟨?_, Nat.mod_lt _ (by omega), ?_, ?_, ?_⟩
  · rw [htake, hfront]
    exact slice_append_slice sk.buf hhead (show n ≤ sk.bufSize by omega)
      (show first = min n (sk.bufSize - sk.head) by omega)
  · rw [h.tail, Nat.mod_add_mod, show sk.head + n + (sk.count - n) = sk.head + sk.count by omega]
  · show sk.count - n ≤ sk.bufSize
    omega
  · have hdrop := congrArg (List.drop n) hsplit
    rw [drop_append_of_le_length (by rw [length_window]),
      drop_of_length_le (by rw [length_window]), nil_append] at hdrop
    exact hdrop

/-- Sockets with descriptors are live, the references are counted, and the buffers hold what was
delivered and not yet received. -/
structure Alive (s : Sys) : Prop where
  live : ∀ x, 0 < s.fds x → s.mem.live x = true
  refs : ∀ x, s.mem.live x = true →
    0 < (s.mem.heap x).refcount ∧ (s.mem.heap x).refcount = s.refs x
  up : ∀ x, s.mem.live x = true → s.up x = true →
    (s.mem.heap x).state = .connected ∧ (s.mem.heap x).type = .stream
  holds : ∀ x, s.mem.live x = true → (s.mem.heap x).type = .stream →
    Holds (s.mem.heap x) (s.inbox x)

lemma alive_init : Alive .init := ⟨nofun, nofun, nofun, nofun⟩

variable {op : Op}

section

variable {s : Sys} {l : List ℕ} {x : ℕ}

lemma Alive.lifetime (ha : Alive s) (h : Linked s l) : Lifetime s := by
  refine ⟨h.sound, ha.live, fun x n hfds hup hn hne => ?_⟩
  have hx := ha.live x hfds
  obtain ⟨hstate, htype⟩ := ha.up x hx hup
  have hh := ha.holds x hx htype
  have hlen := hh.length_eq
  obtain ⟨-, -, -, hno⟩ | ⟨k, _, -, hk, hfirst, hrun⟩ := h.unixRecv_cases hx n
  · have hpos := length_pos_iff.2 hne
    obtain hno | hno | hno | hno := hno
    · omega
    · exact absurd htype hno
    · exact absurd hstate hno
    · omega
  · rw [(hh.read hk hfirst).1] at hrun
    exact ⟨_, hrun⟩

/-- The descriptors of a socket outnumber the references that it has lost by two if its reference
count says so. -/
lemma Alive.lt_fds_iff (ha : Alive s) (h : Linked s l) (hx : 0 < s.fds x) :
    s.dropped x + 1 < s.fds x ↔ (s.mem.heap x).refcount ≠ 1 := by
  obtain ⟨hpos, href⟩ := ha.refs x (ha.live x hx)
  have hqueued : s.queued x = false := Bool.eq_false_iff.2 fun hq => h.ne_of_queued hq hx rfl
  rw [Sys.refs, hqueued, Bool.toNat_false] at href
  omega

/-- The references are counted, an end of a connection is a connected stream socket, and the
buffer of a stream socket holds what was delivered. -/
def Fits (sk : UnixSock) (refs : ℤ) (up : Bool) (bytes : List UInt8) : Prop :=
  (0 < sk.refcount ∧ sk.refcount = refs) ∧
    (up = true → sk.state = .connected ∧ sk.type = .stream) ∧ (sk.type = .stream → Holds sk bytes)

lemma Fits.congr {sk' : UnixSock} {refs refs' : ℤ} {up up' : Bool} (h : Fits sk refs up bytes)
    (hrefs : 0 < sk'.refcount ∧ sk'.refcount - sk.refcount = refs' - refs)
    (htype : sk'.type = sk.type) (hup : up' = true → up = true ∧ sk'.state = sk.state)
    (hring : sk'.ring = sk.ring) : Fits sk' refs' up' bytes := by
  obtain ⟨⟨-, hcount⟩, hend, hholds⟩ := h
  refine ⟨⟨hrefs.1, by omega⟩, fun hup' => ?_, fun ht => (hholds (htype ▸ ht)).congr hring⟩
  obtain ⟨hup, hstate⟩ := hup hup'
  rw [htype, hstate]
  exact hend hup

lemma Alive.fits (ha : Alive s) (hx : s.mem.live x = true) :
    Fits (s.mem.heap x) (s.refs x) (s.up x) (s.inbox x) :=
  ⟨ha.refs x hx, ha.up x hx, ha.holds x hx⟩

lemma Alive.of_fits {s' : Sys} (hlive : ∀ x, 0 < s'.fds x → s'.mem.live x = true)
    (hfits : ∀ x, s'.mem.live x = true →
      Fits (s'.mem.heap x) (s'.refs x) (s'.up x) (s'.inbox x)) : Alive s' :=
  ⟨hlive, fun x hx => (hfits x hx).1, fun x hx => (hfits x hx).2.1, fun x hx => (hfits x hx).2.2⟩

section

variable {fds : ℕ → ℕ} {queued bound : ℕ → Bool} {bl : Option ℕ}

/-- One cell is written, and the descriptors of no other socket change. -/
lemma Alive.setBuf (ha : Alive s) (hx : s.mem.live x = true)
    (hother : ∀ z, z ≠ x → fds z = s.fds z ∧ queued z = s.queued z)
    (hsk : Fits sk (fds x + (queued x).toNat - s.dropped x) (s.up x) bytes) :
    Alive { s with
      mem := { s.mem.set x sk with boundList := bl }, fds := fds, queued := queued
      bound := bound, inbox := update s.inbox x bytes } := by
  refine .of_fits (fun z hz => ?_) fun z hz => ?_
  · by_cases hzx : z = x
    · rwa [hzx]
    · exact ha.live z ((hother z hzx).1 ▸ hz)
  · show Fits ((s.mem.set x sk).heap z) (fds z + (queued z).toNat - s.dropped z) (s.up z)
      (update s.inbox x bytes z)
    by_cases hzx : z = x
    · rwa [hzx, Mem.set_self, update_self]
    · rw [Mem.set_other _ _ hzx, update_of_ne hzx, (hother z hzx).1, (hother z hzx).2]
      exact ha.fits hz

/-- One cell is written, without its buffer. -/
lemma Alive.set (ha : Alive s) (hx : s.mem.live x = true)
    (hother : ∀ z, z ≠ x → fds z = s.fds z ∧ queued z = s.queued z)
    (hrefs : 0 < sk.refcount ∧ sk.refcount - (s.mem.heap x).refcount =
      fds x + (queued x).toNat - s.dropped x - s.refs x)
    (htype : sk.type = (s.mem.heap x).type)
    (hstate : s.up x = true → sk.state = (s.mem.heap x).state)
    (hring : sk.ring = (s.mem.heap x).ring) :
    Alive { s with
      mem := { s.mem.set x sk with boundList := bl }, fds := fds, queued := queued
      bound := bound } := by
  rw [← update_eq_self x s.inbox]
  exact ha.setBuf hx hother
    ((ha.fits hx).congr hrefs htype (fun hup => ⟨hup, hstate hup⟩) hring)

/-- One cell is written, without its buffer and its references. -/
lemma Alive.set_links (ha : Alive s) (hx : s.mem.live x = true)
    (hrefs : sk.refcount = (s.mem.heap x).refcount) (htype : sk.type = (s.mem.heap x).type)
    (hstate : s.up x = true → sk.state = (s.mem.heap x).state)
    (hring : sk.ring = (s.mem.heap x).ring) :
    Alive { s with mem := { s.mem.set x sk with boundList := bl }, bound := bound } := by
  refine ha.set hx (fun _ _ => ⟨rfl, rfl⟩) ⟨?_, ?_⟩ htype hstate hring
  · rw [hrefs]
    exact (ha.refs x hx).1
  · rw [hrefs, sub_self]
    exact (sub_self _).symm

end

/-- What is careful keeps the registry in order, too. -/
lemma Alive.minds (ha : Alive s) (h : Linked s l) (hfds : ∀ x, op.target = some x → 0 < s.fds x)
    (hbind : BindsOnce s op) (hkept : Kept s op) : Minds s op := by
  cases op with
  | bind x _ => exact hbind (hfds x rfl)
  | accept x => exact hkept (hfds x rfl)
  | close x =>
    rintro p hp ⟨hb, href⟩
    have hheld := h.held p ((h.mem_iff p).2 hb)
    exact (ha.lt_fds_iff h hheld).1 ((hkept (hfds x rfl)).1 p hp hheld) href
  | _ => trivial

/-- **A careful operation** keeps the sockets alive. -/
lemma Alive.act {s' : Sys} (ha : Alive s) (h : Linked s l)
    (hfds : ∀ x, op.target = some x → 0 < s.fds x) (hminds : Minds s op) (hkept : Kept s op)
    (hrun : act s op = some s') : Alive s' := by
  cases op with
  | create type =>
    cases hrun
    have hother : ∀ {z}, z ≠ s.mem.fresh → (unixSocketCreate s.mem type).1.heap z = s.mem.heap z ∧
          (unixSocketCreate s.mem type).1.live z = s.mem.live z := fun hz =>
      ⟨update_of_ne hz .., update_of_ne hz ..⟩
    have hself : (unixSocketCreate s.mem type).1.heap s.mem.fresh =
        { type := type, bufSize := if type = .stream then unixBufSize else 0 } :=
      update_self ..
    refine .of_fits (fun z hz => ?_) fun z hz => ?_
    · by_cases hzf : z = s.mem.fresh
      · rw [hzf]
        exact update_self ..
      · change 0 < update s.fds s.mem.fresh 1 z at hz
        rw [update_of_ne hzf] at hz
        exact (hother hzf).2.trans (ha.live z hz)
    · show Fits ((unixSocketCreate s.mem type).1.heap z)
        (update s.fds s.mem.fresh 1 z + (s.queued z).toNat - update s.dropped s.mem.fresh 0 z)
        (update s.up s.mem.fresh false z) (update s.inbox s.mem.fresh [] z)
      by_cases hzf : z = s.mem.fresh
      · obtain ⟨-, -, hqueued, -⟩ := h.frontier _ le_rfl
        simp only [hzf, hself, update_self, hqueued]
        exact ⟨⟨one_pos, rfl⟩, nofun, fun htype => holds_new _ ⟨rfl, rfl, rfl⟩ (if_pos htype)⟩
      · simp only [(hother hzf).1, update_of_ne hzf]
        exact ha.fits ((hother hzf).2.symm.trans hz)
  | bind x addr =>
    have hx := ha.live x (hfds x rfl)
    obtain ⟨-, e, hb⟩ | ⟨-, hb⟩ := h.unixBind_cases hx addr
    · simp only [Unix.act, hb, map_some] at hrun
      cases hrun
      exact ha
    · simp only [Unix.act, hb, map_some] at hrun
      cases hrun
      exact ha.set_links hx rfl rfl (fun _ => rfl) rfl
  | listen x backlog =>
    have hx := ha.live x (hfds x rfl)
    obtain ⟨e, hl⟩ | ⟨n, hstate, hl⟩ := Linked.unixListen_cases hx backlog
    · simp only [Unix.act, hl, map_some] at hrun
      cases hrun
      exact ha
    · simp only [Unix.act, hl, map_some] at hrun
      cases hrun
      refine ha.set_links hx rfl rfl (fun hup => ?_) rfl
      simp [(ha.up x hx hup).1] at hstate
  | connect x addr mem =>
    have hx := ha.live x (hfds x rfl)
    obtain ⟨e, hconn⟩ | ⟨k, m', -, -, hstate, htypex, hconn, hc⟩ :=
      h.unixConnect_cases hx addr mem
    · simp only [Unix.act, hconn, map_some] at hrun
      cases hrun
      exact ha
    · simp only [Unix.act, hconn, map_some] at hrun
      cases hrun
      set y := s.mem.fresh with hy
      have hlive : ∀ {z}, z ≠ y → m'.live z = s.mem.live z := fun hz => by
        simp [hc.live, hz]
      refine .of_fits (fun z hz => ?_) fun z hz => ?_
      · by_cases hzy : z = y
        · simp [hzy, hc.live]
        · rw [hlive hzy]
          exact ha.live z hz
      · show Fits (m'.heap z)
          (s.fds z + (update s.queued y true z).toNat - update s.dropped y 0 z)
          (update (update s.up x true) y true z) (update s.inbox y [] z)
        by_cases hzy : z = y
        · obtain ⟨-, hnofds, -⟩ := h.frontier y hy.ge
          simp only [hzy, hc.server, update_self, hnofds]
          exact ⟨⟨one_pos, rfl⟩, fun _ => ⟨rfl, rfl⟩, fun _ => holds_new _ ⟨rfl, rfl, rfl⟩ rfl⟩
        simp only [update_of_ne hzy]
        rw [hlive hzy] at hz
        by_cases hzx : z = x
        · rw [hzx, hc.client, update_self]
          exact ⟨ha.refs x hx, fun _ => ⟨rfl, htypex⟩, fun _ => (ha.holds x hx htypex).congr rfl⟩
        rw [update_of_ne hzx]
        by_cases hzk : z = k
        · rw [hzk] at hz ⊢
          rw [hc.listener]
          exact ⟨ha.refs k hz, ha.up k hz, fun htype => (ha.holds k hz htype).congr rfl⟩
        · rw [hc.other z hzx hzy hzk]
          exact ha.fits hz
  | accept x =>
    have hx := ha.live x (hfds x rfl)
    obtain ⟨r, hr, hacc⟩ | ⟨y, n, hqueue, hy, hacc⟩ := Linked.unixAccept hx hminds
    · simp only [Unix.act, hacc, map_some] at hrun
      cases r with
      | sock y => exact absurd rfl (hr y)
      | null =>
        cases hrun
        exact ha
      | blocked =>
        cases hrun
        exact ha
    · simp only [Unix.act, hacc, map_some] at hrun
      cases hrun
      have ha1 : Alive { s with
          mem := s.mem.set x { s.mem.heap x with
            acceptQueue := s.mem.next y, acceptQueueLen := n } } :=
        ha.set_links hx rfl rfl (fun _ => rfl) rfl
      -- the reference of the queue becomes the one of the descriptor
      have hwait : s.queued y = true := h.ptr_queued (.inl x) y hqueue
      refine ha1.set (x := y) hy (fun z hz => ⟨update_of_ne hz .., update_of_ne hz ..⟩)
        ⟨(ha1.refs y hy).1, ?_⟩ rfl (fun _ => rfl) rfl
      simp only [Sys.refs, update_self, hwait, Bool.toNat_true, Bool.toNat_false]
      omega
  | send x data =>
    have hx := ha.live x (hfds x rfl)
    obtain ⟨r, hr, hsend⟩ | ⟨p, n, first, hp, -, hn, hfirst, hsend⟩ := h.unixSend_cases hx data
    · simp only [Unix.act, hsend, map_some] at hrun
      cases r with
      | sent n => exact absurd rfl (hr n)
      | _ =>
        cases hrun
        exact ha
    · simp only [Unix.act, hsend, hp, map_some] at hrun
      cases hrun
      have hplive := (h.peer x p hx hp).2.1
      exact ha.setBuf hplive (fun _ _ => ⟨rfl, rfl⟩)
        ⟨ha.refs p hplive, ha.up p hplive, fun htype => (ha.holds p hplive htype).write hn hfirst⟩
  | recv x maxLen =>
    have hx := ha.live x (hfds x rfl)
    obtain ⟨r, hr, hrecv, -⟩ | ⟨n, first, hstate, hn, hfirst, hrecv⟩ := h.unixRecv_cases hx maxLen
    · simp only [Unix.act, hrecv, map_some] at hrun
      cases r with
      | received bytes => exact absurd rfl (hr bytes)
      | _ =>
        cases hrun
        exact ha
    · simp only [Unix.act, hrecv, map_some] at hrun
      cases hrun
      refine ha.setBuf hx (fun _ _ => ⟨rfl, rfl⟩) ⟨ha.refs x hx, ha.up x hx, fun htype => ?_⟩
      have hh := ha.holds x hx htype
      obtain ⟨hbytes, hrest⟩ := hh.read hn hfirst
      rwa [hbytes, length_take, hh.length_eq, ← hn]
  | fork x =>
    have hx := ha.live x (hfds x rfl)
    simp only [Unix.act, unixSocketFork_eq hx, map_some] at hrun
    cases hrun
    have hpos := (ha.refs x hx).1
    refine ha.set hx (fun z hz => ⟨update_of_ne hz .., rfl⟩) ⟨?_, ?_⟩ rfl (fun _ => rfl) rfl
    · show 0 < (s.mem.heap x).refcount + 1
      omega
    · simp only [Sys.refs, update_self]
      omega
  | close x =>
    have hx := ha.live x (hfds x rfl)
    obtain ⟨m', hclose, hc⟩ := h.unixClose hx
    simp only [Unix.act, hclose, map_some] at hrun
    cases hrun
    obtain ⟨hpeer, hself⟩ := hkept (hfds x rfl)
    refine .of_fits (fun z hz => ?_) fun z hz => ?_
    · change 0 < update s.fds x (s.fds x - 1) z at hz
      by_cases hzx : z = x
      · rw [hzx, update_self] at hz
        have href := (ha.lt_fds_iff h (hfds x rfl)).1 (hself (by omega))
        rw [hzx, hc.live, hx, decide_eq_false href, Bool.and_false]
        rfl
      · rw [update_of_ne hzx] at hz
        rw [hc.live, ha.live z hz, Bool.true_and, Bool.not_eq_true', Bool.and_eq_false_iff]
        by_cases hp : (s.mem.heap x).peer = some z
        · exact .inr (decide_eq_false ((ha.lt_fds_iff h hz).1 (hpeer z hp hz)))
        · exact .inl (decide_eq_false fun hor => hor.elim hzx hp)
    · rw [hc.live, Bool.and_eq_true_iff] at hz
      refine (ha.fits hz.1).congr ?_ (hc.same z).2.1 (fun hup => ?_)
        (by simp only [UnixSock.ring, hc.data z])
      · have hpos := (ha.refs z hz.1).1
        have hheld := hfds x rfl
        rw [hc.refcount]
        simp only [Sys.refs]
        by_cases hzx : z = x
        · have hpx : (s.mem.heap x).peer ≠ some x := fun hp => (h.peer x x hx hp).1 rfl
          simp only [hzx, true_or, decide_true, Bool.true_and, Bool.not_eq_true',
            decide_eq_false_iff_not] at hz
          simp only [hzx, true_or, if_true, update_self, if_neg hpx]
          rw [hzx] at hpos
          omega
        · by_cases hp : (s.mem.heap x).peer = some z
          · simp only [hp, or_true, decide_true, Bool.true_and, Bool.not_eq_true',
              decide_eq_false_iff_not] at hz
            simp only [hp, or_true, if_true, update_of_ne hzx]
            omega
          · simp only [hzx, hp, false_or, if_false, update_of_ne hzx]
            omega
      change update s.up x false z = true at hup
      have hzx : z ≠ x := by
        rintro rfl
        simp [update_self] at hup
      rw [update_of_ne hzx] at hup
      exact ⟨hup, by rw [hc.state, if_neg hzx]⟩

/-- The sockets stay alive along careful runs. -/
lemma Alive.exec (ha : Alive s) (h : Linked s l) (hcareful : BindsOnce s op ∧ Kept s op) :
    ∃ l', Linked (exec step s op) l' ∧ Alive (Lib.exec step s op) := by
  by_cases hfds : ∀ x, op.target = some x → 0 < s.fds x
  · have hminds := ha.minds h hfds hcareful.1 hcareful.2
    obtain ⟨_, l', hrun, h'⟩ := h.act hfds (fun x hx _ => ha.live x (hfds x hx)) hminds
    rw [exec_eq h hfds, hrun]
    exact ⟨l', h', ha.act h hfds hminds hcareful.2 hrun⟩
  · rw [Lib.exec, step, if_neg fun hno => hfds hno.2]
    exact ⟨l, h, ha⟩

/-- **An operation that is not careful** frees a socket too early or uses a freed one. -/
lemma Alive.kept (ha : Alive s) (h : Linked s l) (hlife : Lifetime (Lib.exec step s op)) :
    Kept s op := by
  cases op with
  | accept x =>
    intro hfds htype hstate hlen
    have hheld : ∀ z, (Op.accept x).target = some z → 0 < s.fds z := by
      intro z hz
      cases hz
      exact hfds
    have hx := ha.live x hfds
    rw [exec_eq h hheld] at hlife
    refine Linked.exists_queued hx htype hstate hlen fun hrun => ?_
    simp only [Unix.act, hrun, map_none] at hlife
    cases hlife.1
  | close x =>
    intro hfds
    have hheld : ∀ z, (Op.close x).target = some z → 0 < s.fds z := by
      intro z hz
      cases hz
      exact hfds
    have hx := ha.live x hfds
    obtain ⟨m', hrun, hc⟩ := h.unixClose hx
    rw [exec_eq h hheld] at hlife
    simp only [Unix.act, hrun, map_some, getD_some] at hlife
    obtain ⟨-, hlive, -⟩ := hlife
    have hlive' : ∀ z, 0 < update s.fds x (s.fds x - 1) z → m'.live z = true := hlive
    refine ⟨fun p hp hpfds => (ha.lt_fds_iff h hpfds).2 fun href => ?_,
      fun hmore => (ha.lt_fds_iff h hfds).2 fun href => ?_⟩
    · have hpx := (h.peer x p hx hp).1
      have hdead := hlive' p (by rwa [update_of_ne hpx])
      rw [hc.live, decide_eq_true (.inr hp : p = x ∨ _), decide_eq_true href] at hdead
      simp at hdead
    · have hdead := hlive' x (by rw [update_self]; omega)
      rw [hc.live, decide_eq_true (.inl rfl : x = x ∨ _), decide_eq_true href] at hdead
      simp at hdead
  | _ => trivial

end

/-- **The lifetime of sockets.** Along a run in which no bound socket is bound again, sockets with
descriptors are never freed and deliver their bytes exactly if every operation leaves enough
descriptors. -/
theorem lifetime_iff (ops : List Op) (hbind : Along step BindsOnce .init ops) :
    (∀ fs, fs <+: ops → Lifetime (run step .init fs)) ↔ Along step Kept .init ops := by
  exact hbind.forall_prefix_iff (I := fun s => ∃ l, Linked s l ∧ Alive s)
    (fun _ ⟨_, h, ha⟩ => ha.lifetime h) (fun _ _ ⟨_, h, ha⟩ hb hk => ha.exec h ⟨hb, hk⟩)
    (fun _ _ ⟨_, h, ha⟩ _ hlife => ha.kept h hlife) ⟨[], linked_init, alive_init⟩

/-- A server and a client; the server accepts the connection, and the client closes its end. -/
theorem not_lifetime_close :
    ¬ Lifetime (run step .init
      [.create .stream, .bind 0 ⟨afUnix, "/s"⟩, .listen 0 1, .create .stream,
        .connect 1 ⟨afUnix, "/s"⟩ true, .accept 0, .close 1]) := by
  rintro ⟨-, hlive, -⟩
  have hfreed := hlive 2 (by decide)
  revert hfreed
  decide

/-- A client sends a byte to a server that has two descriptors of its end, and closes its own. -/
def exchange : List Op :=
  [.create .stream, .bind 0 ⟨afUnix, "/s"⟩, .listen 0 1, .create .stream,
    .connect 1 ⟨afUnix, "/s"⟩ true, .accept 0, .send 1 [7], .fork 2, .close 1]

/-- The server can still receive the byte. -/
theorem lifetime_iff_exchange :
    Along step BindsOnce .init exchange ∧ Lifetime (run step .init exchange) := by
  have hbind : Along step BindsOnce .init exchange := by
    refine ⟨trivial, fun _ hb => ?_, trivial, trivial, trivial, trivial, trivial, trivial, trivial,
      trivial⟩
    cases hb.1
  refine ⟨hbind, (lifetime_iff exchange hbind).2 ?_ _ (List.prefix_refl _)⟩
  refine ⟨trivial, trivial, trivial, trivial, trivial, fun _ _ _ _ => ⟨2, ?_, ?_⟩, trivial,
    trivial, fun _ => ⟨fun p hp _ => ?_, fun hmore => ?_⟩, trivial⟩
  · decide
  · decide
  · cases hp
    decide
  · exact absurd hmore (by decide)

end Aurora.Unix
