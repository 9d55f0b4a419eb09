import Aurora.Kernel.Tcp
import Aurora.Lib.Run

/-!
# The byte stream of a TCP connection

A connection is a socket in the state `TCP_ESTABLISHED` with what happens to it: packets
in any order and calls of `tcp_recv`. Beside the socket the model keeps the history
that the integrity of the stream is about.

The stream is kept as long as nothing makes the socket acknowledge more than it stores.
It does so in three ways: data that does not fit into the receive buffer is acknowledged
as a whole, a FIN is acknowledged without a look at its sequence number and with its own
data thrown away, and a RST gives the socket free while there is data to read.

## Main definitions

* `Conn`, `Event`, `step`: a connection and its history.
* `stream`, `Integrity`: the bytes that `tcp_recv` returned or will return, and what
  they have to do with `ack_num`.
* `Orderly`: the events that keep the stream.
* `integrity_iff`: the stream is kept exactly if all events are orderly.
-/

namespace Aurora.Tcp

variable {c' : Conn} {s : TcpSocket}

open Lib List Option TcpSocket

/-- A socket and the history of its connection. -/
structure Conn where
  sock : TcpSocket
  /-- What the calls of `tcp_recv` have returned so far. -/
  returned : List UInt8
  /-- The segments whose data the socket took. -/
  accepted : List Segment
  /-- The sequence number of the FIN that the socket took. -/
  finSeq : Option UInt32

inductive Event where
  | packet (p : Packet)
  | recv (maxLen : ℕ)

/-- The socket takes the data of this segment. -/
def TcpSocket.takesData (s : TcpSocket) (seg : Segment) : Prop :=
  s.state = .established ∧ seg.rst = false ∧ seg.fin = false ∧ seg.payload ≠ [] ∧
    seg.seq = s.rcvNxt

/-- The socket takes the FIN of this segment. -/
def TcpSocket.takesFin (s : TcpSocket) (seg : Segment) : Prop :=
  s.state = .established ∧ seg.rst = false ∧ seg.fin = true

instance (s : TcpSocket) (seg : Segment) : Decidable (s.takesData seg) :=
  inferInstanceAs (Decidable (_ ∧ _))

instance (s : TcpSocket) (seg : Segment) : Decidable (s.takesFin seg) :=
  inferInstanceAs (Decidable (_ ∧ _))

/-- A segment for the socket. The FIN stands behind the data of its segment. -/
def Conn.receive (c : Conn) (seg : Segment) : Conn where
  sock := tcpSwitch c.sock seg
  returned := c.returned
  accepted := if c.sock.takesData seg then c.accepted ++ [seg] else c.accepted
  finSeq :=
    if c.sock.takesFin seg then some (seg.seq + UInt32.ofNat seg.payload.length) else c.finSeq

def step (c : Conn) : Event → Option Conn
  | .packet p =>
    match tcpParse p with
    | none => some c
    | some seg => some (if c.sock.receives seg then c.receive seg else c)
  | .recv maxLen =>
    let r := tcpRecv c.sock maxLen
    some { c with sock := r.2, returned := c.returned ++ r.1.2 }

/-- What `tcp_recv` has returned, and what a call for a whole buffer would return now. -/
def stream (c : Conn) : List UInt8 := c.returned ++ (tcpRecv c.sock rxBufSize).1.2

/-- **The integrity of the stream** that starts at the sequence number `rcv₀`. What is
acknowledged are the bytes of the stream, and behind them the FIN; each byte is the one
that an accepted segment has for its sequence number. -/
structure Integrity (rcv₀ : UInt32) (c : Conn) : Prop where
  acked : c.sock.ackNum
    = rcv₀ + UInt32.ofNat ((stream c).length + if c.sock.state = .closeWait then 1 else 0)
  fin : c.sock.state = .closeWait → c.finSeq = some (rcv₀ + UInt32.ofNat (stream c).length)
  carried : ∀ i v, (stream c)[i]? = some v → ∃ seg ∈ c.accepted, ∃ j,
    seg.payload[j]? = some v ∧ seg.seq + UInt32.ofNat j = rcv₀ + UInt32.ofNat i

/-- The segment makes an established socket acknowledge no more than it stores. -/
structure OrderlySegment (s : TcpSocket) (seg : Segment) : Prop where
  rst : seg.rst = true → s.rxLen = 0
  fin : seg.rst = false → seg.fin = true → seg.seq = s.rcvNxt ∧ seg.payload = []
  data : seg.rst = false → seg.fin = false → seg.seq = s.rcvNxt →
    s.rxLen + seg.payload.length ≤ rxBufSize

/-- The condition on an event: a segment for the established socket is orderly. -/
def Orderly (c : Conn) : Event → Prop
  | .packet p => ∀ seg, tcpParse p = some seg → c.sock.receives seg = true →
      c.sock.state = .established → OrderlySegment c.sock seg
  | .recv _ => True

/-- The connection at its start. -/
def start (s : TcpSocket) : Conn := ⟨s, [], [], none⟩

/-- A socket whose connection has been established and that has not received yet. -/
structure Fresh (s : TcpSocket) : Prop where
  inUse : s.inUse = true
  state : s.state = .established
  rxLen : s.rxLen = 0

/-! ## The stream -/

variable {rcv₀ : UInt32} {c : Conn} {seg : Segment}

lemma ofNat_eq_iff {a b : ℕ} : UInt32.ofNat a = UInt32.ofNat b ↔ a % 2 ^ 32 = b % 2 ^ 32 := by
  rw [← UInt32.toNat_inj, UInt32.toNat_ofNat', UInt32.toNat_ofNat']

/-- Behind `rcv₀`, two positions less than a window apart have different numbers. -/
lemma seq_inj {a b : ℕ} (h : rcv₀ + UInt32.ofNat a = rcv₀ + UInt32.ofNat b)
    (hab : a ≤ b) (hlt : b < a + 2 ^ 32) : a = b := by
  have hmod := ofNat_eq_iff.1 (UInt32.add_right_inj rcv₀ |>.1 h)
  omega

lemma length_unread_le (s : TcpSocket) : s.unread.length ≤ s.rxLen := by
  unfold unread
  split <;> simp

lemma stream_eq (h : c.sock.rxLen ≤ rxBufSize) : stream c = c.returned ++ c.sock.unread := by
  rw [stream, tcpRecv_bytes, take_of_length_le ((length_unread_le c.sock).trans h)]

/-- What holds of a connection while all its events are orderly. -/
structure Inv (rcv₀ : UInt32) (c : Conn) : Prop where
  room : c.sock.rxLen ≤ rxBufSize
  carried : ∀ i v, (stream c)[i]? = some v → ∃ seg ∈ c.accepted, ∃ j,
    seg.payload[j]? = some v ∧ seg.seq + UInt32.ofNat j = rcv₀ + UInt32.ofNat i
  phase :
    (c.sock.inUse = true ∧ c.sock.state = .established ∧
        c.sock.rcvNxt = rcv₀ + UInt32.ofNat (stream c).length ∧ c.sock.ackNum = c.sock.rcvNxt) ∨
      (c.sock.state = .closeWait ∧
        c.sock.ackNum = rcv₀ + UInt32.ofNat ((stream c).length + 1) ∧
        c.finSeq = some (rcv₀ + UInt32.ofNat (stream c).length)) ∨
      (c.sock.state = .closed ∧ c.sock.ackNum = rcv₀ + UInt32.ofNat (stream c).length)

lemma Inv.integrity (h : Inv rcv₀ c) : Integrity rcv₀ c := by
  refine ⟨?_, ?_, h.carried⟩
  · rcases h.phase with ⟨-, hstate, hnxt, hack⟩ | ⟨hstate, hack, -⟩ | ⟨hstate, hack⟩
    · simp [hstate, hack, hnxt]
    · simp [hstate, hack]
    · simp [hstate, hack]
  · intro hcw
    rcases h.phase with ⟨-, hstate, -⟩ | ⟨-, -, hfin⟩ | ⟨hstate, -⟩
    · cases hstate.symm.trans hcw
    · exact hfin
    · cases hstate.symm.trans hcw

/-- What changes neither the stream nor the history nor the numbers keeps the
invariant. -/
lemma Inv.congr (h : Inv rcv₀ c) (hroom : c'.sock.rxLen ≤ rxBufSize)
    (hstream : stream c' = stream c) (hacc : c'.accepted = c.accepted)
    (hfin : c'.finSeq = c.finSeq) (huse : c'.sock.inUse = c.sock.inUse)
    (hstate : c'.sock.state = c.sock.state) (hnxt : c'.sock.rcvNxt = c.sock.rcvNxt)
    (hack : c'.sock.ackNum = c.sock.ackNum) : Inv rcv₀ c' := by
  refine ⟨hroom, ?_, ?_⟩
  · rw [hstream, hacc]
    exact h.carried
  · rw [hstream, hfin, huse, hstate, hnxt, hack]
    exact h.phase

/-- A call of `tcp_recv` moves bytes within the stream. -/
lemma Inv.recv (h : Inv rcv₀ c) (maxLen : ℕ) : Inv rcv₀ (exec step c (.recv maxLen)) := by
  obtain ⟨buf, len, hlen, hsock⟩ := tcpRecv_frame c.sock maxLen
  set c' : Conn := exec step c (.recv maxLen)
  have hsock' : c'.sock = { c.sock with rxBuf := buf, rxLen := len } := hsock
  have hroom : c'.sock.rxLen ≤ rxBufSize := by
    rw [hsock']
    exact hlen.trans h.room
  refine h.congr hroom ?_ rfl rfl (by rw [hsock']) (by rw [hsock']) (by rw [hsock'])
    (by rw [hsock'])
  have hret : c'.returned = c.returned ++ c.sock.unread.take maxLen := by
    rw [← tcpRecv_bytes]
    rfl
  have hunread : c'.sock.unread = c.sock.unread.drop maxLen := tcpRecv_unread c.sock maxLen
  rw [stream_eq hroom, stream_eq h.room, hret, hunread, append_assoc, take_append_drop]

/-! ## A segment for the established socket -/

/-- What a segment does to the connection of an established socket. -/
lemma receive_cases (hstate : c.sock.state = .established) (seg : Segment) : ∃ una,
    (seg.rst = true ∧ c.receive seg = { c with sock := c.sock.reset }) ∨
    (seg.rst = false ∧ seg.fin = true ∧ c.receive seg = { c with
        sock := { c.sock with sndUna := una, ackNum := seg.seq + 1, state := .closeWait }
        finSeq := some (seg.seq + UInt32.ofNat seg.payload.length) }) ∨
    (seg.rst = false ∧ seg.fin = false ∧ seg.seq = c.sock.rcvNxt ∧ c.receive seg = { c with
        sock := { c.sock with sndUna := una }.acceptData seg
        accepted := c.accepted ++ [seg] }) ∨
    (seg.rst = false ∧ seg.fin = false ∧ (seg.seq = c.sock.rcvNxt → seg.payload = []) ∧
      c.receive seg = { c with sock := { c.sock with sndUna := una } }) := by
  refine ⟨if seg.ackNum > c.sock.sndUna then seg.ackNum else c.sock.sndUna, ?_⟩
  unfold Conn.receive tcpSwitch
  simp only [hstate, tcpEstablished, takesData, takesFin, true_and]
  cases hrst : seg.rst with
  | true => simp
  | false =>
    cases hfin : seg.fin with
    | true => simp
    | false =>
      by_cases hpay : seg.payload = []
      · simp [hpay]
      · have hpos : 0 < seg.payload.length := length_pos_of_ne_nil hpay
        by_cases hseq : seg.seq = c.sock.rcvNxt <;> simp [hpay, hpos, hseq]

/-- An established connection, as it is while all events are orderly. -/
structure Established (rcv₀ : UInt32) (c : Conn) : Prop where
  inv : Inv rcv₀ c
  inUse : c.sock.inUse = true
  state : c.sock.state = .established
  rcvNxt : c.sock.rcvNxt = rcv₀ + UInt32.ofNat (stream c).length
  ackNum : c.sock.ackNum = c.sock.rcvNxt

lemma Established.length_stream (h : Established rcv₀ c) :
    (stream c).length = c.returned.length + c.sock.rxLen := by
  rw [stream_eq h.inv.room, unread, h.inUse]
  simp

/-- A RST keeps the stream exactly if all has been read. -/
lemma Established.rst (h : Established rcv₀ c) (hc' : c' = { c with sock := c.sock.reset }) :
    (c.sock.rxLen = 0 → Inv rcv₀ c') ∧ (Integrity rcv₀ c' → c.sock.rxLen = 0) := by
  subst hc'
  have hstream : stream { c with sock := c.sock.reset } = c.returned := by
    simp [stream, tcpRecv_bytes, unread, reset]
  constructor
  · intro hzero
    have hsame : stream { c with sock := c.sock.reset } = stream c := by
      rw [hstream, stream_eq h.inv.room, unread, hzero]
      simp [slice]
    refine ⟨h.inv.room, ?_, .inr (.inr ⟨rfl, ?_⟩)⟩
    · rw [hsame]
      exact h.inv.carried
    · rw [hsame, ← h.rcvNxt]
      exact h.ackNum
  · intro hint
    have hack : c.sock.ackNum = rcv₀ + UInt32.ofNat c.returned.length := by
      rw [← hstream]
      exact hint.acked
    rw [h.ackNum, h.rcvNxt, h.length_stream] at hack
    have hroom : c.sock.rxLen ≤ 4096 := h.inv.room
    have hlen := seq_inj hack.symm (Nat.le_add_right _ _) (by omega)
    omega

/-- A FIN keeps the stream exactly if it comes next and brings no data. -/
lemma Established.fin (h : Established rcv₀ c) {una : UInt32} (hpay : seg.payload.length < 2 ^ 31)
    (hc' : c' = { c with
      sock := { c.sock with sndUna := una, ackNum := seg.seq + 1, state := .closeWait }
      finSeq := some (seg.seq + UInt32.ofNat seg.payload.length) }) :
    (seg.seq = c.sock.rcvNxt ∧ seg.payload = [] → Inv rcv₀ c') ∧
      (Integrity rcv₀ c' → seg.seq = c.sock.rcvNxt ∧ seg.payload = []) := by
  have hroom : c'.sock.rxLen ≤ rxBufSize := by
    rw [hc']
    exact h.inv.room
  have hstream : stream c' = stream c := by
    rw [stream_eq hroom, stream_eq h.inv.room, hc']
    rfl
  have hstate : c'.sock.state = .closeWait := by rw [hc']
  have hack : c'.sock.ackNum = seg.seq + 1 := by rw [hc']
  have hfin : c'.finSeq = some (seg.seq + UInt32.ofNat seg.payload.length) := by rw [hc']
  constructor
  · rintro ⟨hseq, hnil⟩
    refine ⟨hroom, ?_, .inr (.inl ⟨hstate, ?_, ?_⟩)⟩
    · rw [hstream, hc']
      exact h.inv.carried
    · rw [hack, hseq, h.rcvNxt, hstream, UInt32.ofNat_add, UInt32.add_assoc]
      rfl
    · rw [hfin, hseq, h.rcvNxt, hstream, hnil]
      simp
  · intro hint
    have hacked := hint.acked
    rw [hack, hstate, hstream, if_pos rfl, UInt32.ofNat_add, ← UInt32.add_assoc,
      ← h.rcvNxt] at hacked
    have hseq : seg.seq = c.sock.rcvNxt := UInt32.add_left_inj 1 |>.1 hacked
    have hfinSeq := hint.fin hstate
    rw [hfin, hstream, ← h.rcvNxt, hseq] at hfinSeq
    have hzero : c.sock.rcvNxt + UInt32.ofNat 0
        = c.sock.rcvNxt + UInt32.ofNat seg.payload.length := by
      rw [some.inj hfinSeq]
      simp
    have hlen := seq_inj hzero (Nat.zero_le _) (by omega)
    exact ⟨hseq, eq_nil_of_length_eq_zero hlen.symm⟩

/-- The data of a segment in order is stored up to the end of the buffer. -/
lemma unread_acceptData (huse : s.inUse = true) (seg : Segment) :
    (s.acceptData seg).unread = s.unread ++ seg.payload.take (rxBufSize - s.rxLen) := by
  have htake : seg.payload.take (min seg.payload.length (rxBufSize - s.rxLen))
      = seg.payload.take (rxBufSize - s.rxLen) := by
    rw [← take_take, take_of_length_le]
    simp
  have hlen : (seg.payload.take (rxBufSize - s.rxLen)).length
      = min seg.payload.length (rxBufSize - s.rxLen) := by
    rw [length_take, min_comm]
  simp only [unread, acceptData, huse, if_true, htake]
  simp [← hlen, ← slice_blit_append]

/-- Data keeps the stream exactly if it fits into the buffer. -/
lemma Established.data (h : Established rcv₀ c) {una : UInt32}
    (hpay : seg.payload.length < 2 ^ 31) (hseq : seg.seq = c.sock.rcvNxt)
    (hc' : c' = { c with
      sock := { c.sock with sndUna := una }.acceptData seg
      accepted := c.accepted ++ [seg] }) :
    (c.sock.rxLen + seg.payload.length ≤ rxBufSize → Inv rcv₀ c') ∧
      (Integrity rcv₀ c' → c.sock.rxLen + seg.payload.length ≤ rxBufSize) := by
  have hold : c.sock.rxLen ≤ rxBufSize := h.inv.room
  have hroom : c'.sock.rxLen ≤ rxBufSize := by
    simp only [hc', acceptData]
    omega
  have hstream : stream c' = stream c ++ seg.payload.take (rxBufSize - c.sock.rxLen) := by
    have hunread := unread_acceptData (s := { c.sock with sndUna := una }) h.inUse seg
    rw [stream_eq hroom, stream_eq h.inv.room, append_assoc, hc']
    exact congrArg (c.returned ++ ·) hunread
  have hstate : c'.sock.state = .established := by
    rw [hc']
    exact h.state
  have hack : c'.sock.ackNum = rcv₀ + UInt32.ofNat ((stream c).length + seg.payload.length) := by
    rw [UInt32.ofNat_add, ← UInt32.add_assoc, ← h.rcvNxt, ← hseq, hc']
    rfl
  constructor
  · intro _
    have hall : stream c' = stream c ++ seg.payload := by
      rw [hstream, take_of_length_le (by omega)]
    have hnxt : c'.sock.rcvNxt = c'.sock.ackNum := by
      rw [hc']
      rfl
    refine ⟨hroom, fun i v hv => ?_, .inl ⟨?_, hstate, ?_, hnxt.symm⟩⟩
    · rw [hall] at hv
      by_cases hi : i < (stream c).length
      · -- an old byte
        rw [getElem?_append_left hi] at hv
        obtain ⟨seg', hmem, hseg'⟩ := h.inv.carried i v hv
        refine ⟨seg', ?_, hseg'⟩
        rw [hc']
        exact mem_append_left _ hmem
      · rw [getElem?_append_right (not_lt.1 hi)] at hv
        refine ⟨seg, ?_, i - (stream c).length, hv, ?_⟩
        · rw [hc']
          exact mem_append_right _ (mem_singleton_self seg)
        · rw [hseq, h.rcvNxt, UInt32.add_assoc, ← UInt32.ofNat_add,
            Nat.add_sub_cancel' (not_lt.1 hi)]
    · rw [hc']
      exact h.inUse
    · rw [hnxt, hack, hall, length_append]
  · intro hint
    have hacked := hint.acked
    rw [hack, hstate, hstream, if_neg (by decide), Nat.add_zero, length_append] at hacked
    have hle := length_take_le (rxBufSize - c.sock.rxLen) seg.payload
    have hle' := length_take_le' (rxBufSize - c.sock.rxLen) seg.payload
    have hlen := seq_inj hacked.symm (by omega) (by omega)
    omega

/-- A segment for the established socket keeps the stream exactly if it is orderly. -/
lemma Established.receive (h : Established rcv₀ c) (hpay : seg.payload.length < 2 ^ 31) :
    (OrderlySegment c.sock seg → Inv rcv₀ (c.receive seg)) ∧
      (Integrity rcv₀ (c.receive seg) → OrderlySegment c.sock seg) := by
  have hroom := h.inv.room
  obtain ⟨una, ⟨hrst, hc'⟩ | ⟨hrst, hfin, hc'⟩ | ⟨hrst, hfin, hseq, hc'⟩ |
    ⟨hrst, hfin, hidle, hc'⟩⟩ := receive_cases h.state seg
  · obtain ⟨hkeep, hneed⟩ := h.rst hc'
    exact ⟨fun ho => hkeep (ho.rst hrst),
      fun hint => ⟨fun _ => hneed hint, by simp [hrst], by simp [hrst]⟩⟩
  · obtain ⟨hkeep, hneed⟩ := h.fin hpay hc'
    exact ⟨fun ho => hkeep (ho.fin hrst hfin),
      fun hint => ⟨by simp [hrst], fun _ _ => hneed hint, by simp [hfin]⟩⟩
  · obtain ⟨hkeep, hneed⟩ := h.data hpay hseq hc'
    exact ⟨fun ho => hkeep (ho.data hrst hfin hseq),
      fun hint => ⟨by simp [hrst], by simp [hfin], fun _ _ _ => hneed hint⟩⟩
  · -- nothing is acknowledged
    have hstream : stream { c with sock := { c.sock with sndUna := una } } = stream c := by
      simp only [stream, tcpRecv_bytes]
      rfl
    rw [hc']
    refine ⟨fun _ => h.inv.congr hroom hstream rfl rfl rfl rfl rfl rfl,
      fun _ => ⟨by simp [hrst], by simp [hfin], fun _ _ hseq => ?_⟩⟩
    rwa [hidle hseq]

/-! ## Runs -/

lemma length_payload_lt {p : Packet} (h : tcpParse p = some seg) : seg.payload.length < 2 ^ 31 := by
  have hlen := p.len_lt
  unfold tcpParse at h
  simp only at h
  split at h
  · cases h
  split at h
  · cases h
  split at h
  · cases h
  split_ifs at h
  cases h
  rw [length_slice]
  omega

/-- A socket that is closed or waits to be closed ignores all segments. -/
lemma receive_idle (hstate : c.sock.state = .closeWait ∨ c.sock.state = .closed)
    (seg : Segment) : c.receive seg = c := by
  unfold Conn.receive tcpSwitch takesData takesFin
  rcases hstate with hstate | hstate <;> simp [hstate]

lemma Inv.packet (h : Inv rcv₀ c) (p : Packet) :
    (Orderly c (.packet p) → Inv rcv₀ (exec step c (.packet p))) ∧
      (Integrity rcv₀ (exec step c (.packet p)) → Orderly c (.packet p)) := by
  simp only [exec, step, Orderly]
  cases hparse : tcpParse p with
  | none => exact ⟨fun _ => h, fun _ seg hseg => by cases hseg⟩
  | some seg =>
    simp only [getD_some]
    by_cases hrec : c.sock.receives seg = true
    · rw [if_pos hrec]
      rcases h.phase with ⟨huse, hstate, hnxt, hack⟩ | hidle
      · obtain ⟨hkeep, hneed⟩ := Established.receive ⟨h, huse, hstate, hnxt, hack⟩
          (length_payload_lt hparse)
        refine ⟨fun ho => hkeep (ho seg rfl hrec hstate), ?_⟩
        rintro hint _ ⟨⟩ - -
        exact hneed hint
      · have hstate : c.sock.state = .closeWait ∨ c.sock.state = .closed :=
          hidle.imp And.left And.left
        rw [receive_idle hstate]
        refine ⟨fun _ => h, fun _ _ _ _ hest => ?_⟩
        rcases hstate with hstate | hstate <;> cases hstate.symm.trans hest
    · rw [if_neg hrec]
      refine ⟨fun _ => h, ?_⟩
      rintro - _ ⟨⟩ hrec'
      exact absurd hrec' hrec

lemma stream_start (hs : Fresh s) : stream (start s) = [] := by
  simp [stream, start, tcpRecv_bytes, unread, hs.rxLen, slice]

lemma inv_start (hs : Fresh s) (hack : s.ackNum = s.rcvNxt) : Inv s.rcvNxt (start s) := by
  refine ⟨hs.rxLen.trans_le (Nat.zero_le _), ?_, .inl ⟨hs.inUse, hs.state, ?_, hack⟩⟩
  · rw [stream_start hs]
    rintro i v ⟨⟩
  · rw [stream_start hs]
    exact (UInt32.add_zero _).symm

/-- **The stream of a connection.** Whatever packets come and whatever is read, the
stream is kept all the time exactly if `ack_num` and `rcv_nxt` agree at the start and
every event is orderly. -/
theorem integrity_iff (s : TcpSocket) (hs : Fresh s) (es : List Event) :
    (∀ fs, fs <+: es → Integrity s.rcvNxt (run step (start s) fs)) ↔
      s.ackNum = s.rcvNxt ∧ Along step Orderly (start s) es := by
  have hstream := stream_start hs
  have hruns := fun hack : s.ackNum = s.rcvNxt =>
    forall_prefix_iff_along (P := Orderly) (fun c (h : Inv s.rcvNxt c) => h.integrity)
      (fun c e h => match e with
        | .packet p => (h.packet p).1
        | .recv n => fun _ => h.recv n)
      (fun c e h => match e with
        | .packet p => (h.packet p).2
        | .recv _ => fun _ => trivial) (inv_start hs hack) es
  constructor
  · intro h
    have hack : s.ackNum = s.rcvNxt := by
      have hacked := (h [] nil_prefix).acked
      rw [run_nil, hstream] at hacked
      simpa [start, hs.state] using hacked
    exact ⟨hack, (hruns hack).1 h⟩
  · rintro ⟨hack, halong⟩
    exact (hruns hack).2 halong

/-- **The receive buffer never overflows**, whatever packets and calls come. -/
theorem run_rxLen_le (s : TcpSocket) (es : List Event) :
    (run step (start { s with rxLen := 0 }) es).sock.rxLen ≤ rxBufSize := by
  apply run_invariant (I := fun c : Conn => c.sock.rxLen ≤ rxBufSize) _ (Nat.zero_le _) es
  intro c e c' h hstep
  cases e with
  | packet p =>
    simp only [step] at hstep
    grind [Conn.receive, tcpSwitch, tcpEstablished, reset, acceptData]
  | recv n =>
    obtain ⟨_, _, hle, hsock⟩ := tcpRecv_frame c.sock n
    cases hstep
    simpa [hsock] using hle.trans h

/-- The connection of port 80 at 10.0.2.15 with port 1000 at 10.0.2.2; the next sequence
number is 100. -/
def webSocket : TcpSocket where
  inUse := true
  state := .established
  localIp i := [10, 0, 2, 15].get i
  localPort := 80
  remoteIp i := [10, 0, 2, 2].get i
  remotePort := 1000
  ackNum := 100
  rcvNxt := 100
  sndUna := 0
  rxBuf _ := 0
  rxLen := 0

/-- A header with sequence number 100 for that connection, and the value 7 behind it. -/
def sevensData (i : ℕ) : UInt8 :=
  [3, 232, 0, 80, 0, 0, 0, 100, 0, 0, 0, 0, 0x50, 0x10, 0, 0, 0, 0, 0, 0].getD i 7

/-- A packet of that connection with `n` bytes of data. -/
def sevens (n : ℕ) (h : 20 + n < 2 ^ 31) : Packet where
  srcIp := webSocket.remoteIp
  dstIp := webSocket.localIp
  data := sevensData
  len := 20 + n
  len_lt := h

lemma webSocket_fresh : Fresh webSocket := ⟨rfl, rfl, rfl⟩

lemma tcpParse_sevens (n : ℕ) (h : 20 + n < 2 ^ 31) : ∃ seg, tcpParse (sevens n h) = some seg ∧
    webSocket.receives seg = true ∧ seg.rst = false ∧ seg.fin = false ∧ seg.seq = 100 ∧
      seg.payload.length = n := by
  have hlen : (sevens n h).len = 20 + n := rfl
  have hdata : (sevens n h).data = sevensData := rfl
  have hfield : be16 sevensData 12 = 0x5010 := by decide
  have hcsum : le16 sevensData 16 = 0 := by decide
  have hopts : optionsEnd sevensData (0x5010 / 4096 * 4 - tcpHdrSize)
      (0x5010 / 4096 * 4 - tcpHdrSize + 1) 0 = true := by decide
  simp only [tcpParse, hlen, hdata, hfield, hcsum, hopts]
  rw [if_neg (by simp [tcpHdrSize]), if_neg (by simp [tcpHdrSize]), if_neg (by simp),
    if_neg (by simp)]
  refine ⟨_, rfl, ?_, rfl, rfl, (by decide : be32 sevensData 4 = 100), ?_⟩
  · have hports : be16 sevensData 0 = 1000 ∧ be16 sevensData 2 = 80 := by decide
    simp [receives, sevens, webSocket, hports]
  · rw [length_slice]
    omega

theorem integrity_iff_sevens : Fresh webSocket ∧
    ∀ fs, fs <+: [.packet (sevens 3 (by decide)), .recv 2] →
      Integrity webSocket.rcvNxt (run step (start webSocket) fs) := by
  refine ⟨webSocket_fresh, (integrity_iff webSocket webSocket_fresh _).2
    ⟨rfl, fun seg hparse hrec _ => ?_, trivial, trivial⟩⟩
  obtain ⟨_, hparse', -, hrst, hfin, -, hlen⟩ := tcpParse_sevens 3 (by decide)
  cases hparse.symm.trans hparse'
  refine ⟨by simp [hrst], by simp [hfin], fun _ _ _ => ?_⟩
  rw [hlen]
  decide

/-- A segment with one byte more than the buffer holds is acknowledged as a whole. -/
theorem not_integrity_sevens : ¬ ∀ fs, fs <+: [.packet (sevens 4097 (by decide))] →
    Integrity webSocket.rcvNxt (run step (start webSocket) fs) := by
  intro h
  have hstart := inv_start webSocket_fresh rfl
  have hint : Integrity webSocket.rcvNxt (exec step (start webSocket) (.packet (sevens 4097 _))) :=
    h [_] (prefix_refl _)
  have horderly := (hstart.packet _).2 hint
  obtain ⟨seg, hparse, hrec, hrst, hfin, hseq, hlen⟩ := tcpParse_sevens 4097 (by decide)
  have hfits := (horderly seg hparse hrec rfl).data hrst hfin hseq
  rw [hlen] at hfits
  exact absurd hfits (by decide)

end Aurora.Tcp
