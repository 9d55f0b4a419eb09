import Aurora.Kernel.Ipv4Frag
import Mathlib.Data.Fintype.Basic

/-!
# Receiving TCP segments

The model of `tcp_handle_packet` and `tcp_recv` in `net.c` for one socket. A packet is
a piece of memory with a length. `tcpParse` reads the header, verifies the checksum
and walks over the options. `tcpSwitch` is the `switch` over the state of the socket
that the packet is for.

An acknowledgement that the source sends carries `ack_num` and changes no field of the
socket, so sending is left out, and with it the SACK blocks, which live only until the
next acknowledgement is sent.

## Main definitions

* `TcpSocket`, `Packet`, `Segment`: the socket, a packet, and what its header says.
* `tcpParse`, `tcpSwitch`, `tcpHandlePacket`: receiving.
* `tcpRecv`: reading the receive buffer.
-/

namespace Aurora.Tcp

open Lib Function

/-- `enum tcp_state`. -/
inductive TcpState where
  | closed
  | listen
  | synSent
  | synReceived
  | established
  | finWait1
  | finWait2
  | closeWait
  | lastAck
  | timeWait
  deriving DecidableEq, Repr

/-- The bytes of an IPv4 address. -/
abbrev IpAddr := Fin 4 → UInt8

/-- `TCP_RX_BUF_SIZE`. -/
def rxBufSize : ℕ := 4096

/-- `struct tcp_socket`, less what belongs to sending and listening. -/
structure TcpSocket where
  inUse : Bool
  state : TcpState
  localIp : IpAddr
  localPort : ℕ
  remoteIp : IpAddr
  remotePort : ℕ
  ackNum : UInt32
  rcvNxt : UInt32
  sndUna : UInt32
  rxBuf : ℕ → UInt8
  rxLen : ℕ

/-! ## Packets -/

/-- The arguments of `tcp_handle_packet`. What lies behind `len` bytes is memory that
does not belong to the packet. -/
structure Packet where
  srcIp : IpAddr
  dstIp : IpAddr
  data : ℕ → UInt8
  len : ℕ
  /-- The length is an `int`. -/
  len_lt : len < 2 ^ 31

/-- What the header of a packet says, and the bytes behind it. -/
structure Segment where
  srcIp : IpAddr
  dstIp : IpAddr
  srcPort : ℕ
  dstPort : ℕ
  seq : UInt32
  ackNum : UInt32
  fin : Bool
  syn : Bool
  rst : Bool
  ack : Bool
  payload : List UInt8

/-- `sizeof(struct tcp_hdr)`. -/
def tcpHdrSize : ℕ := 20

/-- A 16-bit field after `ntohs`. -/
def be16 (data : ℕ → UInt8) (i : ℕ) : ℕ := (data i).toNat * 256 + (data (i + 1)).toNat

/-- A 32-bit field after `ntohl`. -/
def be32 (data : ℕ → UInt8) (i : ℕ) : UInt32 :=
  UInt32.ofNat (be16 data i * 65536 + be16 data (i + 2))

/-- A 16-bit word as the processor reads it. -/
def le16 (data : ℕ → UInt8) (i : ℕ) : ℕ := (data i).toNat + 256 * (data (i + 1)).toNat

/-- The two words of an address in the pseudo header. -/
def addrSum (ip : IpAddr) : ℕ :=
  (ip 0).toNat + 256 * (ip 1).toNat + ((ip 2).toNat + 256 * (ip 3).toNat)

/-- `computed_csum`: over the pseudo header and the packet, without the checksum field. -/
def computedCsum (p : Packet) : UInt16 :=
  let tcpLength := Ipv4.htons (UInt16.ofNat p.len)
  let pseudo := addrSum p.srcIp + addrSum p.dstIp + 256 * 6 + tcpLength.toNat
  let words := (List.range (p.len / 2)).map fun i => if i = 8 then 0 else le16 p.data (2 * i)
  let last := if p.len % 2 = 1 then 256 * (p.data (p.len - 1)).toNat else 0
  ~~~ UInt16.ofNat (Ipv4.foldCarry 2 ((pseudo + words.sum + last) % 2 ^ 32))

/-- The loop over the options, which `tcp_parse_sack` goes through in the same way.
`false`: it has no end, because an option says that its length is 0. -/
def optionsEnd (data : ℕ → UInt8) (optLen : ℕ) : ℕ → ℕ → Bool
  | 0, _ => false
  | fuel + 1, pos =>
    if pos < optLen then
      let kind := data (tcpHdrSize + pos)
      if kind = 0 then true
      else if kind = 1 then optionsEnd data optLen fuel (pos + 1)
      else optionsEnd data optLen fuel (pos + (data (tcpHdrSize + pos + 1)).toNat)
    else true

/-- The part of `tcp_handle_packet` in front of the lock. `none`: the packet is
dropped, or the call does not come back from the options. -/
def tcpParse (p : Packet) : Option Segment :=
  if p.len < tcpHdrSize then none
  else
    let dataOffset := be16 p.data 12 / 4096 * 4
    let flags := be16 p.data 12 % 64
    let receivedCsum := le16 p.data 16
    let optLen := dataOffset - tcpHdrSize
    if dataOffset < tcpHdrSize ∨ dataOffset > p.len then none
    else if receivedCsum ≠ 0 ∧ (computedCsum p).toNat ≠ receivedCsum then none
    else if optionsEnd p.data optLen (optLen + 1) 0 = false then none
    else
      some
        { srcIp := p.srcIp, dstIp := p.dstIp
          srcPort := be16 p.data 0, dstPort := be16 p.data 2
          seq := be32 p.data 4, ackNum := be32 p.data 8
          fin := flags.testBit 0, syn := flags.testBit 1
          rst := flags.testBit 2, ack := flags.testBit 4
          payload := slice p.data dataOffset (p.len - dataOffset) }

/-! ## The socket -/

/-- The segment is for this socket: `tcp_find_by_addr`, and the search for a socket in
`TCP_SYN_SENT` after it. -/
def TcpSocket.receives (s : TcpSocket) (seg : Segment) : Bool :=
  s.inUse && s.localPort == seg.dstPort && s.remoteIp == seg.srcIp &&
    s.remotePort == seg.srcPort && (s.localIp == seg.dstIp || s.state == .synSent)

/-- `sock->state = TCP_CLOSED; sock->in_use = 0`. -/
def TcpSocket.reset (s : TcpSocket) : TcpSocket := { s with state := .closed, inUse := false }

/-- The free part of the receive buffer takes the front of the payload. -/
def TcpSocket.acceptData (s : TcpSocket) (seg : Segment) : TcpSocket :=
  let copyLen := min seg.payload.length (rxBufSize - s.rxLen)
  { s with
    rxBuf := blit s.rxBuf s.rxLen (seg.payload.take copyLen)
    rxLen := s.rxLen + copyLen
    ackNum := seg.seq + UInt32.ofNat seg.payload.length
    rcvNxt := seg.seq + UInt32.ofNat seg.payload.length }

/-- The case `TCP_ESTABLISHED`. -/
def tcpEstablished (s : TcpSocket) (seg : Segment) : TcpSocket :=
  if seg.rst then s.reset
  else
    let s := { s with sndUna := if seg.ackNum > s.sndUna then seg.ackNum else s.sndUna }
    if seg.fin then { s with ackNum := seg.seq + 1, state := .closeWait }
    else if 0 < seg.payload.length then
      -- a segment that is not the next one is answered with the old `ack_num`
      if seg.seq ≠ s.rcvNxt then s else s.acceptData seg
    else s

/-- The `switch` of `tcp_handle_packet`. -/
def tcpSwitch (s : TcpSocket) (seg : Segment) : TcpSocket :=
  match s.state with
  | .synSent =>
    if seg.syn && seg.ack then
      { s with ackNum := seg.seq + 1, rcvNxt := seg.seq + 1, state := .established }
    else if seg.rst then s.reset
    else s
  | .synReceived =>
    if seg.rst then s.reset
    else if seg.ack then { s with ackNum := seg.seq, state := .established }
    else s
  | .established => tcpEstablished s seg
  | .finWait1 =>
    if seg.rst then s.reset
    else if seg.fin && seg.ack then { s with ackNum := seg.seq + 1, state := .timeWait }
    else if seg.ack then { s with state := .finWait2 }
    else s
  | .finWait2 =>
    if seg.rst then s.reset
    else if seg.fin then { s with ackNum := seg.seq + 1, state := .timeWait }
    else s
  | .lastAck =>
    if seg.rst then s.reset
    else if seg.ack then s.reset
    else s
  | .closed | .listen | .closeWait | .timeWait => s

/-- `tcp_handle_packet`, as far as it changes this socket. -/
def tcpHandlePacket (s : TcpSocket) (p : Packet) : TcpSocket :=
  match tcpParse p with
  | none => s
  | some seg => if s.receives seg then tcpSwitch s seg else s

/-- The loop that moves what is left to the front of the buffer. -/
def shiftDown (buf : ℕ → UInt8) (copyLen remaining : ℕ) : ℕ → UInt8 :=
  (List.range remaining).foldl (fun b j => Function.update b j (b (copyLen + j))) buf

/-- `tcp_recv`: the value it returns, the bytes it copies out, and the socket
afterwards. -/
def tcpRecv (s : TcpSocket) (maxLen : ℕ) : (ℤ × List UInt8) × TcpSocket :=
  if s.inUse = false then ((-1, []), s)
  else if s.rxLen = 0 then ((0, []), s)
  else
    let copyLen := if s.rxLen > maxLen then maxLen else s.rxLen
    let bytes := slice s.rxBuf 0 copyLen
    let s' :=
      if copyLen < s.rxLen then
        { s with
          rxBuf := shiftDown s.rxBuf copyLen (s.rxLen - copyLen)
          rxLen := s.rxLen - copyLen }
      else { s with rxLen := 0 }
    ((copyLen, bytes), s')

/-! ## What is left to read -/

/-- The bytes that are in the buffer of a socket in use. -/
def TcpSocket.unread (s : TcpSocket) : List UInt8 :=
  if s.inUse then slice s.rxBuf 0 s.rxLen else []

lemma shiftDown_succ (buf : ℕ → UInt8) (copyLen n : ℕ) : shiftDown buf copyLen (n + 1)
      = update (shiftDown buf copyLen n) n (shiftDown buf copyLen n (copyLen + n)) := by
  simp [shiftDown, List.range_succ]

/-- The loop reads a cell before it writes it. -/
lemma shiftDown_apply (buf : ℕ → UInt8) (copyLen n i : ℕ) :
    shiftDown buf copyLen n i = if i < n then buf (copyLen + i) else buf i := by
  induction n generalizing i with
  | zero => rfl
  | succ n ih =>
    rw [shiftDown_succ, ih (copyLen + n), if_neg (by omega)]
    rcases lt_trichotomy i n with h | rfl | h
    · rw [update_of_ne (by omega), ih, if_pos h, if_pos (by omega)]
    · simp
    · rw [update_of_ne (by omega), ih, if_neg (by omega), if_neg (by omega)]

/-- A call for a socket in use takes bytes from the front of the buffer. -/
lemma tcpRecv_inUse {s : TcpSocket} (huse : s.inUse = true) (maxLen : ℕ) :
    (tcpRecv s maxLen).1.2 = slice s.rxBuf 0 (min maxLen s.rxLen) ∧
      ∃ buf, (∀ i < s.rxLen - maxLen, buf i = s.rxBuf (maxLen + i)) ∧
        (tcpRecv s maxLen).2 = { s with rxBuf := buf, rxLen := s.rxLen - maxLen } := by
  unfold tcpRecv
  rw [if_neg (by simp [huse])]
  by_cases hzero : s.rxLen = 0
  · rw [if_pos hzero]
    refine ⟨by simp [hzero, slice], s.rxBuf, fun i hi => by omega, ?_⟩
    rw [hzero, Nat.zero_sub, ← hzero]
  rw [if_neg hzero]
  by_cases hall : s.rxLen > maxLen
  · simp only [if_pos hall]
    refine ⟨by rw [min_eq_left hall.le], _, fun i hi => ?_, rfl⟩
    rw [shiftDown_apply, if_pos hi]
  · simp only [if_neg hall, lt_irrefl, if_false]
    refine ⟨by rw [min_eq_right (not_lt.1 hall)], s.rxBuf, fun i hi => by omega, ?_⟩
    rw [Nat.sub_eq_zero_of_le (not_lt.1 hall)]

/-- **`tcp_recv` takes its bytes from the front of what is left to read**, -/
lemma tcpRecv_bytes (s : TcpSocket) (maxLen : ℕ) :
    (tcpRecv s maxLen).1.2 = s.unread.take maxLen := by
  cases huse : s.inUse with
  | false => simp [tcpRecv, TcpSocket.unread, huse]
  | true => simp [(tcpRecv_inUse huse maxLen).1, TcpSocket.unread, huse, slice_take]

/-- and leaves the rest, -/
lemma tcpRecv_unread (s : TcpSocket) (maxLen : ℕ) :
    (tcpRecv s maxLen).2.unread = s.unread.drop maxLen := by
  cases huse : s.inUse with
  | false => simp [tcpRecv, TcpSocket.unread, huse]
  | true =>
    obtain ⟨-, _, hbuf, hsock⟩ := tcpRecv_inUse huse maxLen
    simp only [hsock, TcpSocket.unread, huse, if_true, slice_drop]
    refine List.map_congr_left fun i hi => ?_
    simp [hbuf i (List.mem_range.1 hi)]

/-- and changes nothing but the buffer. -/
lemma tcpRecv_frame (s : TcpSocket) (maxLen : ℕ) :
    ∃ buf, ∃ len ≤ s.rxLen, (tcpRecv s maxLen).2 = { s with rxBuf := buf, rxLen := len } := by
  by_cases huse : s.inUse = true
  · obtain ⟨-, buf, -, hsock⟩ := tcpRecv_inUse huse maxLen
    exact ⟨buf, _, Nat.sub_le _ _, hsock⟩
  · refine ⟨s.rxBuf, s.rxLen, le_refl _, ?_⟩
    rw [tcpRecv, if_pos (by simpa using huse)]

end Aurora.Tcp
