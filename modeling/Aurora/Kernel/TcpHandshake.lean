import Aurora.Kernel.Tcp
import Aurora.Lib.Run

/-!
# Opening and resetting TCP connections

All sockets of the host under any sequence of packets: `tcp_handle_packet` with the search for
the socket of a segment and the connections that a listening socket opens.

## Main definitions

* `Host`, `deliver`: the table of sockets and a packet that arrives.
* `Authentic`: a connection is only established by an acknowledgement of the own initial
  sequence number, and only reset from within the receive window.
* `authentic_iff`: the packets that keep to this.
-/

namespace Aurora.Tcp

open Lib Function List Option

/-- `TCP_BACKLOG_MAX`. -/
def backlogMax : ℕ := 8

/-- The table of sockets, with the fields for opening a connection; the identifiers in the
pending queue are left out. -/
structure Host where
  sockets : Fin 16 → TcpSocket
  isn : Fin 16 → UInt32
  backlog : Fin 16 → ℤ
  pendingCount : Fin 16 → ℤ
  synRateCount : ℕ

/-- `tcp_find_by_addr`, and the search for a socket in `TCP_SYN_SENT` after it. -/
def Host.find (h : Host) (seg : Segment) : Option (Fin 16) :=
  let remote (i : Fin 16) := (h.sockets i).inUse && (h.sockets i).localPort == seg.dstPort &&
    (h.sockets i).remoteIp == seg.srcIp && (h.sockets i).remotePort == seg.srcPort
  ((finRange 16).find? fun i => remote i && (h.sockets i).localIp == seg.dstIp).or
    ((finRange 16).find? fun i => remote i && (h.sockets i).state == .synSent)

/-- The socket of a new connection; all other bytes are 0. -/
def synReceivedSocket (listener : TcpSocket) (seg : Segment) (iss : UInt32) : TcpSocket where
  inUse := true
  state := .synReceived
  localIp := listener.localIp
  localPort := seg.dstPort
  remoteIp := seg.srcIp
  remotePort := seg.srcPort
  ackNum := seg.seq + 1
  rcvNxt := seg.seq + 1
  sndUna := iss
  rxBuf := fun _ => 0
  rxLen := 0

/-- A segment that is for no socket: a SYN opens a connection if there is a listening socket. -/
def Host.openConnection (h : Host) (seg : Segment) (iss : UInt32) : Host :=
  match (finRange 16).find? fun i => (h.sockets i).inUse &&
      (h.sockets i).state == .listen && (h.sockets i).localPort == seg.dstPort with
  | none => h
  | some l =>
    if seg.syn = false ∨ seg.ack ∨ h.pendingCount l ≥ h.backlog l ∨ h.synRateCount ≥ 5 then h
    else
      let h := { h with synRateCount := h.synRateCount + 1 }
      match (finRange 16).find? fun i => !(h.sockets i).inUse with
      | none => h
      | some i =>
        { h with
          sockets := Function.update h.sockets i (synReceivedSocket (h.sockets l) seg iss)
          isn := Function.update h.isn i iss
          pendingCount := Function.update h.pendingCount l
            (if h.pendingCount l < backlogMax then h.pendingCount l + 1 else h.pendingCount l) }

/-- A packet, and the initial sequence number that a new connection would get. -/
structure Delivery where
  packet : Packet
  iss : UInt32

/-- `tcp_handle_packet`. -/
def deliver (h : Host) (e : Delivery) : Option Host :=
  (tcpParse e.packet).map fun seg =>
    match h.find seg with
    | some i => { h with sockets := Function.update h.sockets i (tcpSwitch (h.sockets i) seg) }
    | none => h.openConnection seg e.iss

/-! ## The property -/

/-- The segment acknowledges the SYN that the socket sent. -/
def Host.Acknowledges (h : Host) (i : Fin 16) (seg : Segment) : Prop :=
  seg.ack = true ∧ seg.ackNum = h.isn i + 1

/-- The sequence number lies in the receive window. -/
def Host.InWindow (h : Host) (i : Fin 16) (seg : Segment) : Prop :=
  (seg.seq - (h.sockets i).rcvNxt).toNat < rxBufSize - (h.sockets i).rxLen

/-- A socket that is established by a packet, or whose established connection is closed by one. -/
def Authentic (h : Host) (e : Delivery) : Prop :=
  ∀ i, ((h.sockets i).state ≠ .established → ((exec deliver h e).sockets i).state = .established →
      ∃ seg, tcpParse e.packet = some seg ∧ h.Acknowledges i seg) ∧
    ((h.sockets i).state = .established → ((exec deliver h e).sockets i).state = .closed →
      ∃ seg, tcpParse e.packet = some seg ∧ h.InWindow i seg)

/-- The socket waits for such a segment to be established. -/
def TcpSocket.Opens (s : TcpSocket) (seg : Segment) : Prop :=
  (s.state = .synSent ∧ seg.syn = true ∨ s.state = .synReceived ∧ seg.rst = false) ∧
    seg.ack = true

/-- What the source does not look at. -/
def Checked (h : Host) (e : Delivery) : Prop :=
  ∀ seg i, tcpParse e.packet = some seg → h.find seg = some i →
    ((h.sockets i).Opens seg → seg.ackNum = h.isn i + 1) ∧
      ((h.sockets i).state = .established → seg.rst = true → h.InWindow i seg)

/-! ## What a packet does -/

/-- Opening a connection establishes none. -/
lemma openConnection_state (h : Host) (seg : Segment) (iss : UInt32) (i : Fin 16) :
    ((h.openConnection seg iss).sockets i).state = (h.sockets i).state ∨
      ((h.openConnection seg iss).sockets i).state = .synReceived := by
  unfold Host.openConnection
  split
  · exact .inl rfl
  · split_ifs
    · exact .inl rfl
    · dsimp only
      split
      · exact .inl rfl
      · next j _ =>
        dsimp only
        by_cases hij : i = j
        · exact .inr (by rw [hij, update_self]; rfl)
        · exact .inl (by simp [hij])

/-- The segments that establish a connection. -/
lemma tcpSwitch_established {s : TcpSocket} {seg : Segment} (hs : s.state ≠ .established) :
    (tcpSwitch s seg).state = .established ↔ s.Opens seg := by
  unfold TcpSocket.Opens
  cases hstate : s.state with
  | established => exact absurd hstate hs
  | _ =>
    cases hsyn : seg.syn <;> cases hack : seg.ack <;> cases hrst : seg.rst <;>
      cases hfin : seg.fin <;>
      simp [tcpSwitch, hstate, hsyn, hack, hrst, hfin, TcpSocket.reset]

/-- The segments that close an established connection. -/
lemma tcpSwitch_closed {s : TcpSocket} {seg : Segment} (hs : s.state = .established) :
    (tcpSwitch s seg).state = .closed ↔ seg.rst = true := by
  simp only [tcpSwitch, hs, tcpEstablished]
  split_ifs <;> simp_all [TcpSocket.reset, TcpSocket.acceptData]

lemma authentic_iff_checked (h : Host) (e : Delivery) : Authentic h e ↔ Checked h e := by
  unfold Authentic Checked
  cases hparse : tcpParse e.packet with
  | none => simp +contextual [exec, deliver, hparse]
  | some seg =>
    simp only [exec, deliver, hparse, map_some, getD_some]
    cases hfind : h.find seg with
    | none =>
      refine ⟨fun _ seg' i hseg hi => ?_, fun _ i => ?_⟩
      · cases hseg
        simp [hfind] at hi
      · obtain hsame | hsyn := openConnection_state h seg e.iss i
        · exact ⟨fun hne heq => absurd (hsame ▸ heq) hne, fun heq hcl => by simp_all⟩
        · simp [hsyn]
    | some i =>
      simp only [some.injEq, exists_eq_left']
      constructor
      · rintro hall _ _ rfl hi
        cases hfind.symm.trans hi
        obtain ⟨hest, hcl⟩ := hall i
        simp only [update_self] at hest hcl
        refine ⟨fun hopens => ?_, fun hs hrst => hcl hs ((tcpSwitch_closed hs).2 hrst)⟩
        have hne : (h.sockets i).state ≠ .established := by
          obtain ⟨⟨hs, -⟩ | ⟨hs, -⟩, -⟩ := hopens <;> rw [hs] <;> nofun
        exact (hest hne ((tcpSwitch_established hne).2 hopens)).2
      · intro hall j
        obtain ⟨hopens, hreset⟩ := hall seg i rfl hfind
        by_cases hji : j = i
        · subst hji
          simp only [update_self]
          refine ⟨fun hne heq => ?_, fun hs hcl => hreset hs ((tcpSwitch_closed hs).1 hcl)⟩
          have ho := (tcpSwitch_established hne).1 heq
          exact ⟨ho.2, hopens ho⟩
        · simp only [update_of_ne hji]
          exact ⟨fun hne heq => absurd heq hne, fun hs hcl => by rw [hs] at hcl; cases hcl⟩

/-- **Opening and resetting**: connections are established and reset by authentic segments all
along a run exactly if the segments pass the checks that the source leaves out. -/
theorem authentic_iff (h : Host) (es : List Delivery) :
    Along deliver Authentic h es ↔ Along deliver Checked h es :=
  along_congr (I := fun _ => True) (fun h e _ => authentic_iff_checked h e)
    (fun _ _ _ _ => trivial) trivial es

def localAddr : IpAddr := fun i => [10, 0, 2, 15].getD i 0

def remoteAddr : IpAddr := fun i => [10, 0, 2, 2].getD i 0

/-- A client that waits for the answer to its SYN, sent with the number `0x10000`; the other
sockets are free. -/
def synSentHost : Host where
  sockets i :=
    if i.val = 0 then
      ⟨true, .synSent, localAddr, 49153, remoteAddr, 80, 0, 0, 0x10000, fun _ => 0, 0⟩
    else ⟨false, .closed, fun _ => 0, 0, fun _ => 0, 0, 0, 0, 0, fun _ => 0, 0⟩
  isn i := if i.val = 0 then 0x10000 else 0
  backlog _ := 0
  pendingCount _ := 0
  synRateCount := 0

/-- A SYN and ACK for the number 0, from port 80 to port 49153. -/
def forgedSynAck : Packet where
  srcIp := remoteAddr
  dstIp := localAddr
  data i := [0, 80, 0xC0, 0x01, 0, 0, 0, 0, 0, 0, 0, 0, 0x50, 0x12].getD i 0
  len := 20
  len_lt := by decide

/-- It establishes the connection, although it does not acknowledge the SYN. -/
theorem not_authentic_forged : ¬ Authentic synSentHost ⟨forgedSynAck, 0⟩ := by
  intro h
  obtain ⟨_, hparse, -, hack⟩ := (h 0).1 nofun rfl
  have hnum : (tcpParse forgedSynAck).map Segment.ackNum = some 0 := by decide
  have hseg := congrArg (Option.map Segment.ackNum) hparse
  rw [hnum, map_some, some.injEq, hack] at hseg
  exact absurd hseg (by decide)

end Aurora.Tcp
