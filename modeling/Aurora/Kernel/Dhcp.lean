import Aurora.Lib.Run
import Mathlib.Algebra.Group.Nat.Defs

/-!
# The DHCP client

`dhcp_poll` (`net/dhcp.c`) is a state machine that is called again and again: it discovers a
server, requests an address, configures the interface from the server's ACK, and renews the lease
at half of its time. The question is whether the client stays configured with an address whose
lease has run out, and whether the interface keeps an address that a server has refused.

A call of `udp_recvfrom` answers with the packet that is given to the poll, if any, and a call of
`udp_send` succeeds as the poll says; a poll receives at most once and sends at most once. The
tick counter does not overflow.

## Main definitions

* `dhcpFindOption`, `dhcpTryReceiveOffer`, `dhcpTryReceiveAck`: the packets that are accepted.
* `Client`, `dhcpConfigureInterface`, `dhcpStart`, `dhcpPoll`: the client.
* `Outcome`, `dhcpPoll_effect`: what a poll does to the address of the interface.
* `Safe`: a leased address is in use only while the lease lasts, and not after a NAK.
* `Timely`, `leases_safe_iff`: the polls that keep it so, by the clock and `dhcp_lease_expiry`.
-/

namespace Aurora.Dhcp

open Lib

/-! ### Packets -/

/-- A datagram as `udp_recvfrom` hands it out: the payload, the address of the sender, and its
port in host order. -/
structure Packet where
  payload : List UInt8
  srcIp : List UInt8
  srcPort : UInt16

/-- The `n` bytes at offset `off`. -/
def slice (xs : List UInt8) (off n : ℕ) : List UInt8 := (xs.drop off).take n

/-- The number with these bytes, the highest first. -/
def ofBE (xs : List UInt8) : ℕ := xs.foldl (fun v b => v * 256 + b.toNat) 0

/-- `ntohs` on a little-endian machine. -/
def ntohs (v : UInt16) : UInt16 := (v >>> 8) ||| (v <<< 8)

/-- `sizeof(struct dhcp_hdr)`; the fields that are read are `xid` at 4, `yiaddr` at 16 and
`magic` at 236. -/
def hdrSize : ℕ := 240

/-- `DHCP_MAGIC_COOKIE`. -/
def magicCookie : ℕ := 0x63825363

/-- `DHCP_SERVER_PORT`. -/
def serverPort : UInt16 := 67

/-- The size of the buffers that the client receives into. -/
def bufSize : ℕ := 600

/-- The loop of `dhcp_find_option`, which first skips `skip` bytes. -/
def findOptionFrom (optType : UInt8) (outMax : ℕ) : ℕ → List UInt8 → Option (List UInt8)
  | _, [] => none
  | skip + 1, _ :: rest => findOptionFrom optType outMax skip rest
  -- the end mark, padding, or an option without its length
  | 0, [_] => none
  | 0, type :: len :: data =>
    if type = 255 then none
    -- padding is a byte of its own
    else if type = 0 then findOptionFrom optType outMax 0 (len :: data)
    else if data.length < len.toNat then none
    else if type = optType then some (data.take (min len.toNat outMax))
    else findOptionFrom optType outMax len.toNat data

/-- `dhcp_find_option`: the first `outMax` bytes of the option, or `none` for `-1`. -/
def dhcpFindOption (pkt : List UInt8) (optType : UInt8) (outMax : ℕ) : Option (List UInt8) :=
  findOptionFrom optType outMax 0 (pkt.drop hdrSize)

/-- An option of four bytes. -/
def findWord (pkt : List UInt8) (optType : UInt8) : Option (List UInt8) :=
  match dhcpFindOption pkt optType 4 with
  | some xs => if xs.length = 4 then some xs else none
  | none => none

/-- The checks that `dhcp_try_receive_offer` and `dhcp_try_receive_ack` share: the contents of
the buffer and the message type, when the packet is for this client. -/
def received (xid : ℕ) (p : Option Packet) : Option (List UInt8 × UInt8) :=
  match p with
  | none => none
  | some p =>
    let buf := p.payload.take bufSize
    if buf.length < hdrSize then none
    else if ofBE (slice buf 236 4) ≠ magicCookie then none
    else if ofBE (slice buf 4 4) ≠ xid then none
    else if ntohs p.srcPort ≠ serverPort then none
    else match dhcpFindOption buf 53 1 with
      | some [msgType] => some (buf, msgType)
      | _ => none

/-- What `dhcp_try_receive_ack` answers: 0 with the buffer, 1, or -1. -/
inductive Answer where
  | ack (buf : List UInt8)
  | nak
  | nothing

/-- `dhcp_try_receive_ack`. -/
def dhcpTryReceiveAck (xid : ℕ) (p : Option Packet) : Answer :=
  match received xid p with
  | none => .nothing
  | some (buf, msgType) => if msgType = 6 then .nak else if msgType = 5 then .ack buf else .nothing

/-- The address that an ACK assigns, `yiaddr`. -/
def assigned (buf : List UInt8) : List UInt8 := slice buf 16 4

/-- The lease time of an ACK in seconds, a day when the option is missing. -/
def leaseTime (buf : List UInt8) : ℕ :=
  match findWord buf 51 with
  | some xs => ofBE xs
  | none => 86400

/-! ### The client -/

/-- `enum dhcp_state`. -/
inductive State where
  | idle | discoverSent | waitOffer | requestSent | waitAck | bound
  | renewSent | waitRenew | rebindSent | waitRebind | error
  deriving DecidableEq

/-- `struct net_if`, as far as DHCP sets it. -/
structure Iface where
  ip : List UInt8
  netmask : List UInt8
  gateway : List UInt8
  dnsServer : List UInt8

/-- The address `0.0.0.0`. -/
def noAddress : List UInt8 := [0, 0, 0, 0]

/-- A lease: the address, the time of the ACK and the duration in ticks, and whether a NAK or the
expiry of the lease has been processed since. -/
structure Grant where
  address : List UInt8
  since : ℕ
  duration : ℕ
  ended : Bool
  deriving DecidableEq

/-- The variables of the client, with the interface and the tick counter; and, for the
statements only, the lease of the last ACK. -/
structure Client where
  xid : ℕ
  offeredIp : List UInt8
  serverIp : List UInt8
  state : State
  retryCount : ℕ
  timeoutTicks : ℕ
  leaseExpiry : ℕ
  leaseSeconds : ℕ
  configured : Bool
  renewTime : ℕ
  rebindTime : ℕ
  iface : Iface
  uptimeTicks : ℕ
  grant : Option Grant

/-- The interface 0, which `loopback_init` has set up. -/
def loopback : Iface := ⟨[127, 0, 0, 1], [255, 0, 0, 0], noAddress, noAddress⟩

/-- The client after `dhcp_init`, at boot. -/
def dhcpInit (xid : ℕ) : Client where
  xid := xid
  offeredIp := noAddress
  serverIp := noAddress
  state := .idle
  retryCount := 0
  timeoutTicks := 0
  leaseExpiry := 0
  leaseSeconds := 0
  configured := false
  renewTime := 0
  rebindTime := 0
  iface := loopback
  uptimeTicks := 0
  grant := none

/-- `DHCP_MAX_RETRIES`. -/
def maxRetries : ℕ := 3

/-- `DHCP_ERROR_RETRY_DELAY`. -/
def errorRetryDelay : ℕ := 2000

/-- `DHCP_TICKS_PER_SEC`. -/
def ticksPerSec : ℕ := 100

/-- `dhcp_get_timeout`. -/
def dhcpGetTimeout (c : Client) : ℕ :=
  let timeout := if 0 < c.retryCount then 500 * 2 ^ c.retryCount else 500
  if 6400 < timeout then 6400 else timeout

/-- A new state, with the counters reset. -/
def enter (c : Client) (state : State) : Client :=
  { c with state := state, retryCount := 0, timeoutTicks := 0 }

/-- A new state after a packet was sent, `DHCP_ERROR` when it could not be sent. -/
def enterSent (c : Client) (state : State) (sent : Bool) : Client :=
  if sent then enter c state else enter c .error

/-- `dhcp_try_receive_offer`. -/
def dhcpTryReceiveOffer (c : Client) (p : Option Packet) : Option Client :=
  match p, received c.xid p with
  | some p, some (buf, msgType) =>
    if msgType ≠ 2 then none
    else
      let serverIp := match dhcpFindOption buf 54 4 with
        | some (b :: bs) => (b :: bs) ++ c.serverIp.drop (bs.length + 1)
        | _ => p.srcIp
      some { c with offeredIp := slice buf 16 4, serverIp := serverIp }
  | _, _ => none

/-- `dhcp_configure_interface`. -/
def dhcpConfigureInterface (c : Client) (buf : List UInt8) : Client :=
  let leaseTicks := leaseTime buf * ticksPerSec
  { c with
    iface :=
      { ip := assigned buf
        netmask := (findWord buf 1).getD c.iface.netmask
        gateway := (findWord buf 3).getD c.iface.gateway
        dnsServer := (findWord buf 6).getD c.iface.dnsServer }
    leaseSeconds := leaseTime buf
    renewTime := c.uptimeTicks + leaseTicks / 2
    rebindTime := c.uptimeTicks + leaseTicks * 7 / 8
    leaseExpiry := c.uptimeTicks + leaseTicks
    configured := true
    grant := some ⟨assigned buf, c.uptimeTicks, leaseTicks, false⟩ }

/-- `dhcp_start`, when there is an interface. -/
def dhcpStart (c : Client) (sent : Bool) : Client :=
  if c.state = .idle ∨ c.state = .error then enterSent c .discoverSent sent else c

/-- The lease of the last ACK has ended. -/
def endLease (c : Client) : Client :=
  { c with grant := c.grant.map fun g => { g with ended := true } }

/-- T1 is over. -/
def RenewDue (c : Client) : Prop := c.renewTime ≠ 0 ∧ c.renewTime ≤ c.uptimeTicks

/-- T2 is over. -/
def RebindDue (c : Client) : Prop := c.rebindTime ≠ 0 ∧ c.rebindTime ≤ c.uptimeTicks

/-- The lease is over. -/
def Expired (c : Client) : Prop := c.leaseExpiry ≠ 0 ∧ c.leaseExpiry ≤ c.uptimeTicks

instance (c : Client) : Decidable (RenewDue c) := inferInstanceAs (Decidable (_ ∧ _))
instance (c : Client) : Decidable (RebindDue c) := inferInstanceAs (Decidable (_ ∧ _))
instance (c : Client) : Decidable (Expired c) := inferInstanceAs (Decidable (_ ∧ _))

/-- The first part of `dhcp_poll`, about the lease of a bound client. -/
def pollLease (c : Client) (sent : Bool) : Client :=
  if c.state = .bound ∧ c.configured = true then
    if RenewDue c then enterSent { c with renewTime := 0 } .renewSent sent
    else if RebindDue c then enterSent { c with rebindTime := 0 } .rebindSent sent
    else if Expired c then
      enter { endLease c with
        iface := { c.iface with ip := noAddress }
        leaseExpiry := 0
        renewTime := 0
        rebindTime := 0
        configured := false } .error
    else c
  else c

/-- The wait of this poll is the last one before the timeout. -/
def TimedOut (c : Client) : Prop := dhcpGetTimeout c ≤ c.timeoutTicks + 1

instance (c : Client) : Decidable (TimedOut c) := inferInstanceAs (Decidable (_ ≤ _))

/-- A wait without an answer: after a timeout the request is sent again, and after the last retry
`exhausted` is the new state. -/
def waitOn (c : Client) (again : State) (sent : Bool) (exhausted : Client) : Client :=
  if TimedOut c then
    if c.retryCount < maxRetries then
      if sent then { c with state := again, retryCount := c.retryCount + 1, timeoutTicks := 0 }
      else enter c .error
    else exhausted
  else { c with timeoutTicks := c.timeoutTicks + 1 }

/-- The client when rebinding has failed: the address is released. -/
def releaseIp (c : Client) : Client :=
  { c with
    iface := { c.iface with ip := noAddress, netmask := noAddress, gateway := noAddress } }

/-- The delay after an error is over. -/
def RetryDue (c : Client) : Prop := errorRetryDelay ≤ c.timeoutTicks + 1

instance (c : Client) : Decidable (RetryDue c) := inferInstanceAs (Decidable (_ ≤ _))

/-- The `switch` of `dhcp_poll`. -/
def pollState (c : Client) (p : Option Packet) (sent : Bool) : Client :=
  match c.state with
  | .idle => c
  | .discoverSent => { c with state := .waitOffer, timeoutTicks := 0 }
  | .waitOffer =>
    match dhcpTryReceiveOffer c p with
    | some c' => enterSent c' .requestSent sent
    | none => waitOn c .discoverSent sent (enter c .error)
  | .requestSent => { c with state := .waitAck, timeoutTicks := 0 }
  | .waitAck =>
    match dhcpTryReceiveAck c.xid p with
    | .ack buf => enter (dhcpConfigureInterface c buf) .bound
    | .nak => enter (endLease c) .error
    | .nothing => waitOn c .requestSent sent (enter c .error)
  | .bound => c
  | .renewSent => { c with state := .waitRenew, timeoutTicks := 0 }
  | .waitRenew =>
    match dhcpTryReceiveAck c.xid p with
    | .ack buf => enter (dhcpConfigureInterface c buf) .bound
    | .nak => enterSent (endLease c) .rebindSent sent
    | .nothing => waitOn c .renewSent sent (enterSent c .rebindSent sent)
  | .rebindSent => { c with state := .waitRebind, timeoutTicks := 0 }
  | .waitRebind =>
    match dhcpTryReceiveAck c.xid p with
    | .ack buf => enter (dhcpConfigureInterface c buf) .bound
    | .nak => enter (endLease c) .error
    | .nothing => waitOn c .rebindSent sent (enter (releaseIp c) .error)
  | .error =>
    if RetryDue c then
      dhcpStart { enter c .idle with
        configured := false, leaseExpiry := 0, renewTime := 0, rebindTime := 0 } sent
    else { c with timeoutTicks := c.timeoutTicks + 1 }

/-- `dhcp_poll`, in which `udp_recvfrom` answers with `p` and `udp_send` as `sent` says. -/
def dhcpPoll (c : Client) (p : Option Packet) (sent : Bool) : Client :=
  pollState (pollLease c sent) p sent

/-- The calls: the start, and a poll after the clock has advanced. -/
inductive Op where
  | start (sent : Bool)
  | poll (advance : ℕ) (p : Option Packet) (sent : Bool)

/-- The clock advances. -/
def tick (c : Client) (advance : ℕ) : Client :=
  { c with uptimeTicks := c.uptimeTicks + advance }

/-- One call. -/
def step (c : Client) : Op → Option Client
  | .start sent => some (dhcpStart c sent)
  | .poll advance p sent => some (dhcpPoll (tick c advance) p sent)

/-! ### What a poll does to the address -/

/-- What a poll comes to, for the address of the interface. -/
inductive Outcome where
  | granted (buf : List UInt8)
  | refused
  | released
  | restarted
  | kept

/-- The client waits for an ACK. -/
def AwaitsAck (c : Client) : Prop :=
  c.state = .waitAck ∨ c.state = .waitRenew ∨ c.state = .waitRebind

instance (c : Client) : Decidable (AwaitsAck c) := inferInstanceAs (Decidable (_ ∨ _))

/-- The client gives up rebinding when no answer comes. -/
def LastRebind (c : Client) : Prop :=
  c.state = .waitRebind ∧ TimedOut c ∧ ¬ c.retryCount < maxRetries

instance (c : Client) : Decidable (LastRebind c) := inferInstanceAs (Decidable (_ ∧ _))

/-- The client starts again after an error. -/
def Restarts (c : Client) : Prop := c.state = .error ∧ RetryDue c

instance (c : Client) : Decidable (Restarts c) := inferInstanceAs (Decidable (_ ∧ _))

/-- The outcome of a poll in the state `c` that receives `p`. -/
def outcome (c : Client) (p : Option Packet) : Outcome :=
  if AwaitsAck c then
    match dhcpTryReceiveAck c.xid p with
    | .ack buf => .granted buf
    | .nak => .refused
    | .nothing => if LastRebind c then .released else .kept
  else if Restarts c then .restarted else .kept

/-- The address of the interface, the lease, its expiry and the clock are the same. -/
structure SameLease (c c' : Client) : Prop where
  ip : c'.iface.ip = c.iface.ip
  grant : c'.grant = c.grant
  ticks : c'.uptimeTicks = c.uptimeTicks
  configured : c'.configured = c.configured
  expiry : c'.leaseExpiry = c.leaseExpiry

/-- While the client is bound, T1 comes before the end of the lease. -/
def Clocked (c : Client) : Prop :=
  c.state = .bound → c.renewTime ≤ c.leaseExpiry ∧ (c.renewTime = 0 → c.leaseExpiry = 0)

/-- The expiry of a configured client is that of its lease. -/
def Recorded (c : Client) : Prop :=
  c.configured = true → ∃ g, c.grant = some g ∧ c.leaseExpiry = g.since + g.duration

/-- The state `c'` after a poll with a certain outcome in the state `c`. -/
def Outcome.Effect (c c' : Client) : Outcome → Prop
  | .granted buf => c' = enter (dhcpConfigureInterface c buf) .bound
  | .refused => SameLease (endLease c) c'
  | .released => c'.iface.ip = noAddress ∧ c'.configured = c.configured ∧ c'.grant = c.grant ∧
      c'.leaseExpiry = c.leaseExpiry
  | .restarted => c'.iface.ip = c.iface.ip ∧ c'.grant = c.grant ∧ c'.configured = false
  | .kept => SameLease c c'

variable {c c' d : Client} {p : Option Packet} {sent : Bool}

lemma SameLease.refl (c : Client) : SameLease c c := ⟨rfl, rfl, rfl, rfl, rfl⟩

lemma SameLease.trans (h : SameLease c d) (h' : SameLease d c') : SameLease c c' :=
  ⟨h'.ip.trans h.ip, h'.grant.trans h.grant, h'.ticks.trans h.ticks,
    h'.configured.trans h.configured, h'.expiry.trans h.expiry⟩

lemma SameLease.recorded (h : SameLease c c') (hc : Recorded c) : Recorded c' := by
  rwa [Recorded, h.configured, h.grant, h.expiry]

lemma recorded_endLease (h : Recorded c) : Recorded (endLease c) := by
  intro hconf
  obtain ⟨g, hg, hexp⟩ := h hconf
  exact ⟨{ g with ended := true }, by simp [endLease, hg], hexp⟩

/-- Every outcome keeps the record of the expiry. -/
lemma Outcome.Effect.recorded {o : Outcome} (h : o.Effect c c') (hc : Recorded c) :
    Recorded c' := by
  cases o with
  | granted buf => cases h; exact fun _ => ⟨_, rfl, rfl⟩
  | refused => exact SameLease.recorded h (recorded_endLease hc)
  | released =>
    obtain ⟨-, hconf, hgrant, hexp⟩ := h
    rwa [Recorded, hconf, hgrant, hexp]
  | restarted => exact fun hconf => absurd (h.2.2.symm.trans hconf) nofun
  | kept => exact SameLease.recorded h hc

lemma Clocked.of_ne (h : c.state ≠ .bound) : Clocked c := fun hst => absurd hst h

lemma clocked_configure (c : Client) (buf : List UInt8) :
    Clocked (enter (dhcpConfigureInterface c buf) .bound) := by
  intro _
  simp only [enter, dhcpConfigureInterface, ticksPerSec]
  omega

/-- The lease is the same, and the client is not bound. -/
structure Unbound (c c' : Client) : Prop extends SameLease c c' where
  state : c'.state ≠ .bound

lemma unbound_error (c : Client) : Unbound c (enter c .error) :=
  ⟨⟨rfl, rfl, rfl, rfl, rfl⟩, nofun⟩

lemma unbound_enterSent (c : Client) (st : State) (sent : Bool) (hst : st ≠ .bound) :
    Unbound c (enterSent c st sent) := by
  cases sent
  · exact unbound_error c
  · exact ⟨⟨rfl, rfl, rfl, rfl, rfl⟩, hst⟩

lemma sameLease_start (c : Client) (sent : Bool) : SameLease c (dhcpStart c sent) := by
  unfold dhcpStart
  split
  · exact (unbound_enterSent c .discoverSent sent nofun).toSameLease
  · exact .refl c

lemma unbound_waitOn (hd : Unbound c d) (again : State) (sent : Bool) (hc : c.state ≠ .bound)
    (hagain : again ≠ .bound) : Unbound c (waitOn c again sent d) := by
  unfold waitOn
  split
  · split
    · cases sent
      · exact unbound_error c
      · exact ⟨⟨rfl, rfl, rfl, rfl, rfl⟩, hagain⟩
    · exact hd
  · exact ⟨⟨rfl, rfl, rfl, rfl, rfl⟩, hc⟩

lemma sameLease_offer (h : dhcpTryReceiveOffer c p = some c') : SameLease c c' := by
  unfold dhcpTryReceiveOffer at h
  split at h
  · split_ifs at h
    cases h
    exact ⟨rfl, rfl, rfl, rfl, rfl⟩
  · cases h

/-- Rebinding goes on until the last timeout. -/
lemma waitRebind_effect (hst : c.state = .waitRebind) (sent : Bool) :
    (if LastRebind c then Outcome.released else .kept).Effect c
        (waitOn c .rebindSent sent (enter (releaseIp c) .error)) ∧
      (waitOn c .rebindSent sent (enter (releaseIp c) .error)).state ≠ .bound := by
  by_cases hlast : LastRebind c
  · rw [if_pos hlast, waitOn, if_pos hlast.2.1, if_neg hlast.2.2]
    exact ⟨⟨rfl, rfl, rfl, rfl⟩, nofun⟩
  · rw [if_neg hlast, waitOn]
    split
    · rename_i htimed
      have hretry : c.retryCount < maxRetries :=
        not_not.1 fun hretry => hlast ⟨hst, htimed, hretry⟩
      rw [if_pos hretry]
      cases sent <;> exact ⟨⟨rfl, rfl, rfl, rfl, rfl⟩, nofun⟩
    · exact ⟨⟨rfl, rfl, rfl, rfl, rfl⟩, by simp [hst]⟩

/-- The effect of the `switch`; the client gets bound by an ACK only, which sets the times. -/
lemma pollState_effect (c : Client) (p : Option Packet) (sent : Bool) :
    (outcome c p).Effect c (pollState c p sent) ∧ (Clocked c → Clocked (pollState c p sent)) := by
  have hlast : ∀ st, c.state = st → st ≠ .waitRebind → ¬ LastRebind c :=
    fun st hst hne h => hne (hst.symm.trans h.1)
  have hne : ∀ st, c.state = st → st ≠ .bound → c.state ≠ .bound :=
    fun st hst hne hbound => hne (hst.symm.trans hbound)
  have hkept : ∀ {c'}, Unbound c c' → Outcome.kept.Effect c c' ∧ (Clocked c → Clocked c') :=
    fun h => ⟨h.toSameLease, fun _ => .of_ne h.state⟩
  cases hst : c.state with
  | idle | bound =>
    simp [outcome, AwaitsAck, Restarts, pollState, hst, Outcome.Effect, SameLease.refl]
  | discoverSent | requestSent | renewSent | rebindSent =>
    simp only [outcome, AwaitsAck, Restarts, pollState, hst]
    exact hkept ⟨⟨rfl, rfl, rfl, rfl, rfl⟩, nofun⟩
  | waitOffer =>
    simp only [outcome, AwaitsAck, Restarts, pollState, hst]
    cases hoffer : dhcpTryReceiveOffer c p with
    | none =>
      exact hkept (unbound_waitOn (unbound_error c) .discoverSent sent (hne _ hst nofun) nofun)
    | some c' =>
      have hsent := unbound_enterSent c' .requestSent sent nofun
      exact hkept ⟨(sameLease_offer hoffer).trans hsent.toSameLease, hsent.state⟩
  | waitAck =>
    simp only [outcome, AwaitsAck, pollState, hst, true_or, if_true]
    cases dhcpTryReceiveAck c.xid p with
    | ack buf => exact ⟨rfl, fun _ => clocked_configure c buf⟩
    | nak => exact ⟨(unbound_error _).toSameLease, fun _ => .of_ne nofun⟩
    | nothing =>
      simp only [if_neg (hlast _ hst nofun)]
      exact hkept (unbound_waitOn (unbound_error c) .requestSent sent (hne _ hst nofun) nofun)
  | waitRenew =>
    simp only [outcome, AwaitsAck, pollState, hst, true_or, or_true, if_true]
    cases dhcpTryReceiveAck c.xid p with
    | ack buf => exact ⟨rfl, fun _ => clocked_configure c buf⟩
    | nak =>
      have hrebind := unbound_enterSent (endLease c) .rebindSent sent nofun
      exact ⟨hrebind.toSameLease, fun _ => .of_ne hrebind.state⟩
    | nothing =>
      simp only [if_neg (hlast _ hst nofun)]
      have hrebind := unbound_enterSent c .rebindSent sent nofun
      exact hkept (unbound_waitOn hrebind .renewSent sent (hne _ hst nofun) nofun)
  | waitRebind =>
    simp only [outcome, AwaitsAck, pollState, hst, or_true, if_true]
    cases dhcpTryReceiveAck c.xid p with
    | ack buf => exact ⟨rfl, fun _ => clocked_configure c buf⟩
    | nak => exact ⟨(unbound_error _).toSameLease, fun _ => .of_ne nofun⟩
    | nothing =>
      obtain ⟨heffect, hstate⟩ := waitRebind_effect hst sent
      exact ⟨heffect, fun _ => .of_ne hstate⟩
  | error =>
    simp only [outcome, AwaitsAck, Restarts, pollState, hst, true_and]
    by_cases hdue : RetryDue c
    · have h := unbound_enterSent { enter c .idle with
        configured := false, leaseExpiry := 0, renewTime := 0, rebindTime := 0 } .discoverSent sent
        nofun
      simp only [hdue, if_true]
      exact ⟨⟨h.ip, h.grant, h.configured⟩, fun _ => .of_ne h.state⟩
    · simp only [hdue, if_false]
      exact hkept ⟨⟨rfl, rfl, rfl, rfl, rfl⟩, nofun⟩

/-! ### The lease is checked too late -/

/-- **The expiry of a lease is never noticed** by a bound client: T1 has come before. -/
lemma Clocked.renewDue (h : Clocked c) (hst : c.state = .bound) (hexp : Expired c) :
    RenewDue c := by
  obtain ⟨hle, hzero⟩ := h hst
  exact ⟨fun hrenew => hexp.1 (hzero hrenew), Nat.le_trans hle hexp.2⟩

/-- So the first part of a poll leaves a bound client alone or sends a request. -/
lemma Clocked.pollLease_cases (h : Clocked c) (sent : Bool) :
    pollLease c sent = c ∨ c.state = .bound ∧ ∃ d st, st ∈ [State.renewSent, .rebindSent] ∧
      SameLease c d ∧ pollLease c sent = enterSent d st sent := by
  unfold pollLease
  split
  · rename_i hbound
    split
    · exact .inr ⟨hbound.1, { c with renewTime := 0 }, .renewSent, by simp,
        ⟨rfl, rfl, rfl, rfl, rfl⟩, rfl⟩
    · rename_i hrenew
      split
      · exact .inr ⟨hbound.1, { c with rebindTime := 0 }, .rebindSent, by simp,
          ⟨rfl, rfl, rfl, rfl, rfl⟩, rfl⟩
      · exact .inl (if_neg fun hexp => hrenew (h.renewDue hbound.1 hexp))
  · exact .inl rfl

lemma Clocked.pollLease (h : Clocked c) (sent : Bool) : Clocked (pollLease c sent) := by
  obtain heq | ⟨-, d, st, hst, -, heq⟩ := h.pollLease_cases sent
  · rwa [heq]
  · rw [heq]
    refine .of_ne (unbound_enterSent d st sent ?_).state
    rintro rfl
    simp at hst

/-- **The effect of a poll.** -/
lemma Clocked.dhcpPoll_effect (h : Clocked c) (p : Option Packet) (sent : Bool) :
    (outcome c p).Effect c (dhcpPoll c p sent) := by
  have heffect := (pollState_effect (Dhcp.pollLease c sent) p sent).1
  obtain heq | ⟨hbound, d, st, hst, hd, heq⟩ := h.pollLease_cases sent
  · rw [heq] at heffect
    rwa [dhcpPoll, heq]
  · have hmem : st = .renewSent ∨ st = .rebindSent := by simpa using hst
    have hsent := unbound_enterSent d st sent (by rintro rfl; simp at hmem)
    -- the delay after an error starts with this poll
    have hnext : outcome (enterSent d st sent) p = .kept := by
      obtain rfl | rfl := hmem <;> cases sent <;>
        simp [outcome, AwaitsAck, Restarts, RetryDue, errorRetryDelay, enterSent, enter]
    have hkept : outcome c p = .kept := by simp [outcome, AwaitsAck, Restarts, hbound]
    rw [heq, hnext] at heffect
    rw [hkept, dhcpPoll, heq]
    exact (hd.trans hsent.toSameLease).trans heffect

/-- What holds between calls. -/
structure Inv (c : Client) : Prop where
  clocked : Clocked c
  recorded : Recorded c

lemma inv_dhcpInit (xid : ℕ) : Inv (dhcpInit xid) := ⟨.of_ne nofun, nofun⟩

lemma Inv.exec (h : Inv c) (op : Op) : Inv (exec step c op) := by
  cases op with
  | start sent =>
    refine ⟨?_, (sameLease_start c sent).recorded h.recorded⟩
    show Clocked (dhcpStart c sent)
    unfold dhcpStart
    split
    · exact .of_ne (unbound_enterSent c .discoverSent sent nofun).state
    · exact h.clocked
  | poll advance p sent =>
    have htick : Clocked (tick c advance) := h.clocked
    have hrec : Recorded (tick c advance) := h.recorded
    exact ⟨(pollState_effect _ p sent).2 (htick.pollLease sent),
      (htick.dhcpPoll_effect p sent).recorded hrec⟩

/-! ### Leases over a whole run -/

/-- The interface uses the address of the last ACK. -/
def Uses (c : Client) : Prop :=
  c.grant.map Grant.address = some c.iface.ip ∧ c.iface.ip ≠ noAddress

instance (c : Client) : Decidable (Uses c) := inferInstanceAs (Decidable (_ ∧ _))

/-- **The safety of leases**: while the interface uses a leased address, neither a NAK nor the
expiry has been processed since the ACK; and if the client is configured, less than the duration
of the lease has passed. -/
def Safe (c : Client) : Prop :=
  Uses c → ∀ g, c.grant = some g →
    g.ended = false ∧ (c.configured = true → c.uptimeTicks < g.since + g.duration)

/-- The calls that keep leases safe. A NAK finds no leased address on the interface, an ACK
grants some time, and any other poll of a client that is configured with a leased address comes
before `dhcp_lease_expiry`. Two polls may come at any time: the one that gives up rebinding, which
clears the address, and the one that starts again after an error, which clears
`dhcp_configured`. -/
def Timely (c : Client) : Op → Prop
  | .start _ => True
  | .poll advance p _ =>
    match outcome c p with
    | .granted buf => assigned buf = noAddress ∨ 0 < leaseTime buf
    | .refused => ¬ Uses c
    | .released => True
    | .restarted => True
    | .kept => c.configured = true → Uses c → c.uptimeTicks + advance < c.leaseExpiry

instance (c : Client) : DecidablePred (Timely c)
  | .start _ => isTrue trivial
  | .poll advance p sent => by
    unfold Timely
    dsimp only
    split <;> infer_instance

lemma SameLease.uses_iff (h : SameLease c c') : Uses c' ↔ Uses c := by
  rw [Uses, Uses, h.ip, h.grant]

lemma SameLease.safe_iff (h : SameLease c c') : Safe c' ↔ Safe c := by
  rw [Safe, Safe, h.uses_iff, h.grant, h.configured, h.ticks]

lemma Safe.tick_iff (h : Safe c) (hrec : Recorded c) (advance : ℕ) :
    Safe (tick c advance) ↔
      (c.configured = true → Uses c → c.uptimeTicks + advance < c.leaseExpiry) := by
  refine ⟨fun hnext hconf huses => ?_, fun htime huses g hg => ?_⟩
  · obtain ⟨g, hg, hexp⟩ := hrec hconf
    rw [hexp]
    exact (hnext huses g hg).2 hconf
  · refine ⟨(h huses g hg).1, fun hconf => ?_⟩
    obtain ⟨g', hg', hexp⟩ := hrec hconf
    cases hg'.symm.trans hg
    exact Nat.lt_of_lt_of_eq (htime hconf huses) hexp

lemma safe_configure_iff (c : Client) (buf : List UInt8) :
    Safe (enter (dhcpConfigureInterface c buf) .bound) ↔
      assigned buf = noAddress ∨ 0 < leaseTime buf := by
  simp only [Safe, Uses, enter, dhcpConfigureInterface, Option.map_some, true_and, ticksPerSec,
    Option.some.injEq, forall_eq', forall_const]
  rw [or_iff_not_imp_left]
  refine imp_congr_right fun _ => ?_
  omega

lemma safe_endLease_iff (c : Client) : Safe (endLease c) ↔ ¬ Uses c := by
  have huses : Uses (endLease c) ↔ Uses c := by
    simp [Uses, endLease, Option.map_map, Function.comp_def]
  rw [Safe, huses]
  refine ⟨fun hsafe hu => ?_, fun hnot hu => absurd hu hnot⟩
  obtain ⟨g, hg, -⟩ := Option.map_eq_some_iff.1 hu.1
  exact absurd (hsafe hu { g with ended := true } (by simp [endLease, hg])).1 nofun

/-- **One call**: it keeps leases safe exactly when it is timely. -/
lemma safe_exec_iff (h : Inv c) (hsafe : Safe c) (op : Op) :
    Safe (exec step c op) ↔ Timely c op := by
  cases op with
  | start sent => exact iff_of_true ((sameLease_start c sent).safe_iff.2 hsafe) trivial
  | poll advance p sent =>
    have htick : Clocked (tick c advance) := h.clocked
    have heffect := htick.dhcpPoll_effect p sent
    show Safe (dhcpPoll (tick c advance) p sent) ↔ _
    have hout : outcome (tick c advance) p = outcome c p := rfl
    rw [hout] at heffect
    rw [Timely]
    cases hcase : outcome c p with
    | granted buf =>
      rw [hcase] at heffect
      rw [show dhcpPoll _ p sent = _ from heffect]
      exact safe_configure_iff (tick c advance) buf
    | refused =>
      rw [hcase] at heffect
      exact (SameLease.safe_iff heffect).trans (safe_endLease_iff (tick c advance))
    | released =>
      rw [hcase] at heffect
      exact iff_of_true (fun huses => absurd heffect.1 huses.2) trivial
    | restarted =>
      rw [hcase] at heffect
      obtain ⟨hip, hgrant, hconf⟩ := heffect
      refine iff_of_true ?_ trivial
      rw [Safe, Uses, hip, hgrant, hconf]
      exact fun huses g hg => ⟨(hsafe huses g hg).1, nofun⟩
    | kept =>
      rw [hcase] at heffect
      exact (SameLease.safe_iff heffect).trans (hsafe.tick_iff h.recorded advance)

/-- **Leases are safe in every state of a run** exactly when every call of it is timely. -/
theorem leases_safe_iff (xid : ℕ) (ops : List Op) :
    (∀ before, before <+: ops → Safe (run step (dhcpInit xid) before)) ↔
      Along step Timely (dhcpInit xid) ops := by
  have hkeep : ∀ c op, Inv c ∧ Safe c → Timely c op →
      Inv (exec step c op) ∧ Safe (exec step c op) :=
    fun c op h htimely => ⟨h.1.exec op, (safe_exec_iff h.1 h.2 op).2 htimely⟩
  have hneed : ∀ c op, Inv c ∧ Safe c → Safe (exec step c op) → Timely c op :=
    fun c op h hsafe => (safe_exec_iff h.1 h.2 op).1 hsafe
  have hinit : Inv (dhcpInit xid) ∧ Safe (dhcpInit xid) := ⟨inv_dhcpInit xid, nofun⟩
  exact forall_prefix_iff_along (fun _ h => h.2) hkeep hneed hinit ops

/-- A message for the client 1 that assigns 10.0.2.15 with a lease of one second. Its port is the
one that passes the check of the client, which swaps the bytes of a port in host order. -/
def message (msgType : UInt8) : Option Packet :=
  some
    { payload := List.replicate 4 0 ++ [0, 0, 0, 1] ++ List.replicate 8 0 ++ [10, 0, 2, 15] ++
        List.replicate 216 0 ++ [0x63, 0x82, 0x53, 0x63] ++
        [53, 1, msgType, 51, 4, 0, 0, 0, 1, 255]
      srcIp := [10, 0, 2, 2]
      srcPort := 0x4300 }

/-- The calls up to the first ACK. -/
def binding : List Op :=
  [.start true, .poll 0 none true, .poll 0 (message 2) true, .poll 0 none true,
    .poll 0 (message 5) true]

/-- **A lease that is renewed in time**: at tick 60 T1 is over and the client asks again, and the
second ACK is taken at tick 90; the address is safe, and in use until tick 190. -/
theorem leases_safe_renewal :
    (∀ before, before <+: binding ++
        [.poll 60 none true, .poll 30 (message 5) true, .poll 99 none true] →
      Safe (run step (dhcpInit 1) before)) ∧
    Uses (run step (dhcpInit 1) (binding ++
        [.poll 60 none true, .poll 30 (message 5) true, .poll 99 none true])) := by
  refine ⟨(leases_safe_iff 1 _).2 ?_, by decide +kernel⟩
  exact ⟨trivial, by decide +kernel, by decide +kernel, by decide +kernel, by decide +kernel,
    by decide +kernel, by decide +kernel, by decide +kernel, trivial⟩

/-- **Addresses that are kept too long**: two seconds after a lease of one second the client is
still configured with its address; and so it is after a NAK within the lease. -/
theorem not_safe_expired_refused :
    ((run step (dhcpInit 1) (binding ++ [.poll 200 none true])).configured = true ∧
      Uses (run step (dhcpInit 1) (binding ++ [.poll 200 none true])) ∧
      ¬ Safe (run step (dhcpInit 1) (binding ++ [.poll 200 none true]))) ∧
    (Uses (run step (dhcpInit 1) (binding ++ [.poll 60 none true, .poll 0 (message 6) true])) ∧
      ¬ Safe (run step (dhcpInit 1)
        (binding ++ [.poll 60 none true, .poll 0 (message 6) true]))) := by
  have hlate : ∀ c : Client, c.configured = true → Uses c →
      c.grant = some ⟨[10, 0, 2, 15], 0, 100, false⟩ → c.uptimeTicks = 200 → ¬ Safe c := by
    intro c hconf huses hgrant hticks hsafe
    have hlt := (hsafe huses _ hgrant).2 hconf
    rw [hticks] at hlt
    exact absurd hlt (by decide)
  have hrefused : ∀ c : Client, Uses c → c.grant = some ⟨[10, 0, 2, 15], 0, 100, true⟩ →
      ¬ Safe c :=
    fun c huses hgrant hsafe => absurd (hsafe huses _ hgrant).1 nofun
  have hused : Uses (run step (dhcpInit 1) (binding ++ [.poll 200 none true])) := by
    decide +kernel
  have hkept : Uses (run step (dhcpInit 1)
      (binding ++ [.poll 60 none true, .poll 0 (message 6) true])) := by
    decide +kernel
  exact ⟨⟨by decide +kernel, hused,
      hlate _ (by decide +kernel) hused (by decide +kernel) (by decide +kernel)⟩,
    hkept, hrefused _ hkept (by decide +kernel)⟩

end Aurora.Dhcp
