import Blockmon.Packet

/-!
# What the parsers leave

`parse_mac`, `parse_iphdr`, `parse_ports` and `parse_tcphdr` as functions from packets to packets: `Packet.mac`, `Packet.ip`,
`Packet.ports` and `Packet.tcp`. On a packet whose pointers lie in the buffer a parser ends without a fault, leaves what its function says,
and the pointers lie in the buffer again.
-/

namespace Blockmon.Messages

namespace Packet

variable {p : Packet}

/-! ## Reading -/

/-- The structure of `n` bytes at an offset. -/
def slice (p : Packet) (off n : Nat) : List UInt8 := (p.buffer.bytes.drop off).take n

/-- A read inside of what was captured. -/
theorem run_load {off n : Nat} (h : off + n ≤ p.caplen) : (load off n).run p = .ok (p.slice off n) p := by
  unfold load
  rw [EStateM.run_bind]
  dsimp only [EStateM.run_get]
  rw [if_neg (by omega)]
  rfl

/-- What is left behind an offset inside. -/
theorem run_left {off : Nat} (h : off ≤ p.caplen) : (left off).run p = .ok (p.caplen - off) p := by
  unfold left
  rw [EStateM.run_bind]
  dsimp only [EStateM.run_get]
  rw [if_neg (by omega)]
  rfl

/-- A change before a call. -/
theorem run_modify_bind {β : Type} (f : Packet → Packet) (g : PUnit → Parse β) : (modify f >>= g).run p = (g ⟨⟩).run (f p) := rfl

/-- A read of the packet before a call. -/
theorem run_get_bind {β : Type} (g : Packet → Parse β) : (get >>= g).run p = (g p).run p := rfl

/-! ## The MAC header -/

/-- The packet type behind the 802.1q headers and where they end, or nothing if the packet is too short. -/
def skipTags (bytes : List UInt8) : Nat → UInt16 → Nat → Option (UInt16 × Nat)
  | 0, _, _ => none
  | n + 1, type, off =>
    if type = kPktType1q then
      if bytes.length - off < sizeofEthhdr then none
      else skipTags bytes n (ntohs (u16 ((bytes.drop off).take sizeofEth1qhdr) 2)) (off + sizeofEth1qhdr)
    else some (type, off)

/-- The loop ends, and inside of the buffer. -/
theorem run_parse1q (n off : Nat) (hoff : off ≤ p.caplen) (hn : p.caplen - off < n) :
    (parse1q n off).run p =
      match skipTags p.buffer.bytes n p.pkttype off with
      | none => .ok none { p with pkttype := kPktType1q }
      | some (type, off') => .ok (some off') { p with pkttype := type } := by
  induction n generalizing p off with
  | zero => omega
  | succ n ih =>
    unfold parse1q skipTags
    rw [run_get_bind]
    by_cases h1q : p.pkttype = kPktType1q
    · rw [if_pos h1q, if_pos h1q, Exn.run_bind_of_ok (run_left hoff)]
      by_cases hshort : p.caplen - off < sizeofEthhdr
      · rw [if_pos hshort, if_pos (show p.buffer.bytes.length - off < sizeofEthhdr from hshort), ← h1q]
        rfl
      · rw [if_neg hshort, if_neg (show ¬p.buffer.bytes.length - off < sizeofEthhdr from hshort)]
        unfold sizeofEthhdr at hshort
        have hlen : off + sizeofEth1qhdr ≤ p.caplen := by
          unfold sizeofEth1qhdr
          omega
        rw [Exn.run_bind_of_ok (run_load hlen), run_modify_bind]
        unfold sizeofEth1qhdr at hlen ⊢
        exact ih _ hlen (by simp only [caplen] at hn hlen hshort ⊢; omega)
    · rw [if_neg h1q, if_neg h1q]
      rfl

/-- The tags end inside of the bytes. -/
theorem skipTags_le {bytes : List UInt8} {n off off' : Nat} {type type' : UInt16} (hoff : off ≤ bytes.length)
    (h : skipTags bytes n type off = some (type', off')) : off' ≤ bytes.length := by
  induction n generalizing type off with
  | zero => cases h
  | succ n ih =>
    unfold skipTags at h
    split at h
    · split at h
      · cases h
      · rename_i hlen
        unfold sizeofEthhdr at hlen
        exact ih (by unfold sizeofEth1qhdr; omega) h
    · cases h
      exact hoff

/-- The packet type that `parse_mac` finds and the offset behind the MAC header, or nothing if the packet is too short. -/
def macHeader (p : Packet) : Option (UInt16 × Nat) :=
  if p.mactype = kEthernet then
    if p.caplen < sizeofEthhdr then none
    else skipTags p.buffer.bytes (p.caplen + 1) (ntohs (u16 (p.slice 0 sizeofEthhdr) 12)) sizeofEthhdr
  else if p.mactype = kRawIP then some (kPktTypeIP4, 0)
  else some (p.pkttype, 0)

/-- The MAC header ends inside of the bytes. -/
theorem macHeader_le {p : Packet} {type : UInt16} {off : Nat} (h : p.macHeader = some (type, off)) : off ≤ p.caplen := by
  unfold macHeader at h
  split at h
  · split at h
    · cases h
    · rename_i hlen
      exact skipTags_le (Nat.le_of_not_lt hlen) h
  · split at h
    · cases h
      exact Nat.zero_le _
    · cases h
      exact Nat.zero_le _

/-- Nothing more can be parsed: the packet is too short or not an IP packet. -/
def closed (type : UInt16) (p : Packet) : Packet :=
  { p with pkttype := type, machdrParsed := true, iphdrParsed := true, portsParsed := true, l4hdrParsed := true }

/-- The parser of the MAC header, as a function. -/
def mac (p : Packet) : Packet :=
  if p.machdrParsed then p
  else
    match p.macHeader with
    | none => p.closed kPktTypeRuntL2
    | some (type, off) =>
      if type = kPktTypeIP4 then { p with pkttype := type, iphdrPtr := some off, machdrParsed := true } else p.closed type

/-- The IP header is noted, or the packet is closed. -/
theorem run_storeIphdr (off : Nat) :
    (storeIphdr off).run p =
      .ok () (if p.pkttype = kPktTypeIP4 then { p with iphdrPtr := some off, machdrParsed := true } else p.closed p.pkttype) := rfl

/-- The parser of the MAC header is its function. -/
theorem run_parseMac : parseMac.run p = .ok () p.mac := by
  unfold parseMac mac
  rw [run_get_bind]
  by_cases hparsed : p.machdrParsed = true
  · rw [if_pos hparsed, if_pos hparsed]
    rfl
  · rw [if_neg hparsed, if_neg hparsed]
    unfold macHeader
    by_cases hmac : p.mactype = kEthernet
    · rw [if_pos hmac, if_pos hmac]
      by_cases hlen : p.caplen < sizeofEthhdr
      · rw [if_pos hlen, if_pos hlen]
        rfl
      · rw [if_neg hlen, if_neg hlen, Exn.run_bind_of_ok (run_load (by omega)), run_modify_bind]
        have hloop := run_parse1q (p := { p with pkttype := ntohs (u16 (p.slice 0 sizeofEthhdr) 12) }) (p.caplen + 1) sizeofEthhdr
          (Nat.le_of_not_lt hlen) (by simp only [caplen]; omega)
        dsimp only at hloop
        cases hskip : skipTags p.buffer.bytes (p.caplen + 1) (ntohs (u16 (p.slice 0 sizeofEthhdr) 12)) sizeofEthhdr with
        | none =>
          rw [hskip] at hloop
          rw [Exn.run_bind_of_ok hloop]
          rfl
        | some r =>
          obtain ⟨type, off⟩ := r
          rw [hskip] at hloop
          rw [Exn.run_bind_of_ok hloop, run_storeIphdr]
          rfl
    · rw [if_neg hmac, if_neg hmac]
      by_cases hraw : p.mactype = kRawIP
      · rw [if_pos hraw, if_pos hraw]
        rfl
      · rw [if_neg hraw, if_neg hraw]
        rfl

/-! ## The IP header -/

/-- The pointers lie between the start and the end of the buffer. -/
structure InBounds (p : Packet) : Prop where
  iphdr : ∀ off, p.iphdrPtr = some off → off ≤ p.caplen
  l4hdr : ∀ off, p.l4hdrPtr = some off → off ≤ p.caplen
  payload : ∀ off, p.l4payloadPtr = some off → off ≤ p.caplen

/-- The MAC header keeps the offsets inside. -/
theorem InBounds.mac (h : p.InBounds) : p.mac.InBounds := by
  unfold Packet.mac
  split
  · exact h
  · cases hmac : p.macHeader with
    | none => exact ⟨h.iphdr, h.l4hdr, h.payload⟩
    | some r =>
      obtain ⟨type, off⟩ := r
      dsimp only
      split
      · refine ⟨fun off' hoff' => ?_, h.l4hdr, h.payload⟩
        cases hoff'
        exact macHeader_le (p := p) hmac
      · exact ⟨h.iphdr, h.l4hdr, h.payload⟩

/-- What is done where a pointer points to. -/
def onPtr (ptr : Option Nat) (f : Nat → Packet → Packet) (p : Packet) : Packet :=
  match ptr with
  | none => p
  | some off => f off p

/-- A call behind a pointer is its function. -/
theorem run_forM_ptr {ptr : Option Nat} {f : Nat → Parse Unit} {g : Nat → Packet → Packet}
    (h : ∀ off, ptr = some off → (f off).run p = .ok () (g off p)) : (ptr.forM f).run p = .ok () (onPtr ptr g p) := by
  cases ptr with
  | none => rfl
  | some off => exact h off rfl

/-- The IP header is marked. -/
def ipDone (p : Packet) : Packet := { p with iphdrParsed := true }

/-- The ports are marked. -/
def portsDone (p : Packet) : Packet := { p with portsParsed := true }

/-- TCP is marked. -/
def tcpDone (p : Packet) : Packet := { p with l4hdrParsed := true }

/-- The IP header is read, as a function. -/
def readIp (iphoff : Nat) (p : Packet) : Packet :=
  if sizeofIp4hdr ≤ p.caplen - iphoff then
    let q := setIp (p.slice iphoff sizeofIp4hdr) p
    if q.iphlen.toNat ≤ p.caplen - iphoff then { q with l4hdrPtr := some (iphoff + q.iphlen.toNat) } else q
  else { p with pkttype := kPktTypeRuntL3, portsParsed := true, l4hdrParsed := true }

/-- What the IP header is not read into stays as it is. -/
theorem frame_readIp {α : Type} (f : Packet → α) (hset : ∀ iph q, f (setIp iph q) = f q)
    (hl4hdr : ∀ (q : Packet) off, f { q with l4hdrPtr := some off } = f q)
    (hrunt : ∀ q : Packet, f { q with pkttype := kPktTypeRuntL3, portsParsed := true, l4hdrParsed := true } = f q) (iphoff : Nat) (q : Packet) :
    f (readIp iphoff q) = f q := by
  unfold readIp
  split
  · dsimp only
    split
    · rw [hl4hdr, hset]
    · exact hset _ q
  · exact hrunt q

/-- The IP header is read inside of what was captured. -/
theorem run_readIphdr {iphoff : Nat} (hoff : iphoff ≤ p.caplen) : (readIphdr iphoff).run p = .ok () (readIp iphoff p) := by
  unfold readIphdr readIp
  rw [Exn.run_bind_of_ok (run_left hoff)]
  by_cases hlen : sizeofIp4hdr ≤ p.caplen - iphoff
  · have hleft : (left iphoff).run (setIp (p.slice iphoff sizeofIp4hdr) p) = .ok (p.caplen - iphoff) _ := run_left hoff
    unfold sizeofIp4hdr at hlen hleft ⊢
    rw [if_pos hlen, if_pos hlen, Exn.run_bind_of_ok (run_load (by omega)), run_modify_bind, run_get_bind, Exn.run_bind_of_ok hleft]
    dsimp only
    split
    · rfl
    · rfl
  · rw [if_neg hlen, if_neg hlen]
    rfl

/-- The parser of the IP header, as a function. -/
def ip (p : Packet) : Packet :=
  if p.iphdrParsed then p else ipDone (onPtr p.mac.iphdrPtr readIp p.mac)

/-- The parser of the IP header is its function. -/
theorem run_parseIphdr (h : p.InBounds) : parseIphdr.run p = .ok () p.ip := by
  unfold parseIphdr ip
  rw [run_get_bind]
  by_cases hparsed : p.iphdrParsed = true
  · rw [if_pos hparsed, if_pos hparsed]
    rfl
  · rw [if_neg hparsed, if_neg hparsed, Exn.run_bind_of_ok run_parseMac, run_get_bind,
      Exn.run_bind_of_ok (run_forM_ptr fun off hoff => run_readIphdr (h.mac.iphdr off hoff))]
    rfl

/-- The read IP header keeps the offsets inside. -/
theorem InBounds.readIp (h : p.InBounds) {iphoff : Nat} (hoff : iphoff ≤ p.caplen) : (Packet.readIp iphoff p).InBounds := by
  unfold Packet.readIp
  split
  · dsimp only
    split
    · rename_i hlen
      refine ⟨h.iphdr, fun off hoff' => ?_, h.payload⟩
      cases hoff'
      simp only [setIp, caplen] at hlen hoff ⊢
      omega
    · exact ⟨h.iphdr, h.l4hdr, h.payload⟩
  · exact ⟨h.iphdr, h.l4hdr, h.payload⟩

/-- The IP header keeps the offsets inside. -/
theorem InBounds.ip (h : p.InBounds) : p.ip.InBounds := by
  unfold Packet.ip
  split
  · exact h
  · have hm := h.mac
    generalize p.mac = m at hm
    cases hptr : m.iphdrPtr with
    | none => exact ⟨hm.iphdr, hm.l4hdr, hm.payload⟩
    | some off =>
      have hread := hm.readIp (hm.iphdr off hptr)
      exact ⟨hread.iphdr, hread.l4hdr, hread.payload⟩

/-! ## The ports -/

/-- UDP is read, as a function. -/
def readUdp (l4hoff : Nat) (p : Packet) : Packet :=
  if sizeofUdphdr ≤ p.caplen - l4hoff then setPayload l4hoff sizeofUdphdr (setUdplen (p.slice l4hoff sizeofUdphdr) p) else p

/-- The ports are read, as a function. -/
def readPort (l4hoff : Nat) (p : Packet) : Packet :=
  if p.key.proto = kTCP ∨ p.key.proto = kUDP then
    if sizeofPorthdr ≤ p.caplen - l4hoff then
      let q := setPorts (p.slice l4hoff sizeofPorthdr) p
      if p.key.proto = kUDP then readUdp l4hoff q else q
    else { p with pkttype := kPktTypeRuntL4, l4hdrParsed := true }
  else p

/-- The ports are read inside of what was captured. -/
theorem run_readPorts {l4hoff : Nat} (hoff : l4hoff ≤ p.caplen) : (readPorts l4hoff).run p = .ok () (readPort l4hoff p) := by
  unfold readPorts readPort
  rw [run_get_bind]
  by_cases hproto : p.key.proto = kTCP ∨ p.key.proto = kUDP
  · rw [if_pos hproto, if_pos hproto, Exn.run_bind_of_ok (run_left hoff)]
    by_cases hlen : sizeofPorthdr ≤ p.caplen - l4hoff
    · unfold sizeofPorthdr at hlen ⊢
      rw [if_pos hlen, if_pos hlen, Exn.run_bind_of_ok (run_load (by omega)), run_modify_bind]
      dsimp only
      by_cases hudp : p.key.proto = kUDP
      · have hleft : (left l4hoff).run (setPorts (p.slice l4hoff 4) p) = .ok (p.caplen - l4hoff) _ := run_left hoff
        rw [if_pos hudp, if_pos hudp, Exn.run_bind_of_ok hleft]
        unfold readUdp
        by_cases hudplen : sizeofUdphdr ≤ p.caplen - l4hoff
        · have hload : (load l4hoff sizeofUdphdr).run (setPorts (p.slice l4hoff 4) p) = .ok (p.slice l4hoff sizeofUdphdr) _ :=
            run_load (p := setPorts (p.slice l4hoff 4) p) (by
              unfold sizeofUdphdr at hudplen ⊢
              simp only [setPorts, caplen] at hudplen hoff ⊢
              omega)
          rw [if_pos hudplen, Exn.run_bind_of_ok hload, if_pos (show sizeofUdphdr ≤ (setPorts (p.slice l4hoff 4) p).caplen - l4hoff from hudplen)]
          rfl
        · rw [if_neg hudplen, if_neg (show ¬sizeofUdphdr ≤ (setPorts (p.slice l4hoff 4) p).caplen - l4hoff from hudplen)]
          rfl
      · rw [if_neg hudp, if_neg hudp]
        rfl
    · rw [if_neg hlen, if_neg hlen]
      rfl
  · rw [if_neg hproto, if_neg hproto]
    rfl

/-- The parser of the ports, as a function. -/
def ports (p : Packet) : Packet := if p.portsParsed then p else portsDone (onPtr p.ip.l4hdrPtr readPort p.ip)

/-- The parser of the ports is its function. -/
theorem run_parsePorts (h : p.InBounds) : parsePorts.run p = .ok () p.ports := by
  unfold parsePorts ports
  rw [run_get_bind]
  by_cases hparsed : p.portsParsed = true
  · rw [if_pos hparsed, if_pos hparsed]
    rfl
  · rw [if_neg hparsed, if_neg hparsed, Exn.run_bind_of_ok (run_parseIphdr h), run_get_bind,
      Exn.run_bind_of_ok (run_forM_ptr fun off hoff => run_readPorts (h.ip.l4hdr off hoff))]
    rfl

/-! ## The TCP header -/

/-- TCP is read, as a function. -/
def readTcp (tcphoff : Nat) (p : Packet) : Packet :=
  if p.key.proto = kTCP then
    if sizeofTcphdr ≤ p.caplen - tcphoff then
      let q := setTcp (p.slice tcphoff sizeofTcphdr) p
      if q.tcphlen.toNat ≤ p.caplen - tcphoff then setPayload tcphoff q.tcphlen.toNat q else q
    else { p with pkttype := kPktTypeRuntL4 }
  else p

/-- TCP is read inside of what was captured. -/
theorem run_readTcphdr {tcphoff : Nat} (hoff : tcphoff ≤ p.caplen) : (readTcphdr tcphoff).run p = .ok () (readTcp tcphoff p) := by
  unfold readTcphdr readTcp
  rw [run_get_bind]
  by_cases hproto : p.key.proto = kTCP
  · rw [if_pos hproto, if_pos hproto, Exn.run_bind_of_ok (run_left hoff)]
    by_cases hlen : sizeofTcphdr ≤ p.caplen - tcphoff
    · have hleft : (left tcphoff).run (setTcp (p.slice tcphoff sizeofTcphdr) p) = .ok (p.caplen - tcphoff) _ := run_left hoff
      unfold sizeofTcphdr at hlen hleft ⊢
      rw [if_pos hlen, if_pos hlen, Exn.run_bind_of_ok (run_load (by omega)), run_modify_bind, run_get_bind, Exn.run_bind_of_ok hleft]
      dsimp only
      split
      · rfl
      · rfl
    · rw [if_neg hlen, if_neg hlen]
      rfl
  · rw [if_neg hproto, if_neg hproto]
    rfl

/-- The parser of TCP, as a function. -/
def tcp (p : Packet) : Packet := if p.l4hdrParsed then p else tcpDone (onPtr p.ip.l4hdrPtr readTcp p.ip)

/-- The parser of TCP is its function. -/
theorem run_parseTcphdr (h : p.InBounds) : parseTcphdr.run p = .ok () p.tcp := by
  unfold parseTcphdr tcp
  rw [run_get_bind]
  by_cases hparsed : p.l4hdrParsed = true
  · rw [if_pos hparsed, if_pos hparsed]
    rfl
  · rw [if_neg hparsed, if_neg hparsed, Exn.run_bind_of_ok (run_parseIphdr h), run_get_bind,
      Exn.run_bind_of_ok (run_forM_ptr fun off hoff => run_readTcphdr (h.ip.l4hdr off hoff))]
    rfl

/-! ## The pointers after the later parsers -/

/-- A payload inside keeps the offsets inside. -/
theorem InBounds.setPayload (h : p.InBounds) {l4hoff n : Nat} (hn : l4hoff + n ≤ p.caplen) : (Packet.setPayload l4hoff n p).InBounds := by
  refine ⟨h.iphdr, h.l4hdr, fun off hoff => ?_⟩
  cases hoff
  exact hn

/-- The read ports keep the offsets inside. -/
theorem InBounds.readPort (h : p.InBounds) {l4hoff : Nat} (hoff : l4hoff ≤ p.caplen) : (Packet.readPort l4hoff p).InBounds := by
  have hports : (setPorts (p.slice l4hoff sizeofPorthdr) p).InBounds := ⟨h.iphdr, h.l4hdr, h.payload⟩
  unfold Packet.readPort
  split
  · split
    · dsimp only
      split
      · unfold readUdp
        split
        · rename_i hlen
          have hudp : (setUdplen ((setPorts (p.slice l4hoff sizeofPorthdr) p).slice l4hoff sizeofUdphdr)
              (setPorts (p.slice l4hoff sizeofPorthdr) p)).InBounds := ⟨h.iphdr, h.l4hdr, h.payload⟩
          refine hudp.setPayload ?_
          unfold sizeofUdphdr at hlen ⊢
          simp only [setUdplen, setPorts, caplen] at hlen hoff ⊢
          omega
        · exact hports
      · exact hports
    · exact ⟨h.iphdr, h.l4hdr, h.payload⟩
  · exact h

/-- The ports keep the offsets inside. -/
theorem InBounds.ports (h : p.InBounds) : p.ports.InBounds := by
  unfold Packet.ports
  split
  · exact h
  · have hip := h.ip
    generalize p.ip = m at hip
    cases hptr : m.l4hdrPtr with
    | none => exact ⟨hip.iphdr, hip.l4hdr, hip.payload⟩
    | some off =>
      have hread := hip.readPort (hip.l4hdr off hptr)
      exact ⟨hread.iphdr, hread.l4hdr, hread.payload⟩

/-- The read TCP header keeps the offsets inside. -/
theorem InBounds.readTcp (h : p.InBounds) {tcphoff : Nat} (hoff : tcphoff ≤ p.caplen) : (Packet.readTcp tcphoff p).InBounds := by
  have htcp : (setTcp (p.slice tcphoff sizeofTcphdr) p).InBounds := ⟨h.iphdr, h.l4hdr, h.payload⟩
  unfold Packet.readTcp
  split
  · split
    · dsimp only
      split
      · rename_i hlen
        refine htcp.setPayload ?_
        simp only [setTcp, caplen] at hlen hoff ⊢
        omega
      · exact htcp
    · exact ⟨h.iphdr, h.l4hdr, h.payload⟩
  · exact h

/-- TCP keeps the offsets inside. -/
theorem InBounds.tcp (h : p.InBounds) : p.tcp.InBounds := by
  unfold Packet.tcp
  split
  · exact h
  · have hip := h.ip
    generalize p.ip = m at hip
    cases hptr : m.l4hdrPtr with
    | none => exact ⟨hip.iphdr, hip.l4hdr, hip.payload⟩
    | some off =>
      have hread := hip.readTcp (hip.l4hdr off hptr)
      exact ⟨hread.iphdr, hread.l4hdr, hread.payload⟩

/-! ## One parser after another -/

/-- A packet for which no parser has run. -/
structure Fresh (p : Packet) : Prop where
  iphdr : p.iphdrPtr = none
  l4hdr : p.l4hdrPtr = none
  payload : p.l4payloadPtr = none
  key : p.key = ⟨0, 0, 0, 0, 0⟩
  machdrParsed : p.machdrParsed = false
  iphdrParsed : p.iphdrParsed = false
  portsParsed : p.portsParsed = false
  l4hdrParsed : p.l4hdrParsed = false
  payloadLen : p.payloadLen = 0

/-- A new packet is fresh. -/
theorem fresh_new (memory : Packet) (buffer : ConstBuffer) (macType : Int) : (Packet.new memory buffer macType).Fresh :=
  ⟨rfl, rfl, rfl, rfl, rfl, rfl, rfl, rfl, rfl⟩

/-- The offsets of a fresh packet are inside. -/
theorem Fresh.inBounds (h : p.Fresh) : p.InBounds := by
  refine ⟨fun off hoff => ?_, fun off hoff => ?_, fun off hoff => ?_⟩
  · rw [h.iphdr] at hoff
    cases hoff
  · rw [h.l4hdr] at hoff
    cases hoff
  · rw [h.payload] at hoff
    cases hoff

/-- A MAC header that was parsed stays. -/
theorem mac_of_parsed (h : p.machdrParsed = true) : p.mac = p := by
  unfold mac
  rw [if_pos h]

/-- An IP header that was parsed stays. -/
theorem ip_of_parsed (h : p.iphdrParsed = true) : p.ip = p := by
  unfold ip
  rw [if_pos h]

/-- Ports that were parsed stay. -/
theorem ports_of_parsed (h : p.portsParsed = true) : p.ports = p := by
  unfold ports
  rw [if_pos h]

/-- TCP that was parsed stays. -/
theorem tcp_of_parsed (h : p.l4hdrParsed = true) : p.tcp = p := by
  unfold tcp
  rw [if_pos h]

/-- What `parse_mac` leaves of a fresh packet: an IP header to parse, or nothing. -/
theorem Fresh.mac_cases (h : p.Fresh) :
    (∃ off, p.macHeader = some (kPktTypeIP4, off) ∧
      p.mac = { p with pkttype := kPktTypeIP4, iphdrPtr := some off, machdrParsed := true }) ∨
    ((∀ off, p.macHeader ≠ some (kPktTypeIP4, off)) ∧ ∃ type, p.mac = p.closed type) := by
  have hmac : p.mac = match p.macHeader with
      | none => p.closed kPktTypeRuntL2
      | some (type, off) =>
        if type = kPktTypeIP4 then { p with pkttype := type, iphdrPtr := some off, machdrParsed := true } else p.closed type := by
    unfold Packet.mac
    rw [if_neg (by simp [h.machdrParsed])]
  cases hheader : p.macHeader with
  | none =>
    rw [hheader] at hmac
    exact Or.inr ⟨fun off hoff => (by cases hoff), kPktTypeRuntL2, hmac⟩
  | some r =>
    obtain ⟨type, off⟩ := r
    rw [hheader] at hmac
    dsimp only at hmac
    by_cases htype : type = kPktTypeIP4
    · rw [if_pos htype, htype] at hmac
      exact Or.inl ⟨off, by rw [htype], hmac⟩
    · rw [if_neg htype] at hmac
      refine Or.inr ⟨fun off' hoff' => htype ?_, type, hmac⟩
      rw [← (Prod.mk.inj (Option.some.inj hoff')).1]

end Packet

end Blockmon.Messages
