/-
# Wk.Fabric.Datagrams -- the frames of the multicast bridge

The bridge takes the datagram out of a frame of the fabric (`parseUdp4`) and wraps one from
the host in a frame (`buildUdp4`).  The views of IPv4 and UDP packets are the TCP/IP
library's: what they do is `Documented`, an accessor that panics is `none`.

* `parse_total`: parsing panics on no frame.
* `parse_build`: what is built is parsed back.
* `parse_packet_iff`: of a packet with options the octets are taken from the wrong place,
  and that shows unless the payload repeats what is there.

Pole: `options_shift` (a packet with one word of options).
-/
import Wk.Library.Octets
import Wk.Fabric

namespace Wk.Fabric

open Wk.Library

set_option autoImplicit false

/-! ## The packet views of the library -/

namespace Ipv4

def octets (a : Ipv4) : Bytes := [a.o0, a.o1, a.o2, a.o3]

/-- The address at offset `i`. -/
def at? (b : Bytes) (i : Nat) : Option Ipv4 := do
  return ⟨← b[i]?, ← b[i + 1]?, ← b[i + 2]?, ← b[i + 3]?⟩

end Ipv4

/-- The protocol number of UDP. -/
def protoUdp : UInt8 := 17

def ipv4HeaderLen : Nat := 20

def udpHeaderLen : Nat := 8

structure Ipv4Repr where
  srcAddr : Ipv4
  dstAddr : Ipv4
  nextHeader : UInt8
  payloadLen : Nat
  hopLimit : UInt8

structure UdpRepr where
  srcPort : UInt16
  dstPort : UInt16

/-- The packet views: a check, accessors that may panic, and what emits a header. -/
structure WireLib where
  ipv4Checked : Bytes → Bool
  nextHeader : Bytes → Option UInt8
  dstAddr : Bytes → Option Ipv4
  payload : Bytes → Option Bytes
  udpChecked : Bytes → Bool
  dstPort : Bytes → Option UInt16
  udpLen : Bytes → Option Nat
  ipv4Emit : Ipv4Repr → Bytes → Bytes
  /-- The packet once its payload was written to. -/
  payloadMut : Bytes → (Bytes → Bytes) → Bytes
  /-- The header and the payload of a datagram between two addresses. -/
  udpEmit : UdpRepr → Ipv4 → Ipv4 → Bytes → Bytes → Bytes

/-- The header length field of an IPv4 packet, in octets. -/
def headerLen (b : Bytes) : Option Nat := b[0]?.map fun v => 4 * (v &&& 0x0f).toNat

/-- The total length field. -/
def totalLen (b : Bytes) : Option Nat := u16At b 2

/-- What the library documents: a check passes where the lengths are within the buffer, and
then no accessor panics and each gives its field. -/
structure WireLib.Documented (lib : WireLib) : Prop where
  ipv4Checked : ∀ b, lib.ipv4Checked b = true ↔ ipv4HeaderLen ≤ b.length ∧
    ∃ h t, headerLen b = some h ∧ totalLen b = some t ∧ h ≤ t ∧ t ≤ b.length
  nextHeader : ∀ b, lib.ipv4Checked b = true → lib.nextHeader b = b[9]?
  dstAddr : ∀ b, lib.ipv4Checked b = true → lib.dstAddr b = Ipv4.at? b 16
  payload : ∀ b h t, headerLen b = some h → totalLen b = some t → lib.payload b = slice b h t
  udpChecked : ∀ b, lib.udpChecked b = true ↔ udpHeaderLen ≤ b.length ∧
    ∃ n, u16At b 4 = some n ∧ udpHeaderLen ≤ n ∧ n ≤ b.length
  dstPort : ∀ b, lib.udpChecked b = true → lib.dstPort b = (u16At b 2).map UInt16.ofNat
  udpLen : ∀ b, lib.udpChecked b = true → lib.udpLen b = u16At b 4
  ipv4Emit : ∀ repr b, b.length = ipv4HeaderLen + repr.payloadLen → b.length < 65536 →
    ∃ header, lib.ipv4Emit repr b = header ++ b.drop ipv4HeaderLen ∧ header.length = ipv4HeaderLen ∧
      headerLen header = some ipv4HeaderLen ∧ totalLen header = some b.length ∧
      header[9]? = some repr.nextHeader ∧ Ipv4.at? header 12 = some repr.srcAddr ∧
      Ipv4.at? header 16 = some repr.dstAddr
  payloadMut : ∀ b h t f, headerLen b = some h → totalLen b = some t → h ≤ t → t ≤ b.length →
    lib.payloadMut b f = b.take h ++ (f ((b.take t).drop h) ++ b.drop t)
  udpEmit : ∀ repr src dst payload b, b.length = udpHeaderLen + payload.length → b.length < 65536 →
    ∃ header, lib.udpEmit repr src dst payload b = header ++ payload ∧ header.length = udpHeaderLen ∧
      u16At header 0 = some repr.srcPort.toNat ∧ u16At header 2 = some repr.dstPort.toNat ∧
      u16At header 4 = some b.length

/-! ## The frames -/

/-- The parts of a UDP-over-IPv4 frame the bridge needs. -/
structure Datagram where
  dst : Ipv4
  dport : UInt16
  payload : Bytes
  deriving DecidableEq, Repr

/-- Pull the datagram out of a frame; the outer `none` is a panic, the inner one a frame
that is no UDP-over-IPv4. -/
def parseUdp4 (lib : WireLib) (frame : Frame) : Option (Option Datagram) :=
  if !lib.ipv4Checked frame then some none
  else do
    let proto ← lib.nextHeader frame
    if proto ≠ protoUdp then return none
    let dst ← lib.dstAddr frame
    let body ← lib.payload frame
    if !lib.udpChecked body then return none
    let dport ← lib.dstPort body
    let len ← lib.udpLen body
    let off := ipv4HeaderLen + 8
    if len < 8 then return none
    return (slice frame off (off + (len - 8))).map fun payload => { dst, dport, payload }

/-- Wrap a datagram from the host in a frame, if the fabric can carry it. -/
def buildUdp4 (lib : WireLib) (src : Ipv4) (sport : UInt16) (dst : Ipv4) (dport : UInt16) (payload : Bytes) :
    Option Frame :=
  if 1280 < payload.length + ipv4HeaderLen + 8 then none
  else
    let ip : Ipv4Repr := { srcAddr := src, dstAddr := dst, nextHeader := protoUdp
                           payloadLen := 8 + payload.length, hopLimit := 64 }
    let frame := lib.ipv4Emit ip (List.replicate (ipv4HeaderLen + ip.payloadLen) 0)
    some (lib.payloadMut frame (lib.udpEmit { srcPort := sport, dstPort := dport } src dst payload))

/-! ## A datagram in a packet -/

/-- A well-formed IPv4 packet, unfragmented, that carries a well-formed UDP datagram. -/
structure Packet where
  tos : UInt8
  ident : UInt16
  dontFragment : Bool
  ttl : UInt8
  checksum : UInt16
  src : Ipv4
  dst : Ipv4
  options : Bytes
  sport : UInt16
  dport : UInt16
  udpChecksum : UInt16
  payload : Bytes
  /-- What follows the datagram within the packet. -/
  padding : Bytes
  words : options.length % 4 = 0
  few : options.length ≤ 40
  fits : 28 + options.length + payload.length + padding.length < 65536

namespace Packet

variable (p : Packet)

def totalLen : Nat := 28 + p.options.length + p.payload.length + p.padding.length

/-- The header, but for the options. -/
def ipHeader : Bytes :=
  [0x45 + UInt8.ofNat (p.options.length / 4), p.tos] ++ (be16 p.totalLen ++
    (be16 p.ident.toNat ++ [if p.dontFragment then 0x40 else 0, 0, p.ttl, protoUdp] ++
      be16 p.checksum.toNat ++ p.src.octets ++ p.dst.octets))

def udpHeader : Bytes :=
  be16 p.sport.toNat ++ (be16 p.dport.toNat ++ (be16 (8 + p.payload.length) ++ be16 p.udpChecksum.toNat))

def bytes : Bytes := p.ipHeader ++ (p.options ++ (p.udpHeader ++ (p.payload ++ p.padding)))

/-- The datagram it carries. -/
def datagram : Datagram := { dst := p.dst, dport := p.dport, payload := p.payload }

/-- The octets from offset 28 up to the payload, as many as the options are. -/
def window : Bytes := (p.options ++ p.udpHeader).drop 8

/-- The payload is the window, over and over. -/
def Repeats : Prop := ∀ i < p.payload.length, p.payload[i]? = p.window[i % p.window.length]?

@[simp] theorem length_ipHeader : p.ipHeader.length = 20 := rfl

@[simp] theorem length_udpHeader : p.udpHeader.length = 8 := rfl

@[simp] theorem length_window : p.window.length = p.options.length := by
  simp [window]

end Packet

/-! ## Reading a header -/

namespace Ipv4

theorem at?_isSome {b : Bytes} {i : Nat} (within : i + 3 < b.length) : (at? b i).isSome = true := by
  have h0 : i < b.length := by omega
  have h1 : i + 1 < b.length := by omega
  have h2 : i + 2 < b.length := by omega
  simp [at?, h0, h1, h2, within]

theorem at?_append {b : Bytes} {i : Nat} (within : i + 3 < b.length) (after : Bytes) : at? (b ++ after) i = at? b i := by
  have h0 : i < b.length := by omega
  have h1 : i + 1 < b.length := by omega
  have h2 : i + 2 < b.length := by omega
  simp [at?, List.getElem?_append_left, h0, h1, h2, within]

end Ipv4

theorem headerLen_append {b : Bytes} (some' : 0 < b.length) (after : Bytes) : headerLen (b ++ after) = headerLen b := by
  simp [headerLen, List.getElem?_append_left some']

section Parsing

variable {lib : WireLib} (doc : lib.Documented)

include doc

/-- A frame that is a checked packet with a checked datagram in it. -/
theorem parse_checked {frame body : Bytes} {h t n : Nat} {dst : Ipv4} {dport : Nat}
    (long : ipv4HeaderLen ≤ frame.length) (header : headerLen frame = some h) (total : totalLen frame = some t)
    (order : h ≤ t) (within : t ≤ frame.length) (proto : frame[9]? = some protoUdp)
    (dest : Ipv4.at? frame 16 = some dst) (inner : slice frame h t = some body)
    (udp : udpHeaderLen ≤ body.length) (port : u16At body 2 = some dport) (len : u16At body 4 = some n)
    (least : udpHeaderLen ≤ n) (most : n ≤ body.length) :
    parseUdp4 lib frame = some ((slice frame 28 (28 + (n - 8))).map fun payload =>
      { dst, dport := UInt16.ofNat dport, payload }) := by
  have checked : lib.ipv4Checked frame = true := (doc.ipv4Checked frame).2 ⟨long, h, t, header, total, order, within⟩
  have checked' : lib.udpChecked body = true := (doc.udpChecked body).2 ⟨udp, n, len, least, most⟩
  have least' : ¬ n < 8 := Nat.not_lt.2 least
  simp [parseUdp4, checked, checked', doc.nextHeader _ checked, doc.dstAddr _ checked, doc.payload _ h t header total,
    doc.dstPort _ checked', doc.udpLen _ checked', proto, dest, inner, port, len, least', ipv4HeaderLen]

/-- **Parsing never panics.** -/
theorem parse_total (frame : Frame) : (parseUdp4 lib frame).isSome = true := by
  unfold parseUdp4
  by_cases checked : lib.ipv4Checked frame = true
  · obtain ⟨long, h, t, header, total, order, within⟩ := (doc.ipv4Checked frame).1 checked
    have nine : 9 < frame.length := lt_of_lt_of_le (by decide) long
    have octets : 16 + 3 < frame.length := lt_of_lt_of_le (by decide) long
    obtain ⟨proto, at_nine⟩ : ∃ proto, frame[9]? = some proto := ⟨_, List.getElem?_eq_getElem nine⟩
    obtain ⟨dst, dest⟩ := Option.isSome_iff_exists.1 (Ipv4.at?_isSome octets)
    obtain ⟨body, inner⟩ : ∃ body, slice frame h t = some body := ⟨_, slice_eq order within⟩
    have opened : lib.nextHeader frame = some proto ∧ lib.dstAddr frame = some dst ∧ lib.payload frame = some body :=
      ⟨(doc.nextHeader _ checked).trans at_nine, (doc.dstAddr _ checked).trans dest,
        (doc.payload _ h t header total).trans inner⟩
    by_cases checked' : lib.udpChecked body = true
    · obtain ⟨udp, n, len, -, -⟩ := (doc.udpChecked _).1 checked'
      have two : 2 + 1 < body.length := lt_of_lt_of_le (by decide) udp
      obtain ⟨dport, port⟩ := Option.isSome_iff_exists.1 (u16At_isSome two)
      have port' : lib.dstPort body = some (UInt16.ofNat dport) := by rw [doc.dstPort _ checked', port]; rfl
      have len' : lib.udpLen body = some n := (doc.udpLen _ checked').trans len
      by_cases udp' : proto = protoUdp <;> by_cases small : n < 8 <;>
        simp [checked, checked', opened, udp', port', len', small]
    · by_cases udp' : proto = protoUdp <;> simp [checked, checked', opened, udp']
  · simp [checked]

end Parsing

/-! ## Packets -/

namespace Packet

variable (p : Packet) (trailing : Bytes)

/-- The header length in a packet's first octet. -/
theorem ihl : ∀ k < 11, 4 * ((0x45 + UInt8.ofNat k) &&& 0x0f).toNat = 20 + 4 * k := by decide

theorem headerLen_bytes : headerLen (p.bytes ++ trailing) = some (20 + p.options.length) := by
  have words := p.words
  have few := p.few
  have first : (p.bytes ++ trailing)[0]? = some (0x45 + UInt8.ofNat (p.options.length / 4)) := rfl
  rw [headerLen, first, Option.map_some, ihl _ (by omega)]
  congr 1
  omega

theorem totalLen_bytes : Fabric.totalLen (p.bytes ++ trailing) = some p.totalLen := by
  have fits : p.totalLen < 65536 := p.fits
  simpa [bytes, ipHeader, Fabric.totalLen] using u16At_be16 fits [0x45 + UInt8.ofNat (p.options.length / 4), p.tos]
    (be16 p.ident.toNat ++ ([if p.dontFragment then 0x40 else 0, 0, p.ttl, protoUdp] ++ (be16 p.checksum.toNat ++
      (p.src.octets ++ (p.dst.octets ++ (p.options ++ (p.udpHeader ++ (p.payload ++ (p.padding ++ trailing)))))))))

theorem dst_bytes : Ipv4.at? (p.bytes ++ trailing) 16 = some p.dst := rfl

theorem length_bytes : p.bytes.length = p.totalLen := by
  simp [bytes, totalLen]
  omega

/-- The body of the packet. -/
theorem body_bytes : slice (p.bytes ++ trailing) (20 + p.options.length) p.totalLen =
    some (p.udpHeader ++ (p.payload ++ p.padding)) := by
  have middle := slice_middle (p.ipHeader ++ p.options) (p.udpHeader ++ (p.payload ++ p.padding)) trailing
  have ends : 20 + p.options.length + (8 + (p.payload.length + p.padding.length)) = p.totalLen := by
    simp [totalLen]
    omega
  simpa [bytes, ends] using middle

/-- What the bridge takes for the payload. -/
theorem taken_bytes : slice (p.bytes ++ trailing) 28 (28 + p.payload.length) =
    some ((p.window ++ p.payload).take p.payload.length) := by
  have long : 28 + p.payload.length ≤ (p.bytes ++ trailing).length := by
    rw [List.length_append, p.length_bytes, totalLen]
    omega
  have behind : (p.bytes ++ trailing).drop 28 = p.window ++ (p.payload ++ (p.padding ++ trailing)) := by
    rw [show p.bytes ++ trailing = p.ipHeader ++ ((p.options ++ p.udpHeader) ++ (p.payload ++ (p.padding ++ trailing))) by
      simp [bytes], List.drop_append, List.drop_eq_nil_of_le (by simp), p.length_ipHeader, List.nil_append,
      List.drop_append_of_le_length (by simp), window]
  have short : p.payload.length ≤ (p.window ++ p.payload).length := by simp
  rw [slice_eq (by omega) long, List.drop_take, behind, Nat.add_sub_cancel_left, ← List.append_assoc,
    List.take_append_of_le_length short]

end Packet

/-- **A frame that is built is parsed back.** -/
theorem parse_build {lib : WireLib} (doc : lib.Documented) (src : Ipv4) (sport : UInt16) (dst : Ipv4) (dport : UInt16)
    {payload : Bytes} (small : payload.length ≤ 1252) :
    ∃ frame, buildUdp4 lib src sport dst dport payload = some frame ∧
      parseUdp4 lib frame = some (some { dst, dport, payload }) := by
  let zeros : Bytes := List.replicate (ipv4HeaderLen + (8 + payload.length)) 0
  let repr : Ipv4Repr :=
    { srcAddr := src, dstAddr := dst, nextHeader := protoUdp, payloadLen := 8 + payload.length, hopLimit := 64 }
  have size : zeros.length = 28 + payload.length := by simp [zeros, ipv4HeaderLen]; omega
  have body : (zeros.drop ipv4HeaderLen).length = 8 + payload.length := by simp [zeros]
  obtain ⟨header, emitted, twenty, ihl, total, proto, -, dest⟩ :=
    doc.ipv4Emit repr zeros (by simp [zeros, repr]) (by omega)
  obtain ⟨udp, written, eight, -, port, len⟩ := doc.udpEmit { srcPort := sport, dstPort := dport } src dst payload
    (zeros.drop ipv4HeaderLen) body (by omega)
  have twenty' : header.length = 20 := twenty
  have eight' : udp.length = 8 := eight
  have open' : lib.payloadMut (header ++ zeros.drop ipv4HeaderLen) (lib.udpEmit { srcPort := sport, dstPort := dport } src dst payload) =
      header ++ (udp ++ payload) := by
    have whole : (header ++ zeros.drop ipv4HeaderLen).length = zeros.length := by
      rw [List.length_append, body, size]
      omega
    rw [doc.payloadMut _ ipv4HeaderLen zeros.length _ ((headerLen_append (by omega) _).trans ihl)
      ((u16At_append (by omega) _).trans total) (by simp [zeros]) whole.ge, ← whole, List.take_length, List.drop_length,
      ← twenty, List.take_left, List.drop_left, List.append_nil, twenty, written]
  refine ⟨header ++ (udp ++ payload), ?_, ?_⟩
  · have fits : ¬ 1280 < payload.length + ipv4HeaderLen + 8 := by simp only [ipv4HeaderLen]; omega
    rw [buildUdp4, if_neg fits]
    exact congrArg some ((congrArg (lib.payloadMut · _) emitted).trans open')
  · have whole : (header ++ (udp ++ payload)).length = zeros.length := by
      rw [List.length_append, List.length_append, size]
      omega
    have middle := slice_middle header (udp ++ payload) []
    have middle' := slice_middle (header ++ udp) payload []
    have ends : header.length + (udp ++ payload).length = zeros.length := by rw [← List.length_append, whole]
    rw [List.append_nil, ends, twenty] at middle
    rw [List.append_nil, List.append_assoc, List.length_append, twenty', eight'] at middle'
    rw [parse_checked doc (by omega) ((headerLen_append (by omega) _).trans ihl) ((u16At_append (by omega) _).trans total)
      (by simp [zeros]) whole.ge (by rw [List.getElem?_append_left (by omega), proto]) ((Ipv4.at?_append (by omega) _).trans dest)
      middle (by simp only [List.length_append, udpHeaderLen]; omega) ((u16At_append (by omega) _).trans port)
      ((u16At_append (by omega) _).trans len) (by rw [body]; simp [udpHeaderLen]) (by rw [body, List.length_append, eight']),
      body, Nat.add_sub_cancel_left, middle']
    simp [repr]

/-- **What comes of a packet**: the datagram it carries, exactly when it has no options or
its payload repeats the octets before it. -/
theorem parse_packet_iff {lib : WireLib} (doc : lib.Documented) (p : Packet) (trailing : Bytes) :
    parseUdp4 lib (p.bytes ++ trailing) = some (some p.datagram) ↔ p.options = [] ∨ p.Repeats := by
  have fits := p.fits
  have parsed : parseUdp4 lib (p.bytes ++ trailing) =
      some (some { p.datagram with payload := (p.window ++ p.payload).take p.payload.length }) := by
    have port : u16At (p.udpHeader ++ (p.payload ++ p.padding)) 2 = some p.dport.toNat := by
      simpa [Packet.udpHeader] using u16At_be16 p.dport.toNat_lt (be16 p.sport.toNat)
        (be16 (8 + p.payload.length) ++ (be16 p.udpChecksum.toNat ++ (p.payload ++ p.padding)))
    have len : u16At (p.udpHeader ++ (p.payload ++ p.padding)) 4 = some (8 + p.payload.length) := by
      simpa [Packet.udpHeader] using u16At_be16 (show 8 + p.payload.length < 65536 by omega)
        (be16 p.sport.toNat ++ be16 p.dport.toNat) (be16 p.udpChecksum.toNat ++ (p.payload ++ p.padding))
    have long : p.totalLen ≤ (p.bytes ++ trailing).length := by simp [p.length_bytes]
    have least : 28 + p.options.length ≤ p.totalLen := by unfold Packet.totalLen; omega
    rw [parse_checked doc (by simp only [ipv4HeaderLen]; omega) (p.headerLen_bytes trailing) (p.totalLen_bytes trailing)
      (by omega) long rfl (p.dst_bytes trailing) (p.body_bytes trailing) (by simp [udpHeaderLen]) port len
      (by simp [udpHeaderLen]) (by simp), Nat.add_sub_cancel_left, p.taken_bytes trailing]
    simp [Packet.datagram]
  have same : (p.window ++ p.payload).take p.payload.length = p.payload ↔ p.payload <+: p.window ++ p.payload :=
    eq_comm.trans List.prefix_iff_eq_take.symm
  rw [parsed]
  simp only [Option.some.injEq, Packet.datagram, Datagram.mk.injEq, true_and, same]
  by_cases none' : p.options = []
  · have empty : p.window = [] := List.length_eq_zero_iff.1 (by simp [none'])
    simp [none', empty]
  · have some' : p.window ≠ [] := fun empty => none' (List.length_eq_zero_iff.1 (by simpa using congrArg List.length empty))
    simp [none', prefix_append_iff some', Packet.Repeats]

/-- **Frames of the bridge**: what is built is parsed back, nothing panics, and a packet gives
its datagram exactly when it has no options or its payload repeats the octets before it. -/
theorem datagrams_exact {lib : WireLib} (doc : lib.Documented) :
    (∀ (src : Ipv4) (sport : UInt16) (dst : Ipv4) (dport : UInt16) (payload : Bytes), payload.length ≤ 1252 →
      ∃ frame, buildUdp4 lib src sport dst dport payload = some frame ∧
        parseUdp4 lib frame = some (some { dst, dport, payload })) ∧
      (∀ frame, (parseUdp4 lib frame).isSome = true) ∧
      ∀ (p : Packet) (trailing : Bytes),
        parseUdp4 lib (p.bytes ++ trailing) = some (some p.datagram) ↔ p.options = [] ∨ p.Repeats :=
  ⟨fun src sport dst dport _ small => parse_build doc src sport dst dport small, parse_total doc,
    parse_packet_iff doc⟩

/-! ## Poles -/

section Poles

/-- The sum of the 16-bit words of a buffer. -/
def wordSum : Bytes → Nat
  | hi :: lo :: rest => 256 * hi.toNat + lo.toNat + wordSum rest
  | [hi] => 256 * hi.toNat
  | [] => 0

/-- The ones' complement sum, its carries folded back in. -/
def onesSum (b : Bytes) : Nat :=
  let once := wordSum b % 65536 + wordSum b / 65536
  once % 65536 + once / 65536

/-- What the sum of a datagram runs over beside it. -/
def pseudoHeader (src dst : Ipv4) (len : Nat) : Bytes := src.octets ++ (dst.octets ++ ([0, protoUdp] ++ be16 len))

/-- The header the library emits, with a given checksum. -/
def emittedHeader (repr : Ipv4Repr) (checksum : Nat) : Bytes :=
  [0x45, 0] ++ (be16 (20 + repr.payloadLen) ++ ([0, 0, 0x40, 0, repr.hopLimit, repr.nextHeader] ++
    (be16 checksum ++ (repr.srcAddr.octets ++ repr.dstAddr.octets))))

def emittedUdp (repr : UdpRepr) (len checksum : Nat) : Bytes :=
  be16 repr.srcPort.toNat ++ (be16 repr.dstPort.toNat ++ (be16 len ++ be16 checksum))

/-- The library. -/
def smoltcp : WireLib where
  ipv4Checked b := match headerLen b, totalLen b with
    | some h, some t => 20 ≤ b.length && h ≤ t && t ≤ b.length
    | _, _ => false
  nextHeader b := b[9]?
  dstAddr b := Ipv4.at? b 16
  payload b := match headerLen b, totalLen b with
    | some h, some t => slice b h t
    | _, _ => none
  udpChecked b := match u16At b 4 with
    | some n => 8 ≤ b.length && 8 ≤ n && n ≤ b.length
    | none => false
  dstPort b := (u16At b 2).map UInt16.ofNat
  udpLen b := u16At b 4
  ipv4Emit repr b := emittedHeader repr (65535 - onesSum (emittedHeader repr 0)) ++ b.drop 20
  payloadMut b f := match headerLen b, totalLen b with
    | some h, some t => b.take h ++ (f ((b.take t).drop h) ++ b.drop t)
    | _, _ => b
  udpEmit repr src dst payload b :=
    let sum := 65535 - onesSum (pseudoHeader src dst b.length ++ (emittedUdp repr b.length 0 ++ payload))
    emittedUdp repr b.length (if sum = 0 then 65535 else sum) ++ payload

theorem smoltcp_documented : smoltcp.Documented where
  ipv4Checked b := by
    cases header : headerLen b <;> cases total : totalLen b <;>
      simp [smoltcp, header, total, ipv4HeaderLen, and_assoc]
  nextHeader _ _ := rfl
  dstAddr _ _ := rfl
  payload b h t header total := by simp [smoltcp, header, total]
  udpChecked b := by cases len : u16At b 4 <;> simp [smoltcp, len, udpHeaderLen, and_assoc]
  dstPort _ _ := rfl
  udpLen _ _ := rfl
  ipv4Emit repr b size small := by
    refine ⟨_, rfl, rfl, rfl, ?_, rfl, rfl, rfl⟩
    rw [size] at small
    simpa [emittedHeader, totalLen, size, ipv4HeaderLen] using u16At_be16 small [0x45, 0]
      ([0, 0, 0x40, 0, repr.hopLimit, repr.nextHeader] ++ (be16 (65535 - onesSum (emittedHeader repr 0)) ++
        (repr.srcAddr.octets ++ repr.dstAddr.octets)))
  payloadMut b h t f header total _ _ := by simp [smoltcp, header, total]
  udpEmit repr src dst payload b size small := by
    refine ⟨_, rfl, rfl, ?_, ?_, ?_⟩
    · exact u16At_be16 repr.srcPort.toNat_lt [] _
    · exact u16At_be16 repr.dstPort.toNat_lt (be16 repr.srcPort.toNat) _
    · simpa [emittedUdp] using u16At_be16 small (be16 repr.srcPort.toNat ++ be16 repr.dstPort.toNat) _

/-- `hello!` to port 7400 of a group, with one word of options. -/
def greeting : Packet where
  tos := 0
  ident := 0
  dontFragment := true
  ttl := 64
  checksum := 15812
  src := { o0 := 10, o1 := 0, o2 := 0, o3 := 2 }
  dst := { o0 := 239, o1 := 255, o2 := 0, o3 := 1 }
  options := [1, 1, 1, 0]
  sport := 7400
  dport := 7400
  udpChecksum := 34828
  payload := [104, 101, 108, 108, 111, 33]
  padding := []
  words := by decide
  few := by decide
  fits := by decide

theorem datagrams_exact_greeting :
    (∃ frame, buildUdp4 smoltcp greeting.src 7400 greeting.dst 7400 greeting.payload = some frame ∧
        parseUdp4 smoltcp frame = some (some greeting.datagram)) ∧
      (parseUdp4 smoltcp [0x4f, 0, 0, 60]).isSome = true ∧
      (parseUdp4 smoltcp (greeting.bytes ++ [0, 0]) = some (some greeting.datagram) ↔
        greeting.options = [] ∨ greeting.Repeats) := by
  obtain ⟨built, total, packets⟩ := datagrams_exact smoltcp_documented
  exact ⟨built _ _ _ _ _ (by decide), total _, packets _ _⟩

/-- The sums of the greeting check, and the bridge takes its last header octets for payload. -/
theorem options_shift : smoltcp.Documented ∧ onesSum (greeting.ipHeader ++ greeting.options) = 65535 ∧
    onesSum (pseudoHeader greeting.src greeting.dst 14 ++ (greeting.udpHeader ++ greeting.payload)) = 65535 ∧
    parseUdp4 smoltcp greeting.bytes = some (some { greeting.datagram with payload := [0, 14, 136, 12, 104, 101] }) ∧
    parseUdp4 smoltcp greeting.bytes ≠ some (some greeting.datagram) := by
  refine ⟨smoltcp_documented, by decide, by decide, by decide, by decide⟩

end Poles

end Wk.Fabric
