import Cx.Quic.Frame
import Cx.Quic.PacketNumber

/-!
# Packet headers

Header protection makes reading a header two steps: everything up to the packet number can be read
from the protected packet, the rest only after the protection was removed.  Writing is one step.
Fields that delimit a part of the datagram hold the bytes of that part.
-/

namespace Cx.Quic

inductive QuicPktType where
  | initial
  | rtt0
  | handshake
  | retry
  | short
  | versionNeg
  | unknown
deriving DecidableEq, Repr

def QuicPktType.bits : QuicPktType → Nat
  | .initial => 0
  | .rtt0 => 1
  | .handshake => 2
  | .retry => 3
  | .short => 4
  | .versionNeg => 5
  | .unknown => 6

def QuicPktType.ofBits : Nat → QuicPktType
  | 0 => .initial
  | 1 => .rtt0
  | 2 => .handshake
  | _ => .retry

def QUIC_VERSION_1 : Nat := 1

def QUIC_VERSION_NEGOTIATE : Nat := 0

def QUIC_TAG_LEN : Nat := 16

structure QuicPktHdr where
  type : QuicPktType
  pnLen : Nat
  /-- Width the Length field is pinned to when it is written, or zero. -/
  lenSize : Nat
  keyPhase : Bool
  spin : Bool
  version : Nat
  dcid : List UInt8
  scid : List UInt8
  token : List UInt8
  tag : Option (List UInt8)
  pn : Nat
  pnEnc : Nat
  len : Nat
  pnOff : Nat
  /-- Length of the packet, which may be one of several in a datagram. -/
  pktLen : Nat
  /-- What follows the packet number, or the list of a Version Negotiation packet. -/
  payload : List UInt8
deriving DecidableEq, Repr

def quicPktHdrZero : QuicPktHdr :=
  ⟨.initial, 0, 0, false, false, 0, [], [], [], none, 0, 0, 0, 0, 0, []⟩

/-- Read a connection ID that is preceded by its length. -/
def hdrRdCid (rd : QuicRd) : Option (List UInt8) × QuicRd :=
  let (n, rd) := quicRd8 rd
  if rd.bad ∨ n > QUIC_MAX_CID then (none, rd)
  else quicRdBytes rd n

def hdrDecodeShort (pkt : List UInt8) (b0 dcidLen : Nat) (rd : QuicRd) : Option QuicPktHdr :=
  if b0 &&& 0x40 = 0 ∨ dcidLen > QUIC_MAX_CID then none
  else
    match quicRdBytes rd dcidLen with
    | (none, _) => none
    | (some dcid, rd) =>
      let pnOff := pkt.length - rd.data.length
      let len := pkt.length - pnOff
      if len ≥ 1 + QUIC_TAG_LEN then
        some { quicPktHdrZero with
          type := .short, dcid := dcid, spin := b0 &&& 0x20 ≠ 0, pnOff := pnOff,
          pktLen := pkt.length, len := len }
      else none

/-- Read the Length field of a long header, the last before the packet number. -/
def hdrDecodeLength (pkt : List UInt8) (h : QuicPktHdr) (rd : QuicRd) : Option QuicPktHdr :=
  let (plen, rd) := quicRdVarint rd
  if rd.bad ∨ plen > quicRdLeft rd then none
  else
    let pnOff := pkt.length - rd.data.length
    if plen ≥ 1 + QUIC_TAG_LEN then
      some { h with len := plen, pnOff := pnOff, pktLen := pnOff + plen }
    else none

/-- Read the part of a long header that depends on its version and type. -/
def hdrDecodeLong (pkt : List UInt8) (b0 : Nat) (h : QuicPktHdr) (rd : QuicRd) :
    Option QuicPktHdr :=
  if h.version = QUIC_VERSION_NEGOTIATE then
    if rd.data.length > 0 ∧ rd.data.length % 4 = 0 then
      some { h with type := .versionNeg, payload := rd.data, pktLen := pkt.length }
    else none
  else if h.version ≠ QUIC_VERSION_1 then some { h with type := .unknown, pktLen := pkt.length }
  else if b0 &&& 0x40 = 0 then none
  else
    match QuicPktType.ofBits (b0 >>> 4 &&& 0x03) with
    | .retry =>
      let left := quicRdLeft rd
      if left < QUIC_TAG_LEN then none
      else
        some { h with
          type := .retry, token := rd.data.take (left - QUIC_TAG_LEN),
          tag := some (rd.data.drop (left - QUIC_TAG_LEN)), pktLen := pkt.length }
    | .initial =>
      match quicRdVarintBytes rd with
      | (none, _) => none
      | (some token, rd) => hdrDecodeLength pkt { h with type := .initial, token := token } rd
    | type => hdrDecodeLength pkt { h with type := type } rd

/-- Read a header up to the packet number, which is still protected.  A short header does not say
how long its connection ID is. -/
def quicHdrDecode (pkt : List UInt8) (dcidLen : Nat) : Option QuicPktHdr :=
  let (b0, rd) := quicRd8 (quicRdInit pkt)
  if rd.bad then none
  else if b0 &&& 0x80 = 0 then hdrDecodeShort pkt b0 dcidLen rd
  else
    let (version, rd) := quicRdInt rd 4
    match hdrRdCid rd with
    | (none, _) => none
    | (some dcid, rd) =>
      match hdrRdCid rd with
      | (none, _) => none
      | (some scid, rd) =>
        hdrDecodeLong pkt b0
          { quicPktHdrZero with version := version, dcid := dcid, scid := scid } rd

def QuicPktType.numbered : QuicPktType → Bool
  | .short | .initial | .rtt0 | .handshake => true
  | .retry | .versionNeg | .unknown => false

/-- Read the packet number and the payload of a packet whose protection was removed. -/
def quicHdrDecodePN (h : QuicPktHdr) (pkt : List UInt8) (largestPn : Option Nat) :
    Option QuicPktHdr :=
  if !h.type.numbered then none
  else
    let b0 := (pkt.headD 0).toNat
    let reserved := if h.type = .short then 0x18 else 0x0c
    if b0 &&& reserved ≠ 0 then none
    else
      let pnLen := (b0 &&& 0x03) + 1
      if h.len < pnLen + QUIC_TAG_LEN then none
      else
        let (pnEnc, rd) := quicRdInt (quicRdInit ((pkt.drop h.pnOff).take pnLen)) pnLen
        if rd.bad then none
        else
          some { h with
            keyPhase := if h.type = .short then b0 &&& 0x04 ≠ 0 else h.keyPhase
            pnLen := pnLen
            pnEnc := pnEnc
            pn := quicPnDecode largestPn pnEnc pnLen
            payload := (pkt.drop (h.pnOff + pnLen)).take (h.len - pnLen) }

/-- Width of the Length field: what the sender pinned, or the shortest; zero when the value does not
fit. -/
def hdrLenSize (h : QuicPktHdr) : Nat :=
  if h.lenSize = 0 then quicVarintSize h.len
  else if quicVarintSize h.len ≠ 0 ∧ h.lenSize ≥ quicVarintSize h.len then h.lenSize
  else 0

def hdrFirstByte (h : QuicPktHdr) : Nat :=
  match h.type with
  | .short =>
    0x40 ||| (if h.spin then 0x20 else 0) ||| (if h.keyPhase then 0x04 else 0) ||| (h.pnLen - 1)
  | .versionNeg => 0x80
  | .retry => 0xc0 ||| QuicPktType.retry.bits <<< 4
  | type => 0xc0 ||| type.bits <<< 4 ||| (h.pnLen - 1)

/-- Number of bytes of a long header with a packet number, or zero if it cannot be written. -/
def hdrLongSize (h : QuicPktHdr) : Nat :=
  if h.pnLen < 1 ∨ h.pnLen > 4 then 0
  else
    let ls := hdrLenSize h
    if ls = 0 then 0
    else
      let sz := 1 + 4 + 1 + h.dcid.length + 1 + h.scid.length + ls + h.pnLen
      if h.type = .initial then
        let ts := quicVarintSize h.token.length
        if ts = 0 then 0 else sz + (ts + h.token.length)
      else sz

/-- Number of bytes a header takes, or zero if it cannot be written. -/
def quicHdrSize (h : QuicPktHdr) : Nat :=
  if h.dcid.length > QUIC_MAX_CID ∨ h.scid.length > QUIC_MAX_CID then 0
  else
    match h.type with
    | .short => if h.pnLen < 1 ∨ h.pnLen > 4 then 0 else 1 + h.dcid.length + h.pnLen
    | .versionNeg => 1 + 4 + 1 + h.dcid.length + 1 + h.scid.length
    | .retry =>
      1 + 4 + 1 + h.dcid.length + 1 + h.scid.length + h.token.length + QUIC_TAG_LEN
    | .initial | .rtt0 | .handshake => hdrLongSize h
    | .unknown => 0

def hdrEncodeLong (wr : QuicWr) (h : QuicPktHdr) : QuicWr :=
  let wr := quicWrInt wr
    (if h.type = .versionNeg then QUIC_VERSION_NEGOTIATE else h.version) 4
  let wr := quicWrBytes (quicWr8 wr h.dcid.length) h.dcid
  quicWrBytes (quicWr8 wr h.scid.length) h.scid

/-- Write an unprotected header with its packet number; the flag says whether that worked. -/
def quicHdrEncode (wr : QuicWr) (h : QuicPktHdr) : Bool × QuicWr :=
  if quicHdrSize h = 0 then (false, wr)
  else
    let wr := quicWr8 wr (hdrFirstByte h)
    match h.type with
    | .short =>
      let wr := quicWrInt (quicWrBytes wr h.dcid) h.pnEnc h.pnLen
      (!wr.bad, wr)
    | .versionNeg =>
      let wr := hdrEncodeLong wr h
      (!wr.bad, wr)
    | .retry =>
      let wr := hdrEncodeLong wr h
      match h.tag with
      | none => (false, wr)
      | some tag =>
        let wr := quicWrBytes (quicWrBytes wr h.token) tag
        (!wr.bad, wr)
    | type =>
      let wr := hdrEncodeLong wr h
      let wr := if type = .initial then quicWrVarintBytes wr h.token else wr
      let wr := quicWrInt (quicWrVarintSized wr h.len (hdrLenSize h)) h.pnEnc h.pnLen
      (!wr.bad, wr)

end Cx.Quic
