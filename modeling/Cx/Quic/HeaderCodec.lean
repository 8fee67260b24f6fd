import Cx.Quic.FrameCodec
import Cx.Quic.Header

/-!
# Headers survive the wire

A header is written as a start, which is readable while the packet is protected, and the packet
number.  The reader finds the same fields and the same offsets, so that the packets of a datagram
are told apart where the sender put them together.
-/

namespace Cx.Quic

open List

def cidBytes (cid : List UInt8) : List UInt8 := quicBytesOf cid.length 1 ++ cid

def hdrLongBytes (version : Nat) (h : QuicPktHdr) : List UInt8 :=
  quicBytesOf version 4 ++ (cidBytes h.dcid ++ cidBytes h.scid)

def hdrTokenBytes (h : QuicPktHdr) : List UInt8 :=
  if h.type = .initial then varintBytes h.token.length ++ h.token else []

def hdrFieldBytes (h : QuicPktHdr) : List UInt8 :=
  if h.type = .short then h.dcid
  else hdrLongBytes h.version h ++ (hdrTokenBytes h ++ quicVarintBytes h.len (hdrLenSize h))

/-- Everything up to the packet number. -/
def hdrStart (h : QuicPktHdr) : List UInt8 := quicBytesOf (hdrFirstByte h) 1 ++ hdrFieldBytes h

/-- The packet is one that the sender writes, with the payload that follows its header, and that a
receiver with connection IDs of the given length reads. -/
structure QuicPktHdr.Formed (dcidLen : Nat) (h : QuicPktHdr) (payload : List UInt8) : Prop where
  numbered : h.type.numbered = true
  version_eq : h.type ≠ .short → h.version = QUIC_VERSION_1
  dcid_le : h.dcid.length ≤ QUIC_MAX_CID
  scid_le : h.scid.length ≤ QUIC_MAX_CID
  /-- A short header goes to a connection ID of the length that the receiver issues. -/
  dcid_length : h.type = .short → h.dcid.length = dcidLen
  token_fits : h.type = .initial → FitsVarint h.token.length
  pnLen_pos : 1 ≤ h.pnLen
  pnLen_le : h.pnLen ≤ 4
  pnEnc_lt : h.pnEnc < 256 ^ h.pnLen
  len_eq : h.len = h.pnLen + payload.length
  payload_length : QUIC_TAG_LEN ≤ payload.length
  len_lt : h.type ≠ .short → h.len < 2 ^ 14
  lenSize_eq : h.type ≠ .short → h.lenSize = 0 ∨ h.lenSize = 2

theorem long_type {type : QuicPktType} (numbered : type.numbered = true) (long : type ≠ .short) :
    type = .initial ∨ type = .rtt0 ∨ type = .handshake := by
  cases type <;> simp [QuicPktType.numbered] at numbered long ⊢

variable {h : QuicPktHdr}

theorem firstByte_long (numbered : h.type.numbered = true)
    (long : h.type ≠ .short) (pnLen_pos : 1 ≤ h.pnLen) (pnLen_le : h.pnLen ≤ 4) :
    hdrFirstByte h < 256 ∧ hdrFirstByte h &&& 0x80 ≠ 0 ∧ hdrFirstByte h &&& 0x40 ≠ 0 ∧
      QuicPktType.ofBits (hdrFirstByte h >>> 4 &&& 0x03) = h.type ∧
      hdrFirstByte h &&& 0x0c = 0 ∧ (hdrFirstByte h &&& 0x03) + 1 = h.pnLen := by
  unfold hdrFirstByte
  generalize h.pnLen = pnLen at *
  rcases long_type numbered long with type_eq | type_eq | type_eq <;> simp only [type_eq] <;>
    interval_cases pnLen <;> decide

theorem firstByte_short (short : h.type = .short) (pnLen_pos : 1 ≤ h.pnLen)
    (pnLen_le : h.pnLen ≤ 4) :
    hdrFirstByte h < 256 ∧ hdrFirstByte h &&& 0x80 = 0 ∧ hdrFirstByte h &&& 0x40 ≠ 0 ∧
      decide (hdrFirstByte h &&& 0x20 ≠ 0) = h.spin ∧ hdrFirstByte h &&& 0x18 = 0 ∧
      decide (hdrFirstByte h &&& 0x04 ≠ 0) = h.keyPhase ∧
      (hdrFirstByte h &&& 0x03) + 1 = h.pnLen := by
  unfold hdrFirstByte
  simp only [short]
  generalize h.pnLen = pnLen at *
  generalize h.spin = spin
  generalize h.keyPhase = keyPhase
  interval_cases pnLen <;> cases spin <;> cases keyPhase <;> decide

theorem appends_cid (cid : List UInt8) :
    Appends (fun wr => quicWrBytes (quicWr8 wr cid.length) cid) (cidBytes cid) :=
  (appends_bytes cid).comp (appends_8 cid.length)

theorem takes_cid {cid : List UInt8} (cid_le : cid.length ≤ QUIC_MAX_CID) :
    Takes hdrRdCid (cidBytes cid) (some cid) := by
  intro rest
  have cid_lt : cid.length < 256 := lt_of_le_of_lt cid_le (by decide)
  rw [hdrRdCid, cidBytes, append_assoc, takes_8 cid_lt (cid ++ rest)]
  simp only [Bool.false_eq_true, false_or]
  rw [if_neg (Nat.not_lt.2 cid_le)]
  exact takes_bytes cid rest

theorem appends_long (h : QuicPktHdr) : Appends (fun wr => hdrEncodeLong wr h)
      (hdrLongBytes (if h.type = .versionNeg then QUIC_VERSION_NEGOTIATE else h.version) h) := by
  unfold hdrLongBytes
  rw [← append_assoc]
  exact (appends_cid h.scid).comp ((appends_cid h.dcid).comp (appends_int _ 4))

/-- The fields that every long header has are read back. -/
theorem quicHdrDecode_common {version b0 : Nat}
    (dcid_le : h.dcid.length ≤ QUIC_MAX_CID) (scid_le : h.scid.length ≤ QUIC_MAX_CID)
    (version_lt : version < 256 ^ 4) (byte_lt : b0 < 256) (is_long : b0 &&& 0x80 ≠ 0)
    (dcidLen : Nat) (rest : List UInt8) :
    quicHdrDecode (quicBytesOf b0 1 ++ (hdrLongBytes version h ++ rest)) dcidLen =
      hdrDecodeLong (quicBytesOf b0 1 ++ (hdrLongBytes version h ++ rest)) b0
        { quicPktHdrZero with version := version, dcid := h.dcid, scid := h.scid }
        ⟨rest, false⟩ := by
  have read_first : quicRd8 (quicRdInit (quicBytesOf b0 1 ++ (hdrLongBytes version h ++ rest))) =
      (b0, ⟨hdrLongBytes version h ++ rest, false⟩) := takes_8 byte_lt _
  generalize quicBytesOf b0 1 ++ (hdrLongBytes version h ++ rest) = pkt at read_first ⊢
  rw [hdrLongBytes, append_assoc, append_assoc] at read_first
  simp only [quicHdrDecode, read_first, Bool.false_eq_true, if_false, if_neg is_long,
    takes_int version_lt _, takes_cid dcid_le _, takes_cid scid_le _]

/-- The Length field has a width it can be written in. -/
theorem QuicPktHdr.Formed.lenSize_spec {dcidLen : Nat} {payload : List UInt8}
    (formed : h.Formed dcidLen payload) (long : h.type ≠ .short) :
    (hdrLenSize h = 1 ∨ hdrLenSize h = 2 ∨ hdrLenSize h = 4 ∨ hdrLenSize h = 8) ∧
      quicVarintSize h.len ≤ hdrLenSize h ∧ FitsVarint h.len := by
  have len_lt := formed.len_lt long
  have size_cases : quicVarintSize h.len = 1 ∨ quicVarintSize h.len = 2 := by
    unfold quicVarintSize
    split_ifs <;> omega
  have fits : FitsVarint h.len := by
    unfold FitsVarint QUIC_MAX_PACKET_NUMBER
    omega
  refine ⟨?_, ?_, fits⟩
  all_goals
    unfold hdrLenSize
    rcases formed.lenSize_eq long with size_eq | size_eq <;> split_ifs <;> omega

def QuicPktHdr.bytes (h : QuicPktHdr) : List UInt8 := hdrStart h ++ quicBytesOf h.pnEnc h.pnLen

section Numbered

variable {dcidLen : Nat} {h : QuicPktHdr} {payload : List UInt8}

variable (formed : h.Formed dcidLen payload)
include formed

/-- The size function measures what is written. -/
theorem QuicPktHdr.Formed.length_eq : h.bytes.length = quicHdrSize h := by
  have cids : ¬ (h.dcid.length > QUIC_MAX_CID ∨ h.scid.length > QUIC_MAX_CID) := by
    have := formed.dcid_le
    have := formed.scid_le
    omega
  have widths : ¬ (h.pnLen < 1 ∨ h.pnLen > 4) := by
    have := formed.pnLen_pos
    have := formed.pnLen_le
    omega
  rw [quicHdrSize, if_neg cids]
  by_cases short : h.type = .short
  · simp only [short, if_neg widths, QuicPktHdr.bytes, hdrStart, hdrFieldBytes, if_true,
      length_append, length_quicBytesOf]
  · obtain ⟨width, -, -⟩ := formed.lenSize_spec short
    have size_ne : hdrLenSize h ≠ 0 := by omega
    have long_size : h.bytes.length = hdrLongSize h := by
      simp only [QuicPktHdr.bytes, hdrStart, hdrFieldBytes, if_neg short, hdrLongBytes, cidBytes,
        hdrTokenBytes, hdrLongSize, if_neg widths, if_neg size_ne, length_append,
        length_quicBytesOf, length_quicVarintBytes]
      by_cases initial : h.type = .initial
      · have token_size := (quicVarintSize_spec (formed.token_fits initial)).1
        rw [if_pos initial, if_pos initial, if_neg (by omega), length_append,
          length_varintBytes]
        omega
      · rw [if_neg initial, if_neg initial, length_nil]
        omega
    rcases long_type formed.numbered short with type_eq | type_eq | type_eq <;>
      simp only [type_eq, long_size]

theorem QuicPktHdr.Formed.size_pos : quicHdrSize h ≠ 0 := by
  have pnLen_pos := formed.pnLen_pos
  rw [← formed.length_eq, QuicPktHdr.bytes, length_append, length_quicBytesOf]
  omega

theorem QuicPktHdr.Formed.len_ge : 1 + QUIC_TAG_LEN ≤ h.len := by
  have := formed.len_eq
  have := formed.pnLen_pos
  have := formed.payload_length
  omega

theorem quicHdrEncode_eq {wr : QuicWr} (good : wr.bad = false)
    (room : wr.out.length + quicHdrSize h ≤ wr.bufsz) :
    quicHdrEncode wr h = (true, { wr with out := wr.out ++ h.bytes }) := by
  rw [← formed.length_eq] at room
  have number := appends_int h.pnEnc h.pnLen
  by_cases short : h.type = .short
  · have written : Appends
        (fun wr => quicWrInt (quicWrBytes (quicWr8 wr (hdrFirstByte h)) h.dcid) h.pnEnc h.pnLen)
        h.bytes := by
      rw [QuicPktHdr.bytes, hdrStart, hdrFieldBytes, if_pos short]
      exact number.comp ((appends_bytes h.dcid).comp (appends_8 _))
    have wrote := written wr good room
    simp only at wrote
    simp only [quicHdrEncode, if_neg formed.size_pos, short, wrote, good, Bool.not_false]
  · obtain ⟨width, wide, fits⟩ := formed.lenSize_spec short
    have not_versionNeg : h.type ≠ .versionNeg := by
      rcases long_type formed.numbered short with type_eq | type_eq | type_eq <;> simp [type_eq]
    have long := (appends_long h).comp (appends_8 (hdrFirstByte h))
    rw [if_neg not_versionNeg] at long
    have token : Appends
        (fun wr => if h.type = .initial then quicWrVarintBytes wr h.token else wr)
        (hdrTokenBytes h) := by
      unfold hdrTokenBytes
      by_cases initial : h.type = .initial
      · simp only [if_pos initial]
        exact (appends_bytes _).comp (appends_varint (formed.token_fits initial))
      · simp only [if_neg initial]
        exact appends_id
    have length := appends_varintSized fits width wide
    have written := number.comp (length.comp (token.comp long))
    have bytes_eq : quicBytesOf (hdrFirstByte h) 1 ++ hdrLongBytes h.version h ++
        hdrTokenBytes h ++ quicVarintBytes h.len (hdrLenSize h) ++ quicBytesOf h.pnEnc h.pnLen =
        h.bytes := by
      simp [QuicPktHdr.bytes, hdrStart, hdrFieldBytes, short]
    rw [bytes_eq] at written
    have wrote := written wr good room
    simp only at wrote
    rcases long_type formed.numbered short with type_eq | type_eq | type_eq <;>
      simp only [quicHdrEncode, if_neg formed.size_pos, type_eq] at wrote ⊢ <;>
      simp only [wrote, good, Bool.not_false]

/-- What the start of a header shows, with the packet number where the writer put it. -/
def hdrShown (h : QuicPktHdr) : QuicPktHdr :=
  { quicPktHdrZero with
    type := h.type
    version := if h.type = .short then 0 else h.version
    dcid := h.dcid
    scid := if h.type = .short then [] else h.scid
    token := if h.type = .initial then h.token else []
    spin := if h.type = .short then h.spin else false
    len := h.len
    pnOff := (hdrStart h).length
    pktLen := (hdrStart h).length + h.len }

theorem quicHdrDecode_long (long : h.type ≠ .short) {body : List UInt8}
    (enough : h.len ≤ body.length) :
    quicHdrDecode (hdrStart h ++ body) dcidLen = some (hdrShown h) := by
  obtain ⟨byte_lt, is_long, fixed, type_bits, -, -⟩ :=
    firstByte_long formed.numbered long formed.pnLen_pos formed.pnLen_le
  obtain ⟨width, wide, fits⟩ := formed.lenSize_spec long
  have version_eq := formed.version_eq long
  have version_lt : h.version < 256 ^ 4 := by
    rw [version_eq]
    decide
  have length_read := takes_varintBytes width (quicVarintSize_le fits wide) body
  have length_decoded : ∀ found : QuicPktHdr,
      hdrDecodeLength (hdrStart h ++ body) found
        ⟨quicVarintBytes h.len (hdrLenSize h) ++ body, false⟩ =
        some { found with
          len := h.len, pnOff := (hdrStart h).length, pktLen := (hdrStart h).length + h.len } := by
    intro found
    simp only [hdrDecodeLength, length_read, quicRdLeft, Bool.false_eq_true, if_false, false_or,
      length_append, Nat.add_sub_cancel, if_neg (Nat.not_lt.2 enough), ge_iff_le, formed.len_ge,
      if_true]
  have start_eq : hdrStart h ++ body = quicBytesOf (hdrFirstByte h) 1 ++
    (hdrLongBytes h.version h ++
      (hdrTokenBytes h ++ (quicVarintBytes h.len (hdrLenSize h) ++ body))) := by
    simp only [hdrStart, hdrFieldBytes, if_neg long, append_assoc]
  rw [start_eq, quicHdrDecode_common formed.dcid_le formed.scid_le version_lt byte_lt is_long,
    ← start_eq, hdrDecodeLong, if_neg (by rw [version_eq]; decide),
    if_neg (by rw [version_eq]; decide), if_neg fixed, type_bits]
  unfold hdrTokenBytes hdrShown
  simp only [if_neg long]
  rcases long_type formed.numbered long with type_eq | type_eq | type_eq
  · simp only [type_eq, if_true, takes_varintBytesOf (formed.token_fits type_eq) _]
    exact length_decoded _
  · simp only [type_eq, reduceCtorEq, if_false, nil_append]
    exact length_decoded _
  · simp only [type_eq, reduceCtorEq, if_false, nil_append]
    exact length_decoded _

theorem quicHdrDecode_short (short : h.type = .short) {body : List UInt8}
    (whole : body.length = h.len) :
    quicHdrDecode (hdrStart h ++ body) dcidLen = some (hdrShown h) := by
  obtain ⟨byte_lt, is_short, fixed, spin_eq, -, -, -⟩ :=
    firstByte_short short formed.pnLen_pos formed.pnLen_le
  have dcid_eq := formed.dcid_length short
  have dcid_ok : ¬ (hdrFirstByte h &&& 0x40 = 0 ∨ dcidLen > QUIC_MAX_CID) := by
    have := formed.dcid_le
    rw [← dcid_eq]
    rintro (not_fixed | too_long)
    · exact fixed not_fixed
    · omega
  have read_dcid : quicRdBytes ⟨h.dcid ++ body, false⟩ dcidLen = (some h.dcid, ⟨body, false⟩) := by
    rw [← dcid_eq]
    exact takes_bytes h.dcid body
  generalize pkt_eq : hdrStart h ++ body = pkt
  have length_eq : pkt.length = (hdrStart h).length + h.len := by
    rw [← pkt_eq, length_append, whole]
  have read_first : quicRd8 (quicRdInit pkt) = (hdrFirstByte h, ⟨h.dcid ++ body, false⟩) := by
    rw [← pkt_eq, hdrStart, hdrFieldBytes, if_pos short, append_assoc]
    exact takes_8 byte_lt _
  simp only [quicHdrDecode, read_first, Bool.false_eq_true, if_false, is_short, if_true,
    hdrDecodeShort, if_neg dcid_ok, read_dcid, spin_eq, length_eq, whole, Nat.add_sub_cancel,
    Nat.add_sub_cancel_left, ge_iff_le, formed.len_ge, hdrShown, short, reduceCtorEq]
  rfl

theorem quicHdrDecodePN_eq (largestPn : Option Nat) (rest : List UInt8) :
    quicHdrDecodePN (hdrShown h)
        (hdrStart h ++ (quicBytesOf h.pnEnc h.pnLen ++ (payload ++ rest))) largestPn =
      some { hdrShown h with
        keyPhase := if h.type = .short then h.keyPhase else false
        pnLen := h.pnLen
        pnEnc := h.pnEnc
        pn := quicPnDecode largestPn h.pnEnc h.pnLen
        payload := payload } := by
  generalize pkt_eq : hdrStart h ++ (quicBytesOf h.pnEnc h.pnLen ++ (payload ++ rest)) = pkt
  have at_number : pkt.drop (hdrStart h).length =
      quicBytesOf h.pnEnc h.pnLen ++ (payload ++ rest) := by
    rw [← pkt_eq, drop_left]
  have number_taken : (pkt.drop (hdrStart h).length).take h.pnLen =
      quicBytesOf h.pnEnc h.pnLen := by
    rw [at_number, take_left' (length_quicBytesOf _ _)]
  have number_read : quicRdInt (quicRdInit (quicBytesOf h.pnEnc h.pnLen)) h.pnLen =
      (h.pnEnc, ⟨[], false⟩) := by
    have read := takes_int formed.pnEnc_lt []
    rwa [append_nil] at read
  have payload_taken : (pkt.drop ((hdrStart h).length + h.pnLen)).take (h.len - h.pnLen) =
      payload := by
    rw [← drop_drop, at_number, drop_left' (length_quicBytesOf _ _), formed.len_eq,
      Nat.add_sub_cancel_left, take_left]
  have byte_lt : hdrFirstByte h < 256 := by
    by_cases short : h.type = .short
    · exact (firstByte_short short formed.pnLen_pos formed.pnLen_le).1
    · exact (firstByte_long formed.numbered short formed.pnLen_pos formed.pnLen_le).1
  have first : (pkt.headD 0).toNat = hdrFirstByte h := by
    rw [← pkt_eq]
    simp only [hdrStart, quicBytesOf, Nat.pow_zero, Nat.div_one, cons_append, headD_cons,
      UInt8.toNat_ofNat']
    exact Nat.mod_eq_of_lt byte_lt
  have long_enough : ¬ h.len < h.pnLen + QUIC_TAG_LEN := by
    have := formed.len_eq
    have := formed.payload_length
    omega
  by_cases short : h.type = .short
  · obtain ⟨-, -, -, -, reserved, phase_eq, width_eq⟩ :=
      firstByte_short short formed.pnLen_pos formed.pnLen_le
    simp only [quicHdrDecodePN, hdrShown, QuicPktType.numbered, Bool.not_true, Bool.false_eq_true,
      if_false, first, short, if_true, reserved, ne_eq, not_true_eq_false, width_eq,
      long_enough, number_taken, number_read, payload_taken, phase_eq]
  · obtain ⟨-, -, -, -, reserved, width_eq⟩ :=
      firstByte_long formed.numbered short formed.pnLen_pos formed.pnLen_le
    simp only [quicHdrDecodePN, hdrShown, formed.numbered, Bool.not_true, Bool.false_eq_true,
      if_false, first, short, reserved, ne_eq, not_true_eq_false, width_eq,
      long_enough, number_taken, number_read, payload_taken]
    rfl

end Numbered

/-- Write packets one after another into a datagram, each a header and a payload. -/
def quicPacketsEncode (wr : QuicWr) : List (QuicPktHdr × List UInt8) → Option QuicWr
  | [] => some wr
  | (h, payload) :: rest =>
    match quicHdrEncode wr h with
    | (false, _) => none
    | (true, wr) => quicPacketsEncode (quicWrBytes wr payload) rest

/-- Walk the packets of a datagram; `none` when one of them cannot be read. -/
def quicHdrWalk (dcidLen : Nat) (largestPn : QuicPktType → Option Nat) :
    Nat → List UInt8 → Option (List QuicPktHdr)
  | 0, _ => none
  | _ + 1, [] => some []
  | fuel + 1, data =>
    match quicHdrDecode data dcidLen with
    | none => none
    | some h =>
      if h.pktLen = 0 ∨ h.pktLen > data.length then none
      else
        match quicHdrDecodePN h data (largestPn h.type) with
        | none => none
        | some h => (quicHdrWalk dcidLen largestPn fuel (data.drop h.pktLen)).map (h :: ·)

/-- A short header comes last, since it does not say where its packet ends. -/
def ShortLast : List (QuicPktHdr × List UInt8) → Prop
  | [] => True
  | (h, _) :: rest => (h.type = .short → rest = []) ∧ ShortLast rest

structure Recovers (packet : QuicPktHdr × List UInt8) (found : QuicPktHdr) : Prop where
  type_eq : found.type = packet.1.type
  version_eq : packet.1.type ≠ .short → found.version = packet.1.version
  dcid_eq : found.dcid = packet.1.dcid
  scid_eq : packet.1.type ≠ .short → found.scid = packet.1.scid
  token_eq : packet.1.type = .initial → found.token = packet.1.token
  spin_eq : packet.1.type = .short → found.spin = packet.1.spin
  keyPhase_eq : packet.1.type = .short → found.keyPhase = packet.1.keyPhase
  pnLen_eq : found.pnLen = packet.1.pnLen
  pnEnc_eq : found.pnEnc = packet.1.pnEnc
  len_eq : found.len = packet.1.len
  payload_eq : found.payload = packet.2
  header_end : found.pnOff + found.pnLen = quicHdrSize packet.1
  packet_end : found.pktLen = quicHdrSize packet.1 + packet.2.length

def packetBytes (packet : QuicPktHdr × List UInt8) : List UInt8 := packet.1.bytes ++ packet.2

theorem quicPacketsEncode_eq {dcidLen : Nat} {packets : List (QuicPktHdr × List UInt8)}
    (formed : ∀ packet ∈ packets, packet.1.Formed dcidLen packet.2) {wr : QuicWr}
    (good : wr.bad = false)
    (room : wr.out.length +
      (packets.map fun packet => quicHdrSize packet.1 + packet.2.length).sum ≤ wr.bufsz) :
    quicPacketsEncode wr packets =
      some { wr with out := wr.out ++ (packets.map packetBytes).flatten } := by
  induction packets generalizing wr with
  | nil => simp [quicPacketsEncode]
  | cons packet rest ih =>
    obtain ⟨h, payload⟩ := packet
    obtain ⟨h_formed, rest_formed⟩ := forall_mem_cons.1 formed
    simp only [map_cons, sum_cons] at room
    have length_eq := h_formed.length_eq
    simp only at h_formed length_eq
    rw [quicPacketsEncode, quicHdrEncode_eq h_formed good (by omega)]
    have wrote := appends_bytes payload { wr with out := wr.out ++ h.bytes } good
      (by simp only [length_append]; omega)
    simp only at wrote ⊢
    rw [wrote]
    refine (@ih rest_formed _ ?_ ?_).trans ?_
    · exact good
    · simp only [length_append]
      omega
    · simp [packetBytes]

/-- The first packet of a datagram is read as it was written. -/
theorem decode_first {dcidLen : Nat} {payload rest : List UInt8}
    (formed : h.Formed dcidLen payload) (last : h.type = .short → rest = [])
    (largestPn : QuicPktType → Option Nat) :
    ∃ start found, quicHdrDecode (packetBytes (h, payload) ++ rest) dcidLen = some start ∧
      start.pktLen = (packetBytes (h, payload)).length ∧
      quicHdrDecodePN start (packetBytes (h, payload) ++ rest) (largestPn start.type) =
        some found ∧ found.pktLen = start.pktLen ∧ Recovers (h, payload) found := by
  have length_eq := formed.length_eq
  have len_eq := formed.len_eq
  have bytes_eq : packetBytes (h, payload) ++ rest =
      hdrStart h ++ (quicBytesOf h.pnEnc h.pnLen ++ (payload ++ rest)) := by
    simp [packetBytes, QuicPktHdr.bytes]
  have size_eq : (hdrStart h).length + h.pnLen = quicHdrSize h := by
    rw [← length_eq, QuicPktHdr.bytes, length_append, length_quicBytesOf]
  have packet_length : (packetBytes (h, payload)).length = quicHdrSize h + payload.length := by
    rw [packetBytes, length_append, length_eq]
  have body_length : (quicBytesOf h.pnEnc h.pnLen ++ (payload ++ rest)).length =
      h.len + rest.length := by
    simp only [length_append, length_quicBytesOf]
    omega
  have decoded : quicHdrDecode (hdrStart h ++ (quicBytesOf h.pnEnc h.pnLen ++ (payload ++ rest)))
      dcidLen = some (hdrShown h) := by
    by_cases short : h.type = .short
    · obtain rfl := last short
      exact quicHdrDecode_short formed short body_length
    · exact quicHdrDecode_long formed short (by omega)
  have end_eq : (hdrStart h).length + h.len = quicHdrSize h + payload.length := by omega
  rw [bytes_eq, packet_length]
  exact ⟨_, _, decoded, end_eq, quicHdrDecodePN_eq formed _ _, rfl,
    { type_eq := rfl
      version_eq := fun long => if_neg long
      dcid_eq := rfl
      scid_eq := fun long => if_neg long
      token_eq := fun initial => if_pos initial
      spin_eq := fun short => if_pos short
      keyPhase_eq := fun short => if_pos short
      pnLen_eq := rfl
      pnEnc_eq := rfl
      len_eq := rfl
      payload_eq := rfl
      header_end := size_eq
      packet_end := end_eq }⟩

/-- Walking a datagram finds the packets it was put together from. -/
theorem quicHdrWalk_eq {dcidLen : Nat} {packets : List (QuicPktHdr × List UInt8)}
    (formed : ∀ packet ∈ packets, packet.1.Formed dcidLen packet.2) (short_last : ShortLast packets)
    (largestPn : QuicPktType → Option Nat) {fuel : Nat} (enough : packets.length < fuel) :
    ∃ found, quicHdrWalk dcidLen largestPn fuel (packets.map packetBytes).flatten = some found ∧
      List.Forall₂ Recovers packets found := by
  induction packets generalizing fuel with
  | nil =>
    obtain ⟨fuel, rfl⟩ : ∃ more, fuel = more + 1 := ⟨fuel - 1, by omega⟩
    exact ⟨[], rfl, .nil⟩
  | cons packet rest ih =>
    obtain ⟨h, payload⟩ := packet
    obtain ⟨fuel, rfl⟩ : ∃ more, fuel = more + 1 := ⟨fuel - 1, by omega⟩
    obtain ⟨h_formed, rest_formed⟩ := forall_mem_cons.1 formed
    simp only at h_formed
    obtain ⟨last, rest_last⟩ := short_last
    have nothing_left : h.type = .short → (rest.map packetBytes).flatten = [] := by
      intro short
      rw [last short]
      rfl
    obtain ⟨start, found, decoded, start_end, numbered, found_end, recovers⟩ :=
      decode_first h_formed nothing_left largestPn
    obtain ⟨others, walked, others_recover⟩ :=
      ih rest_formed rest_last (Nat.lt_of_succ_lt_succ enough)
    refine ⟨found :: others, ?_, .cons recovers others_recover⟩
    have packet_pos : 0 < (packetBytes (h, payload)).length := by
      have := h_formed.payload_length
      simp only [packetBytes, length_append, QUIC_TAG_LEN] at this ⊢
      omega
    obtain ⟨first, tail, data_eq⟩ : ∃ first tail,
        packetBytes (h, payload) ++ (rest.map packetBytes).flatten = first :: tail :=
      exists_cons_of_length_pos (by rw [length_append]; omega)
    have inside : ¬ (start.pktLen = 0 ∨ start.pktLen >
        (packetBytes (h, payload) ++ (rest.map packetBytes).flatten).length) := by
      rw [length_append, start_end]
      omega
    have rest_data : (packetBytes (h, payload) ++ (rest.map packetBytes).flatten).drop
        found.pktLen = (rest.map packetBytes).flatten := by
      rw [found_end, start_end, drop_left]
    rw [map_cons, flatten_cons]
    rw [data_eq] at decoded inside numbered rest_data ⊢
    simp only [quicHdrWalk, decoded, if_neg inside, numbered, rest_data, walked,
      Option.map_some]

/-- A header that ends a datagram is written whole, and read up to its connection IDs. -/
theorem long_round_trip {b0 : Nat} {write : QuicWr → QuicWr} {tail : List UInt8}
    (is_long : b0 < 256 ∧ b0 &&& 0x80 ≠ 0)
    (dcid_le : h.dcid.length ≤ QUIC_MAX_CID) (scid_le : h.scid.length ≤ QUIC_MAX_CID)
    (version_eq : (if h.type = .versionNeg then QUIC_VERSION_NEGOTIATE else h.version) = h.version)
    (version_lt : h.version < 256 ^ 4) (writes : Appends write tail)
    (size_eq : quicHdrSize h = 1 + 4 + 1 + h.dcid.length + 1 + h.scid.length + tail.length)
    (encodes : ∀ wr after, quicHdrSize h ≠ 0 → write (hdrEncodeLong (quicWr8 wr b0) h) = after →
      quicHdrEncode wr h = (!after.bad, after))
    (dcidLen : Nat) (appended : List UInt8) {bufsz : Nat} (room : quicHdrSize h ≤ bufsz) :
    ∃ wr, quicHdrEncode (quicWrInit bufsz) h = (true, wr) ∧ wr.out.length = quicHdrSize h ∧
      quicHdrDecode (wr.out ++ appended) dcidLen = hdrDecodeLong (wr.out ++ appended) b0
        { quicPktHdrZero with version := h.version, dcid := h.dcid, scid := h.scid }
        ⟨tail ++ appended, false⟩ := by
  have written := writes.comp ((appends_long h).comp (appends_8 b0))
  rw [version_eq] at written
  have bytes_length : (quicBytesOf b0 1 ++ hdrLongBytes h.version h ++ tail).length =
      quicHdrSize h := by
    rw [size_eq]
    simp only [length_append, length_quicBytesOf, hdrLongBytes, cidBytes]
    omega
  have wrote := written (quicWrInit bufsz) rfl (by
    rw [bytes_length]
    simpa [quicWrInit] using room)
  refine ⟨_, encodes _ _ (by omega) wrote, bytes_length, ?_⟩
  have bytes_eq : quicBytesOf b0 1 ++ hdrLongBytes h.version h ++ tail ++ appended =
      quicBytesOf b0 1 ++ (hdrLongBytes h.version h ++ (tail ++ appended)) := by
    simp only [append_assoc]
  simp only [quicWrInit, nil_append, bytes_eq]
  exact quicHdrDecode_common dcid_le scid_le version_lt is_long.1 is_long.2 dcidLen _

/-- A header of a Retry or Version Negotiation packet, with the bytes its sender appends to it. -/
structure QuicPktHdr.Alone (h : QuicPktHdr) (appended : List UInt8) : Prop where
  type_eq : h.type = .retry ∨ h.type = .versionNeg
  dcid_le : h.dcid.length ≤ QUIC_MAX_CID
  scid_le : h.scid.length ≤ QUIC_MAX_CID
  retry : h.type = .retry → h.version = QUIC_VERSION_1 ∧ appended = [] ∧
    ∃ tag, h.tag = some tag ∧ tag.length = QUIC_TAG_LEN
  versionNeg : h.type = .versionNeg →
    h.version = QUIC_VERSION_NEGOTIATE ∧ appended ≠ [] ∧ appended.length % 4 = 0

/-- The packets of a datagram are found as they were written into it, and a Retry or Version
Negotiation packet is read as it was written. -/
theorem headers_round_trip (dcidLen : Nat) : (∀ packets : List (QuicPktHdr × List UInt8),
      (∀ packet ∈ packets, packet.1.Formed dcidLen packet.2) → ShortLast packets →
      ∀ bufsz, (packets.map fun packet => quicHdrSize packet.1 + packet.2.length).sum ≤ bufsz →
      ∃ wr, quicPacketsEncode (quicWrInit bufsz) packets = some wr ∧ wr.bad = false ∧
        ∀ largestPn fuel, packets.length < fuel → ∃ found,
          quicHdrWalk dcidLen largestPn fuel wr.out = some found ∧
          List.Forall₂ Recovers packets found) ∧
    ∀ (h : QuicPktHdr) (appended : List UInt8), h.Alone appended →
      ∀ bufsz, quicHdrSize h ≤ bufsz → ∃ wr found,
        quicHdrEncode (quicWrInit bufsz) h = (true, wr) ∧ wr.out.length = quicHdrSize h ∧
        quicHdrDecode (wr.out ++ appended) dcidLen = some found ∧ found.type = h.type ∧
        found.version = h.version ∧ found.dcid = h.dcid ∧ found.scid = h.scid ∧
        (h.type = .retry → found.token = h.token ∧ found.tag = h.tag) ∧
        found.payload = appended ∧ found.pktLen = (wr.out ++ appended).length := by
  constructor
  · intro packets formed short_last bufsz room
    refine ⟨{ quicWrInit bufsz with out := (packets.map packetBytes).flatten },
      quicPacketsEncode_eq formed rfl ?_, rfl, ?_⟩
    · simpa [quicWrInit] using room
    · intro largestPn fuel enough
      exact quicHdrWalk_eq formed short_last largestPn enough
  · intro h appended alone bufsz room
    have cids : ¬ (h.dcid.length > QUIC_MAX_CID ∨ h.scid.length > QUIC_MAX_CID) := by
      have := alone.dcid_le
      have := alone.scid_le
      omega
    rcases alone.type_eq with type_eq | type_eq
    · obtain ⟨version_eq, rfl, tag, tag_eq, tag_length⟩ := alone.retry type_eq
      have first_eq : hdrFirstByte h = 0xf0 := by
        simp only [hdrFirstByte, type_eq]
        decide
      have left_eq : (h.token ++ tag).length - QUIC_TAG_LEN = h.token.length := by
        rw [length_append, tag_length, Nat.add_sub_cancel]
      have enough : ¬ (h.token ++ tag).length < QUIC_TAG_LEN := by
        rw [length_append, tag_length]
        omega
      obtain ⟨wr, encoded, length_eq, decoded⟩ := @long_round_trip h 0xf0 _ _ (by decide)
        alone.dcid_le alone.scid_le (by simp [type_eq]) (by rw [version_eq]; decide)
        ((appends_bytes tag).comp (appends_bytes h.token))
        (by simp only [quicHdrSize, if_neg cids, type_eq, length_append, tag_length]; omega)
        (fun wr after size_pos wrote => by
          simp only [quicHdrEncode, if_neg size_pos, type_eq, tag_eq, first_eq, wrote])
        dcidLen [] bufsz room
      rw [hdrDecodeLong, if_neg (by rw [version_eq]; decide), if_neg (by rw [version_eq]; decide),
        if_neg (by decide)] at decoded
      simp only [show QuicPktType.ofBits (0xf0 >>> 4 &&& 0x03) = .retry from rfl, quicRdLeft,
        append_nil, Bool.false_eq_true, if_false, if_neg enough, left_eq, take_left,
        drop_left] at decoded ⊢
      exact ⟨wr, _, encoded, length_eq, decoded, type_eq.symm, rfl, rfl, rfl,
        fun _ => ⟨rfl, tag_eq.symm⟩, rfl, rfl⟩
    · obtain ⟨version_eq, offered, whole⟩ := alone.versionNeg type_eq
      have first_eq : hdrFirstByte h = 0x80 := by simp only [hdrFirstByte, type_eq]
      have some_offered : appended.length > 0 ∧ appended.length % 4 = 0 :=
        ⟨length_pos_iff.2 offered, whole⟩
      obtain ⟨wr, encoded, length_eq, decoded⟩ := @long_round_trip h 0x80 _ _ (by decide)
        alone.dcid_le alone.scid_le (by rw [if_pos type_eq, version_eq])
        (by rw [version_eq]; decide) appends_id
        (by simp only [quicHdrSize, if_neg cids, type_eq, length_nil, Nat.add_zero])
        (fun wr after size_pos wrote => by
          simp only [id] at wrote
          simp only [quicHdrEncode, if_neg size_pos, type_eq, first_eq, wrote])
        dcidLen appended bufsz room
      rw [hdrDecodeLong, if_pos version_eq, nil_append, if_pos some_offered] at decoded
      exact ⟨wr, _, encoded, length_eq, decoded, type_eq.symm, rfl, rfl, rfl,
        fun is_retry => absurd (is_retry.symm.trans type_eq) (by decide), rfl, rfl⟩

/-- An Initial packet with a token and a pinned Length field, followed by a short header; and a
Retry packet. -/
theorem headers_round_trip_coalesced :
    let initial : QuicPktHdr := { quicPktHdrZero with
      type := .initial, version := 1, dcid := [1, 2, 3], scid := [4], token := [5, 6], pnLen := 2,
      pnEnc := 300, len := 18, lenSize := 2 }
    let short : QuicPktHdr := { quicPktHdrZero with
      type := .short, dcid := [1, 2, 3], spin := true, keyPhase := true, pnLen := 1, pnEnc := 9,
      len := 17 }
    let packets := [(initial, List.replicate 16 7), (short, List.replicate 16 8)]
    let retry : QuicPktHdr := { quicPktHdrZero with
      type := .retry, version := 1, dcid := [1, 2, 3], scid := [4], token := [5, 6],
      tag := some (List.replicate 16 9) }
    (∃ wr, quicPacketsEncode (quicWrInit 1200) packets = some wr ∧ wr.bad = false ∧
      ∀ largestPn fuel, packets.length < fuel → ∃ found,
        quicHdrWalk 3 largestPn fuel wr.out = some found ∧ List.Forall₂ Recovers packets found) ∧
    ∃ wr found, quicHdrEncode (quicWrInit 1200) retry = (true, wr) ∧
      quicHdrDecode (wr.out ++ []) 3 = some found ∧ found.token = [5, 6] := by
  intro initial short packets retry
  have alone : retry.Alone [] :=
    ⟨.inl rfl, by decide, by decide, fun _ => ⟨rfl, rfl, _, rfl, by decide⟩, nofun⟩
  have formed : ∀ packet ∈ packets, packet.1.Formed 3 packet.2 := by
    refine forall_mem_cons.2 ⟨?_, forall_mem_cons.2 ⟨?_, nofun⟩⟩
    · constructor <;> simp [initial, QuicPktType.numbered, QUIC_VERSION_1, QUIC_MAX_CID,
        QUIC_TAG_LEN, FitsVarint, QUIC_MAX_PACKET_NUMBER]
    · constructor <;> simp [short, QuicPktType.numbered, quicPktHdrZero, QUIC_MAX_CID,
        QUIC_TAG_LEN]
  have short_last : ShortLast packets := by simp [packets, ShortLast, initial]
  obtain ⟨coalesced, separate⟩ := headers_round_trip 3
  obtain ⟨wr, found, encoded, -, decoded, -, -, -, -, of_retry, -, -⟩ :=
    separate retry [] alone 1200 (by decide)
  exact ⟨coalesced packets formed short_last 1200 (by decide),
    wr, found, encoded, decoded, (of_retry rfl).1⟩

end Cx.Quic
