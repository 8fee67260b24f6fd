import Cx.Quic.Wire

/-!
# Frames

The frames of a packet payload, their encoding, and the iterator that walks the ranges of an ACK
frame.  A frame type that only selects which optional fields are present becomes a field of its
constructor; `QuicFrame.type` gives the number back.
-/

namespace Cx.Quic

inductive QuicDir where
  | bidi
  | uni
deriving DecidableEq, Repr

structure QuicAck where
  largest : Nat
  delay : Nat
  firstRange : Nat
  rangeCount : Nat
  rangeData : List UInt8
  ecn : Option (Nat × Nat × Nat)
deriving DecidableEq, Repr

inductive QuicFrame where
  | padding (count : Nat)
  | ping
  | ack (fields : QuicAck)
  | resetStream (id error finalSize : Nat)
  | stopSending (id error : Nat)
  | crypto (offset : Nat) (data : List UInt8)
  | newToken (token : List UInt8)
  /-- Stream bytes, with the three bits that say which fields are present. -/
  | stream (fin hasLen hasOff : Bool) (id offset : Nat) (data : List UInt8)
  | maxData (max : Nat)
  | maxStreamData (id max : Nat)
  | maxStreams (dir : QuicDir) (max : Nat)
  | dataBlocked (limit : Nat)
  | streamDataBlocked (id limit : Nat)
  | streamsBlocked (dir : QuicDir) (limit : Nat)
  | newConnId (seq retirePrior : Nat) (cid token : List UInt8)
  | retireConnId (seq : Nat)
  | pathChallenge (data : List UInt8)
  | pathResponse (data : List UInt8)
  | connClose (error frameType : Nat) (reason : List UInt8)
  | connCloseApp (error : Nat) (reason : List UInt8)
  | handshakeDone
  | datagram (hasLen : Bool) (data : List UInt8)
deriving DecidableEq, Repr

def QuicFrame.type : QuicFrame → Nat
  | .padding _ => 0x00
  | .ping => 0x01
  | .ack fields => if fields.ecn.isSome then 0x03 else 0x02
  | .resetStream .. => 0x04
  | .stopSending .. => 0x05
  | .crypto .. => 0x06
  | .newToken _ => 0x07
  | .stream fin hasLen hasOff .. =>
    0x08 + (if fin then 0x01 else 0) + (if hasLen then 0x02 else 0) +
      (if hasOff then 0x04 else 0)
  | .maxData _ => 0x10
  | .maxStreamData .. => 0x11
  | .maxStreams .bidi _ => 0x12
  | .maxStreams .uni _ => 0x13
  | .dataBlocked _ => 0x14
  | .streamDataBlocked .. => 0x15
  | .streamsBlocked .bidi _ => 0x16
  | .streamsBlocked .uni _ => 0x17
  | .newConnId .. => 0x18
  | .retireConnId _ => 0x19
  | .pathChallenge _ => 0x1a
  | .pathResponse _ => 0x1b
  | .connClose .. => 0x1c
  | .connCloseApp .. => 0x1d
  | .handshakeDone => 0x1e
  | .datagram hasLen _ => if hasLen then 0x31 else 0x30

def QUIC_RESET_TOKEN_LEN : Nat := 16

def QUIC_PATH_DATA_LEN : Nat := 8

def QUIC_MAX_CID : Nat := 20

/-- Number of bytes `quicFrameEncode` will write, or zero if the frame cannot be encoded. -/
def quicFrameSize (f : QuicFrame) : Nat :=
  let t := quicVarintSize f.type
  match f with
  | .padding count => count
  | .ping | .handshakeDone => t
  | .ack fields =>
    t + quicVarintSize fields.largest + quicVarintSize fields.delay +
      quicVarintSize fields.rangeCount + quicVarintSize fields.firstRange +
      fields.rangeData.length +
      match fields.ecn with
      | none => 0
      | some (ect0, ect1, ecnce) =>
        quicVarintSize ect0 + quicVarintSize ect1 + quicVarintSize ecnce
  | .resetStream id error finalSize =>
    t + quicVarintSize id + quicVarintSize error + quicVarintSize finalSize
  | .stopSending id error => t + quicVarintSize id + quicVarintSize error
  | .crypto offset data =>
    t + quicVarintSize offset + quicVarintSize data.length + data.length
  | .newToken token => t + quicVarintSize token.length + token.length
  | .maxData max => t + quicVarintSize max
  | .maxStreamData id max => t + quicVarintSize id + quicVarintSize max
  | .maxStreams _ max => t + quicVarintSize max
  | .dataBlocked limit => t + quicVarintSize limit
  | .streamDataBlocked id limit => t + quicVarintSize id + quicVarintSize limit
  | .streamsBlocked _ limit => t + quicVarintSize limit
  | .newConnId seq retirePrior cid _ =>
    t + quicVarintSize seq + quicVarintSize retirePrior + 1 + cid.length +
      QUIC_RESET_TOKEN_LEN
  | .retireConnId seq => t + quicVarintSize seq
  | .pathChallenge _ | .pathResponse _ => t + QUIC_PATH_DATA_LEN
  | .datagram true data => t + quicVarintSize data.length + data.length
  | .datagram false _ => 0
  | .connClose error frameType reason =>
    t + quicVarintSize error + quicVarintSize reason.length + reason.length +
      quicVarintSize frameType
  | .connCloseApp error reason =>
    t + quicVarintSize error + quicVarintSize reason.length + reason.length
  | .stream _ hasLen hasOff id offset data =>
    t + quicVarintSize id + data.length + (if hasOff then quicVarintSize offset else 0) +
      (if hasLen then quicVarintSize data.length else 0)

/-- Write the fields of a frame after its type; `none` for one that has no encoding. -/
def quicFrameFields (wr : QuicWr) : QuicFrame → Option QuicWr
  | .padding _ | .ping | .handshakeDone => some wr
  | .ack fields =>
    let wr := quicWrVarint wr fields.largest
    let wr := quicWrVarint wr fields.delay
    let wr := quicWrVarint wr fields.rangeCount
    let wr := quicWrVarint wr fields.firstRange
    let wr := quicWrBytes wr fields.rangeData
    match fields.ecn with
    | none => some wr
    | some (ect0, ect1, ecnce) =>
      some (quicWrVarint (quicWrVarint (quicWrVarint wr ect0) ect1) ecnce)
  | .resetStream id error finalSize =>
    some (quicWrVarint (quicWrVarint (quicWrVarint wr id) error) finalSize)
  | .stopSending id error => some (quicWrVarint (quicWrVarint wr id) error)
  | .crypto offset data => some (quicWrVarintBytes (quicWrVarint wr offset) data)
  | .newToken token => some (quicWrVarintBytes wr token)
  | .maxData max => some (quicWrVarint wr max)
  | .maxStreamData id max => some (quicWrVarint (quicWrVarint wr id) max)
  | .maxStreams _ max => some (quicWrVarint wr max)
  | .dataBlocked limit => some (quicWrVarint wr limit)
  | .streamDataBlocked id limit => some (quicWrVarint (quicWrVarint wr id) limit)
  | .streamsBlocked _ limit => some (quicWrVarint wr limit)
  | .newConnId seq retirePrior cid token =>
    if cid.length = 0 ∨ cid.length > QUIC_MAX_CID then none
    else
      let wr := quicWrVarint (quicWrVarint wr seq) retirePrior
      some (quicWrBytes (quicWrBytes (quicWr8 wr cid.length) cid) token)
  | .retireConnId seq => some (quicWrVarint wr seq)
  | .pathChallenge data | .pathResponse data => some (quicWrBytes wr data)
  | .datagram _ data => some (quicWrVarintBytes wr data)
  | .connClose error frameType reason =>
    some (quicWrVarintBytes (quicWrVarint (quicWrVarint wr error) frameType) reason)
  | .connCloseApp error reason => some (quicWrVarintBytes (quicWrVarint wr error) reason)
  | .stream _ hasLen hasOff id offset data =>
    let wr := quicWrVarint wr id
    let wr := if hasOff then quicWrVarint wr offset else wr
    let wr := if hasLen then quicWrVarint wr data.length else wr
    some (quicWrBytes wr data)

def quicFrameEncode (wr : QuicWr) (f : QuicFrame) : Bool × QuicWr :=
  match f with
  | .padding count =>
    if quicWrLeft wr < count then (false, { wr with bad := true })
    else (true, { wr with out := wr.out ++ List.replicate count 0 })
  | f =>
    if quicFrameSize f = 0 then (false, wr)
    else
      match quicFrameFields (quicWrVarint wr f.type) f with
      | none => (false, quicWrVarint wr f.type)
      | some after => (!after.bad, after)

/-- Whether a range of stream or handshake bytes stays below the largest offset. -/
def frameOffsetOk (offset len : Nat) : Bool :=
  offset < QUIC_MAX_PACKET_NUMBER && len ≤ QUIC_MAX_PACKET_NUMBER - offset

def QUIC_MAX_STREAMS : Nat := 2 ^ 60

def ackSkipPairs : Nat → QuicRd → QuicRd
  | 0, rd => rd
  | count + 1, rd =>
    let rd := (quicRdVarint (quicRdVarint rd).2).2
    if rd.bad then rd else ackSkipPairs count rd

def frameDecodeAck (ecn : Bool) (rd : QuicRd) : Option QuicFrame × QuicRd :=
  let (largest, rd) := quicRdVarint rd
  let (delay, rd) := quicRdVarint rd
  let (rangeCount, rd) := quicRdVarint rd
  let (firstRange, rd) := quicRdVarint rd
  if rd.bad ∨ firstRange > largest then (none, rd)
  else
    let after := ackSkipPairs rangeCount rd
    if after.bad then (none, after)
    else
      let rangeData := rd.data.take (rd.data.length - after.data.length)
      if ecn then
        let (ect0, rd) := quicRdVarint after
        let (ect1, rd) := quicRdVarint rd
        let (ecnce, rd) := quicRdVarint rd
        if rd.bad then (none, rd)
        else
          (some (.ack
            ⟨largest, delay, firstRange, rangeCount, rangeData, some (ect0, ect1, ecnce)⟩),
            rd)
      else (some (.ack ⟨largest, delay, firstRange, rangeCount, rangeData, none⟩), after)

/-- Read the fields of a STREAM frame; without a length it runs to the end of the packet. -/
def frameDecodeStream (fin hasLen hasOff : Bool) (rd : QuicRd) : Option QuicFrame × QuicRd :=
  let (id, rd) := quicRdVarint rd
  let (offset, rd) := if hasOff then quicRdVarint rd else (0, rd)
  if rd.bad then (none, rd)
  else
    match if hasLen then quicRdVarintBytes rd else quicRdBytes rd (quicRdLeft rd) with
    | (none, rd) => (none, rd)
    | (some data, rd) =>
      if frameOffsetOk offset data.length then
        (some (.stream fin hasLen hasOff id offset data), rd)
      else (none, rd)

def frameDecodeNewConnId (rd : QuicRd) : Option QuicFrame × QuicRd :=
  let (seq, rd) := quicRdVarint rd
  let (retirePrior, rd) := quicRdVarint rd
  let (count, rd) := quicRd8 rd
  if rd.bad ∨ count = 0 ∨ count > QUIC_MAX_CID ∨ retirePrior > seq then (none, rd)
  else
    match quicRdBytes rd count with
    | (none, rd) => (none, (quicRdBytes rd QUIC_RESET_TOKEN_LEN).2)
    | (some cid, rd) =>
      match quicRdBytes rd QUIC_RESET_TOKEN_LEN with
      | (none, rd) => (none, rd)
      | (some token, rd) => (some (.newConnId seq retirePrior cid token), rd)

def frameDecode1 (make : Nat → Option QuicFrame) (rd : QuicRd) : Option QuicFrame × QuicRd :=
  let (value, rd) := quicRdVarint rd
  (if rd.bad then none else make value, rd)

def frameDecode2 (make : Nat → Nat → Option QuicFrame) (rd : QuicRd) : Option QuicFrame × QuicRd :=
  let (first, rd) := quicRdVarint rd
  frameDecode1 (make first) rd

def frameDecode3 (make : Nat → Nat → Nat → Option QuicFrame) (rd : QuicRd) :
    Option QuicFrame × QuicRd :=
  let (first, rd) := quicRdVarint rd
  frameDecode2 (make first) rd

def frameDecodeData (make : List UInt8 → Option QuicFrame) (rd : QuicRd) :
    Option QuicFrame × QuicRd :=
  match quicRdVarintBytes rd with
  | (none, rd) => (none, rd)
  | (some data, rd) => (make data, rd)

/-- A frame that names a number of streams, if it is one that can be. -/
def frameStreams (f : QuicFrame) (count : Nat) : Option QuicFrame :=
  if count ≤ QUIC_MAX_STREAMS then some f else none

/-- Read the fields of the frame whose type was read; `none` for a malformed frame or one of an
unknown type, which cannot be skipped because nothing says how long it is. -/
def frameDecodeFields (type : Nat) (rd : QuicRd) : Option QuicFrame × QuicRd :=
  match type with
  | 0x00 =>
    let more := (rd.data.takeWhile (· = 0)).length
    (some (.padding (1 + more)), { rd with data := rd.data.drop more })
  | 0x01 => (some .ping, rd)
  | 0x1e => (some .handshakeDone, rd)
  | 0x02 => frameDecodeAck false rd
  | 0x03 => frameDecodeAck true rd
  | 0x04 => frameDecode3 (fun id error finalSize => some (.resetStream id error finalSize)) rd
  | 0x05 => frameDecode2 (fun id error => some (.stopSending id error)) rd
  | 0x06 =>
    let (offset, rd) := quicRdVarint rd
    frameDecodeData (fun data =>
      if frameOffsetOk offset data.length then some (.crypto offset data) else none) rd
  | 0x07 =>
    frameDecodeData (fun token => if token.length > 0 then some (.newToken token) else none) rd
  | 0x10 => frameDecode1 (fun max => some (.maxData max)) rd
  | 0x11 => frameDecode2 (fun id max => some (.maxStreamData id max)) rd
  | 0x12 => frameDecode1 (fun max => frameStreams (.maxStreams .bidi max) max) rd
  | 0x13 => frameDecode1 (fun max => frameStreams (.maxStreams .uni max) max) rd
  | 0x14 => frameDecode1 (fun limit => some (.dataBlocked limit)) rd
  | 0x15 => frameDecode2 (fun id limit => some (.streamDataBlocked id limit)) rd
  | 0x16 => frameDecode1 (fun limit => frameStreams (.streamsBlocked .bidi limit) limit) rd
  | 0x17 => frameDecode1 (fun limit => frameStreams (.streamsBlocked .uni limit) limit) rd
  | 0x18 => frameDecodeNewConnId rd
  | 0x19 => frameDecode1 (fun seq => some (.retireConnId seq)) rd
  | 0x1a =>
    match quicRdBytes rd QUIC_PATH_DATA_LEN with
    | (none, rd) => (none, rd)
    | (some data, rd) => (some (.pathChallenge data), rd)
  | 0x1b =>
    match quicRdBytes rd QUIC_PATH_DATA_LEN with
    | (none, rd) => (none, rd)
    | (some data, rd) => (some (.pathResponse data), rd)
  | 0x30 =>
    match quicRdBytes rd (quicRdLeft rd) with
    | (none, rd) => (none, rd)
    | (some data, rd) => (some (.datagram false data), rd)
  | 0x31 => frameDecodeData (fun data => some (.datagram true data)) rd
  | 0x1c =>
    let (error, rd) := quicRdVarint rd
    let (frameType, rd) := quicRdVarint rd
    frameDecodeData (fun reason => some (.connClose error frameType reason)) rd
  | 0x1d =>
    let (error, rd) := quicRdVarint rd
    frameDecodeData (fun reason => some (.connCloseApp error reason)) rd
  | type =>
    if 0x08 ≤ type ∧ type ≤ 0x0f then
      frameDecodeStream (type % 2 = 1) (type / 2 % 2 = 1) (type / 4 % 2 = 1) rd
    else (none, rd)

/-- Read one frame; `none` at the end of the packet and for a malformed frame. -/
def quicFrameDecode (rd : QuicRd) : Option QuicFrame × QuicRd :=
  if rd.bad ∨ quicRdLeft rd = 0 then (none, rd)
  else
    let (type, rd) := quicRdVarint rd
    if rd.bad then (none, rd) else frameDecodeFields type rd

structure QuicAckRange where
  largest : Nat
  smallest : Nat
deriving DecidableEq, Repr

/-- A walk through the ranges of an ACK frame, largest first. -/
structure QuicAckIter where
  rd : QuicRd
  remaining : Nat
  largest : Nat
  firstRange : Nat
  next : Nat
  first : Bool
  bad : Bool
deriving DecidableEq, Repr

def quicAckIterInit (fields : QuicAck) : Option QuicAckIter :=
  if fields.firstRange > fields.largest then none
  else
    some
      { rd := quicRdInit fields.rangeData
        remaining := fields.rangeCount
        largest := fields.largest
        firstRange := fields.firstRange
        next := 0
        first := true
        bad := false }

def quicAckIterNext (it : QuicAckIter) : Option QuicAckRange × QuicAckIter :=
  if it.bad then (none, it)
  else if it.first then
    let smallest := it.largest - it.firstRange
    (some ⟨it.largest, smallest⟩, { it with first := false, next := smallest })
  else if it.remaining = 0 then (none, it)
  else
    let it := { it with remaining := it.remaining - 1 }
    let (gap, rd) := quicRdVarint it.rd
    let (len, rd) := quicRdVarint rd
    let it := { it with rd := rd }
    if rd.bad then (none, { it with bad := true })
    else if it.next < gap + 2 then (none, { it with bad := true })
    else
      let largest := it.next - gap - 2
      if largest < len then (none, { it with bad := true })
      else (some ⟨largest, largest - len⟩, { it with next := largest - len })

/-- Write the gap and the length of every range below the first; `none` when two of them touch or
one is empty. -/
def ackBuildRanges : QuicAckRange → List QuicAckRange → QuicWr → Option QuicWr
  | _, [], wr => some wr
  | previous, range :: rest, wr =>
    if range.smallest > range.largest then none
    else if range.largest + 2 > previous.smallest then none
    else
      let wr := quicWrVarint wr (previous.smallest - range.largest - 2)
      let wr := quicWrVarint wr (range.largest - range.smallest)
      ackBuildRanges range rest wr

/-- Build an ACK frame from ranges, largest first; the pairs go into a buffer of the given size. -/
def quicAckBuild (delay : Nat) (ranges : List QuicAckRange) (ecn : Option (Nat × Nat × Nat))
    (bufsz : Nat) : Option QuicAck :=
  match ranges with
  | [] => none
  | first :: rest =>
    if first.smallest > first.largest then none
    else
      match ackBuildRanges first rest (quicWrInit bufsz) with
      | none => none
      | some wr =>
        if wr.bad then none
        else
          some
            { largest := first.largest
              delay := delay
              firstRange := first.largest - first.smallest
              rangeCount := rest.length
              rangeData := wr.out
              ecn := ecn }

end Cx.Quic
