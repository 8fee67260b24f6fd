import Cx.Quic.Conn

/-!
# Sending packets

A datagram is built in two passes over the packet number spaces.  The first writes the frames;
everything that has to be sent again if the packet is lost notes the number the packet will have.
The second writes the headers and puts the packets on record with loss recovery, which has not heard
of those numbers before.  The network takes every datagram and the record never lacks memory.
-/

namespace Cx.Quic

def QUIC_FLUSH_MAX_DATAGRAMS : Nat := 16

def QUIC_MIN_PN_PAYLOAD : Nat := 4

/-- The least room in the congestion window that can carry a packet. -/
def QUIC_MIN_SEND_ROOM : Nat := 1 + QUIC_MAX_CID + 4 + QUIC_TAG_LEN + QUIC_MIN_PN_PAYLOAD

def QUIC_DGRAM_FRAME_OVERHEAD : Nat := 3

structure QuicPlan where
  pnLen : Nat
  payload : List UInt8
  frames : List QuicFrame
  elicit : Bool
  inFlight : Bool
  probe : Bool
  early : Bool

structure FlushPlan where
  /-- The connection, whose items note the packets they went into. -/
  own : QuicConnOwn
  plan : QuicPns → Option QuicPlan
  used : Nat
  scratchUsed : Nat

structure FlushOut where
  ok : Bool
  conn : QuicConn
  dlen : Nat
  elicited : Bool
  packets : List SentPacket

namespace Conn

section

variable (c : QuicConnOwn)

/-- Write a CONNECTION_CLOSE, without its explanation if that does not fit. -/
def putClose (sp : QuicPns) (fill : QuicFill) : QuicFill :=
  let asApp := c.closeApp && sp = .app
  let frame := fun reason : List UInt8 =>
    if asApp then QuicFrame.connCloseApp c.closeError reason
    else .connClose (if c.closeApp then QUIC_ERR_APPLICATION_ERROR else c.closeError)
      c.closeFrameType reason
  let reason := if c.closeApp && !asApp then [] else c.closeReason
  if reason.length > 0 then
    match putFrame fill (frame reason) with
    | (true, fill) => fill
    | (false, fill) => (putFrame fill (frame [])).2
  else (putFrame fill (frame [])).2

/-- The room a CRYPTO frame needs beyond the bytes it carries. -/
def cryptoOverhead (sb : QuicSendBuf) : Nat := 1 + quicVarintSize sb.endOff + 2

/-- Write CRYPTO frames until nothing is waiting or nothing more fits; `fuel` bounds the rounds. -/
def putCryptoLoop (pn : Nat) : Nat → QuicSendBuf → QuicFill → QuicSendBuf × QuicFill
  | 0, sb, fill => (sb, fill)
  | fuel + 1, sb, fill =>
    let overhead := cryptoOverhead sb
    let left := quicWrLeft fill.wr
    if left ≤ overhead then (sb, fill)
    else
      match quicSendBufNext sb (left - overhead) with
      | none => (sb, fill)
      | some segment =>
        match putFrame fill (.crypto segment.off segment.data) with
        | (false, fill) => (sb, fill)
        | (true, fill) =>
          putCryptoLoop pn fuel (quicSendBufSent sb segment.off segment.data.length pn)
            { fill with eliciting := true }

def putCrypto (sp : QuicPns) (fill : QuicFill) (pn : Nat) : QuicConnOwn × QuicFill :=
  let s := c.pns sp
  let put := putCryptoLoop pn (quicWrLeft fill.wr + 1) s.cryptoOut fill
  (setSpace c sp { s with cryptoOut := put.1 }, put.2)

/-- Repeat handshake bytes the peer has not answered for; the flag says whether there were any. -/
def putCryptoProbe (sp : QuicPns) (fill : QuicFill) : Bool × QuicFill :=
  let sb := (c.pns sp).cryptoOut
  let overhead := cryptoOverhead sb
  let left := quicWrLeft fill.wr
  if left ≤ overhead then (false, fill)
  else
    match quicSendBufProbe sb (left - overhead) with
    | none => (false, fill)
    | some segment =>
      match putFrame fill (.crypto segment.off segment.data) with
      | (false, fill) => (false, fill)
      | (true, fill) => (true, { fill with eliciting := true })

def putPing (fill : QuicFill) : QuicFill :=
  match putFrame fill .ping with
  | (false, fill) => fill
  | (true, fill) => { fill with eliciting := true }

/-- Write the frames of the entries of a list that are waiting, until one does not fit. -/
def putQueue {α : Type*} (waiting : α → Bool) (frame : α → QuicFrame) (sent : α → α) :
    List α → QuicFill → List α × QuicFill
  | [], fill => ([], fill)
  | entry :: rest, fill =>
    if !waiting entry then
      let put := putQueue waiting frame sent rest fill
      (entry :: put.1, put.2)
    else
      match putFrame fill (frame entry) with
      | (false, fill) => (entry :: rest, fill)
      | (true, fill) =>
        let put := putQueue waiting frame sent rest { fill with eliciting := true }
        (sent entry :: put.1, put.2)

def putRetires (queue : List QuicRetire) (fill : QuicFill) (pn : Nat) :
    List QuicRetire × QuicFill :=
  putQueue (fun entry => entry.ctl = .pending) (fun entry => .retireConnId entry.seq)
    (fun entry => { entry with ctl := quicCtlSent pn }) queue fill

/-- Write the NEW_CONNECTION_ID frames that wait. -/
def putAnnounces (cids : List QuicLocalCid) (fill : QuicFill) (pn : Nat) :
    List QuicLocalCid × QuicFill :=
  putQueue (fun cid => cid.live && !cid.retired && cid.announce = .pending)
    (fun cid => .newConnId cid.seq 0 cid.cid cid.resetToken)
    (fun cid => { cid with announce := quicCtlSent pn }) cids fill

/-- Write the connection's own frames.  A 0-RTT packet carries none that answers something. -/
def putAppFrames (fill : QuicFill) (pn : Nat) (early : Bool) : QuicConnOwn × QuicFill :=
  let done := if early then (fill, c.handshakeDone)
    else putCtl fill c.handshakeDone .handshakeDone pn
  let response := if early ∨ c.respondElsewhere then (done.1, c.pathResponse)
    else putCtl done.1 c.pathResponse (.pathResponse c.pathResponseData) pn
  let challenge := putCtl response.1 c.pathChallenge (.pathChallenge c.pathChallengeData) pn
  let retires := putRetires c.retireQueue challenge.1 pn
  let announces := putAnnounces c.local retires.2 pn
  ({ c with
      handshakeDone := done.2
      pathResponse := response.2
      pathChallenge := challenge.2
      retireQueue := retires.1
      «local» := announces.1 },
    announces.2)

/-- Write the unreliable datagram that waits, if it fits.  Nothing about it is noted. -/
def putDatagram (fill : QuicFill) : QuicConnOwn × QuicFill :=
  match c.dgramOut with
  | none => (c, fill)
  | some data =>
    match putFrame fill (.datagram true data) with
    | (false, fill) => (c, fill)
    | (true, fill) => ({ c with dgramOut := none }, { fill with eliciting := true })

def putStreams (fill : QuicFill) (budget pn : Nat) : QuicConnOwn × QuicFill :=
  let used := quicWrLen fill.wr
  if used < budget then
    let filled := quicStreamsFill c.streams (budget - used) pn
    ({ c with streams := filled.1 },
      { wr := { fill.wr with out := fill.wr.out ++ filled.2.wr.out }
        frames := fill.frames ++ filled.2.frames
        eliciting := fill.eliciting || (0 < quicWrLen filled.2.wr && filled.2.eliciting) })
  else (c, fill)

def putSpaceAck (sp : QuicPns) (fill : QuicFill) (pn : Nat) (now : Time) : QuicConnOwn × QuicFill :=
  let put := putAck c.localTp sp (c.pns sp).ack fill.wr pn now
  (setSpace c sp { c.pns sp with ack := put.1 }, { fill with wr := put.2 })

def putProbe (sp : QuicPns) (early : Bool) (fill : QuicFill) : QuicFill :=
  if early then putPing fill
  else
    match putCryptoProbe c sp fill with
    | (true, fill) => fill
    | (false, fill) => putPing fill

/-- Fill the payload of packet `pn`. -/
def buildPayload (sp : QuicPns) (early : Bool) (budget pn : Nat)
    (probe blocked : Bool) (now : Time) : QuicConnOwn × QuicFill :=
  let start : QuicFill := ⟨quicWrInit budget, [], false⟩
  if c.state = .closing then
    if !c.closePending ∨ early then (c, start) else (c, putClose c sp start)
  else
    let acked := if early then (c, start) else putSpaceAck c sp start pn now
    if blocked ∧ !probe then acked
    else
      let crypto := if early then acked else putCrypto acked.1 sp acked.2 pn
      let filled :=
        if sp = .app ∧ (early ∨ crypto.1.handshakeComplete) then
          let own := putAppFrames crypto.1 crypto.2 pn early
          let dgram := putDatagram own.1 own.2
          putStreams dgram.1 dgram.2 budget pn
        else crypto
      if probe ∧ !filled.2.eliciting then (filled.1, putProbe filled.1 sp early filled.2)
      else filled

def pktTypeForSpace : QuicPns → QuicPktType
  | .initial => .initial
  | .handshake => .handshake
  | .app => .short

/-- The header of a packet; the Length field of a long header always takes two bytes. -/
def buildHdr (sp : QuicPns) (early : Bool) (pnLen len : Nat) : QuicPktHdr :=
  let type := if early then .rtt0 else pktTypeForSpace sp
  { quicPktHdrZero with
    type := type
    version := QUIC_VERSION_1
    keyPhase := c.keyPhase
    dcid := (remoteCid c).cid
    pnLen := pnLen
    len := len
    scid := if type = .short then [] else (c.local.getD 0 QuicLocalCid.zero).cid
    lenSize := if type = .short then 0 else 2
    token := if type = .initial then c.token else [] }

end

/-- Whether anything waits that only the congestion window or the pacer holds back. -/
def connWantsToSend (c : QuicConn) : Bool :=
  QuicPns.all.any (fun sp => !(c.pns sp).discarded &&
      (0 < quicRecovProbes c.recov sp || quicSendBufPending (c.pns sp).cryptoOut)) ||
    c.handshakeDone = .pending || (c.pathResponse = .pending && !c.respondElsewhere) ||
    c.pathChallenge = .pending || c.dgramOut.isSome ||
    c.retireQueue.any (fun entry => entry.ctl = .pending) ||
    c.local.any (fun cid => cid.live && !cid.retired && cid.announce = .pending) ||
    quicStreamsWantsToSend c.streams

/-- What is left of a datagram once no more may go out than a multiple of what came in. -/
def ampLimit (received sent cap : Nat) : Option Nat :=
  let limit := received * 3
  if limit ≤ sent then none
  else if limit - sent < cap then some (limit - sent) else some cap

/-- How large the next datagram may be, as far as unproven addresses are concerned. -/
def flushCap (c : QuicConnOwn) : Option Nat :=
  let cap := if c.mtu > QUIC_MAX_DATAGRAM then QUIC_MAX_DATAGRAM else c.mtu
  let cap := if c.server ∧ !c.addrValidated then ampLimit c.bytesRecv c.bytesSent cap else some cap
  cap.bind fun cap =>
    if c.pathAmpLimited ∧ !c.pathValidated then ampLimit c.pathRecv c.pathSent cap else some cap

/-- Whether the congestion window or the pacer holds everything back, and how large the next
datagram may be. -/
def flushRoom (r : QuicRecovery) (cap : Nat) : Bool × Nat :=
  if !quicRecovCanSend r || !quicRecovPacerReady r then (true, cap)
  else
    let room := quicRecovWindowRoom r
    if room < QUIC_MIN_SEND_ROOM then (true, cap)
    else if room < cap then (false, room) else (false, cap)

def planSpace (r : QuicRecovery) (cap : Nat) (blocked : Bool) (now : Time) (f : FlushPlan)
    (sp : QuicPns) : FlushPlan :=
  let s := f.own.pns sp
  let early := sp = .app && !s.tx && f.own.earlyTx
  if s.discarded ∨ (!early ∧ !s.tx) then f
  else
    let pnLen := quicPnSize s.next s.largestAcked
    let hdrsz := quicHdrSize (buildHdr f.own sp early pnLen 0)
    if hdrsz = 0 ∨ f.used + hdrsz + QUIC_TAG_LEN + QUIC_MIN_PN_PAYLOAD > cap then f
    else
      let budget := cap - f.used - hdrsz - QUIC_TAG_LEN
      let budget := if budget > QUIC_MAX_DATAGRAM - f.scratchUsed then
        QUIC_MAX_DATAGRAM - f.scratchUsed else budget
      let probe := decide (quicRecovProbes r sp > 0)
      let built := buildPayload f.own sp early budget s.next probe blocked now
      if quicWrLen built.2.wr = 0 then { f with own := built.1 }
      else
        let payload := built.2.wr.out ++
          List.replicate (QUIC_MIN_PN_PAYLOAD - (pnLen + quicWrLen built.2.wr)) 0
        let elicit := built.2.eliciting
        { own := built.1
          plan := Function.update f.plan sp
            (some ⟨pnLen, payload, built.2.frames, elicit, elicit, probe && elicit, early⟩)
          used := f.used + (hdrsz + payload.length + QUIC_TAG_LEN)
          scratchUsed := f.scratchUsed + payload.length }

def padInitial (cap : Nat) (f : FlushPlan) : FlushPlan :=
  if (f.plan .initial).any (fun plan => !f.own.server || plan.elicit) ∧
      f.used < QUIC_INITIAL_MTU ∧ cap ≥ QUIC_INITIAL_MTU then
    let pad := QUIC_INITIAL_MTU - f.used
    let last : QuicPns :=
      if (f.plan .app).isSome then .app
      else if (f.plan .handshake).isSome then .handshake else .initial
    if pad ≤ QUIC_MAX_DATAGRAM - f.scratchUsed then
      { f with
        plan := Function.update f.plan last ((f.plan last).map fun plan =>
          { plan with payload := plan.payload ++ List.replicate pad 0, inFlight := true })
        used := f.used + pad
        scratchUsed := f.scratchUsed + pad }
    else f
  else f

/-- Write the header of the packet of one space, and put the packet on record. -/
def sendSpace (plan : QuicPns → Option QuicPlan) (now : Time) (f : FlushOut) (sp : QuicPns) :
    FlushOut :=
  match f.ok, plan sp with
  | false, _ | _, none => f
  | true, some p =>
    let s := f.conn.pns sp
    let h := { buildHdr f.conn.toQuicConnOwn sp p.early p.pnLen
        (p.payload.length + p.pnLen + QUIC_TAG_LEN) with
      pn := s.next, pnEnc := s.next % 256 ^ p.pnLen }
    if !(quicHdrEncode (quicWrInit (QUIC_MAX_DATAGRAM - f.dlen)) h).1 then { f with ok := false }
    else
      let outLen := quicHdrSize h + p.payload.length + QUIC_TAG_LEN
      let r := quicRecovOnSent true f.conn.recov sp s.next outLen p.elicit p.inFlight now
      { ok := true
        conn := { f.conn with
          recov := if p.probe then quicRecovProbeSent r sp else r
          pns := Function.update f.conn.pns sp { s with next := s.next + 1 }
          sentHandshakePkt := f.conn.sentHandshakePkt || sp = .handshake }
        dlen := f.dlen + outLen
        elicited := f.elicited || p.elicit
        packets := f.packets ++ [⟨sp, s.next, p.frames⟩] }

/-- Note that the packets of a datagram were marked for congestion. -/
def markSpaces (plan : QuicPns → Option QuicPlan) (c : QuicConn) : QuicConn :=
  { c with
    recov := QuicPns.all.foldl
      (fun r sp => if (plan sp).isSome then quicRecovMark r sp ((c.pns sp).next - 1) true false
        else r) c.recov
    ecnTestPkts := if c.ecnState = .testing ∧ c.ecnTestPkts > 0 then c.ecnTestPkts - 1
      else c.ecnTestPkts }

/-- What is accounted for once a datagram is built. -/
def flushSent (plan : QuicPns → Option QuicPlan) (f : FlushOut) (now : Time) : QuicConn :=
  let c := { f.conn with
    bytesSent := f.conn.bytesSent + f.dlen
    pathSent := f.conn.pathSent + f.dlen
    log := .sent f.conn.peer f.dlen f.packets :: f.conn.log }
  let c := if c.ecnState ≠ .off then markSpaces plan c else c
  let c := if c.state = .closing ∧ c.closePending then
      { c with closePending := false, closeDeadline := now + 3 * QUIC_INITIAL_RTT }
    else c
  if f.elicited then { c with idleDeadline := now + idleTimeoutOf c.toQuicConnOwn } else c

/-- Build and send one datagram.  The first flag is false when a header could not be written, the
second says whether anything went out. -/
def flushOne (c : QuicConn) (now : Time) : Bool × Bool × QuicConn :=
  match flushCap c.toQuicConnOwn with
  | none => (true, false, c)
  | some cap =>
    let room := flushRoom c.recov cap
    let planned := padInitial room.2 (QuicPns.all.foldl (planSpace c.recov room.2 room.1 now)
      ⟨c.toQuicConnOwn, fun _ => none, 0, 0⟩)
    let c := { c with toQuicConnOwn := planned.own }
    if planned.used = 0 then (true, false, c)
    else
      let sent := QuicPns.all.foldl (sendSpace planned.plan now) ⟨true, c, 0, false, []⟩
      if !sent.ok then (false, false, sent.conn)
      else (true, true, flushSent planned.plan sent now)

/-- Send a datagram with a single frame, padded to a size; the number is that of the packet. -/
def sendSolo (c : QuicConn) (dest : NetAddr) (f : QuicFrame) (padTo : Nat) (now : Time) :
    Option (Nat × QuicConn) :=
  let s := c.pns .app
  if s.discarded ∨ !s.tx ∨ padTo > QUIC_MAX_DATAGRAM then none
  else
    let pnLen := quicPnSize s.next s.largestAcked
    let hdrsz := quicHdrSize (buildHdr c.toQuicConnOwn .app false pnLen 0)
    if hdrsz = 0 ∨ hdrsz + QUIC_TAG_LEN ≥ padTo then none
    else
      let plen := padTo - hdrsz - QUIC_TAG_LEN
      let (written, wr) := quicFrameEncode (quicWrInit plen) f
      if !written ∨ wr.bad then none
      else
        let h := { buildHdr c.toQuicConnOwn .app false pnLen (plen + pnLen + QUIC_TAG_LEN) with
          pn := s.next, pnEnc := s.next % 256 ^ pnLen }
        if !(quicHdrEncode (quicWrInit QUIC_MAX_DATAGRAM) h).1 then none
        else
          let outLen := hdrsz + plen + QUIC_TAG_LEN
          let r := quicRecovOnSent true c.recov .app s.next outLen true true now
          some (s.next,
            { c with
              recov := if c.ecnState ≠ .off then quicRecovMark r .app s.next true false else r
              bytesSent := c.bytesSent + outLen
              pathSent := c.pathSent + outLen
              idleDeadline := now + idleTimeoutOf c.toQuicConnOwn
              pns := Function.update c.pns .app { s with next := s.next + 1 }
              log := .sent dest outLen [⟨.app, s.next, [f]⟩] :: c.log })

/-- Send the probe that the search for the path's size is waiting for. -/
def mtuProbeSend (c : QuicConn) (now : Time) : QuicConn :=
  if c.mtuState ≠ .searching ∨ c.mtuProbing = 0 ∨ c.mtuProbePn.isSome ∨
      !quicRecovCanSendSize c.recov c.mtuProbing ∨ !quicRecovPacerReady c.recov then c
  else
    match sendSolo c c.peer .ping c.mtuProbing now with
    | none =>
      { mtuProbeLost { c.toQuicConnOwn with mtuTries := QUIC_PMTU_PROBES } c.mtuProbing now with
        recov := c.recov }
    | some (pn, c) =>
      { c with mtuProbePn := some pn, recov := quicRecovMark c.recov .app pn false true }

/-- Answer a challenge that came from another address. -/
def pathRespondElsewhere (c : QuicConn) (now : Time) : QuicConn :=
  if !c.respondElsewhere ∨ c.pathResponse ≠ .pending then c
  else
    match sendSolo c c.respondTo (.pathResponse c.pathResponseData) QUIC_INITIAL_MTU now with
    | none => c
    | some (pn, c) => { c with pathResponse := quicCtlSent pn }

/-- Build datagrams until there is nothing to send, at most `count` of them. -/
def flushLoop (now : Time) : Nat → QuicConn → Bool × QuicConn
  | 0, c => (true, c)
  | count + 1, c =>
    match flushOne c now with
    | (false, _, c) => (false, c)
    | (true, false, c) => (true, c)
    | (true, true, c) => if c.state = .closing then (true, c) else flushLoop now count c

/-- What follows the datagrams of a flush: spaces that are no longer needed go, and the packets that
travel alone are sent. -/
def flushRest (c : QuicConn) (now : Time) : QuicConn :=
  let c := if !(c.pns .initial).discarded ∧
      ((!c.server ∧ c.sentHandshakePkt) ∨ (c.server ∧ c.recvHandshakePkt)) then
      spaceDiscard c .initial now
    else c
  let c := if c.discardHandshakeSoon then
      spaceDiscard { c with discardHandshakeSoon := false } .handshake now
    else c
  let c := pathRespondElsewhere c now
  let c := { mtuStart c.toQuicConnOwn now with recov := c.recov }
  let c := mtuProbeSend c now
  { c with recov := quicRecovSetAppLimited c.recov (!connWantsToSend c) }

/-- Send whatever is waiting; the flag is false when a header could not be written. -/
def quicConnFlush (c : QuicConn) (now : Time) : Bool × QuicConn :=
  if c.state = .draining ∨ c.state = .closed then (true, c)
  else
    let c := { c with now := now, recov := quicRecovPacerRefill c.recov now }
    match flushLoop now QUIC_FLUSH_MAX_DATAGRAMS c with
    | (false, c) => (false, c)
    | (true, c) => (true, flushRest c now)

end Conn

end Cx.Quic
