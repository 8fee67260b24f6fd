import Cx.Quic.ConnSend
import Cx.Quic.StreamStep

/-!
# What happens to a connection

Datagrams arrive, TLS answers, timers expire and the application calls.  Opening a packet is left to
the datagram that carries it: `ConnDatagram.opens` says what a packet turns out to be, and what TLS
does with the handshake bytes it completes.
-/

namespace Cx.Quic

def QUIC_ERR_KEY_UPDATE_ERROR : Nat := 0x0e

inductive TlsQuicLevel where
  | initial
  | earlyData
  | handshake
  | app
deriving DecidableEq, Repr

inductive TlsEvent where
  | sendCrypto (level : TlsQuicLevel) (data : List UInt8)
  | secrets (level : TlsQuicLevel) (read write : Bool)
  | transportParams (data : List UInt8)
  | earlyParams (data : List UInt8)
  | earlyData (accepted : Bool)
  | complete
  | alert (alert : Nat)
deriving DecidableEq, Repr

structure TlsAnswer where
  ok : Bool
  events : List TlsEvent
deriving DecidableEq, Repr

inductive NetEcn where
  | notEct
  | ect1
  | ect0
  | ce
deriving DecidableEq, Repr

structure QuicOpened where
  h : QuicPktHdr
  payload : List UInt8
  newPhase : Bool
  tls : List TlsAnswer

structure ConnDatagram where
  peer : NetAddr
  ecn : Option NetEcn
  data : List UInt8
  /-- What the packet at the front of some bytes turns out to be, if there are keys that open it. -/
  opens : QuicPktHdr → List UInt8 → Option QuicOpened
  genuine : Bool

structure FrameProgress where
  any : Bool
  eliciting : Bool
  probing : Bool
  conn : QuicConn

structure RecvProgress where
  processed : Bool
  probing : Bool
  newest : Bool
  conn : QuicConn

namespace Conn

def onOwn (c : QuicConn) (change : QuicConnOwn → QuicConnOwn) : QuicConn :=
  { change c.toQuicConnOwn with recov := c.recov }

def abort (c : QuicConn) (error frameType : Nat) : QuicConn :=
  onOwn c fun own => quicConnAbort own error frameType

def frameAllowed (f : QuicFrame) (sp : QuicPns) (early : Bool) : Bool :=
  if sp = .app then
    match f with
    | .ack _ | .crypto .. | .newToken _ | .pathResponse _ | .handshakeDone => !early
    | _ => true
  else
    match f with
    | .padding _ | .ping | .ack _ | .crypto .. | .connClose .. => true
    | _ => false

def frameElicits : QuicFrame → Bool
  | .padding _ | .ack _ | .connClose .. | .connCloseApp .. => false
  | _ => true

def frameIsProbing : QuicFrame → Bool
  | .padding _ | .pathChallenge _ | .pathResponse _ | .newConnId .. => true
  | _ => false

/-- Compare the peer's counts of marked packets with what was marked. -/
def ecnOnAck (c : QuicConn) (sp : QuicPns) (f : QuicAck) (now : Time) : QuicConn :=
  let s := c.pns sp
  if c.ecnState = .off then c
  else
    match f.ecn with
    | none => if s.ecnAckedMarked > 0 then { c with ecnState := .off } else c
    | some (ect0, ect1, ce) =>
      if ect0 < s.ecn.1 ∨ ect1 < s.ecn.2.1 ∨ ce < s.ecn.2.2 then { c with ecnState := .off }
      else if (ect0 - s.ecn.1) + (ce - s.ecn.2.2) < s.ecnAckedMarked then
        { c with ecnState := .off }
      else
        { c with
          pns := Function.update c.pns sp { s with ecn := (ect0, ect1, ce) }
          ecnState := if (ect0 - s.ecn.1) + (ce - s.ecn.2.2) > 0 then .on else c.ecnState
          recov := if ce - s.ecn.2.2 > 0 then quicRecovOnEcnCe c.recov sp f.largest now
            else c.recov }

def handleAck (c : QuicConn) (sp : QuicPns) (f : QuicAck) (now : Time) : Bool × QuicConn :=
  let type := (QuicFrame.ack f).type
  let s := c.pns sp
  match quicAckIterInit f with
  | none => (false, abort c QUIC_ERR_FRAME_ENCODING_ERROR type)
  | some it =>
    match handleAckRanges s.next (f.rangeData.length + 2) it with
    | .error _ => (false, abort c QUIC_ERR_PROTOCOL_VIOLATION type)
    | .ok it =>
      if it.bad then (false, abort c QUIC_ERR_FRAME_ENCODING_ERROR type)
      else
        let own := setSpace c.toQuicConnOwn sp
          { s with
            largestAcked :=
              if s.largestAcked.all (· < f.largest) then some f.largest else s.largestAcked
            ecnAckedMarked := 0 }
        let done := quicRecovOnAck quicRecovHandlers sp f (handleAckDelay c.localTp sp f) now
          (c.recov, own)
        if !done.1 then (false, abort (ofRecov done.2) QUIC_ERR_FRAME_ENCODING_ERROR type)
        else (true, ecnOnAck (ofRecov done.2) sp f now)

def remoteRetire (prior : Nat) : List QuicRemoteCid → QuicConnOwn → List QuicRemoteCid × QuicConnOwn
  | [], c => ([], c)
  | entry :: rest, c =>
    if !entry.live ∨ entry.seq ≥ prior then
      let done := remoteRetire prior rest c
      (entry :: done.1, done.2)
    else
      let done := remoteRetire prior rest (cidQueueRetire c entry.seq)
      (QuicRemoteCid.zero :: done.1, done.2)

/-- Address packets to another ID of the peer if the one in use is gone. -/
def remoteReplace (c : QuicConnOwn) : QuicConnOwn :=
  if (remoteCid c).live then c
  else
    match c.remote.findIdx? (·.live) with
    | none => c
    | some index => { c with remoteActive := index }

/-- Store a connection ID of the peer; the flag is false for a connection error. -/
def remoteStore (c : QuicConnOwn) (frameType seq : Nat) (cid token : List UInt8) :
    Bool × QuicConnOwn :=
  match c.remote.find? fun entry => entry.live && entry.seq = seq with
  | some entry =>
    if entry.cid ≠ cid then (false, quicConnAbort c QUIC_ERR_PROTOCOL_VIOLATION frameType)
    else (true, c)
  | none =>
    match c.remote.findIdx? fun entry => !entry.live with
    | none => (false, quicConnAbort c QUIC_ERR_CONNECTION_ID_LIMIT_ERROR frameType)
    | some slot =>
      (true, remoteReplace
        { c with remote := c.remote.set slot ⟨cid, seq, some token, true⟩ })

def handleNewConnId (c : QuicConnOwn) (frameType seq retirePrior : Nat) (cid token : List UInt8) :
    Bool × QuicConnOwn :=
  if (remoteCid c).cid.length = 0 then
    (false, quicConnAbort c QUIC_ERR_PROTOCOL_VIOLATION frameType)
  else
    let c := { c with log := .newConnId seq retirePrior :: c.log }
    let c :=
      if retirePrior > c.remoteRetirePrior then
        let retired := remoteRetire retirePrior c.remote c
        { retired.2 with remoteRetirePrior := retirePrior, remote := retired.1 }
      else c
    if seq < c.remoteRetirePrior then (true, remoteReplace (cidQueueRetire c seq))
    else remoteStore c frameType seq cid token

section

variable (env : ConnEnv)

/-- Handle a RETIRE_CONNECTION_ID frame of a packet addressed to `dcid`. -/
def handleRetireConnId (c : QuicConnOwn) (frameType seq : Nat)
    (dcid : List UInt8) : Bool × QuicConnOwn :=
  if seq ≥ c.localNextSeq then (false, quicConnAbort c QUIC_ERR_PROTOCOL_VIOLATION frameType)
  else if c.local.any fun cid => cid.live && cid.seq = seq && cid.cid = dcid then
    (false, quicConnAbort c QUIC_ERR_PROTOCOL_VIOLATION frameType)
  else (true, cidRetireLocal env c seq)

def handleStreamFrame (c : QuicConnOwn) (f : QuicFrame) : Bool × QuicConnOwn :=
  let handled := quicStreamsFrame env.toStreamEnv c.streams f
  let c := { c with streams := handled.2 }
  if handled.1 then (true, c)
  else
    let c := quicConnAbort c handled.2.error handled.2.errorFrame
    if c.state ≠ .closing then (false, quicConnAbort c QUIC_ERR_INTERNAL_ERROR f.type)
    else (false, c)

def handleConnClose (c : QuicConnOwn) (error : Nat) (app : Bool) (reason : List UInt8)
    (now : Time) : QuicConnOwn :=
  let announce := c.state ≠ .draining ∧ c.state ≠ .closed
  let c := { c with
    state := .draining
    closePending := false
    closeDeadline := now + 3 * QUIC_INITIAL_RTT
    log := .closeRead c.state :: c.log }
  if announce then
    { c with
      closeError := error
      closeApp := app
      closeLocal := false
      closeReason := reason
      log := .closed :: c.log }
  else c

def handleDatagram (c : QuicConnOwn) (f : QuicFrame) (hasLen : Bool) (data : List UInt8) :
    Bool × QuicConnOwn :=
  let frameSize := quicVarintSize f.type + data.length +
    if hasLen then quicVarintSize data.length else 0
  if c.localTp.maxDatagramFrame = 0 ∨ frameSize > c.localTp.maxDatagramFrame then
    (false, quicConnAbort c QUIC_ERR_PROTOCOL_VIOLATION f.type)
  else (true, c)

def handleCrypto (c : QuicConnOwn) (sp : QuicPns) (frameType offset : Nat)
    (data : List UInt8) : Bool × QuicConnOwn :=
  match quicReasmAdd env.alloc (c.pns sp).cryptoIn offset data with
  | none => (false, quicConnAbort c QUIC_ERR_CRYPTO_BUFFER_EXCEEDED frameType)
  | some cryptoIn => (true, setSpace c sp { c.pns sp with cryptoIn := cryptoIn })

def handleHandshakeDone (c : QuicConn) (frameType : Nat) (now : Time) : Bool × QuicConn :=
  if c.server then (false, abort c QUIC_ERR_PROTOCOL_VIOLATION frameType)
  else if c.handshakeConfirmed then (true, c)
  else
    let c := { c with
      handshakeConfirmed := true
      pathValidated := true
      recov := quicRecovConfirmHandshake c.recov now
      log := .confirmed c.peer :: c.log }
    (true, onOwn (spaceDiscard c .handshake now) (cidReplenish env))

/-- The result of a handler that does not touch loss recovery. -/
def withOwn (c : QuicConn) (result : Bool × QuicConnOwn) : Bool × QuicConn :=
  (result.1, { result.2 with recov := c.recov })

/-- Handle a frame of a packet addressed to `dcid`; the flag is false for a connection error. -/
def handleFrame (c : QuicConn) (sp : QuicPns) (f : QuicFrame) (dcid : List UInt8)
    (now : Time) : Bool × QuicConn :=
  let own := c.toQuicConnOwn
  match f with
  | .padding _ | .ping => (true, c)
  | .ack fields => handleAck c sp fields now
  | .crypto offset data => withOwn c (handleCrypto env own sp f.type offset data)
  | .newToken token =>
    if c.server ∨ token.length = 0 then
      (false, abort c
        (if c.server then QUIC_ERR_PROTOCOL_VIOLATION else QUIC_ERR_FRAME_ENCODING_ERROR) f.type)
    else (true, c)
  | .newConnId seq retirePrior cid token =>
    withOwn c (handleNewConnId own f.type seq retirePrior cid token)
  | .retireConnId seq => withOwn c (handleRetireConnId env own f.type seq dcid)
  | .pathChallenge data =>
    (true, { c with
      pathResponseData := data
      pathResponse := quicCtlQueue
      respondElsewhere := false
      log := .challenged data :: c.log })
  | .pathResponse data =>
    (true, if data = c.pathChallengeData then
        { c with
          pathValidated := true
          pathDeadline := 0
          prev := none
          log := .answered c.peer data :: c.log }
      else c)
  | .datagram hasLen data => withOwn c (handleDatagram own f hasLen data)
  | .connClose error _ reason =>
    (true, onOwn c fun own => handleConnClose own error false reason now)
  | .connCloseApp error reason =>
    (true, onOwn c fun own => handleConnClose own error true reason now)
  | .handshakeDone => handleHandshakeDone env c f.type now
  | f => withOwn c (handleStreamFrame env own f)

/-- Process the frames of a packet; `fuel` bounds their number. -/
def processFramesLoop (sp : QuicPns) (h : QuicPktHdr) (now : Time) :
    Nat → QuicRd → FrameProgress → Bool × FrameProgress
  | 0, _, p => (true, p)
  | fuel + 1, rd, p =>
    match quicFrameDecode rd with
    | (none, rd) =>
      if rd.bad ∨ quicRdLeft rd > 0 then
        (false, { p with conn := abort p.conn QUIC_ERR_FRAME_ENCODING_ERROR 0 })
      else if !p.any then
        (false, { p with conn := abort p.conn QUIC_ERR_PROTOCOL_VIOLATION 0 })
      else (true, p)
    | (some f, rd) =>
      let p := { p with any := true }
      if !frameAllowed f sp (h.type = .rtt0) then
        (false, { p with conn := abort p.conn QUIC_ERR_PROTOCOL_VIOLATION f.type })
      else
        let p := { p with
          eliciting := p.eliciting || frameElicits f
          probing := p.probing && frameIsProbing f }
        match handleFrame env p.conn sp f h.dcid now with
        | (false, c) => (false, { p with conn := c })
        | (true, c) =>
          let p := { p with conn := c }
          if c.state = .draining ∨ c.state = .closed then (true, p)
          else processFramesLoop sp h now fuel rd p

/-- Process the frames of a packet; the flag is false when the connection is closing. -/
def processFrames (sp : QuicPns) (h : QuicPktHdr) (payload : List UInt8)
    (probing : Bool) (now : Time) (c : QuicConn) : Bool × FrameProgress :=
  processFramesLoop env sp h now (payload.length + 1) (quicRdInit payload)
    ⟨false, false, probing, c⟩

def spaceForLevel : TlsQuicLevel → QuicPns
  | .initial => .initial
  | .handshake => .handshake
  | .earlyData | .app => .app

def tlsSendCrypto (c : QuicConnOwn) (level : TlsQuicLevel) (data : List UInt8) : QuicConnOwn :=
  let sp := spaceForLevel level
  if (c.pns sp).discarded then c
  else
    match quicSendBufAdd env.alloc (c.pns sp).cryptoOut data with
    | none => c
    | some cryptoOut => setSpace c sp { c.pns sp with cryptoOut := cryptoOut }

def tlsSecrets (c : QuicConn) (level : TlsQuicLevel) (read write : Bool) : QuicConn :=
  if level = .earlyData then
    { c with earlyTx := c.earlyTx || write, earlyRx := c.earlyRx || read, earlyState := .live }
  else
    let sp := spaceForLevel level
    let s := c.pns sp
    { c with
      pns := Function.update c.pns sp { s with rx := s.rx || read, tx := s.tx || write }
      recov := if write then quicRecovSpaceReady c.recov sp else c.recov
      earlyTx := if !c.server ∧ sp = .app ∧ write then false else c.earlyTx }

/-- Whether none of the limits that early data runs under has become smaller. -/
def tpNotReduced (now was : QuicConnParams) : Bool :=
  now.initMaxData ≥ was.initMaxData && now.initMaxSdBidiLocal ≥ was.initMaxSdBidiLocal &&
    now.initMaxSdBidiRemote ≥ was.initMaxSdBidiRemote && now.initMaxSdUni ≥ was.initMaxSdUni &&
    now.initMaxStreamsBidi ≥ was.initMaxStreamsBidi &&
    now.initMaxStreamsUni ≥ was.initMaxStreamsUni && now.activeCidLimit ≥ was.activeCidLimit &&
    now.maxDatagramFrame ≥ was.maxDatagramFrame

/-- 0-RTT is armed, under the given limits or else under the peer's own. -/
def connEarlyOpen (c : QuicConnOwn) (tp : Option QuicConnParams) : QuicConnOwn :=
  if c.connected then c
  else
    { c with
      streams := quicStreamsPeerParams c.streams (tp.getD c.peerTp).toQuicTransportParams
      connected := true }

/-- TLS has the transport parameters of the session being resumed. -/
def tlsEarlyParams (c : QuicConnOwn) (data : List UInt8) : QuicConnOwn :=
  match quicTpDecode data true with
  | none => c
  | some tp => if c.server then c else connEarlyOpen { c with earlyTp := some tp } (some tp)

/-- The server refused the early data: every packet sent so far in the application space is lost. -/
def earlyRefused (c : QuicConn) : QuicConn :=
  let c := { c with earlyTx := false, earlyRx := false }
  if c.earlyState ≠ .live then c
  else
    ofRecov (quicRecovDiscardEarly quicRecovHandlers (c.pns .app).next c.now
      (c.recov, { c.toQuicConnOwn with earlyState := .refused }))

def tlsEarlyData (c : QuicConn) (accepted : Bool) : QuicConn :=
  if !accepted then earlyRefused c
  else if !c.server ∧ c.earlyTp.any (fun tp => !tpNotReduced c.peerTp tp) then
    abort c QUIC_ERR_PROTOCOL_VIOLATION 0
  else if c.server then onOwn c fun own => connEarlyOpen own none
  else c

/-- Whether the connection IDs in the peer's parameters are those of the handshake. -/
def tpNamesCids (c : QuicConnOwn) (tp : QuicConnParams) : Bool :=
  tp.initScid = some (remoteCid c).cid &&
    (c.server || (tp.origDcid = some c.origDcid && tp.retryScid = c.retryScid))

def tlsTransportParams (c : QuicConn) (data : List UInt8) : QuicConn :=
  match quicTpDecode data (!c.server) with
  | none => abort c QUIC_ERR_TRANSPORT_PARAMETER_ERROR 0
  | some tp =>
    let c := { c with peerTp := tp, log := .parameters :: c.log }
    if !tpNamesCids c.toQuicConnOwn tp then abort c QUIC_ERR_TRANSPORT_PARAMETER_ERROR 0
    else
      { c with
        remote :=
          if tp.resetToken.isSome then
            c.remote.modify c.remoteActive fun entry => { entry with resetToken := tp.resetToken }
          else c.remote
        mtu := if tp.maxUdpPayload < c.mtu then tp.maxUdpPayload else c.mtu
        recov := quicRecovSetMaxAckDelay c.recov (timeMS tp.maxAckDelay)
        peerTpValid := true }

/-- The layer above is told that the connection can carry data. -/
def connConnected (c : QuicConnOwn) : QuicConnOwn :=
  { c with
    streams := quicStreamsPeerParams c.streams c.peerTp.toQuicTransportParams
    connected := true }

def tlsComplete (c : QuicConn) : QuicConn :=
  let c : QuicConn := { c with
    handshakeComplete := true
    state := if c.state = .handshake ∨ c.state = .new then .connected else c.state
    earlyState := if c.earlyState = .live then .done else c.earlyState }
  let c :=
    if c.server then
      { c with
        handshakeConfirmed := true
        addrValidated := true
        earlyRx := false
        pathValidated := true
        handshakeDone := quicCtlQueue
        recov := quicRecovConfirmHandshake c.recov c.now
        discardHandshakeSoon := true
        log := .confirmed c.peer :: c.log }
    else c
  onOwn c fun own => connConnected (cidReplenish env own)

def tlsEvent (c : QuicConn) : TlsEvent → QuicConn
  | .sendCrypto level data => onOwn c fun own => tlsSendCrypto env own level data
  | .secrets level read write => tlsSecrets c level read write
  | .transportParams data => tlsTransportParams c data
  | .earlyParams data => onOwn c fun own => tlsEarlyParams own data
  | .earlyData accepted => tlsEarlyData c accepted
  | .complete => tlsComplete env c
  | .alert alert => onOwn c fun own => quicConnClose own (QUIC_ERR_CRYPTO_BASE + alert) false []

/-- Hand the handshake bytes that arrived in order to TLS; the flag is false when it fails. -/
def cryptoDrain (sp : QuicPns) : List TlsAnswer → QuicConn → Bool × QuicConn
  | [], c => (true, c)
  | answer :: answers, c =>
    let n := quicReasmReadable (c.pns sp).cryptoIn
    if (c.pns sp).discarded ∨ n = 0 then (true, c)
    else
      let c := answer.events.foldl (tlsEvent env) c
      if !answer.ok then
        (false, if c.state ≠ .closing then abort c (QUIC_ERR_CRYPTO_BASE + 80) 0 else c)
      else if (c.pns sp).discarded then (true, c)
      else
        cryptoDrain sp answers
          { c with pns := Function.update c.pns sp { c.pns sp with
              cryptoIn := quicReasmConsume (c.pns sp).cryptoIn n } }

/-- Count the mark of a received packet. -/
def quicAckStateEcn (as : QuicAckState) : NetEcn → QuicAckState
  | .notEct => as
  | .ect0 => { as with ecn := (as.ecn.1 + 1, as.ecn.2), ecnSeen := true }
  | .ect1 => { as with ecn := (as.ecn.1, as.ecn.2.1 + 1, as.ecn.2.2), ecnSeen := true }
  | .ce => { as with ecn := (as.ecn.1, as.ecn.2.1, as.ecn.2.2 + 1), ecnSeen := true }

def spaceForPktType : QuicPktType → Option QuicPns
  | .initial => some .initial
  | .handshake => some .handshake
  | .rtt0 | .short => some .app
  | .retry | .versionNeg | .unknown => none

def noteReceived (c : QuicConnOwn) (sp : QuicPns) (ack : QuicAckState) (d : ConnDatagram) :
    QuicConnOwn :=
  let c := setSpace c sp { c.pns sp with ack := d.ecn.elim ack (quicAckStateEcn ack) }
  if c.server ∧ sp = .handshake then
    { c with
      recvHandshakePkt := true
      addrValidated := true
      log := .handshakeRead d.peer :: c.log }
  else c

/-- Owe an acknowledgement for a packet that asks for one. -/
def noteEliciting (c : QuicConnOwn) (sp : QuicPns) (now : Time) : QuicConnOwn :=
  let s := c.pns sp
  setSpace c sp { s with
    ack := { s.ack with elicitCount := s.ack.elicitCount + 1, pending := true, deadline := now } }

/-- The source of the first packet is where a client sends to from then on. -/
def learnPeerCid (c : QuicConnOwn) (h : QuicPktHdr) : QuicConnOwn :=
  if !c.server ∧ !c.peerCidKnown ∧ h.type ≠ .short then
    { c with
      remote := c.remote.modify 0 fun entry => { entry with cid := h.scid }
      peerCidKnown := true }
  else c

def finishPacket (sp : QuicPns) (eliciting : Bool) (tls : List TlsAnswer)
    (now : Time) (c : QuicConn) : QuicConn :=
  let c := if eliciting then onOwn c fun own => noteEliciting own sp now else c
  match cryptoDrain env sp tls c with
  | (false, c) => c
  | (true, c) => if c.state = .new then { c with state := .handshake } else c

def processOpened (sp : QuicPns) (d : ConnDatagram) (opened : QuicOpened)
    (now : Time) (p : RecvProgress) : RecvProgress :=
  let as := (p.conn.pns sp).ack
  let p := { p with
    processed := true
    newest := p.newest || as.largest.all (· < opened.h.pn)
    conn := onOwn p.conn fun own => learnPeerCid own opened.h }
  match quicAckStateAdd as opened.h.pn now false with
  | (false, _) => p
  | (true, ack) =>
    let c := onOwn p.conn fun own => noteReceived own sp ack d
    match processFrames env sp opened.h opened.payload p.probing now c with
    | (false, frames) => { p with probing := frames.probing, conn := frames.conn }
    | (true, frames) =>
      { p with
        probing := frames.probing
        conn := finishPacket env sp frames.eliciting opened.tls now frames.conn }

/-- Both directions move on to the next generation of keys. -/
def keyUpdate (c : QuicConnOwn) : QuicConnOwn :=
  { c with
    keyPhase := !c.keyPhase
    txPhaseFirst := (c.pns .app).next
    keyPhaseAcked := false }

def processPacket (d : ConnDatagram) (h : QuicPktHdr) (pkt : List UInt8)
    (now : Time) (p : RecvProgress) : RecvProgress :=
  match spaceForPktType h.type with
  | none => p
  | some sp =>
    let s := p.conn.pns sp
    let rx := if h.type = .rtt0 then p.conn.earlyRx else s.rx
    if s.discarded ∨ !rx then p
    else
      match d.opens h pkt with
      | none => p
      | some opened =>
        if h.type ≠ .short ∨ !opened.newPhase then processOpened env sp d opened now p
        else if !p.conn.handshakeConfirmed then
          { p with conn := abort p.conn QUIC_ERR_KEY_UPDATE_ERROR 0 }
        else processOpened env sp d opened now { p with conn := onOwn p.conn keyUpdate }

def offersVersion (version : Nat) : List UInt8 → Bool
  | first :: second :: third :: fourth :: rest =>
    quicBigEndian 0 [first, second, third, fourth] = version || offersVersion version rest
  | _ => false

def handleVersionNeg (c : QuicConnOwn) (h : QuicPktHdr) : QuicConnOwn :=
  if c.server ∨ (c.pns .initial).ack.largest.isSome then c
  else if h.dcid ≠ (c.local.getD 0 QuicLocalCid.zero).cid ∨ h.scid ≠ (remoteCid c).cid then c
  else if offersVersion QUIC_VERSION_1 h.payload then c
  else
    connSilentClose c QUIC_ERR_CONNECTION_REFUSED
      "no mutually supported QUIC version".toUTF8.toList

/-- Handle a Retry packet: the handshake bytes go out again from the beginning. -/
def handleRetry (c : QuicConnOwn) (h : QuicPktHdr) (genuine : Bool) : QuicConnOwn :=
  let s := c.pns .initial
  if c.server ∨ c.retryScid.isSome ∨ s.ack.largest.isSome then c
  else if h.token.length = 0 ∨ h.pktLen < QUIC_TAG_LEN ∨ !genuine then c
  else if h.scid.length = 0 ∨ h.scid = c.origDcid then c
  else
    setSpace
      { c with
        retryScid := some h.scid
        remote := c.remote.modify 0 fun entry => { entry with cid := h.scid }
        peerCidKnown := false
        token := h.token }
      .initial { s with tx := true, rx := true, cryptoOut := quicSendBufReset s.cryptoOut }

/-- Process the packets of a datagram; an error is the connection where the call returns early. -/
def recvLoop (d : ConnDatagram) (now : Time) :
    Nat → List UInt8 → RecvProgress → Except QuicConn RecvProgress
  | 0, _, p => .ok p
  | fuel + 1, rest, p =>
    match quicHdrDecode rest p.conn.localCidLen with
    | none => .ok p
    | some h =>
      if h.pktLen = 0 ∨ h.pktLen > rest.length then .ok p
      else if p.conn.server ∧ h.type = .initial ∧ d.data.length < QUIC_INITIAL_MTU then .ok p
      else
        match h.type with
        | .versionNeg => .error (onOwn p.conn fun own => handleVersionNeg own h)
        | .retry =>
          .error (quicConnFlush (onOwn p.conn fun own => handleRetry own h d.genuine) now).2
        | .unknown => .ok p
        | _ =>
          let p := processPacket env d h rest now p
          if p.conn.state = .closed then .error p.conn
          else recvLoop d now fuel (rest.drop h.pktLen) p

def connPeerMoved (c : QuicConn) (peer : NetAddr) (probing newest : Bool) (now : Time) : QuicConn :=
  if probing then { c with respondElsewhere := true, respondTo := peer }
  else if !newest ∨ !c.server ∨ !c.handshakeConfirmed then c
  else
    let c := pathSwitch env c peer true now
    match c.remote.zipIdx.find? fun entry => entry.2 ≠ c.remoteActive && entry.1.live with
    | none => c
    | some entry => { c with remoteActive := entry.2 }

def checkStatelessReset (c : QuicConnOwn) (data : List UInt8) : QuicConnOwn :=
  if data.length < 21 + QUIC_RESET_TOKEN_LEN then c
  else
    let token := data.drop (data.length - QUIC_RESET_TOKEN_LEN)
    if c.remote.any fun entry => entry.live && entry.resetToken = some token then
      connSilentClose c QUIC_ERR_NO_ERROR "stateless reset".toUTF8.toList
    else c

def quicConnRecv (c : QuicConn) (d : ConnDatagram) (now : Time) : QuicConn :=
  if c.state = .closed then c
  else
    let elsewhere := d.peer ≠ c.peer
    let c := { c with
      now := now
      bytesRecv := c.bytesRecv + d.data.length
      log := .received d.peer d.data.length :: c.log }
    match recvLoop env d now (d.data.length + 1) d.data ⟨false, true, false, c⟩ with
    | .error c => c
    | .ok p =>
      if !p.processed then onOwn p.conn fun own => checkStatelessReset own d.data
      else
        let c := { p.conn with idleDeadline := now + idleTimeoutOf p.conn.toQuicConnOwn }
        let c := if elsewhere then connPeerMoved env c d.peer p.probing p.newest now else c
        let c := { c with
          pathRecv := c.pathRecv + d.data.length
          closePending := if c.state = .closing then true else c.closePending }
        if c.state = .draining then c else (quicConnFlush c now).2

/-- Run whatever the deadline was for. -/
def quicConnTick (c : QuicConn) (now : Time) : QuicConn :=
  if c.state = .closed then c
  else if c.state = .closing ∨ c.state = .draining then
    if c.closePending then (quicConnFlush c now).2
    else if c.closeDeadline ≠ 0 ∧ now ≥ c.closeDeadline then { c with state := .closed }
    else c
  else if now ≥ c.idleDeadline then
    onOwn c fun own => connSilentClose own QUIC_ERR_NO_ERROR "idle timeout".toUTF8.toList
  else
    let c := ofRecov (quicRecovOnTimeout quicRecovHandlers now
      (c.recov, { c.toQuicConnOwn with now := now }))
    let c := if c.pathDeadline ≠ 0 ∧ now ≥ c.pathDeadline ∧ !c.pathValidated then
        pathValidationFailed c
      else c
    let c := if c.state ≠ .closed ∧ c.mtuState = .done ∧ c.mtuRaiseAt ≠ 0 ∧ now ≥ c.mtuRaiseAt then
        onOwn c fun own =>
          mtuSearch { own with mtuRaiseAt := 0, mtuHigh := mtuCeiling own + 1 } now
      else c
    (quicConnFlush c now).2

def quicConnStart (c : QuicConn) (answer : TlsAnswer) (now : Time) : QuicConn :=
  if c.server ∨ c.state ≠ .new then c
  else
    let c := { c with
      state := .handshake
      now := now
      idleDeadline := now + idleTimeoutOf c.toQuicConnOwn }
    let c := answer.events.foldl (tlsEvent env) c
    if answer.ok then (quicConnFlush c now).2 else c

/-- Move to a new local address. -/
def quicConnMigrate (c : QuicConn) (now : Time) : QuicConn :=
  if c.state ≠ .connected ∨ !c.handshakeConfirmed then c
  else if c.peerTpValid ∧ c.peerTp.disableMigration then c
  else
    match c.remote.zipIdx.find? fun entry => entry.2 ≠ c.remoteActive && entry.1.live with
    | none => c
    | some entry =>
      { pathSwitch env c c.peer false now with remoteActive := entry.2, prev := none }

end

def quicConnMaxDatagram (c : QuicConnOwn) : Nat :=
  if c.localTp.maxDatagramFrame = 0 ∨ !c.peerTpValid ∨ c.peerTp.maxDatagramFrame = 0 then 0
  else
    let cap := if c.mtu > QUIC_MAX_DATAGRAM then QUIC_MAX_DATAGRAM else c.mtu
    let extra := 1 + (remoteCid c).cid.length + 4 + QUIC_TAG_LEN + QUIC_DGRAM_FRAME_OVERHEAD
    if cap ≤ extra then 0
    else
      let byPeer := c.peerTp.maxDatagramFrame - QUIC_DGRAM_FRAME_OVERHEAD
      if byPeer < cap - extra then byPeer else cap - extra

def quicConnDatagramSend (c : QuicConnOwn) (data : List UInt8) : QuicConnOwn :=
  if c.dgramOut.isSome ∨ c.state = .closing ∨ c.state = .draining ∨ c.state = .closed then c
  else if quicConnMaxDatagram c = 0 ∨ data.length > quicConnMaxDatagram c then c
  else { c with dgramOut := some data }

end Conn

/-- Whether the application makes the call; the others come from the connection. -/
def StreamOp.isCall : StreamOp → Bool
  | .params _ | .frame _ | .fill .. | .acked _ | .lost _ => false
  | _ => true

inductive ConnOp where
  | start (answer : TlsAnswer) (now : Time)
  | recv (d : ConnDatagram) (now : Time)
  | flush (now : Time)
  | tick (now : Time)
  | validatePath
  | migrate (now : Time)
  | close (error : Nat) (app : Bool) (reason : List UInt8)
  | datagramSend (data : List UInt8)
  | keyUpdate
  | stream (op : StreamOp)

/-- A call, and what the connection gets from outside while it runs. -/
structure ConnCall where
  env : ConnEnv
  op : ConnOp

def connStep (c : QuicConn) (call : ConnCall) : QuicConn :=
  match call.op with
  | .start answer now => Conn.quicConnStart call.env c answer now
  | .recv d now => Conn.quicConnRecv call.env c d now
  | .flush now => (Conn.quicConnFlush c now).2
  | .tick now => Conn.quicConnTick c now
  | .validatePath => Conn.onOwn c (Conn.quicConnValidatePath call.env)
  | .migrate now => Conn.quicConnMigrate call.env c now
  | .close error app reason => Conn.onOwn c fun own => Conn.quicConnClose own error app reason
  | .datagramSend data => Conn.onOwn c fun own => Conn.quicConnDatagramSend own data
  | .keyUpdate => Conn.onOwn c Conn.keyUpdate
  | .stream op =>
    if op.isCall then { c with streams := streamStep call.env.toStreamEnv c.streams op } else c

structure QuicConnConfig where
  server : Bool
  tp : QuicConnParams
  localCidLen : Nat
  cid : List UInt8 × List UInt8
  peer : NetAddr
  /-- The destination of the first packet before a Retry, if a server answered with one. -/
  origDcid : Option (List UInt8)
  /-- The destination of the first packet, which a client invents. -/
  clientDcid : List UInt8
  peerCid : List UInt8

def quicConnCreate (cfg : QuicConnConfig) : QuicConn where
  peer := cfg.peer
  prev := none
  pathDeadline := 0
  pathSent := 0
  pathRecv := 0
  pathAmpLimited := false
  pathValidated := false
  respondElsewhere := false
  respondTo := 0
  mtu := QUIC_INITIAL_MTU
  mtuState := .idle
  mtuLow := QUIC_INITIAL_MTU
  mtuHigh := QUIC_MAX_DATAGRAM + 1
  mtuProbing := 0
  mtuProbePn := none
  mtuTries := 0
  mtuRaiseAt := 0
  «local» := ⟨cfg.cid.1, 0, cfg.cid.2, .idle, true, false⟩ ::
    List.replicate (QUIC_MAX_CIDS - 1) QuicLocalCid.zero
  remote := ⟨if cfg.server then cfg.peerCid else cfg.clientDcid, 0, none, true⟩ ::
    List.replicate (QUIC_MAX_CIDS - 1) QuicRemoteCid.zero
  localNextSeq := 1
  remoteRetirePrior := 0
  localCidLen := cfg.localCidLen
  remoteActive := 0
  peerCidKnown := cfg.server
  origDcid := if cfg.server then cfg.origDcid.getD cfg.clientDcid else cfg.clientDcid
  retryScid := if cfg.server ∧ cfg.origDcid.isSome then some cfg.clientDcid else none
  token := []
  earlyTx := false
  earlyRx := false
  earlyState := .none
  earlyTp := none
  keyPhase := false
  txPhaseFirst := 0
  keyPhaseAcked := false
  handshakeComplete := false
  handshakeConfirmed := false
  addrValidated := cfg.server && cfg.origDcid.isSome
  sentHandshakePkt := false
  recvHandshakePkt := false
  discardHandshakeSoon := false
  connected := false
  closePending := false
  closeLocal := false
  closeApp := false
  closeError := 0
  closeFrameType := 0
  closeReason := []
  closeDeadline := 0
  handshakeDone := .idle
  pathResponse := .idle
  pathChallenge := .idle
  pathResponseData := List.replicate QUIC_PATH_DATA_LEN 0
  pathChallengeData := List.replicate QUIC_PATH_DATA_LEN 0
  retireQueue := []
  server := cfg.server
  state := .new
  ecnState := .testing
  ecnTestPkts := QUIC_ECN_TEST_PKTS
  now := 0
  localTp :=
    { cfg.tp with
      initScid := some cfg.cid.1
      resetToken := if cfg.server then some cfg.cid.2 else cfg.tp.resetToken
      origDcid := if cfg.server then some (cfg.origDcid.getD cfg.clientDcid) else cfg.tp.origDcid
      retryScid :=
        if cfg.server ∧ cfg.origDcid.isSome then some cfg.clientDcid else cfg.tp.retryScid }
  peerTp := quicTpDefaults
  peerTpValid := false
  pns := Function.update (fun _ => spaceInit) .initial { spaceInit with rx := true, tx := true }
  bytesRecv := 0
  bytesSent := 0
  idleDeadline := timeForever
  dgramOut := none
  streams := quicStreamsInit cfg.server cfg.tp.toQuicTransportParams
  log := if cfg.server ∧ cfg.origDcid.isSome then [.vouched cfg.peer] else []
  recov := quicRecovSpaceReady (quicRecovInit cfg.server QUIC_INITIAL_MTU) .initial

end Cx.Quic
