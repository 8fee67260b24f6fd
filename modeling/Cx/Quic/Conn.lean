import Cx.Quic.AckDelay
import Cx.Quic.Header

/-!
# The connection

A connection drives the handshake over CRYPTO frames, keeps the three packet number spaces, the
connection IDs of each end and the path they are reached at, and closes.  Whatever has to go again
if a packet is lost remembers the number of the packet it went into, and `connOnAcked` and
`connOnLost` ask each of those whether it was this one.

Loss recovery calls back into the rest of the connection, `QuicConnOwn`, of which the stream layer
is a part.  Which keys a space has is reduced to whether it has them, and packets are neither sealed
nor opened here.
-/

namespace Cx.Quic

open Library

def timeS (s : Int) : Time := s * 1000000

def QUIC_MAX_DATAGRAM : Nat := 1452

/-- Smallest datagram every endpoint accepts. -/
def QUIC_INITIAL_MTU : Nat := 1200

/-- How often one size is probed before the path is taken to be smaller. -/
def QUIC_PMTU_PROBES : Nat := 3

/-- The gap at which a search for the path's size ends. -/
def QUIC_PMTU_STEP : Nat := 16

/-- How long after a search the path is measured again. -/
def QUIC_PMTU_RAISE_INTERVAL : Time := timeS 600

/-- How many packets are marked before the peer's counts must show it. -/
def QUIC_ECN_TEST_PKTS : Nat := 10

/-- How many connection IDs are tracked in each direction. -/
def QUIC_MAX_CIDS : Nat := 8

def QUIC_MAX_CRYPTO_BUFFER : Nat := 64 * 1024

def QUIC_ERR_NO_ERROR : Nat := 0x00

def QUIC_ERR_CONNECTION_REFUSED : Nat := 0x02

def QUIC_ERR_FRAME_ENCODING_ERROR : Nat := 0x07

def QUIC_ERR_TRANSPORT_PARAMETER_ERROR : Nat := 0x08

def QUIC_ERR_CONNECTION_ID_LIMIT_ERROR : Nat := 0x09

def QUIC_ERR_APPLICATION_ERROR : Nat := 0x0c

def QUIC_ERR_CRYPTO_BUFFER_EXCEEDED : Nat := 0x0d

def QUIC_ERR_NO_VIABLE_PATH : Nat := 0x10

/-- What TLS alerts are added to. -/
def QUIC_ERR_CRYPTO_BASE : Nat := 0x100

abbrev NetAddr := Nat

inductive QuicConnState where
  | new
  | handshake
  | connected
  | closing
  | draining
  | closed
deriving DecidableEq, Repr

inductive QuicMtuState where
  | idle
  | searching
  | done
deriving DecidableEq, Repr

inductive QuicEcnState where
  | testing
  | on
  | off
deriving DecidableEq, Repr

inductive QuicEarlyState where
  | none
  | live
  | done
  | refused
deriving DecidableEq, Repr

structure QuicLocalCid where
  cid : List UInt8
  seq : Nat
  resetToken : List UInt8
  announce : QuicCtl
  live : Bool
  retired : Bool
deriving DecidableEq, Repr

def QuicLocalCid.zero : QuicLocalCid := ⟨[], 0, [], .idle, false, false⟩

structure QuicRemoteCid where
  cid : List UInt8
  seq : Nat
  resetToken : Option (List UInt8)
  live : Bool
deriving DecidableEq, Repr

def QuicRemoteCid.zero : QuicRemoteCid := ⟨[], 0, none, false⟩

structure QuicRetire where
  seq : Nat
  ctl : QuicCtl
deriving DecidableEq, Repr

structure QuicPnSpace where
  rx : Bool
  tx : Bool
  next : Nat
  largestAcked : Option Nat
  ack : QuicAckState
  cryptoIn : QuicReasm
  cryptoOut : QuicSendBuf
  /-- The ECN counts the peer last reported: ECT(0), ECT(1) and CE. -/
  ecn : Nat × Nat × Nat
  ecnAckedMarked : Nat
  discarded : Bool

def spaceInit : QuicPnSpace :=
  ⟨false, false, 0, none, quicAckStateInit, quicReasmInit QUIC_MAX_CRYPTO_BUFFER, quicSendBufInit,
    (0, 0, 0), 0, false⟩

structure QuicConnPath where
  peer : NetAddr
  prev : Option NetAddr
  pathDeadline : Time
  pathSent : Nat
  pathRecv : Nat
  pathAmpLimited : Bool
  pathValidated : Bool
  respondElsewhere : Bool
  respondTo : NetAddr

structure QuicConnMtu where
  mtu : Nat
  mtuState : QuicMtuState
  mtuLow : Nat
  mtuHigh : Nat
  mtuProbing : Nat
  mtuProbePn : Option Nat
  mtuTries : Nat
  mtuRaiseAt : Time

structure QuicConnIds where
  «local» : List QuicLocalCid
  remote : List QuicRemoteCid
  localNextSeq : Nat
  remoteRetirePrior : Nat
  localCidLen : Nat
  remoteActive : Nat
  peerCidKnown : Bool
  origDcid : List UInt8
  retryScid : Option (List UInt8)
  token : List UInt8

/-- How far the handshake has come, and which keys it left. -/
structure QuicConnHandshake where
  earlyTx : Bool
  earlyRx : Bool
  earlyState : QuicEarlyState
  earlyTp : Option QuicConnParams
  keyPhase : Bool
  txPhaseFirst : Nat
  keyPhaseAcked : Bool
  handshakeComplete : Bool
  handshakeConfirmed : Bool
  addrValidated : Bool
  sentHandshakePkt : Bool
  recvHandshakePkt : Bool
  discardHandshakeSoon : Bool
  connected : Bool

structure QuicConnClosing where
  closePending : Bool
  closeLocal : Bool
  closeApp : Bool
  closeError : Nat
  closeFrameType : Nat
  closeReason : List UInt8
  closeDeadline : Time

/-- The frames of the connection itself that are owed until the peer acknowledges them. -/
structure QuicConnCtl where
  handshakeDone : QuicCtl
  pathResponse : QuicCtl
  pathChallenge : QuicCtl
  pathResponseData : List UInt8
  pathChallengeData : List UInt8
  retireQueue : List QuicRetire

structure SentPacket where
  sp : QuicPns
  pn : Nat
  frames : List QuicFrame
deriving DecidableEq

inductive ConnEvent where
  | received (peer : NetAddr) (size : Nat)
  | sent (dest : NetAddr) (size : Nat) (packets : List SentPacket)
  | acked (pn : Nat)
  | vouched (peer : NetAddr)
  | handshakeRead (peer : NetAddr)
  | confirmed (peer : NetAddr)
  | challenged (data : List UInt8)
  | issued (peer : NetAddr) (data : List UInt8)
  | answered (peer : NetAddr) (data : List UInt8)
  | switched (old new : NetAddr) (peerChose : Bool)
  | parameters
  | newConnId (seq retirePrior : Nat)
  | retired (seq : Nat)
  | retireDropped (seq : Nat)
  | closeRead (state : QuicConnState)
  | closed
deriving DecidableEq

/-- What a connection holds besides loss recovery.  The log is no part of the code, and nothing
that the connection does depends on it. -/
structure QuicConnOwn extends QuicConnPath, QuicConnMtu, QuicConnIds, QuicConnHandshake,
    QuicConnClosing, QuicConnCtl where
  server : Bool
  state : QuicConnState
  ecnState : QuicEcnState
  ecnTestPkts : Nat
  now : Time
  localTp : QuicConnParams
  peerTp : QuicConnParams
  peerTpValid : Bool
  pns : QuicPns → QuicPnSpace
  bytesRecv : Nat
  bytesSent : Nat
  idleDeadline : Time
  dgramOut : Option (List UInt8)
  streams : QuicStreams
  log : List ConnEvent

structure QuicConn extends QuicConnOwn where
  recov : QuicRecovery

structure ConnEnv extends StreamEnv where
  /-- The connection ID and reset token that the random generator has for a sequence number. -/
  cid : Nat → Option (List UInt8 × List UInt8)
  challenge : Option (List UInt8)

namespace Conn

section

variable (c : QuicConnOwn)

def setSpace (sp : QuicPns) (s : QuicPnSpace) : QuicConnOwn :=
  { c with pns := Function.update c.pns sp s }

def quicConnClose (error : Nat) (app : Bool) (reason : List UInt8) : QuicConnOwn :=
  if c.state = .closing ∨ c.state = .draining ∨ c.state = .closed then c
  else
    { c with
      state := .closing
      closeError := error
      closeApp := app
      closeLocal := true
      closeFrameType := 0
      closePending := true
      closeReason := reason
      log := .closed :: c.log }

def quicConnAbort (error frameType : Nat) : QuicConnOwn :=
  { quicConnClose c error false [] with closeFrameType := frameType }

def connSilentClose (error : Nat) (reason : List UInt8) : QuicConnOwn :=
  if c.state = .closed then c
  else if c.state = .closing ∨ c.state = .draining then
    { c with state := .closed, closePending := false }
  else
    { c with
      state := .closed
      closeError := error
      closeApp := false
      closeLocal := true
      closePending := false
      closeReason := reason
      log := .closed :: c.log }

/-- The largest datagram worth trying. -/
def mtuCeiling : Nat :=
  let cap := QUIC_MAX_DATAGRAM
  let cap := if c.peerTpValid ∧ c.peerTp.maxUdpPayload < cap then c.peerTp.maxUdpPayload else cap
  if cap < QUIC_INITIAL_MTU then QUIC_INITIAL_MTU else cap

/-- Begin a search, or finish one when there is no longer a gap worth closing. -/
def mtuSearch (now : Time) : QuicConnOwn :=
  let ceiling := mtuCeiling c
  let c := if c.mtuHigh > ceiling + 1 then { c with mtuHigh := ceiling + 1 } else c
  let c := if c.mtuLow < QUIC_INITIAL_MTU then { c with mtuLow := QUIC_INITIAL_MTU } else c
  if c.mtuHigh ≤ c.mtuLow + QUIC_PMTU_STEP then
    { c with mtuState := .done, mtuProbing := 0, mtuRaiseAt := now + QUIC_PMTU_RAISE_INTERVAL }
  else
    { c with
      mtuState := .searching
      mtuProbing := c.mtuLow + (c.mtuHigh - c.mtuLow) / 2
      mtuTries := 0 }

def mtuStart (now : Time) : QuicConnOwn :=
  if c.mtuState ≠ .idle ∨ !c.handshakeConfirmed ∨ !c.pathValidated then c
  else mtuSearch { c with mtuLow := QUIC_INITIAL_MTU, mtuHigh := mtuCeiling c + 1 } now

/-- The probe of a size arrived; the number is what loss recovery is told, if anything. -/
def mtuProbeAcked (size : Nat) (now : Time) : QuicConnOwn × Option Nat :=
  if size > c.mtuLow then
    (mtuSearch { c with mtuLow := size, mtu := size, mtuProbing := 0 } now, some size)
  else (mtuSearch { c with mtuProbing := 0 } now, none)

def mtuProbeLost (size : Nat) (now : Time) : QuicConnOwn :=
  let c := { c with mtuTries := c.mtuTries + 1 }
  if c.mtuTries < QUIC_PMTU_PROBES then c
  else
    let c := if size < c.mtuHigh then { c with mtuHigh := size } else c
    mtuSearch { c with mtuProbing := 0 } now

def retireAcked (pn : Nat) : List QuicRetire → List QuicRetire
  | [] => []
  | entry :: rest =>
    match quicCtlAcked entry.ctl pn with
    | (true, _) => retireAcked pn rest
    | (false, ctl) => { entry with ctl := ctl } :: retireAcked pn rest

/-- What an acknowledged packet changes in its packet number space. -/
def spaceAcked (s : QuicPnSpace) (pn : Nat) (marked : Bool) : QuicPnSpace :=
  { s with
    cryptoOut := quicSendBufAcked s.cryptoOut pn
    ack := if s.ack.sentPn = some pn then { s.ack with sentPn := none } else s.ack
    ecnAckedMarked := if marked then s.ecnAckedMarked + 1 else s.ecnAckedMarked }

/-- What an acknowledged 1-RTT or 0-RTT packet changes in the stream layer and in the frames of the
connection itself. -/
def itemsAcked (pn : Nat) : QuicConnOwn :=
  { c with
    streams := quicStreamsAcked c.streams pn
    handshakeDone := (quicCtlAcked c.handshakeDone pn).2
    pathResponse := (quicCtlAcked c.pathResponse pn).2
    pathChallenge := (quicCtlAcked c.pathChallenge pn).2
    «local» := c.local.map fun cid => { cid with announce := (quicCtlAcked cid.announce pn).2 }
    retireQueue := retireAcked pn c.retireQueue
    log := .acked pn :: c.log }

end

/-- Loss recovery reports a packet acknowledged; the number is the datagram size it is told in
return, if anything. -/
def connOnAcked (sp : QuicPns) (pn : Nat) (recov : QuicRecovery) (c : QuicConnOwn) :
    QuicConnOwn × Option Nat :=
  let c := setSpace c sp (spaceAcked (c.pns sp) pn (quicRecovMarkedEct0 recov sp pn))
  if sp ≠ .app then (c, none)
  else
    let c := if pn ≥ c.txPhaseFirst then { c with keyPhaseAcked := true } else c
    let (c, told) :=
      if c.mtuProbePn = some pn then
        mtuProbeAcked { c with mtuProbePn := none } c.mtuProbing c.now
      else (c, none)
    (itemsAcked c pn, told)

/-- What a lost packet changes in its packet number space: another acknowledgement is owed for one
it carried. -/
def spaceLost (s : QuicPnSpace) (pn : Nat) : QuicPnSpace :=
  { s with
    cryptoOut := quicSendBufLost s.cryptoOut pn
    ack :=
      if s.ack.sentPn ≠ some pn then s.ack
      else if s.ack.ranges.length > 0 then
        { s.ack with sentPn := none, pending := true, deadline := 0 }
      else { s.ack with sentPn := none } }

/-- What a lost 1-RTT or 0-RTT packet changes in the stream layer and in the frames of the
connection itself. -/
def itemsLost (c : QuicConnOwn) (pn : Nat) : QuicConnOwn :=
  { c with
    streams := quicStreamsLost c.streams pn
    handshakeDone := (quicCtlLost c.handshakeDone pn).2
    pathResponse := (quicCtlLost c.pathResponse pn).2
    pathChallenge := (quicCtlLost c.pathChallenge pn).2
    «local» := c.local.map fun cid => { cid with announce := (quicCtlLost cid.announce pn).2 }
    retireQueue := c.retireQueue.map fun entry =>
      { entry with ctl := (quicCtlLost entry.ctl pn).2 } }

/-- Loss recovery reports a packet lost.  The loss of a probe is an answer and goes no further. -/
def connOnLost (sp : QuicPns) (pn : Nat) (_recov : QuicRecovery) (c : QuicConnOwn) : QuicConnOwn :=
  let c := setSpace c sp (spaceLost (c.pns sp) pn)
  if sp ≠ .app then c
  else if c.mtuProbePn = some pn then mtuProbeLost { c with mtuProbePn := none } c.mtuProbing c.now
  else itemsLost c pn

def quicRecovHandlers : QuicRecovHandlers QuicConnOwn := ⟨connOnAcked, connOnLost⟩

def ofRecov (s : QuicRecovery × QuicConnOwn) : QuicConn := { s.2 with recov := s.1 }

def spaceDiscard (c : QuicConn) (sp : QuicPns) (now : Time) : QuicConn :=
  if (c.pns sp).discarded then c
  else
    { c with
      pns := Function.update c.pns sp
        { spaceInit with cryptoIn := quicReasmInit 0, discarded := true }
      recov := quicRecovDiscardSpace c.recov sp now }

def cidGenerate (env : ConnEnv) (seq : Nat) : Option QuicLocalCid :=
  (env.cid seq).map fun generated => ⟨generated.1, seq, generated.2, .pending, true, false⟩

def cidLocalActive (c : QuicConnOwn) : Nat :=
  c.local.countP fun cid => cid.live && !cid.retired

def cidLocalWanted (c : QuicConnOwn) : Nat :=
  if c.localCidLen = 0 ∨ !c.peerTpValid then 1
  else if c.peerTp.activeCidLimit > QUIC_MAX_CIDS then QUIC_MAX_CIDS
  else c.peerTp.activeCidLimit

/-- Fill empty entries with new connection IDs while there are too few. -/
def cidReplenishLoop (env : ConnEnv) (want : Nat) :
    List QuicLocalCid → Nat → Nat → List QuicLocalCid × Nat
  | [], _, nextSeq => ([], nextSeq)
  | cid :: rest, active, nextSeq =>
    if active ≥ want then (cid :: rest, nextSeq)
    else if cid.live then
      let (rest, nextSeq) := cidReplenishLoop env want rest active nextSeq
      (cid :: rest, nextSeq)
    else
      match cidGenerate env nextSeq with
      | none => (cid :: rest, nextSeq)
      | some generated =>
        let (rest, nextSeq) := cidReplenishLoop env want rest (active + 1) (nextSeq + 1)
        (generated :: rest, nextSeq)

/-- Fill empty entries with new connection IDs, so that the peer has as many as it agreed to
hold. -/
def cidReplenish (env : ConnEnv) (c : QuicConnOwn) : QuicConnOwn :=
  let (cids, nextSeq) :=
    cidReplenishLoop env (cidLocalWanted c) c.local (cidLocalActive c) c.localNextSeq
  { c with «local» := cids, localNextSeq := nextSeq }

def cidClear (seq : Nat) : List QuicLocalCid → List QuicLocalCid
  | [] => []
  | cid :: rest =>
    if !cid.live ∨ cid.seq ≠ seq then cid :: cidClear seq rest else QuicLocalCid.zero :: rest

def cidRetireLocal (env : ConnEnv) (c : QuicConnOwn) (seq : Nat) : QuicConnOwn :=
  cidReplenish env { c with «local» := cidClear seq c.local }

def cidQueueRetire (c : QuicConnOwn) (seq : Nat) : QuicConnOwn :=
  let c := { c with log := .retired seq :: c.log }
  if c.retireQueue.any fun entry => entry.seq = seq then c
  else if c.retireQueue.length < QUIC_MAX_CIDS then
    { c with retireQueue := c.retireQueue ++ [⟨seq, quicCtlQueue⟩] }
  else { c with log := .retireDropped seq :: c.log }

def remoteCid (c : QuicConnOwn) : QuicRemoteCid := c.remote.getD c.remoteActive QuicRemoteCid.zero

def quicConnValidatePath (env : ConnEnv) (c : QuicConnOwn) : QuicConnOwn :=
  match env.challenge with
  | none => c
  | some data =>
    { c with
      pathChallengeData := data
      pathChallenge := quicCtlQueue
      pathValidated := false
      log := .issued c.peer data :: c.log }

/-- Move the connection onto a new path, of which nothing is known. -/
def pathSwitch (env : ConnEnv) (c : QuicConn) (peer : NetAddr) (peerChose : Bool) (now : Time) :
    QuicConn :=
  let recov := quicRecovOnPathChange (quicRecovSetMaxDatagram c.recov QUIC_INITIAL_MTU)
  let own := quicConnValidatePath env
    { c.toQuicConnOwn with
      prev := some c.peer
      peer := peer
      pathValidated := false
      pathSent := 0
      pathRecv := 0
      pathAmpLimited := peerChose
      mtu := QUIC_INITIAL_MTU
      mtuState := .idle
      mtuProbing := 0
      mtuProbePn := none
      mtuTries := 0
      mtuRaiseAt := 0
      ecnState := .testing
      ecnTestPkts := QUIC_ECN_TEST_PKTS
      pns := fun sp => { c.pns sp with ecn := (0, 0, 0), ecnAckedMarked := 0 }
      log := .switched c.peer peer peerChose :: c.log }
  { own with recov := recov, pathDeadline := now + 3 * quicRecovPto recov }

/-- The validation of the path ran out of time; the one before it is all there is to go back to. -/
def pathValidationFailed (c : QuicConn) : QuicConn :=
  let c := { c with pathDeadline := 0 }
  match c.prev with
  | none => ofRecov (c.recov, connSilentClose c.toQuicConnOwn QUIC_ERR_NO_VIABLE_PATH
      "path validation failed".toUTF8.toList)
  | some peer =>
    { c with
      peer := peer
      prev := none
      pathValidated := true
      pathSent := 0
      pathRecv := 0
      pathAmpLimited := false
      recov := quicRecovOnPathChange c.recov }

def idleTimeoutOf (c : QuicConnOwn) : Time :=
  let mine := c.localTp.maxIdleTimeout
  let peers := if c.peerTpValid then c.peerTp.maxIdleTimeout else 0
  let ms :=
    if mine ≠ 0 ∧ peers ≠ 0 then (if mine < peers then mine else peers)
    else if mine ≠ 0 then mine else peers
  if ms = 0 then timeForever
  else
    let ms := if ms > 86400000 then 86400000 else ms
    let t := timeMS ms
    let least := 3 * QUIC_INITIAL_RTT
    if t > least then t else least

end Conn

end Cx.Quic
