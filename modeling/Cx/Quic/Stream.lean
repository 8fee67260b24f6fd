import Cx.Library.Table
import Cx.Quic.Frame
import Cx.Quic.Reasm
import Cx.Quic.SendBuf
import Mathlib.Logic.Function.Basic

/-!
# Streams

The stream layer: the two halves of every stream, the flow control they share, and the limits on
how many streams may exist.  The source works on a pointer into a table of streams; here a function
takes the stream as a value and stores it back with `QuicStreams.store`.

Calls to the handlers above are recorded in `QuicStreams.events`.  Whether memory can be had and
whether a new stream is accepted are the fields of `StreamEnv`.  Offsets within one stream stay far
below `2 ^ 64` and are natural numbers; `recvOff`, `recvRead` and `recvMax`, which add up over all
streams, wrap as the source's `uint64` does.
-/

namespace Cx.Quic

open Library Function

/-- A frame that is sent on its own and owed until the peer acknowledges it. -/
inductive QuicCtl where
  | idle
  | pending
  /-- In packet `pn`, which the peer has not answered yet. -/
  | sent (pn : Nat)
deriving DecidableEq, Repr

/-- Whether the item is in a packet that has not been answered. -/
def QuicCtl.isSent : QuicCtl → Bool
  | .sent _ => true
  | _ => false

def quicCtlQueue : QuicCtl := .pending

def quicCtlSent (pn : Nat) : QuicCtl := .sent pn

/-- Packet `pn` was acknowledged; the flag says whether it carried the item. -/
def quicCtlAcked (ctl : QuicCtl) (pn : Nat) : Bool × QuicCtl :=
  if ctl = .sent pn then (true, .idle) else (false, ctl)

/-- Packet `pn` was lost; the flag says whether it carried the item. -/
def quicCtlLost (ctl : QuicCtl) (pn : Nat) : Bool × QuicCtl :=
  if ctl = .sent pn then (true, .pending) else (false, ctl)

/-- Largest number of streams of one kind that can ever exist. -/
def QUIC_MAX_STREAM_COUNT : Nat := 2 ^ 60

def QUIC_STREAM_SEND_MAX : Nat := 256 * 1024

/-- Below this much room there is no point in building a STREAM frame. -/
def QUIC_STREAM_MIN_FRAME : Nat := 6

def QUIC_ERR_INTERNAL_ERROR : Nat := 0x01

def QUIC_ERR_FLOW_CONTROL_ERROR : Nat := 0x03

def QUIC_ERR_STREAM_LIMIT_ERROR : Nat := 0x04

def QUIC_ERR_STREAM_STATE_ERROR : Nat := 0x05

def QUIC_ERR_FINAL_SIZE_ERROR : Nat := 0x06

def QUIC_ERR_PROTOCOL_VIOLATION : Nat := 0x0a

def quicStreamUni (id : Nat) : Bool := id / 2 % 2 = 1

def quicStreamDir (id : Nat) : QuicDir := if quicStreamUni id then .uni else .bidi

def quicStreamLocal (id : Nat) (server : Bool) : Bool := decide (id % 2 = 1) == server

def quicStreamIndex (id : Nat) : Nat := id / 4

def quicStreamMakeId (index : Nat) (server uni : Bool) : Nat :=
  index * 4 + (if server then 1 else 0) + (if uni then 2 else 0)

inductive QuicSendState where
  | ready
  | send
  | dataSent
  | dataDone
  | resetSent
  | resetDone
  | none
deriving DecidableEq, Repr

inductive QuicRecvState where
  | recv
  | sizeKnown
  | dataRecvd
  | dataRead
  | reset
  | resetRead
  | none
deriving DecidableEq, Repr

structure QuicSendHalf where
  out : QuicSendBuf
  sendMax : Nat
  sendBlocked : Nat
  sendFinal : Nat
  resetError : Nat
  fin : QuicCtl
  reset : QuicCtl
  blocked : QuicCtl
  sendState : QuicSendState
  finAcked : Bool

structure QuicSendWait where
  sendWaitLow : Nat
  wantWritable : Bool

structure QuicRecvHalf where
  /-- The bytes received and not yet read; `in` in the source. -/
  inn : QuicReasm
  recvHighest : Nat
  recvFinal : Nat
  /-- Bytes the application has taken, or a reset made unreachable. -/
  recvRead : Nat
  /-- How far the limit is kept ahead of `recvRead`. -/
  recvWindow : Nat
  recvState : QuicRecvState
  recvFinalKnown : Bool

structure QuicRecvCtl where
  stopError : Nat
  maxData : QuicCtl
  stopSending : QuicCtl

/-- One stream.  A half that cannot exist stays in its `none` state. -/
structure QuicStreamState extends QuicSendHalf, QuicSendWait, QuicRecvHalf, QuicRecvCtl where
  id : Nat
  /-- On the list of streams with something to send or something in flight. -/
  active : Bool

/-- What the layer above is told: the handler calls, and the end of a stream reported by a read. -/
inductive QuicStreamEvent where
  | opened (id : Nat)
  | readable (id : Nat)
  | writable (id : Nat)
  | reset (id error : Nat)
  | stopped (id error : Nat)
  | closed (id : Nat)
  /-- A read set its `fin` result. -/
  | fin (id : Nat)
deriving DecidableEq, Repr

/-- The connection-wide frames the stream layer owes the peer, and what was complained about. -/
structure QuicStreamsCtl where
  sendBlocked : Nat
  streamsBlockedAt : QuicDir → Nat
  maxData : QuicCtl
  dataBlocked : QuicCtl
  maxStreams : QuicDir → QuicCtl
  streamsBlocked : QuicDir → QuicCtl

/-- Connection-level flow control of what this endpoint sends. -/
structure QuicSendFlow where
  sendMax : Nat
  sendOff : Nat
  sendMaxStreams : QuicDir → Nat
  nextLocal : QuicDir → Nat

structure QuicRecvFlow where
  recvMax : Nat
  recvOff : Nat
  recvRead : Nat
  /-- How far `recvMax` is kept ahead of `recvRead`. -/
  recvWindow : Nat

structure QuicRemoteCount where
  recvMaxStreams : QuicDir → Nat
  nextRemote : QuicDir → Nat

/-- The windows and limits that were configured or negotiated. -/
structure QuicStreamsConfig where
  server : Bool
  sendBufMax : Nat
  sendLow : Nat
  localSdBidiLocal : Nat
  /-- This endpoint's window for bidirectional streams the peer opens. -/
  localSdBidiRemote : Nat
  localSdUni : Nat
  /-- The peer's window for bidirectional streams the peer opens. -/
  peerSdBidiLocal : Nat
  /-- The peer's window for bidirectional streams this endpoint opens. -/
  peerSdBidiRemote : Nat
  peerSdUni : Nat

/-- Every stream of one connection, and the connection-wide flow control they share. -/
structure QuicStreams extends QuicStreamsConfig, QuicSendFlow, QuicRecvFlow, QuicRemoteCount,
    QuicStreamsCtl where
  byId : Table QuicStreamState.id
  /-- Streams with something to send or something unacknowledged. -/
  active : List Nat
  error : Nat
  errorFrame : Nat
  events : List QuicStreamEvent

structure StreamEnv where
  alloc : Nat → Bool
  opens : Nat → Bool

structure QuicTransportParams where
  initMaxData : Nat
  /-- The initial limit of bidirectional streams the sender of the parameters opens. -/
  initMaxSdBidiLocal : Nat
  /-- The initial limit of bidirectional streams the other side opens. -/
  initMaxSdBidiRemote : Nat
  initMaxSdUni : Nat
  initMaxStreamsBidi : Nat
  initMaxStreamsUni : Nat
deriving DecidableEq, Repr

section

variable (ss : QuicStreams)

section

variable (st : QuicStreamState)

def QuicStreams.store : QuicStreams :=
  { ss with byId := ss.byId.put st }

def QuicStreams.tell (event : QuicStreamEvent) : QuicStreams :=
  { ss with events := ss.events ++ [event] }

/-- Record why the connection has to close, unless something went wrong before. -/
def streamsFail (error frameType : Nat) : QuicStreams :=
  if ss.error = 0 then { ss with error := error, errorFrame := frameType } else ss

def quicStreamFind (id : Nat) : Option QuicStreamState := ss.byId.find id

/-- Put a stream on the list of those the packet builder walks. -/
def streamArm : QuicStreams × QuicStreamState :=
  if st.active then (ss, st)
  else ({ ss with active := ss.active ++ [st.id] }, { st with active := true })

def streamPending : Bool :=
  st.stopSending = .pending || st.reset = .pending || st.maxData = .pending ||
    st.blocked = .pending || st.fin = .pending || quicSendBufPending st.out

/-- Whether the stream has something in flight, or bytes not yet acknowledged. -/
def streamOutstanding : Bool :=
  st.stopSending.isSent || st.reset.isSent || st.maxData.isSent || st.blocked.isSent ||
    st.fin.isSent || 0 < quicSendBufOutstanding st.out

def sendHalfDone : Bool :=
  st.sendState = .dataDone || st.sendState = .resetDone || st.sendState = .none

def recvHalfDone : Bool :=
  st.recvState = .dataRead || st.recvState = .resetRead || st.recvState = .none

/-- How much room the peer's two limits and the local buffer leave on a stream. -/
def sendRoom : Nat :=
  if st.sendState ≠ .ready ∧ st.sendState ≠ .send then 0
  else
    let room := st.sendMax - st.out.endOff
    let conn := ss.sendMax - ss.sendOff
    let room := if conn < room then conn else room
    let held := st.out.endOff - st.out.base
    let buf := ss.sendBufMax - held
    if buf < room then buf else room

/-- A stream as it is created: which halves exist and how far each may go depends on who opened it
and which way it runs. -/
def streamInit (id : Nat) : QuicStreamState :=
  let isLocal := quicStreamLocal id ss.server
  let isUni := quicStreamUni id
  let recvLimit :=
    if isUni then (if isLocal then 0 else ss.localSdUni)
    else if isLocal then ss.localSdBidiLocal else ss.localSdBidiRemote
  { id := id
    out := quicSendBufInit
    sendMax :=
      if isUni then (if isLocal then ss.peerSdUni else 0)
      else if isLocal then ss.peerSdBidiRemote else ss.peerSdBidiLocal
    sendBlocked := UINT64_MAX
    sendFinal := 0
    resetError := 0
    fin := .idle
    reset := .idle
    blocked := .idle
    sendState := if isUni && !isLocal then .none else .ready
    finAcked := false
    sendWaitLow := 0
    wantWritable := false
    inn := quicReasmInit recvLimit
    recvHighest := 0
    recvFinal := 0
    recvRead := 0
    recvWindow := recvLimit
    recvState := if isUni && isLocal then .none else .recv
    recvFinalKnown := false
    stopError := 0
    maxData := .idle
    stopSending := .idle
    active := false }

def streamCreate (id : Nat) : QuicStreams := ss.store (streamInit ss id)

/-- Raise the number of streams of one kind the peer may open. -/
def streamsGrantMore (dir : QuicDir) : QuicStreams :=
  if ss.recvMaxStreams dir ≥ QUIC_MAX_STREAM_COUNT then ss
  else
    { ss with
      recvMaxStreams := update ss.recvMaxStreams dir (ss.recvMaxStreams dir + 1)
      maxStreams := update ss.maxStreams dir quicCtlQueue }

/-- Remove a stream, giving its place back to the peer if the peer opened it. -/
def streamForget (id : Nat) : QuicStreams :=
  let ss := ss.tell (.closed id)
  let ss := { ss with byId := ss.byId.erase id }
  if quicStreamLocal id ss.server then ss else streamsGrantMore ss (quicStreamDir id)

/-- Forget a stream once neither half has anything left to do, or else store it. -/
def streamSettle : QuicStreams :=
  if !sendHalfDone st || !recvHalfDone st then ss.store st else streamForget ss st.id

end

/-- The identifier of the next stream of one kind the peer opens. -/
def remoteNextId (dir : QuicDir) : Nat :=
  quicStreamMakeId (ss.nextRemote dir) (!ss.server) (dir = .uni)

/-- Bring the next stream of one kind the peer opens into existence, and announce it. -/
def streamAdmitNext (dir : QuicDir) : QuicStreams :=
  let id := remoteNextId ss dir
  let ss := streamCreate ss id
  { ss with nextRemote := update ss.nextRemote dir (ss.nextRemote dir + 1) }.tell
    (.opened id)

end

section

variable (env : StreamEnv)

/-- Bring `count` streams into existence that follow the last one of their kind. -/
def streamAdmitLoop (dir : QuicDir) (frameType : Nat) : Nat → QuicStreams → Bool × QuicStreams
  | 0, ss => (true, ss)
  | count + 1, ss =>
    let admitted := streamAdmitNext ss dir
    if env.opens (remoteNextId ss dir) then streamAdmitLoop dir frameType count admitted
    else (false, streamsFail admitted QUIC_ERR_STREAM_LIMIT_ERROR frameType)

/-- Bring a stream the peer named into existence, along with every lower-numbered one of its
kind. -/
def streamAdmit (ss : QuicStreams) (id frameType : Nat) : Bool × QuicStreams :=
  let dir := quicStreamDir id
  let idx := quicStreamIndex id
  if quicStreamLocal id ss.server then
    (false, if idx ≥ ss.nextLocal dir then streamsFail ss QUIC_ERR_STREAM_STATE_ERROR frameType
      else ss)
  else if idx < ss.nextRemote dir then (false, ss)
  else if idx ≥ ss.recvMaxStreams dir then
    (false, streamsFail ss QUIC_ERR_STREAM_LIMIT_ERROR frameType)
  else streamAdmitLoop env dir frameType (idx + 1 - ss.nextRemote dir) ss

/-- The stream a received frame names, created if the peer is allowed to; without one, the flag says
whether the frame is ignored. -/
def streamForFrame (ss : QuicStreams) (id frameType : Nat) :
    Option QuicStreamState × Bool × QuicStreams :=
  match quicStreamFind ss id with
  | some st => (some st, false, ss)
  | none =>
    let (admitted, ss) := streamAdmit env ss id frameType
    if admitted then (quicStreamFind ss id, false, ss)
    else (none, decide (ss.error = 0), ss)

/-- Move a stream's receive limit forward once half of the window has been used. -/
def recvWindowUpdate (ss : QuicStreams) (st : QuicStreamState) : QuicStreams × QuicStreamState :=
  if st.recvWindow = 0 ∨ st.recvState ≠ .recv then (ss, st)
  else
    let want := st.recvRead + st.recvWindow
    if want ≤ st.inn.limit ∨ want - st.inn.limit < st.recvWindow / 2 then (ss, st)
    else
      streamArm ss { st with inn := { st.inn with limit := want }, maxData := quicCtlQueue }

/-- Move the connection's receive limit forward once half of the window has been used. -/
def connWindowUpdate (ss : QuicStreams) : QuicStreams :=
  if ss.recvWindow = 0 then ss
  else
    let want := uint64Add ss.recvRead ss.recvWindow
    if want ≤ ss.recvMax ∨ want - ss.recvMax < ss.recvWindow / 2 then ss
    else { ss with recvMax := want, maxData := quicCtlQueue }

/-- Count the bytes of a stream below `upto` as taken. -/
def recvReturn (ss : QuicStreams) (st : QuicStreamState) (upto : Nat) :
    QuicStreams × QuicStreamState :=
  if upto ≤ st.recvRead then (ss, st)
  else
    ({ ss with recvRead := uint64Add ss.recvRead (upto - st.recvRead) },
      { st with recvRead := upto })

/-- Give back the credit of bytes that will never reach the application. -/
def recvRelease (ss : QuicStreams) (st : QuicStreamState) (upto : Nat) :
    QuicStreams × QuicStreamState :=
  let returned := recvReturn ss st upto
  if upto ≤ st.recvRead then returned else (connWindowUpdate returned.1, returned.2)

/-- Set up the stream layer from this endpoint's own transport parameters. -/
def quicStreamsInit (server : Bool) (tp : QuicTransportParams) : QuicStreams where
  server := server
  sendBufMax := QUIC_STREAM_SEND_MAX
  sendLow := 0
  localSdBidiLocal := tp.initMaxSdBidiLocal
  localSdBidiRemote := tp.initMaxSdBidiRemote
  localSdUni := tp.initMaxSdUni
  peerSdBidiLocal := 0
  peerSdBidiRemote := 0
  peerSdUni := 0
  sendMax := 0
  sendOff := 0
  sendMaxStreams := fun _ => 0
  nextLocal := fun _ => 0
  recvMax := tp.initMaxData
  recvOff := 0
  recvRead := 0
  recvWindow := tp.initMaxData
  recvMaxStreams
    | .bidi => tp.initMaxStreamsBidi
    | .uni => tp.initMaxStreamsUni
  nextRemote := fun _ => 0
  sendBlocked := UINT64_MAX
  streamsBlockedAt := fun _ => UINT64_MAX
  maxData := .idle
  dataBlocked := .idle
  maxStreams := fun _ => .idle
  streamsBlocked := fun _ => .idle
  byId := .empty
  active := []
  error := 0
  errorFrame := 0
  events := []

def quicStreamsPeerParams (ss : QuicStreams) (tp : QuicTransportParams) : QuicStreams :=
  { ss with
    sendMax := tp.initMaxData
    peerSdBidiLocal := tp.initMaxSdBidiLocal
    peerSdBidiRemote := tp.initMaxSdBidiRemote
    peerSdUni := tp.initMaxSdUni
    sendMaxStreams
      | .bidi => tp.initMaxStreamsBidi
      | .uni => tp.initMaxStreamsUni }

def canRecv (ss : QuicStreams) (id : Nat) : Bool :=
  !(quicStreamUni id && quicStreamLocal id ss.server)

def canSend (ss : QuicStreams) (id : Nat) : Bool :=
  !(quicStreamUni id && !quicStreamLocal id ss.server)

/-- Take the credit a newly seen offset uses up, or fail. -/
def recvAccount (ss : QuicStreams) (st : QuicStreamState) (endOff frameType : Nat) :
    Except QuicStreams (QuicStreams × QuicStreamState) :=
  if endOff ≤ st.recvHighest then .ok (ss, st)
  else if endOff > st.inn.limit then
    .error (streamsFail ss QUIC_ERR_FLOW_CONTROL_ERROR frameType)
  else
    let delta := endOff - st.recvHighest
    if uint64Add ss.recvOff delta > ss.recvMax then
      .error (streamsFail ss QUIC_ERR_FLOW_CONTROL_ERROR frameType)
    else
      .ok ({ ss with recvOff := uint64Add ss.recvOff delta }, { st with recvHighest := endOff })

/-- Record the offset the peer says the stream ends at, or fail. -/
def recvFinalSize (ss : QuicStreams) (st : QuicStreamState) (size frameType : Nat) :
    Except QuicStreams QuicStreamState :=
  if st.recvFinalKnown then
    if size ≠ st.recvFinal then .error (streamsFail ss QUIC_ERR_FINAL_SIZE_ERROR frameType)
    else .ok st
  else if size < st.recvHighest then
    .error (streamsFail ss QUIC_ERR_FINAL_SIZE_ERROR frameType)
  else .ok { st with recvFinal := size, recvFinalKnown := true }

/-- Tell the layer above that there is something to read. -/
def recvNotify (ss : QuicStreams) (st : QuicStreamState) : QuicStreams :=
  ss.tell (.readable st.id)

/-- Do something with the stream a frame names, provided the frame may name it. -/
def withStream (ss : QuicStreams) (allowed : Bool) (id frameType : Nat)
    (act : QuicStreams → QuicStreamState → Bool × QuicStreams) : Bool × QuicStreams :=
  if !allowed then (false, streamsFail ss QUIC_ERR_STREAM_STATE_ERROR frameType)
  else
    match streamForFrame env ss id frameType with
    | (some st, _, ss) => act ss st
    | (none, ignore, ss) => (ignore, ss)

/-- Work out what the receiving half has become once bytes were stored. -/
def recvAdvance (st : QuicStreamState) : QuicStreamState :=
  let st :=
    if st.recvFinalKnown ∧ st.recvState = .recv then { st with recvState := .sizeKnown } else st
  if st.recvState = .sizeKnown ∧ st.inn.base + quicReasmReadable st.inn = st.recvFinal then
    { st with recvState := .dataRecvd }
  else st

def streamDataStore (ss : QuicStreams) (st : QuicStreamState)
    (frameType offset : Nat) (data : List UInt8) : Bool × QuicStreams :=
  if st.recvState = .reset ∨ st.recvState = .resetRead ∨ st.recvState = .dataRead then
    (true, ss.store st)
  else
    match if data.length > 0 then quicReasmAdd env.alloc st.inn offset data else some st.inn with
    | none => (false, (streamsFail ss QUIC_ERR_INTERNAL_ERROR frameType).store st)
    | some inn =>
      let st := recvAdvance { st with inn := inn }
      let ss := ss.store st
      if quicReasmReadable st.inn > 0 ∨ st.recvState = .dataRecvd then (true, recvNotify ss st)
      else (true, ss)

def streamData (ss : QuicStreams) (st : QuicStreamState) (frameType : Nat)
    (fin : Bool) (offset : Nat) (data : List UInt8) : Bool × QuicStreams :=
  let endOff := offset + data.length
  if st.recvFinalKnown ∧ (endOff > st.recvFinal ∨ (fin ∧ endOff ≠ st.recvFinal)) then
    (false, streamsFail ss QUIC_ERR_FINAL_SIZE_ERROR frameType)
  else
    match if fin then recvFinalSize ss st endOff frameType else .ok st with
    | .error failed => (false, failed)
    | .ok st =>
      match recvAccount ss st endOff frameType with
      | .error failed => (false, failed.store st)
      | .ok (ss, st) => streamDataStore env ss st frameType offset data

def handleStreamData (ss : QuicStreams) (frameType : Nat) (fin : Bool)
    (id offset : Nat) (data : List UInt8) : Bool × QuicStreams :=
  withStream env ss (canRecv ss id) id frameType fun ss st =>
    streamData env ss st frameType fin offset data

/-- The receiving half as a RESET_STREAM leaves it: what was buffered is not going to be read. -/
def recvAbandon (st : QuicStreamState) : QuicStreamState :=
  { st with recvState := .reset, inn := quicReasmInit st.inn.limit }

def streamReset (ss : QuicStreams) (st : QuicStreamState) (frameType error finalSize : Nat) :
    Bool × QuicStreams :=
  match recvFinalSize ss st finalSize frameType with
  | .error failed => (false, failed)
  | .ok st =>
    if st.recvState = .reset ∨ st.recvState = .resetRead then (true, ss.store st)
    else
      match recvAccount ss st st.recvFinal frameType with
      | .error failed => (false, failed.store st)
      | .ok (ss, st) =>
        let released := recvRelease ss (recvAbandon st) st.recvFinal
        let ss := released.1.store released.2
        (true, recvNotify (ss.tell (.reset st.id error)) released.2)

def handleResetStream (ss : QuicStreams) (frameType id error finalSize : Nat) :
    Bool × QuicStreams :=
  withStream env ss (canRecv ss id) id frameType fun ss st =>
    streamReset ss st frameType error finalSize

/-- The sending half once it is abandoned: nothing queued is worth sending any more. -/
def sendAbandon (st : QuicStreamState) (error : Nat) : QuicStreamState :=
  { st with
    sendFinal := st.out.endOff
    sendState := .resetSent
    resetError := error
    out := quicSendBufInit
    fin := .idle
    blocked := .idle
    reset := quicCtlQueue }

def sendReset (ss : QuicStreams) (st : QuicStreamState) (error : Nat) :
    QuicStreams × QuicStreamState :=
  if st.sendState ≠ .ready ∧ st.sendState ≠ .send ∧ st.sendState ≠ .dataSent then (ss, st)
  else streamArm ss (sendAbandon st error)

def streamStopped (ss : QuicStreams) (st : QuicStreamState) (error : Nat) : Bool × QuicStreams :=
  let done := sendReset (ss.tell (.stopped st.id error)) { st with stopError := error } error
  (true, done.1.store done.2)

def handleStopSending (ss : QuicStreams) (frameType id error : Nat) : Bool × QuicStreams :=
  withStream env ss (canSend ss id) id frameType fun ss st => streamStopped ss st error

/-- The room it takes to be worth waking a sender that wanted `want` bytes and had `room`: at least
the configured watermark, no more than the buffer holds, and more than there was. -/
def sendWatermark (ss : QuicStreams) (want room : Nat) : Nat :=
  let low := if want > ss.sendLow then want else ss.sendLow
  let low := if low > ss.sendBufMax then ss.sendBufMax else low
  if low ≤ room then room + 1 else low

/-- Record that the sender has stopped, and how much room it takes to be worth waking. -/
def sendWait (ss : QuicStreams) (st : QuicStreamState) (want room : Nat) : QuicStreamState :=
  let low := sendWatermark ss want room
  if st.wantWritable ∧ st.sendWaitLow ≥ low then st
  else { st with wantWritable := true, sendWaitLow := low }

/-- A stream out of room for any reason is one whose sender stopped and waits to hear it may go on.
-/
def sendStall (ss : QuicStreams) (st : QuicStreamState) : QuicStreamState :=
  if sendRoom ss st = 0 then sendWait ss st 1 0 else st

def sendUnblock (ss : QuicStreams) (st : QuicStreamState) : QuicStreams × QuicStreamState :=
  if !st.wantWritable then (ss, st)
  else
    let room := sendRoom ss st
    if room = 0 ∨ (room < st.sendWaitLow ∧ quicSendBufOutstanding st.out > 0) then (ss, st)
    else (ss.tell (.writable st.id), { st with wantWritable := false })

def QuicStreams.forEach (ss : QuicStreams)
    (visit : QuicStreams → QuicStreamState → QuicStreams) : QuicStreams :=
  ss.byId.keys.foldl
    (fun ss id =>
      match quicStreamFind ss id with
      | none => ss
      | some st => visit ss st) ss

/-- Handle a MAX_DATA frame: raising the connection's limit can free every stream at once. -/
def connMaxData (ss : QuicStreams) (max : Nat) : QuicStreams :=
  if max ≤ ss.sendMax then ss
  else
    let ss := ss.forEach fun ss st => ss.store (sendStall ss st)
    let ss := { ss with sendMax := max, dataBlocked := .idle }
    ss.forEach fun ss st =>
      let woken := sendUnblock ss st
      woken.1.store woken.2

def streamMaxData (ss : QuicStreams) (st : QuicStreamState) (max : Nat) : Bool × QuicStreams :=
  if max ≤ st.sendMax then (true, ss)
  else
    let woken := sendUnblock ss { sendStall ss st with sendMax := max, blocked := .idle }
    (true, woken.1.store woken.2)

def handleMaxStreamData (ss : QuicStreams) (frameType id max : Nat) : Bool × QuicStreams :=
  withStream env ss (canSend ss id) id frameType fun ss st => streamMaxData ss st max

def handleMaxStreams (ss : QuicStreams) (dir : QuicDir) (max : Nat) : QuicStreams :=
  if max > ss.sendMaxStreams dir then
    { ss with
      sendMaxStreams := update ss.sendMaxStreams dir max
      streamsBlocked := update ss.streamsBlocked dir .idle }
  else ss

/-- Handle a STREAM_DATA_BLOCKED frame: only the stream it names matters. -/
def handleBlocked (ss : QuicStreams) (frameType id : Nat) : Bool × QuicStreams :=
  withStream env ss (canRecv ss id) id frameType fun ss _ => (true, ss)

/-- Handle a frame the connection did not recognise as its own; the flag is false for a connection
error. -/
def quicStreamsFrame (ss : QuicStreams) (f : QuicFrame) : Bool × QuicStreams :=
  match f with
  | .stream fin _ _ id offset data => handleStreamData env ss f.type fin id offset data
  | .resetStream id error finalSize => handleResetStream env ss f.type id error finalSize
  | .stopSending id error => handleStopSending env ss f.type id error
  | .maxData max => (true, connMaxData ss max)
  | .maxStreamData id max => handleMaxStreamData env ss f.type id max
  | .maxStreams dir max => (true, handleMaxStreams ss dir max)
  | .dataBlocked _ | .streamsBlocked .. => (true, ss)
  | .streamDataBlocked id _ => handleBlocked env ss f.type id
  | _ => (false, streamsFail ss QUIC_ERR_PROTOCOL_VIOLATION f.type)

structure QuicFill where
  wr : QuicWr
  frames : List QuicFrame
  eliciting : Bool

def putFrame (fill : QuicFill) (f : QuicFrame) : Bool × QuicFill :=
  let need := quicFrameSize f
  if need = 0 ∨ need > quicWrLeft fill.wr then (false, fill)
  else
    let (written, wr) := quicFrameEncode fill.wr f
    if written then (true, { fill with wr := wr, frames := fill.frames ++ [f] })
    else (false, { fill with wr := wr })

/-- Write a frame that is owed until the peer acknowledges it, if it is waiting. -/
def putCtl (fill : QuicFill) (ctl : QuicCtl) (f : QuicFrame) (pn : Nat) : QuicFill × QuicCtl :=
  if ctl ≠ .pending then (fill, ctl)
  else
    let (written, fill) := putFrame fill f
    if written then ({ fill with eliciting := true }, quicCtlSent pn) else (fill, ctl)

/-- Write the connection-wide frames that count streams of one kind. -/
def fillConnDir (ss : QuicStreams) (fill : QuicFill) (pn : Nat) (dir : QuicDir) :
    QuicStreams × QuicFill :=
  let granted := putCtl fill (ss.maxStreams dir) (.maxStreams dir (ss.recvMaxStreams dir)) pn
  let refused := putCtl granted.1 (ss.streamsBlocked dir)
    (.streamsBlocked dir (ss.sendMaxStreams dir)) pn
  ({ ss with
      maxStreams := update ss.maxStreams dir granted.2
      streamsBlocked := update ss.streamsBlocked dir refused.2 },
    refused.1)

def fillConn (ss : QuicStreams) (fill : QuicFill) (pn : Nat) : QuicStreams × QuicFill :=
  let limit := putCtl fill ss.maxData (.maxData ss.recvMax) pn
  let complaint := putCtl limit.1 ss.dataBlocked (.dataBlocked ss.sendMax) pn
  let bidi := fillConnDir { ss with maxData := limit.2, dataBlocked := complaint.2 }
    complaint.1 pn .bidi
  fillConnDir bidi.1 bidi.2 pn .uni

/-- The room a STREAM frame needs beyond the bytes it carries. -/
def streamOverhead (st : QuicStreamState) : Nat :=
  1 + quicVarintSize st.id + quicVarintSize st.out.endOff + 2

def putStreamFrame (fill : QuicFill) (st : QuicStreamState) (off : Nat) (data : List UInt8)
    (fin : Bool) : Bool × QuicFill :=
  putFrame fill (.stream fin true (decide (off > 0)) st.id off data)

/-- Write STREAM frames until nothing is waiting or nothing more fits; `fuel` bounds the rounds. -/
def fillStreamDataLoop (pn : Nat) : Nat → QuicStreamState → QuicFill → QuicStreamState × QuicFill
  | 0, st, fill => (st, fill)
  | fuel + 1, st, fill =>
    let overhead := streamOverhead st
    let left := quicWrLeft fill.wr
    if left ≤ overhead then (st, fill)
    else
      match quicSendBufNext st.out (left - overhead) with
      | none => (st, fill)
      | some segment =>
        let fin : Bool := st.fin = .pending ∧
          segment.off + segment.data.length = st.out.endOff
        let (written, fill) := putStreamFrame fill st segment.off segment.data fin
        if !written then (st, fill)
        else
          let st := { st with
            out := quicSendBufSent st.out segment.off segment.data.length pn
            fin := if fin then quicCtlSent pn else st.fin }
          fillStreamDataLoop pn fuel st { fill with eliciting := true }

/-- Write what the sending half has to say. -/
def fillStreamData (st : QuicStreamState) (fill : QuicFill) (pn : Nat) :
    QuicStreamState × QuicFill :=
  if st.sendState ≠ .send ∧ st.sendState ≠ .dataSent then (st, fill)
  else
    let (st, fill) := fillStreamDataLoop pn (quicWrLeft fill.wr + 1) st fill
    if st.fin = .pending ∧ !quicSendBufPending st.out then
      let (written, fill) := putStreamFrame fill st st.out.endOff [] true
      if written then ({ st with fin := quicCtlSent pn }, { fill with eliciting := true })
      else (st, fill)
    else (st, fill)

def fillStreamCtl (st : QuicStreamState) (fill : QuicFill) (pn : Nat) :
    QuicStreamState × QuicFill :=
  let stop := putCtl fill st.stopSending (.stopSending st.id st.stopError) pn
  let limit := putCtl stop.1 st.maxData (.maxStreamData st.id st.inn.limit) pn
  let reset := putCtl limit.1 st.reset (.resetStream st.id st.resetError st.sendFinal) pn
  let complaint := putCtl reset.1 st.blocked (.streamDataBlocked st.id st.sendMax) pn
  ({ st with
      stopSending := stop.2
      maxData := limit.2
      reset := reset.2
      blocked := complaint.2 },
    complaint.1)

def fillStream (st : QuicStreamState) (fill : QuicFill) (pn : Nat) : QuicStreamState × QuicFill :=
  let owed := fillStreamCtl st fill pn
  fillStreamData owed.1 owed.2 pn

/-- Take a stream off the list, which forgets it if both its halves are done. -/
def streamRetire (ss : QuicStreams) (st : QuicStreamState) : QuicStreams :=
  streamSettle ss { st with active := false }

/-- Visit up to `visits` streams, each taken from the front of the list and put back at the end. -/
def fillLoop (pn : Nat) : Nat → QuicStreams → QuicFill → QuicStreams × QuicFill
  | 0, ss, fill => (ss, fill)
  | visits + 1, ss, fill =>
    match ss.active with
    | [] => (ss, fill)
    | id :: rest =>
      if quicWrLeft fill.wr < QUIC_STREAM_MIN_FRAME then (ss, fill)
      else
        let ss := { ss with active := rest }
        match quicStreamFind ss id with
        | none => fillLoop pn visits ss fill
        | some st =>
          let filled := fillStream st fill pn
          let st := filled.1
          if streamPending st ∨ streamOutstanding st then
            fillLoop pn visits { ss.store st with active := rest ++ [id] } filled.2
          else fillLoop pn visits (streamRetire ss st) filled.2

def quicStreamsFill (ss : QuicStreams) (bufsz pn : Nat) : QuicStreams × QuicFill :=
  let conn := fillConn ss ⟨quicWrInit bufsz, [], false⟩ pn
  fillLoop pn conn.1.active.length conn.1 conn.2

/-- Whether anything is waiting that only the congestion window is holding back. -/
def quicStreamsWantsToSend (ss : QuicStreams) : Bool :=
  ss.maxData = .pending || ss.dataBlocked = .pending ||
    [QuicDir.bidi, .uni].any (fun dir =>
      ss.maxStreams dir = .pending || ss.streamsBlocked dir = .pending) ||
    ss.active.any fun id => (quicStreamFind ss id).any streamPending

def streamAcked (st : QuicStreamState) (pn : Nat) : QuicStreamState :=
  let fin := quicCtlAcked st.fin pn
  let reset := quicCtlAcked st.reset pn
  let st := { st with
    out := quicSendBufAcked st.out pn
    stopSending := (quicCtlAcked st.stopSending pn).2
    maxData := (quicCtlAcked st.maxData pn).2
    blocked := (quicCtlAcked st.blocked pn).2
    fin := fin.2
    finAcked := fin.1 || st.finAcked
    reset := reset.2
    sendState := if reset.1 then .resetDone else st.sendState }
  if st.sendState = .dataSent ∧ st.finAcked ∧ quicSendBufOutstanding st.out = 0 then
    { st with sendState := .dataDone }
  else st

def streamLost (st : QuicStreamState) (pn : Nat) : QuicStreamState :=
  { st with
    out := quicSendBufLost st.out pn
    stopSending := (quicCtlLost st.stopSending pn).2
    fin := (quicCtlLost st.fin pn).2
    reset := (quicCtlLost st.reset pn).2
    maxData := (quicCtlLost st.maxData pn).2
    blocked := (quicCtlLost st.blocked pn).2 }

/-- What the answer to a packet changes in one stream; an acknowledgement can wake its sender. -/
def streamResolve (ss : QuicStreams) (st : QuicStreamState) (pn : Nat) (acked : Bool) :
    QuicStreams × QuicStreamState :=
  if acked then sendUnblock ss (streamAcked (sendStall ss st) pn) else (ss, streamLost st pn)

/-- Walk the list from position `i` on; `fuel` bounds the rounds. -/
def streamsResolveLoop (pn : Nat) (acked : Bool) : Nat → Nat → QuicStreams → QuicStreams
  | 0, _, ss => ss
  | fuel + 1, i, ss =>
    match ss.active[i]? with
    | none => ss
    | some id =>
      match quicStreamFind ss id with
      | none =>
        streamsResolveLoop pn acked fuel i { ss with active := ss.active.eraseIdx i }
      | some st =>
        let resolved := streamResolve ss st pn acked
        if !streamPending resolved.2 ∧ !streamOutstanding resolved.2 then
          streamsResolveLoop pn acked fuel i
            (streamRetire { resolved.1 with active := resolved.1.active.eraseIdx i }
              resolved.2)
        else streamsResolveLoop pn acked fuel (i + 1) (resolved.1.store resolved.2)

/-- Tell the streams that have something in flight what became of a packet. -/
def streamsResolve (ss : QuicStreams) (pn : Nat) (acked : Bool) : QuicStreams :=
  streamsResolveLoop pn acked ss.active.length 0 ss

def quicStreamsAcked (ss : QuicStreams) (pn : Nat) : QuicStreams :=
  streamsResolve
    { ss with
      maxData := (quicCtlAcked ss.maxData pn).2
      dataBlocked := (quicCtlAcked ss.dataBlocked pn).2
      maxStreams := fun dir => (quicCtlAcked (ss.maxStreams dir) pn).2
      streamsBlocked := fun dir => (quicCtlAcked (ss.streamsBlocked dir) pn).2 } pn true

def quicStreamsLost (ss : QuicStreams) (pn : Nat) : QuicStreams :=
  streamsResolve
    { ss with
      maxData := (quicCtlLost ss.maxData pn).2
      dataBlocked := (quicCtlLost ss.dataBlocked pn).2
      maxStreams := fun dir => (quicCtlLost (ss.maxStreams dir) pn).2
      streamsBlocked := fun dir => (quicCtlLost (ss.streamsBlocked dir) pn).2 } pn false

/-- Bring the next stream of one kind this endpoint opens into existence. -/
def streamOpenNext (ss : QuicStreams) (dir : QuicDir) : QuicStreams :=
  let ss := streamCreate ss (quicStreamMakeId (ss.nextLocal dir) ss.server (dir = .uni))
  { ss with nextLocal := update ss.nextLocal dir (ss.nextLocal dir + 1) }

/-- Open a stream; `none` when the peer's limit on how many may exist has been reached. -/
def quicStreamOpen (ss : QuicStreams) (uni : Bool) : Option Nat × QuicStreams :=
  let dir : QuicDir := if uni then .uni else .bidi
  if ss.nextLocal dir ≥ ss.sendMaxStreams dir then
    if ss.streamsBlockedAt dir ≠ ss.sendMaxStreams dir then
      (none, { ss with
        streamsBlockedAt := update ss.streamsBlockedAt dir (ss.sendMaxStreams dir)
        streamsBlocked := update ss.streamsBlocked dir quicCtlQueue })
    else (none, ss)
  else (some (quicStreamMakeId (ss.nextLocal dir) ss.server uni), streamOpenNext ss dir)

/-- How many more bytes `quicStreamSend` would take. -/
def quicStreamWritable (ss : QuicStreams) (id : Nat) : Nat :=
  match quicStreamFind ss id with
  | none => 0
  | some st => sendRoom ss st

/-- Complain, once per limit, that a stream's limit stopped a write. -/
def streamBlocked (ss : QuicStreams) (st : QuicStreamState) :
    Bool × QuicStreams × QuicStreamState :=
  if st.sendMax ≤ st.out.endOff ∧ st.sendBlocked ≠ st.sendMax then
    (true, streamArm ss { st with sendBlocked := st.sendMax, blocked := quicCtlQueue })
  else (false, ss, st)

/-- Complain, once per limit, that the connection's limit stopped a write. -/
def connBlocked (ss : QuicStreams) : Bool × QuicStreams :=
  if ss.sendMax ≤ ss.sendOff ∧ ss.sendBlocked ≠ ss.sendMax then
    (true, { ss with sendBlocked := ss.sendMax, dataBlocked := quicCtlQueue })
  else (false, ss)

/-- A write that could not be taken whole; the flag says whether the peer will be told. -/
def sendRefused (ss : QuicStreams) (st : QuicStreamState) (want : Nat) : Bool × QuicStreams :=
  let st := sendWait ss st want (sendRoom ss st)
  let stream := streamBlocked ss st
  let conn := connBlocked (stream.2.1.store stream.2.2)
  (stream.1 || conn.1, conn.2)

/-- Take bytes into the send buffer; `none` when they could not be stored. -/
def streamWrite (ss : QuicStreams) (st : QuicStreamState) (data : List UInt8) :
    Option (QuicStreams × QuicStreamState) :=
  if data.length > 0 then
    match quicSendBufAdd env.alloc st.out data with
    | none => none
    | some out =>
      some (streamArm { ss with sendOff := ss.sendOff + data.length }
        { st with out := out, sendState := .send })
  else some (ss, st)

/-- Queue bytes on a stream that can be written to; the number is how many were taken. -/
def streamSend (ss : QuicStreams) (st : QuicStreamState) (data : List UInt8) : Nat × QuicStreams :=
  let room := sendRoom ss st
  let taken := if data.length > room then data.take room else data
  match streamWrite env ss st taken with
  | none => (0, ss)
  | some (ss, st) =>
    if data.length > taken.length then (taken.length, (sendRefused ss st data.length).2)
    else (taken.length, ss.store st)

/-- Queue bytes to send; the number is how many were taken. -/
def quicStreamSend (ss : QuicStreams) (id : Nat) (data : List UInt8) : Nat × QuicStreams :=
  match quicStreamFind ss id with
  | none => (0, ss)
  | some st =>
    if st.sendState ≠ .ready ∧ st.sendState ≠ .send then (0, ss)
    else streamSend env ss st data

/-- Queue all the bytes or none; the flags say whether they were taken, and whether a refusal queued
a frame for the peer. -/
def quicStreamSendAll (ss : QuicStreams) (id : Nat) (data : List UInt8) :
    Bool × Bool × QuicStreams :=
  match quicStreamFind ss id with
  | none => (false, false, ss)
  | some st =>
    if st.sendState ≠ .ready ∧ st.sendState ≠ .send then (false, false, ss)
    else if sendRoom ss st < data.length then (false, sendRefused ss st data.length)
    else
      let sent := quicStreamSend env ss id data
      (decide (sent.1 = data.length), false, sent.2)

end

section

variable (ss : QuicStreams)

def quicStreamFinish (id : Nat) : QuicStreams :=
  match quicStreamFind ss id with
  | none => ss
  | some st =>
    if st.sendState ≠ .ready ∧ st.sendState ≠ .send then ss
    else
      let armed := streamArm ss { st with sendState := .dataSent, fin := quicCtlQueue }
      armed.1.store armed.2

def quicStreamReadable (id : Nat) : Nat :=
  match quicStreamFind ss id with
  | none => 0
  | some st => quicReasmReadable st.inn

/-- Take `count` readable bytes out of a stream and return their credit. -/
def streamTake (st : QuicStreamState) (count : Nat) : QuicStreams × QuicStreamState :=
  if count > 0 then
    let moved := recvWindowUpdate { ss with recvRead := uint64Add ss.recvRead count }
      { st with inn := quicReasmConsume st.inn count, recvRead := st.recvRead + count }
    (connWindowUpdate moved.1, moved.2)
  else (ss, st)

/-- The receiving half reached its end: report it, and forget the stream if the other half is done
as well. -/
def streamEnd (st : QuicStreamState) (recvState : QuicRecvState) : QuicStreams :=
  (streamSettle ss { st with recvState := recvState }).tell (.fin st.id)

def streamRecv (st : QuicStreamState) (outsz : Nat) : List UInt8 × Bool × QuicStreams :=
  if st.recvState = .reset then ([], true, streamEnd ss st .resetRead)
  else
    let readable := quicReasmReadable st.inn
    let count := if readable > outsz then outsz else readable
    let data := Memory.slice (quicReasmData st.inn) 0 count
    let taken := streamTake ss st count
    if taken.2.recvState = .dataRecvd ∧ quicReasmReadable taken.2.inn = 0 then
      (data, true, streamEnd taken.1 taken.2 .dataRead)
    else (data, false, taken.1.store taken.2)

/-- Read at most `outsz` bytes from a stream; the flag says whether its end was reached. -/
def quicStreamRecv (id outsz : Nat) : List UInt8 × Bool × QuicStreams :=
  match quicStreamFind ss id with
  | none => ([], false, ss)
  | some st => streamRecv ss st outsz

def quicStreamReset (id error : Nat) : QuicStreams :=
  match quicStreamFind ss id with
  | none => ss
  | some st =>
    let done := sendReset ss st error
    done.1.store done.2

/-- Tell the peer this endpoint wants nothing more on this stream. -/
def quicStreamStopSending (id error : Nat) : QuicStreams :=
  match quicStreamFind ss id with
  | none => ss
  | some st =>
    if st.recvState ≠ .recv then ss
    else
      let armed := streamArm ss { st with stopError := error, stopSending := quicCtlQueue }
      armed.1.store armed.2

end

end Cx.Quic
