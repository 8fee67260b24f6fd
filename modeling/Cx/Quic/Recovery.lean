import Cx.Library.RingBuffer
import Cx.Quic.Frame

/-!
# Loss recovery and congestion control

The connection reports what went out and what came back; this answers with how much may be in
flight, when the next timer expires, and which packets were acknowledged or lost, each named by its
space and packet number alone.

What the connection does when a packet's fate is reported is a pair of handlers over a state of
their own.  The one for acknowledgements may ask for a new datagram size, which is the only way the
handlers reach back.
-/

namespace Cx.Quic

open Library Function

inductive QuicPns where
  | initial
  | handshake
  | app
deriving DecidableEq, Repr

def QuicPns.all : List QuicPns := [.initial, .handshake, .app]

theorem QuicPns.mem_all (sp : QuicPns) : sp ∈ QuicPns.all := by
  cases sp <;> decide

abbrev Time := Int

def timeForever : Time := 9223372036854775807

/-- Milliseconds as a duration. -/
def timeMS (ms : Int) : Time := ms * 1000

def QUIC_INITIAL_RTT : Time := timeMS 333

/-- How many later packets must be acknowledged before one is declared lost. -/
def QUIC_PACKET_THRESHOLD : Nat := 3

def QUIC_GRANULARITY : Time := timeMS 1

/-- How many probe timeouts of unbroken loss mean the path is gone. -/
def QUIC_PERSISTENT_CONGESTION_THRESHOLD : Int := 3

def QUIC_SENT_MAX_RETAIN : Nat := 4096

def QUIC_MAX_PTO_BACKOFF : Nat := 16

def QUIC_MAX_WINDOW : Nat := 64 * 2 ^ 20

structure QuicRtt where
  latest : Time
  smoothed : Time
  var : Time
  min : Time
  firstSample : Time
  haveSample : Bool
deriving DecidableEq, Repr

inductive QuicFate where
  | live
  | acked
  | lost
deriving DecidableEq, Repr

structure QuicSentPkt where
  sent : Time
  size : Nat
  fate : QuicFate
  ect0 : Bool
  pmtuProbe : Bool
  ackEliciting : Bool
  inFlight : Bool
  fresh : Bool
deriving DecidableEq, Repr

def QuicSentPkt.zero : QuicSentPkt := ⟨0, 0, .live, false, false, false, false, false⟩

structure QuicSentRing where
  pkts : RingBuffer QuicSentPkt
  basePn : Nat

def QuicSentRing.init : QuicSentRing := ⟨RingBuffer.empty QuicSentPkt.zero, 0⟩

def ringAt (ring : QuicSentRing) (pn : Nat) : Option QuicSentPkt :=
  if ring.pkts.count = 0 ∨ pn < ring.basePn then none
  else ring.pkts.get? (pn - ring.basePn)

/-- Record a packet at the end of the ring; the flag says whether it was recorded. -/
def ringPush (alloc : Bool) (ring : QuicSentRing) (pn : Nat) (pkt : QuicSentPkt) :
    Bool × QuicSentRing :=
  if ring.pkts.count ≠ 0 ∧ pn ≠ ring.basePn + ring.pkts.count then (false, ring)
  else
    let ring := if ring.pkts.count = 0 then { ring with basePn := pn } else ring
    match ring.pkts.push alloc QuicSentPkt.zero pkt with
    | none => (false, ring)
    | some pkts => (true, { ring with pkts := pkts })

/-- Drop resolved packets from the old end, at most `fuel` of them. -/
def ringTrimLoop (cutoff : Time) : Nat → QuicSentRing → QuicSentRing
  | 0, ring => ring
  | fuel + 1, ring =>
    match ring.pkts.get? 0 with
    | none => ring
    | some oldest =>
      if oldest.fate ≠ .live ∧
          (oldest.sent ≤ cutoff ∨ ring.pkts.count > QUIC_SENT_MAX_RETAIN) then
        ringTrimLoop cutoff fuel ⟨ring.pkts.pop, ring.basePn + 1⟩
      else ring

/-- Drop resolved packets that are old enough, or too many to keep. -/
def ringTrim (ring : QuicSentRing) (cutoff : Time) : QuicSentRing :=
  let ring := ringTrimLoop cutoff ring.pkts.count ring
  if ring.pkts.count = 0 then { ring with pkts := { ring.pkts with head := 0 } } else ring

/-- Loss recovery and congestion control for one connection. -/
structure QuicRecovery where
  server : Bool
  sent : QuicPns → QuicSentRing
  largestAcked : QuicPns → Option Nat
  lossTime : QuicPns → Time
  lastElicitSent : QuicPns → Time
  elicitInFlight : QuicPns → Nat
  probes : QuicPns → Nat
  ready : QuicPns → Bool
  discarded : QuicPns → Bool
  rtt : QuicRtt
  maxAckDelay : Time
  ptoCount : Nat
  timer : Time
  maxDatagram : Nat
  window : Nat
  inFlight : Nat
  ssthresh : Nat
  ccAcked : Nat
  recoveryStart : Time
  inRecovery : Bool
  tokens : Int
  tokenTime : Time
  handshakeConfirmed : Bool
  peerValidated : Bool
  appLimited : Bool
  nlost : Nat
  ncongestion : Nat
  npersistent : Nat

def ccInitialWindow (maxDatagram : Nat) : Nat :=
  let ten := 10 * maxDatagram
  let floor := if 2 * maxDatagram < 14720 then 14720 else 2 * maxDatagram
  if ten < floor then ten else floor

section

variable (r : QuicRecovery)

def ccMinWindow : Nat := 2 * r.maxDatagram

/-- Halve the window, once per round trip. -/
def ccOnCongestion (sentTime now : Time) : QuicRecovery :=
  if r.inRecovery ∧ sentTime ≤ r.recoveryStart then r
  else
    let half := r.window / 2
    let ssthresh := if half < ccMinWindow r then ccMinWindow r else half
    { r with
      inRecovery := true
      recoveryStart := now
      ssthresh := ssthresh
      window := ssthresh
      ccAcked := 0
      ncongestion := r.ncongestion + 1 }

/-- Raise the window by a datagram for each window's worth of acknowledged bytes. -/
def ccGrow (maxDatagram : Nat) : Nat → Nat → Nat → Nat × Nat
  | 0, ccAcked, window => (ccAcked, window)
  | fuel + 1, ccAcked, window =>
    if ccAcked ≥ window then ccGrow maxDatagram fuel (ccAcked - window) (window + maxDatagram)
    else (ccAcked, window)

/-- Grow the window for one acknowledged packet. -/
def ccOnAcked (p : QuicSentPkt) : QuicRecovery :=
  if r.inRecovery ∧ p.sent ≤ r.recoveryStart then r
  else if r.appLimited then r
  else
    let (ccAcked, window) :=
      if r.window < r.ssthresh then (r.ccAcked, r.window + p.size)
      else ccGrow r.maxDatagram (r.ccAcked + p.size) (r.ccAcked + p.size) r.window
    { r with
      ccAcked := ccAcked
      window := if window > QUIC_MAX_WINDOW then QUIC_MAX_WINDOW else window }

/-- Fold one round trip sample into the estimate. -/
def rttUpdate (latest ackDelay now : Time) : QuicRecovery :=
  let latest := if latest < 0 then 0 else latest
  if !r.rtt.haveSample then
    { r with
      rtt :=
        { latest := latest
          smoothed := latest
          var := latest.tdiv 2
          min := latest
          firstSample := now
          haveSample := true } }
  else
    let min := if latest < r.rtt.min then latest else r.rtt.min
    let delay := if r.handshakeConfirmed ∧ ackDelay > r.maxAckDelay then r.maxAckDelay
      else ackDelay
    let adjusted := if latest ≥ min + delay then latest - delay else latest
    let diff := if r.rtt.smoothed > adjusted then r.rtt.smoothed - adjusted
      else adjusted - r.rtt.smoothed
    { r with
      rtt := { r.rtt with
        latest := latest
        min := min
        var := (3 * r.rtt.var + diff).tdiv 4
        smoothed := (7 * r.rtt.smoothed + adjusted).tdiv 8 } }

def elicitTotal : Nat :=
  (QuicPns.all.map fun sp => if r.discarded sp then 0 else r.elicitInFlight sp).sum

/-- Whether the peer has proved it is at the address being sent to. -/
def peerValidated : Bool :=
  r.server || r.handshakeConfirmed || r.peerValidated

def ptoDuration : Time :=
  if !r.rtt.haveSample then 2 * QUIC_INITIAL_RTT
  else
    r.rtt.smoothed +
      if 4 * r.rtt.var < QUIC_GRANULARITY then QUIC_GRANULARITY else 4 * r.rtt.var

/-- The earliest time a packet becomes old enough to be lost, and its space. -/
def lossTimeAndSpace : Time × QuicPns :=
  QuicPns.all.foldl
    (fun best sp =>
      if r.discarded sp ∨ r.lossTime sp = 0 then best
      else if best.1 = 0 ∨ r.lossTime sp < best.1 then (r.lossTime sp, sp)
      else best)
    (0, .initial)

def idleProbeSpace : QuicPns :=
  if r.ready .handshake ∧ ¬ r.discarded .handshake then .handshake else .initial

/-- When to give up waiting and send a probe, and where. -/
def ptoTimeAndSpace (now : Time) : Time × QuicPns :=
  let shift := if r.ptoCount > QUIC_MAX_PTO_BACKOFF then QUIC_MAX_PTO_BACKOFF else r.ptoCount
  let base := ptoDuration r * 2 ^ shift
  if elicitTotal r = 0 then (now + base, idleProbeSpace r)
  else
    QuicPns.all.foldl
      (fun best sp =>
        if r.discarded sp ∨ r.elicitInFlight sp = 0 then best
        else if sp = .app ∧ ¬ r.handshakeConfirmed then best
        else
          let d := if sp = .app then base + r.maxAckDelay * 2 ^ shift else base
          let t := r.lastElicitSent sp + d
          if t < best.1 then (t, sp) else best)
      (timeForever, .initial)

def recovSetTimer (now : Time) : QuicRecovery :=
  let t := (lossTimeAndSpace r).1
  if t ≠ 0 then { r with timer := t }
  else if elicitTotal r = 0 ∧ peerValidated r then { r with timer := timeForever }
  else { r with timer := (ptoTimeAndSpace r now).1 }

/-- The datagram size the congestion controller counts windows in. -/
def quicRecovSetMaxDatagram (maxDatagram : Nat) : QuicRecovery :=
  if maxDatagram = 0 ∨ maxDatagram = r.maxDatagram then r
  else
    { r with
      maxDatagram := maxDatagram
      window := if r.window < 2 * maxDatagram then 2 * maxDatagram else r.window }

/-- What the connection does when the fate of a packet is reported.  The handler for an
acknowledgement may ask for a new datagram size. -/
structure QuicRecovHandlers (σ : Type*) where
  acked : QuicPns → Nat → QuicRecovery → σ → σ × Option Nat
  lost : QuicPns → Nat → QuicRecovery → σ → σ

def notifyAcked {σ : Type*} (h : QuicRecovHandlers σ) (sp : QuicPns) (pn : Nat)
    (s : QuicRecovery × σ) : QuicRecovery × σ :=
  match h.acked sp pn s.1 s.2 with
  | (x, none) => (s.1, x)
  | (x, some maxDatagram) => (quicRecovSetMaxDatagram s.1 maxDatagram, x)

def notifyLost {σ : Type*} (h : QuicRecovHandlers σ) (sp : QuicPns) (pn : Nat)
    (s : QuicRecovery × σ) : QuicRecovery × σ :=
  (s.1, h.lost sp pn s.1 s.2)

def sentSet (sp : QuicPns) (index : Nat) (p : QuicSentPkt) : QuicRecovery :=
  { r with
    sent := update r.sent sp
      { r.sent sp with pkts := (r.sent sp).pkts.set index p } }

/-- Take a packet whose fate is settled out of the counts of what is in flight. -/
def sentUncount (sp : QuicPns) (p : QuicSentPkt) : QuicRecovery :=
  { r with
    elicitInFlight :=
      if p.ackEliciting ∧ r.elicitInFlight sp > 0 then
        update r.elicitInFlight sp (r.elicitInFlight sp - 1)
      else r.elicitInFlight
    inFlight := if p.inFlight then uint64Sub r.inFlight p.size else r.inFlight }

/-- How long a run of losses has to last before the path counts as gone. -/
def persistentPeriod : Time :=
  (ptoDuration r + r.maxAckDelay) * QUIC_PERSISTENT_CONGESTION_THRESHOLD

/-- How far back resolved packets are kept. -/
def retainCutoff (now : Time) : Time := now - 2 * persistentPeriod r

/-- Look for an unbroken run of losses longer than `period`. -/
def persistentRun (firstSample period : Time) : Option Time → List QuicSentPkt → Bool
  | _, [] => false
  | start, p :: rest =>
    if p.fate ≠ .lost then persistentRun firstSample period none rest
    else if !p.ackEliciting then persistentRun firstSample period start rest
    else if p.sent < firstSample then persistentRun firstSample period none rest
    else
      match start with
      | none => persistentRun firstSample period (some p.sent) rest
      | some runStart =>
        if p.sent - runStart > period then true
        else persistentRun firstSample period start rest

/-- Whether the losses recorded amount to the path having gone away. -/
def persistentCongestion (sp : QuicPns) : Bool :=
  if !r.rtt.haveSample then false
  else persistentRun r.rtt.firstSample (persistentPeriod r) none (r.sent sp).pkts.toList

end

/-- Walk the ring from `index` on and declare lost what the acknowledgements have left behind.
The last component is when the latest lost packet that counts as congestion was sent. -/
def detectLossLoop {σ : Type*} (h : QuicRecovHandlers σ) (sp : QuicPns) (largest : Nat)
    (delay lostBefore : Time) :
    Nat → Nat → QuicRecovery × σ → Option Time → (QuicRecovery × σ) × Option Time
  | 0, _, s, largestLost => (s, largestLost)
  | fuel + 1, index, s, largestLost =>
    let pn := (s.1.sent sp).basePn + index
    match (s.1.sent sp).pkts.get? index with
    | none => (s, largestLost)
    | some p =>
      if pn > largest then (s, largestLost)
      else if p.fate ≠ .live then
        detectLossLoop h sp largest delay lostBefore fuel (index + 1) s largestLost
      else if p.sent > lostBefore ∧ largest < pn + QUIC_PACKET_THRESHOLD then
        let t := p.sent + delay
        let r :=
          if s.1.lossTime sp = 0 ∨ t < s.1.lossTime sp then
            { s.1 with lossTime := update s.1.lossTime sp t }
          else s.1
        detectLossLoop h sp largest delay lostBefore fuel (index + 1) (r, s.2) largestLost
      else
        let r := sentSet s.1 sp index { p with fate := .lost }
        let r := { r with nlost := r.nlost + 1 }
        let r := sentUncount r sp p
        let largestLost := if p.inFlight ∧ ¬ p.pmtuProbe then some p.sent else largestLost
        detectLossLoop h sp largest delay lostBefore fuel (index + 1)
          (notifyLost h sp pn (r, s.2)) largestLost

/-- How long a packet may stay unacknowledged once a later one was acknowledged. -/
def lossDelay (r : QuicRecovery) : Time :=
  let delay :=
    if r.rtt.haveSample then
      if r.rtt.latest > r.rtt.smoothed then r.rtt.latest else r.rtt.smoothed
    else QUIC_INITIAL_RTT
  let delay := (delay * 9).tdiv 8
  if delay < QUIC_GRANULARITY then QUIC_GRANULARITY else delay

def detectLossCongestion (r : QuicRecovery) (sp : QuicPns) (largestLost : Option Time)
    (now : Time) : QuicRecovery :=
  match largestLost with
  | none => r
  | some sentTime =>
    let r := ccOnCongestion r sentTime now
    if persistentCongestion r sp then
      { r with
        window := ccMinWindow r
        ccAcked := 0
        inRecovery := false
        npersistent := r.npersistent + 1 }
    else r

/-- Declare lost every packet left behind by number or by age. -/
def detectLoss {σ : Type*} (h : QuicRecovHandlers σ) (sp : QuicPns) (now : Time)
    (s : QuicRecovery × σ) : QuicRecovery × σ :=
  let r := { s.1 with lossTime := update s.1.lossTime sp 0 }
  match r.largestAcked sp with
  | none => (r, s.2)
  | some largest =>
    let delay := lossDelay r
    let (s, largestLost) := detectLossLoop h sp largest delay (now - delay)
      (r.sent sp).pkts.count 0 (r, s.2) none
    (detectLossCongestion s.1 sp largestLost now, s.2)

/-- How much may leave at once. -/
def pacerBurst (r : QuicRecovery) : Int := 10 * r.maxDatagram

def pacerRtt (r : QuicRecovery) : Time :=
  let srtt := if r.rtt.haveSample then r.rtt.smoothed else QUIC_INITIAL_RTT
  if srtt < QUIC_GRANULARITY then QUIC_GRANULARITY else srtt

def pacerRate (r : QuicRecovery) : Int :=
  if r.window < r.ssthresh then (r.window : Int) * 2 else ((r.window : Int) * 5).tdiv 4

def quicRecovPacerRefill (r : QuicRecovery) (now : Time) : QuicRecovery :=
  if r.tokenTime = 0 then { r with tokenTime := now, tokens := pacerBurst r }
  else if now ≤ r.tokenTime then r
  else
    let elapsed := if now - r.tokenTime > timeMS 1000 then timeMS 1000 else now - r.tokenTime
    let tokens := r.tokens + (elapsed * pacerRate r).tdiv (pacerRtt r)
    { r with
      tokenTime := now
      tokens := if tokens > pacerBurst r then pacerBurst r else tokens }

def quicRecovPacerReady (r : QuicRecovery) : Bool := r.tokens > 0

def quicRecovPacerNext (r : QuicRecovery) : Time :=
  if r.tokens > 0 then r.tokenTime
  else
    let rate := if pacerRate r < 1 then 1 else pacerRate r
    let wait := (((r.maxDatagram : Int) - r.tokens) * pacerRtt r).tdiv rate
    r.tokenTime + if wait < 1 then 1 else wait

/-- A round trip estimate without samples. -/
def QuicRtt.zero : QuicRtt := ⟨0, 0, 0, 0, 0, false⟩

def quicRecovInit (server : Bool) (maxDatagram : Nat) : QuicRecovery where
  server := server
  sent := fun _ => QuicSentRing.init
  largestAcked := fun _ => none
  lossTime := fun _ => 0
  lastElicitSent := fun _ => 0
  elicitInFlight := fun _ => 0
  probes := fun _ => 0
  ready := fun _ => false
  discarded := fun _ => false
  rtt := QuicRtt.zero
  maxAckDelay := timeMS 25
  ptoCount := 0
  timer := timeForever
  maxDatagram := maxDatagram
  window := ccInitialWindow maxDatagram
  inFlight := 0
  ssthresh := UINT64_MAX
  ccAcked := 0
  recoveryStart := 0
  inRecovery := false
  tokens := 0
  tokenTime := 0
  handshakeConfirmed := false
  peerValidated := false
  appLimited := false
  nlost := 0
  ncongestion := 0
  npersistent := 0

def quicRecovSetMaxAckDelay (r : QuicRecovery) (delay : Time) : QuicRecovery :=
  { r with maxAckDelay := delay }

/-- Whether the connection has run out of things to send. -/
def quicRecovSetAppLimited (r : QuicRecovery) (limited : Bool) : QuicRecovery :=
  { r with appLimited := limited }

def quicRecovSpaceReady (r : QuicRecovery) (sp : QuicPns) : QuicRecovery :=
  { r with ready := update r.ready sp true }

/-- Take the live packets of a discarded space out of what is in flight. -/
def discardUncount (inFlight : Nat) : List QuicSentPkt → Nat
  | [] => inFlight
  | p :: rest =>
    discardUncount
      (if p.fate = .live ∧ p.inFlight then uint64Sub inFlight p.size else inFlight) rest

def quicRecovDiscardSpace (r : QuicRecovery) (sp : QuicPns) (now : Time) : QuicRecovery :=
  if r.discarded sp then r
  else
    recovSetTimer
      { r with
        inFlight := discardUncount r.inFlight (r.sent sp).pkts.toList
        sent := update r.sent sp QuicSentRing.init
        discarded := update r.discarded sp true
        elicitInFlight := update r.elicitInFlight sp 0
        lossTime := update r.lossTime sp 0
        probes := update r.probes sp 0
        ptoCount := 0 }
      now

/-- Walk the application ring from `index` on and report every live packet below `pnEnd` lost. -/
def discardEarlyLoop {σ : Type*} (h : QuicRecovHandlers σ) (pnEnd : Nat) :
    Nat → Nat → QuicRecovery × σ → QuicRecovery × σ
  | 0, _, s => s
  | fuel + 1, index, s =>
    let pn := (s.1.sent .app).basePn + index
    match (s.1.sent .app).pkts.get? index with
    | none => s
    | some p =>
      if pn ≥ pnEnd then s
      else if p.fate ≠ .live then discardEarlyLoop h pnEnd fuel (index + 1) s
      else
        let r := sentSet s.1 .app index { p with fate := .lost }
        let r := sentUncount r .app p
        discardEarlyLoop h pnEnd fuel (index + 1) (notifyLost h .app pn (r, s.2))

/-- The server refused the 0-RTT packets below `pnEnd`. -/
def quicRecovDiscardEarly {σ : Type*} (h : QuicRecovHandlers σ) (pnEnd : Nat) (now : Time)
    (s : QuicRecovery × σ) : QuicRecovery × σ :=
  let s := discardEarlyLoop h pnEnd (s.1.sent .app).pkts.count 0 s
  (recovSetTimer s.1 now, s.2)

def quicRecovConfirmHandshake (r : QuicRecovery) (now : Time) : QuicRecovery :=
  recovSetTimer { r with handshakeConfirmed := true, peerValidated := true } now

def quicRecovPto (r : QuicRecovery) : Time := ptoDuration r

/-- Note something about a packet that has just been recorded. -/
def quicRecovMark (r : QuicRecovery) (sp : QuicPns) (pn : Nat) (ect0 pmtuProbe : Bool) :
    QuicRecovery :=
  match ringAt (r.sent sp) pn with
  | none => r
  | some p =>
    sentSet r sp (pn - (r.sent sp).basePn)
      { p with ect0 := p.ect0 || ect0, pmtuProbe := p.pmtuProbe || pmtuProbe }

def quicRecovMarkedEct0 (r : QuicRecovery) (sp : QuicPns) (pn : Nat) : Bool :=
  match ringAt (r.sent sp) pn with
  | none => false
  | some p => p.ect0

/-- The peer reported a packet marked congestion-experienced. -/
def quicRecovOnEcnCe (r : QuicRecovery) (sp : QuicPns) (largestAcked : Nat) (now : Time) :
    QuicRecovery :=
  match ringAt (r.sent sp) largestAcked with
  | none => ccOnCongestion r now now
  | some p => ccOnCongestion r p.sent now

def quicRecovOnPathChange (r : QuicRecovery) : QuicRecovery :=
  { r with
    window := ccInitialWindow r.maxDatagram
    ssthresh := UINT64_MAX
    ccAcked := 0
    inRecovery := false
    recoveryStart := 0
    rtt := { QuicRtt.zero with
      smoothed := QUIC_INITIAL_RTT
      var := QUIC_INITIAL_RTT.tdiv 2 }
    ptoCount := 0
    tokens := 0
    tokenTime := 0 }

/-- The record of a packet that goes out now. -/
def sentPkt (size : Nat) (ackEliciting inFlight : Bool) (now : Time) : QuicSentPkt :=
  { QuicSentPkt.zero with
    sent := now
    size := size % 2 ^ 32
    ackEliciting := ackEliciting
    inFlight := inFlight }

def sentCount (r : QuicRecovery) (sp : QuicPns) (size : Nat) (ackEliciting inFlight : Bool)
    (now : Time) : QuicRecovery :=
  { r with
    tokens := r.tokens - size
    inFlight := if inFlight then r.inFlight + size else r.inFlight
    elicitInFlight :=
      if ackEliciting then update r.elicitInFlight sp (r.elicitInFlight sp + 1)
      else r.elicitInFlight
    lastElicitSent :=
      if ackEliciting then update r.lastElicitSent sp now else r.lastElicitSent }

def quicRecovOnSent (alloc : Bool) (r : QuicRecovery) (sp : QuicPns) (pn size : Nat)
    (ackEliciting inFlight : Bool) (now : Time) : QuicRecovery :=
  if r.discarded sp then r
  else
    let pushed := ringPush alloc (r.sent sp) pn (sentPkt size ackEliciting inFlight now)
    let r := { r with sent := update r.sent sp pushed.2 }
    if !pushed.1 then r
    else
      let r := sentCount r sp size ackEliciting inFlight now
      if inFlight then recovSetTimer r now else r

structure QuicAckProgress (σ : Type*) where
  s : QuicRecovery × σ
  any : Bool
  sample : Option Time

/-- Acknowledge the live packets among `count` numbers from `pn` on. -/
def onAckPackets {σ : Type*} (h : QuicRecovHandlers σ) (sp : QuicPns) (largest : Nat) :
    Nat → Nat → QuicAckProgress σ → QuicAckProgress σ
  | 0, _, progress => progress
  | count + 1, pn, progress =>
    let r := progress.s.1
    match ringAt (r.sent sp) pn with
    | none => onAckPackets h sp largest count (pn + 1) progress
    | some p =>
      if p.fate ≠ .live then onAckPackets h sp largest count (pn + 1) progress
      else
        let r := sentSet r sp (pn - (r.sent sp).basePn)
          { p with fate := .acked, fresh := true }
        let r := sentUncount r sp p
        onAckPackets h sp largest count (pn + 1)
          { s := notifyAcked h sp pn (r, progress.s.2)
            any := true
            sample := if pn = largest ∧ p.ackEliciting then some p.sent
              else progress.sample }

def onAckRange {σ : Type*} (h : QuicRecovHandlers σ) (sp : QuicPns) (largest : Nat)
    (rg : QuicAckRange) (progress : QuicAckProgress σ) : QuicAckProgress σ :=
  let ring := progress.s.1.sent sp
  if ring.pkts.count = 0 then progress
  else
    let lo := if rg.smallest > ring.basePn then rg.smallest else ring.basePn
    let last := ring.basePn + ring.pkts.count - 1
    let hi := if rg.largest < last then rg.largest else last
    onAckPackets h sp largest (hi + 1 - lo) lo progress

def onAckRanges {σ : Type*} (h : QuicRecovHandlers σ) (sp : QuicPns) (largest : Nat) :
    Nat → QuicAckIter → QuicAckProgress σ → QuicAckIter × QuicAckProgress σ
  | 0, it, progress => (it, progress)
  | fuel + 1, it, progress =>
    match quicAckIterNext it with
    | (none, it) => (it, progress)
    | (some rg, it) => onAckRanges h sp largest fuel it (onAckRange h sp largest rg progress)

/-- Let the packets just acknowledged grow the window. -/
def onAckFresh (sp : QuicPns) : Nat → Nat → QuicRecovery → QuicRecovery
  | 0, _, r => r
  | fuel + 1, index, r =>
    match (r.sent sp).pkts.get? index with
    | none => r
    | some p =>
      if !p.fresh then onAckFresh sp fuel (index + 1) r
      else
        let r := sentSet r sp index { p with fresh := false }
        onAckFresh sp fuel (index + 1) (if p.inFlight then ccOnAcked r p else r)

def recovTrim (r : QuicRecovery) (sp : QuicPns) (now : Time) : QuicRecovery :=
  { r with sent := update r.sent sp (ringTrim (r.sent sp) (retainCutoff r now)) }

def onAckSample (r : QuicRecovery) (sp : QuicPns) (sample : Option Time) (ackDelay now : Time) :
    QuicRecovery :=
  let r :=
    match sample with
    | none => r
    | some sampleSent => rttUpdate r (now - sampleSent) ackDelay now
  if sp = .handshake then { r with peerValidated := true } else r

def onAckTimer (r : QuicRecovery) (now : Time) : QuicRecovery :=
  recovSetTimer (if peerValidated r then { r with ptoCount := 0 } else r) now

/-- What remains to do once an acknowledgement has acknowledged something new. -/
def onAckFinish {σ : Type*} (h : QuicRecovHandlers σ) (sp : QuicPns) (sample : Option Time)
    (ackDelay now : Time) (s : QuicRecovery × σ) : QuicRecovery × σ :=
  let s := detectLoss h sp now (onAckSample s.1 sp sample ackDelay now, s.2)
  let r := onAckFresh sp (s.1.sent sp).pkts.count 0 s.1
  (onAckTimer (recovTrim r sp now) now, s.2)

def onAckLargest (r : QuicRecovery) (sp : QuicPns) (largest : Nat) : QuicRecovery :=
  match r.largestAcked sp with
  | none => { r with largestAcked := update r.largestAcked sp (some largest) }
  | some known =>
    if largest > known then
      { r with largestAcked := update r.largestAcked sp (some largest) }
    else r

/-- Process an acknowledgement; the flag is false when its ranges are malformed. -/
def quicRecovOnAck {σ : Type*} (h : QuicRecovHandlers σ) (sp : QuicPns) (f : QuicAck)
    (ackDelay now : Time) (s : QuicRecovery × σ) : Bool × QuicRecovery × σ :=
  if s.1.discarded sp then (true, s)
  else
    let r := onAckLargest s.1 sp f.largest
    match quicAckIterInit f with
    | none => (false, (r, s.2))
    | some it =>
      let (it, progress) :=
        onAckRanges h sp f.largest (f.rangeData.length + 2) it ⟨(r, s.2), false, none⟩
      if it.bad then (false, progress.s)
      else if !progress.any then (true, (recovSetTimer progress.s.1 now, progress.s.2))
      else (true, onAckFinish h sp progress.sample ackDelay now progress.s)

def quicRecovTimer (r : QuicRecovery) : Time := r.timer

def quicRecovOnTimeout {σ : Type*} (h : QuicRecovHandlers σ) (now : Time)
    (s : QuicRecovery × σ) : QuicRecovery × σ :=
  let (t, sp) := lossTimeAndSpace s.1
  if t ≠ 0 then
    if now ≥ t then
      let s := detectLoss h sp now s
      (recovSetTimer (recovTrim s.1 sp now) now, s.2)
    else (recovSetTimer s.1 now, s.2)
  else if s.1.timer = timeForever ∨ now < s.1.timer then s
  else
    let r := s.1
    let sp := if elicitTotal r = 0 then idleProbeSpace r else (ptoTimeAndSpace r now).2
    let r := { r with
      probes := if r.probes sp < 2 then update r.probes sp 2 else r.probes
      ptoCount := r.ptoCount + 1 }
    (recovSetTimer r now, s.2)

def quicRecovProbes (r : QuicRecovery) (sp : QuicPns) : Nat := r.probes sp

def quicRecovProbeSent (r : QuicRecovery) (sp : QuicPns) : QuicRecovery :=
  if r.probes sp > 0 then { r with probes := update r.probes sp (r.probes sp - 1) }
  else r

def quicRecovCanSend (r : QuicRecovery) : Bool := r.inFlight < r.window

def quicRecovCanSendSize (r : QuicRecovery) (size : Nat) : Bool := r.inFlight + size ≤ r.window

/-- How many more bytes may be put in flight. -/
def quicRecovWindowRoom (r : QuicRecovery) : Nat :=
  if r.inFlight ≥ r.window then 0 else r.window - r.inFlight

end Cx.Quic
