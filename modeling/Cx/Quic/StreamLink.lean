import Cx.Quic.AckState
import Cx.Quic.StreamHeld

/-!
# Two stream layers joined by a channel

The channel keeps every packet and may deliver any of them at any time, any number of times, or
never.  The receiver records the number of a packet before it handles the frames, and acknowledges
what it recorded as long as its connection is not closing.

What the sender releases was acknowledged, so it was recorded, so its frames were handled.  A frame
that is dropped because the list of ranges is full counts as handled, and then the sender releases
bytes that nobody has: `acknowledged_byte_lost`.  Nothing else loses a byte.
-/

namespace Cx.Quic

open Library Relation List

structure LinkPacket where
  pn : Nat
  frames : List QuicFrame
deriving DecidableEq, Repr

structure StreamLink where
  tx : QuicStreams
  next : Nat
  packets : List LinkPacket
  rx : QuicStreams
  ack : QuicAckState
  /-- A frame could not be handled and the connection is closing. -/
  closing : Bool
  acks : List (List QuicAckRange)
  taken : Nat → Nat

def linkInit (server : Bool) (own peer : QuicTransportParams) : StreamLink where
  tx := quicStreamsInit server own
  next := 0
  packets := []
  rx := quicStreamsInit (!server) peer
  ack := quicAckStateInit
  closing := false
  acks := []
  taken := fun _ => 0

/-- Handle the frames of a packet in order, up to the first that fails. -/
def processFrames (env : StreamEnv) : List QuicFrame → QuicStreams → Bool × QuicStreams
  | [], ss => (true, ss)
  | f :: rest, ss =>
    let handled := quicStreamsFrame env ss f
    if handled.1 then processFrames env rest handled.2 else handled

def dropsFrames (env : StreamEnv) : List QuicFrame → QuicStreams → Bool
  | [], _ => false
  | f :: rest, ss =>
    let handled := quicStreamsFrame env ss f
    dropsFrame ss f || (handled.1 && dropsFrames env rest handled.2)

/-- A packet arrives: its number is recorded, and if it was not seen before its frames are
handled. -/
def processPacket (env : StreamEnv) (link : StreamLink) (packet : LinkPacket) (now : Time) :
    StreamLink :=
  let added := quicAckStateAdd link.ack packet.pn now false
  if !added.1 then { link with ack := added.2 }
  else
    let handled := processFrames env packet.frames link.rx
    if !handled.1 then { link with ack := added.2, rx := handled.2, closing := true }
    else if packet.frames.isEmpty then { link with ack := added.2, rx := handled.2 }
    else
      { link with
        ack := { added.2 with
          elicitCount := added.2.elicitCount + 1
          pending := true
          deadline := now }
        rx := handled.2 }

def StreamLink.acknowledged (link : StreamLink) (pn : Nat) : Bool :=
  link.acks.any fun ranges => ranges.any fun range => range.smallest ≤ pn ∧ pn ≤ range.largest

inductive LinkOp where
  /-- A call at the sending side.  A packet that is filled takes the next number and goes out, and a
  packet can be acknowledged only by an acknowledgement that was sent. -/
  | sender (op : StreamOp)
  | deliver (index : Nat) (now : Time)
  | acknowledge
  /-- A call at the receiving side; frames reach it over the channel only. -/
  | receiver (op : StreamOp)
deriving DecidableEq, Repr

def linkStep (txEnv rxEnv : StreamEnv) (link : StreamLink) : LinkOp → StreamLink
  | .sender (.fill bufsz _) =>
    let filled := quicStreamsFill link.tx bufsz link.next
    { link with
      tx := filled.1
      next := link.next + 1
      packets := link.packets ++ [⟨link.next, filled.2.frames⟩] }
  | .sender (.acked pn) =>
    if link.acknowledged pn then { link with tx := quicStreamsAcked link.tx pn } else link
  | .sender op => { link with tx := streamStep txEnv link.tx op }
  | .deliver index now =>
    match link.packets[index]? with
    | none => link
    | some packet => if link.closing then link else processPacket rxEnv link packet now
  | .acknowledge =>
    if link.closing then link else { link with acks := link.acks ++ [link.ack.ranges] }
  | .receiver (.frame _) => link
  | .receiver (.recv id outsz) =>
    let result := quicStreamRecv link.rx id outsz
    { link with rx := result.2.2, taken := takeMore link.taken id result.1.length }
  | .receiver op => { link with rx := streamStep rxEnv link.rx op }

/-- A packet arrives and a frame of it is dropped because the list of ranges of its stream is
full. -/
def dropsData (rxEnv : StreamEnv) (link : StreamLink) : LinkOp → Bool
  | .deliver index now =>
    (link.packets[index]?).any fun packet =>
      !link.closing && (quicAckStateAdd link.ack packet.pn now false).1 &&
        dropsFrames rxEnv packet.frames link.rx
  | _ => false

def StreamLink.Sent (link : StreamLink) (pn : Nat) (f : QuicFrame) : Prop :=
  ∃ packet ∈ link.packets, packet.pn = pn ∧ f ∈ packet.frames

/-- What a packet carries, of streams that are sent regularly, is held or was read. -/
def StreamLink.Kept (link : StreamLink) (pn : Nat) : Prop :=
  ∀ id position, canRecv link.rx id = true → Regular link.Sent id →
    Carries link.Sent pn id position → link.rx.Has link.taken id position

/-- Between two states the receiver's books stay right, and it keeps what it has. -/
def KeepsReceived (sent : Nat → QuicFrame → Prop) (taken taken' : Nat → Nat)
    (ss ss' : QuicStreams) : Prop :=
  ∀ id, canRecv ss id = true → Regular sent id → ss'.RecvLogged sent taken' id ∧
    ∀ position, ss.Has taken id position → ss'.Has taken' id position

/-- What holds of the two sides and the channel in every run that drops no frame. -/
structure StreamLink.Sound (link : StreamLink) : Prop where
  tx : link.tx.Sound ∧ link.tx.AllKnown
  rx : link.rx.Sound ∧ link.rx.AllKnown
  ends : link.rx.server = !link.tx.server
  used : ∀ packet ∈ link.packets, packet.pn < link.next
  apart : ∀ first ∈ link.packets, ∀ second ∈ link.packets, first.pn = second.pn → first = second
  sending : link.tx.SendLogged link.Sent fun pn => link.acknowledged pn = true
  receiving : ∀ id, canRecv link.rx id = true → Regular link.Sent id →
    link.rx.RecvLogged link.Sent link.taken id
  list : AckSound link.ack.ranges
  recorded : link.closing = false → ∀ pn, AckCovers link.ack.ranges pn →
    pn < link.next ∧ link.Kept pn
  acked : ∀ pn, link.acknowledged pn = true → pn < link.next ∧ link.Kept pn

section

variable {txEnv rxEnv env : StreamEnv} {link : StreamLink} {ss : QuicStreams}
  {sent : Nat → QuicFrame → Prop} {taken : Nat → Nat}

theorem linkInit_sound (server : Bool) (own peer : QuicTransportParams) :
    (linkInit server own peer).Sound := by
  have unsent : ∀ pn f, ¬ (linkInit server own peer).Sent pn f := by
    rintro pn f ⟨packet, packet_mem, -⟩
    cases packet_mem
  constructor
  · exact ⟨QuicStreams.sound_init server own, QuicStreams.allKnown_init server own⟩
  · exact ⟨QuicStreams.sound_init (!server) peer, QuicStreams.allKnown_init (!server) peer⟩
  · rfl
  · exact nofun
  · exact nofun
  · refine ⟨fun id _ pn f named => absurd named (unsent pn f),
      fun pn f named => absurd named (unsent pn f), fun id st found => ?_⟩
    cases found
  · refine fun id _ _ => ⟨fun _ => rfl, fun st found => ?_,
      fun known => absurd known (not_knows_init (!server) peer id)⟩
    cases found
  · exact ackSound_init
  · rintro - pn ⟨range, range_mem, -⟩
    cases range_mem
  · exact nofun

/-- A call at the sending side that fills no packet and acknowledges only what was acknowledged. -/
theorem StreamLink.Sound.sendSide (sound : link.Sound) {op : StreamOp} (free : op.carrier = none)
    (acks : ∀ pn, op = .acked pn → link.acknowledged pn = true) :
    { link with tx := streamStep txEnv link.tx op }.Sound := by
  have permitted : StreamGuard.Permits
      { StreamGuard.any with acked := fun pn => link.acknowledged pn = true } link.tx op := by
    cases op with
    | acked pn => exact acks pn rfl
    | frame f => cases f <;> simp [StreamGuard.Permits, StreamGuard.PermitsFrame, StreamGuard.any]
    | recv => exact fun _ => trivial
    | _ => trivial
  have moves := @streamStep_moves txEnv _ _ _ permitted fun _ _ _ _ => trivial
  rw [free] at moves
  obtain ⟨tx_sound, logged⟩ := moves.invariant
    (fun ss => ss.Sound ∧ ss.SendLogged link.Sent fun pn => link.acknowledged pn = true)
    (fun _ _ good move =>
      ⟨move.sound good.1, move.sendLogged (fun _ acked => acked) good.1 good.2⟩)
    ⟨sound.tx.1, sound.sending⟩
  exact { sound with
    tx := ⟨tx_sound, moves.allKnown sound.tx.2⟩
    ends := sound.ends.trans (congrArg not moves.server_eq.symm)
    sending := logged }

theorem StreamLink.Sound.fill (sound : link.Sound) (bufsz : Nat) : { link with
      tx := (quicStreamsFill link.tx bufsz link.next).1
      next := link.next + 1
      packets := link.packets ++
        [LinkPacket.mk link.next (quicStreamsFill link.tx bufsz link.next).2.frames] }.Sound := by
  have moves : StreamMoves willingEnv .any (some link.next) link.tx _ :=
    quicStreamsFill_moves link.tx bufsz link.next
  have tx_sound := moves.sound sound.tx.1
  have tx_known := moves.allKnown sound.tx.2
  have side := moves.server_eq
  have logged := sound.sending.fill sound.tx.1 sound.tx.2 bufsz link.next
  generalize quicStreamsFill link.tx bufsz link.next = filled at *
  generalize later_eq : { link with
      tx := filled.1
      next := link.next + 1
      packets := link.packets ++ [LinkPacket.mk link.next filled.2.frames] } = later
  have sent_eq : later.Sent = logFill link.Sent link.next filled.2.frames := by
    subst later_eq
    funext pn f
    simp only [StreamLink.Sent, logFill, mem_append, mem_singleton, eq_iff_iff]
    constructor
    · rintro ⟨packet, early | rfl, number, f_mem⟩
      · exact .inl ⟨packet, early, number, f_mem⟩
      · exact .inr ⟨number.symm, f_mem⟩
    · rintro (⟨packet, early, number, f_mem⟩ | ⟨rfl, f_mem⟩)
      · exact ⟨packet, .inl early, number, f_mem⟩
      · exact ⟨_, .inr rfl, rfl, f_mem⟩
  have grown : ∀ pn f, link.Sent pn f → later.Sent pn f := by
    rw [sent_eq]
    exact fun pn f early => .inl early
  have kept : ∀ pn, pn < link.next ∧ link.Kept pn → pn < link.next + 1 ∧ later.Kept pn := by
    rintro pn ⟨number, kept⟩
    refine ⟨by omega, fun id position receives regular carried => ?_⟩
    obtain ⟨fin, hasLen, hasOff, off, data, named, inside⟩ := carried
    rw [sent_eq] at named
    subst later_eq
    refine kept id position receives (regular.of_grown grown)
      ⟨fin, hasLen, hasOff, off, data, named.resolve_right fun new => ?_, inside⟩
    exact absurd new.1 (by omega)
  subst later_eq
  refine ⟨⟨tx_sound, tx_known⟩, sound.rx, sound.ends.trans (congrArg not side.symm), ?_, ?_,
    sent_eq ▸ logged, ?_, sound.list, fun settled pn held =>
      kept pn (sound.recorded settled pn held),
    fun pn acked => kept pn (sound.acked pn acked)⟩
  · exact forall_mem_append.2 ⟨fun packet early => (sound.used packet early).trans
      (Nat.lt_succ_self _), forall_mem_singleton.2 (Nat.lt_succ_self _)⟩
  · simp only [mem_append, mem_singleton]
    rintro first (first_early | rfl) second (second_early | rfl) same
    · exact sound.apart first first_early second second_early same
    · exact absurd same (sound.used first first_early).ne
    · exact absurd same (sound.used second second_early).ne'
    · rfl
  · intro id receives regular
    exact (sound.receiving id receives (regular.of_grown grown)).grow grown

/-- The receiving side acknowledges what it recorded. -/
theorem StreamLink.Sound.acknowledge (sound : link.Sound) (settled : link.closing = false) :
    { link with acks := link.acks ++ [link.ack.ranges] }.Sound := by
  have acked_iff : ∀ pn, { link with acks := link.acks ++ [link.ack.ranges] }.acknowledged pn =
      true ↔ link.acknowledged pn = true ∨ AckCovers link.ack.ranges pn := by
    intro pn
    simp [StreamLink.acknowledged, AckCovers]
  refine { sound with sending := ?_, acked := fun pn acked => ?_ }
  · refine ⟨sound.sending.unknown, sound.sending.short, fun id st found unreset => ?_⟩
    exact (sound.sending.stream id st found unreset).grow (fun _ _ named => named)
      (fun _ _ named _ => named) fun pn acked => (acked_iff pn).2 (.inl acked)
  · rcases (acked_iff pn).1 acked with early | held
    · exact sound.acked pn early
    · exact sound.recorded settled pn held

/-- The receiving side takes a step that keeps what it has. -/
theorem StreamLink.Sound.receive (sound : link.Sound) {ack : QuicAckState} {closing : Bool}
    (rx : ss.Sound ∧ ss.AllKnown) (side : ss.server = link.rx.server)
    (receiving : KeepsReceived link.Sent link.taken taken link.rx ss) (list : AckSound ack.ranges)
    (recorded : closing = false → ∀ pn, AckCovers ack.ranges pn →
      (link.closing = false ∧ AckCovers link.ack.ranges pn) ∨ pn < link.next ∧
        { link with rx := ss, ack := ack, closing := closing, taken := taken }.Kept pn) :
    { link with rx := ss, ack := ack, closing := closing, taken := taken }.Sound := by
  have receives_eq := canRecv_congr side
  have kept : ∀ pn, link.Kept pn →
      { link with rx := ss, ack := ack, closing := closing, taken := taken }.Kept pn := by
    intro pn kept id position receives regular carried
    rw [receives_eq] at receives
    exact (receiving id receives regular).2 position (kept id position receives regular carried)
  refine ⟨sound.tx, rx, side.trans sound.ends, sound.used, sound.apart, sound.sending,
    fun id receives regular => (receiving id (receives_eq id ▸ receives) regular).1, list, ?_, ?_⟩
  · intro settled pn held
    rcases recorded settled pn held with ⟨was_settled, early⟩ | new
    · exact (sound.recorded was_settled pn early).imp_right (kept pn)
    · exact new
  · exact fun pn acked => (sound.acked pn acked).imp_right (kept pn)

/-- Handling frames that were sent keeps what the receiver has.  When all of them are handled and
none is dropped, it has their bytes too. -/
theorem processFrames_logged {pn : Nat} (frames : List QuicFrame)
    (rx : ss.Sound ∧ ss.AllKnown) (named : ∀ f ∈ frames, sent pn f)
    (short : ∀ f ∈ frames, f.Short) (undropped : dropsFrames env frames ss = false)
    (receiving : ∀ id, canRecv ss id = true → Regular sent id → ss.RecvLogged sent taken id) :
    let handled := processFrames env frames ss
    (handled.2.Sound ∧ handled.2.AllKnown) ∧ handled.2.server = ss.server ∧
      ∀ id, canRecv ss id = true → Regular sent id → handled.2.RecvLogged sent taken id ∧
        (∀ position, ss.Has taken id position → handled.2.Has taken id position) ∧
        (handled.1 = true → ∀ fin hasLen hasOff off data position,
          .stream fin hasLen hasOff id off data ∈ frames → off ≤ position →
          position < off + data.length → handled.2.Has taken id position) := by
  induction frames generalizing ss with
  | nil =>
    exact ⟨rx, rfl, fun id receives regular =>
      ⟨receiving id receives regular, fun _ has => has, nofun⟩⟩
  | cons f rest ih =>
    simp only [dropsFrames, Bool.or_eq_false_iff, Bool.and_eq_false_imp] at undropped
    obtain ⟨undropped_first, undropped_rest⟩ := undropped
    have first_named := named f mem_cons_self
    have moves : StreamMoves env (.regular sent) none ss (quicStreamsFrame env ss f).2 :=
      quicStreamsFrame_moves ss f (permitsFrame_regular first_named) fun _ _ => trivial
    have middle_sound := moves.sound rx.1
    have middle_known := moves.allKnown rx.2
    have side := moves.server_eq
    have logged : KeepsReceived sent taken taken ss (quicStreamsFrame env ss f).2 :=
      fun id receives regular => StreamMoves.recvLogged moves rx.1 rx.2 receives regular
        (receiving id receives regular)
    simp only [processFrames]
    by_cases accepted : (quicStreamsFrame env ss f).1 = true
    · rw [if_pos accepted]
      obtain ⟨rx_last, side_last, streams_last⟩ := ih ⟨middle_sound, middle_known⟩
        (fun g g_mem => named g (mem_cons_of_mem f g_mem))
        (fun g g_mem => short g (mem_cons_of_mem f g_mem)) (undropped_rest accepted)
        fun id receives regular =>
          (logged id (canRecv_congr side id ▸ receives) regular).1
      refine ⟨rx_last, side_last.trans side, fun id receives regular => ?_⟩
      obtain ⟨-, has_first⟩ := logged id receives regular
      obtain ⟨logged_last, has_last, held_last⟩ :=
        streams_last id ((canRecv_congr side id).trans receives) regular
      refine ⟨logged_last, fun position has => has_last position (has_first position has), ?_⟩
      intro all_handled fin hasLen hasOff off data position frame_mem low high
      rcases mem_cons.1 frame_mem with rfl | later
      · have fits : data.length < QUIC_MAX_PACKET_NUMBER := short _ mem_cons_self
        refine has_last position (quicStreamsFrame_has rx.1 rx.2 regular
          (receiving id receives regular) first_named ?_ undropped_first accepted low high)
        exact fits.trans (by decide)
      · exact held_last all_handled fin hasLen hasOff off data position later low high
    · rw [if_neg accepted]
      refine ⟨⟨middle_sound, middle_known⟩, side, fun id receives regular => ?_⟩
      obtain ⟨logged_first, has_first⟩ := logged id receives regular
      exact ⟨logged_first, has_first, fun all_handled => absurd all_handled accepted⟩

variable (sound : link.Sound)
include sound

/-- A packet arrives and none of its frames is dropped. -/
theorem StreamLink.Sound.deliver {packet : LinkPacket} {now : Time}
    (on_channel : packet ∈ link.packets) (settled : link.closing = false)
    (undropped : (quicAckStateAdd link.ack packet.pn now false).1 = true →
      dropsFrames rxEnv packet.frames link.rx = false) :
    (processPacket rxEnv link packet now).Sound := by
  have receipt := quicAckStateAdd_receipt link.ack packet.pn now false
  have list := receipt.sound sound.list
  have covers := receipt.covers_iff sound.list
  have same : KeepsReceived link.Sent link.taken link.taken link.rx link.rx :=
    fun id receives regular => ⟨sound.receiving id receives regular, fun _ has => has⟩
  unfold processPacket
  generalize quicAckStateAdd link.ack packet.pn now false = added at *
  by_cases fresh : added.1 = true
  · have named : ∀ f ∈ packet.frames, link.Sent packet.pn f :=
      fun f f_mem => ⟨packet, on_channel, rfl, f_mem⟩
    obtain ⟨rx, side, streams⟩ := processFrames_logged packet.frames sound.rx named
      (fun f f_mem => sound.sending.short packet.pn f (named f f_mem)) (undropped fresh)
      sound.receiving
    simp only [fresh, Bool.not_true, Bool.false_eq_true, if_false]
    generalize processFrames rxEnv packet.frames link.rx = handled at *
    have receiving : KeepsReceived link.Sent link.taken link.taken link.rx handled.2 :=
      fun id receives regular =>
        ⟨(streams id receives regular).1, (streams id receives regular).2.1⟩
    by_cases all_handled : handled.1 = true
    · have kept : ∀ ack : QuicAckState, ack.ranges = added.2.ranges →
          { link with rx := handled.2, ack := ack }.Sound := by
        intro ack ranges_eq
        refine sound.receive rx side receiving (ranges_eq.symm ▸ list) fun _ pn held => ?_
        rw [ranges_eq] at held
        rcases ((covers pn).1 held).1 with rfl | early
        · refine .inr ⟨sound.used packet on_channel, fun id position receives regular carried => ?_⟩
          obtain ⟨fin, hasLen, hasOff, off, data, ⟨other, other_mem, number, frame_mem⟩, low,
            high⟩ := carried
          rw [sound.apart other other_mem packet on_channel number] at frame_mem
          exact (streams id (canRecv_congr side id ▸ receives) regular).2.2 all_handled
            fin hasLen hasOff off data position frame_mem low high
        · exact .inl ⟨settled, early⟩
      simp only [all_handled, Bool.not_true, Bool.false_eq_true, if_false]
      split_ifs
      · exact kept added.2 rfl
      · exact kept _ rfl
    · simp only [all_handled, Bool.not_false, if_true]
      exact sound.receive rx side receiving list nofun
  · simp only [fresh, Bool.not_false, if_true]
    refine sound.receive sound.rx rfl same list fun _ pn held => ?_
    rcases ((covers pn).1 held).1 with rfl | early
    · refine .inl ⟨settled, ?_⟩
      by_contra missing
      exact fresh ((receipt.accepted_iff sound.list).2 missing)
    · exact .inl ⟨settled, early⟩

/-- A call at the receiving side that neither reads nor handles a frame. -/
theorem StreamLink.Sound.receiveSide {op : StreamOp} (no_frame : ∀ f, op ≠ .frame f)
    (no_read : ∀ id outsz, op ≠ .recv id outsz) :
    { link with rx := streamStep rxEnv link.rx op }.Sound := by
  have permitted : (StreamGuard.regular link.Sent).Permits link.rx op := by
    cases op with
    | frame f => exact absurd rfl (no_frame f)
    | recv id outsz => exact absurd rfl (no_read id outsz)
    | _ => trivial
  have moves := @streamStep_moves rxEnv _ _ _ permitted fun _ _ _ _ => trivial
  refine sound.receive ⟨moves.sound sound.rx.1, moves.allKnown sound.rx.2⟩ moves.server_eq
    (fun id receives regular => ?_) sound.list fun settled pn held => .inl ⟨settled, held⟩
  exact StreamMoves.recvLogged moves sound.rx.1 sound.rx.2 receives regular
    (sound.receiving id receives regular)

theorem StreamLink.Sound.read (id outsz : Nat) : { link with
      rx := (quicStreamRecv link.rx id outsz).2.2
      taken := takeMore link.taken id (quicStreamRecv link.rx id outsz).1.length }.Sound := by
  have moves : StreamMoves willingEnv .any none link.rx (quicStreamRecv link.rx id outsz).2.2 :=
    quicStreamRecv_moves link.rx outsz fun _ => trivial
  refine sound.receive ⟨moves.sound sound.rx.1, moves.allKnown sound.rx.2⟩ moves.server_eq
    (fun other receives regular => ?_) sound.list fun settled pn held => .inl ⟨settled, held⟩
  exact quicStreamRecv_logged outsz sound.rx.1 sound.rx.2 receives regular
    (sound.receiving other receives regular)

/-- Every step that drops no frame keeps the two sides in agreement. -/
theorem StreamLink.Sound.step {op : LinkOp} (undropped : dropsData rxEnv link op = false) :
    (linkStep txEnv rxEnv link op).Sound := by
  cases op with
  | sender op =>
    cases op with
    | fill bufsz => exact sound.fill bufsz
    | acked pn =>
      simp only [linkStep]
      split_ifs with acked
      · have kept : { link with tx := streamStep txEnv link.tx (.acked pn) }.Sound :=
          sound.sendSide rfl fun other same => StreamOp.acked.inj same ▸ acked
        exact kept
      · exact sound
    | _ => exact sound.sendSide rfl nofun
  | deliver index =>
    simp only [linkStep]
    cases packet_eq : link.packets[index]? with
    | none => exact sound
    | some =>
      by_cases settled : link.closing = true
      · simp only [settled, if_true]
        exact sound
      · simp only [settled, Bool.false_eq_true, if_false]
        have open_link : link.closing = false := by simpa using settled
        refine sound.deliver (mem_of_getElem? packet_eq) open_link fun fresh => ?_
        simpa [dropsData, packet_eq, open_link, fresh] using undropped
  | acknowledge =>
    simp only [linkStep]
    split_ifs with settled
    · exact sound
    · exact sound.acknowledge (by simpa using settled)
  | receiver op =>
    cases op with
    | frame => exact sound
    | recv id outsz => exact sound.read id outsz
    | _ => exact sound.receiveSide nofun nofun

/-- What a stream that is not given up has sent is regular. -/
theorem StreamLink.Sound.regular {id : Nat} {st : QuicStreamState}
    (found : link.tx.byId.find id = some st) (unreset : ¬ st.SendReset) : Regular link.Sent id := by
  have logged := sound.sending.stream id st found unreset
  have id_eq : st.id = id := Table.key_of_find found
  subst id_eq
  refine ⟨logged.unreset, ?_⟩
  rintro size ⟨pn, hasLen, hasOff, off, data, named, rfl⟩ other fin hasLen' hasOff' off' data' sent
  rw [(logged.ends pn hasLen hasOff off data named).1]
  exact logged.within other fin hasLen' hasOff' off' data' sent

/-- A stream that has released bytes is one the far end receives on. -/
theorem StreamLink.Sound.canRecv_of_released {id : Nat} {st : QuicStreamState}
    (found : link.tx.byId.find id = some st) (released : 0 < st.out.base) :
    canRecv link.rx id = true := by
  have send := (sound.tx.1 id st found).1
  have id_eq : st.id = id := Table.key_of_find found
  have present : st.sendState ≠ .none := by
    intro none
    have empty := send.unsent (by simp [none]) (by simp [none]) (by simp [none])
    have base_le := send.buffer.base_le
    omega
  have sends := (not_congr send.absent).1 present
  rw [id_eq] at sends
  rw [canRecv, sound.ends, quicStreamLocal_not, Bool.not_eq_true']
  exact Bool.eq_false_of_not_eq_true sends

end

section

variable (txEnv rxEnv : StreamEnv) (server : Bool) (own peer : QuicTransportParams)

/-- In every run in which no frame is dropped because the list of ranges is full, every offset that
the sender has released on a stream it did not reset is at the receiver: the application has read it
or it is recorded. -/
theorem released_bytes_are_held {ops : List LinkOp}
    (undropped : Admits (linkStep txEnv rxEnv) (fun link op => dropsData rxEnv link op = false)
      (linkInit server own peer) ops) :
    let link := run (linkStep txEnv rxEnv) (linkInit server own peer) ops
    ∀ id st, link.tx.byId.find id = some st → ¬ st.SendReset → ∀ position, position < st.out.base →
        position < link.taken id ∨
          ∃ rst, link.rx.byId.find id = some rst ∧ Span.Covers rst.inn.ranges position := by
  intro link id st found unreset position released
  have sound : link.Sound := admits_invariant StreamLink.Sound (linkInit_sound server own peer)
    (fun state op sound allowed => sound.step allowed) undropped
  have logged := sound.sending.stream id st found unreset
  obtain ⟨pn, acked, carried⟩ := logged.released position (.inl released)
  have id_eq : st.id = id := Table.key_of_find found
  rw [id_eq] at carried
  exact (sound.acked pn acked).2 id position
    (sound.canRecv_of_released found (Nat.zero_lt_of_lt released)) (sound.regular found unreset)
    carried

end

/-- Two bytes are sent, arrive, are acknowledged and released; one of them was read. -/
theorem released_bytes_are_held_read :
    let link := run (linkStep willingEnv willingEnv) (linkInit false smallParams smallParams)
      [.sender (.params smallParams), .sender (.open false), .sender (.send 0 [1, 2]),
        .sender (.fill 100 0), .deliver 0 0, .acknowledge, .sender (.acked 0),
        .receiver (.recv 0 1)]
    ((link.tx.byId.find 0).any fun st => st.out.base = 2 ∧ ¬ st.SendReset) = true ∧
      ∀ st, link.tx.byId.find 0 = some st → ¬ st.SendReset → 1 < st.out.base → 1 < link.taken 0 ∨
          ∃ rst, link.rx.byId.find 0 = some rst ∧ Span.Covers rst.inn.ranges 1 := by
  intro link
  refine ⟨by decide, fun st found unreset released => ?_⟩
  exact released_bytes_are_held willingEnv willingEnv false smallParams smallParams (by decide)
    0 st found unreset 1 released

/-- A stream is written a byte at a time, each in a packet of its own.  The packets with odd numbers
arrive first, then the others, and all are acknowledged. -/
def scatteredOps : List LinkOp :=
  [.sender (.params largeParams), .sender (.open false)] ++
    (List.range 34).flatMap (fun _ => [.sender (.send 0 [7]), .sender (.fill 100 0)]) ++
    (List.range 17).map (fun index => .deliver (2 * index + 1) 0) ++
    (List.range 17).map (fun index => .deliver (2 * index) 0) ++
    [.acknowledge] ++ (List.range 34).map (fun pn => .sender (.acked pn))

/-- The byte at 33 arrives when as many ranges are recorded as there can be, and is dropped.  Its
packet is acknowledged like the others, the sender releases it, and nobody has it. -/
theorem acknowledged_byte_lost :
    let link := run (linkStep willingEnv willingEnv) (linkInit false largeParams largeParams)
      scatteredOps
    ∃ st, link.tx.byId.find 0 = some st ∧ ¬ st.SendReset ∧ 33 < st.out.base ∧ ¬ (33 < link.taken 0 ∨
        ∃ rst, link.rx.byId.find 0 = some rst ∧ Span.Covers rst.inn.ranges 33) := by
  intro link
  have released : ((link.tx.byId.find 0).any fun st => ¬ st.SendReset ∧ 33 < st.out.base) =
    true := by
    decide +kernel
  have missing : link.taken 0 = 0 ∧ ((link.rx.byId.find 0).all fun rst =>
      rst.inn.ranges.all fun range => range.endOff ≤ 33) = true := by
    decide +kernel
  generalize link = last at released missing
  obtain ⟨st, found, open_stream⟩ := (Option.any_eq_true _ _).1 released
  simp only [decide_eq_true_eq] at open_stream
  refine ⟨st, found, open_stream.1, open_stream.2, ?_⟩
  rintro (read | ⟨rst, rst_found, range, range_mem, -, high⟩)
  · rw [missing.1] at read
    cases read
  · have bounded := missing.2
    rw [rst_found] at bounded
    simp only [Option.all_some, all_eq_true, decide_eq_true_eq] at bounded
    exact absurd high (Nat.not_lt.2 (bounded range range_mem))

end Cx.Quic
