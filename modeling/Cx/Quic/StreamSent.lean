import Cx.Quic.StreamLimit

/-!
# What the packets of a sender carry

A chunk of a send buffer that is in flight names the packet it was last sent in, and is released
when that packet is acknowledged.  Here the frames of every packet are recorded: a packet a chunk
names carries the bytes of that chunk, bytes that were released were carried by a packet that was
acknowledged, and no frame reaches past what was written.
-/

namespace Cx.Quic

open Library Relation

def QuicFrame.Belongs (id : Nat) : QuicFrame → Prop
  | .stream _ _ _ named _ _ => named = id
  | .resetStream named _ _ => named = id
  | _ => False

/-- A STREAM frame carries no more bytes than its length field can say. -/
def QuicFrame.Short : QuicFrame → Prop
  | .stream _ _ _ _ _ data => data.length < QUIC_MAX_PACKET_NUMBER
  | _ => True

/-- Packet `pn` carries the byte of a stream at `position`. -/
def Carries (sent : Nat → QuicFrame → Prop) (pn id position : Nat) : Prop :=
  ∃ fin hasLen hasOff off data, sent pn (.stream fin hasLen hasOff id off data) ∧
    off ≤ position ∧ position < off + data.length

theorem Carries.mono {sent more : Nat → QuicFrame → Prop} (grown : ∀ pn f, sent pn f → more pn f)
    {pn id position : Nat} (carried : Carries sent pn id position) :
    Carries more pn id position := by
  obtain ⟨fin, hasLen, hasOff, off, data, sent_frame, bounds⟩ := carried
  exact ⟨fin, hasLen, hasOff, off, data, grown pn _ sent_frame, bounds⟩

/-- What the record of frames `sent` says of a stream whose sending half was not abandoned, when
`done` are the packets that may have been acknowledged. -/
structure QuicStreamState.SendLogged (sent : Nat → QuicFrame → Prop) (done : Nat → Prop)
    (st : QuicStreamState) : Prop where
  unreset : ∀ pn error size, ¬ sent pn (.resetStream st.id error size)
  within : ∀ pn fin hasLen hasOff off data,
    sent pn (.stream fin hasLen hasOff st.id off data) → off + data.length ≤ st.out.endOff
  /-- A frame that ends the stream ends where the application finished. -/
  ends : ∀ pn hasLen hasOff off data, sent pn (.stream true hasLen hasOff st.id off data) →
    off + data.length = st.out.endOff ∧ st.sendState ≠ .ready ∧ st.sendState ≠ .send
  inFlight : ∀ position pn, Tile.HasState st.out.chunks position (.sent pn) →
    Carries sent pn st.id position
  released : ∀ position, position < st.out.base ∨ Tile.HasState st.out.chunks position .acked →
    ∃ pn, done pn ∧ Carries sent pn st.id position

structure QuicStreams.SendLogged (sent : Nat → QuicFrame → Prop) (done : Nat → Prop)
    (ss : QuicStreams) : Prop where
  unknown : ∀ id, ¬ ss.Knows id → ∀ pn f, sent pn f → ¬ f.Belongs id
  short : ∀ pn f, sent pn f → f.Short
  /-- Every stream whose sending half was not abandoned agrees with the record. -/
  stream : ∀ id st, ss.byId.find id = some st → ¬ st.SendReset → st.SendLogged sent done

section

variable {env : StreamEnv} {guard : StreamGuard} {carrier : Option Nat} {server : Bool}
  {before after ss : QuicStreams} {id : Nat} {st later : QuicStreamState}
  {sent more : Nat → QuicFrame → Prop} {done : Nat → Prop}

/-- The record matters only to the send buffer. -/
theorem QuicStreamState.SendLogged.congr (logged : st.SendLogged sent done)
    (id_eq : later.id = st.id) (out_eq : later.out = st.out)
    (state_eq : later.sendState = st.sendState) : later.SendLogged sent done := by
  obtain ⟨unreset, within, ends, in_flight, released⟩ := logged
  constructor <;> (try rw [id_eq]) <;> (try rw [out_eq]) <;> (try rw [state_eq]) <;> assumption

/-- A record that grew by frames of other streams and by acknowledgements says the same. -/
theorem QuicStreamState.SendLogged.grow {acked : Nat → Prop} (logged : st.SendLogged sent done)
    (grown : ∀ pn f, sent pn f → more pn f)
    (others : ∀ pn f, more pn f → f.Belongs st.id → sent pn f)
    (acks : ∀ pn, done pn → acked pn) : st.SendLogged more acked where
  unreset := fun pn error size named => logged.unreset pn error size (others pn _ named rfl)
  within := fun pn fin hasLen hasOff off data named =>
    logged.within pn fin hasLen hasOff off data (others pn _ named rfl)
  ends := fun pn hasLen hasOff off data named =>
    logged.ends pn hasLen hasOff off data (others pn _ named rfl)
  inFlight := fun position pn flying => (logged.inFlight position pn flying).mono grown
  released := fun position gone => by
    obtain ⟨pn, was_done, carried⟩ := logged.released position gone
    exact ⟨pn, acks pn was_done, carried.mono grown⟩

/-- A stream nothing was sent for agrees with the record when its buffer is empty. -/
theorem sendLogged_init (ss : QuicStreams) (id : Nat)
    (unsent : ∀ pn f, sent pn f → ¬ f.Belongs id) : (streamInit ss id).SendLogged sent done where
  unreset := fun pn error size named => unsent pn _ named rfl
  within := fun pn fin hasLen hasOff off data named => absurd rfl (unsent pn _ named)
  ends := fun pn hasLen hasOff off data named => absurd rfl (unsent pn _ named)
  inFlight := fun position pn flying => absurd flying Tile.hasState_nil
  released := fun position gone => by
    rcases gone with below | held
    · exact absurd below (Nat.not_lt_zero _)
    · exact absurd held Tile.hasState_nil

/-- An acknowledged packet releases what it carried. -/
theorem QuicStreamState.SendLogged.acked {pn : Nat} (logged : st.SendLogged sent done)
    (sound : st.SendSound server) (was_done : done pn) :
    (streamAcked st pn).SendLogged sent done := by
  obtain ⟨-, end_eq, base_le, passed, states, -⟩ := QuicSendBuf.acked_spec pn sound.buffer
  obtain ⟨sendState, finAcked, half_eq, -, state_cases⟩ := streamAcked_sendHalf st pn
  have id_eq : (streamAcked st pn).id = st.id := id_streamAnswer st pn true
  have out_eq : (streamAcked st pn).out = quicSendBufAcked st.out pn := by rw [half_eq]
  have state_eq : (streamAcked st pn).sendState = sendState := by rw [half_eq]
  have kept_state : st.sendState ≠ .ready ∧ st.sendState ≠ .send →
      sendState ≠ .ready ∧ sendState ≠ .send := by
    intro writes
    rcases state_cases with ⟨-, rfl⟩ | ⟨-, -, -, -, rfl⟩ | ⟨-, rfl⟩
    · simp
    · simp
    · exact writes
  have held : ∀ position, Tile.HasState st.out.chunks position (.sent pn) ∨
      Tile.HasState st.out.chunks position .acked →
      ∃ pn, done pn ∧ Carries sent pn st.id position := by
    rintro position (flying | acked)
    · exact ⟨pn, was_done, logged.inFlight position pn flying⟩
    · exact logged.released position (.inr acked)
  constructor
  · rw [id_eq]
    exact logged.unreset
  · rw [id_eq, out_eq, end_eq]
    exact logged.within
  · rw [id_eq, out_eq, end_eq, state_eq]
    intro pn hasLen hasOff off data named
    obtain ⟨stops, writes⟩ := logged.ends pn hasLen hasOff off data named
    exact ⟨stops, kept_state writes⟩
  · rw [id_eq, out_eq]
    intro position other flying
    obtain ⟨⟨old, old_held, resolved⟩, -⟩ := (states position _).1 flying
    unfold QuicChunkState.resolve at resolved
    split_ifs at resolved
    subst resolved
    exact logged.inFlight position other old_held
  · rw [id_eq, out_eq]
    rintro position (below | acked)
    · by_cases old : position < st.out.base
      · exact logged.released position (.inl old)
      · exact held position (passed position (Nat.le_of_not_lt old) below)
    · obtain ⟨⟨old, old_held, resolved⟩, -⟩ := (states position _).1 acked
      unfold QuicChunkState.resolve at resolved
      split_ifs at resolved with carried
      · subst carried
        exact held position (.inl old_held)
      · subst resolved
        exact held position (.inr old_held)

/-- What a lost packet carried is no longer in flight. -/
theorem QuicStreamState.SendLogged.lost (pn : Nat) (logged : st.SendLogged sent done)
    (sound : st.SendSound server) : (streamLost st pn).SendLogged sent done := by
  obtain ⟨-, states⟩ := QuicSendBuf.relabel_spec (QuicChunkState.resolve pn .pending) sound.buffer
  have old_state : ∀ position state, state ≠ .pending →
      Tile.HasState (streamLost st pn).out.chunks position state →
      Tile.HasState st.out.chunks position state := by
    intro position state not_pending held
    obtain ⟨old, old_held, resolved⟩ := (states position state).1 held
    unfold QuicChunkState.resolve at resolved
    split_ifs at resolved
    · exact absurd resolved.symm not_pending
    · exact resolved ▸ old_held
  exact ⟨logged.unreset, logged.within, logged.ends,
    fun position other flying => logged.inFlight position other
      (old_state position _ (by simp) flying),
    fun position gone => logged.released position (gone.imp_right (old_state position _ (by simp)))⟩

/-- Bytes that are written are waiting to be sent. -/
theorem QuicStreamState.SendLogged.write {alloc : Nat → Bool} {data : List UInt8}
    {out : QuicSendBuf} (logged : st.SendLogged sent done) (sound : st.SendSound server)
    (writing : st.sendState = .ready ∨ st.sendState = .send)
    (added : quicSendBufAdd alloc st.out data = some out) :
    { st with out := out, sendState := .send, active := true }.SendLogged sent done := by
  obtain ⟨-, base_eq, end_eq, states, -⟩ := QuicSendBuf.add_spec sound.buffer added
  have old_state : ∀ position state, state ≠ .pending →
      Tile.HasState out.chunks position state → Tile.HasState st.out.chunks position state := by
    intro position state not_pending held
    exact ((states position state).1 held).resolve_right fun new => not_pending new.2.2
  refine ⟨logged.unreset, ?_, ?_, ?_, ?_⟩
  · intro pn fin hasLen hasOff off bytes named
    have stops := logged.within pn fin hasLen hasOff off bytes named
    simp only [end_eq]
    omega
  · intro pn hasLen hasOff off bytes named
    obtain ⟨-, not_ready, not_send⟩ := logged.ends pn hasLen hasOff off bytes named
    exact (writing.elim not_ready not_send).elim
  · exact fun position pn flying => logged.inFlight position pn
      (old_state position _ (by simp) flying)
  · rintro position (below | acked)
    · exact logged.released position (.inl (base_eq ▸ below))
    · exact logged.released position (.inr (old_state position _ (by simp) acked))

/-- A visit that fills no packet keeps what the record says of the stream. -/
theorem Visit.sendLogged (visit : Visit guard none st later)
    (acks : ∀ pn, guard.acked pn → done pn) (sound : st.SendSound server)
    (logged : ¬ st.SendReset → st.SendLogged sent done) (unreset : ¬ later.SendReset) :
    later.SendLogged sent done := by
  cases visit with
  | filled carries => cases carries
  | acked pn permitted =>
    obtain ⟨sendState, finAcked, half_eq, -, state_cases⟩ := streamAcked_sendHalf st pn
    have state_eq : (streamAcked st pn).sendState = sendState := by rw [half_eq]
    refine (logged ?_).acked sound (acks pn permitted)
    intro was_reset
    apply unreset
    rw [QuicStreamState.SendReset, state_eq]
    rcases state_cases with ⟨-, rfl⟩ | ⟨-, finishing, -⟩ | ⟨-, rfl⟩
    · exact .inr rfl
    · rw [QuicStreamState.SendReset, finishing] at was_reset
      simp at was_reset
    · exact was_reset
  | lost pn => exact (logged unreset).lost pn sound

/-- A change that fills no packet keeps what the record says of the stream. -/
theorem StreamChange.sendLogged (change : StreamChange env guard none before st later)
    (acks : ∀ pn, guard.acked pn → done pn) (sound : st.SendSound server)
    (logged : ¬ st.SendReset → st.SendLogged sent done) (unreset : ¬ later.SendReset) :
    later.SendLogged sent done := by
  cases change with
  | wait | limit | sized | counted | placed | peerReset | stopped | complain | stop | take | window
  | ended | endedReset => exact (logged unreset).congr rfl rfl rfl
  | advanced =>
    obtain ⟨half_eq, -, -⟩ := recvAdvance_frame st
    have state_eq : (recvAdvance st).sendState = st.sendState := by rw [half_eq]
    refine (logged ?_).congr (id_recvAdvance st) (by rw [half_eq]) state_eq
    rwa [QuicStreamState.SendReset, state_eq] at unreset
  | abandon => exact absurd (.inl rfl) unreset
  | write writing some_data fits added =>
    refine (logged ?_).write sound writing added
    rintro (was_reset | was_reset) <;> rw [was_reset] at writing <;> simp at writing
  | finish writing =>
    have written := logged (by
      rintro (was_reset | was_reset) <;> rw [was_reset] at writing <;> simp at writing)
    refine { written with ends := ?_ }
    intro pn hasLen hasOff off bytes named
    exact ⟨(written.ends pn hasLen hasOff off bytes named).1, nofun, nofun⟩
  | kept visit | retired visit =>
    exact (visit.sendLogged acks sound logged unreset).congr rfl rfl rfl

/-- A move that fills no packet keeps what the record says. -/
theorem StreamMove.sendLogged (move : StreamMove env guard none before after)
    (acks : ∀ pn, guard.acked pn → done pn) (sound : before.Sound)
    (logged : before.SendLogged sent done) : after.SendLogged sent done := by
  refine ⟨fun id unopened => logged.unknown id (unopened ∘ move.knows), logged.short, ?_⟩
  intro id later found unreset
  rcases move.change found with same | ⟨st, st_found, change⟩ | ⟨dir, rfl, fresh⟩
  · exact logged.stream id later same unreset
  · exact change.sendLogged acks (sound id st st_found).1 (logged.stream id st st_found) unreset
  · refine sendLogged_init before id (logged.unknown id ?_)
    rcases fresh with ⟨rfl, -⟩ | ⟨rfl, -⟩
    · exact not_knows_remoteNextId before dir
    · exact not_knows_localNextId before dir

def logFill (sent : Nat → QuicFrame → Prop) (pn : Nat) (frames : List QuicFrame) :
    Nat → QuicFrame → Prop :=
  fun other f => sent other f ∨ (other = pn ∧ f ∈ frames)

variable {pn : Nat} {packet : QuicFill} {first last : QuicStreamState × QuicFill}

theorem logFill_wrote {other : Nat} {wr : QuicWr} {f new : QuicFrame} :
    logFill sent pn (packet.wrote wr new).frames other f ↔
      logFill sent pn packet.frames other f ∨ (other = pn ∧ f = new) := by
  simp only [logFill, QuicFill.wrote, List.mem_append, List.mem_singleton]
  tauto

/-- A frame that belongs to no stream leaves what the record says of a stream as it was. -/
theorem QuicStreamState.SendLogged.wrote {new : QuicFrame} (wr : QuicWr)
    (logged : st.SendLogged (logFill sent pn packet.frames) done) (other : ¬ new.Belongs st.id) :
    st.SendLogged (logFill sent pn (packet.wrote wr new).frames) done := by
  refine logged.grow (fun pn f early => logFill_wrote.2 (.inl early)) ?_ fun _ was_done => was_done
  intro pn f named belongs
  rcases logFill_wrote.1 named with early | ⟨-, rfl⟩
  · exact early
  · exact absurd belongs other

/-- A STREAM frame of what was written, which ends the stream only where the application did, leaves
what the record says of the stream as it was. -/
theorem QuicStreamState.SendLogged.wroteStream {off : Nat} {data : List UInt8}
    {fin hasLen hasOff : Bool} (wr : QuicWr)
    (logged : st.SendLogged (logFill sent pn packet.frames) done)
    (within : off + data.length ≤ st.out.endOff)
    (ends : fin = true → off + data.length = st.out.endOff ∧ st.sendState = .dataSent) :
    st.SendLogged
      (logFill sent pn (packet.wrote wr (.stream fin hasLen hasOff st.id off data)).frames)
        done := by
  have grown : ∀ other f, logFill sent pn packet.frames other f → logFill sent pn
      (packet.wrote wr (.stream fin hasLen hasOff st.id off data)).frames other f :=
    fun other f early => logFill_wrote.2 (.inl early)
  refine ⟨?_, ?_, ?_, fun position other flying =>
    (logged.inFlight position other flying).mono grown,
    fun position gone => ?_⟩
  · intro other error size named
    rcases logFill_wrote.1 named with early | ⟨-, new⟩
    · exact logged.unreset other error size early
    · cases new
  · intro other fin hasLen hasOff off data named
    rcases logFill_wrote.1 named with early | ⟨-, new⟩
    · exact logged.within other fin hasLen hasOff off data early
    · cases new
      exact within
  · intro other hasLen hasOff off data named
    rcases logFill_wrote.1 named with early | ⟨-, new⟩
    · exact logged.ends other hasLen hasOff off data early
    · cases new
      obtain ⟨stops, finishing⟩ := ends rfl
      exact ⟨stops, by simp [finishing], by simp [finishing]⟩
  · obtain ⟨other, was_done, carried⟩ := logged.released position gone
    exact ⟨other, was_done, carried.mono grown⟩

/-- Bytes handed to a packet that carries them are in flight in it. -/
theorem QuicStreamState.SendLogged.handedOut {max : Nat} {segment : QuicSegment} {ctl : QuicCtl}
    (logged : st.SendLogged sent done) (sound : st.SendSound server)
    (handed : quicSendBufNext st.out max = some segment)
    (carried : ∀ position, segment.off ≤ position ∧ position < segment.off + segment.data.length →
      Carries sent pn st.id position) :
    { st with
      out := quicSendBufSent st.out segment.off segment.data.length pn
      fin := ctl }.SendLogged sent done := by
  obtain ⟨chunks, sent_eq, -, states⟩ := QuicSendBuf.sent_next_spec pn sound.buffer handed
  simp only [sent_eq]
  refine ⟨logged.unreset, logged.within, logged.ends, ?_, ?_⟩
  · intro position other flying
    have flying_eq := (states position _).1 flying
    split_ifs at flying_eq with inside
    · cases flying_eq
      exact carried position inside
    · exact logged.inFlight position other flying_eq
  · intro position gone
    refine logged.released position (gone.imp_right fun held => ?_)
    have held_eq := (states position _).1 held
    split_ifs at held_eq
    exact held_eq

/-- Filling a packet from a stream keeps what the record, with the packet, says of the stream. -/
theorem FillMove.sendLogged (move : FillMove pn first last) (sound : first.1.SendSound server)
    (logged : ¬ first.1.SendReset → first.1.SendLogged (logFill sent pn first.2.frames) done)
    (unreset : ¬ last.1.SendReset) : last.1.SendLogged (logFill sent pn last.2.frames) done := by
  cases move with
  | none => exact logged unreset
  | stopSending wr | maxData wr | blocked wr =>
    exact ((logged unreset).wrote wr (by simp [QuicFrame.Belongs])).congr rfl rfl rfl
  | reset wr waiting => exact absurd (.inl (sound.reset_owed (by simp [waiting]))) unreset
  | @data st fill wr max segment fin sending handed ends =>
    obtain ⟨-, -, end_le⟩ := QuicSendBuf.next_bounds sound.buffer handed
    refine ((logged unreset).wroteStream wr end_le fun with_fin => ?_).handedOut sound handed ?_
    · obtain ⟨waiting, stops⟩ := ends with_fin
      exact ⟨stops, sound.fin_owed (by simp [waiting])⟩
    · intro position inside
      exact ⟨fin, true, _, segment.off, segment.data, logFill_wrote.2 (.inr ⟨rfl, rfl⟩), inside⟩
  | fin wr sending waiting =>
    refine ((logged unreset).wroteStream wr le_rfl fun _ => ⟨rfl, ?_⟩).congr rfl rfl rfl
    exact sound.fin_owed (by simp [waiting])

theorem FillMoves.sendLogged (moves : FillMoves pn first last) (sound : first.1.SendSound server)
    (logged : ¬ first.1.SendReset → first.1.SendLogged (logFill sent pn first.2.frames) done) :
    ¬ last.1.SendReset → last.1.SendLogged (logFill sent pn last.2.frames) done := by
  induction moves with
  | refl => exact logged
  | tail earlier move ih => exact move.sendLogged (sendSound_fillMoves earlier sound) ih

/-- What is written into a packet from a stream is short and belongs to no other stream. -/
theorem FillMoves.frames (moves : FillMoves pn first last) :
    (∀ f ∈ first.2.frames, f ∈ last.2.frames) ∧ ∀ f ∈ last.2.frames, f ∈ first.2.frames ∨
        f.Short ∧ ∀ other, f.Belongs other → other = first.1.id := by
  constructor
  · intro f early
    induction moves with
    | refl => exact early
    | tail _ move ih => cases move <;> simp [QuicFill.wrote, ih]
  · refine (FillMoves.frames_of (P := fun st => st.id = first.1.id) ?_ moves rfl).2
    intro before after move id_eq
    cases move with
    | none => exact ⟨id_eq, fun _ early => .inl early⟩
    | stopSending | maxData | blocked =>
      exact ⟨id_eq, QuicFill.wrote_new ⟨trivial, fun _ belongs => belongs.elim⟩⟩
    | reset =>
      exact ⟨id_eq, QuicFill.wrote_new ⟨trivial, fun _ belongs => belongs.symm.trans id_eq⟩⟩
    | data wr fin sending handed ends fits =>
      exact ⟨id_eq, QuicFill.wrote_new ⟨fits, fun _ belongs => belongs.symm.trans id_eq⟩⟩
    | fin =>
      exact ⟨id_eq, QuicFill.wrote_new
        ⟨by simp [QuicFrame.Short, QUIC_MAX_PACKET_NUMBER], fun _ belongs =>
          belongs.symm.trans id_eq⟩⟩

/-- Frames for the whole connection are short and belong to no stream. -/
theorem QuicFrame.ConnWide.frame {f : QuicFrame} (wide : f.ConnWide) :
    f.Short ∧ ∀ id, ¬ f.Belongs id := by
  cases f <;> first | exact wide.elim | exact ⟨trivial, fun _ belongs => belongs⟩

/-- New frames in the record matter only to the streams they belong to. -/
theorem QuicStreams.SendLogged.extend (logged : before.SendLogged sent done) (own : Nat → Prop)
    (grown : ∀ other f, sent other f → more other f)
    (origin : ∀ other f, more other f → sent other f ∨ f.Short ∧ ∀ id, f.Belongs id → own id)
    (knows : ∀ id, before.Knows id ∨ own id → after.Knows id)
    (streams : ∀ id st, after.byId.find id = some st → ¬ st.SendReset →
      st.SendLogged more done ∨ ¬ own id ∧ before.byId.find id = some st) :
    after.SendLogged more done := by
  refine ⟨?_, ?_, ?_⟩
  · intro id unopened other f named belongs
    rcases origin other f named with early | ⟨-, new⟩
    · exact logged.unknown id (unopened ∘ knows id ∘ .inl) other f early belongs
    · exact unopened (knows id (.inr (new id belongs)))
  · intro other f named
    rcases origin other f named with early | ⟨short, -⟩
    · exact logged.short other f early
    · exact short
  · intro id st found unreset
    rcases streams id st found unreset with changed | ⟨elsewhere, same⟩
    · exact changed
    · have id_eq : st.id = id := Table.key_of_find same
      refine (logged.stream id st same unreset).grow grown ?_ fun _ was_done => was_done
      intro pn f named belongs
      rcases origin pn f named with early | ⟨-, new⟩
      · exact early
      · exact absurd (id_eq ▸ new st.id belongs) elsewhere

/-- A visit to one stream while a packet is filled keeps what the record, with the packet, says of
every stream. -/
theorem QuicStreams.SendLogged.visit {filled : QuicFill}
    (logged : before.SendLogged (logFill sent pn packet.frames) done) (sound : before.Sound)
    (all_known : before.AllKnown) (found : before.byId.find st.id = some st)
    (moves : FillMoves pn (st, packet) (later, filled))
    (knows : ∀ id, before.Knows id → after.Knows id)
    (streams : ∀ id other, after.byId.find id = some other →
      (∃ active, other = { later with active := active }) ∨
        (id ≠ st.id ∧ before.byId.find id = some other)) :
    after.SendLogged (logFill sent pn filled.frames) done := by
  obtain ⟨kept, new⟩ := moves.frames
  refine logged.extend (· = st.id) ?_ ?_ ?_ ?_
  · rintro other f (early | ⟨here, written⟩)
    · exact .inl early
    · exact .inr ⟨here, kept f written⟩
  · rintro other f (early | ⟨here, written⟩)
    · exact .inl (.inl early)
    · exact (new f written).imp_left fun early => .inr ⟨here, early⟩
  · rintro id (known | rfl)
    · exact knows id known
    · exact knows _ (all_known st.id st found)
  · intro id other other_found unreset
    rcases streams id other other_found with ⟨active, rfl⟩ | same
    · exact .inl ((FillMoves.sendLogged moves (sound st.id st found).1
        (logged.stream st.id st found) unreset).congr rfl rfl rfl)
    · exact .inr same

/-- Filling a packet keeps what the record says, with the packet in it. -/
theorem QuicStreams.SendLogged.fill (logged : ss.SendLogged sent done) (sound : ss.Sound)
    (all_known : ss.AllKnown) (bufsz pn : Nat) :
    (quicStreamsFill ss bufsz pn).1.SendLogged
      (logFill sent pn (quicStreamsFill ss bufsz pn).2.frames) done := by
  have start := fillConn_moves ss ⟨quicWrInit bufsz, [], false⟩ pn
  obtain ⟨byId_eq, opened_eq, new⟩ := start.frames
  have good : ∀ before, StreamMoves willingEnv .any (some pn) ss before →
      before.Sound ∧ before.AllKnown := fun before moves =>
    ⟨moves.sound sound, moves.allKnown all_known⟩
  refine (fillLoop_induction pn _ _ _
    (fun after fill => StreamMoves willingEnv .any (some pn) ss after ∧
      after.SendLogged (logFill sent pn fill.frames) done) ⟨start.streamMoves, ?_⟩ ?_ ?_ ?_).2
  · refine logged.extend (fun _ => False) (fun _ _ early => .inl early) ?_
      (fun id known => (knows_congr opened_eq id).2 (known.resolve_right nofun))
      fun _ _ found _ => .inr ⟨not_false, byId_eq ▸ found⟩
    rintro other f (early | ⟨-, written⟩)
    · exact .inl early
    · exact .inr ((new f written).resolve_left nofun).frame
  · rintro before fill id rest ⟨moves, logged⟩ listed gone
    exact ⟨moves.tail (.dropped [] rest listed gone), logged.unknown, logged.short, logged.stream⟩
  · rintro before fill st rest later filled ⟨moves, logged⟩ listed found filling busy
    refine ⟨?_, ?_⟩
    · refine (moves.tail (.kept found (.filled rfl filling) later.toQuicSendWait false busy
        (.inl (low_of_fillMoves filling)))).tail ?_
      exact .rotated listed
    · obtain ⟨sound, all_known⟩ := good before moves
      refine logged.visit sound all_known found filling (fun _ known => known) ?_
      intro id other other_found
      have id_eq : later.id = st.id := id_of_fillMoves filling
      rw [find_store, id_eq] at other_found
      split_ifs at other_found with here
      · cases other_found
        exact .inl ⟨_, rfl⟩
      · exact .inr ⟨here, other_found⟩
  · rintro before fill st rest later filled ⟨moves, logged⟩ listed found filling idle settled
    refine ⟨?_, ?_⟩
    · exact moves.tail (.retired [] rest found listed (.filled rfl filling)
        later.toQuicSendWait false idle settled (.inl (low_of_fillMoves filling)))
    · obtain ⟨sound, all_known⟩ := good before moves
      refine logged.visit sound all_known found filling (fun id known => ?_) ?_
      · exact (knows_congr (opened_streamSettle _ _) id).2 known
      · intro id other other_found
        have id_eq : later.id = st.id := id_of_fillMoves filling
        rcases find_streamSettle other_found with ⟨-, rfl, -⟩ | ⟨elsewhere, same⟩
        · exact .inl ⟨_, rfl⟩
        · exact .inr ⟨id_eq ▸ elsewhere, same⟩

end

end Cx.Quic
