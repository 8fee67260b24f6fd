import Cx.Quic.ConnSend
import Cx.Quic.HeaderCodec

/-!
# Room in a packet

Whatever is written into a payload stays inside the room that was set aside for it, and every frame
that was written takes at least one byte: a payload that came out empty holds no frame.  A header
that could be measured can be written wherever there is room for what was measured.
-/

namespace Cx.Quic

open List

section Writer

variable {before wr : QuicWr}

theorem QuicWr.Grows.frame (grows : before.Grows wr) (f : QuicFrame) :
    before.Grows (quicFrameEncode wr f).2 := by
  refine grows.trans ?_
  rcases quicFrameEncode_cases f with ⟨-, unchanged⟩ | ⟨-, refused⟩ | ⟨-, write, emits, wrote⟩
  · rw [unchanged]
    exact .refl wr
  · rw [refused]
    exact (emits_varint (fun _ : True => fitsVarint_type f)).grows wr
  · rw [wrote]
    exact emits.grows wr

theorem length_lt_of_encode {f : QuicFrame} (size_ne : quicFrameSize f ≠ 0)
    (written : (quicFrameEncode wr f).1 = true) :
    wr.out.length < (quicFrameEncode wr f).2.out.length := by
  rcases quicFrameEncode_cases f with ⟨size_eq, -⟩ | ⟨-, refused⟩ | ⟨-, write, emits, wrote⟩
  · exact absurd size_eq size_ne
  · rw [refused] at written
    cases written
  · rw [wrote] at written ⊢
    obtain ⟨-, written_eq⟩ := emits.writes wr (by simpa using written)
    have type_size := quicVarintSize_type f
    simp only [written_eq, QuicFrame.bytes, length_append, length_varintBytes]
    omega

end Writer

/-- A payload stays inside the room set aside for it, and holds no more frames than bytes. -/
structure QuicFill.Room (budget : Nat) (fill : QuicFill) : Prop where
  bufsz_eq : fill.wr.bufsz = budget
  length_le : fill.wr.out.length ≤ budget
  frames_le : fill.frames.length ≤ fill.wr.out.length

section Fill

variable {budget : Nat} {fill : QuicFill}
variable (st : QuicStreamState) (ss : QuicStreams) (pn : Nat)

theorem room_init (budget : Nat) (eliciting : Bool) :
    QuicFill.Room budget ⟨quicWrInit budget, [], eliciting⟩ :=
  ⟨rfl, Nat.zero_le _, le_rfl⟩

section

variable (room : fill.Room budget)
include room

/-- An empty payload holds no frame. -/
theorem QuicFill.Room.no_frames (empty : quicWrLen fill.wr = 0) : fill.frames = [] :=
  eq_nil_of_length_eq_zero (Nat.le_zero.1 (room.frames_le.trans empty.le))

theorem QuicFill.Room.writer {wr : QuicWr} (grows : fill.wr.Grows wr) :
    QuicFill.Room budget { fill with wr := wr } :=
  ⟨grows.bufsz_eq.trans room.bufsz_eq,
    (grows.within (room.length_le.trans room.bufsz_eq.ge)).trans
      (grows.bufsz_eq.trans room.bufsz_eq).le,
    room.frames_le.trans grows.length_le⟩

theorem QuicFill.Room.elicits (eliciting : Bool) :
    QuicFill.Room budget { fill with eliciting := eliciting } :=
  { room with }

theorem QuicFill.Room.putFrame (f : QuicFrame) : (putFrame fill f).2.Room budget := by
  have grows := (QuicWr.Grows.refl fill.wr).frame f
  simp only [Quic.putFrame]
  split_ifs with no_room written
  · exact room
  · have longer := length_lt_of_encode (not_or.1 no_room).1 written
    have wrote := room.writer grows
    refine ⟨wrote.bufsz_eq, wrote.length_le, ?_⟩
    have := room.frames_le
    simp only [length_append, length_singleton]
    omega
  · exact room.writer grows

theorem QuicFill.Room.putCtl (ctl : QuicCtl) (f : QuicFrame) (pn : Nat) :
    (putCtl fill ctl f pn).1.Room budget := by
  have wrote := room.putFrame f
  simp only [Quic.putCtl]
  split_ifs
  · exact room
  · exact wrote.elicits true
  · exact wrote

end

theorem room_fillConnDir (dir : QuicDir) (room : fill.Room budget) :
    (fillConnDir ss fill pn dir).2.Room budget :=
  (room.putCtl _ _ pn).putCtl _ _ pn

theorem room_fillConn (room : fill.Room budget) : (fillConn ss fill pn).2.Room budget :=
  room_fillConnDir _ pn .uni (room_fillConnDir _ pn .bidi ((room.putCtl _ _ pn).putCtl _ _ pn))

theorem room_fillStreamCtl (room : fill.Room budget) : (fillStreamCtl st fill pn).2.Room budget :=
  (((room.putCtl _ _ pn).putCtl _ _ pn).putCtl _ _ pn).putCtl _ _ pn

theorem room_fillStreamDataLoop (fuel : Nat) (st : QuicStreamState) (room : fill.Room budget) :
    (fillStreamDataLoop pn fuel st fill).2.Room budget := by
  induction fuel generalizing st fill with
  | zero => exact room
  | succ fuel ih =>
    rw [fillStreamDataLoop]
    split
    · exact room
    · split
      · exact room
      · next segment handed =>
          have wrote (fin : Bool) :
              (putStreamFrame fill st segment.off segment.data fin).2.Room budget :=
            room.putFrame _
          dsimp only
          split
          · exact wrote _
          · exact ih _ ((wrote _).elicits true)

theorem room_fillStreamData (room : fill.Room budget) :
    (fillStreamData st fill pn).2.Room budget := by
  unfold fillStreamData
  split
  · exact room
  · have looped := room_fillStreamDataLoop pn (quicWrLeft fill.wr + 1) st room
    dsimp only
    split
    · have wrote (st : QuicStreamState) := looped.putFrame (.stream true true
        (decide (st.out.endOff > 0)) st.id st.out.endOff [])
      split
      · exact (wrote _).elicits true
      · exact wrote _
    · exact looped

theorem room_fillLoop (visits : Nat) (ss : QuicStreams) (room : fill.Room budget) :
    (fillLoop pn visits ss fill).2.Room budget := by
  induction visits generalizing ss fill with
  | zero => exact room
  | succ visits ih =>
    rw [fillLoop]
    split
    · exact room
    · split
      · exact room
      · dsimp only
        split
        · exact ih _ room
        · next st found =>
            have filled : (fillStream st fill pn).2.Room budget :=
              room_fillStreamData _ pn (room_fillStreamCtl st pn room)
            split
            · exact ih _ filled
            · exact ih _ filled

/-- The stream layer stays inside the room it is given. -/
theorem room_quicStreamsFill (bufsz pn : Nat) : (quicStreamsFill ss bufsz pn).2.Room bufsz :=
  room_fillLoop pn _ _ (room_fillConn ss pn (room_init bufsz false))

end Fill

/-! ### Headers -/

/-- What can be said of a header with a packet number that can be measured. -/
theorem measured_spec {h : QuicPktHdr} (numbered : h.type.numbered = true)
    (measured : quicHdrSize h ≠ 0) :
    h.dcid.length ≤ QUIC_MAX_CID ∧ h.scid.length ≤ QUIC_MAX_CID ∧ 1 ≤ h.pnLen ∧ h.pnLen ≤ 4 ∧
      (h.type = .initial → FitsVarint h.token.length) := by
  have long : ¬ (h.dcid.length > QUIC_MAX_CID ∨ h.scid.length > QUIC_MAX_CID) :=
    fun long => measured (by rw [quicHdrSize, if_pos long])
  rw [quicHdrSize, if_neg long] at measured
  rw [not_or, not_lt, not_lt] at long
  by_cases short : h.type = .short
  · have width : ¬ (h.pnLen < 1 ∨ h.pnLen > 4) :=
      fun wrong => measured (by simp only [short, if_pos wrong])
    exact ⟨long.1, long.2, by omega, by omega, by simp [short]⟩
  · have long_size : hdrLongSize h ≠ 0 := by
      rcases long_type numbered short with type_eq | type_eq | type_eq <;>
        simpa [type_eq] using measured
    have width : ¬ (h.pnLen < 1 ∨ h.pnLen > 4) :=
      fun wrong => long_size (by rw [hdrLongSize, if_pos wrong])
    refine ⟨long.1, long.2, by omega, by omega, fun initial => ?_⟩
    by_contra unfit
    have no_token : quicVarintSize h.token.length = 0 := by
      unfold FitsVarint QUIC_MAX_PACKET_NUMBER at unfit
      unfold quicVarintSize QUIC_MAX_PACKET_NUMBER
      split_ifs <;> omega
    exact long_size (by simp [hdrLongSize, initial, no_token])

namespace Conn

variable {c : QuicConnOwn} {sp : QuicPns} {early : Bool} {pnLen : Nat}

def packetHdr (c : QuicConnOwn) (sp : QuicPns) (early : Bool) (pnLen pn size : Nat) : QuicPktHdr :=
  { buildHdr c sp early pnLen (size + pnLen + QUIC_TAG_LEN) with
    pn := pn, pnEnc := pn % 256 ^ pnLen }

/-- The Length field takes two bytes whatever it holds. -/
theorem quicHdrSize_packetHdr {pn size : Nat} (short : size + pnLen + QUIC_TAG_LEN < 2 ^ 14) :
    quicHdrSize (packetHdr c sp early pnLen pn size) =
      quicHdrSize (buildHdr c sp early pnLen 0) := by
  have len_size : quicVarintSize (size + pnLen + QUIC_TAG_LEN) ≠ 0 ∧
      quicVarintSize (size + pnLen + QUIC_TAG_LEN) ≤ 2 := by
    unfold quicVarintSize
    split_ifs <;> omega
  have zero_size : quicVarintSize 0 = 1 := rfl
  cases early <;> cases sp <;>
    simp [quicHdrSize, packetHdr, buildHdr, pktTypeForSpace, hdrLongSize, hdrLenSize, len_size,
      zero_size]

theorem numbered_buildHdr (c : QuicConnOwn) (sp : QuicPns) (early : Bool) (pnLen len : Nat) :
    (buildHdr c sp early pnLen len).type.numbered = true := by
  cases early <;> cases sp <;> rfl

/-- A header that can be measured can be written. -/
theorem formed_packetHdr {pn size : Nat} (measured : quicHdrSize (buildHdr c sp early pnLen 0) ≠ 0)
    (short : size + pnLen + QUIC_TAG_LEN < 2 ^ 14) :
    (packetHdr c sp early pnLen pn size).Formed (remoteCid c).cid.length
      (List.replicate (size + QUIC_TAG_LEN) 0) := by
  have numbered := numbered_buildHdr c sp early pnLen 0
  obtain ⟨dcid_le, scid_le, pnLen_pos, pnLen_le, token_fits⟩ := measured_spec numbered measured
  refine ⟨numbered, fun _ => rfl, dcid_le, scid_le, fun _ => rfl, token_fits, pnLen_pos, pnLen_le,
    Nat.mod_lt _ (by positivity), ?_, by simp, fun _ => short, ?_⟩
  · simp only [packetHdr, buildHdr, length_replicate]
    omega
  · intro long
    refine .inr ?_
    simp only [packetHdr, buildHdr] at long ⊢
    rw [if_neg long]

end Conn

end Cx.Quic
