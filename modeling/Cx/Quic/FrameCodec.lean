import Cx.Quic.Frame
import Cx.Quic.WireCodec

/-!
# Frames survive the wire

`QuicFrame.bytes` is what a frame looks like on the wire.  The encoder appends it, the size
function measures it, and the decoder takes it off the front again; `frames_round_trip` joins the
three for a whole packet payload.
-/

namespace Cx.Quic

open List

/-- The byte string holds exactly that many gap and length pairs. -/
def HoldsPairs (count : Nat) (data : List UInt8) : Prop :=
  ackSkipPairs count ⟨data, false⟩ = ⟨[], false⟩

def FitsVarint (value : Nat) : Prop := value < QUIC_MAX_PACKET_NUMBER

instance FitsVarint.decidable (value : Nat) : Decidable (FitsVarint value) :=
  inferInstanceAs (Decidable (value < QUIC_MAX_PACKET_NUMBER))

/-- The frame is one that the encoder writes and the decoder accepts. -/
def QuicFrame.Formed : QuicFrame → Prop
  | .padding count => 0 < count
  | .ping | .handshakeDone => True
  | .ack fields =>
    FitsVarint fields.largest ∧ FitsVarint fields.delay ∧ FitsVarint fields.rangeCount ∧
      fields.firstRange ≤ fields.largest ∧ HoldsPairs fields.rangeCount fields.rangeData ∧
      ∀ ect0 ect1 ecnce, fields.ecn = some (ect0, ect1, ecnce) →
        FitsVarint ect0 ∧ FitsVarint ect1 ∧ FitsVarint ecnce
  | .resetStream id error finalSize => FitsVarint id ∧ FitsVarint error ∧ FitsVarint finalSize
  | .stopSending id error => FitsVarint id ∧ FitsVarint error
  | .crypto offset data =>
    FitsVarint offset ∧ FitsVarint data.length ∧ offset + data.length ≤ QUIC_MAX_PACKET_NUMBER
  | .newToken token => token ≠ [] ∧ FitsVarint token.length
  | .stream _ hasLen hasOff id offset data =>
    FitsVarint id ∧ FitsVarint offset ∧ (hasLen = true → FitsVarint data.length) ∧
      offset + data.length ≤ QUIC_MAX_PACKET_NUMBER ∧ (hasOff = false → offset = 0)
  | .maxData max => FitsVarint max
  | .maxStreamData id max => FitsVarint id ∧ FitsVarint max
  | .maxStreams _ max => max ≤ QUIC_MAX_STREAMS
  | .dataBlocked limit => FitsVarint limit
  | .streamDataBlocked id limit => FitsVarint id ∧ FitsVarint limit
  | .streamsBlocked _ limit => limit ≤ QUIC_MAX_STREAMS
  | .newConnId seq retirePrior cid token =>
    FitsVarint seq ∧ retirePrior ≤ seq ∧ cid ≠ [] ∧ cid.length ≤ QUIC_MAX_CID ∧
      token.length = QUIC_RESET_TOKEN_LEN
  | .retireConnId seq => FitsVarint seq
  | .pathChallenge data | .pathResponse data => data.length = QUIC_PATH_DATA_LEN
  | .connClose error frameType reason =>
    FitsVarint error ∧ FitsVarint frameType ∧ FitsVarint reason.length
  | .connCloseApp error reason => FitsVarint error ∧ FitsVarint reason.length
  | .datagram hasLen data => hasLen = true ∧ FitsVarint data.length

def QuicFrame.fieldBytes : QuicFrame → List UInt8
  | .padding count => List.replicate (count - 1) 0
  | .ping | .handshakeDone => []
  | .ack fields =>
    varintBytes fields.largest ++ (varintBytes fields.delay ++ (varintBytes fields.rangeCount ++
      (varintBytes fields.firstRange ++ (fields.rangeData ++
        match fields.ecn with
        | none => []
        | some (ect0, ect1, ecnce) =>
          varintBytes ect0 ++ (varintBytes ect1 ++ varintBytes ecnce)))))
  | .resetStream id error finalSize =>
    varintBytes id ++ (varintBytes error ++ varintBytes finalSize)
  | .stopSending id error => varintBytes id ++ varintBytes error
  | .crypto offset data => varintBytes offset ++ (varintBytes data.length ++ data)
  | .newToken token => varintBytes token.length ++ token
  | .stream _ hasLen hasOff id offset data =>
    varintBytes id ++ ((if hasOff then varintBytes offset else []) ++
      ((if hasLen then varintBytes data.length else []) ++ data))
  | .maxData max => varintBytes max
  | .maxStreamData id max => varintBytes id ++ varintBytes max
  | .maxStreams _ max => varintBytes max
  | .dataBlocked limit => varintBytes limit
  | .streamDataBlocked id limit => varintBytes id ++ varintBytes limit
  | .streamsBlocked _ limit => varintBytes limit
  | .newConnId seq retirePrior cid token =>
    varintBytes seq ++ (varintBytes retirePrior ++ (quicBytesOf cid.length 1 ++ (cid ++ token)))
  | .retireConnId seq => varintBytes seq
  | .pathChallenge data | .pathResponse data => data
  | .connClose error frameType reason =>
    varintBytes error ++ (varintBytes frameType ++ (varintBytes reason.length ++ reason))
  | .connCloseApp error reason => varintBytes error ++ (varintBytes reason.length ++ reason)
  | .datagram _ data => varintBytes data.length ++ data

def QuicFrame.bytes (f : QuicFrame) : List UInt8 := varintBytes f.type ++ f.fieldBytes

variable (f : QuicFrame)

def QuicFrame.IsPadding (f : QuicFrame) : Prop := ∃ count, f = .padding count

/-- A type is one byte on the wire, and only that of padding is zero. -/
theorem type_bounds : f.type < 0x40 ∧ (f.type = 0 → f.IsPadding) := by
  cases f with
  | padding count => exact ⟨Nat.zero_lt_succ _, fun _ => ⟨count, rfl⟩⟩
  | ack | stream =>
    refine ⟨?_, fun zero => absurd zero ?_⟩ <;> simp only [QuicFrame.type] <;> split_ifs <;> simp
  | maxStreams kind | streamsBlocked kind | datagram kind => cases kind <;> simp [QuicFrame.type]
  | _ => simp [QuicFrame.type]

theorem quicVarintSize_type : quicVarintSize f.type = 1 := by
  rw [quicVarintSize, if_pos (type_bounds f).1]

theorem fitsVarint_type : FitsVarint f.type := by
  have := (type_bounds f).1
  unfold FitsVarint QUIC_MAX_PACKET_NUMBER
  omega

variable {count : Nat} {f : QuicFrame} {wr : QuicWr} {data rest : List UInt8}
  {frames : List QuicFrame}

theorem fitsVarint_streams (allowed : count ≤ QUIC_MAX_STREAMS) : FitsVarint count := by
  unfold QUIC_MAX_STREAMS at allowed
  unfold FitsVarint QUIC_MAX_PACKET_NUMBER
  omega

/-- The fixed fields of a frame have the lengths their types give them. -/
def QuicFrame.Typed : QuicFrame → Prop
  | .newConnId _ _ _ token => token.length = QUIC_RESET_TOKEN_LEN
  | .pathChallenge data | .pathResponse data => data.length = QUIC_PATH_DATA_LEN
  | _ => True

/-- A NEW_CONNECTION_ID frame names an identifier that is there and not too long. -/
def QuicFrame.NamesCid : QuicFrame → Prop
  | .newConnId _ _ cid _ => cid.length ≠ 0 ∧ cid.length ≤ QUIC_MAX_CID
  | _ => True

theorem QuicFrame.Formed.typed (formed : f.Formed) : f.Typed := by
  cases f with
  | newConnId => exact formed.2.2.2.2
  | pathChallenge | pathResponse => exact formed
  | _ => trivial

theorem QuicFrame.Formed.namesCid (formed : f.Formed) : f.NamesCid := by
  cases f with
  | newConnId => exact ⟨fun empty => formed.2.2.1 (length_eq_zero_iff.1 empty), formed.2.2.2.1⟩
  | _ => trivial

theorem QuicFrame.Formed.size_ne (formed : f.Formed) : quicFrameSize f ≠ 0 := by
  have type_size := quicVarintSize_type f
  cases f with
  | padding => exact Nat.ne_of_gt formed
  | datagram =>
    obtain ⟨rfl, -⟩ := formed
    simp only [quicFrameSize]
    omega
  | _ =>
    simp only [quicFrameSize]
    omega

/-- The size function measures what the frame looks like on the wire. -/
theorem length_bytes (typed : f.Typed) (size_ne : quicFrameSize f ≠ 0) :
    f.bytes.length = quicFrameSize f := by
  have type_size := quicVarintSize_type f
  rw [QuicFrame.bytes, length_append, length_varintBytes]
  cases f with
  | padding count =>
    have count_ne : count ≠ 0 := size_ne
    simp only [QuicFrame.fieldBytes, length_replicate, quicFrameSize, type_size]
    omega
  | ack fields =>
    obtain ⟨largest, delay, firstRange, rangeCount, rangeData, ecn⟩ := fields
    cases ecn <;>
      simp only [QuicFrame.fieldBytes, length_append, length_varintBytes, quicFrameSize,
        length_nil] <;> omega
  | stream fin hasLen hasOff =>
    cases hasLen <;> cases hasOff <;>
      simp only [QuicFrame.fieldBytes, length_append, length_varintBytes, quicFrameSize, if_true,
        if_false, length_nil, Bool.false_eq_true] <;> omega
  | datagram hasLen =>
    cases hasLen with
    | false => exact absurd rfl size_ne
    | true =>
      simp only [QuicFrame.fieldBytes, length_append, length_varintBytes, quicFrameSize]
      omega
  | pathChallenge data | pathResponse data =>
    have length_eq : data.length = QUIC_PATH_DATA_LEN := typed
    simp only [QuicFrame.fieldBytes, quicFrameSize, length_eq]
  | newConnId _ _ _ token =>
    have length_eq : token.length = QUIC_RESET_TOKEN_LEN := typed
    simp only [QuicFrame.fieldBytes, length_append, length_varintBytes, length_quicBytesOf,
      quicFrameSize, length_eq]
    omega
  | _ =>
    simp only [QuicFrame.fieldBytes, length_append, length_varintBytes, quicFrameSize,
      length_nil] <;> omega

/-- The encoder writes the fields of a frame as they look on the wire, one behind the other. -/
theorem emits_fields (not_padding : ¬ f.IsPadding) (names : f.NamesCid) :
    ∃ write, Emits write f.fieldBytes f.Formed ∧ ∀ wr, quicFrameFields wr f = some (write wr) := by
  cases f with
  | padding count => exact absurd ⟨count, rfl⟩ not_padding
  | ping | handshakeDone => exact ⟨_, emits_id, fun _ => rfl⟩
  | ack fields =>
    obtain ⟨largest, delay, firstRange, rangeCount, rangeData, ecn⟩ := fields
    cases ecn with
    | none =>
      exact ⟨_, .next (emits_varint (·.1)) (.next (emits_varint (·.2.1))
        (.next (emits_varint (·.2.2.1)) (.next (emits_varint fun formed =>
          formed.2.2.2.1.trans_lt formed.1) (.next (emits_bytes rangeData) emits_id)))),
        fun _ => rfl⟩
    | some counts =>
      obtain ⟨ect0, ect1, ecnce⟩ := counts
      have counts_fit (formed : (QuicFrame.ack ⟨largest, delay, firstRange, rangeCount, rangeData,
          some (ect0, ect1, ecnce)⟩).Formed) := formed.2.2.2.2.2 ect0 ect1 ecnce rfl
      exact ⟨_, .next (emits_varint (·.1)) (.next (emits_varint (·.2.1))
        (.next (emits_varint (·.2.2.1)) (.next (emits_varint fun formed =>
          formed.2.2.2.1.trans_lt formed.1) (.next (emits_bytes rangeData)
            (.next (emits_varint fun formed => (counts_fit formed).1)
              (.next (emits_varint fun formed => (counts_fit formed).2.1)
                (emits_varint fun formed => (counts_fit formed).2.2))))))), fun _ => rfl⟩
  | resetStream =>
    exact ⟨_, .next (emits_varint (·.1)) (.next (emits_varint (·.2.1)) (emits_varint (·.2.2))),
      fun _ => rfl⟩
  | stopSending | maxStreamData | streamDataBlocked =>
    exact ⟨_, .next (emits_varint (·.1)) (emits_varint (·.2)), fun _ => rfl⟩
  | crypto => exact ⟨_, .next (emits_varint (·.1)) (emits_varintBytes (·.2.1)), fun _ => rfl⟩
  | newToken | datagram => exact ⟨_, emits_varintBytes (·.2), fun _ => rfl⟩
  | stream fin hasLen hasOff =>
    cases hasLen <;> cases hasOff
    · exact ⟨_, .next (emits_varint (·.1)) (emits_bytes _), fun _ => rfl⟩
    · exact ⟨_, .next (emits_varint (·.1)) (.next (emits_varint (·.2.1)) (emits_bytes _)),
        fun _ => rfl⟩
    · exact ⟨_, .next (emits_varint (·.1)) (emits_varintBytes (·.2.2.1 rfl)), fun _ => rfl⟩
    · exact ⟨_, .next (emits_varint (·.1)) (.next (emits_varint (·.2.1))
        (emits_varintBytes (·.2.2.1 rfl))), fun _ => rfl⟩
  | maxData | dataBlocked | retireConnId => exact ⟨_, emits_varint id, fun _ => rfl⟩
  | maxStreams | streamsBlocked => exact ⟨_, emits_varint fitsVarint_streams, fun _ => rfl⟩
  | newConnId _ _ cid =>
    exact ⟨_, .next (emits_varint (·.1)) (.next (emits_varint fun formed =>
      formed.2.1.trans_lt formed.1) (.next (emits_bytes _) (.next (emits_bytes cid)
        (emits_bytes _)))), fun _ => if_neg (not_or.2 ⟨names.1, not_lt.2 names.2⟩)⟩
  | pathChallenge data | pathResponse data => exact ⟨_, emits_bytes data, fun _ => rfl⟩
  | connClose =>
    exact ⟨_, .next (emits_varint (·.1)) (.next (emits_varint (·.2.1))
      (emits_varintBytes (·.2.2))), fun _ => rfl⟩
  | connCloseApp => exact ⟨_, .next (emits_varint (·.1)) (emits_varintBytes (·.2)), fun _ => rfl⟩

theorem bytes_padding (count_pos : 0 < count) :
    (QuicFrame.padding count).bytes = List.replicate count 0 := by
  obtain ⟨more, rfl⟩ : ∃ more, count = more + 1 := ⟨count - 1, by omega⟩
  have type_eq : varintBytes 0 = [0] := by decide
  change varintBytes 0 ++ List.replicate more 0 = List.replicate (more + 1) 0
  rw [type_eq, replicate_succ]
  rfl

/-- Padding is written like any other frame, zero byte by zero byte. -/
theorem emits_padding (count_pos : 0 < count) :
    Emits (fun wr => (quicFrameEncode wr (.padding count)).2) (QuicFrame.padding count).bytes
      (QuicFrame.padding count).Formed ∧
    ∀ wr, (quicFrameEncode wr (.padding count)).1 =
      !(quicFrameEncode wr (.padding count)).2.bad := by
  have room_of {wr : QuicWr} (enough : ¬ quicWrLeft wr < count) :
      wr.bad = false ∧ wr.out.length + count ≤ wr.bufsz := by
    revert enough
    fun_cases quicWrLeft wr with
    | case1 => exact fun enough => absurd count_pos enough
    | case2 good => exact fun enough => ⟨by simpa using good, by omega⟩
  rw [bytes_padding count_pos]
  simp only [quicFrameEncode]
  refine ⟨⟨fun wr => ?_, fun wr good => ?_, fun _ wr good room => ?_⟩, fun wr => ?_⟩
  · split_ifs with short
    · exact ⟨rfl, le_rfl, id, fun _ => rfl⟩
    · refine ⟨rfl, by simp, fun _ => ?_, id⟩
      simpa using (room_of short).2
  · split_ifs at good ⊢
    exact ⟨good, rfl⟩
  · rw [length_replicate] at room
    have left_eq : quicWrLeft wr = wr.bufsz - wr.out.length := if_neg (by simp [good])
    exact congrArg Prod.snd (if_neg (by omega))
  · split_ifs with short
    · rfl
    · simp [(room_of short).1]

theorem quicFrameEncode_fields (not_padding : ¬ f.IsPadding) (wr : QuicWr) : quicFrameEncode wr f =
      if quicFrameSize f = 0 then (false, wr)
      else
        match quicFrameFields (quicWrVarint wr f.type) f with
        | none => (false, quicWrVarint wr f.type)
        | some after => (!after.bad, after) := by
  cases f with
  | padding count => exact absurd ⟨count, rfl⟩ not_padding
  | _ => rfl

/-- The encoder has nothing to write, refuses the identifier of a NEW_CONNECTION_ID frame when the
type is written already, or writes the frame as it looks on the wire. -/
theorem quicFrameEncode_cases (f : QuicFrame) :
    (quicFrameSize f = 0 ∧ ∀ wr, (quicFrameEncode wr f).2 = wr) ∨
    (¬ f.NamesCid ∧ ∀ wr, quicFrameEncode wr f = (false, quicWrVarint wr f.type)) ∨
    (quicFrameSize f ≠ 0 ∧ ∃ write, Emits write f.bytes f.Formed ∧
      ∀ wr, quicFrameEncode wr f = (!(write wr).bad, write wr)) := by
  by_cases padding : f.IsPadding
  · obtain ⟨count, rfl⟩ := padding
    by_cases empty : count = 0
    · subst empty
      exact .inl ⟨rfl, fun wr => by simp [quicFrameEncode]⟩
    · obtain ⟨emits, told⟩ := emits_padding (Nat.pos_of_ne_zero empty)
      exact .inr (.inr ⟨empty, _, emits, fun wr => Prod.ext (told wr) rfl⟩)
  · by_cases size_eq : quicFrameSize f = 0
    · exact .inl ⟨size_eq, fun wr => by rw [quicFrameEncode_fields padding, if_pos size_eq]⟩
    · by_cases names : f.NamesCid
      · obtain ⟨write, emits, wrote⟩ := emits_fields padding names
        refine .inr (.inr ⟨size_eq, _, (emits_varint fun _ => fitsVarint_type f).next emits,
          fun wr => ?_⟩)
        rw [quicFrameEncode_fields padding, if_neg size_eq, wrote]
      · refine .inr (.inl ⟨names, fun wr => ?_⟩)
        have refused : ∀ wr, quicFrameFields wr f = none := by
          cases f with
          | newConnId => exact fun wr => if_pos (by simp only [QuicFrame.NamesCid] at names; omega)
          | _ => exact absurd trivial names
        rw [quicFrameEncode_fields padding, if_neg size_eq, refused]

/-- The encoder writes a frame as it looks on the wire, if there is room. -/
theorem quicFrameEncode_eq (formed : f.Formed) (good : wr.bad = false)
    (room : wr.out.length + f.bytes.length ≤ wr.bufsz) :
    quicFrameEncode wr f = (true, { wr with out := wr.out ++ f.bytes }) := by
  rcases quicFrameEncode_cases f with ⟨size_eq, -⟩ | ⟨unnamed, -⟩ | ⟨-, write, emits, wrote⟩
  · exact absurd size_eq formed.size_ne
  · exact absurd formed.namesCid unnamed
  · rw [wrote, emits.appends formed wr good room, good]
    rfl

theorem takes_decode1 {make : Nat → Option QuicFrame} {value : Nat} (fits : FitsVarint value) :
    Takes (frameDecode1 make) (varintBytes value) (make value) := by
  intro rest
  rw [frameDecode1, takes_varint fits rest]
  rfl

theorem takes_decode2 {make : Nat → Nat → Option QuicFrame} {first second : Nat}
    (first_fits : FitsVarint first) (second_fits : FitsVarint second) :
    Takes (frameDecode2 make) (varintBytes first ++ varintBytes second) (make first second) := by
  intro rest
  rw [frameDecode2, append_assoc, takes_varint first_fits]
  exact takes_decode1 second_fits rest

theorem takes_decode3 {make : Nat → Nat → Nat → Option QuicFrame} {first second third : Nat}
    (first_fits : FitsVarint first) (second_fits : FitsVarint second)
    (third_fits : FitsVarint third) :
    Takes (frameDecode3 make) (varintBytes first ++ (varintBytes second ++ varintBytes third))
      (make first second third) := by
  intro rest
  rw [frameDecode3, append_assoc, takes_varint first_fits]
  exact takes_decode2 second_fits third_fits rest

theorem takes_decodeData {make : List UInt8 → Option QuicFrame} (fits : FitsVarint data.length) :
    Takes (frameDecodeData make) (varintBytes data.length ++ data) (make data) := by
  intro rest
  rw [frameDecodeData, takes_varintBytesOf fits rest]

/-- The pairs of an ACK frame are skipped whatever follows them. -/
theorem ackSkipPairs_append (holds : HoldsPairs count data) (rest : List UInt8) :
    ackSkipPairs count ⟨data ++ rest, false⟩ = ⟨rest, false⟩ := by
  induction count generalizing data with
  | zero =>
    have empty : data = [] := congrArg QuicRd.data holds
    rw [empty]
    rfl
  | succ count ih =>
    rw [HoldsPairs, ackSkipPairs] at holds
    have second_good : (quicRdVarint (quicRdVarint ⟨data, false⟩).2).2.bad = false := by
      by_contra bad
      rw [Bool.not_eq_false] at bad
      rw [if_pos bad] at holds
      rw [holds] at bad
      cases bad
    have first_good : (quicRdVarint ⟨data, false⟩).2.bad = false := by
      by_contra bad
      rw [Bool.not_eq_false] at bad
      rw [quicRdVarint_bad bad] at second_good
      cases second_good
    rw [if_neg (by simp [second_good]), QuicRd.eq_of_good second_good] at holds
    have middle_eq := QuicRd.eq_of_good first_good
    rw [ackSkipPairs, quicRdVarint_append first_good]
    rw [middle_eq] at second_good holds
    simp only [quicRdVarint_append second_good]
    exact ih holds

/-- What may follow a frame in a packet: padding runs on over zero bytes, and a STREAM frame without
a length over everything. -/
def QuicFrame.MayPrecede : QuicFrame → List UInt8 → Prop
  | .padding _, rest => rest.head? ≠ some 0
  | .stream _ false _ _ _ _, rest => rest = []
  | _, _ => True

theorem frameOffsetOk_of_le {offset len : Nat} (offset_fits : FitsVarint offset)
    (end_le : offset + len ≤ QUIC_MAX_PACKET_NUMBER) : frameOffsetOk offset len = true := by
  unfold FitsVarint at offset_fits
  simp only [frameOffsetOk, Bool.and_eq_true, decide_eq_true_eq]
  omega

theorem takeWhile_padding (count : Nat) (other : rest.head? ≠ some 0) :
    (List.replicate count 0 ++ rest).takeWhile (fun byte => decide (byte = 0)) =
      List.replicate count 0 := by
  have stops : rest.takeWhile (fun byte => decide (byte = 0)) = [] := by
    cases rest with
    | nil => rfl
    | cons first =>
      have first_ne : first ≠ 0 := fun zero => other (congrArg some zero)
      simp [first_ne]
  rw [takeWhile_append_of_pos (by simp), stops, append_nil]

theorem frameDecodeAck_eq {fields : QuicAck} (formed : (QuicFrame.ack fields).Formed)
    (rest : List UInt8) :
    frameDecodeAck fields.ecn.isSome ⟨(QuicFrame.ack fields).fieldBytes ++ rest, false⟩ =
      (some (.ack fields), ⟨rest, false⟩) := by
  obtain ⟨largest, delay, firstRange, rangeCount, rangeData, ecn⟩ := fields
  obtain ⟨largest_fits, delay_fits, count_fits, first_le, pairs, ecn_fits⟩ := formed
  have first_fits : FitsVarint firstRange := first_le.trans_lt largest_fits
  simp only at largest_fits delay_fits count_fits first_le pairs ecn_fits
  have taken : ∀ tail : List UInt8,
      (rangeData ++ tail).take ((rangeData ++ tail).length - tail.length) = rangeData := by
    intro tail
    rw [length_append, Nat.add_sub_cancel, take_left]
  simp only [frameDecodeAck, QuicFrame.fieldBytes, append_assoc, takes_varint largest_fits _,
    takes_varint delay_fits _, takes_varint count_fits _, takes_varint first_fits _,
    Bool.false_eq_true, false_or, if_neg (not_lt.2 first_le), ackSkipPairs_append pairs _, if_false,
    taken]
  cases ecn with
  | none => rfl
  | some counts =>
    obtain ⟨ect0, ect1, ecnce⟩ := counts
    obtain ⟨ect0_fits, ect1_fits, ecnce_fits⟩ := ecn_fits ect0 ect1 ecnce rfl
    simp only [Option.isSome_some, if_true, append_assoc, takes_varint ect0_fits _,
      takes_varint ect1_fits _, takes_varint ecnce_fits _, Bool.false_eq_true, if_false]

theorem frameDecodeStream_eq {fin hasLen hasOff : Bool} {id offset : Nat}
    (formed : (QuicFrame.stream fin hasLen hasOff id offset data).Formed)
    (follows : (QuicFrame.stream fin hasLen hasOff id offset data).MayPrecede rest) :
    frameDecodeStream fin hasLen hasOff
        ⟨(QuicFrame.stream fin hasLen hasOff id offset data).fieldBytes ++ rest, false⟩ =
      (some (.stream fin hasLen hasOff id offset data), ⟨rest, false⟩) := by
  obtain ⟨id_fits, offset_fits, length_fits, end_le, offset_zero⟩ := formed
  have offset_ok := frameOffsetOk_of_le offset_fits end_le
  have offset_read : ∀ tail : List UInt8, (if hasOff = true then
      quicRdVarint ⟨(if hasOff = true then varintBytes offset else []) ++ tail, false⟩
      else (0, ⟨(if hasOff = true then varintBytes offset else []) ++ tail, false⟩)) =
        (offset, ⟨tail, false⟩) := by
    intro tail
    cases hasOff with
    | false => rw [offset_zero rfl]; rfl
    | true => exact takes_varint offset_fits tail
  simp only [frameDecodeStream, QuicFrame.fieldBytes, append_assoc, takes_varint id_fits _,
    offset_read, Bool.false_eq_true, if_false]
  cases hasLen with
  | true =>
    have data_read := takes_varintBytesOf (length_fits rfl) rest
    simp only [append_assoc] at data_read
    simp only [if_true, data_read, offset_ok]
  | false =>
    have none_left : rest = [] := follows
    subst none_left
    have data_read := takes_bytes data []
    simp only [append_nil] at data_read
    simp only [Bool.false_eq_true, if_false, nil_append, append_nil, quicRdLeft,
      data_read, offset_ok, if_true]

theorem frameDecodeNewConnId_eq {seq retirePrior : Nat} {cid token : List UInt8}
    (formed : (QuicFrame.newConnId seq retirePrior cid token).Formed) (rest : List UInt8) :
    frameDecodeNewConnId
      ⟨(QuicFrame.newConnId seq retirePrior cid token).fieldBytes ++ rest, false⟩ =
      (some (.newConnId seq retirePrior cid token), ⟨rest, false⟩) := by
  obtain ⟨seq_fits, prior_le, cid_some, cid_le, token_length⟩ := formed
  have prior_fits : FitsVarint retirePrior := prior_le.trans_lt seq_fits
  have cid_pos : cid.length ≠ 0 := fun empty => cid_some (length_eq_zero_iff.1 empty)
  have cid_small : cid.length < 256 := by
    unfold QUIC_MAX_CID at cid_le
    omega
  have allowed : ¬ (false = true ∨ cid.length = 0 ∨ cid.length > QUIC_MAX_CID ∨
      retirePrior > seq) := by
    simp only [Bool.false_eq_true, false_or]
    omega
  have cid_read := takes_bytes cid (token ++ rest)
  have token_read := takes_bytes token rest
  rw [token_length] at token_read
  simp only [frameDecodeNewConnId, QuicFrame.fieldBytes, append_assoc,
    takes_varint seq_fits _, takes_varint prior_fits _, takes_8 cid_small _, if_neg allowed,
    cid_read, token_read]

/-- The decoder takes the fields of a frame off the front and returns the frame. -/
theorem frameDecodeFields_eq (formed : f.Formed) (follows : f.MayPrecede rest) :
    frameDecodeFields f.type ⟨f.fieldBytes ++ rest, false⟩ = (some f, ⟨rest, false⟩) := by
  cases f with
  | padding count =>
    have count_pos : 0 < count := formed
    have run := takeWhile_padding (count - 1) follows
    simp only [frameDecodeFields, QuicFrame.type, QuicFrame.fieldBytes, run,
      length_replicate, drop_left' (length_replicate)]
    rw [Nat.add_sub_cancel' count_pos]
  | ping | handshakeDone => rfl
  | ack fields =>
    have read := frameDecodeAck_eq formed rest
    obtain ⟨largest, delay, firstRange, rangeCount, rangeData, ecn⟩ := fields
    cases ecn with
    | none | some => exact read
  | resetStream =>
    simp only [frameDecodeFields, QuicFrame.type, QuicFrame.fieldBytes,
      takes_decode3 formed.1 formed.2.1 formed.2.2 rest]
  | stopSending | maxStreamData | streamDataBlocked =>
    simp only [frameDecodeFields, QuicFrame.type, QuicFrame.fieldBytes,
      takes_decode2 formed.1 formed.2 rest]
  | crypto offset =>
    obtain ⟨offset_fits, length_fits, end_le⟩ := formed
    have offset_ok := frameOffsetOk_of_le offset_fits end_le
    simp only [frameDecodeFields, QuicFrame.type, QuicFrame.fieldBytes,
      append_assoc (varintBytes offset), takes_varint offset_fits _,
      takes_decodeData length_fits rest, offset_ok, if_true]
  | newToken token =>
    have nonempty : token.length > 0 := length_pos_of_ne_nil formed.1
    simp only [frameDecodeFields, QuicFrame.type, QuicFrame.fieldBytes,
      takes_decodeData formed.2 rest, if_pos nonempty]
  | stream fin hasLen hasOff =>
    rw [← frameDecodeStream_eq formed follows]
    cases fin <;> cases hasLen <;> cases hasOff <;> simp [frameDecodeFields, QuicFrame.type]
  | maxData | dataBlocked | retireConnId =>
    simp only [frameDecodeFields, QuicFrame.type, QuicFrame.fieldBytes, takes_decode1 formed rest]
  | maxStreams dir count | streamsBlocked dir count =>
    have fits := fitsVarint_streams formed
    have allowed : count ≤ QUIC_MAX_STREAMS := formed
    cases dir <;>
      simp only [frameDecodeFields, QuicFrame.type, QuicFrame.fieldBytes, takes_decode1 fits rest,
        frameStreams, if_pos allowed]
  | newConnId => exact frameDecodeNewConnId_eq formed rest
  | pathChallenge data | pathResponse data =>
    have length_eq : data.length = QUIC_PATH_DATA_LEN := formed
    have read := takes_bytes data rest
    rw [length_eq] at read
    simp only [frameDecodeFields, QuicFrame.type, QuicFrame.fieldBytes, read]
  | connClose error frameType =>
    obtain ⟨error_fits, type_fits, length_fits⟩ := formed
    simp only [frameDecodeFields, QuicFrame.type, QuicFrame.fieldBytes,
      append_assoc (varintBytes error), append_assoc (varintBytes frameType),
      takes_varint error_fits _, takes_varint type_fits _, takes_decodeData length_fits rest]
  | connCloseApp error =>
    obtain ⟨error_fits, length_fits⟩ := formed
    simp only [frameDecodeFields, QuicFrame.type, QuicFrame.fieldBytes,
      append_assoc (varintBytes error), takes_varint error_fits _,
      takes_decodeData length_fits rest]
  | datagram =>
    obtain ⟨rfl, length_fits⟩ := formed
    simp only [frameDecodeFields, QuicFrame.type, QuicFrame.fieldBytes, if_true,
      takes_decodeData length_fits rest]

/-- The decoder takes a frame off the front and returns it. -/
theorem quicFrameDecode_eq {f : QuicFrame} {rest : List UInt8} (formed : f.Formed)
    (follows : f.MayPrecede rest) :
    quicFrameDecode ⟨f.bytes ++ rest, false⟩ = (some f, ⟨rest, false⟩) := by
  have type_length : (varintBytes f.type).length = 1 := by
    rw [length_varintBytes, quicVarintSize_type]
  have some_left : ¬ (false = true ∨ quicRdLeft ⟨f.bytes ++ rest, false⟩ = 0) := by
    simp only [quicRdLeft, QuicFrame.bytes, length_append, Bool.false_eq_true, if_false, false_or]
    omega
  rw [quicFrameDecode, if_neg some_left, QuicFrame.bytes, append_assoc,
    takes_varint (fitsVarint_type f)]
  exact frameDecodeFields_eq formed follows

/-- Write frames one after another; `none` as soon as one cannot be written. -/
def quicFramesEncode (wr : QuicWr) : List QuicFrame → Option QuicWr
  | [] => some wr
  | f :: rest =>
    match quicFrameEncode wr f with
    | (true, wr) => quicFramesEncode wr rest
    | (false, _) => none

/-- Read frames until the decoder refuses, and return them with the reader it left; `none` when the
rounds run out first. -/
def quicFramesDecode : Nat → QuicRd → Option (List QuicFrame × QuicRd)
  | 0, _ => none
  | fuel + 1, rd =>
    match quicFrameDecode rd with
    | (none, rd) => some ([], rd)
    | (some f, rd) => (quicFramesDecode fuel rd).map fun (frames, rd) => (f :: frames, rd)

/-- The frame is a STREAM frame that does not say how long it is. -/
def QuicFrame.RunsOn (f : QuicFrame) : Prop :=
  ∃ fin hasOff id offset data, f = .stream fin false hasOff id offset data

/-- Padding is never next to padding, and a frame that does not say how long it is comes last. -/
def LaidOut : List QuicFrame → Prop
  | [] => True
  | f :: rest =>
    (f.IsPadding → ∀ next ∈ rest.head?, ¬ next.IsPadding) ∧ (f.RunsOn → rest = []) ∧ LaidOut rest

def payload (frames : List QuicFrame) : List UInt8 := (frames.map QuicFrame.bytes).flatten

theorem head?_bytes (f : QuicFrame) : f.bytes.head? = some (UInt8.ofNat f.type) := by
  have type_eq : varintBytes f.type = [UInt8.ofNat f.type] := by
    rw [varintBytes, quicVarintSize_type]
    simp [quicVarintBytes, quicBytesOf]
  rw [QuicFrame.bytes, type_eq]
  rfl

theorem mayPrecede_of_laidOut {rest : List QuicFrame} (laid_out : LaidOut (f :: rest)) :
    f.MayPrecede (payload rest) := by
  obtain ⟨padding_apart, runs_on, -⟩ := laid_out
  cases f with
  | padding count =>
    cases rest with
    | nil => exact nofun
    | cons next others =>
      have other : ¬ next.IsPadding := padding_apart ⟨count, rfl⟩ next rfl
      obtain ⟨type_small, type_zero⟩ := type_bounds next
      have head_eq : (payload (next :: others)).head? = some (UInt8.ofNat next.type) := by
        rw [payload, map_cons, flatten_cons, List.head?_append, head?_bytes]
        rfl
      change (payload (next :: others)).head? ≠ some 0
      rw [head_eq]
      intro zero
      have toNat_eq := congrArg UInt8.toNat (Option.some.inj zero)
      rw [UInt8.toNat_ofNat', Nat.mod_eq_of_lt (by omega)] at toNat_eq
      exact other (type_zero toNat_eq)
  | stream fin hasLen hasOff id offset data =>
    cases hasLen with
    | true => trivial
    | false =>
      have last : rest = [] := runs_on ⟨fin, hasOff, id, offset, data, rfl⟩
      rw [last]
      rfl
  | _ => trivial

theorem length_payload (formed : ∀ f ∈ frames, f.Formed) :
    (payload frames).length = (frames.map quicFrameSize).sum := by
  induction frames with
  | nil => rfl
  | cons f rest ih =>
    obtain ⟨first, others⟩ := forall_mem_cons.1 formed
    rw [payload, map_cons, flatten_cons, length_append, map_cons, sum_cons,
      length_bytes first.typed first.size_ne]
    exact congrArg (quicFrameSize f + ·) (ih others)

theorem quicFramesEncode_eq (formed : ∀ f ∈ frames, f.Formed) (good : wr.bad = false)
    (room : wr.out.length + (payload frames).length ≤ wr.bufsz) :
    quicFramesEncode wr frames = some { wr with out := wr.out ++ payload frames } := by
  induction frames generalizing wr with
  | nil => simp [quicFramesEncode, payload]
  | cons f rest ih =>
    have split_eq : payload (f :: rest) = f.bytes ++ payload rest := rfl
    rw [split_eq, length_append] at room
    obtain ⟨first, others⟩ := forall_mem_cons.1 formed
    rw [quicFramesEncode, quicFrameEncode_eq first good (by omega), split_eq, ← append_assoc]
    exact @ih { wr with out := wr.out ++ f.bytes } others good (by simp only [length_append]; omega)

theorem quicFramesDecode_eq (formed : ∀ f ∈ frames, f.Formed) (laid_out : LaidOut frames)
    {fuel : Nat} (enough : frames.length < fuel) :
    quicFramesDecode fuel ⟨payload frames, false⟩ = some (frames, ⟨[], false⟩) := by
  induction frames generalizing fuel with
  | nil =>
    obtain ⟨more, rfl⟩ : ∃ more, fuel = more + 1 := ⟨fuel - 1, by omega⟩
    rfl
  | cons f rest ih =>
    obtain ⟨more, rfl⟩ : ∃ more, fuel = more + 1 := ⟨fuel - 1, by omega⟩
    obtain ⟨first, others⟩ := forall_mem_cons.1 formed
    have split_eq : payload (f :: rest) = f.bytes ++ payload rest := rfl
    rw [quicFramesDecode, split_eq, quicFrameDecode_eq first (mayPrecede_of_laidOut laid_out)]
    simp only [ih others laid_out.2.2 (Nat.lt_of_succ_lt_succ enough), Option.map_some]

/-- Frames written one after another into a buffer that is large enough all go in, each advances
the writer by its size, and the decoder returns the same frames and stops at the end. -/
theorem frames_round_trip {frames : List QuicFrame} {bufsz : Nat} (formed : ∀ f ∈ frames, f.Formed)
    (laid_out : LaidOut frames) (room : (frames.map quicFrameSize).sum ≤ bufsz) :
    ∃ wr, quicFramesEncode (quicWrInit bufsz) frames = some wr ∧ wr.bad = false ∧
      (∀ front f back, frames = front ++ f :: back → ∃ before after,
        quicFramesEncode (quicWrInit bufsz) front = some before ∧
        quicFrameEncode before f = (true, after) ∧
        quicWrLen after = quicWrLen before + quicFrameSize f) ∧
      ∀ fuel, frames.length < fuel →
        quicFramesDecode fuel (quicRdInit wr.out) = some (frames, ⟨[], false⟩) := by
  have length_eq := length_payload formed
  refine ⟨{ quicWrInit bufsz with out := payload frames }, ?_, rfl, ?_, ?_⟩
  · exact quicFramesEncode_eq formed rfl (by simp only [quicWrInit, length_nil]; omega)
  · rintro front f back rfl
    obtain ⟨front_formed, back_formed⟩ := forall_mem_append.1 formed
    have f_formed := back_formed f mem_cons_self
    have total : (payload front).length + f.bytes.length ≤ bufsz := by
      rw [payload, map_append, flatten_append, map_cons, flatten_cons,
        length_append, length_append] at length_eq
      rw [payload]
      omega
    refine ⟨{ quicWrInit bufsz with out := payload front },
      { quicWrInit bufsz with out := payload front ++ f.bytes },
      quicFramesEncode_eq front_formed rfl ?_, quicFrameEncode_eq f_formed rfl total, ?_⟩
    · simp only [quicWrInit, length_nil]
      omega
    · rw [← length_bytes f_formed.typed f_formed.size_ne]
      exact length_append
  · intro fuel enough
    exact quicFramesDecode_eq formed laid_out enough

/-- An acknowledgement with one further range, padding, and a STREAM frame that runs to the end. -/
theorem frames_round_trip_packet :
    let frames : List QuicFrame :=
      [.ack ⟨9, 300, 2, 1, [1, 0], none⟩, .padding 3, .stream true false true 4 70 [7, 8]]
    quicFramesEncode (quicWrInit 20) frames =
        some ⟨20, [2, 9, 65, 44, 1, 2, 1, 0, 0, 0, 0, 13, 4, 64, 70, 7, 8], false⟩ ∧
      ∃ wr, quicFramesEncode (quicWrInit 20) frames = some wr ∧ wr.bad = false ∧
        (∀ front f back, frames = front ++ f :: back → ∃ before after,
          quicFramesEncode (quicWrInit 20) front = some before ∧
          quicFrameEncode before f = (true, after) ∧
          quicWrLen after = quicWrLen before + quicFrameSize f) ∧
        ∀ fuel, frames.length < fuel →
          quicFramesDecode fuel (quicRdInit wr.out) = some (frames, ⟨[], false⟩) := by
  intro frames
  have formed : ∀ f ∈ frames, f.Formed := by
    simp [frames, QuicFrame.Formed, FitsVarint, HoldsPairs, QUIC_MAX_PACKET_NUMBER]
    decide
  have laid_out : LaidOut frames := by
    simp [frames, LaidOut, QuicFrame.IsPadding, QuicFrame.RunsOn]
  exact ⟨by decide, frames_round_trip formed laid_out (by decide)⟩

end Cx.Quic
