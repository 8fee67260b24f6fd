import Cx.Quic.AckFrame
import Cx.Quic.Params

/-!
# The delay of an acknowledgement

An acknowledgement says how long it was held back, in units of a power of two that an endpoint
advertises in its transport parameters.  The writer shifts by the exponent that it advertised
itself; so does the reader, although the unit is the other endpoint's.  `ack_delay_agrees_iff` says
when they mean the same nevertheless.
-/

namespace Cx.Quic

open Library List

/-- The exponent before the transport parameters were read. -/
def QUIC_HS_ACK_DELAY_EXP : Nat := 3

/-- The exponent of a space, from the parameters of this endpoint. -/
def ackDelayExp (localTp : QuicConnParams) (sp : QuicPns) : Nat :=
  if sp = .app then localTp.ackDelayExponent else QUIC_HS_ACK_DELAY_EXP

def connPutFrame (wr : QuicWr) (f : QuicFrame) : Bool × QuicWr :=
  let need := quicFrameSize f
  if need = 0 ∨ need > quicWrLeft wr then (false, wr) else quicFrameEncode wr f

/-- Write an acknowledgement with as many of the ranges as fit, the largest first; the flag says
whether at least one fitted. -/
def putAckRanges (delay : Nat) (as : QuicAckState) : Nat → QuicWr → Bool × QuicWr
  | 0, wr => (false, wr)
  | n + 1, wr =>
    match quicAckBuild delay (as.ranges.take (n + 1)) (if as.ecnSeen then some as.ecn else none)
        (QUIC_MAX_ACK_RANGES * 20) with
    | none => putAckRanges delay as n wr
    | some f =>
      match connPutFrame wr (.ack f) with
      | (true, wr) => (true, wr)
      | (false, wr) => putAckRanges delay as n wr

/-- Write the acknowledgement that is owed, if one is, into the packet with the given number. -/
def putAck (localTp : QuicConnParams) (sp : QuicPns) (as : QuicAckState) (wr : QuicWr) (pn : Nat)
    (now : Time) : QuicAckState × QuicWr :=
  if !as.pending ∨ as.ranges.length = 0 then (as, wr)
  else
    let elapsed := now - as.largestTime
    let elapsed := if elapsed < 0 then 0 else elapsed
    let delay := elapsed.toNat >>> ackDelayExp localTp sp
    let (written, wr) := putAckRanges delay as as.ranges.length wr
    if written then
      ({ as with pending := false, elicitCount := 0, deadline := 0, sentPn := some pn }, wr)
    else (as, wr)

/-- The delay that handling an acknowledgement passes on to loss recovery. -/
def handleAckDelay (localTp : QuicConnParams) (sp : QuicPns) (f : QuicAck) : Nat :=
  let exp := ackDelayExp localTp sp
  let exp := if exp > 20 then 20 else exp
  let delay := if f.delay > 1 <<< 32 then 1 <<< 32 else f.delay
  delay <<< exp

inductive QuicAckError where
  | frameEncoding
  | protocolViolation
deriving DecidableEq, Repr

/-- Check that only sent packets are acknowledged. -/
def handleAckRanges (next : Nat) : Nat → QuicAckIter → Except QuicAckError QuicAckIter
  | 0, it => .ok it
  | fuel + 1, it =>
    match quicAckIterNext it with
    | (none, it) => .ok it
    | (some r, it) =>
      if r.largest ≥ next then .error .protocolViolation else handleAckRanges next fuel it

/-- Handle an acknowledgement in a space whose next packet number and largest acknowledged number
are given; the latter is returned with the state of loss recovery. -/
def handleAck {σ : Type*} (h : QuicRecovHandlers σ) (localTp : QuicConnParams) (sp : QuicPns)
    (next : Nat) (largestAcked : Option Nat) (f : QuicAck) (now : Time) (s : QuicRecovery × σ) :
    Except QuicAckError (Option Nat × QuicRecovery × σ) :=
  match quicAckIterInit f with
  | none => .error .frameEncoding
  | some it =>
    match handleAckRanges next (f.rangeData.length + 2) it with
    | .error reason => .error reason
    | .ok it =>
      if it.bad then .error .frameEncoding
      else
        let largestAcked :=
          if largestAcked.all (· < f.largest) then some f.largest else largestAcked
        let (processed, s) := quicRecovOnAck h sp f (handleAckDelay localTp sp f) now s
        if !processed then .error .frameEncoding else .ok (largestAcked, s)

/-- What a tracker needs for its acknowledgement to be written. -/
structure AckReady (as : QuicAckState) : Prop where
  sound : AckSound as.ranges
  fits : ∀ pn, AckCovers as.ranges pn → FitsVarint pn
  ecn_fits : FitsVarint as.ecn.1 ∧ FitsVarint as.ecn.2.1 ∧ FitsVarint as.ecn.2.2

variable {as : QuicAckState}

theorem fits_ecn (ready : AckReady as) {ect0 ect1 ecnce : Nat}
    (counts_eq : (if as.ecnSeen then some as.ecn else none) = some (ect0, ect1, ecnce)) :
    FitsVarint ect0 ∧ FitsVarint ect1 ∧ FitsVarint ecnce := by
  have ecn_fits := ready.ecn_fits
  split_ifs at counts_eq
  rw [Option.some.inj counts_eq] at ecn_fits
  exact ecn_fits

/-- A frame built from a tracker is one that survives the wire. -/
theorem ackBuild_formed (ready : AckReady as) {delay n : Nat} {f : QuicAck}
    (delay_fits : FitsVarint delay)
    (built : quicAckBuild delay (as.ranges.take n) (if as.ecnSeen then some as.ecn else none)
      (QUIC_MAX_ACK_RANGES * 20) = some f) : (QuicFrame.ack f).Formed ∧ f.delay = delay := by
  have taken_apart : AckApart (as.ranges.take n) :=
    (ackApart_append.1 ((take_append_drop n as.ranges).symm ▸ ready.sound.apart)).1
  have taken_length : (as.ranges.take n).length ≤ QUIC_MAX_ACK_RANGES :=
    (length_take_le' n as.ranges).trans ready.sound.capped
  cases taken_eq : as.ranges.take n with
  | nil =>
    rw [taken_eq] at built
    cases built
  | cons first rest =>
    rw [taken_eq] at built taken_apart taken_length
    have first_mem : first ∈ as.ranges :=
      mem_of_mem_take (taken_eq ▸ mem_cons_self : first ∈ as.ranges.take n)
    have first_fits : FitsVarint first.largest :=
      ready.fits first.largest
        ⟨first, first_mem, ready.sound.apart.nonempty first first_mem, le_rfl⟩
    have capped : rest.length < QUIC_MAX_ACK_RANGES := taken_length
    rw [quicAckBuild_eq taken_apart first_fits capped] at built
    cases built
    exact ⟨formed_ackFields taken_apart first_fits capped delay_fits
      (fun _ _ _ counts_eq => fits_ecn ready counts_eq), rfl⟩

/-- Either nothing is written, or one frame with the delay. -/
theorem putAckRanges_spec (ready : AckReady as) {delay : Nat}
    (delay_fits : FitsVarint delay) (n bufsz : Nat) :
    putAckRanges delay as n (quicWrInit bufsz) = (false, quicWrInit bufsz) ∨
      ∃ f, (QuicFrame.ack f).Formed ∧ f.delay = delay ∧ putAckRanges delay as n (quicWrInit bufsz) =
          (true, { quicWrInit bufsz with out := (QuicFrame.ack f).bytes }) := by
  induction n with
  | zero => exact .inl rfl
  | succ n ih =>
    rw [putAckRanges]
    split
    · exact ih
    · next f built =>
        obtain ⟨formed, delay_eq⟩ := ackBuild_formed ready delay_fits built
        by_cases room : quicFrameSize (.ack f) ≤ bufsz
        · have size_eq := length_bytes formed.typed formed.size_ne
          have size_pos : quicFrameSize (.ack f) ≠ 0 := by
            rw [← size_eq, QuicFrame.bytes, length_append, length_varintBytes, quicVarintSize_type]
            omega
          have fitting : ¬ (quicFrameSize (.ack f) = 0 ∨
              quicFrameSize (.ack f) > quicWrLeft (quicWrInit bufsz)) := by
            simp only [quicWrLeft, quicWrInit, Bool.false_eq_true, if_false, length_nil]
            omega
          have put : connPutFrame (quicWrInit bufsz) (.ack f) =
              (true, { quicWrInit bufsz with out := (QuicFrame.ack f).bytes }) := by
            rw [connPutFrame, if_neg fitting]
            exact quicFrameEncode_eq formed rfl (by simp only [quicWrInit, length_nil]; omega)
          exact .inr ⟨f, formed, delay_eq, by rw [put]⟩
        · have full : quicFrameSize (.ack f) = 0 ∨
              quicFrameSize (.ack f) > quicWrLeft (quicWrInit bufsz) := by
            right
            simp only [quicWrLeft, quicWrInit, Bool.false_eq_true, if_false, length_nil]
            omega
          have put : connPutFrame (quicWrInit bufsz) (.ack f) = (false, quicWrInit bufsz) := by
            rw [connPutFrame, if_pos full]
          rw [put]
          exact ih

theorem delay_of_putAck {localTp : QuicConnParams} {sp : QuicPns}
    (ready : AckReady as) {pn bufsz elapsed : Nat} {now : Time} {f : QuicAck} {rest : QuicRd}
    (elapsed_eq : now - as.largestTime = elapsed) (elapsed_fits : FitsVarint elapsed)
    (written : quicFrameDecode (quicRdInit (putAck localTp sp as (quicWrInit bufsz) pn now).2.out) =
      (some (.ack f), rest)) : f.delay = elapsed >>> ackDelayExp localTp sp := by
  have delay_fits : FitsVarint (elapsed >>> ackDelayExp localTp sp) :=
    lt_of_le_of_lt (Nat.shiftRight_le _ _) elapsed_fits
  have nothing : quicFrameDecode (quicRdInit (quicWrInit bufsz).out) ≠ (some (.ack f), rest) := by
    intro decoded
    cases decoded
  have not_negative : ¬ (elapsed : Int) < 0 := by omega
  rw [putAck, elapsed_eq] at written
  simp only [if_neg not_negative, Int.toNat_natCast] at written
  by_cases idle : (!as.pending) = true ∨ as.ranges.length = 0
  · rw [if_pos idle] at written
    exact absurd written nothing
  · rw [if_neg idle] at written
    rcases putAckRanges_spec ready delay_fits as.ranges.length bufsz with
      unwritten | ⟨sent, formed, delay_eq, put⟩
    · simp only [unwritten, Bool.false_eq_true, if_false] at written
      exact absurd written nothing
    · simp only [put, if_true] at written
      have decoded := @quicFrameDecode_eq _ [] formed trivial
      rw [append_nil] at decoded
      rw [quicRdInit, decoded] at written
      cases written
      exact delay_eq

/-- A value rounded down to a multiple of one power of two and scaled by another stays within one
unit below the value. -/
theorem rescaled_close_iff (value unit other : Nat) :
    (value >>> unit <<< other ≤ value ∧ value < value >>> unit <<< other + 2 ^ unit) ↔
      other = unit ∨ value < 2 ^ unit ∨ (other < unit ∧ value < 2 ^ unit + 2 ^ other) := by
  have unit_pos := Nat.two_pow_pos unit
  have split_eq := Nat.div_add_mod value (2 ^ unit)
  have rest_lt := Nat.mod_lt value unit_pos
  rw [Nat.shiftRight_eq_div_pow, Nat.shiftLeft_eq]
  generalize value % 2 ^ unit = rest at split_eq rest_lt
  generalize value / 2 ^ unit = count at split_eq ⊢
  subst split_eq
  rcases lt_trichotomy other unit with smaller | rfl | larger
  · -- the other unit is at most half of this one
    have half : 2 * 2 ^ other ≤ 2 ^ unit := by
      rw [← Nat.pow_succ']
      exact Nat.pow_le_pow_right (by decide) smaller
    generalize 2 ^ unit = big at *
    generalize 2 ^ other = small at *
    obtain rfl | rfl | ⟨more, rfl⟩ : count = 0 ∨ count = 1 ∨ ∃ more, count = more + 2 := by
      rcases count with _ | _ | more
      · exact .inl rfl
      · exact .inr (.inl rfl)
      · exact .inr (.inr ⟨more, rfl⟩)
    · simp only [Nat.mul_zero, Nat.zero_mul]
      omega
    · simp only [Nat.mul_one, Nat.one_mul]
      omega
    · have far : (more + 2) * small + big ≤ big * (more + 2) := by
        nlinarith
      have above : 2 * big ≤ big * (more + 2) := by
        nlinarith
      omega
  · rw [Nat.mul_comm (2 ^ other) count]
    omega
  · have double : 2 * 2 ^ unit ≤ 2 ^ other := by
      rw [← Nat.pow_succ']
      exact Nat.pow_le_pow_right (by decide) larger
    generalize 2 ^ unit = small at *
    generalize 2 ^ other = big at *
    rcases count with _ | more
    · simp only [Nat.mul_zero, Nat.zero_mul]
      omega
    · have beyond : small * (more + 1) + small ≤ (more + 1) * big := by
        nlinarith
      have above : small ≤ small * (more + 1) := Nat.le_mul_of_pos_right small (Nat.succ_pos more)
      omega

/-- The delay that reaches loss recovery is less than one unit of the acknowledgement's sender below
the true delay exactly when both endpoints advertised the same exponent, or the delay is less than
the unit, or it exceeds the sender's larger unit by less than the receiver's. -/
theorem ack_delay_agrees_iff {sender receiver : QuicConnParams} {as : QuicAckState}
    {pn bufsz elapsed : Nat} {now : Time} {f : QuicAck} {rest : QuicRd} (ready : AckReady as)
    (receiver_le : receiver.ackDelayExponent ≤ QUIC_TP_MAX_ACK_DELAY_EXP)
    (elapsed_eq : now - as.largestTime = elapsed) (elapsed_lt : elapsed < 2 ^ 32)
    (written : quicFrameDecode
      (quicRdInit (putAck sender .app as (quicWrInit bufsz) pn now).2.out) =
      (some (.ack f), rest)) :
    (handleAckDelay receiver .app f ≤ elapsed ∧
      elapsed < handleAckDelay receiver .app f + 2 ^ sender.ackDelayExponent) ↔
    receiver.ackDelayExponent = sender.ackDelayExponent ∨ elapsed < 2 ^ sender.ackDelayExponent ∨
      (receiver.ackDelayExponent < sender.ackDelayExponent ∧
        elapsed < 2 ^ sender.ackDelayExponent + 2 ^ receiver.ackDelayExponent) := by
  have elapsed_fits : FitsVarint elapsed := by
    unfold FitsVarint QUIC_MAX_PACKET_NUMBER
    omega
  have delay_eq := delay_of_putAck ready elapsed_eq elapsed_fits written
  have delay_le : elapsed >>> sender.ackDelayExponent ≤ elapsed := Nat.shiftRight_le _ _
  have not_clamped : ¬ receiver.ackDelayExponent > 20 := Nat.not_lt.2 receiver_le
  have passed : handleAckDelay receiver .app f =
      elapsed >>> sender.ackDelayExponent <<< receiver.ackDelayExponent := by
    simp only
      [handleAckDelay, ackDelayExp, if_true, if_neg not_clamped, delay_eq, Nat.one_shiftLeft]
    rw [if_neg (by omega)]
  rw [passed]
  exact rescaled_close_iff elapsed sender.ackDelayExponent receiver.ackDelayExponent

/-- A tracker that received packet 7 at time 0 and owes an acknowledgement for it. -/
def ackOwed : QuicAckState := ackReceive quicAckStateInit ⟨7, 0, true⟩

theorem ready_ackOwed : AckReady ackOwed := by
  refine ⟨ackSound_init.receive _, fun pn held => ?_, by decide⟩
  have is_seven := ((covers_receive ackSound_init ⟨7, 0, true⟩ pn).1 held).1
  rcases is_seven with rfl | earlier
  · decide
  · exact absurd earlier not_ackCovers_nil

/-- Both ends have the default exponent. -/
theorem ack_delay_agrees_default :
    let f : QuicAck := ⟨7, 12, 0, 0, [], none⟩
    quicFrameDecode (quicRdInit (putAck quicTpDefaults .app ackOwed (quicWrInit 100) 3 100).2.out) =
      (some (.ack f), ⟨[], false⟩) ∧
    handleAckDelay quicTpDefaults .app f ≤ 100 ∧
      100 < handleAckDelay quicTpDefaults .app f + 2 ^ quicTpDefaults.ackDelayExponent := by
  intro f
  have written : quicFrameDecode (quicRdInit
      (putAck quicTpDefaults .app ackOwed (quicWrInit 100) 3 100).2.out) =
      (some (.ack f), ⟨[], false⟩) := by decide
  refine ⟨written, (ack_delay_agrees_iff ready_ackOwed ?_ ?_ ?_ written).2 (.inl rfl)⟩
  · decide
  · decide
  · decide

/-- The sender of the acknowledgement advertised 3 and held it back for 8 units; its receiver
advertised 10 and takes that for 1024. -/
theorem ack_delay_inflated :
    let receiver := { quicTpDefaults with ackDelayExponent := 10 }
    let f : QuicAck := ⟨7, 1, 0, 0, [], none⟩
    quicFrameDecode (quicRdInit (putAck quicTpDefaults .app ackOwed (quicWrInit 100) 3 8).2.out) =
      (some (.ack f), ⟨[], false⟩) ∧
    ¬ (handleAckDelay receiver .app f ≤ 8 ∧
      8 < handleAckDelay receiver .app f + 2 ^ quicTpDefaults.ackDelayExponent) := by
  decide

end Cx.Quic
