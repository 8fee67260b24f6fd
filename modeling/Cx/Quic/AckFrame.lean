import Cx.Quic.AckState
import Cx.Quic.FrameCodec

/-!
# Acknowledgements on the wire

An ACK frame carries its ranges as gaps and lengths counted down from the largest number.  Written
from the ranges of a tracker and walked again on the other side, they come out as they went in;
`ack_truthful` joins that with what the ranges of a tracker say about the packets it was given.
-/

namespace Cx.Quic

open Library List

def ackWalk : Nat → QuicAckIter → List QuicAckRange × QuicAckIter
  | 0, it => ([], it)
  | fuel + 1, it =>
    match quicAckIterNext it with
    | (none, it) => ([], it)
    | (some range, it) =>
      let (rest, it) := ackWalk fuel it
      (range :: rest, it)

def ackPairBytes : QuicAckRange → List QuicAckRange → List UInt8
  | _, [] => []
  | previous, range :: rest =>
    varintBytes (previous.smallest - range.largest - 2) ++
      (varintBytes (range.largest - range.smallest) ++ ackPairBytes range rest)

theorem length_ackPairBytes_le (previous : QuicAckRange) (ranges : List QuicAckRange) :
    (ackPairBytes previous ranges).length ≤ 16 * ranges.length := by
  induction ranges generalizing previous with
  | nil => exact le_rfl
  | cons range rest ih =>
    have gap_size := quicVarintSize_le_eight (previous.smallest - range.largest - 2)
    have length_size := quicVarintSize_le_eight (range.largest - range.smallest)
    have rest_size := ih range
    simp only [ackPairBytes, length_append, length_varintBytes, length_cons]
    omega

variable {previous : QuicAckRange} {ranges : List QuicAckRange}

/-- Everything an acknowledgement says about the range below another one fits on the wire. -/
theorem AckApart.fits {range : QuicAckRange} {rest : List QuicAckRange}
    (apart : AckApart (previous :: range :: rest)) (fits : FitsVarint previous.largest) :
    range.smallest ≤ range.largest ∧ range.largest + 2 ≤ previous.smallest ∧
      FitsVarint (previous.smallest - range.largest - 2) ∧
      FitsVarint (range.largest - range.smallest) ∧ FitsVarint range.largest := by
  obtain ⟨previous_nonempty, gap, rest_apart⟩ := ackApart_cons.1 apart
  have range_nonempty := (ackApart_cons.1 rest_apart).1
  have range_gap := gap range mem_cons_self
  unfold FitsVarint at *
  omega

theorem ackBuildRanges_eq {wr : QuicWr} (apart : AckApart (previous :: ranges))
    (fits : FitsVarint previous.largest) (good : wr.bad = false)
    (room : wr.out.length + (ackPairBytes previous ranges).length ≤ wr.bufsz) :
    ackBuildRanges previous ranges wr =
      some { wr with out := wr.out ++ ackPairBytes previous ranges } := by
  induction ranges generalizing previous wr with
  | nil => simp [ackBuildRanges, ackPairBytes]
  | cons range rest ih =>
    obtain ⟨nonempty, gap, gap_fits, length_fits, range_fits⟩ := apart.fits fits
    have rest_apart := (ackApart_cons.1 apart).2.2
    rw [ackPairBytes, ← append_assoc, length_append] at room
    have wrote := (appends_varint length_fits).comp (appends_varint gap_fits) wr good (by omega)
    rw [ackBuildRanges, if_neg (by omega), if_neg (by omega)]
    simp only at wrote ⊢
    rw [wrote]
    refine (@ih range _ rest_apart range_fits ?_ ?_).trans ?_
    · exact good
    · simp only [length_append] at room ⊢
      omega
    · simp [ackPairBytes]

theorem holdsPairs_ackPairBytes (apart : AckApart (previous :: ranges))
    (fits : FitsVarint previous.largest) :
    HoldsPairs ranges.length (ackPairBytes previous ranges) := by
  induction ranges generalizing previous with
  | nil => rfl
  | cons range rest ih =>
    obtain ⟨-, -, gap_fits, length_fits, range_fits⟩ := apart.fits fits
    have rest_holds := ih (ackApart_cons.1 apart).2.2 range_fits
    simp only [HoldsPairs, length_cons, ackSkipPairs, ackPairBytes,
      takes_varint gap_fits _, takes_varint length_fits _, Bool.false_eq_true, if_false]
    exact rest_holds

/-- Walking the pairs below a range produces the ranges they were written from. -/
theorem ackWalk_pairs {it : QuicAckIter} (apart : AckApart (previous :: ranges))
    (fits : FitsVarint previous.largest) (rd_eq : it.rd = ⟨ackPairBytes previous ranges, false⟩)
    (remaining_eq : it.remaining = ranges.length) (next_eq : it.next = previous.smallest)
    (not_first : it.first = false) (good : it.bad = false) {fuel : Nat}
    (enough : ranges.length < fuel) :
    ∃ done, ackWalk fuel it = (ranges, done) ∧ done.bad = false := by
  induction ranges generalizing previous it fuel with
  | nil =>
    obtain ⟨fuel, rfl⟩ : ∃ more, fuel = more + 1 := ⟨fuel - 1, by omega⟩
    refine ⟨it, ?_, good⟩
    have remaining_zero : it.remaining = 0 := remaining_eq
    simp [ackWalk, quicAckIterNext, good, not_first, remaining_zero]
  | cons range rest ih =>
    obtain ⟨fuel, rfl⟩ : ∃ more, fuel = more + 1 := ⟨fuel - 1, by omega⟩
    obtain ⟨nonempty, gap, gap_fits, length_fits, range_fits⟩ := apart.fits fits
    have some_left : ¬ it.remaining = 0 := by
      rw [remaining_eq]
      exact Nat.succ_ne_zero _
    have largest_eq : previous.smallest - (previous.smallest - range.largest - 2) - 2 =
        range.largest := by omega
    have smallest_eq : range.largest - (range.largest - range.smallest) = range.smallest := by
      omega
    have gap_ok : ¬ previous.smallest < previous.smallest - range.largest - 2 + 2 := by omega
    have length_ok : ¬ range.largest < range.largest - range.smallest := by omega
    let after := { it with remaining := it.remaining - 1,
                           rd := ⟨ackPairBytes range rest, false⟩, next := range.smallest }
    have after_remaining : after.remaining = rest.length := by
      simp [after, remaining_eq]
    obtain ⟨done, walked, done_good⟩ := ih (ackApart_cons.1 apart).2.2 range_fits
      (show after.rd = _ from rfl) after_remaining rfl not_first good
        (Nat.lt_of_succ_lt_succ enough)
    refine ⟨done, ?_, done_good⟩
    have produced : quicAckIterNext it = (some range, after) := by
      simp only [quicAckIterNext, good, not_first, some_left, rd_eq, ackPairBytes, next_eq,
        takes_varint gap_fits _, takes_varint length_fits _, Bool.false_eq_true, if_false,
        gap_ok, length_ok, largest_eq, smallest_eq, after]
    simp only [ackWalk, produced, walked]

def ackFields (delay : Nat) (ecn : Option (Nat × Nat × Nat)) (first : QuicAckRange)
    (rest : List QuicAckRange) : QuicAck :=
  ⟨first.largest, delay, first.largest - first.smallest, rest.length, ackPairBytes first rest, ecn⟩

section Built

variable {delay : Nat} {ecn : Option (Nat × Nat × Nat)} {first : QuicAckRange}
  {rest : List QuicAckRange}

/-- The buffer the source uses is large enough for as many ranges as are tracked. -/
theorem quicAckBuild_eq (apart : AckApart (first :: rest)) (fits : FitsVarint first.largest)
    (capped : rest.length < QUIC_MAX_ACK_RANGES) :
    quicAckBuild delay (first :: rest) ecn (QUIC_MAX_ACK_RANGES * 20) =
      some (ackFields delay ecn first rest) := by
  have pairs_size := length_ackPairBytes_le first rest
  have nonempty := (ackApart_cons.1 apart).1
  have room : (quicWrInit (QUIC_MAX_ACK_RANGES * 20)).out.length +
    (ackPairBytes first rest).length ≤
      (quicWrInit (QUIC_MAX_ACK_RANGES * 20)).bufsz := by
    simp only [quicWrInit, length_nil, QUIC_MAX_ACK_RANGES] at capped ⊢
    omega
  rw [quicAckBuild, if_neg (by omega), ackBuildRanges_eq apart fits rfl room]
  rfl

theorem formed_ackFields (apart : AckApart (first :: rest)) (fits : FitsVarint first.largest)
    (capped : rest.length < QUIC_MAX_ACK_RANGES) (delay_fits : FitsVarint delay)
    (ecn_fits : ∀ ect0 ect1 ecnce, ecn = some (ect0, ect1, ecnce) →
      FitsVarint ect0 ∧ FitsVarint ect1 ∧ FitsVarint ecnce) :
    (QuicFrame.ack (ackFields delay ecn first rest)).Formed := by
  have count_fits : FitsVarint rest.length := by
    simp only [FitsVarint, QUIC_MAX_PACKET_NUMBER, QUIC_MAX_ACK_RANGES] at capped ⊢
    omega
  exact ⟨fits, delay_fits, count_fits, Nat.sub_le _ _, holdsPairs_ackPairBytes apart fits, ecn_fits⟩

/-- The other side sees the ranges that the frame was built from. -/
theorem ackWalk_ackFields (apart : AckApart (first :: rest)) (fits : FitsVarint first.largest) :
    ∃ it, quicAckIterInit (ackFields delay ecn first rest) = some it ∧
      ∀ fuel, (first :: rest).length < fuel → ∃ done,
        ackWalk fuel it = (first :: rest, done) ∧ done.bad = false := by
  have nonempty := (ackApart_cons.1 apart).1
  have smallest_eq : first.largest - (first.largest - first.smallest) = first.smallest := by omega
  let it : QuicAckIter :=
    ⟨quicRdInit (ackPairBytes first rest), rest.length, first.largest,
      first.largest - first.smallest, 0, true, false⟩
  let after := { it with first := false, next := first.smallest }
  refine ⟨it, if_neg (Nat.not_lt.2 (Nat.sub_le _ _)), fun fuel enough => ?_⟩
  obtain ⟨fuel, rfl⟩ : ∃ more, fuel = more + 1 := ⟨fuel - 1, by omega⟩
  obtain ⟨done, walked, done_good⟩ := ackWalk_pairs apart fits (show after.rd = _ from rfl) rfl rfl
    rfl rfl (Nat.lt_of_succ_lt_succ enough)
  refine ⟨done, ?_, done_good⟩
  have produced : quicAckIterNext it = (some first, after) := by
    simp [quicAckIterNext, it, after, smallest_eq]
  simp only [ackWalk, produced, walked]

end Built

structure Tracks (as : QuicAckState) (pns : List Nat) : Prop where
  sound : AckSound as.ranges
  truthful : ∀ pn, AckCovers as.ranges pn → pn ∈ pns
  largest_held : ∀ largest, as.largest = some largest → AckCovers as.ranges largest
  largest_max : ∀ pn ∈ pns, ∃ largest, as.largest = some largest ∧ pn ≤ largest

/-- A number that is recorded is in the list afterwards. -/
theorem AckInsertion.not_forgets {above below ranges : List QuicAckRange} {pn : Nat}
    (insertion : AckInsertion pn above below (some ranges))
    (lower : ∀ range ∈ below, range.largest < pn) : ackForgetsAt above below pn pn = false := by
  cases insertion with
  | bridged touches | lowered touches => simp [ackForgetsAt, ackJoinsAbove_append touches]
  | raised clear reaches => simp [ackForgetsAt, ackJoinsBelow_cons reaches]
  | placed clear clear_below room => simp [ackForgetsAt, room]
  | @evicted above rest last clear clear_below =>
    have last_lower := lower last (by simp)
    simp [ackForgetsAt, clear, clear_below, last_lower]

variable {as : QuicAckState}

/-- A number larger than the one recorded stays in the list. -/
theorem not_forgets_of_lt {pn largest : Nat} (sound : AckSound as.ranges)
    (smaller : pn < largest) : ackForgets as pn largest = false := by
  unfold ackForgets
  cases found : ackFind pn as.ranges with
  | none => rfl
  | some parts =>
    obtain ⟨above, below⟩ := parts
    obtain ⟨-, -, lower⟩ := ackFind_eq_some sound.apart found
    simp only [ackForgetsAt]
    split_ifs with joins
    · rfl
    · cases last_eq : below.getLast? with
      | none => simp only [decide_eq_false_iff_not]; omega
      | some last =>
        have last_lower := lower last (mem_of_getLast? last_eq)
        simp only [Bool.and_eq_false_iff, decide_eq_false_iff_not]
        omega

/-- A number that was not recorded is smaller than the largest. -/
theorem exists_larger_of_ignored {pn : Nat} {above below : List QuicAckRange}
    (sound : AckSound as.ranges) (found : ackFind pn as.ranges = some (above, below))
    (insertion : AckInsertion pn above below none) :
    ∃ larger, AckCovers as.ranges larger ∧ pn < larger := by
  obtain ⟨parts_eq, higher, -⟩ := ackFind_eq_some sound.apart found
  cases insertion with
  | ignored clear clear_below full =>
    obtain ⟨range, range_mem⟩ := exists_mem_of_length_pos
      (Nat.lt_of_lt_of_le (by decide) full : 0 < above.length)
    have in_list : range ∈ as.ranges := by
      rw [parts_eq]
      exact mem_append_left _ range_mem
    have nonempty := sound.apart.nonempty range in_list
    exact ⟨range.smallest, ⟨range, in_list, le_rfl, nonempty⟩, higher range range_mem⟩

theorem Tracks.receive {pns : List Nat} (tracks : Tracks as pns)
    (call : AckCall) : Tracks (ackReceive as call) (pns ++ [call.pn]) := by
  have receipt := quicAckStateAdd_receipt as call.pn call.now call.ackEliciting
  have covers := covers_receive tracks.sound call
  have truthful : ∀ pn, AckCovers (ackReceive as call).ranges pn → pn ∈ pns ++ [call.pn] := by
    intro pn held
    rcases ((covers pn).1 held).1 with rfl | earlier
    · simp
    · exact mem_append_left _ (tracks.truthful pn earlier)
  have earlier_max : ∀ pn ∈ pns ++ [call.pn], (∃ larger, AckCovers as.ranges larger ∧
      call.pn ≤ larger) → ∃ largest, as.largest = some largest ∧ pn ≤ largest := by
    rintro pn pn_mem ⟨larger, larger_held, pn_le⟩
    rcases mem_append.1 pn_mem with earlier | newest
    · exact tracks.largest_max pn earlier
    · obtain ⟨largest, largest_eq, larger_le⟩ :=
        tracks.largest_max larger (tracks.truthful larger larger_held)
      exact ⟨largest, largest_eq, by rw [mem_singleton.1 newest]; omega⟩
  refine ⟨tracks.sound.receive call, truthful, ?_, ?_⟩
  all_goals
    unfold ackReceive at covers ⊢
    generalize quicAckStateAdd as call.pn call.now call.ackEliciting = outcome at receipt covers ⊢
  · intro largest largest_eq
    cases receipt with
    | duplicate | ignored => exact tracks.largest_held largest largest_eq
    | recorded found insertion ranges_eq after_largest =>
      obtain ⟨-, -, lower⟩ := ackFind_eq_some tracks.sound.apart found
      have missing := not_covers_of_ackFind tracks.sound.apart found
      rw [after_largest] at largest_eq
      split_ifs at largest_eq with is_largest
      · cases largest_eq
        refine (covers call.pn).2 ⟨.inl rfl, ?_⟩
        rw [ackForgets_of_ackFind found]
        exact insertion.not_forgets lower
      · have held := tracks.largest_held largest largest_eq
        have not_larger : ¬ largest < call.pn := by simpa [largest_eq] using is_largest
        have differs : largest ≠ call.pn := by
          rintro rfl
          exact missing held
        exact (covers largest).2 ⟨.inr held, not_forgets_of_lt tracks.sound (by omega)⟩
  · intro pn pn_mem
    cases receipt with
    | duplicate held => exact earlier_max pn pn_mem ⟨call.pn, held, le_rfl⟩
    | ignored found insertion =>
      obtain ⟨larger, larger_held, smaller⟩ :=
        exists_larger_of_ignored tracks.sound found insertion
      exact earlier_max pn pn_mem ⟨larger, larger_held, smaller.le⟩
    | recorded found insertion ranges_eq after_largest =>
      rw [after_largest]
      split_ifs with is_largest
      · refine ⟨call.pn, rfl, ?_⟩
        rcases mem_append.1 pn_mem with earlier | newest
        · obtain ⟨largest, largest_eq, pn_le⟩ := tracks.largest_max pn earlier
          have smaller : largest < call.pn := by simpa [largest_eq] using is_largest
          omega
        · exact (mem_singleton.1 newest).le
      · cases largest_eq : as.largest with
        | none => simp [largest_eq] at is_largest
        | some largest =>
          have not_larger : ¬ largest < call.pn := by simpa [largest_eq] using is_largest
          have := earlier_max pn pn_mem
            ⟨largest, tracks.largest_held largest largest_eq, by omega⟩
          rwa [largest_eq] at this

theorem tracks_run (calls : List AckCall) :
    Tracks (run ackReceive quicAckStateInit calls) (calls.map AckCall.pn) := by
  induction calls using List.reverseRecOn with
  | nil => exact ⟨ackSound_init, fun _ held => absurd held not_ackCovers_nil, nofun, nofun⟩
  | append_singleton calls call ih =>
    rw [run_append, map_append]
    exact ih.receive call

theorem Tracks.largest_eq {pns : List Nat} (tracks : Tracks as pns) : as.largest = pns.max? := by
  cases largest_eq : as.largest with
  | none =>
    cases pns with
    | nil => rfl
    | cons pn =>
      obtain ⟨largest, some_eq, -⟩ := tracks.largest_max pn mem_cons_self
      rw [largest_eq] at some_eq
      cases some_eq
  | some largest =>
    symm
    rw [max?_eq_some_iff]
    refine ⟨tracks.truthful largest (tracks.largest_held largest largest_eq), fun pn pn_mem => ?_⟩
    obtain ⟨other, other_eq, pn_le⟩ := tracks.largest_max pn pn_mem
    rw [largest_eq] at other_eq
    cases other_eq
    exact pn_le

/-- The tracker's ranges are few, descend with gaps, hold only numbers that were received and hold
the largest; and whichever of them are sent, from the largest on, are the ranges the other side
sees. -/
theorem ack_truthful (calls : List AckCall) (delay : Nat) (ecn : Option (Nat × Nat × Nat))
    (pns_fit : ∀ call ∈ calls, FitsVarint call.pn) (delay_fits : FitsVarint delay)
    (ecn_fits : ∀ ect0 ect1 ecnce, ecn = some (ect0, ect1, ecnce) →
      FitsVarint ect0 ∧ FitsVarint ect1 ∧ FitsVarint ecnce) :
    let as := run ackReceive quicAckStateInit calls
    as.ranges.length ≤ QUIC_MAX_ACK_RANGES ∧ AckApart as.ranges ∧
      (∀ pn, AckCovers as.ranges pn → ∃ call ∈ calls, call.pn = pn) ∧
      as.largest = (calls.map AckCall.pn).max? ∧
      (∀ largest, as.largest = some largest → AckCovers as.ranges largest) ∧
      ∀ n, 0 < n → n ≤ as.ranges.length → ∃ fields,
        quicAckBuild delay (as.ranges.take n) ecn (QUIC_MAX_ACK_RANGES * 20) = some fields ∧
        ∀ bufsz, quicFrameSize (.ack fields) ≤ bufsz → ∃ wr,
          quicFrameEncode (quicWrInit bufsz) (.ack fields) = (true, wr) ∧
          quicFrameDecode (quicRdInit wr.out) = (some (.ack fields), ⟨[], false⟩) ∧
          ∃ it, quicAckIterInit fields = some it ∧ ∀ fuel, n < fuel → ∃ done,
            ackWalk fuel it = (as.ranges.take n, done) ∧ done.bad = false := by
  intro as
  have tracks : Tracks as (calls.map AckCall.pn) := tracks_run calls
  have covered_fits : ∀ pn, AckCovers as.ranges pn → FitsVarint pn := by
    intro pn held
    obtain ⟨call, call_mem, rfl⟩ := mem_map.1 (tracks.truthful pn held)
    exact pns_fit call call_mem
  refine ⟨tracks.sound.capped, tracks.sound.apart, fun pn held =>
    mem_map.1 (tracks.truthful pn held), tracks.largest_eq, tracks.largest_held, ?_⟩
  intro n n_pos n_le
  have length_eq : (as.ranges.take n).length = n := length_take_of_le n_le
  have taken_apart : AckApart (as.ranges.take n) :=
    (ackApart_append.1 ((take_append_drop n as.ranges).symm ▸ tracks.sound.apart)).1
  obtain ⟨first, rest, taken_eq⟩ : ∃ first rest, as.ranges.take n = first :: rest :=
    exists_cons_of_length_pos (by omega)
  have first_mem : first ∈ as.ranges :=
    mem_of_mem_take (taken_eq ▸ mem_cons_self : first ∈ as.ranges.take n)
  have first_fits : FitsVarint first.largest :=
    covered_fits first.largest
      ⟨first, first_mem, tracks.sound.apart.nonempty first first_mem, le_rfl⟩
  rw [taken_eq] at taken_apart length_eq ⊢
  have rest_capped : rest.length < QUIC_MAX_ACK_RANGES := by
    have := tracks.sound.capped
    rw [length_cons] at length_eq
    omega
  have formed := formed_ackFields taken_apart first_fits rest_capped delay_fits ecn_fits
  refine ⟨ackFields delay ecn first rest, quicAckBuild_eq taken_apart first_fits rest_capped, ?_⟩
  intro bufsz room
  rw [← length_bytes formed.typed formed.size_ne] at room
  have decoded := @quicFrameDecode_eq _ [] formed trivial
  rw [append_nil] at decoded
  refine ⟨_, quicFrameEncode_eq formed rfl (by simpa [quicWrInit] using room), decoded, ?_⟩
  rw [← length_eq]
  exact ackWalk_ackFields taken_apart first_fits

/-- Five packets that leave three ranges, of which the two largest are sent. -/
theorem ack_truthful_two_ranges :
    let as := run ackReceive quicAckStateInit
      [⟨5, 0, true⟩, ⟨1, 0, true⟩, ⟨4, 0, false⟩, ⟨9, 0, true⟩, ⟨5, 0, true⟩]
    as.ranges = [⟨9, 9⟩, ⟨5, 4⟩, ⟨1, 1⟩] ∧ ∃ fields,
      quicAckBuild 3 (as.ranges.take 2) (some (1, 0, 2)) (QUIC_MAX_ACK_RANGES * 20) = some fields ∧
      ∀ bufsz, quicFrameSize (.ack fields) ≤ bufsz → ∃ wr,
        quicFrameEncode (quicWrInit bufsz) (.ack fields) = (true, wr) ∧
        quicFrameDecode (quicRdInit wr.out) = (some (.ack fields), ⟨[], false⟩) ∧
        ∃ it, quicAckIterInit fields = some it ∧ ∀ fuel, 2 < fuel → ∃ done,
          ackWalk fuel it = (as.ranges.take 2, done) ∧ done.bad = false := by
  intro as
  have pns_fit : ∀ call ∈ ([⟨5, 0, true⟩, ⟨1, 0, true⟩, ⟨4, 0, false⟩, ⟨9, 0, true⟩, ⟨5, 0, true⟩] :
      List AckCall), FitsVarint call.pn := by
    simp [FitsVarint, QUIC_MAX_PACKET_NUMBER]
  have ecn_fits : ∀ ect0 ect1 ecnce, some (1, 0, 2) = some (ect0, ect1, ecnce) →
      FitsVarint ect0 ∧ FitsVarint ect1 ∧ FitsVarint ecnce := by
    rintro ect0 ect1 ecnce counts_eq
    cases counts_eq
    exact ⟨by decide, by decide, by decide⟩
  have held := ack_truthful _ 3 (some (1, 0, 2)) pns_fit (by decide) ecn_fits
  exact ⟨by decide, held.2.2.2.2.2 2 (by decide) (by decide)⟩

end Cx.Quic
