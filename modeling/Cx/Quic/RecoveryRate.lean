import Cx.Library.Run
import Cx.Quic.Recovery

/-!
# The round trip estimate and the pacer

The adjusted sample lies between the smallest sample and the sample itself, whatever delay the peer
reports, so the estimate stays between the smallest and the largest sample.  The pacer discards the
fraction of each division, so what it earns depends on how often it is asked.
-/

namespace Cx.Quic

open Library

/-- A round trip sample, with what the connection knows of the peer when it is taken. -/
structure RttSample where
  latest : Int
  ackDelay : Int
  now : Int
  confirmed : Bool
  /-- In milliseconds, as the peer states it. -/
  maxAckDelay : Nat

def rttStep (r : QuicRecovery) (s : RttSample) : QuicRecovery :=
  rttUpdate { quicRecovSetMaxAckDelay r (timeMS s.maxAckDelay) with
    handshakeConfirmed := s.confirmed } s.latest s.ackDelay s.now

def RttSample.value (s : RttSample) : Int := if s.latest < 0 then 0 else s.latest

/-- The delay that counts: until the handshake is confirmed the peer's limit is not in force. -/
def RttSample.delay (s : RttSample) : Int :=
  if s.confirmed ∧ s.ackDelay > timeMS s.maxAckDelay then timeMS s.maxAckDelay else s.ackDelay

def RttSample.minimum (s : RttSample) (least : Int) : Int :=
  if s.value < least then s.value else least

def RttSample.adjusted (s : RttSample) (least : Int) : Int :=
  if s.value ≥ s.minimum least + s.delay then s.value - s.delay else s.value

def RttSample.diff (s : RttSample) (least smoothed : Int) : Int :=
  if smoothed > s.adjusted least then smoothed - s.adjusted least else s.adjusted least - smoothed

/-- Every sum, difference and product on the way to the next estimate. -/
def RttSample.computed (s : RttSample) (least smoothed var : Int) : List Int :=
  [s.minimum least + s.delay, s.adjusted least, s.diff least smoothed, 3 * var,
    3 * var + s.diff least smoothed, 7 * smoothed, 7 * smoothed + s.adjusted least]

/-- The estimate lies between the minimum and a bound of the samples, as does the variation. -/
structure RttWithin (high least smoothed var : Int) : Prop where
  min_nonneg : 0 ≤ least
  above : least ≤ smoothed
  below : smoothed ≤ high
  var_nonneg : 0 ≤ var
  var_le : var ≤ high

section

variable {r : QuicRecovery} {s first : RttSample} {rest : List RttSample}
  {high least smoothed var : Int}

theorem rttStep_first (fresh : r.rtt.haveSample = false) :
    (rttStep r s).rtt = ⟨s.value, s.value, s.value.tdiv 2, s.value, s.now, true⟩ := by
  simp only [rttStep, rttUpdate, quicRecovSetMaxAckDelay, fresh, Bool.not_false, if_true]
  rfl

theorem rttStep_next (taken : r.rtt.haveSample = true) : (rttStep r s).rtt = { r.rtt with
    latest := s.value
    min := s.minimum r.rtt.min
    var := (3 * r.rtt.var + s.diff r.rtt.min r.rtt.smoothed).tdiv 4
    smoothed := (7 * r.rtt.smoothed + s.adjusted r.rtt.min).tdiv 8 } := by
  simp only [rttStep, rttUpdate, quicRecovSetMaxAckDelay, taken, Bool.not_true, Bool.false_eq_true,
    if_false]
  rfl

theorem RttSample.value_nonneg (s : RttSample) : 0 ≤ s.value := by
  unfold value
  split_ifs <;> omega

/-- Whatever delay is reported, the adjusted sample lies between the minimum and the sample. -/
theorem RttSample.adjusted_mem (nonneg : 0 ≤ s.ackDelay) (min_nonneg : 0 ≤ least) :
    0 ≤ s.minimum least ∧ s.minimum least ≤ least ∧ 0 ≤ s.delay ∧ s.delay ≤ s.ackDelay ∧
      s.minimum least ≤ s.adjusted least ∧ s.adjusted least ≤ s.value := by
  have value_nonneg := s.value_nonneg
  have delay_mem : 0 ≤ s.delay ∧ s.delay ≤ s.ackDelay := by
    unfold delay timeMS
    split_ifs <;> omega
  unfold adjusted minimum
  split_ifs <;> omega

theorem RttWithin.diff_mem (within : RttWithin high least smoothed var) (nonneg : 0 ≤ s.ackDelay)
    (value_le : s.value ≤ high) : 0 ≤ s.diff least smoothed ∧ s.diff least smoothed ≤ high := by
  obtain ⟨min_nonneg, above, below, -, -⟩ := within
  have adjusted := s.adjusted_mem nonneg min_nonneg
  unfold RttSample.diff
  split_ifs <;> omega

theorem RttWithin.step (within : RttWithin high least smoothed var) (nonneg : 0 ≤ s.ackDelay)
    (value_le : s.value ≤ high) : RttWithin high (s.minimum least)
      ((7 * smoothed + s.adjusted least).tdiv 8) ((3 * var + s.diff least smoothed).tdiv 4) := by
  have diff := within.diff_mem nonneg value_le
  obtain ⟨min_nonneg, above, below, var_nonneg, var_le⟩ := within
  have adjusted := s.adjusted_mem nonneg min_nonneg
  rw [Int.tdiv_eq_ediv_of_nonneg (by omega), Int.tdiv_eq_ediv_of_nonneg (by omega)]
  constructor <;> omega

theorem RttWithin.computed_range (within : RttWithin (2 ^ 56 - 1) least smoothed var)
    (nonneg : 0 ≤ s.ackDelay) (delay_le : s.ackDelay ≤ 2 ^ 52) (small : s.value ≤ 2 ^ 56 - 1) :
    ∀ term ∈ s.computed least smoothed var, -2 ^ 63 ≤ term ∧ term < 2 ^ 63 := by
  have diff := within.diff_mem nonneg small
  obtain ⟨min_nonneg, above, below, var_nonneg, var_le⟩ := within
  have adjusted := s.adjusted_mem nonneg min_nonneg
  simp only [RttSample.computed, List.mem_cons, List.not_mem_nil, or_false]
  rintro term (rfl | rfl | rfl | rfl | rfl | rfl | rfl) <;> omega

theorem RttWithin.run (within : RttWithin high r.rtt.min r.rtt.smoothed r.rtt.var)
    (taken : r.rtt.haveSample = true) (good : ∀ s ∈ rest, 0 ≤ s.ackDelay ∧ s.value ≤ high) :
    let rtt := (run rttStep r rest).rtt
    RttWithin high rtt.min rtt.smoothed rtt.var ∧
      rtt.min = (rest.map RttSample.value).foldl min r.rtt.min := by
  induction rest generalizing r with
  | nil => exact ⟨within, rfl⟩
  | cons s rest ih =>
    obtain ⟨⟨nonneg, value_le⟩, good⟩ := List.forall_mem_cons.1 good
    have step := rttStep_next taken (s := s)
    have min_eq : s.minimum r.rtt.min = min r.rtt.min s.value := by
      unfold RttSample.minimum
      split_ifs <;> omega
    have after := ih (r := rttStep r s) (by rw [step]; exact within.step nonneg value_le)
      (by rw [step]; exact taken) good
    rw [step] at after
    rwa [List.map_cons, List.foldl_cons, ← min_eq]

theorem rttWithin_first (fresh : r.rtt.haveSample = false) (value_le : s.value ≤ high) :
    let rtt := (rttStep r s).rtt
    RttWithin high rtt.min rtt.smoothed rtt.var := by
  have nonneg := s.value_nonneg
  have half : s.value.tdiv 2 = s.value / 2 := Int.tdiv_eq_ediv_of_nonneg nonneg
  have half_mem : 0 ≤ s.value / 2 ∧ s.value / 2 ≤ high := by omega
  rw [rttStep_first fresh, half]
  exact ⟨nonneg, le_rfl, value_le, half_mem.1, half_mem.2⟩

/-- After a first sample and any others, with any delays reported, the minimum is the smallest
sample, the estimate is between it and the largest, and nothing that is computed on the way leaves
the range of a 64-bit integer. -/
theorem rtt_estimate_bounded {r : QuicRecovery} (fresh : r.rtt.haveSample = false)
    (delays : ∀ s ∈ first :: rest, 0 ≤ s.ackDelay ∧ s.ackDelay ≤ 2 ^ 52) :
    let rtt := (run rttStep r (first :: rest)).rtt
    ((first :: rest).map RttSample.value).min? = some rtt.min ∧ rtt.min ≤ rtt.smoothed ∧
      (∀ high, (∀ s ∈ first :: rest, s.value ≤ high) → rtt.smoothed ≤ high) ∧ 0 ≤ rtt.var ∧
      ((∀ s ∈ first :: rest, s.latest < 2 ^ 56) → ∀ s : RttSample, s.latest < 2 ^ 56 →
        0 ≤ s.ackDelay → s.ackDelay ≤ 2 ^ 52 →
        ∀ term ∈ s.computed rtt.min rtt.smoothed rtt.var, -2 ^ 63 ≤ term ∧ term < 2 ^ 63) := by
  intro rtt
  have taken : (rttStep r first).rtt.haveSample = true := by rw [rttStep_first fresh]
  have within : ∀ high, (∀ s ∈ first :: rest, s.value ≤ high) → _ := fun high values =>
    (rttWithin_first fresh (values first List.mem_cons_self)).run taken fun s s_mem =>
      ⟨(delays s (List.mem_cons_of_mem _ s_mem)).1, values s (List.mem_cons_of_mem _ s_mem)⟩
  have bounded : ∀ s ∈ first :: rest, s.value ≤ ((first :: rest).map RttSample.value).sum := by
    intro s s_mem
    refine List.single_le_sum ?_ _ (List.mem_map_of_mem s_mem)
    simp [RttSample.value_nonneg]
  obtain ⟨here, min_eq⟩ := within _ bounded
  refine ⟨?_, here.above, fun high values => (within high values).1.below, here.var_nonneg, ?_⟩
  · rw [rttStep_first fresh] at min_eq
    rw [List.map_cons, List.min?_cons', ← min_eq]
    rfl
  · intro small s s_small nonneg delay_le
    have value_le {s : RttSample} (s_small : s.latest < 2 ^ 56) : s.value ≤ 2 ^ 56 - 1 := by
      unfold RttSample.value
      split_ifs <;> omega
    exact (within _ fun s s_mem => value_le (small s s_mem)).1.computed_range nonneg delay_le
      (value_le s_small)

end

/-- A long reported delay does not pull the estimate below the smaller sample. -/
theorem rtt_estimate_bounded_delayed :
    let rtt := (run rttStep (quicRecovInit false 1200)
      [⟨100, 0, 1, false, 25⟩, ⟨900, 2 ^ 52, 2, false, 25⟩]).rtt
    rtt.min ≤ rtt.smoothed :=
  (rtt_estimate_bounded rfl (by simp)).2.1

/-- What the divisions discard when a pacer that was filled at `since` is refilled at each of the
given times. -/
def pacerDiscarded (rate rtt : Int) : Int → List Int → Int
  | _, [] => 0
  | since, time :: later => (time - since) * rate % rtt + pacerDiscarded rate rtt time later

section

variable {r : QuicRecovery} {time last : Int} {times : List Int}

theorem pacerRtt_pos (r : QuicRecovery) : 0 < pacerRtt r := by
  unfold pacerRtt
  dsimp only
  generalize (if r.rtt.haveSample then r.rtt.smoothed else QUIC_INITIAL_RTT) = srtt
  split_ifs with short
  · decide
  · exact lt_of_lt_of_le (by decide) (not_lt.1 short)

theorem pacerRate_nonneg (r : QuicRecovery) : 0 ≤ pacerRate r := by
  unfold pacerRate
  split_ifs
  · omega
  · exact Int.tdiv_nonneg (by omega) (by omega)

/-- A pacer that was filled before earns what the time since then is worth, up to the burst. -/
theorem quicRecovPacerRefill_cases (later : r.tokenTime < time)
    (within : time - r.tokenTime ≤ timeMS 1000) :
    ∃ tokens, quicRecovPacerRefill r time = { r with tokenTime := time, tokens := tokens } ∧
      (tokens = pacerBurst r ∧ r.tokenTime = 0 ∨
        tokens = min (pacerBurst r)
          (r.tokens + (time - r.tokenTime) * pacerRate r / pacerRtt r)) := by
  rw [quicRecovPacerRefill]
  by_cases unfilled : r.tokenTime = 0
  · rw [if_pos unfilled]
    exact ⟨_, rfl, .inl ⟨rfl, unfilled⟩⟩
  · rw [if_neg unfilled, if_neg (not_le.2 later), if_neg (not_lt.2 within)]
    refine ⟨_, rfl, .inr ?_⟩
    have elapsed : 0 ≤ time - r.tokenTime := Int.sub_nonneg_of_le later.le
    rw [Int.tdiv_eq_ediv_of_nonneg (Int.mul_nonneg elapsed (pacerRate_nonneg r)), min_def]
    split_ifs <;> omega

/-- Refills earn at least what the time is worth less what their divisions discard. -/
theorem refills_earn (capped : r.tokens ≤ pacerBurst r)
    (increasing : (r.tokenTime :: times).Pairwise (· < ·))
    (within : ∀ time ∈ times, time - r.tokenTime ≤ timeMS 1000) :
    ∃ earned, 0 ≤ earned ∧
      min (pacerBurst r) (r.tokens + earned) ≤ (run quicRecovPacerRefill r times).tokens ∧
      earned * pacerRtt r + pacerDiscarded (pacerRate r) (pacerRtt r) r.tokenTime times =
        (times.getLastD r.tokenTime - r.tokenTime) * pacerRate r := by
  induction times generalizing r with
  | nil => exact ⟨0, le_rfl, by simp, by simp [pacerDiscarded]⟩
  | cons time later ih =>
    obtain ⟨next, increasing⟩ := List.pairwise_cons.1 increasing
    have here : r.tokenTime < time := next time List.mem_cons_self
    obtain ⟨tokens, refill_eq, tokens_eq⟩ :=
      quicRecovPacerRefill_cases here (within time List.mem_cons_self)
    have floor := Int.mul_ediv_add_emod ((time - r.tokenTime) * pacerRate r) (pacerRtt r)
    obtain ⟨earned, nonneg, earned_le, earned_eq⟩ : ∃ earned, 0 ≤ earned ∧
        min (pacerBurst r) (tokens + earned) ≤
          (run quicRecovPacerRefill (quicRecovPacerRefill r time) later).tokens ∧
        earned * pacerRtt r + pacerDiscarded (pacerRate r) (pacerRtt r) time later =
          (later.getLastD time - time) * pacerRate r := by
      have capped_next : tokens ≤ pacerBurst r := by omega
      rw [refill_eq]
      refine ih capped_next increasing fun last last_mem => ?_
      exact le_trans (Int.sub_le_sub_left here.le last)
        (within last (List.mem_cons_of_mem _ last_mem))
    have share : 0 ≤ (time - r.tokenTime) * pacerRate r / pacerRtt r :=
      Int.ediv_nonneg (Int.mul_nonneg (Int.sub_nonneg_of_le here.le) (pacerRate_nonneg r))
        (pacerRtt_pos r).le
    refine ⟨(time - r.tokenTime) * pacerRate r / pacerRtt r + earned, by omega, ?_, ?_⟩
    · rw [run_cons]
      omega
    · rw [pacerDiscarded, List.getLastD_cons]
      linear_combination floor + earned_eq

end

/-- A pacer that was filled a moment ago and has been used up. -/
def drainedPacer : QuicRecovery := { quicRecovInit false 1200 with tokenTime := 1 }

end Cx.Quic
