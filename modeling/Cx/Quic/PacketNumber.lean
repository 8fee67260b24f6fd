import Cx.Quic.Wire

/-!
# Truncated packet numbers

A packet carries only the low bytes of its number.  The sender chooses how many from what is not
yet acknowledged; the receiver takes the number with those low bytes that is nearest to the one it
expects.  The two agree as long as the receiver's expectation is less than half a window away.
-/

namespace Cx.Quic

/-- Number of binary digits, counted by shifting them out. -/
def pnBits (range : Nat) : Nat :=
  if range = 0 then 0 else pnBits (range / 2) + 1
decreasing_by omega

/-- How far a packet number is from what was acknowledged. -/
def pnUnacked (pn : Nat) (largestAcked : Option Nat) : Nat :=
  match largestAcked with
  | none => uint64Add pn 1
  | some acked => if acked > pn then uint64Add pn 1 else pn - acked

/-- Number of bytes that carry a packet number such that the peer recovers it. -/
def quicPnSize (pn : Nat) (largestAcked : Option Nat) : Nat :=
  let range := pnUnacked pn largestAcked * 2 % 2 ^ 64
  let n := (pnBits range + 7) / 8
  let n := if n < 1 then 1 else n
  if n > 4 then 4 else n

/-- Recover a packet number from its low bytes. -/
def quicPnDecode (largestPn : Option Nat) (truncated pnLen : Nat) : Nat :=
  if pnLen < 1 ∨ pnLen > 4 then truncated
  else
    let expected := largestPn.elim 0 (uint64Add · 1)
    let win := 2 ^ (pnLen * 8)
    let hwin := win / 2
    let candidate := expected / win * win ||| truncated
    if uint64Add candidate hwin ≤ expected ∧ candidate < QUIC_MAX_PACKET_NUMBER - win then
      uint64Add candidate win
    else if candidate > uint64Add expected hwin ∧ candidate ≥ win then candidate - win
    else candidate

theorem lt_two_pow_pnBits (range : Nat) : range < 2 ^ pnBits range := by
  induction range using pnBits.induct with
  | case1 => simp [pnBits]
  | case2 range positive =>
    rw [pnBits, if_neg positive, Nat.pow_succ]
    omega

theorem pnBits_le {range bits : Nat} (small : range < 2 ^ bits) : pnBits range ≤ bits := by
  induction bits generalizing range with
  | zero =>
    obtain rfl : range = 0 := by simpa using small
    simp [pnBits]
  | succ bits ih =>
    rw [pnBits]
    split_ifs
    · exact Nat.zero_le _
    · rw [Nat.pow_succ] at small
      exact Nat.succ_le_succ (ih (by omega))

/-- The chosen width covers twice the distance to what was acknowledged. -/
theorem quicPnSize_spec {pn : Nat} {largestAcked : Option Nat}
    (close : pnUnacked pn largestAcked < 2 ^ 31) :
    1 ≤ quicPnSize pn largestAcked ∧ quicPnSize pn largestAcked ≤ 4 ∧
      pnUnacked pn largestAcked * 2 < 2 ^ (quicPnSize pn largestAcked * 8) := by
  have range_eq : pnUnacked pn largestAcked * 2 % 2 ^ 64 = pnUnacked pn largestAcked * 2 :=
    Nat.mod_eq_of_lt (by omega)
  have bits_le : pnBits (pnUnacked pn largestAcked * 2) ≤ 32 := pnBits_le (by omega)
  have covered := lt_two_pow_pnBits (pnUnacked pn largestAcked * 2)
  have bits_le_size : pnBits (pnUnacked pn largestAcked * 2) ≤ quicPnSize pn largestAcked * 8 := by
    simp only [quicPnSize, range_eq]
    split_ifs <;> omega
  refine ⟨?_, ?_, covered.trans_le (Nat.pow_le_pow_right (by decide) bits_le_size)⟩
  all_goals
    simp only [quicPnSize, range_eq]
    split_ifs <;> omega

/-- The number with given low bytes in the window of another, as the source puts it together. -/
theorem or_low_bytes (expected pn width : Nat) :
    expected / 2 ^ width * 2 ^ width ||| pn % 2 ^ width =
      expected / 2 ^ width * 2 ^ width + pn % 2 ^ width := by
  rw [Nat.mul_comm, ← Nat.two_pow_add_eq_or_of_lt (Nat.mod_lt _ (Nat.two_pow_pos width))]

/-- A number less than a window from another is that one's window with its own low bytes, moved by
at most one window. -/
theorem candidate_cases {expected pn win : Nat} (ahead : pn < expected + win)
    (behind : expected < pn + win) :
    expected / win * win + pn % win = pn ∨
      expected / win * win + pn % win + win = pn ∨
      expected / win * win + pn % win = pn + win := by
  have win_pos : 0 < win := by omega
  have pn_eq : pn / win * win + pn % win = pn := Nat.div_add_mod' pn win
  have expected_eq : expected / win * win + expected % win = expected :=
    Nat.div_add_mod' expected win
  have pn_low := Nat.mod_lt pn win_pos
  have expected_low := Nat.mod_lt expected win_pos
  have not_far : pn / win < expected / win + 2 := by
    refine Nat.lt_of_mul_lt_mul_right (a := win) ?_
    rw [Nat.add_mul]
    omega
  have not_far_behind : expected / win < pn / win + 2 := by
    refine Nat.lt_of_mul_lt_mul_right (a := win) ?_
    rw [Nat.add_mul]
    omega
  obtain same | next | previous : expected / win = pn / win ∨ pn / win = expected / win + 1 ∨
      expected / win = pn / win + 1 := by omega
  · left
    rw [same, pn_eq]
  · right; left
    rw [next, Nat.add_mul] at pn_eq
    omega
  · right; right
    rw [previous, Nat.add_mul]
    omega

def pnExpected (largestPn : Option Nat) : Nat := largestPn.elim 0 (· + 1)

/-- A number less than half a window from the expected one is recovered from its low bytes. -/
theorem quicPnDecode_eq {pn pnLen : Nat} {largestPn : Option Nat}
    (fits : pn < QUIC_MAX_PACKET_NUMBER) (len_pos : 1 ≤ pnLen) (len_le : pnLen ≤ 4)
    (ahead : pn < pnExpected largestPn + 2 ^ (pnLen * 8 - 1))
    (behind : pnExpected largestPn < pn + 2 ^ (pnLen * 8 - 1)) :
    quicPnDecode largestPn (pn % 2 ^ (pnLen * 8)) pnLen = pn := by
  have win_eq : 2 ^ (pnLen * 8) = 2 * 2 ^ (pnLen * 8 - 1) := by
    rw [← Nat.pow_succ']
    congr 1
    omega
  have half_le : 2 ^ (pnLen * 8 - 1) ≤ 2 ^ 31 := Nat.pow_le_pow_right (by decide) (by omega)
  unfold QUIC_MAX_PACKET_NUMBER at fits
  have expected_eq : largestPn.elim 0 (uint64Add · 1) = pnExpected largestPn := by
    cases largestPn with
    | none => rfl
    | some =>
      simp only [pnExpected, Option.elim_some] at behind ⊢
      exact uint64Add_eq (by omega)
  have ahead_win : pn < pnExpected largestPn + 2 ^ (pnLen * 8) := by omega
  have behind_win : pnExpected largestPn < pn + 2 ^ (pnLen * 8) := by omega
  have near := candidate_cases ahead_win behind_win
  rw [quicPnDecode, if_neg (by omega)]
  simp only [expected_eq, or_low_bytes, QUIC_MAX_PACKET_NUMBER]
  rw [win_eq] at near ⊢
  rw [Nat.mul_div_cancel_left _ (by decide : 0 < 2)]
  generalize 2 ^ (pnLen * 8 - 1) = half at *
  generalize pnExpected largestPn / (2 * half) * (2 * half) + pn % (2 * half) = candidate at *
  generalize pnExpected largestPn = expected at *
  rw [uint64Add_eq (by omega), uint64Add_eq (by omega), uint64Add_eq (by omega)]
  rcases near with here | below | above
  · rw [if_neg (by omega), if_neg (by omega), here]
  · rw [if_pos (by omega), below]
  · rw [if_neg (by omega), if_pos (by omega)]
    omega

/-- What the receiver may have seen when a packet arrives: not less than what was acknowledged, and
not half a window more than the packet. -/
def PnSeen (pn pnLen : Nat) (largestAcked largestPn : Option Nat) : Prop :=
  match largestPn with
  | none => largestAcked = none
  | some largest => (∀ acked, largestAcked = some acked → acked ≤ largest) ∧
      largest + 1 < pn + 2 ^ (8 * pnLen - 1)

/-- A packet number is recovered from as many of its low bytes as the sender chooses to send. -/
theorem pn_compression_lossless {pn : Nat} {largestAcked largestPn : Option Nat}
    (fits : pn < QUIC_MAX_PACKET_NUMBER)
    (acked_lt : ∀ acked, largestAcked = some acked → acked + 1 ≤ pn)
    (close : largestAcked.elim (pn + 1) (pn - ·) < 2 ^ 31)
    (seen : PnSeen pn (quicPnSize pn largestAcked) largestAcked largestPn) :
    quicPnDecode largestPn (pn % 256 ^ quicPnSize pn largestAcked) (quicPnSize pn largestAcked) =
      pn := by
  have unacked_eq : pnUnacked pn largestAcked = largestAcked.elim (pn + 1) (pn - ·) := by
    cases largestAcked with
    | none =>
      simp only [Option.elim_none] at close
      exact uint64Add_eq (by omega)
    | some acked =>
      have := acked_lt acked rfl
      exact if_neg (by omega)
  rw [← unacked_eq] at close
  obtain ⟨size_pos, size_le, covered⟩ := quicPnSize_spec close
  generalize quicPnSize pn largestAcked = pnLen at *
  have width_eq : 256 ^ pnLen = 2 ^ (pnLen * 8) := by
    rw [Nat.mul_comm, Nat.pow_mul]
  have half_eq : 2 ^ (pnLen * 8) = 2 * 2 ^ (pnLen * 8 - 1) := by
    rw [← Nat.pow_succ']
    congr 1
    omega
  rw [width_eq]
  rw [unacked_eq, half_eq] at covered
  refine quicPnDecode_eq fits size_pos size_le ?_ ?_
  · cases largestPn with
    | none =>
      obtain rfl : largestAcked = none := seen
      simp only [Option.elim_none, pnExpected] at covered ⊢
      omega
    | some =>
      obtain ⟨acked_le, -⟩ := seen
      cases largestAcked with
      | none =>
        simp only [Option.elim_none] at covered
        omega
      | some acked =>
        have := acked_le acked rfl
        have := acked_lt acked rfl
        simp only [Option.elim_some, pnExpected] at covered ⊢
        omega
  · cases largestPn with
    | none =>
      simp only [pnExpected, Option.elim_none]
      omega
    | some =>
      rw [Nat.mul_comm]
      exact seen.2

/-- 200 packets ahead of the acknowledged one takes two bytes, also when 300 later ones arrived
first. -/
theorem pn_compression_lossless_two_bytes : quicPnSize 1000 (some 800) = 2 ∧
      quicPnDecode (some 1300) (1000 % 256 ^ quicPnSize 1000 (some 800))
        (quicPnSize 1000 (some 800)) = 1000 := by
  have size_eq : quicPnSize 1000 (some 800) = 2 := by
    simp [quicPnSize, pnUnacked, pnBits]
  refine ⟨size_eq, pn_compression_lossless (by decide) ?_ (by decide) ?_⟩
  · rintro acked ⟨⟩
    decide
  · rw [size_eq]
    refine ⟨?_, by decide⟩
    rintro acked ⟨⟩
    decide

end Cx.Quic
