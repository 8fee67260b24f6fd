import Cx.Quic.AckFrame
import Cx.Quic.RecoveryFate

/-!
# What an acknowledgement settles

An ACK frame settles the packets whose numbers it carries and no others: every packet reported
acknowledged is live and has one of the numbers, and once the frame has been processed no packet
with one of the numbers is live.
-/

namespace Cx.Quic

open List Function

def ackRanges (f : QuicAck) : List QuicAckRange :=
  match quicAckIterInit f with
  | none => []
  | some it => (ackWalk (f.rangeData.length + 2) it).1

def ackNumbers (f : QuicAck) : List Nat :=
  (ackRanges f).flatMap fun rg => List.range' rg.smallest (rg.largest + 1 - rg.smallest)

variable {pn : Nat}

theorem mem_ackNumbers {f : QuicAck} :
    pn ∈ ackNumbers f ↔ ∃ rg ∈ ackRanges f, rg.smallest ≤ pn ∧ pn ≤ rg.largest := by
  simp only [ackNumbers, mem_flatMap, mem_range'_1]
  refine exists_congr fun rg => and_congr_right fun _ => ?_
  omega

def LiveIn (r : QuicRecovery) (sp : QuicPns) (pn : Nat) : Prop :=
  ∃ p ∈ (ledger r).pkts sp, p.pn = pn ∧ p.fate = .live

section Live

variable {σ : Type*} {h : QuicRecovHandlers σ} {r r' : QuicRecovery} {s s' : QuicRecovery × σ}
  {sp : QuicPns} {pn : Nat}

theorem liveIn_congr (same : ledger r' = ledger r) : LiveIn r' sp pn ↔ LiveIn r sp pn := by
  unfold LiveIn
  rw [same]

/-- A packet that was settled is not live, and no other becomes live. -/
theorem liveIn_settle {other : QuicPns} {front back : List LedgerPkt} {p : LedgerPkt}
    {fate : QuicFate} (recorded : (ledger r).pkts other = front ++ p :: back) (ended : fate ≠ .live)
    (settled : ledger r' = (ledger r).settle other front back p fate)
    (live : LiveIn r' sp pn) : LiveIn r sp pn ∧ ¬ (sp = other ∧ pn = p.pn) := by
  obtain ⟨q, q_mem, pn_eq, q_live⟩ := live
  rw [settled] at q_mem
  by_cases same : sp = other
  · subst same
    have ordered := ledger_ordered r sp
    rw [recorded] at ordered
    simp only [Ledger.settle, update_self] at q_mem
    have around : q ∈ front ∨ q ∈ back := by
      rcases mem_append.1 q_mem with in_front | in_rest
      · exact .inl in_front
      · rcases mem_cons.1 in_rest with rfl | in_back
        · exact absurd q_live ended
        · exact .inr in_back
    refine ⟨⟨q, ?_, pn_eq, q_live⟩, fun both => ?_⟩
    · rw [recorded]
      rcases around with in_front | in_back
      · exact mem_append_left _ in_front
      · exact mem_append_right _ (mem_cons_of_mem _ in_back)
    · exact pn_ne_of_ordered ordered around (pn_eq.trans both.2)
  · simp only [Ledger.settle, update_of_ne same] at q_mem
    exact ⟨⟨q, q_mem, pn_eq, q_live⟩, fun both => same both.1⟩

theorem liveIn_trim {other : QuicPns} {p : LedgerPkt} {rest : List LedgerPkt}
    (recorded : (ledger r).pkts other = p :: rest)
    (dropped : ledger r' = { ledger r with pkts := update (ledger r).pkts other rest })
    (live : LiveIn r' sp pn) : LiveIn r sp pn := by
  obtain ⟨q, q_mem, pn_eq, q_live⟩ := live
  refine ⟨q, ?_, pn_eq, q_live⟩
  rw [dropped] at q_mem
  by_cases same : sp = other
  · subst same
    simp only [update_self] at q_mem
    rw [recorded]
    exact mem_cons_of_mem p q_mem
  · simpa [same] using q_mem

theorem RecovMoves.live (moves : RecovMoves h s s') (live : LiveIn s'.1 sp pn) :
    LiveIn s.1 sp pn := by
  induction moves with
  | refl => exact live
  | tail _ move ih =>
    refine ih ?_
    cases move with
    | still x same => exact (liveIn_congr same).1 live
    | acked x other front back p recorded _ settled
    | lost x other front back p recorded _ settled =>
      exact (liveIn_settle recorded (by decide) settled live).1
    | trimmed x other p rest recorded _ dropped => exact liveIn_trim recorded dropped live

theorem RecovMoves.discarded_eq (moves : RecovMoves h s s') :
    (ledger s'.1).discarded = (ledger s.1).discarded := by
  induction moves with
  | refl => rfl
  | tail _ move ih =>
    rw [← ih]
    cases move with
    | still x same => rw [same]
    | acked x other front back p _ _ settled | lost x other front back p _ _ settled =>
      rw [settled]; rfl
    | trimmed x other p rest _ _ dropped => rw [dropped]

theorem mem_numbered {base : Nat} {pkts : List QuicSentPkt} {p : LedgerPkt}
    (p_mem : p ∈ numbered base pkts) :
    ∃ index q, pkts[index]? = some q ∧ p = ledgerPkt (base + index) q := by
  induction pkts generalizing base with
  | nil => cases p_mem
  | cons head rest ih =>
    rcases mem_cons.1 p_mem with rfl | later
    · exact ⟨0, head, rfl, rfl⟩
    · obtain ⟨index, q, found, p_eq⟩ := ih later
      refine ⟨index + 1, q, found, ?_⟩
      rw [p_eq, Nat.add_right_comm, Nat.add_assoc]

theorem liveIn_iff_ringAt :
    LiveIn r sp pn ↔ ∃ p, ringAt (r.sent sp) pn = some p ∧ p.fate = .live := by
  constructor
  · rintro ⟨p, p_mem, rfl, live⟩
    obtain ⟨index, q, found, rfl⟩ := mem_numbered p_mem
    have here : (r.sent sp).pkts.get? index = some q :=
      (Library.RingBuffer.getElem?_toList _ _).symm.trans found
    have inside : index < (r.sent sp).pkts.count := by
      have bound := (List.getElem?_eq_some_iff.1 found).1
      rwa [Library.RingBuffer.length_toList] at bound
    refine ⟨q, ?_, live⟩
    change ringAt (r.sent sp) ((r.sent sp).basePn + index) = some q
    unfold ringAt
    rw [if_neg (by omega), Nat.add_sub_cancel_left, here]
  · rintro ⟨p, found, live⟩
    unfold ringAt at found
    split_ifs at found with outside
    have split_eq : (ledger r).pkts sp = _ := ringLedger_split found
    refine ⟨ledgerPkt ((r.sent sp).basePn + (pn - (r.sent sp).basePn)) p, ?_, ?_, live⟩
    · rw [split_eq]
      simp
    · change (r.sent sp).basePn + (pn - (r.sent sp).basePn) = pn
      omega

end Live

section Acknowledged

variable {σ : Type*} (h : QuicRecovHandlers σ) (sp : QuicPns) (largest : Nat)

theorem not_liveIn_acked {r : QuicRecovery} {x : σ} {p : QuicSentPkt}
    (found : ringAt (r.sent sp) pn = some p) :
    ¬ LiveIn (notifyAcked h sp pn (sentUncount (sentSet r sp (pn - (r.sent sp).basePn)
      { p with fate := .acked, fresh := true }) sp p, x)).1 sp pn := by
  unfold ringAt at found
  split_ifs at found with outside
  have settled : ledger (sentUncount (sentSet r sp (pn - (r.sent sp).basePn)
      { p with fate := .acked, fresh := true }) sp p) = (ledger r).settle sp _ _ _ .acked :=
    ledger_settle found fun _ => rfl
  generalize sentUncount (sentSet r sp (pn - (r.sent sp).basePn)
    { p with fate := .acked, fresh := true }) sp p = reported at settled ⊢
  have same : ledger (notifyAcked h sp pn (reported, x)).1 = ledger reported := by
    unfold notifyAcked
    split
    · rfl
    · exact ledger_setMaxDatagram _ _
  intro live
  refine (liveIn_settle (ringLedger_split found) (by decide) (same.trans settled) live).2 ⟨rfl, ?_⟩
  change pn = (r.sent sp).basePn + (pn - (r.sent sp).basePn)
  omega

variable (count first fuel : Nat) (it : QuicAckIter) (rg : QuicAckRange)
  (progress : QuicAckProgress σ)

theorem not_liveIn_onAckPackets (above : first ≤ pn) (below : pn < first + count) :
    ¬ LiveIn (onAckPackets h sp largest count first progress).s.1 sp pn := by
  induction count generalizing first progress with
  | zero => omega
  | succ count ih =>
    -- what holds of a number once it was looked at stays so while the others are
    have rest : ∀ after : QuicAckProgress σ, (pn = first → ¬ LiveIn after.s.1 sp pn) →
        ¬ LiveIn (onAckPackets h sp largest count (first + 1) after).s.1 sp pn := by
      intro after settled
      by_cases here : pn = first
      · have moves : SettleMoves h (fun _ _ => True) after.s _ :=
          onAckPackets_moves h sp largest count (first + 1) after fun _ _ _ => trivial
        exact fun live => settled here (moves.recovMoves.live live)
      · exact ih (first + 1) after (by omega) (by omega)
    rw [onAckPackets]
    split
    · next missing =>
        refine rest progress fun here live => ?_
        obtain ⟨p, found, -⟩ := liveIn_iff_ringAt.1 live
        rw [here, missing] at found
        cases found
    · next p found =>
        split
        · next ended =>
            refine rest progress fun here live => ?_
            obtain ⟨q, found', q_live⟩ := liveIn_iff_ringAt.1 live
            rw [here, found] at found'
            cases found'
            exact ended q_live
        · refine rest _ fun here => ?_
          subst here
          exact not_liveIn_acked h sp found

theorem not_liveIn_onAckRange (above : rg.smallest ≤ pn) (below : pn ≤ rg.largest) :
    ¬ LiveIn (onAckRange h sp largest rg progress).s.1 sp pn := by
  intro live
  have moves : SettleMoves h (fun _ _ => True) progress.s _ :=
    onAckRange_moves h sp largest rg progress fun _ _ _ => trivial
  -- only what is in the ring can be live, and the range is clamped to that
  obtain ⟨p, found, -⟩ := liveIn_iff_ringAt.1 (moves.recovMoves.live live)
  unfold ringAt at found
  split_ifs at found with outside
  have inside : pn - (progress.s.1.sent sp).basePn < (progress.s.1.sent sp).pkts.count := by
    unfold Library.RingBuffer.get? at found
    split_ifs at found with inside
    exact inside
  unfold onAckRange at live
  rw [if_neg (by omega)] at live
  refine not_liveIn_onAckPackets h sp largest _ _ progress ?_ ?_ live
  · split_ifs <;> omega
  · split_ifs <;> omega

theorem onAckRanges_settles : SettleMoves h
      (fun other pn => other = sp ∧ ∃ rg ∈ (ackWalk fuel it).1, rg.smallest ≤ pn ∧ pn ≤ rg.largest)
      progress.s (onAckRanges h sp largest fuel it progress).2.s := by
  induction fuel generalizing it progress with
  | zero => exact .refl
  | succ fuel ih =>
    rw [onAckRanges, ackWalk]
    rcases next_eq : quicAckIterNext it with ⟨_ | rg, it'⟩
    · exact .refl
    · have first : SettleMoves h (fun other pn => other = sp ∧
          ∃ range ∈ rg :: (ackWalk fuel it').1, range.smallest ≤ pn ∧ pn ≤ range.largest)
          progress.s (onAckRange h sp largest rg progress).s :=
        onAckRange_moves h sp largest rg progress fun pn above below =>
          ⟨rfl, rg, mem_cons_self, above, below⟩
      refine first.trans ((ih it' _).mono ?_)
      rintro other pn ⟨same, range, listed, covered⟩
      exact ⟨same, range, mem_cons_of_mem rg listed, covered⟩

theorem not_liveIn_onAckRanges {rg : QuicAckRange} (listed : rg ∈ (ackWalk fuel it).1)
    (above : rg.smallest ≤ pn) (below : pn ≤ rg.largest) :
    ¬ LiveIn (onAckRanges h sp largest fuel it progress).2.s.1 sp pn := by
  induction fuel generalizing it progress with
  | zero => cases listed
  | succ fuel ih =>
    rcases next_eq : quicAckIterNext it with ⟨_ | first, it'⟩
    · rw [ackWalk, next_eq] at listed
      cases listed
    · rw [ackWalk, next_eq] at listed
      rw [onAckRanges, next_eq]
      rcases mem_cons.1 listed with rfl | later
      · have moves := onAckRanges_settles h sp largest fuel it'
          (onAckRange h sp largest rg progress)
        exact fun live => not_liveIn_onAckRange h sp largest rg progress above below
          (SettleMoves.recovMoves moves |>.live live)
      · exact ih it' _ later

end Acknowledged

section Frame

variable {σ : Type*} (h : QuicRecovHandlers σ) (sp : QuicPns) (f : QuicAck) (ackDelay now : Time)
  (s : QuicRecovery × σ)

/-- No packets are acknowledged but those whose numbers are in the frame. -/
theorem quicRecovOnAck_settles : SettleMoves h (fun other pn => other = sp ∧ pn ∈ ackNumbers f) s
      (quicRecovOnAck h sp f ackDelay now s).2 := by
  refine quicRecovOnAck_settles_of h sp f ackDelay now s fun it progress init_eq => ?_
  have ranges_eq : ackRanges f = (ackWalk (f.rangeData.length + 2) it).1 := by
    rw [ackRanges, init_eq]
  exact (onAckRanges_settles h sp f.largest (f.rangeData.length + 2) it progress).mono
    fun other pn covered => ⟨covered.1, mem_ackNumbers.2 (ranges_eq ▸ covered.2)⟩

/-- None of the packets whose numbers are in a sound frame is live afterwards. -/
theorem not_liveIn_quicRecovOnAck (open_space : s.1.discarded sp = false)
    (sound : (quicRecovOnAck h sp f ackDelay now s).1 = true)
    (named : pn ∈ ackNumbers f) : ¬ LiveIn (quicRecovOnAck h sp f ackDelay now s).2.1 sp pn := by
  obtain ⟨rg, listed, above, below⟩ := mem_ackNumbers.1 named
  unfold quicRecovOnAck at sound ⊢
  rw [if_neg (by simp [open_space])] at sound ⊢
  dsimp only at sound ⊢
  split at sound
  · cases sound
  · next it init_eq =>
      rw [ackRanges, init_eq] at listed
      have settled := not_liveIn_onAckRanges h sp f.largest (f.rangeData.length + 2) it
        ⟨(onAckLargest s.1 sp f.largest, s.2), false, none⟩ listed above below
      generalize onAckRanges h sp f.largest (f.rangeData.length + 2) it
        ⟨(onAckLargest s.1 sp f.largest, s.2), false, none⟩ = walked at settled sound ⊢
      rw [if_neg (fun bad => by simp [bad] at sound)]
      split
      · exact fun live => settled ((liveIn_congr (ledger_recovSetTimer _ _)).1 live)
      · have finish : SettleMoves h (fun _ _ => False) walked.2.s _ :=
          onAckFinish_moves h sp walked.2.sample ackDelay now walked.2.s
        exact fun live => settled (finish.recovMoves.live live)

end Frame

end Cx.Quic
