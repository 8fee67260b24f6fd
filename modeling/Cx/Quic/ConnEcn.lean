import Cx.Quic.AckSettle
import Cx.Quic.ConnTurn

/-!
# Congestion marks

An endpoint marks its packets and compares the peer's counts of marked packets with those it heard
of last: they may not fall, and they have to grow by as many marked packets as are newly
acknowledged.  Where ACK frames are processed in the order they were written, and each leaves no
packet that had arrived unacknowledged, an honest peer passes.  Where two frames change places it
fails, and marking stops.
-/

namespace Cx.Quic

open Library List Function

/-! ### What one acknowledgement counts -/

/-- What the comparison of counts rests on, as it is between acknowledgements. -/
structure EcnKept (c c' : QuicConnOwn) : Prop where
  state_eq : c'.ecnState = c.ecnState
  ecn_eq (sp : QuicPns) : (c'.pns sp).ecn = (c.pns sp).ecn
  next_eq (sp : QuicPns) : (c'.pns sp).next = (c.pns sp).next

/-- What was counted since a state: no more marked packets than were settled, each of them live then
and one of those that may be acknowledged. -/
structure EcnTally (sp : QuicPns) (allowed : Nat → Prop) (start s : QuicRecovery × QuicConnOwn) :
    Prop where
  kept : EcnKept start.2 s.2
  counted : ∃ settled : Finset Nat,
    (s.2.pns sp).ecnAckedMarked ≤ (start.2.pns sp).ecnAckedMarked + settled.card ∧
      ∀ pn ∈ settled, allowed pn ∧ LiveIn start.1 sp pn ∧ ¬ LiveIn s.1 sp pn

namespace Conn

variable (c : QuicConnOwn) (sp : QuicPns) (size : Nat) (now : Time) (other : QuicPns) (pn : Nat)
  (r : QuicRecovery)

theorem mtuSearch_ecn :
    (mtuSearch c now).pns = c.pns ∧ (mtuSearch c now).ecnState = c.ecnState := by
  unfold mtuSearch
  simp only
  by_cases high : c.mtuHigh > mtuCeiling c + 1 <;> by_cases low : c.mtuLow < QUIC_INITIAL_MTU <;>
    simp only [high, low, if_true, if_false] <;> split <;> exact ⟨rfl, rfl⟩

theorem mtuProbeLost_ecn :
    (mtuProbeLost c size now).pns = c.pns ∧ (mtuProbeLost c size now).ecnState = c.ecnState := by
  unfold mtuProbeLost
  dsimp only
  split
  · exact ⟨rfl, rfl⟩
  · split
    · exact mtuSearch_ecn _ now
    · exact mtuSearch_ecn _ now

theorem connOnAcked_ecn (c : QuicConnOwn) : (connOnAcked other pn r c).1.pns =
        update c.pns other (spaceAcked (c.pns other) pn (quicRecovMarkedEct0 r other pn)) ∧
      (connOnAcked other pn r c).1.ecnState = c.ecnState := by
  fun_cases connOnAcked other pn r c with
  | case1 => exact ⟨rfl, rfl⟩
  | case2 own _ phased acked told probed =>
    have phased_ecn : phased.pns = own.pns ∧ phased.ecnState = own.ecnState := by
      dsimp only [phased]
      split <;> exact ⟨rfl, rfl⟩
    change acked.pns = own.pns ∧ acked.ecnState = own.ecnState
    rw [← phased_ecn.1, ← phased_ecn.2]
    split at probed
    · have acked_eq : _ = acked := congrArg Prod.fst probed
      rw [← acked_eq]
      fun_cases mtuProbeAcked <;> exact mtuSearch_ecn _ _
    · cases probed
      exact ⟨rfl, rfl⟩

theorem connOnLost_ecn (c : QuicConnOwn) :
    (connOnLost other pn r c).pns = update c.pns other (spaceLost (c.pns other) pn) ∧
      (connOnLost other pn r c).ecnState = c.ecnState := by
  fun_cases connOnLost other pn r c with
  | case1 | case3 => exact ⟨rfl, rfl⟩
  | case2 => exact mtuProbeLost_ecn _ _ _

/-- A field of a space that is the same in the new one is the same everywhere. -/
theorem field_update {α : Type} (field : QuicPnSpace → α) {pns : QuicPns → QuicPnSpace}
    {sp : QuicPns} {space : QuicPnSpace} (field_eq : field space = field (pns sp))
    (other : QuicPns) : field (update pns sp space other) = field (pns other) := by
  rw [Function.apply_update (fun _ => field), field_eq]
  exact congrFun (update_eq_self sp fun space => field (pns space)) other

theorem ecnKept_update {c c' : QuicConnOwn} {sp : QuicPns} {space : QuicPnSpace}
    (pns_eq : c'.pns = update c.pns sp space) (state_eq : c'.ecnState = c.ecnState)
    (ecn_eq : space.ecn = (c.pns sp).ecn) (next_eq : space.next = (c.pns sp).next) :
    EcnKept c c' :=
  ⟨state_eq, pns_eq ▸ field_update QuicPnSpace.ecn ecn_eq,
    pns_eq ▸ field_update QuicPnSpace.next next_eq⟩

/-- An acknowledged packet is counted once at most, and only in its space. -/
theorem connOnAcked_kept (c : QuicConnOwn) : EcnKept c (connOnAcked other pn r c).1 ∧
      ((connOnAcked other pn r c).1.pns sp).ecnAckedMarked ≤ (c.pns sp).ecnAckedMarked + 1 := by
  obtain ⟨pns_eq, state_eq⟩ := connOnAcked_ecn other pn r c
  refine ⟨ecnKept_update pns_eq state_eq rfl rfl, ?_⟩
  rw [pns_eq]
  by_cases same : sp = other
  · subst same
    rw [update_self]
    change (if quicRecovMarkedEct0 r sp pn then (c.pns sp).ecnAckedMarked + 1
      else (c.pns sp).ecnAckedMarked) ≤ _
    split <;> omega
  · rw [update_of_ne same]
    omega

theorem connOnLost_kept (c : QuicConnOwn) : EcnKept c (connOnLost other pn r c) ∧
      ((connOnLost other pn r c).pns sp).ecnAckedMarked = (c.pns sp).ecnAckedMarked := by
  obtain ⟨pns_eq, state_eq⟩ := connOnLost_ecn other pn r c
  refine ⟨ecnKept_update pns_eq state_eq rfl rfl, ?_⟩
  rw [pns_eq]
  exact field_update QuicPnSpace.ecnAckedMarked (by rfl) sp

end Conn

section Tally

variable {sp : QuicPns} {allowed : Nat → Prop} {start s s' : QuicRecovery × QuicConnOwn}
  {c c' c'' : QuicConnOwn}

theorem EcnKept.refl (c : QuicConnOwn) : EcnKept c c := ⟨rfl, fun _ => rfl, fun _ => rfl⟩

theorem EcnKept.trans (first : EcnKept c c') (second : EcnKept c' c'') : EcnKept c c'' :=
  ⟨second.state_eq.trans first.state_eq, fun sp => (second.ecn_eq sp).trans (first.ecn_eq sp),
    fun sp => (second.next_eq sp).trans (first.next_eq sp)⟩

theorem EcnTally.quiet (tally : EcnTally sp allowed start s) (kept : EcnKept s.2 s'.2)
    (same : (s'.2.pns sp).ecnAckedMarked = (s.2.pns sp).ecnAckedMarked)
    (fades : ∀ pn, LiveIn s'.1 sp pn → LiveIn s.1 sp pn) : EcnTally sp allowed start s' := by
  obtain ⟨settled, count_le, each⟩ := tally.counted
  refine ⟨tally.kept.trans kept, settled, by rw [same]; exact count_le, fun pn listed => ?_⟩
  obtain ⟨may, was_live, ended⟩ := each pn listed
  exact ⟨may, was_live, fun live => ended (fades pn live)⟩

theorem EcnTally.settle
    (move : SettleMove Conn.quicRecovHandlers (fun other pn => other = sp ∧ allowed pn) s s')
    (alive : ∀ pn, LiveIn s.1 sp pn → LiveIn start.1 sp pn)
    (tally : EcnTally sp allowed start s) : EcnTally sp allowed start s' := by
  have fades : ∀ pn, LiveIn s'.1 sp pn → LiveIn s.1 sp pn := fun pn live =>
    SettleMoves.recovMoves (.single move) |>.live live
  cases move with
  | still x | trimmed x => exact tally.quiet (.refl x) rfl fades
  | @lost r r' x other front back p =>
    obtain ⟨kept, same⟩ := Conn.connOnLost_kept sp other p.pn r' x
    exact tally.quiet kept same fades
  | @acked r r' reported x other front back p recorded live within ledger_eq =>
    obtain ⟨rfl, may⟩ := within
    obtain ⟨kept, count_le⟩ := Conn.connOnAcked_kept other other p.pn reported x
    obtain ⟨settled, before_le, each⟩ := tally.counted
    have p_mem : p ∈ (ledger r).pkts other := by simp [recorded]
    have p_live : LiveIn r other p.pn := ⟨p, p_mem, rfl, live⟩
    have fresh : p.pn ∉ settled := fun listed => (each p.pn listed).2.2 p_live
    have before : (x.pns other).ecnAckedMarked ≤
        (start.2.pns other).ecnAckedMarked + settled.card := before_le
    refine ⟨tally.kept.trans kept, insert p.pn settled, ?_, fun pn listed => ?_⟩
    · rw [Finset.card_insert_of_notMem fresh]
      exact count_le.trans (by omega)
    · rcases Finset.mem_insert.1 listed with rfl | old
      · refine ⟨may, alive _ p_live, fun still => ?_⟩
        exact (liveIn_settle recorded (by decide) ledger_eq still).2 ⟨rfl, rfl⟩
      · obtain ⟨old_may, was_live, ended⟩ := each pn old
        exact ⟨old_may, was_live, fun still => ended (fades pn still)⟩

theorem ecnTally_settleMoves
    (moves : SettleMoves Conn.quicRecovHandlers (fun other pn => other = sp ∧ allowed pn) start s) :
    EcnTally sp allowed start s := by
  induction moves with
  | refl => exact ⟨.refl _, ∅, by simp, by simp⟩
  | tail earlier move ih =>
    exact ih.settle move fun pn live => SettleMoves.recovMoves earlier |>.live live

end Tally

/-- What handling an ACK frame does to the comparison of counts. -/
structure AckCounted (sp : QuicPns) (f : QuicAck) (now : Time) (c : QuicConn) (ok : Bool)
    (c' : QuicConn) : Prop where
  fades : ∀ other pn, LiveIn c'.recov other pn → LiveIn c.recov other pn
  discarded_eq : c'.recov.discarded = c.recov.discarded
  next_eq (other : QuicPns) : (c'.pns other).next = (c.pns other).next
  elsewhere : ∀ other, other ≠ sp → (c'.pns other).ecn = (c.pns other).ecn
  refused : ok = false → c'.ecnState = c.ecnState ∧ (c'.pns sp).ecn = (c.pns sp).ecn
  /-- No packet named in any other is live, and those newly acknowledged are compared. -/
  accepted : ok = true → (∀ pn ∈ ackNumbers f, ¬ LiveIn c'.recov sp pn) ∧
    ∃ (mid : QuicConn) (settled : Finset Nat), c' = Conn.ecnOnAck mid sp f now ∧
      EcnKept c.toQuicConnOwn mid.toQuicConnOwn ∧
      (mid.pns sp).ecnAckedMarked ≤ settled.card ∧
      ∀ pn ∈ settled, pn ∈ ackNumbers f ∧ LiveIn c.recov sp pn

namespace Conn

variable (c : QuicConn) (sp other : QuicPns) (f : QuicAck) (now : Time)

theorem ecnOnAck_pns :
    ∃ ecn, (ecnOnAck c sp f now).pns = update c.pns sp { c.pns sp with ecn := ecn } := by
  have same : c.pns = update c.pns sp { c.pns sp with ecn := (c.pns sp).ecn } :=
    (update_eq_self sp c.pns).symm
  fun_cases ecnOnAck c sp f now with
  | case6 => exact ⟨_, rfl⟩
  | _ => exact ⟨_, same⟩

theorem ecnOnAck_ledger : ledger (ecnOnAck c sp f now).recov = ledger c.recov := by
  fun_cases ecnOnAck c sp f now with
  | case6 =>
    dsimp only
    split
    · exact ledger_onEcnCe _ _ _ _
    · rfl
  | _ => rfl

theorem ecnOnAck_next : ((ecnOnAck c sp f now).pns other).next = (c.pns other).next := by
  obtain ⟨ecn, pns_eq⟩ := ecnOnAck_pns c sp f now
  rw [pns_eq]
  exact field_update QuicPnSpace.next (by rfl) other

theorem abort_ecn (error frameType : Nat) :
    (abort c error frameType).recov = c.recov ∧ (abort c error frameType).pns = c.pns ∧
      (abort c error frameType).ecnState = c.ecnState := by
  unfold abort onOwn quicConnAbort quicConnClose
  dsimp only
  split <;> exact ⟨rfl, rfl, rfl⟩

variable {sp : QuicPns} {f : QuicAck} {now : Time} {c c' : QuicConn}

theorem ackCounted_abort (fades : ∀ other pn, LiveIn c'.recov other pn → LiveIn c.recov other pn)
    (discarded_eq : c'.recov.discarded = c.recov.discarded)
    (kept : EcnKept c.toQuicConnOwn c'.toQuicConnOwn) (error frameType : Nat) :
    AckCounted sp f now c false (abort c' error frameType) := by
  obtain ⟨recov_eq, pns_eq, state_eq⟩ := abort_ecn c' error frameType
  refine ⟨?_, ?_, fun other => ?_, fun other _ => ?_, fun _ => ⟨?_, ?_⟩, nofun⟩
  · rw [recov_eq]
    exact fades
  · rw [recov_eq, discarded_eq]
  · rw [pns_eq, kept.next_eq]
  · rw [pns_eq, kept.ecn_eq]
  · rw [state_eq, kept.state_eq]
  · rw [pns_eq, kept.ecn_eq]

theorem ackCounted_done {done : QuicRecovery × QuicConnOwn}
    (fades : ∀ other pn, LiveIn done.1 other pn → LiveIn c.recov other pn)
    (discarded_eq : done.1.discarded = c.recov.discarded)
    (kept : EcnKept c.toQuicConnOwn done.2)
    (complete : ∀ pn ∈ ackNumbers f, ¬ LiveIn done.1 sp pn)
    (counted : ∃ settled : Finset Nat, (done.2.pns sp).ecnAckedMarked ≤ settled.card ∧
      ∀ pn ∈ settled, pn ∈ ackNumbers f ∧ LiveIn c.recov sp pn) :
    AckCounted sp f now c true (ecnOnAck (ofRecov done) sp f now) := by
  have ledger_eq := ecnOnAck_ledger (ofRecov done) sp f now
  obtain ⟨ecn, pns_eq⟩ := ecnOnAck_pns (ofRecov done) sp f now
  obtain ⟨settled, count_le, each⟩ := counted
  refine ⟨fun other pn live => fades other pn ((liveIn_congr ledger_eq).1 live), ?_,
    fun other => ?_, fun other apart => ?_, nofun, fun _ =>
    ⟨fun pn named live => complete pn named ((liveIn_congr ledger_eq).1 live),
      ofRecov done, settled, rfl, kept, count_le, each⟩⟩
  · exact (congrArg Ledger.discarded ledger_eq).trans discarded_eq
  · exact (ecnOnAck_next _ sp other f now).trans (kept.next_eq other)
  · simp only [pns_eq, update_of_ne apart]
    exact kept.ecn_eq other

theorem handleAck_counted (c : QuicConn) (sp : QuicPns) (f : QuicAck) (now : Time)
    (open_space : c.recov.discarded sp = false) :
    AckCounted sp f now c (handleAck c sp f now).1 (handleAck c sp f now).2 := by
  have settles (own : QuicConnOwn) := quicRecovOnAck_settles quicRecovHandlers sp f
    (handleAckDelay c.localTp sp f) now (c.recov, own)
  have moves (own : QuicConnOwn) := SettleMoves.recovMoves (settles own)
  fun_cases handleAck c sp f now with
  | case1 | case2 | case3 => exact ackCounted_abort (fun _ _ live => live) rfl (.refl _) _ _
  | case4 _ _ _ _ _ _ _ own =>
    have heard : EcnKept c.toQuicConnOwn own := ecnKept_update rfl rfl rfl rfl
    exact ackCounted_abort (fun _ _ live => (moves own).live live) (moves own).discarded_eq
      (heard.trans (ecnTally_settleMoves (settles own)).kept) _ _
  | case5 s _ _ _ _ _ own done failed =>
    have sound : done.1 = true := by simpa using failed
    have heard : EcnKept c.toQuicConnOwn own := ecnKept_update rfl rfl rfl rfl
    have tally := ecnTally_settleMoves (settles own)
    obtain ⟨settled, count_le, each⟩ := tally.counted
    refine ackCounted_done (fun _ _ live => (moves own).live live) (moves own).discarded_eq
      (heard.trans tally.kept)
      (fun pn named => not_liveIn_quicRecovOnAck _ sp f _ now _ open_space sound named)
      ⟨settled, ?_, fun pn listed => ⟨(each pn listed).1, (each pn listed).2.1⟩⟩
    have unmarked : (own.pns sp).ecnAckedMarked = 0 := by simp only [own, setSpace, update_self]
    exact count_le.trans (by rw [unmarked, Nat.zero_add])

end Conn

/-! ### The packets, the peer and its frames -/

structure EcnSpace where
  sent : List (Nat × Bool) := []
  /-- The packets that arrived, oldest first, and the marks on them. -/
  arrived : List (Nat × NetEcn) := []
  /-- The ACK frames the peer wrote, oldest first, and how many packets had arrived by then. -/
  frames : List (QuicAck × Nat) := []
  acknowledged : List Nat := []
  last : Nat := 0

structure EcnHistory where
  conn : QuicConn
  space : QuicPns → EcnSpace

inductive EcnEvent where
  | send (size : Nat) (eliciting inFlight : Bool) (now : Time)
  | arrive (pn : Nat) (mark : NetEcn)
  | write (frame : QuicAck)
  | ack (index : Nat) (now : Time)
  | timeout (now : Time)
  | discard (now : Time)

def ecnCounts (arrived : List (Nat × NetEcn)) : QuicAckState :=
  arrived.foldl (fun as packet => Conn.quicAckStateEcn as packet.2) quicAckStateInit

/-- Put a packet on record as it goes out, marked unless marking has stopped. -/
def ecnSend (c : QuicConn) (sp : QuicPns) (size : Nat) (eliciting inFlight : Bool) (now : Time) :
    QuicConn :=
  let s := c.pns sp
  let r := quicRecovOnSent true c.recov sp s.next size eliciting inFlight now
  { c with
    recov := if c.ecnState ≠ .off then quicRecovMark r sp s.next true false else r
    pns := update c.pns sp { s with next := s.next + 1 } }

namespace EcnHistory

def start (c : QuicConn) : EcnHistory := ⟨c, fun _ => {}⟩

def step (w : EcnHistory) (op : QuicPns × EcnEvent) : EcnHistory :=
  let sp := op.1
  let h := w.space sp
  match op.2 with
  | .send size eliciting inFlight now =>
    ⟨ecnSend w.conn sp size eliciting inFlight now, update w.space sp { h with
      sent := h.sent ++ [((w.conn.pns sp).next, decide (w.conn.ecnState ≠ .off))] }⟩
  | .arrive pn mark =>
    ⟨w.conn, update w.space sp { h with arrived := h.arrived ++ [(pn, mark)] }⟩
  | .write frame =>
    ⟨w.conn, update w.space sp
      { h with frames := h.frames ++ [(frame, h.arrived.length)] }⟩
  | .ack index now =>
    match w.conn.recov.discarded sp, h.frames[index]? with
    | false, some entry =>
      let done := Conn.handleAck w.conn sp entry.1 now
      ⟨done.2, update w.space sp { h with
        acknowledged :=
          if done.1 then ackNumbers entry.1 ++ h.acknowledged else h.acknowledged
        last := index }⟩
    -- Nothing is left to read packets of a space that was given up with.
    | _, _ => w
  | .timeout now =>
    ⟨Conn.ofRecov (quicRecovOnTimeout Conn.quicRecovHandlers now
      (w.conn.recov, { w.conn.toQuicConnOwn with now := now })), w.space⟩
  | .discard now => ⟨Conn.spaceDiscard w.conn sp now, w.space⟩

end EcnHistory

/-- The path carries marks: a marked packet arrives marked, if only by a router that was congested,
and any other arrives without a mark. -/
def MarkCarried (marked : Bool) (mark : NetEcn) : Prop :=
  bif marked then mark = .ect0 ∨ mark = .ce else mark = .notEct

instance MarkCarried.decidable (marked : Bool) (mark : NetEcn) :
    Decidable (MarkCarried marked mark) :=
  match marked with
  | true => inferInstanceAs (Decidable (_ ∨ _))
  | false => inferInstanceAs (Decidable (mark = .notEct))

/-- A frame acknowledges packets that arrived and tells how many came with each mark. -/
def FrameHonest (arrived : List (Nat × NetEcn)) (frame : QuicAck) : Prop :=
  (∀ pn ∈ ackNumbers frame, pn ∈ arrived.map Prod.fst) ∧
    (frame.ecn = some (ecnCounts arrived).ecn ∨
      frame.ecn = none ∧ (ecnCounts arrived).ecnSeen = false)

instance FrameHonest.decidable (arrived : List (Nat × NetEcn)) (frame : QuicAck) :
    Decidable (FrameHonest arrived frame) :=
  inferInstanceAs (Decidable (_ ∧ _))

namespace EcnHistory

/-- The path carries marks and delivers what was sent, once, and the peer is honest. -/
def Honest (w : EcnHistory) (op : QuicPns × EcnEvent) : Prop :=
  let h := w.space op.1
  match op.2 with
  | .arrive pn mark =>
    pn ∉ h.arrived.map Prod.fst ∧ ∃ packet ∈ h.sent, packet.1 = pn ∧ MarkCarried packet.2 mark
  | .write frame => FrameHonest h.arrived frame
  | _ => True

instance Honest.decidable (w : EcnHistory) (op : QuicPns × EcnEvent) : Decidable (w.Honest op) :=
  match op with
  | (_, .arrive ..) => inferInstanceAs (Decidable (_ ∧ _))
  | (_, .write ..) => inferInstanceAs (Decidable (FrameHonest _ _))
  | (_, .send ..) | (_, .ack ..) | (_, .timeout ..) | (_, .discard ..) => .isTrue trivial

/-- Frames are processed in the order they were written.  What had arrived when a frame was written
is acknowledged in it, or in one that was processed before. -/
def InOrder (w : EcnHistory) (op : QuicPns × EcnEvent) : Prop :=
  let h := w.space op.1
  match op.2 with
  | .ack index _ =>
    h.last ≤ index ∧ ∀ entry ∈ h.frames[index]?, ∀ packet ∈ h.arrived.take entry.2,
      packet.1 ∈ ackNumbers entry.1 ∨ packet.1 ∈ h.acknowledged
  | _ => True

instance InOrder.decidable (w : EcnHistory) (op : QuicPns × EcnEvent) : Decidable (w.InOrder op) :=
  match op with
  | (_, .ack ..) => inferInstanceAs (Decidable (_ ∧ _))
  | (_, .send ..) | (_, .arrive ..) | (_, .write ..) | (_, .timeout ..) | (_, .discard ..) =>
    .isTrue trivial

end EcnHistory

/-! ### Counting -/

theorem ecnCounts_concat (arrived : List (Nat × NetEcn)) (packet : Nat × NetEcn) :
    ecnCounts (arrived ++ [packet]) = Conn.quicAckStateEcn (ecnCounts arrived) packet.2 :=
  foldl_append ..

def AllMarked (arrived : List (Nat × NetEcn)) : Prop :=
  ∀ packet ∈ arrived, packet.2 = .ect0 ∨ packet.2 = .ce

section Counts

variable {arrived : List (Nat × NetEcn)}

theorem AllMarked.take (marked : AllMarked arrived) (seen : Nat) : AllMarked (arrived.take seen) :=
  fun packet listed => marked packet (mem_of_mem_take listed)

/-- Each marked packet is counted once, as it was sent or as a router marked it. -/
theorem AllMarked.counts (marked : AllMarked arrived) :
    (ecnCounts arrived).ecn.1 + (ecnCounts arrived).ecn.2.2 = arrived.length := by
  induction arrived using List.reverseRecOn with
  | nil => rfl
  | append_singleton front packet ih =>
    have before := ih fun other listed => marked other (mem_append_left _ listed)
    rw [ecnCounts_concat, length_append, length_singleton]
    rcases marked packet (by simp) with mark | mark
    · simp only [mark, Conn.quicAckStateEcn]
      omega
    · simp only [mark, Conn.quicAckStateEcn]
      omega

/-- A peer that counted nothing received nothing. -/
theorem AllMarked.seen (marked : AllMarked arrived) (unseen : (ecnCounts arrived).ecnSeen = false) :
    arrived = [] := by
  induction arrived using List.reverseRecOn with
  | nil => rfl
  | append_singleton front packet =>
    rw [ecnCounts_concat] at unseen
    rcases marked packet (by simp) with mark | mark <;> simp [mark, Conn.quicAckStateEcn] at unseen

theorem ecnCounts_take_le (arrived : List (Nat × NetEcn)) {early late : Nat}
    (order : early ≤ late) :
    (ecnCounts (arrived.take early)).ecn ≤ (ecnCounts (arrived.take late)).ecn := by
  induction late, order using Nat.le_induction with
  | base => exact le_rfl
  | succ late _ ih =>
    refine ih.trans ?_
    rw [take_add_one]
    cases found : arrived[late]? with
    | none => simp
    | some packet =>
      rw [Option.toList_some, ecnCounts_concat]
      cases packet.2 <;> simp [Conn.quicAckStateEcn, Prod.le_def]

/-- No more packets can have been acknowledged between two counts than arrived. -/
theorem card_arrived_between {settled : Finset Nat} {early late : Nat}
    (inside : ∀ pn ∈ settled, pn ∈ (arrived.take late).map Prod.fst)
    (outside : ∀ pn ∈ settled, pn ∉ (arrived.take early).map Prod.fst) (order : early ≤ late) :
    settled.card + (arrived.take early).length ≤ (arrived.take late).length := by
  have split_eq : arrived.take late = arrived.take early ++ (arrived.take late).drop early := by
    have halves := take_append_drop early (arrived.take late)
    rw [take_take, min_eq_left order] at halves
    exact halves.symm
  have between : settled ⊆ (((arrived.take late).drop early).map Prod.fst).toFinset := by
    intro pn listed
    have named := inside pn listed
    rw [split_eq, map_append, mem_append] at named
    exact mem_toFinset.2 (named.resolve_left (outside pn listed))
  have few := (Finset.card_le_card between).trans (toFinset_card_le _)
  rw [split_eq, length_append]
  rw [length_map] at few
  omega

end Counts

namespace Conn

/-- Counts that do not fall, and grow by the marked packets acknowledged, pass. -/
theorem ecnOnAck_counts {c : QuicConn} {sp : QuicPns} {f : QuicAck} {counts : Nat × Nat × Nat}
    (now : Time) (marking : c.ecnState ≠ .off) (told : f.ecn = some counts)
    (grown : (c.pns sp).ecn ≤ counts)
    (enough : (c.pns sp).ecnAckedMarked + ((c.pns sp).ecn.1 + (c.pns sp).ecn.2.2) ≤
      counts.1 + counts.2.2) :
    (ecnOnAck c sp f now).ecnState ≠ .off ∧ ((ecnOnAck c sp f now).pns sp).ecn = counts := by
  obtain ⟨ect0, ect1, ce⟩ := counts
  obtain ⟨ect0_le, ect1_le, ce_le⟩ := grown
  dsimp only at ect0_le ect1_le ce_le enough
  have not_fallen :
      ¬ (ect0 < (c.pns sp).ecn.1 ∨ ect1 < (c.pns sp).ecn.2.1 ∨ ce < (c.pns sp).ecn.2.2) := by
    omega
  have not_short : ¬ (ect0 - (c.pns sp).ecn.1) + (ce - (c.pns sp).ecn.2.2) <
      (c.pns sp).ecnAckedMarked := by omega
  unfold ecnOnAck
  simp only [marking, told, not_fallen, not_short, if_false, update_self, and_true]
  split
  · decide
  · exact marking

end Conn

/-! ### Along a history -/

/-- What is known of a space in which the frames are processed in order. -/
structure EcnSpace.Counting (r : QuicRecovery) (sp : QuicPns) (s : QuicPnSpace) (h : EcnSpace) :
    Prop where
  sent : ∀ packet ∈ h.sent, packet.2 = true ∧ packet.1 < s.next
  arrived : ∀ packet ∈ h.arrived, packet.1 < s.next
  marked : AllMarked h.arrived
  honest : ∀ entry ∈ h.frames,
    entry.2 ≤ h.arrived.length ∧ FrameHonest (h.arrived.take entry.2) entry.1
  ordered : h.frames.Pairwise fun early late => early.2 ≤ late.2
  settled : ∀ pn ∈ h.acknowledged, pn < s.next ∧ ¬ LiveIn r sp pn
  /-- The counts heard of last are those of a time before any frame still to come, and nothing that
  had arrived by then is live. -/
  heard : ∃ seen ≤ h.arrived.length, s.ecn = (ecnCounts (h.arrived.take seen)).ecn ∧
    (∀ packet ∈ h.arrived.take seen, ¬ LiveIn r sp packet.1) ∧
    ∀ index entry, h.last ≤ index → h.frames[index]? = some entry → seen ≤ entry.2

namespace EcnSpace

section Counting

variable {r r' : QuicRecovery} {sp : QuicPns} {s s' : QuicPnSpace} {h : EcnSpace}

theorem Counting.fade (counting : Counting r sp s h)
    (fades : ∀ pn < s.next, LiveIn r' sp pn → LiveIn r sp pn) (ecn_eq : s'.ecn = s.ecn)
    (next_le : s.next ≤ s'.next) : Counting r' sp s' h where
  sent packet listed :=
    ⟨(counting.sent packet listed).1, (counting.sent packet listed).2.trans_le next_le⟩
  arrived packet listed := (counting.arrived packet listed).trans_le next_le
  marked := counting.marked
  honest := counting.honest
  ordered := counting.ordered
  settled pn listed := by
    obtain ⟨below, ended⟩ := counting.settled pn listed
    exact ⟨below.trans_le next_le, fun live => ended (fades pn below live)⟩
  heard := by
    obtain ⟨seen, seen_le, heard_eq, ended, ahead⟩ := counting.heard
    refine ⟨seen, seen_le, ecn_eq.trans heard_eq, fun packet listed live => ?_, ahead⟩
    have below := counting.arrived packet (mem_of_mem_take listed)
    exact ended packet listed (fades packet.1 below live)

theorem Counting.send (counting : Counting r sp s h) {pn : Nat} (below : pn < s.next) :
    Counting r sp s { h with sent := h.sent ++ [(pn, true)] } :=
  { counting with
    sent := forall_mem_append.2 ⟨counting.sent, forall_mem_singleton.2 ⟨rfl, below⟩⟩ }

theorem Counting.arrive (counting : Counting r sp s h) {pn : Nat} {mark : NetEcn}
    (carried : ∃ packet ∈ h.sent, packet.1 = pn ∧ MarkCarried packet.2 mark) :
    Counting r sp s { h with arrived := h.arrived ++ [(pn, mark)] } := by
  obtain ⟨packet, listed, rfl, kept⟩ := carried
  obtain ⟨was_marked, below⟩ := counting.sent packet listed
  rw [was_marked] at kept
  -- What had arrived earlier comes first.
  have early : ∀ seen ≤ h.arrived.length,
      (h.arrived ++ [(packet.1, mark)]).take seen = h.arrived.take seen :=
    fun seen seen_le => take_append_of_le_length seen_le
  refine { counting with
    arrived := forall_mem_append.2 ⟨counting.arrived, forall_mem_singleton.2 below⟩
    marked := forall_mem_append.2 ⟨counting.marked, forall_mem_singleton.2 kept⟩
    honest := ?_
    heard := ?_ }
  · intro entry written
    obtain ⟨entry_le, true_then⟩ := counting.honest entry written
    refine ⟨entry_le.trans (by simp), ?_⟩
    rw [early _ entry_le]
    exact true_then
  · obtain ⟨seen, seen_le, heard_eq, ended, ahead⟩ := counting.heard
    refine ⟨seen, seen_le.trans (by simp), ?_, ?_, ahead⟩
    · rw [early _ seen_le]
      exact heard_eq
    · rw [early _ seen_le]
      exact ended

theorem Counting.write (counting : Counting r sp s h) {frame : QuicAck}
    (honest : FrameHonest h.arrived frame) :
    Counting r sp s { h with frames := h.frames ++ [(frame, h.arrived.length)] } := by
  refine { counting with honest := ?_, ordered := ?_, heard := ?_ }
  · refine forall_mem_append.2 ⟨counting.honest, forall_mem_singleton.2 ⟨le_rfl, ?_⟩⟩
    rwa [take_length]
  · refine pairwise_append.2 ⟨counting.ordered, pairwise_singleton _ _, ?_⟩
    intro early written late new
    rw [mem_singleton.1 new]
    exact (counting.honest early written).1
  · obtain ⟨seen, seen_le, heard_eq, ended, ahead⟩ := counting.heard
    refine ⟨seen, seen_le, heard_eq, ended, fun index entry later found => ?_⟩
    by_cases old : index < h.frames.length
    · rw [List.getElem?_append_left old] at found
      exact ahead index entry later found
    · rw [List.getElem?_append_right (Nat.le_of_not_lt old)] at found
      rw [mem_singleton.1 (mem_of_getElem? found)]
      exact seen_le

variable {index : Nat} {entry : QuicAck × Nat}

section

variable (counting : Counting r sp s h)
include counting

theorem Counting.skip (later : h.last ≤ index) : Counting r sp s { h with last := index } := by
  refine { counting with heard := ?_ }
  obtain ⟨seen, seen_le, heard_eq, ended, ahead⟩ := counting.heard
  exact ⟨seen, seen_le, heard_eq, ended, fun next entry after =>
    ahead next entry (later.trans after)⟩

theorem Counting.acknowledge {numbers : List Nat} (below : ∀ pn ∈ numbers, pn < s.next)
    (ended : ∀ pn ∈ numbers, ¬ LiveIn r sp pn) :
    Counting r sp s { h with acknowledged := numbers ++ h.acknowledged } :=
  { counting with
    settled := fun pn listed =>
      (mem_append.1 listed).elim (fun new => ⟨below pn new, ended pn new⟩)
        (counting.settled pn) }

/-- The counts of the frame processed last replace those heard before. -/
theorem Counting.hear (found : h.frames[h.last]? = some entry)
    (told : s'.ecn = (ecnCounts (h.arrived.take entry.2)).ecn) (next_eq : s'.next = s.next)
    (ended : ∀ packet ∈ h.arrived.take entry.2, ¬ LiveIn r sp packet.1) : Counting r sp s' h := by
  refine { counting with
    sent := next_eq ▸ counting.sent
    arrived := next_eq ▸ counting.arrived
    settled := next_eq ▸ counting.settled
    heard := ?_ }
  · refine ⟨entry.2, (counting.honest entry (mem_of_getElem? found)).1, told, ended,
      fun index later after written => ?_⟩
    rcases Nat.eq_or_lt_of_le after with rfl | strictly
    · rw [found] at written
      exact (congrArg Prod.snd (Option.some.inj written)).le
    · obtain ⟨last_lt, last_eq⟩ := List.getElem?_eq_some_iff.1 found
      obtain ⟨index_lt, index_eq⟩ := List.getElem?_eq_some_iff.1 written
      rw [← last_eq, ← index_eq]
      exact pairwise_iff_getElem.1 counting.ordered _ _ last_lt index_lt strictly

/-- The packets a frame newly acknowledges arrived since the counts heard of last. -/
theorem Counting.enough (found : h.frames[index]? = some entry) (later : h.last ≤ index)
    {fresh : Finset Nat} (live : ∀ pn ∈ fresh, pn ∈ ackNumbers entry.1 ∧ LiveIn r sp pn) :
    s.ecn ≤ (ecnCounts (h.arrived.take entry.2)).ecn ∧
      fresh.card + (s.ecn.1 + s.ecn.2.2) ≤ (h.arrived.take entry.2).length := by
  obtain ⟨seen, -, heard_eq, ended, ahead⟩ := counting.heard
  have order := ahead index entry later found
  obtain ⟨-, named, -⟩ := counting.honest entry (mem_of_getElem? found)
  refine ⟨heard_eq ▸ ecnCounts_take_le h.arrived order, ?_⟩
  rw [heard_eq, (counting.marked.take seen).counts]
  refine card_arrived_between (fun pn listed => named pn (live pn listed).1) ?_ order
  intro pn listed early
  obtain ⟨packet, came, rfl⟩ := mem_map.1 early
  exact ended packet came (live packet.1 listed).2

end

/-- A frame that is processed in order passes. -/
theorem Counting.ack {c c' : QuicConn} {now : Time} {ok : Bool}
    (counting : Counting c.recov sp (c.pns sp) h) (marking : c.ecnState ≠ .off)
    (found : h.frames[index]? = some entry) (later : h.last ≤ index)
    (covered : ∀ packet ∈ h.arrived.take entry.2, packet.1 ∈ ackNumbers entry.1 ∨
      packet.1 ∈ h.acknowledged) (counted : AckCounted sp entry.1 now c ok c') :
    c'.ecnState ≠ .off ∧ Counting c'.recov sp (c'.pns sp) { h with
      acknowledged := if ok then ackNumbers entry.1 ++ h.acknowledged else h.acknowledged
      last := index } := by
  cases ok with
  | false =>
    obtain ⟨state_eq, ecn_eq⟩ := counted.refused rfl
    refine ⟨state_eq ▸ marking, Counting.skip ?_ later⟩
    exact counting.fade (fun pn _ => counted.fades sp pn) ecn_eq (counted.next_eq sp).ge
  | true =>
    obtain ⟨ended, mid, fresh, rfl, kept, count_le, live⟩ := counted.accepted rfl
    obtain ⟨-, named, told⟩ := counting.honest entry (mem_of_getElem? found)
    have still_marking : mid.ecnState ≠ .off := kept.state_eq ▸ marking
    have below : ∀ pn ∈ ackNumbers entry.1, pn < (c.pns sp).next := by
      intro pn acked
      obtain ⟨packet, came, rfl⟩ := mem_map.1 (named pn acked)
      exact counting.arrived packet (mem_of_mem_take came)
    have settled := ((counting.fade (fun pn _ => counted.fades sp pn) rfl le_rfl).acknowledge
      below ended).skip later
    rcases told with counts | ⟨plain, unseen⟩
    · obtain ⟨grown, enough⟩ := counting.enough found later live
      rw [← (counting.marked.take entry.2).counts] at enough
      rw [← kept.ecn_eq sp] at grown enough
      obtain ⟨passes, ecn_eq⟩ := Conn.ecnOnAck_counts now still_marking counts grown
        ((Nat.add_le_add_right count_le _).trans enough)
      refine ⟨passes, settled.hear found ecn_eq (counted.next_eq sp) fun packet came alive => ?_⟩
      rcases covered packet came with here | before
      · exact ended packet.1 here alive
      · exact (counting.settled packet.1 before).2 (counted.fades sp packet.1 alive)
    · -- Nothing had arrived, so nothing can have been acknowledged.
      have nothing : h.arrived.take entry.2 = [] := (counting.marked.take entry.2).seen unseen
      have unmarked : (mid.pns sp).ecnAckedMarked = 0 := by
        have none_fresh : fresh = ∅ := Finset.eq_empty_of_forall_notMem fun pn listed => by
          have came := named pn (live pn listed).1
          rw [nothing] at came
          cases came
        rw [none_fresh] at count_le
        simpa using count_le
      have passes : Conn.ecnOnAck mid sp entry.1 now = mid := by simp [Conn.ecnOnAck, plain, unmarked]
      rw [passes] at settled ⊢
      exact ⟨still_marking, settled.fade (fun _ _ alive => alive) (kept.ecn_eq sp)
        (kept.next_eq sp).ge⟩

end Counting

end EcnSpace

/-- Packets are marked, and the counts of every space that is in use are in order. -/
structure EcnHistory.Sound (w : EcnHistory) : Prop where
  marking : w.conn.ecnState ≠ .off
  counting : ∀ sp, w.conn.recov.discarded sp = false →
    (w.space sp).Counting w.conn.recov sp (w.conn.pns sp)

section Events

variable {c : QuicConn} {sp : QuicPns} {size : Nat} {eliciting inFlight : Bool} {now : Time}

theorem ledger_ecnSend : let after := ledger (ecnSend c sp size eliciting inFlight now).recov
    after = ledger c.recov ∨ after = (ledger c.recov).record sp
      ⟨(c.pns sp).next, size % 2 ^ 32, .live, eliciting, inFlight⟩ size := by
  have sent := quicRecovOnSent_ledger true c.recov sp (c.pns sp).next size eliciting inFlight now
  unfold ecnSend
  dsimp only
  split
  · rw [ledger_mark]
    exact sent.imp_right (·.2.2)
  · exact sent.imp_right (·.2.2)

theorem liveIn_ecnSend {other : QuicPns} {pn : Nat}
    (live : LiveIn (ecnSend c sp size eliciting inFlight now).recov other pn)
    (below : pn < (c.pns other).next) : LiveIn c.recov other pn := by
  rcases ledger_ecnSend with same | recorded
  · exact (liveIn_congr same).1 live
  · obtain ⟨p, listed, rfl, alive⟩ := live
    rw [recorded] at listed
    by_cases same : other = sp
    · subst same
      simp only [Ledger.record, update_self] at listed
      rcases mem_append.1 listed with old | new
      · exact ⟨p, old, rfl, alive⟩
      · rw [mem_singleton.1 new] at below
        exact absurd below (lt_irrefl _)
    · simp only [Ledger.record, update_of_ne same] at listed
      exact ⟨p, listed, rfl, alive⟩

theorem ecnKept_timeout (c : QuicConn) (now : Time) :
    let late := quicRecovOnTimeout Conn.quicRecovHandlers now
      (c.recov, { c.toQuicConnOwn with now := now })
    EcnKept c.toQuicConnOwn late.2 ∧ late.1.discarded = c.recov.discarded ∧
      ∀ sp pn, LiveIn late.1 sp pn → LiveIn c.recov sp pn := by
  intro late
  have moves := quicRecovOnTimeout_moves Conn.quicRecovHandlers now
    (c.recov, { c.toQuicConnOwn with now := now })
  have tally : EcnTally .app (fun _ => False) (c.recov, { c.toQuicConnOwn with now := now }) late :=
    ecnTally_settleMoves (quicRecovOnTimeout_settles _ now _)
  have waited : EcnKept c.toQuicConnOwn { c.toQuicConnOwn with now := now } :=
    ⟨rfl, fun _ => rfl, fun _ => rfl⟩
  exact ⟨waited.trans tally.kept, moves.discarded_eq, fun _ _ live => moves.live live⟩

theorem quicRecovDiscardSpace_discarded (r : QuicRecovery) (sp : QuicPns) (now : Time) :
    (quicRecovDiscardSpace r sp now).discarded = update r.discarded sp true := by
  unfold quicRecovDiscardSpace
  split
  · next gone =>
      rw [← gone]
      exact (update_eq_self sp _).symm
  · exact congrArg Ledger.discarded (ledger_recovSetTimer _ now)

theorem liveIn_quicRecovDiscardSpace {r : QuicRecovery} {sp other : QuicPns} {now : Time} {pn : Nat}
    (apart : other ≠ sp) (live : LiveIn (quicRecovDiscardSpace r sp now) other pn) :
    LiveIn r other pn := by
  obtain ⟨p, listed, pn_eq, alive⟩ := live
  rw [quicRecovDiscardSpace_pkts] at listed
  refine ⟨p, ?_, pn_eq, alive⟩
  split at listed
  · exact listed
  · rwa [update_of_ne apart] at listed

end Events

namespace EcnHistory

variable {w : EcnHistory} {sp : QuicPns}

theorem sound_start {c : QuicConn} (marking : c.ecnState ≠ .off)
    (unheard : ∀ sp, (c.pns sp).ecn = (0, 0, 0)) : (start c).Sound := by
  refine ⟨marking, fun sp _ => ?_⟩
  refine ⟨nofun, nofun, nofun, nofun, .nil, nofun, 0, le_rfl, unheard sp, nofun, ?_⟩
  intro index entry _ found
  cases found

theorem Sound.put (sound : w.Sound) {c : QuicConn} {h : EcnSpace} (marking : c.ecnState ≠ .off)
    (discarded_eq : c.recov.discarded = w.conn.recov.discarded)
    (here : w.conn.recov.discarded sp = false → h.Counting c.recov sp (c.pns sp))
    (fades : ∀ other pn, other ≠ sp → pn < (w.conn.pns other).next →
      LiveIn c.recov other pn → LiveIn w.conn.recov other pn)
    (kept : ∀ other, other ≠ sp → (c.pns other).ecn = (w.conn.pns other).ecn ∧
      (c.pns other).next = (w.conn.pns other).next) :
    (EcnHistory.mk c (update w.space sp h)).Sound := by
  refine ⟨marking, fun other open_space => ?_⟩
  have was_open : w.conn.recov.discarded other = false := discarded_eq ▸ open_space
  by_cases same : other = sp
  · subst same
    simpa using here was_open
  · have before := sound.counting other was_open
    simpa [same] using before.fade (fun pn below => fades other pn same below) (kept other same).1
      (kept other same).2.ge

/-- Packets stay marked whatever happens, if the frames are processed in order. -/
theorem Sound.step (sound : w.Sound) (op : QuicPns × EcnEvent) (honest : w.Honest op)
    (in_order : w.InOrder op) : (w.step op).Sound := by
  obtain ⟨sp, event⟩ := op
  -- Where the connection stays as it is, only the history of the space has to be looked at.
  have alone : ∀ {h : EcnSpace},
      (w.conn.recov.discarded sp = false → h.Counting w.conn.recov sp (w.conn.pns sp)) →
        (EcnHistory.mk w.conn (update w.space sp h)).Sound := fun here =>
    sound.put sound.marking rfl here (fun _ _ _ _ live => live) fun _ _ => ⟨rfl, rfl⟩
  cases event with
  | send =>
    have marked : decide (w.conn.ecnState ≠ .off) = true := decide_eq_true sound.marking
    dsimp only [EcnHistory.step]
    rw [marked]
    refine sound.put sound.marking (ledger_ecnSend.elim (congrArg Ledger.discarded)
      (congrArg Ledger.discarded)) (fun open_space => ?_)
      (fun other pn _ below live => liveIn_ecnSend live below) fun other apart => ?_
    · refine EcnSpace.Counting.send ?_ (by simp [ecnSend])
      exact (sound.counting sp open_space).fade (fun pn below live => liveIn_ecnSend live below)
        (by simp [ecnSend]) (by simp [ecnSend])
    · simp [ecnSend, apart]
  | arrive => exact alone fun open_space => (sound.counting sp open_space).arrive honest.2
  | write => exact alone fun open_space => (sound.counting sp open_space).write honest
  | ack index now =>
    dsimp only [EcnHistory.step]
    split
    · next entry open_space found =>
        obtain ⟨later, covered⟩ := in_order
        have counted := Conn.handleAck_counted w.conn sp entry.1 now open_space
        obtain ⟨marking, here⟩ := (sound.counting sp open_space).ack sound.marking found later
          (covered entry found) counted
        exact sound.put marking counted.discarded_eq (fun _ => here)
          (fun other pn _ _ => counted.fades other pn)
          fun other apart => ⟨counted.elsewhere other apart, counted.next_eq other⟩
    · exact sound
  | timeout now =>
    obtain ⟨kept, discarded_eq, fades⟩ := ecnKept_timeout w.conn now
    refine ⟨kept.state_eq.trans_ne sound.marking, fun other open_space => ?_⟩
    exact (sound.counting other (discarded_eq ▸ open_space)).fade (fun pn _ => fades other pn)
      (kept.ecn_eq other) (kept.next_eq other).ge
  | discard now =>
    change (EcnHistory.mk (Conn.spaceDiscard w.conn sp now) w.space).Sound
    unfold Conn.spaceDiscard
    split
    · exact sound
    · refine ⟨sound.marking, fun other open_space => ?_⟩
      dsimp only at open_space ⊢
      rw [quicRecovDiscardSpace_discarded] at open_space
      have apart : other ≠ sp := by
        rintro rfl
        simp at open_space
      rw [update_of_ne apart] at open_space ⊢
      exact (sound.counting other open_space).fade
        (fun pn _ live => liveIn_quicRecovDiscardSpace apart live) rfl le_rfl

end EcnHistory

/-- Over a path that carries marks, with an honest peer, packets stay marked as long as the frames
of each space are processed in the order they were written and leave nothing that had arrived
unacknowledged. -/
theorem ecn_survives (c : QuicConn) (events : List (QuicPns × EcnEvent))
    (marking : c.ecnState ≠ .off) (unheard : ∀ sp, (c.pns sp).ecn = (0, 0, 0))
    (honest : Admits EcnHistory.step EcnHistory.Honest (.start c) events)
    (in_order : Admits EcnHistory.step EcnHistory.InOrder (.start c) events) :
    (run EcnHistory.step (.start c) events).conn.ecnState ≠ .off := by
  have both := admits_and.2 ⟨honest, in_order⟩
  refine (admits_invariant EcnHistory.Sound (EcnHistory.sound_start marking unheard) ?_
    both).marking
  intro w op sound allowed
  exact sound.step op allowed.1 allowed.2

/-- Two packets go out and arrive, the second with a given mark, and the peer writes a frame after
each that acknowledges all that came. -/
def twoArrivals (mark : NetEcn) : List (QuicPns × EcnEvent) :=
  [(.app, .send 1200 true true 10), (.app, .send 1200 true true 20),
    (.app, .arrive 0 .ect0), (.app, .write ⟨0, 0, 0, 0, [], some (1, 0, 0)⟩),
    (.app, .arrive 1 mark),
    (.app, .write ⟨1, 0, 1, 0, [], some (ecnCounts [(0, .ect0), (1, mark)]).ecn⟩)]

/-- Processing both frames in order keeps packets marked; a router marked the second packet. -/
theorem ecn_survives_two :
    (run EcnHistory.step (.start (quicConnCreate (Scene.config quicTpDefaults)))
      (twoArrivals .ce ++ [(.app, .ack 0 30), (.app, .ack 1 40)])).conn.ecnState ≠ .off := by
  apply ecn_survives
  · decide
  · intro sp
    cases sp <;> rfl
  · decide +kernel
  · decide +kernel

/-- The frames change places on their way and marking stops, though every packet that was sent
arrived with its mark and the peer told the truth. -/
theorem ecn_stops_reordered :
    Admits EcnHistory.step EcnHistory.Honest (.start (quicConnCreate (Scene.config quicTpDefaults)))
        (twoArrivals .ect0 ++ [(.app, .ack 1 30), (.app, .ack 0 40)]) ∧
      (run EcnHistory.step (.start (quicConnCreate (Scene.config quicTpDefaults)))
        (twoArrivals .ect0 ++ [(.app, .ack 1 30)])).conn.ecnState = .on ∧
      (run EcnHistory.step (.start (quicConnCreate (Scene.config quicTpDefaults)))
        (twoArrivals .ect0 ++ [(.app, .ack 1 30), (.app, .ack 0 40)])).conn.ecnState = .off := by
  decide +kernel

end Cx.Quic
