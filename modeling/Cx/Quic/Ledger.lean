import Mathlib.Logic.Relation
import Cx.Quic.Recovery

/-!
# The ledger behind loss recovery

A ledger is what loss recovery says about packets, without rings, timers or windows: for each space
the numbered packets still on record, the count of ack-eliciting ones in flight, and the bytes in
flight.  Recovery does nothing to the ledger of a live connection but settle the fate of one live
packet and report it, or drop a settled packet from the old end.
-/

namespace Cx.Quic

open Library List Function

structure LedgerPkt where
  pn : Nat
  size : Nat
  fate : QuicFate
  ackEliciting : Bool
  inFlight : Bool
deriving DecidableEq, Repr

structure Ledger where
  pkts : QuicPns → List LedgerPkt
  elicit : QuicPns → Nat
  inFlight : Nat
  discarded : QuicPns → Bool

def ledgerPkt (pn : Nat) (p : QuicSentPkt) : LedgerPkt :=
  ⟨pn, p.size, p.fate, p.ackEliciting, p.inFlight⟩

def numbered : Nat → List QuicSentPkt → List LedgerPkt
  | _, [] => []
  | pn, p :: rest => ledgerPkt pn p :: numbered (pn + 1) rest

def ringLedger (ring : QuicSentRing) : List LedgerPkt := numbered ring.basePn ring.pkts.toList

def ledger (r : QuicRecovery) : Ledger where
  pkts := fun sp => ringLedger (r.sent sp)
  elicit := r.elicitInFlight
  inFlight := r.inFlight
  discarded := r.discarded

theorem numbered_append (pn : Nat) (front back : List QuicSentPkt) :
    numbered pn (front ++ back) = numbered pn front ++ numbered (pn + front.length) back := by
  induction front generalizing pn with
  | nil => rfl
  | cons p front ih =>
    simp only [cons_append, numbered, ih, length_cons]
    rw [show pn + 1 + front.length = pn + (front.length + 1) by omega]

variable {pkts : List QuicSentPkt}

/-- The entries before and after the `index`-th one. -/
theorem numbered_split {pn index : Nat} {p : QuicSentPkt} (found : pkts[index]? = some p) :
    numbered pn pkts = numbered pn (pkts.take index) ++
      ledgerPkt (pn + index) p :: numbered (pn + index + 1) (pkts.drop (index + 1)) := by
  obtain ⟨inside, found_eq⟩ := List.getElem?_eq_some_iff.1 found
  have split_eq : pkts = pkts.take index ++ p :: pkts.drop (index + 1) := by
    rw [← found_eq, getElem_cons_drop, take_append_drop]
  conv_lhs => rw [split_eq]
  rw [numbered_append, numbered, length_take_of_le inside.le]

theorem numbered_set {pn index : Nat} {p : QuicSentPkt}
    (found : pkts[index]? = some p) (value : QuicSentPkt) :
    numbered pn (pkts.set index value) = numbered pn (pkts.take index) ++
      ledgerPkt (pn + index) value :: numbered (pn + index + 1) (pkts.drop (index + 1)) := by
  obtain ⟨inside, -⟩ := List.getElem?_eq_some_iff.1 found
  rw [set_eq_take_append_cons_drop, if_pos inside, numbered_append, numbered,
    length_take_of_le inside.le]

def Ledger.settle (l : Ledger) (sp : QuicPns) (front back : List LedgerPkt) (p : LedgerPkt)
    (fate : QuicFate) : Ledger :=
  { l with
    pkts := update l.pkts sp (front ++ { p with fate := fate } :: back)
    elicit :=
      if p.ackEliciting ∧ l.elicit sp > 0 then update l.elicit sp (l.elicit sp - 1)
      else l.elicit
    inFlight := if p.inFlight then uint64Sub l.inFlight p.size else l.inFlight }

inductive RecovMove {σ : Type*} (h : QuicRecovHandlers σ) :
    QuicRecovery × σ → QuicRecovery × σ → Prop
  | still {r r' : QuicRecovery} (x : σ) (same : ledger r' = ledger r) : RecovMove h (r, x) (r', x)
  | acked {r r' reported : QuicRecovery} (x : σ) (sp : QuicPns) (front back : List LedgerPkt)
      (p : LedgerPkt) (recorded : (ledger r).pkts sp = front ++ p :: back)
      (live : p.fate = .live)
      (settled : ledger r' = (ledger r).settle sp front back p .acked)
      (same : ledger reported = ledger r') :
      RecovMove h (r, x) (r', (h.acked sp p.pn reported x).1)
  | lost {r r' : QuicRecovery} (x : σ) (sp : QuicPns) (front back : List LedgerPkt)
      (p : LedgerPkt) (recorded : (ledger r).pkts sp = front ++ p :: back)
      (live : p.fate = .live)
      (settled : ledger r' = (ledger r).settle sp front back p .lost) :
      RecovMove h (r, x) (r', h.lost sp p.pn r' x)
  | trimmed {r r' : QuicRecovery} (x : σ) (sp : QuicPns) (p : LedgerPkt)
      (rest : List LedgerPkt) (recorded : (ledger r).pkts sp = p :: rest)
      (settled : p.fate ≠ .live)
      (dropped : ledger r' = { ledger r with pkts := update (ledger r).pkts sp rest }) :
      RecovMove h (r, x) (r', x)

abbrev RecovMoves {σ : Type*} (h : QuicRecovHandlers σ) :
    QuicRecovery × σ → QuicRecovery × σ → Prop :=
  Relation.ReflTransGen (RecovMove h)

theorem RecovMoves.still {σ : Type*} {h : QuicRecovHandlers σ} {r r' : QuicRecovery} {x : σ}
    (same : ledger r' = ledger r) : RecovMoves h (r, x) (r', x) :=
  Relation.ReflTransGen.single (.still x same)

inductive SettleMove {σ : Type*} (h : QuicRecovHandlers σ) (allowed : QuicPns → Nat → Prop) :
    QuicRecovery × σ → QuicRecovery × σ → Prop
  | still {r r' : QuicRecovery} (x : σ) (same : ledger r' = ledger r) :
      SettleMove h allowed (r, x) (r', x)
  | acked {r r' reported : QuicRecovery} (x : σ) (sp : QuicPns) (front back : List LedgerPkt)
      (p : LedgerPkt) (recorded : (ledger r).pkts sp = front ++ p :: back)
      (live : p.fate = .live) (within : allowed sp p.pn)
      (settled : ledger r' = (ledger r).settle sp front back p .acked)
      (same : ledger reported = ledger r') :
      SettleMove h allowed (r, x) (r', (h.acked sp p.pn reported x).1)
  | lost {r r' : QuicRecovery} (x : σ) (sp : QuicPns) (front back : List LedgerPkt)
      (p : LedgerPkt) (recorded : (ledger r).pkts sp = front ++ p :: back)
      (live : p.fate = .live)
      (settled : ledger r' = (ledger r).settle sp front back p .lost) :
      SettleMove h allowed (r, x) (r', h.lost sp p.pn r' x)
  | trimmed {r r' : QuicRecovery} (x : σ) (sp : QuicPns) (p : LedgerPkt)
      (rest : List LedgerPkt) (recorded : (ledger r).pkts sp = p :: rest)
      (settled : p.fate ≠ .live)
      (dropped : ledger r' = { ledger r with pkts := update (ledger r).pkts sp rest }) :
      SettleMove h allowed (r, x) (r', x)

abbrev SettleMoves {σ : Type*} (h : QuicRecovHandlers σ) (allowed : QuicPns → Nat → Prop) :
    QuicRecovery × σ → QuicRecovery × σ → Prop :=
  Relation.ReflTransGen (SettleMove h allowed)

section Settle

variable {σ : Type*} {h : QuicRecovHandlers σ} {allowed allowed' : QuicPns → Nat → Prop}
  {s s' : QuicRecovery × σ}

theorem SettleMoves.still {r r' : QuicRecovery} {x : σ} (same : ledger r' = ledger r) :
    SettleMoves h allowed (r, x) (r', x) :=
  Relation.ReflTransGen.single (.still x same)

theorem SettleMoves.mono (moves : SettleMoves h allowed s s')
    (wider : ∀ sp pn, allowed sp pn → allowed' sp pn) : SettleMoves h allowed' s s' := by
  refine Relation.ReflTransGen.mono (fun _ _ move => ?_) _ _ moves
  cases move with
  | still x same => exact .still x same
  | acked x sp front back p recorded live within settled same =>
    exact .acked x sp front back p recorded live (wider sp p.pn within) settled same
  | lost x sp front back p recorded live settled =>
    exact .lost x sp front back p recorded live settled
  | trimmed x sp p rest recorded settled dropped =>
    exact .trimmed x sp p rest recorded settled dropped

theorem SettleMoves.recovMoves (moves : SettleMoves h allowed s s') : RecovMoves h s s' := by
  refine Relation.ReflTransGen.mono (fun _ _ move => ?_) _ _ moves
  cases move with
  | still x same => exact .still x same
  | acked x sp front back p recorded live within settled same =>
    exact .acked x sp front back p recorded live settled same
  | lost x sp front back p recorded live settled =>
    exact .lost x sp front back p recorded live settled
  | trimmed x sp p rest recorded settled dropped =>
    exact .trimmed x sp p rest recorded settled dropped

end Settle

variable (r : QuicRecovery)

@[simp] theorem ledger_recovSetTimer (now : Time) : ledger (recovSetTimer r now) = ledger r := by
  unfold recovSetTimer
  simp only
  split_ifs <;> rfl

@[simp] theorem ledger_setMaxDatagram (maxDatagram : Nat) :
    ledger (quicRecovSetMaxDatagram r maxDatagram) = ledger r := by
  unfold quicRecovSetMaxDatagram
  split_ifs <;> rfl

@[simp] theorem ledger_ccOnCongestion (sentTime now : Time) :
    ledger (ccOnCongestion r sentTime now) = ledger r := by
  unfold ccOnCongestion
  split_ifs <;> rfl

@[simp] theorem ledger_ccOnAcked (p : QuicSentPkt) : ledger (ccOnAcked r p) = ledger r := by
  unfold ccOnAcked
  split_ifs <;> rfl

@[simp] theorem ledger_rttUpdate (latest ackDelay now : Time) :
    ledger (rttUpdate r latest ackDelay now) = ledger r := by
  unfold rttUpdate
  simp only
  split_ifs <;> rfl

@[simp] theorem ledger_detectLossCongestion (sp : QuicPns) (largestLost : Option Time)
    (now : Time) : ledger (detectLossCongestion r sp largestLost now) = ledger r := by
  unfold detectLossCongestion
  cases largestLost with
  | none => rfl
  | some sentTime =>
    simp only
    split_ifs
    · exact ledger_ccOnCongestion r sentTime now
    · exact ledger_ccOnCongestion r sentTime now

variable {ring : QuicSentRing} {index : Nat} {p : QuicSentPkt} {r : QuicRecovery} {sp : QuicPns}

theorem ringLedger_split (found : ring.pkts.get? index = some p) :
    ringLedger ring = numbered ring.basePn (ring.pkts.toList.take index) ++
      ledgerPkt (ring.basePn + index) p ::
        numbered (ring.basePn + index + 1) (ring.pkts.toList.drop (index + 1)) :=
  numbered_split ((RingBuffer.getElem?_toList _ _).trans found)

theorem ringLedger_set (found : ring.pkts.get? index = some p) (value : QuicSentPkt) :
    ringLedger { ring with pkts := ring.pkts.set index value } =
      numbered ring.basePn (ring.pkts.toList.take index) ++
        ledgerPkt (ring.basePn + index) value ::
          numbered (ring.basePn + index + 1) (ring.pkts.toList.drop (index + 1)) := by
  rw [ringLedger, RingBuffer.toList_set value (RingBuffer.lt_of_get? found)]
  exact numbered_set ((RingBuffer.getElem?_toList _ _).trans found) value

/-- Two states that differ in one ring only differ in one list of the ledger. -/
theorem ledger_updateSent (r : QuicRecovery) (sp : QuicPns) (ring : QuicSentRing) :
    ledger { r with sent := update r.sent sp ring } =
      { ledger r with pkts := update (ledger r).pkts sp (ringLedger ring) } := by
  simp only [ledger, Ledger.mk.injEq, and_self, and_true]
  funext other
  by_cases same : other = sp
  · subst same
    simp
  · simp [same]

theorem ledger_update_self :
    { ledger r with pkts := update (ledger r).pkts sp (ringLedger (r.sent sp)) } = ledger r :=
  congrArg (fun pkts => { ledger r with pkts := pkts }) (update_eq_self sp _)

/-- Changing what the ledger does not see leaves it alone. -/
theorem ledger_sentSet_same {value : QuicSentPkt} (found : (r.sent sp).pkts.get? index = some p)
    (same : ∀ pn, ledgerPkt pn value = ledgerPkt pn p) :
    ledger (sentSet r sp index value) = ledger r := by
  rw [sentSet, ledger_updateSent, ringLedger_set found, same, ← ringLedger_split found,
    ledger_update_self]

/-- Recording a live packet's fate and taking it out of the counts settles it in the ledger. -/
theorem ledger_settle {value : QuicSentPkt} {fate : QuicFate}
    (found : (r.sent sp).pkts.get? index = some p)
    (value_eq : ∀ pn, ledgerPkt pn value = { ledgerPkt pn p with fate := fate }) :
    ledger (sentUncount (sentSet r sp index value) sp p) =
      (ledger r).settle sp (numbered (r.sent sp).basePn ((r.sent sp).pkts.toList.take index))
        (numbered ((r.sent sp).basePn + index + 1) ((r.sent sp).pkts.toList.drop (index + 1)))
        (ledgerPkt ((r.sent sp).basePn + index) p) fate := by
  have pkts_eq : (ledger (sentSet r sp index value)).pkts = _ :=
    congrArg Ledger.pkts (ledger_updateSent r sp _)
  rw [ringLedger_set found, value_eq] at pkts_eq
  calc ledger (sentUncount (sentSet r sp index value) sp p)
      = { ledger (sentUncount (sentSet r sp index value) sp p) with
          pkts := (ledger (sentSet r sp index value)).pkts } := rfl
    _ = _ := by
          rw [pkts_eq]
          rfl

variable {σ : Type*} (h : QuicRecovHandlers σ) {allowed : QuicPns → Nat → Prop}

theorem SettleMove.lostAt {r' : QuicRecovery} (x : σ) (found : (r.sent sp).pkts.get? index = some p)
    (live : p.fate = .live)
    (settled : ledger r' =
      ledger (sentUncount (sentSet r sp index { p with fate := .lost }) sp p)) :
    SettleMove h allowed (r, x) (notifyLost h sp ((r.sent sp).basePn + index) (r', x)) :=
  .lost x sp _ _ _ (ringLedger_split found) live
    (settled.trans (ledger_settle found fun _ => rfl))

theorem SettleMove.ackedAt (x : σ) (found : (r.sent sp).pkts.get? index = some p)
    (live : p.fate = .live) (within : allowed sp ((r.sent sp).basePn + index)) :
    SettleMove h allowed (r, x) (notifyAcked h sp ((r.sent sp).basePn + index)
      (sentUncount (sentSet r sp index { p with fate := .acked, fresh := true }) sp p, x)) := by
  have settled : ledger (sentUncount (sentSet r sp index
      { p with fate := .acked, fresh := true }) sp p) = (ledger r).settle sp _ _ _ .acked :=
    ledger_settle found fun _ => rfl
  generalize sentUncount (sentSet r sp index { p with fate := .acked, fresh := true }) sp p =
    reported at settled ⊢
  have reported_eq : ∀ r', ledger r' = ledger reported →
      SettleMove h allowed (r, x) (r', (h.acked sp ((r.sent sp).basePn + index) reported x).1) :=
    fun r' same =>
      .acked x sp _ _ _ (ringLedger_split found) live within (same.trans settled) same.symm
  unfold notifyAcked
  rcases answer : h.acked sp ((r.sent sp).basePn + index) reported x with ⟨x', size⟩
  cases size with
  | none => simpa [answer] using reported_eq reported rfl
  | some maxDatagram =>
    simpa [answer] using reported_eq _ (ledger_setMaxDatagram reported maxDatagram)

theorem detectLossLoop_moves (sp : QuicPns) (largest : Nat) (delay lostBefore : Time)
    (fuel index : Nat) (s : QuicRecovery × σ) (largestLost : Option Time) :
    SettleMoves h allowed s
      (detectLossLoop h sp largest delay lostBefore fuel index s largestLost).1 := by
  fun_induction detectLossLoop h sp largest delay lostBefore fuel index s largestLost with
  | case1 | case2 | case3 => exact .refl
  | case4 fuel index s largestLost pn p found below settled ih => exact ih
  | case5 fuel index s largestLost pn p found below live waits t r ih =>
    refine .trans (SettleMoves.still ?_) ih
    dsimp only [r]
    split <;> rfl
  | case6 fuel index s largestLost pn p found below live late r₁ r₂ r₃ last ih =>
    refine .head ?_ ih
    exact SettleMove.lostAt h s.2 found (not_not.1 live) rfl

theorem detectLoss_moves (sp : QuicPns) (now : Time) (s : QuicRecovery × σ) :
    SettleMoves h allowed s (detectLoss h sp now s) := by
  have reset : SettleMoves h allowed s
      ({ s.1 with lossTime := update s.1.lossTime sp 0 }, s.2) := SettleMoves.still rfl
  refine reset.trans ?_
  unfold detectLoss
  simp only
  split
  · exact .refl
  · exact (detectLossLoop_moves h sp _ _ _ _ 0 _ none).trans
      (SettleMoves.still (ledger_detectLossCongestion _ _ _ _))

theorem discardEarlyLoop_moves (pnEnd fuel index : Nat) (s : QuicRecovery × σ) :
    SettleMoves h allowed s (discardEarlyLoop h pnEnd fuel index s) := by
  fun_induction discardEarlyLoop h pnEnd fuel index s with
  | case1 | case2 | case3 => exact .refl
  | case4 fuel index s pn p found below settled ih => exact ih
  | case5 fuel index s pn p found below live r₁ r₂ ih =>
    exact .head (SettleMove.lostAt h s.2 found (not_not.1 live) rfl) ih

variable (front back : List LedgerPkt) (pnEnd : Nat) (alloc : Bool) (now : Time)
  (s : QuicRecovery × σ)

theorem quicRecovDiscardEarly_moves : RecovMoves h s (quicRecovDiscardEarly h pnEnd now s) := by
  refine SettleMoves.recovMoves (?_ : SettleMoves h (fun _ _ => False) s _)
  exact (discardEarlyLoop_moves h pnEnd _ 0 s).trans
    (SettleMoves.still (ledger_recovSetTimer _ _))

theorem onAckPackets_moves (sp : QuicPns) (largest count pn : Nat) (progress : QuicAckProgress σ)
    (within : ∀ other, pn ≤ other → other < pn + count → allowed sp other) :
    SettleMoves h allowed progress.s (onAckPackets h sp largest count pn progress).s := by
  have rest {count pn : Nat} (within : ∀ other, pn ≤ other → other < pn + (count + 1) →
      allowed sp other) : ∀ other, pn + 1 ≤ other → other < pn + 1 + count → allowed sp other :=
    fun other above below => within other (by omega) (by omega)
  fun_induction onAckPackets h sp largest count pn progress with
  | case1 => exact .refl
  | case2 count pn progress r none ih => exact ih (rest within)
  | case3 count pn progress r p found settled ih => exact ih (rest within)
  | case4 count pn progress r p found live r₁ r₂ ih =>
    unfold ringAt at found
    split_ifs at found with outside
    have pn_eq : (r.sent sp).basePn + (pn - (r.sent sp).basePn) = pn := by omega
    have move := SettleMove.ackedAt h progress.s.2 found (not_not.1 live)
      (pn_eq.symm ▸ within pn le_rfl (by omega))
    rw [pn_eq] at move
    exact .head move (ih (rest within))

theorem onAckRange_moves (sp : QuicPns) (largest : Nat) (rg : QuicAckRange)
    (progress : QuicAckProgress σ)
    (within : ∀ pn, rg.smallest ≤ pn → pn ≤ rg.largest → allowed sp pn) :
    SettleMoves h allowed progress.s (onAckRange h sp largest rg progress).s := by
  unfold onAckRange
  simp only
  split
  · exact .refl
  · refine onAckPackets_moves h sp largest _ _ progress fun pn above below => within pn ?_ ?_
    · split_ifs at above <;> omega
    · split_ifs at above below <;> omega

theorem onAckRanges_moves (sp : QuicPns) (largest fuel : Nat) (it : QuicAckIter)
    (progress : QuicAckProgress σ) (within : ∀ pn, allowed sp pn) :
    SettleMoves h allowed progress.s (onAckRanges h sp largest fuel it progress).2.s := by
  fun_induction onAckRanges h sp largest fuel it progress with
  | case1 | case2 => exact .refl
  | case3 fuel it progress rg next read ih =>
    exact (onAckRange_moves h sp largest rg progress fun pn _ _ => within pn).trans ih

theorem ledger_onAckFresh (sp : QuicPns) (fuel index : Nat) (r : QuicRecovery) :
    ledger (onAckFresh sp fuel index r) = ledger r := by
  fun_induction onAckFresh sp fuel index r with
  | case1 | case2 => rfl
  | case3 fuel index r p found stale ih => exact ih
  | case4 fuel index r p found fresh r₁ ih =>
    have same : ledger r₁ = ledger r := ledger_sentSet_same found fun _ => rfl
    rw [ih]
    split_ifs
    · rw [ledger_ccOnAcked, same]
    · exact same

theorem ringLedger_pop (oldest : ring.pkts.get? 0 = some p) :
    ringLedger ring = ledgerPkt ring.basePn p :: ringLedger ⟨ring.pkts.pop, ring.basePn + 1⟩ := by
  have split_eq := ringLedger_split oldest
  rw [split_eq, ringLedger, RingBuffer.toList_pop, drop_one]
  rfl

theorem ringTrimLoop_moves (cutoff : Time) (sp : QuicPns) (x : σ) (fuel : Nat) (r : QuicRecovery)
    (ring : QuicSentRing) : SettleMoves h allowed ({ r with sent := update r.sent sp ring }, x)
      ({ r with sent := update r.sent sp (ringTrimLoop cutoff fuel ring) }, x) := by
  fun_induction ringTrimLoop cutoff fuel ring with
  | case1 | case2 | case4 => exact .refl
  | case3 fuel ring p oldest settled ih =>
    refine .head (.trimmed x sp (ledgerPkt ring.basePn p)
      (ringLedger ⟨ring.pkts.pop, ring.basePn + 1⟩) ?_ settled.1 ?_) ih
    · rw [ledger_updateSent, ← ringLedger_pop oldest]
      exact update_self sp _ _
    · rw [ledger_updateSent, ledger_updateSent]
      simp

theorem ringLedger_ringTrim (ring : QuicSentRing) (cutoff : Time) :
    ringLedger (ringTrim ring cutoff) =
      ringLedger (ringTrimLoop cutoff ring.pkts.count ring) := by
  unfold ringTrim
  simp only
  split_ifs with emptied
  · simp [ringLedger, RingBuffer.toList, emptied]
  · rfl

theorem recovTrim_moves (r : QuicRecovery) (x : σ) (sp : QuicPns) (now : Time) :
    SettleMoves h allowed (r, x) (recovTrim r sp now, x) := by
  have walk : SettleMoves h allowed _ _ :=
    ringTrimLoop_moves h (retainCutoff r now) sp x (r.sent sp).pkts.count r (r.sent sp)
  rw [update_eq_self] at walk
  refine walk.trans (SettleMoves.still ?_)
  rw [recovTrim, ledger_updateSent, ledger_updateSent, ringLedger_ringTrim]

@[simp] theorem ledger_onAckSample (r : QuicRecovery) (sp : QuicPns) (sample : Option Time)
    (ackDelay now : Time) : ledger (onAckSample r sp sample ackDelay now) = ledger r := by
  unfold onAckSample
  cases sample with
  | none =>
    simp only
    split <;> rfl
  | some =>
    simp only
    split
    · exact ledger_rttUpdate _ _ _ _
    · exact ledger_rttUpdate _ _ _ _

@[simp] theorem ledger_onAckTimer (r : QuicRecovery) (now : Time) :
    ledger (onAckTimer r now) = ledger r := by
  unfold onAckTimer
  rw [ledger_recovSetTimer]
  split <;> rfl

@[simp] theorem ledger_onAckLargest (r : QuicRecovery) (sp : QuicPns) (largest : Nat) :
    ledger (onAckLargest r sp largest) = ledger r := by
  unfold onAckLargest
  split
  · rfl
  · split <;> rfl

theorem onAckFinish_moves (sp : QuicPns) (sample : Option Time) (ackDelay now : Time)
    (s : QuicRecovery × σ) : SettleMoves h allowed s (onAckFinish h sp sample ackDelay now s) := by
  have sampled : SettleMoves h allowed s (onAckSample s.1 sp sample ackDelay now, s.2) :=
    SettleMoves.still (ledger_onAckSample _ _ _ _ _)
  have detected := sampled.trans (detectLoss_moves h sp now _)
  unfold onAckFinish
  generalize detectLoss h sp now (onAckSample s.1 sp sample ackDelay now, s.2) = after
    at detected ⊢
  have fresh : SettleMoves h allowed s
      (onAckFresh sp (after.1.sent sp).pkts.count 0 after.1, after.2) :=
    detected.trans (SettleMoves.still (ledger_onAckFresh sp _ 0 _))
  have trimmed := fresh.trans (recovTrim_moves h _ _ sp now)
  exact trimmed.trans (SettleMoves.still (ledger_onAckTimer _ now))

/-- Processing an acknowledgement settles what walking its ranges does, whether they are sound or
not. -/
theorem quicRecovOnAck_settles_of (sp : QuicPns) (f : QuicAck) (ackDelay now : Time)
    (s : QuicRecovery × σ) (walked : ∀ it progress, quicAckIterInit f = some it →
      SettleMoves h allowed progress.s
        (onAckRanges h sp f.largest (f.rangeData.length + 2) it progress).2.s) :
    SettleMoves h allowed s (quicRecovOnAck h sp f ackDelay now s).2 := by
  have start : SettleMoves h allowed s (onAckLargest s.1 sp f.largest, s.2) :=
    SettleMoves.still (ledger_onAckLargest _ _ _)
  unfold quicRecovOnAck
  split
  · exact .refl
  simp only
  split
  · exact start
  · next it init_eq =>
    have walk := start.trans (walked it ⟨(onAckLargest s.1 sp f.largest, s.2), false, none⟩ init_eq)
    split
    · exact walk
    split
    · exact walk.trans (SettleMoves.still (ledger_recovSetTimer _ _))
    · exact walk.trans (onAckFinish_moves h sp _ ackDelay now _)

theorem quicRecovOnAck_moves (sp : QuicPns) (f : QuicAck) (ackDelay now : Time)
    (s : QuicRecovery × σ) : RecovMoves h s (quicRecovOnAck h sp f ackDelay now s).2 :=
  SettleMoves.recovMoves (quicRecovOnAck_settles_of h sp f ackDelay now s fun it progress _ =>
    onAckRanges_moves h sp f.largest _ it progress fun _ => trivial :
      SettleMoves h (fun _ _ => True) s _)

/-- Running the timer acknowledges nothing. -/
theorem quicRecovOnTimeout_settles : SettleMoves h allowed s (quicRecovOnTimeout h now s) := by
  unfold quicRecovOnTimeout
  simp only
  split
  · split
    · refine .trans ?_ (SettleMoves.still (ledger_recovSetTimer _ _))
      exact (detectLoss_moves h _ now s).trans (recovTrim_moves h _ _ _ now)
    · exact SettleMoves.still (ledger_recovSetTimer _ _)
  split
  · exact .refl
  · refine SettleMoves.still ?_
    rw [ledger_recovSetTimer]
    rfl

theorem quicRecovOnTimeout_moves : RecovMoves h s (quicRecovOnTimeout h now s) :=
  SettleMoves.recovMoves (quicRecovOnTimeout_settles h now s : SettleMoves h (fun _ _ => False) s _)

section

variable (r : QuicRecovery)

@[simp] theorem ledger_confirmHandshake (now : Time) :
    ledger (quicRecovConfirmHandshake r now) = ledger r :=
  ledger_recovSetTimer _ _

@[simp] theorem ledger_onPathChange : ledger (quicRecovOnPathChange r) = ledger r := rfl

@[simp] theorem ledger_onEcnCe (sp : QuicPns) (largestAcked : Nat) (now : Time) :
    ledger (quicRecovOnEcnCe r sp largestAcked now) = ledger r := by
  unfold quicRecovOnEcnCe
  split <;> exact ledger_ccOnCongestion _ _ _

@[simp] theorem ledger_mark (sp : QuicPns) (pn : Nat) (ect0 pmtuProbe : Bool) :
    ledger (quicRecovMark r sp pn ect0 pmtuProbe) = ledger r := by
  unfold quicRecovMark
  split
  · rfl
  · next p found =>
      unfold ringAt at found
      split_ifs at found
      exact ledger_sentSet_same found fun _ => rfl

@[simp] theorem ledger_probeSent (sp : QuicPns) : ledger (quicRecovProbeSent r sp) = ledger r := by
  unfold quicRecovProbeSent
  split <;> rfl

@[simp] theorem ledger_pacerRefill (now : Time) :
    ledger (quicRecovPacerRefill r now) = ledger r := by
  unfold quicRecovPacerRefill
  split
  · rfl
  split <;> rfl

end

def Ledger.record (l : Ledger) (sp : QuicPns) (p : LedgerPkt) (size : Nat) : Ledger :=
  { l with
    pkts := update l.pkts sp (l.pkts sp ++ [p])
    elicit := if p.ackEliciting then update l.elicit sp (l.elicit sp + 1) else l.elicit
    inFlight := if p.inFlight then l.inFlight + size else l.inFlight }

theorem pn_of_mem_numbered {pn : Nat} {p : LedgerPkt}
    (p_mem : p ∈ numbered pn pkts) : pn ≤ p.pn ∧ p.pn < pn + pkts.length := by
  induction pkts generalizing pn with
  | nil => simp [numbered] at p_mem
  | cons head rest ih =>
    rcases mem_cons.1 p_mem with rfl | later
    · simp [ledgerPkt]
    · have := ih later
      simp only [length_cons]
      omega

theorem pairwise_numbered (pn : Nat) (pkts : List QuicSentPkt) :
    (numbered pn pkts).Pairwise fun earlier later => earlier.pn < later.pn := by
  induction pkts generalizing pn with
  | nil => exact .nil
  | cons p rest ih =>
    refine .cons ?_ (ih (pn + 1))
    intro later later_mem
    exact (pn_of_mem_numbered later_mem).1

/-- A packet continues a ring when the ring is empty or its number is the next one. -/
def Continues (ring : QuicSentRing) (pn : Nat) : Prop :=
  ring.pkts.count = 0 ∨ pn = ring.basePn + ring.pkts.count

/-- A successful push adds one entry, and the packet continued the ring; a failed one adds none. -/
theorem ringPush_ledger (ring : QuicSentRing) (pn : Nat) (pkt : QuicSentPkt) :
    ((ringPush alloc ring pn pkt).1 = true ∧ Continues ring pn ∧
        ringLedger (ringPush alloc ring pn pkt).2 = ringLedger ring ++ [ledgerPkt pn pkt]) ∨
      ((ringPush alloc ring pn pkt).1 = false ∧
        ringLedger (ringPush alloc ring pn pkt).2 = ringLedger ring) := by
  unfold ringPush
  split_ifs with misplaced emptied
  · exact .inr ⟨rfl, rfl⟩
  · have no_pkts : ring.pkts.toList = [] := eq_nil_of_length_eq_zero (by simpa using emptied)
    simp only
    split
    · exact .inr ⟨rfl, by simp [ringLedger, no_pkts, numbered]⟩
    · next pkts pkts_eq =>
        refine .inl ⟨rfl, .inl emptied, ?_⟩
        simp [ringLedger, RingBuffer.toList_push pkts_eq, no_pkts, numbered]
  · have pn_eq : pn = ring.basePn + ring.pkts.count := by
      by_contra differs
      exact misplaced ⟨emptied, differs⟩
    simp only
    split
    · exact .inr ⟨rfl, rfl⟩
    · next pkts pkts_eq =>
        refine .inl ⟨rfl, .inr pn_eq, ?_⟩
        rw [ringLedger, RingBuffer.toList_push pkts_eq, numbered_append,
          RingBuffer.length_toList, pn_eq]
        rfl

theorem ledger_sentCount (r : QuicRecovery) (sp : QuicPns) (ring : QuicSentRing) (pn size : Nat)
    (ackEliciting inFlight : Bool) (now : Time)
    (added : ringLedger ring = ringLedger (r.sent sp) ++
      [ledgerPkt pn (sentPkt size ackEliciting inFlight now)]) :
    ledger (sentCount { r with sent := update r.sent sp ring } sp size ackEliciting
        inFlight now) =
      (ledger r).record sp ⟨pn, size % 2 ^ 32, .live, ackEliciting, inFlight⟩ size := by
  have pkts_eq : (ledger (sentCount { r with sent := update r.sent sp ring } sp size
      ackEliciting inFlight now)).pkts = update (ledger r).pkts sp ((ledger r).pkts sp ++
        [⟨pn, size % 2 ^ 32, .live, ackEliciting, inFlight⟩]) := by
    have updated := congrArg Ledger.pkts (ledger_updateSent r sp ring)
    rw [added] at updated
    exact updated
  calc ledger (sentCount { r with sent := update r.sent sp ring } sp size ackEliciting
          inFlight now)
      = { (ledger r).record sp ⟨pn, size % 2 ^ 32, .live, ackEliciting, inFlight⟩ size with
          pkts := (ledger (sentCount { r with sent := update r.sent sp ring } sp size
            ackEliciting inFlight now)).pkts } := rfl
    _ = _ := by
          rw [pkts_eq]
          rfl

/-- Sending leaves the ledger alone, or the packet continues its ring and is put on record. -/
theorem quicRecovOnSent_ledger (r : QuicRecovery) (sp : QuicPns) (pn size : Nat)
    (ackEliciting inFlight : Bool) (now : Time) :
    ledger (quicRecovOnSent alloc r sp pn size ackEliciting inFlight now) = ledger r ∨
      (r.discarded sp = false ∧ Continues (r.sent sp) pn ∧
        ledger (quicRecovOnSent alloc r sp pn size ackEliciting inFlight now) =
          (ledger r).record sp ⟨pn, size % 2 ^ 32, .live, ackEliciting, inFlight⟩ size) := by
  unfold quicRecovOnSent
  split
  · exact .inl rfl
  next open_space =>
  simp only
  rcases ringPush_ledger alloc (r.sent sp) pn (sentPkt size ackEliciting inFlight now) with
    ⟨flag, continues, added⟩ | ⟨flag, same⟩
  · refine .inr ⟨by simpa using open_space, continues, ?_⟩
    have counted := ledger_sentCount r sp _ pn size ackEliciting inFlight now added
    rw [flag]
    simp only [Bool.not_true, Bool.false_eq_true, if_false]
    split
    · rw [ledger_recovSetTimer, counted]
    · exact counted
  · left
    rw [flag]
    simp only [Bool.not_false, if_true]
    rw [ledger_updateSent, same, ledger_update_self]

def liveBytes (pkts : List LedgerPkt) : Nat :=
  (pkts.map fun p => if p.fate = .live ∧ p.inFlight then p.size else 0).sum

def liveEliciting (pkts : List LedgerPkt) : Nat :=
  (pkts.map fun p => if p.fate = .live ∧ p.ackEliciting then 1 else 0).sum

@[simp] theorem liveBytes_nil : liveBytes [] = 0 := rfl

@[simp] theorem liveBytes_cons (p : LedgerPkt) (rest : List LedgerPkt) : liveBytes (p :: rest) =
      (if p.fate = .live ∧ p.inFlight then p.size else 0) + liveBytes rest := rfl

@[simp] theorem liveBytes_append :
    liveBytes (front ++ back) = liveBytes front + liveBytes back := by
  simp [liveBytes]

@[simp] theorem liveEliciting_nil : liveEliciting [] = 0 := rfl

@[simp] theorem liveEliciting_cons (p : LedgerPkt) (rest : List LedgerPkt) :
    liveEliciting (p :: rest) =
      (if p.fate = .live ∧ p.ackEliciting then 1 else 0) + liveEliciting rest := rfl

@[simp] theorem liveEliciting_append :
    liveEliciting (front ++ back) = liveEliciting front + liveEliciting back := by
  simp [liveEliciting]

/-- Subtracting the live packets of a ring one by one subtracts their total, if there is as much. -/
theorem discardUncount_eq {inFlight pn : Nat} (enough : liveBytes (numbered pn pkts) ≤ inFlight) :
    discardUncount inFlight pkts = inFlight - liveBytes (numbered pn pkts) := by
  induction pkts generalizing inFlight pn with
  | nil => rfl
  | cons p rest ih =>
    simp only [numbered, liveBytes_cons, ledgerPkt] at enough ⊢
    rw [discardUncount]
    split_ifs at enough ⊢ with counted
    · rw [uint64Sub, if_pos (by omega), ih (by omega : liveBytes (numbered (pn + 1) rest) ≤ _)]
      omega
    · rw [ih (by omega : liveBytes (numbered (pn + 1) rest) ≤ _)]
      omega

/-- Giving up a space clears its entries and leaves those of the others. -/
theorem quicRecovDiscardSpace_pkts (r : QuicRecovery) (sp : QuicPns) (now : Time) :
    (ledger (quicRecovDiscardSpace r sp now)).pkts =
      if r.discarded sp then (ledger r).pkts else update (ledger r).pkts sp [] := by
  unfold quicRecovDiscardSpace
  split
  · rfl
  · rw [ledger_recovSetTimer]
    exact congrArg Ledger.pkts (ledger_updateSent r sp QuicSentRing.init)

/-- Giving up a space clears its entries and takes what was live out of the bytes in flight. -/
theorem quicRecovDiscardSpace_ledger (open_space : r.discarded sp = false)
    (enough : liveBytes ((ledger r).pkts sp) ≤ r.inFlight) :
    ledger (quicRecovDiscardSpace r sp now) =
      { pkts := update (ledger r).pkts sp []
        elicit := update (ledger r).elicit sp 0
        inFlight := (ledger r).inFlight - liveBytes ((ledger r).pkts sp)
        discarded := update (ledger r).discarded sp true } := by
  have cleared := quicRecovDiscardSpace_pkts r sp now
  have uncounted : discardUncount r.inFlight (r.sent sp).pkts.toList =
      r.inFlight - liveBytes ((ledger r).pkts sp) := discardUncount_eq enough
  simp only [quicRecovDiscardSpace, open_space, Bool.false_eq_true, if_false,
    ledger_recovSetTimer] at cleared ⊢
  rw [← cleared]
  simp only [ledger] at uncounted ⊢
  rw [uncounted]

end Cx.Quic
