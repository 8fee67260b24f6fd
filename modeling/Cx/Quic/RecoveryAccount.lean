import Cx.Library.Run
import Cx.Quic.Ledger

/-!
# Loss recovery's accounting is exact

The bytes in flight are the sizes of the live packets that count, and the ack-eliciting count of a
space that has not been given up is the number of its live ack-eliciting packets.  Subtractions wrap
as in the source, so the equality also says that none of them ever wrapped; the states that the
handlers observe in the middle of an operation are covered too.
-/

namespace Cx.Quic

open Library Function

/-- The bytes in flight according to the packets on record. -/
def liveTotal (pkts : QuicPns → List LedgerPkt) : Nat :=
  (QuicPns.all.map fun sp => liveBytes (pkts sp)).sum

variable (pkts : QuicPns → List LedgerPkt) (sp : QuicPns)

theorem liveTotal_eq : liveTotal pkts =
      liveBytes (pkts .initial) + liveBytes (pkts .handshake) + liveBytes (pkts .app) := by
  simp [liveTotal, QuicPns.all, Nat.add_assoc]

/-- Replacing one space's packets changes the total by the difference. -/
theorem liveTotal_update (replaced : List LedgerPkt) :
    liveTotal (update pkts sp replaced) + liveBytes (pkts sp) =
      liveTotal pkts + liveBytes replaced := by
  rw [liveTotal_eq, liveTotal_eq]
  cases sp <;> simp <;> omega

theorem liveBytes_le_liveTotal : liveBytes (pkts sp) ≤ liveTotal pkts := by
  rw [liveTotal_eq]
  cases sp <;> omega

structure Ledger.Balanced (l : Ledger) : Prop where
  inFlight_eq : l.inFlight = liveTotal l.pkts
  /-- The ack-eliciting count of an open space is the number of its live ones. -/
  elicit_eq : ∀ sp, l.discarded sp = false → l.elicit sp = liveEliciting (l.pkts sp)
  discarded_nil : ∀ sp, l.discarded sp = true → l.pkts sp = []

variable {l : Ledger} {sp : QuicPns} {p : LedgerPkt} {σ : Type*} {h : QuicRecovHandlers σ}
  {s : QuicRecovery × σ}

/-- Where only one space changes, the counts are looked at there. -/
theorem Ledger.Balanced.change {l' : Ledger} {replaced : List LedgerPkt} (balanced : l.Balanced)
    (pkts_eq : l'.pkts = update l.pkts sp replaced)
    (others : ∀ other ≠ sp, l'.elicit other = l.elicit other ∧
      l'.discarded other = l.discarded other)
    (bytes : l'.inFlight + liveBytes (l.pkts sp) = l.inFlight + liveBytes replaced)
    (counts : l'.discarded sp = false → l'.elicit sp = liveEliciting replaced)
    (nothing : l'.discarded sp = true → replaced = []) : l'.Balanced := by
  have total := liveTotal_update l.pkts sp replaced
  have before := balanced.inFlight_eq
  refine ⟨by rw [pkts_eq]; omega, fun other open_space => ?_, fun other given_up => ?_⟩
  · by_cases same : other = sp
    · subst same
      rw [counts open_space, pkts_eq, update_self]
    · rw [(others other same).2] at open_space
      rw [(others other same).1, pkts_eq, update_of_ne same, balanced.elicit_eq other open_space]
  · by_cases same : other = sp
    · subst same
      rw [pkts_eq, update_self, nothing given_up]
    · rw [(others other same).2] at given_up
      rw [pkts_eq, update_of_ne same, balanced.discarded_nil other given_up]

theorem Ledger.Balanced.settle {front back : List LedgerPkt} {fate : QuicFate}
    (balanced : l.Balanced) (recorded : l.pkts sp = front ++ p :: back) (live : p.fate = .live)
    (settled : fate ≠ .live) : (l.settle sp front back p fate).Balanced := by
  have part_le := liveBytes_le_liveTotal l.pkts sp
  rw [← balanced.inFlight_eq, recorded] at part_le
  refine balanced.change rfl (fun other apart => ⟨?_, rfl⟩) ?_ (fun open_space => ?_) fun gone => ?_
  · simp only [Ledger.settle]
    split_ifs
    exacts [update_of_ne apart .., rfl]
  · simp only [Ledger.settle, recorded, liveBytes_append, liveBytes_cons, live, settled, true_and,
      false_and, if_false] at part_le ⊢
    split_ifs at part_le ⊢
    · rw [uint64Sub, if_pos (by omega)]
      omega
    · omega
  · have elicit_eq := balanced.elicit_eq sp open_space
    simp only [recorded, liveEliciting_append, liveEliciting_cons, live, true_and] at elicit_eq
    simp only [Ledger.settle, liveEliciting_append, liveEliciting_cons, settled, false_and,
      if_false]
    by_cases eliciting : p.ackEliciting = true
    · rw [if_pos eliciting] at elicit_eq
      rw [if_pos ⟨eliciting, by omega⟩, update_self]
      omega
    · rw [if_neg eliciting] at elicit_eq
      rw [if_neg fun both => eliciting both.1]
      omega
  · simpa [recorded] using balanced.discarded_nil sp gone

theorem Ledger.Balanced.trim {rest : List LedgerPkt} (balanced : l.Balanced)
    (recorded : l.pkts sp = p :: rest) (settled : p.fate ≠ .live) :
    ({ l with pkts := update l.pkts sp rest } : Ledger).Balanced := by
  refine balanced.change rfl (fun _ _ => ⟨rfl, rfl⟩) ?_ (fun open_space => ?_) fun gone => ?_
  · simp [recorded, settled]
  · simpa [recorded, settled] using balanced.elicit_eq sp open_space
  · simpa [recorded] using balanced.discarded_nil sp gone

theorem Ledger.Balanced.record (balanced : l.Balanced) (open_space : l.discarded sp = false)
    (live : p.fate = .live) : (l.record sp p p.size).Balanced := by
  refine balanced.change rfl (fun other apart => ⟨?_, rfl⟩) ?_ (fun _ => ?_) fun gone => ?_
  · simp only [Ledger.record]
    split_ifs
    exacts [update_of_ne apart .., rfl]
  · simp only [Ledger.record, liveBytes_append, liveBytes_cons, liveBytes_nil, live, true_and]
    split_ifs <;> omega
  · have elicit_eq := balanced.elicit_eq sp open_space
    simp only [Ledger.record, liveEliciting_append, liveEliciting_cons, liveEliciting_nil, live,
      true_and]
    split_ifs
    · rw [update_self]
      omega
    · omega
  · exact absurd (open_space.symm.trans gone) Bool.false_ne_true

theorem balanced_discardSpace {r : QuicRecovery} (sp : QuicPns) (now : Time)
    (balanced : (ledger r).Balanced) : (ledger (quicRecovDiscardSpace r sp now)).Balanced := by
  by_cases given_up : r.discarded sp = true
  · unfold quicRecovDiscardSpace
    rwa [if_pos given_up]
  · have part_le := (liveBytes_le_liveTotal (ledger r).pkts sp).trans balanced.inFlight_eq.ge
    rw [quicRecovDiscardSpace_ledger now (Bool.not_eq_true _ ▸ given_up) part_le]
    refine balanced.change rfl
      (fun other apart => ⟨update_of_ne apart .., update_of_ne apart ..⟩) ?_ ?_ fun _ => rfl
    · simp only [liveBytes_nil]
      omega
    · intro still_open
      simp at still_open

theorem RecovMove.balanced {s' : QuicRecovery × σ} (move : RecovMove h s s')
    (balanced : (ledger s.1).Balanced) : (ledger s'.1).Balanced := by
  cases move with
  | still x same => rwa [same]
  | acked x sp front back p recorded live settled | lost x sp front back p recorded live settled =>
    rw [settled]
    exact balanced.settle recorded live (by decide)
  | trimmed x sp p rest recorded settled dropped =>
    rw [dropped]
    exact balanced.trim recorded settled

theorem RecovMoves.balanced {s' : QuicRecovery × σ} (moves : RecovMoves h s s')
    (balanced : (ledger s.1).Balanced) : (ledger s'.1).Balanced := by
  induction moves with
  | refl => exact balanced
  | tail _ move ih => exact move.balanced ih

inductive RecovOp where
  | sent (alloc : Bool) (sp : QuicPns) (pn size : Nat) (ackEliciting inFlight : Bool) (now : Time)
  | ack (sp : QuicPns) (f : QuicAck) (ackDelay now : Time)
  | timeout (now : Time)
  | discardSpace (sp : QuicPns) (now : Time)
  | discardEarly (pnEnd : Nat) (now : Time)
  | pathChange
  | confirmHandshake (now : Time)
  | setMaxDatagram (maxDatagram : Nat)
  | mark (sp : QuicPns) (pn : Nat) (ect0 pmtuProbe : Bool)
  | ecnCe (sp : QuicPns) (largestAcked : Nat) (now : Time)
  | probeSent (sp : QuicPns)
  | pacerRefill (now : Time)
  | setAppLimited (limited : Bool)
  | setMaxAckDelay (delay : Time)
  | spaceReady (sp : QuicPns)

def recovStep {σ : Type*} (h : QuicRecovHandlers σ) (s : QuicRecovery × σ) :
    RecovOp → QuicRecovery × σ
  | .sent alloc sp pn size ackEliciting inFlight now =>
    (quicRecovOnSent alloc s.1 sp pn size ackEliciting inFlight now, s.2)
  | .ack sp f ackDelay now => (quicRecovOnAck h sp f ackDelay now s).2
  | .timeout now => quicRecovOnTimeout h now s
  | .discardSpace sp now => (quicRecovDiscardSpace s.1 sp now, s.2)
  | .discardEarly pnEnd now => quicRecovDiscardEarly h pnEnd now s
  | .pathChange => (quicRecovOnPathChange s.1, s.2)
  | .confirmHandshake now => (quicRecovConfirmHandshake s.1 now, s.2)
  | .setMaxDatagram maxDatagram => (quicRecovSetMaxDatagram s.1 maxDatagram, s.2)
  | .mark sp pn ect0 pmtuProbe => (quicRecovMark s.1 sp pn ect0 pmtuProbe, s.2)
  | .ecnCe sp largestAcked now => (quicRecovOnEcnCe s.1 sp largestAcked now, s.2)
  | .probeSent sp => (quicRecovProbeSent s.1 sp, s.2)
  | .pacerRefill now => (quicRecovPacerRefill s.1 now, s.2)
  | .setAppLimited limited => (quicRecovSetAppLimited s.1 limited, s.2)
  | .setMaxAckDelay delay => (quicRecovSetMaxAckDelay s.1 delay, s.2)
  | .spaceReady sp => (quicRecovSpaceReady s.1 sp, s.2)

/-- An operation puts a packet on record, gives up a space, or is a sequence of moves. -/
theorem recovStep_cases (h : QuicRecovHandlers σ) (s : QuicRecovery × σ) (op : RecovOp) :
    (∃ alloc sp pn size ackEliciting inFlight now,
        op = .sent alloc sp pn size ackEliciting inFlight now ∧
        s.1.discarded sp = false ∧ Continues (s.1.sent sp) pn ∧ (recovStep h s op).2 = s.2 ∧
        ledger (recovStep h s op).1 =
          (ledger s.1).record sp ⟨pn, size % 2 ^ 32, .live, ackEliciting, inFlight⟩ size) ∨
      (∃ sp now, op = .discardSpace sp now) ∨ RecovMoves h s (recovStep h s op) := by
  cases op with
  | sent alloc sp pn size ackEliciting inFlight now =>
    rcases quicRecovOnSent_ledger alloc s.1 sp pn size ackEliciting inFlight now with
      same | ⟨open_space, continues, recorded⟩
    · exact .inr (.inr (RecovMoves.still same))
    · exact .inl ⟨alloc, sp, pn, size, ackEliciting, inFlight, now, rfl, open_space, continues,
        rfl, recorded⟩
  | discardSpace sp now => exact .inr (.inl ⟨sp, now, rfl⟩)
  | ack sp f ackDelay now => exact .inr (.inr (quicRecovOnAck_moves h sp f ackDelay now s))
  | timeout now => exact .inr (.inr (quicRecovOnTimeout_moves h now s))
  | discardEarly pnEnd now => exact .inr (.inr (quicRecovDiscardEarly_moves h pnEnd now s))
  | pathChange => exact .inr (.inr (RecovMoves.still (ledger_onPathChange _)))
  | confirmHandshake => exact .inr (.inr (RecovMoves.still (ledger_confirmHandshake _ _)))
  | setMaxDatagram =>
    exact .inr (.inr (RecovMoves.still (ledger_setMaxDatagram _ _)))
  | mark => exact .inr (.inr (RecovMoves.still (ledger_mark _ _ _ _ _)))
  | ecnCe => exact .inr (.inr (RecovMoves.still (ledger_onEcnCe _ _ _ _)))
  | probeSent => exact .inr (.inr (RecovMoves.still (ledger_probeSent _ _)))
  | pacerRefill => exact .inr (.inr (RecovMoves.still (ledger_pacerRefill _ _)))
  | setAppLimited | setMaxAckDelay | spaceReady => exact .inr (.inr (RecovMoves.still rfl))

/-- Bytes of the packets in a ring that are live and count against the window. -/
def ringLiveBytes (ring : QuicSentRing) : Nat :=
  ((ring.pkts.toList.filter fun p => p.fate = .live ∧ p.inFlight).map QuicSentPkt.size).sum

def ringLiveEliciting (ring : QuicSentRing) : Nat :=
  (ring.pkts.toList.filter fun p => p.fate = .live ∧ p.ackEliciting).length

theorem liveBytes_numbered (pn : Nat) (pkts : List QuicSentPkt) : liveBytes (numbered pn pkts) =
      ((pkts.filter fun p => p.fate = .live ∧ p.inFlight).map QuicSentPkt.size).sum := by
  induction pkts generalizing pn with
  | nil => rfl
  | cons p rest ih =>
    simp only [numbered, liveBytes_cons, ih, ledgerPkt, List.filter_cons, decide_eq_true_eq]
    split_ifs <;> simp

theorem liveEliciting_numbered (pn : Nat) (pkts : List QuicSentPkt) :
    liveEliciting (numbered pn pkts) =
      (pkts.filter fun p => p.fate = .live ∧ p.ackEliciting).length := by
  induction pkts generalizing pn with
  | nil => rfl
  | cons p rest ih =>
    simp only [numbered, liveEliciting_cons, ih, ledgerPkt, List.filter_cons, decide_eq_true_eq]
    split_ifs <;> simp [Nat.add_comm]

structure QuicRecovery.Exact (r : QuicRecovery) : Prop where
  /-- The bytes in flight are those of the live packets in the three rings. -/
  inFlight_eq : r.inFlight = (QuicPns.all.map fun sp => ringLiveBytes (r.sent sp)).sum
  /-- The ack-eliciting count of an open space is the number of its live ones. -/
  elicit_eq : ∀ sp, r.discarded sp = false → r.elicitInFlight sp = ringLiveEliciting (r.sent sp)
  /-- All live bytes of a space can be subtracted from what is in flight without wrapping. -/
  no_wrap : ∀ sp, ringLiveBytes (r.sent sp) ≤ r.inFlight

theorem exact_of_balanced {r : QuicRecovery} (balanced : (ledger r).Balanced) : r.Exact := by
  have bytes_eq : ∀ sp, liveBytes ((ledger r).pkts sp) = ringLiveBytes (r.sent sp) :=
    fun sp => liveBytes_numbered _ _
  have inFlight_eq : r.inFlight = liveTotal (ledger r).pkts := balanced.inFlight_eq
  refine ⟨?_, ?_, ?_⟩
  · rw [inFlight_eq, liveTotal]
    simp only [bytes_eq]
  · intro sp open_space
    have elicit_eq := balanced.elicit_eq sp open_space
    exact elicit_eq.trans (liveEliciting_numbered _ _)
  · intro sp
    rw [inFlight_eq, ← bytes_eq]
    exact liveBytes_le_liveTotal _ sp

def QuicRecovHandlers.observed {σ : Type*} (h : QuicRecovHandlers σ) :
    QuicRecovHandlers (σ × List QuicRecovery) where
  acked sp pn r x := (((h.acked sp pn r x.1).1, x.2 ++ [r]), (h.acked sp pn r x.1).2)
  lost sp pn r x := (h.lost sp pn r x.1, x.2 ++ [r])

/-- The size of a packet that goes out fits the 32-bit field it is kept in. -/
def RecovOp.SizeFits : RecovOp → Prop
  | .sent _ _ _ size _ _ _ => size < 2 ^ 32
  | _ => True

instance (op : RecovOp) : Decidable op.SizeFits := by
  cases op <;> unfold RecovOp.SizeFits <;> infer_instance

theorem balanced_init (server : Bool) (maxDatagram : Nat) :
    (ledger (quicRecovInit server maxDatagram)).Balanced := by
  have nothing : ∀ sp, (ledger (quicRecovInit server maxDatagram)).pkts sp = [] := fun _ => rfl
  refine ⟨?_, ?_, ?_⟩
  · rw [liveTotal_eq]
    simp only [nothing]
    rfl
  · intro sp _
    rw [nothing]
    rfl
  · intro sp _
    exact nothing sp

theorem balanced_recovStep (h : QuicRecovHandlers σ) {op : RecovOp} (fits : op.SizeFits)
    (balanced : (ledger s.1).Balanced) : (ledger (recovStep h s op).1).Balanced := by
  rcases recovStep_cases h s op with
    ⟨alloc, sp, pn, size, ackEliciting, inFlight, now, rfl, open_space, -, -, recorded⟩ |
      ⟨sp, now, rfl⟩ | moves
  · rw [recorded]
    have size_eq : size % 2 ^ 32 = size := Nat.mod_eq_of_lt fits
    rw [size_eq]
    exact balanced.record open_space rfl
  · exact balanced_discardSpace sp now balanced
  · exact moves.balanced balanced

/-- Everything the handlers were shown along some moves is exact. -/
theorem RecovMoves.observed_exact {s s' : QuicRecovery × σ × List QuicRecovery}
    (moves : RecovMoves h.observed s s') (balanced : (ledger s.1).Balanced)
    (before : ∀ r ∈ s.2.2, r.Exact) : ∀ r ∈ s'.2.2, r.Exact := by
  induction moves with
  | refl => exact before
  | @tail middle last walked move ih =>
    have middle_balanced := RecovMoves.balanced walked balanced
    have last_balanced := move.balanced middle_balanced
    cases move with
    | still | trimmed => exact ih
    | acked x sp front back p recorded live settled same =>
      exact List.forall_mem_append.2 ⟨ih,
        List.forall_mem_singleton.2 (exact_of_balanced (same ▸ last_balanced))⟩
    | lost =>
      exact List.forall_mem_append.2 ⟨ih,
        List.forall_mem_singleton.2 (exact_of_balanced last_balanced)⟩

theorem observed_recovStep {s : QuicRecovery × σ × List QuicRecovery} (op : RecovOp)
    (balanced : (ledger s.1).Balanced) (before : ∀ r ∈ s.2.2, r.Exact) :
    ∀ r ∈ (recovStep h.observed s op).2.2, r.Exact := by
  rcases recovStep_cases h.observed s op with
    ⟨alloc, sp, pn, size, ackEliciting, inFlight, now, rfl, -, -, same, -⟩ | ⟨sp, now, rfl⟩ | moves
  · rwa [same]
  · exact before
  · exact moves.observed_exact balanced before

/-- In every run the bytes in flight and the ack-eliciting counts agree with the rings, at the end
of every operation and whenever a handler runs in the middle of one. -/
theorem recovery_accounting_exact {σ : Type*} (h : QuicRecovHandlers σ) (server : Bool)
    (maxDatagram : Nat) (x : σ) (ops : List RecovOp) (fits : ∀ op ∈ ops, op.SizeFits) :
    (run (recovStep h.observed) (quicRecovInit server maxDatagram, (x, [])) ops).1.Exact ∧
      ∀ r ∈ (run (recovStep h.observed) (quicRecovInit server maxDatagram, (x, [])) ops).2.2,
        r.Exact := by
  have good := admits_invariant (fun s : QuicRecovery × σ × List QuicRecovery =>
      (ledger s.1).Balanced ∧ ∀ r ∈ s.2.2, r.Exact)
    ⟨balanced_init server maxDatagram, by simp⟩
    (fun s op good op_fits =>
      ⟨balanced_recovStep h.observed op_fits good.1, observed_recovStep op good.1 good.2⟩)
    (admits_of_forall fits (quicRecovInit server maxDatagram, (x, [])))
  exact ⟨exact_of_balanced good.1, good.2⟩

/-- Four packets, one of them lost to the threshold of an acknowledgement, another acknowledged by
a frame whose second range is malformed, and a space given up. -/
theorem recovery_accounting_exact_mixed :
    let h : QuicRecovHandlers Unit := ⟨fun _ _ _ x => (x, none), fun _ _ _ x => x⟩
    let sent := fun sp pn => RecovOp.sent true sp pn 1200 true true 1000
    let ops : List RecovOp :=
      [sent .initial 0, sent .app 0, sent .app 1, sent .app 2, sent .app 3, sent .app 4,
        .ack .app ⟨3, 0, 0, 0, [], none⟩ 0 51000, .ack .app ⟨4, 0, 0, 1, [9, 9], none⟩ 0 52000,
        .discardSpace .initial 60000]
    (∀ op ∈ ops, op.SizeFits) ∧
      (run (recovStep h.observed) (quicRecovInit false 1200, ((), [])) ops).1.inFlight = 2400 ∧
      (run (recovStep h.observed) (quicRecovInit false 1200, ((), [])) ops).1.Exact := by
  intro h sent ops
  exact ⟨by decide, by decide, (recovery_accounting_exact h false 1200 () ops (by decide)).1⟩

end Cx.Quic
