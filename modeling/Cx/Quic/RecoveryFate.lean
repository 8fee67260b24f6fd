import Cx.Quic.RecoveryAccount

/-!
# Each packet's fate is reported at most once

A trace of loss recovery keeps every report the handlers received, the packet numbers that were
passed on as sent, and the next number each space will use.  Numbers are handed out in order and
none is skipped.  A number that was reported is below the next one and not live on record, so a
report always concerns a number that was not reported before.
-/

namespace Cx.Quic

open Library List Function

structure QuicReport where
  sp : QuicPns
  pn : Nat
  acked : Bool
deriving DecidableEq, Repr

def QuicReport.key (report : QuicReport) : QuicPns × Nat := (report.sp, report.pn)

def QuicRecovHandlers.logged {σ : Type*} (h : QuicRecovHandlers σ) :
    QuicRecovHandlers (σ × List QuicReport) where
  acked sp pn r x := (((h.acked sp pn r x.1).1, x.2 ++ [⟨sp, pn, true⟩]), (h.acked sp pn r x.1).2)
  lost sp pn r x := (h.lost sp pn r x.1, x.2 ++ [⟨sp, pn, false⟩])

structure RecovTrace (σ : Type*) where
  s : QuicRecovery × σ × List QuicReport
  next : QuicPns → Nat
  passed : List (QuicPns × Nat)

def RecovTrace.reports {σ : Type*} (t : RecovTrace σ) : List QuicReport := t.s.2.2

def RecovTrace.start {σ : Type*} (server : Bool) (maxDatagram : Nat) (x : σ)
    (first : QuicPns → Nat) : RecovTrace σ :=
  ⟨(quicRecovInit server maxDatagram, (x, [])), first, []⟩

def RecovTrace.step {σ : Type*} (h : QuicRecovHandlers σ) (t : RecovTrace σ) (op : RecovOp) :
    RecovTrace σ :=
  let s := recovStep h.logged t.s op
  match op with
  | .sent _ sp pn _ _ _ _ => ⟨s, update t.next sp (pn + 1), t.passed ++ [(sp, pn)]⟩
  | _ => { t with s := s }

def RecovTrace.Consecutive {σ : Type*} (t : RecovTrace σ) : RecovOp → Prop
  | .sent _ sp pn _ _ _ _ => pn = t.next sp
  | _ => True

instance {σ : Type*} (t : RecovTrace σ) (op : RecovOp) : Decidable (t.Consecutive op) := by
  apply @RecovOp.casesOn (fun op => Decidable (t.Consecutive op)) op <;> intros
  all_goals first | exact instDecidableTrue | exact instDecidableEqNat _ _

/-- What holds between the reports, the ledger and the packet numbers used so far. -/
structure ReportsFit (pkts : QuicPns → List LedgerPkt) (next : QuicPns → Nat)
    (passed : List (QuicPns × Nat)) (reports : List QuicReport) : Prop where
  below : ∀ sp, ∀ p ∈ pkts sp, p.pn < next sp ∧ (sp, p.pn) ∈ passed
  settled : ∀ report ∈ reports, report.pn < next report.sp ∧ report.key ∈ passed ∧
    ∀ p ∈ pkts report.sp, p.pn = report.pn → p.fate ≠ .live
  nodup : (reports.map QuicReport.key).Nodup

theorem ledger_ordered (r : QuicRecovery) (sp : QuicPns) :
    ((ledger r).pkts sp).Pairwise fun earlier later => earlier.pn < later.pn :=
  pairwise_numbered _ _

/-- In a list in increasing order, the entries around one have other numbers. -/
theorem pn_ne_of_ordered {front back : List LedgerPkt} {p q : LedgerPkt}
    (ordered : (front ++ p :: back).Pairwise fun earlier later => earlier.pn < later.pn)
    (q_mem : q ∈ front ∨ q ∈ back) : q.pn ≠ p.pn := by
  obtain ⟨-, tail, across⟩ := pairwise_append.1 ordered
  rcases q_mem with in_front | in_back
  · exact (across q in_front p mem_cons_self).ne
  · exact (rel_of_pairwise_cons tail in_back).ne'

variable {pkts : QuicPns → List LedgerPkt} {next : QuicPns → Nat} {passed : List (QuicPns × Nat)}
  {reports : List QuicReport} {σ : Type*} {h : QuicRecovHandlers σ}

/-- Settling a live packet adds one report, of a packet that had none. -/
theorem ReportsFit.settle {sp : QuicPns} {front back : List LedgerPkt} {p : LedgerPkt}
    {fate : QuicFate} (acked : Bool) (fit : ReportsFit pkts next passed reports)
    (recorded : pkts sp = front ++ p :: back)
    (ordered : (pkts sp).Pairwise fun earlier later => earlier.pn < later.pn)
    (live : p.fate = .live) (ended : fate ≠ .live) :
    ReportsFit (update pkts sp (front ++ { p with fate := fate } :: back)) next passed
      (reports ++ [⟨sp, p.pn, acked⟩]) := by
  have p_mem : p ∈ pkts sp := by simp [recorded]
  rw [recorded] at ordered
  have unreported : (sp, p.pn) ∉ reports.map QuicReport.key := by
    intro reported
    obtain ⟨report, report_mem, key_eq⟩ := mem_map.1 reported
    obtain ⟨sp_eq, pn_eq⟩ := Prod.mk.inj key_eq
    subst sp_eq
    exact (fit.settled report report_mem).2.2 p p_mem pn_eq.symm live
  have known : ∀ other, ∀ q ∈ update pkts sp (front ++ { p with fate := fate } :: back) other,
      (q ∈ pkts other ∧ (other = sp → q.pn ≠ p.pn)) ∨
        (other = sp ∧ q = { p with fate := fate }) := by
    intro other q q_mem
    by_cases same : other = sp
    · subst same
      rw [update_self] at q_mem
      rcases mem_append.1 q_mem with in_front | in_rest
      · exact .inl ⟨by simp [recorded, in_front], fun _ => pn_ne_of_ordered ordered (.inl in_front)⟩
      · rcases mem_cons.1 in_rest with rfl | in_back
        · exact .inr ⟨rfl, rfl⟩
        · exact .inl ⟨by simp [recorded, in_back], fun _ => pn_ne_of_ordered ordered (.inr in_back)⟩
    · rw [update_of_ne same] at q_mem
      exact .inl ⟨q_mem, fun equal => absurd equal same⟩
  refine ⟨?_, ?_, ?_⟩
  · intro other q q_mem
    rcases known other q q_mem with ⟨old, -⟩ | ⟨rfl, rfl⟩
    · exact fit.below other q old
    · exact fit.below other p p_mem
  · intro report report_mem
    rcases mem_append.1 report_mem with old | fresh
    · obtain ⟨pn_lt, sent, not_live⟩ := fit.settled report old
      refine ⟨pn_lt, sent, ?_⟩
      intro q q_mem pn_eq
      rcases known report.sp q q_mem with ⟨q_old, -⟩ | ⟨-, rfl⟩
      · exact not_live q q_old pn_eq
      · exact ended
    · obtain rfl := mem_singleton.1 fresh
      refine ⟨(fit.below sp p p_mem).1, (fit.below sp p p_mem).2, ?_⟩
      intro q q_mem pn_eq
      rcases known sp q q_mem with ⟨-, differs⟩ | ⟨-, rfl⟩
      · exact absurd pn_eq (differs rfl)
      · exact ended
  · rw [map_append, nodup_append]
    refine ⟨fit.nodup, nodup_singleton _, ?_⟩
    rintro key key_mem other other_mem rfl
    rw [map_singleton, mem_singleton] at other_mem
    have key_eq : key = (sp, p.pn) := other_mem
    exact unreported (key_eq ▸ key_mem)

/-- Fewer packets on record keep the reports fitting. -/
theorem ReportsFit.shrink {pkts' : QuicPns → List LedgerPkt}
    (fit : ReportsFit pkts next passed reports) (subset : ∀ sp, ∀ p ∈ pkts' sp, p ∈ pkts sp) :
    ReportsFit pkts' next passed reports := by
  refine ⟨fun sp p p_mem => fit.below sp p (subset sp p p_mem), ?_, fit.nodup⟩
  intro report report_mem
  obtain ⟨pn_lt, sent, not_live⟩ := fit.settled report report_mem
  exact ⟨pn_lt, sent, fun p p_mem => not_live p (subset _ p p_mem)⟩

/-- Using up the next packet number keeps the reports fitting. -/
theorem ReportsFit.advance (sp : QuicPns) (fit : ReportsFit pkts next passed reports) :
    ReportsFit pkts (update next sp (next sp + 1)) (passed ++ [(sp, next sp)])
      reports := by
  have next_le : ∀ other, next other ≤ update next sp (next sp + 1) other := by
    intro other
    by_cases same : other = sp
    · subst same
      simp
    · simp [same]
  refine ⟨?_, ?_, fit.nodup⟩
  · intro other p p_mem
    obtain ⟨pn_lt, sent⟩ := fit.below other p p_mem
    exact ⟨pn_lt.trans_le (next_le other), mem_append_left _ sent⟩
  · intro report report_mem
    obtain ⟨pn_lt, sent, not_live⟩ := fit.settled report report_mem
    exact ⟨pn_lt.trans_le (next_le _), mem_append_left _ sent, not_live⟩

/-- Putting the packet with the next number on record keeps the reports fitting. -/
theorem ReportsFit.record (sp : QuicPns) (p : LedgerPkt)
    (fit : ReportsFit pkts next passed reports) (pn_eq : p.pn = next sp) :
    ReportsFit (update pkts sp (pkts sp ++ [p]))
      (update next sp (next sp + 1)) (passed ++ [(sp, next sp)]) reports := by
  have advanced := fit.advance sp
  have known : ∀ other, ∀ q ∈ update pkts sp (pkts sp ++ [p]) other,
      q ∈ pkts other ∨ (other = sp ∧ q = p) := by
    intro other q q_mem
    by_cases same : other = sp
    · subst same
      simpa using q_mem
    · rw [update_of_ne same] at q_mem
      exact .inl q_mem
  refine ⟨?_, ?_, fit.nodup⟩
  · intro other q q_mem
    rcases known other q q_mem with old | ⟨rfl, rfl⟩
    · exact advanced.below other q old
    · simp [pn_eq]
  · intro report report_mem
    obtain ⟨pn_lt, sent, not_live⟩ := advanced.settled report report_mem
    refine ⟨pn_lt, sent, ?_⟩
    intro q q_mem same_pn
    rcases known report.sp q q_mem with old | ⟨sp_eq, rfl⟩
    · exact not_live q old same_pn
    · have reported_lt := (fit.settled report report_mem).1
      rw [sp_eq] at reported_lt
      omega

def RecovTrace.Fits {σ : Type*} (t : RecovTrace σ) : Prop :=
  ReportsFit (ledger t.s.1).pkts t.next t.passed t.reports

theorem RecovMove.reportsFit {s s' : QuicRecovery × σ × List QuicReport}
    (move : RecovMove h.logged s s') (fit : ReportsFit (ledger s.1).pkts next passed s.2.2) :
    ReportsFit (ledger s'.1).pkts next passed s'.2.2 := by
  cases move with
  | still x same => rwa [same]
  | acked x sp front back p recorded live settled =>
    rw [settled]
    exact fit.settle true recorded (ledger_ordered _ sp) live (by decide)
  | lost x sp front back p recorded live settled =>
    rw [settled]
    exact fit.settle false recorded (ledger_ordered _ sp) live (by decide)
  | trimmed x sp p rest recorded settled dropped =>
    rw [dropped]
    refine fit.shrink fun other q q_mem => ?_
    by_cases same : other = sp
    · subst same
      simp only [update_self] at q_mem
      exact recorded ▸ mem_cons_of_mem p q_mem
    · simpa [same] using q_mem

theorem RecovMoves.reportsFit {s s' : QuicRecovery × σ × List QuicReport}
    (moves : RecovMoves h.logged s s') (fit : ReportsFit (ledger s.1).pkts next passed s.2.2) :
    ReportsFit (ledger s'.1).pkts next passed s'.2.2 := by
  induction moves with
  | refl => exact fit
  | tail _ move ih => exact move.reportsFit ih

theorem RecovTrace.fits_step {t : RecovTrace σ} {op : RecovOp} (consecutive : t.Consecutive op)
    (fit : t.Fits) : (t.step h op).Fits := by
  rcases recovStep_cases h.logged t.s op with
    ⟨alloc, sp, pn, size, ackEliciting, inFlight, now, rfl, -, -, same, recorded⟩ |
      ⟨sp, now, rfl⟩ | moves
  · have pn_eq : pn = t.next sp := consecutive
    subst pn_eq
    have fit' := ReportsFit.record sp
      ⟨t.next sp, size % 2 ^ 32, .live, ackEliciting, inFlight⟩ fit rfl
    simp only [RecovTrace.Fits, RecovTrace.step, RecovTrace.reports, recorded, same]
    exact fit'
  · have cleared := quicRecovDiscardSpace_pkts t.s.1 sp now
    simp only [RecovTrace.Fits, RecovTrace.step, RecovTrace.reports, recovStep]
    rw [cleared]
    refine ReportsFit.shrink fit fun other q q_mem => ?_
    split at q_mem
    · exact q_mem
    · by_cases same : other = sp
      · subst same
        simp at q_mem
      · simpa [same] using q_mem
  · have fit' := moves.reportsFit fit
    cases op with
    | sent alloc sp pn =>
      have pn_eq : pn = t.next sp := consecutive
      subst pn_eq
      exact fit'.advance sp
    | _ => exact fit'

theorem RecovTrace.fits_start (server : Bool) (maxDatagram : Nat) (x : σ) (first : QuicPns → Nat) :
    (RecovTrace.start server maxDatagram x first).Fits := by
  refine ⟨?_, ?_, nodup_nil⟩
  · intro sp p p_mem
    have nothing : (ledger (quicRecovInit server maxDatagram)).pkts sp = [] := rfl
    simp only [RecovTrace.start, nothing, not_mem_nil] at p_mem
  · intro report report_mem
    simp [RecovTrace.start, RecovTrace.reports] at report_mem

/-- Along every run that numbers its packets consecutively, each packet's fate is reported at most
once and only for packets that were sent; what was reported lost is never reported acknowledged
later. -/
theorem packet_fate_reported_once {σ : Type*} (h : QuicRecovHandlers σ) (server : Bool)
    (maxDatagram : Nat) (x : σ) (first : QuicPns → Nat) (ops : List RecovOp)
    (consecutive : Admits (RecovTrace.step h) RecovTrace.Consecutive
      (RecovTrace.start server maxDatagram x first) ops) :
    let t := run (RecovTrace.step h) (RecovTrace.start server maxDatagram x first) ops
    (∀ sp pn, (t.reports.map QuicReport.key).count (sp, pn) ≤ 1) ∧
      (∀ report ∈ t.reports, report.key ∈ t.passed) ∧
      ∀ (sp : QuicPns) (pn earlier later : Nat), earlier < later →
        t.reports[earlier]? = some ⟨sp, pn, false⟩ →
          t.reports[later]? ≠ some ⟨sp, pn, true⟩ := by
  intro t
  have fits : t.Fits := admits_invariant RecovTrace.Fits
    (RecovTrace.fits_start server maxDatagram x first)
    (fun t op fit allowed => RecovTrace.fits_step allowed fit) consecutive
  refine ⟨?_, ?_, ?_⟩
  · intro sp pn
    exact nodup_iff_count_le_one.1 fits.nodup (sp, pn)
  · intro report report_mem
    exact (fits.settled report report_mem).2.1
  · intro sp pn earlier later before lost acked
    have earlier_key : (t.reports.map QuicReport.key)[earlier]? = some (sp, pn) := by
      simp [lost, QuicReport.key]
    have later_key : (t.reports.map QuicReport.key)[later]? = some (sp, pn) := by
      simp [acked, QuicReport.key]
    obtain ⟨earlier_lt, -⟩ := List.getElem?_eq_some_iff.1 earlier_key
    have same := (List.getElem?_inj earlier_lt fits.nodup).1 (earlier_key.trans later_key.symm)
    omega

/-- A packet is lost to the packet threshold and then acknowledged late, twice; only its loss is
reported. -/
theorem packet_fate_reported_once_late_ack :
    let h : QuicRecovHandlers Unit := ⟨fun _ _ _ x => (x, none), fun _ _ _ x => x⟩
    let sent := fun pn => RecovOp.sent true .app pn 1200 true true 1000
    let ops : List RecovOp :=
      [sent 0, sent 1, sent 2, sent 3, .ack .app ⟨3, 0, 0, 0, [], none⟩ 0 51000,
        .ack .app ⟨3, 0, 3, 0, [], none⟩ 0 52000, .ack .app ⟨3, 0, 3, 0, [], none⟩ 0 53000]
    let start := RecovTrace.start false 1200 () fun _ => 0
    (run (RecovTrace.step h) start ops).reports =
        [⟨.app, 3, true⟩, ⟨.app, 0, false⟩, ⟨.app, 1, true⟩, ⟨.app, 2, true⟩] ∧
      ∀ sp pn, ((run (RecovTrace.step h) start ops).reports.map QuicReport.key).count (sp, pn) ≤
        1 :=
    by
  intro h sent ops start
  exact ⟨by decide, (packet_fate_reported_once h false 1200 () (fun _ => 0) ops (by decide)).1⟩

end Cx.Quic
