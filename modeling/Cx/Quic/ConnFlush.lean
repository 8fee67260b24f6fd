import Cx.Quic.ConnWrite

/-!
# What a flush does

A datagram is planned first and sent second.  Planning keeps what the headers are made of, so what
was measured is what is written, no header fails, and a datagram is exactly as long as planned.  A
flush is therefore a sequence of `SendMove`s, and none of it is lost halfway.
-/

namespace Cx.Quic

open Relation List Function

namespace Conn

structure SameHeaders (c c' : QuicConnOwn) : Prop where
  keyPhase_eq : c'.keyPhase = c.keyPhase
  dcid_eq : remoteCid c' = remoteCid c
  scid_eq : (c'.local.getD 0 QuicLocalCid.zero).cid = (c.local.getD 0 QuicLocalCid.zero).cid
  token_eq : c'.token = c.token
  next_eq : ∀ sp, (c'.pns sp).next = (c.pns sp).next

section SameHeaders

variable {c c' c'' : QuicConnOwn}

theorem SameHeaders.refl (c : QuicConnOwn) : SameHeaders c c := ⟨rfl, rfl, rfl, rfl, fun _ => rfl⟩

theorem SameHeaders.trans (first : SameHeaders c c') (second : SameHeaders c' c'') :
    SameHeaders c c'' :=
  ⟨second.keyPhase_eq.trans first.keyPhase_eq, second.dcid_eq.trans first.dcid_eq,
    second.scid_eq.trans first.scid_eq, second.token_eq.trans first.token_eq,
    fun sp => (second.next_eq sp).trans (first.next_eq sp)⟩

theorem SameHeaders.buildHdr_eq (same : SameHeaders c c') (sp : QuicPns) (early : Bool)
    (pnLen len : Nat) : buildHdr c' sp early pnLen len = buildHdr c sp early pnLen len := by
  simp only [buildHdr, same.keyPhase_eq, same.dcid_eq, same.scid_eq, same.token_eq]

theorem sameHeaders_setSpace (c : QuicConnOwn) (sp : QuicPns) {s : QuicPnSpace}
    (next_eq : s.next = (c.pns sp).next) : SameHeaders c (setSpace c sp s) := by
  refine ⟨rfl, rfl, rfl, rfl, fun other => ?_⟩
  by_cases here : other = sp
  · subst here
    simp [setSpace, next_eq]
  · simp [setSpace, update_of_ne here]

theorem scid_putAnnounces (cids : List QuicLocalCid) (fill : QuicFill) (pn : Nat) :
    ((putAnnounces cids fill pn).1.getD 0 QuicLocalCid.zero).cid =
      (cids.getD 0 QuicLocalCid.zero).cid := by
  cases cids with
  | nil => rfl
  | cons =>
    rw [putAnnounces, putQueue]
    split
    · rfl
    · split <;> rfl

theorem sameHeaders_buildPayload (c : QuicConnOwn) (sp : QuicPns) (early : Bool) (budget pn : Nat)
    (probe blocked : Bool) (now : Time) :
    SameHeaders c (buildPayload c sp early budget pn probe blocked now).1 := by
  have acked (own : QuicConnOwn) (fill : QuicFill) :
      SameHeaders own (putSpaceAck own sp fill pn now).1 := sameHeaders_setSpace own sp rfl
  have crypto (own : QuicConnOwn) (fill : QuicFill) :
      SameHeaders own (putCrypto own sp fill pn).1 := sameHeaders_setSpace own sp rfl
  have dgram (own : QuicConnOwn) (fill : QuicFill) : SameHeaders own (putDatagram own fill).1 := by
    fun_cases putDatagram own fill with
    | case1 | case2 => exact .refl own
    | case3 => exact ⟨rfl, rfl, rfl, rfl, fun _ => rfl⟩
  have streams (own : QuicConnOwn) (fill : QuicFill) :
      SameHeaders own (putStreams own fill budget pn).1 := by
    fun_cases putStreams own fill budget pn with
    | case1 => exact ⟨rfl, rfl, rfl, rfl, fun _ => rfl⟩
    | case2 => exact .refl own
  refine buildPayload_induction c sp early budget pn probe blocked now
    (fun own _ => SameHeaders c own) (.refl c) ?_ ?_ ?_ ?_ ?_ ?_ ?_
  · exact fun _ _ same => same
  · exact fun own fill same => same.trans (acked own fill)
  · exact fun own fill same => same.trans (crypto own fill)
  · exact fun own _ _ same => same.trans ⟨rfl, rfl, scid_putAnnounces own.local _ pn, rfl, fun _ => rfl⟩
  · exact fun own fill _ same => same.trans (dgram own fill)
  · exact fun own fill _ same => same.trans (streams own fill)
  · exact fun _ _ same => same

end SameHeaders

/-! ### Planning a datagram -/

def planSize (c : QuicConnOwn) (plan : QuicPns → Option QuicPlan) (sp : QuicPns) : Nat :=
  (plan sp).elim 0 fun p =>
    quicHdrSize (buildHdr c sp p.early p.pnLen 0) + p.payload.length + QUIC_TAG_LEN

/-- A datagram is being planned, within a limit.  The frames are those of the packet of the last
space, if it has one. -/
structure Planned (c : QuicConnOwn) (cap : Nat) (frames : List QuicFrame) (f : FlushPlan) :
    Prop where
  headers : SameHeaders c f.own
  written : Written (c.pns .app).next frames c f.own
  used_eq : f.used = (QuicPns.all.map (planSize c f.plan)).sum
  used_le : f.used ≤ cap
  measured : ∀ sp p, f.plan sp = some p → quicHdrSize (buildHdr c sp p.early p.pnLen 0) ≠ 0
  app : ∀ p, f.plan .app = some p → p.frames = frames
  silent : f.plan .app = none → frames = []
  others : ∀ sp p, f.plan sp = some p → sp ≠ .app → ∀ frame ∈ p.frames, frame.Plain

variable {c : QuicConnOwn} {cap : Nat} {frames : List QuicFrame} {f : FlushPlan}

theorem sum_planSize_update (c : QuicConnOwn) (plan : QuicPns → Option QuicPlan) (sp : QuicPns)
    (p : QuicPlan) :
    (QuicPns.all.map (planSize c (update plan sp (some p)))).sum + planSize c plan sp =
      (QuicPns.all.map (planSize c plan)).sum +
        (quicHdrSize (buildHdr c sp p.early p.pnLen 0) + p.payload.length + QUIC_TAG_LEN) := by
  cases sp <;> simp [QuicPns.all, planSize, update] <;> omega

theorem Planned.nothing (planned : Planned c cap [] f) {own : QuicConnOwn}
    (headers : SameHeaders f.own own) (view_eq : own.view = f.own.view) :
    Planned c cap [] { f with own := own } :=
  { planned with
    headers := planned.headers.trans headers
    written := planned.written.congr view_eq }

variable {plan : QuicPns → Option QuicPlan} {sp : QuicPns} {p : QuicPlan}

theorem plan_update {other : QuicPns} {q : QuicPlan}
    (planned : update plan sp (some p) other = some q) :
    (other = sp ∧ q = p) ∨ (other ≠ sp ∧ plan other = some q) := by
  by_cases here : other = sp
  · subst here
    rw [update_self, Option.some.injEq] at planned
    exact .inl ⟨rfl, planned.symm⟩
  · rw [update_of_ne here] at planned
    exact .inr ⟨here, planned⟩

theorem Planned.packet (planned : Planned c cap [] f) (fresh : f.plan sp = none) {own : QuicConnOwn}
    {fill : QuicFill} {budget : Nat}
    (filling : Filling sp budget (f.own.pns sp).next f.own own fill)
    (headers : SameHeaders f.own own) (p : QuicPlan) (scratch : Nat)
    (measured : quicHdrSize (buildHdr f.own sp p.early p.pnLen 0) ≠ 0)
    (frames_eq : p.frames = fill.frames)
    (fits : f.used +
      (quicHdrSize (buildHdr f.own sp p.early p.pnLen 0) + p.payload.length + QUIC_TAG_LEN) ≤ cap) :
    Planned c cap (if sp = .app then fill.frames else [])
      { own := own
        plan := update f.plan sp (some p)
        used := f.used + (quicHdrSize (buildHdr f.own sp p.early p.pnLen 0) + p.payload.length +
          QUIC_TAG_LEN)
        scratchUsed := scratch } := by
  have view_eq := planned.written.view_eq
  have size_eq := sum_planSize_update c f.plan sp p
  have none_size : planSize c f.plan sp = 0 := by simp [planSize, fresh]
  rw [planned.headers.buildHdr_eq] at measured fits
  refine ⟨planned.headers.trans headers, ?_, ?_, ?_, ?_, ?_, ?_, ?_⟩
  · split
    · next app =>
        subst app
        rw [← planned.headers.next_eq]
        exact filling.written.congr_start view_eq
    · next handshake =>
        exact planned.written.congr (filling.others handshake).1
  · have := planned.used_eq
    rw [planned.headers.buildHdr_eq]
    dsimp only
    omega
  · rw [planned.headers.buildHdr_eq]
    exact fits
  · intro other q planned_q
    rcases plan_update planned_q with ⟨rfl, rfl⟩ | ⟨-, earlier⟩
    · exact measured
    · exact planned.measured other q earlier
  · intro q planned_q
    rcases plan_update planned_q with ⟨rfl, rfl⟩ | ⟨other, earlier⟩
    · rw [if_pos rfl, frames_eq]
    · rw [if_neg (Ne.symm other)]
      exact planned.app q earlier
  · intro no_app
    refine if_neg ?_
    rintro rfl
    simp at no_app
  · intro other q planned_q handshake
    rcases plan_update planned_q with ⟨rfl, rfl⟩ | ⟨-, earlier⟩
    · rw [frames_eq]
      exact (filling.others handshake).2
    · exact planned.others other q earlier handshake

variable (r : QuicRecovery) (blocked : Bool) (now : Time)

/-- A space that is visited may get a packet, and no other space does. -/
theorem planned_planSpace (sp : QuicPns) (planned : Planned c cap [] f)
    (fresh : f.plan sp = none) : ∃ frames,
      Planned c cap frames (planSpace r cap blocked now f sp) ∧ (sp ≠ .app → frames = []) ∧
      ∀ other ≠ sp, (planSpace r cap blocked now f sp).plan other = f.plan other := by
  fun_cases planSpace r cap blocked now f sp with
  | case1 | case2 => exact ⟨[], planned, fun _ => rfl, fun _ _ => rfl⟩
  | case3 s early _ pnLen hdrsz room most budget probe built empty =>
    have filling := filling_buildPayload f.own sp early budget s.next probe blocked now
    have written := filling.written
    rw [filling.room.no_frames empty] at written
    exact ⟨[], planned.nothing (sameHeaders_buildPayload ..) written.view_eq, fun _ => rfl,
      fun _ _ => rfl⟩
  | case4 s early _ pnLen hdrsz room most budget probe built _ payload =>
    have filling := filling_buildPayload f.own sp early budget s.next probe blocked now
    rw [not_or, not_lt] at room
    refine ⟨_, planned.packet fresh filling (sameHeaders_buildPayload ..) _ _ room.1 rfl ?_,
      fun handshake => if_neg handshake, fun other elsewhere => update_of_ne elsewhere _ _⟩
    -- the payload is inside its budget, or is padded to the least there was room for
    have budget_le : budget ≤ cap - f.used - hdrsz - QUIC_TAG_LEN := by
      dsimp only [budget, most]
      split_ifs <;> omega
    have length_le : built.2.wr.out.length ≤ budget := filling.room.length_le
    simp only [payload, length_append, length_replicate, quicWrLen]
    omega

theorem Planned.padded (planned : Planned c cap frames f) (here : f.plan sp = some p) {pad : Nat}
    (fits : f.used + pad ≤ cap) (scratch : Nat) :
    Planned c cap frames
      { own := f.own
        plan := update f.plan sp
          (some { p with payload := p.payload ++ List.replicate pad 0, inFlight := true })
        used := f.used + pad
        scratchUsed := scratch } := by
  have size_eq := sum_planSize_update c f.plan sp
    { p with payload := p.payload ++ List.replicate pad 0, inFlight := true }
  have old_size : planSize c f.plan sp =
      quicHdrSize (buildHdr c sp p.early p.pnLen 0) + p.payload.length + QUIC_TAG_LEN := by
    simp [planSize, here]
  refine ⟨planned.headers, planned.written, ?_, fits, ?_, ?_, ?_, ?_⟩
  · have := planned.used_eq
    simp only [length_append, length_replicate] at size_eq
    dsimp only
    omega
  · intro other q planned_q
    rcases plan_update planned_q with ⟨rfl, rfl⟩ | ⟨-, earlier⟩
    · exact planned.measured other p here
    · exact planned.measured other q earlier
  · intro q planned_q
    rcases plan_update planned_q with ⟨rfl, rfl⟩ | ⟨-, earlier⟩
    · exact planned.app p here
    · exact planned.app q earlier
  · intro no_app
    refine planned.silent ?_
    by_cases app : sp = .app
    · subst app
      simp at no_app
    · simpa [update_of_ne (Ne.symm app)] using no_app
  · intro other q planned_q handshake
    rcases plan_update planned_q with ⟨rfl, rfl⟩ | ⟨-, earlier⟩
    · exact planned.others other p here handshake
    · exact planned.others other q earlier handshake

theorem planned_padInitial (planned : Planned c cap frames f) :
    Planned c cap frames (padInitial cap f) := by
  fun_cases padInitial cap f with
  | case1 short pad last =>
    obtain ⟨initial, under, enough⟩ := short
    have last_some : (f.plan last).isSome := by
      dsimp only [last]
      split_ifs with app handshake
      · exact app
      · exact handshake
      · cases plan_eq : f.plan .initial with
        | none => simp [plan_eq] at initial
        | some => rfl
    obtain ⟨p, here⟩ := Option.isSome_iff_exists.1 last_some
    rw [here, Option.map_some]
    refine planned.padded here ?_ _
    omega
  | case2 | case3 => exact planned

/-- A datagram that was planned fits, and says what was noted. -/
theorem planned_flush (c : QuicConnOwn) (cap : Nat) (blocked : Bool) (now : Time) : ∃ frames,
    Planned c cap frames
      (padInitial cap (QuicPns.all.foldl (planSpace r cap blocked now)
        ⟨c, fun _ => none, 0, 0⟩)) := by
  have start : Planned c cap [] ⟨c, fun _ => none, 0, 0⟩ :=
    ⟨.refl c, written_nil _ c, by simp [QuicPns.all, planSize], Nat.zero_le cap, by simp, by simp,
      fun _ => rfl, by simp⟩
  obtain ⟨none₁, initial, only_app, others⟩ := planned_planSpace r blocked now .initial start rfl
  obtain rfl := only_app (by simp)
  obtain ⟨none₂, handshake, only_app, others'⟩ := planned_planSpace r blocked now .handshake
    initial (others _ (by simp))
  obtain rfl := only_app (by simp)
  obtain ⟨frames, app, -, -⟩ := planned_planSpace r blocked now .app handshake
    ((others' _ (by simp)).trans (others _ (by simp)))
  exact ⟨frames, planned_padInitial app⟩

/-! ### Sending it -/

def sentPackets (c : QuicConnOwn) (plan : QuicPns → Option QuicPlan) (spaces : List QuicPns) :
    List SentPacket :=
  spaces.filterMap fun sp => (plan sp).map fun p => ⟨sp, (c.pns sp).next, p.frames⟩

def recordSent (c : QuicConn) (sp : QuicPns) (p : QuicPlan) (size : Nat) (now : Time) : QuicConn :=
  let r := quicRecovOnSent true c.recov sp (c.pns sp).next size p.elicit p.inFlight now
  { c with
    recov := if p.probe then quicRecovProbeSent r sp else r
    pns := update c.pns sp { c.pns sp with next := (c.pns sp).next + 1 }
    sentHandshakePkt := c.sentHandshakePkt || sp = .handshake }

/-- A header that was measured is written, and the packet is as long as planned. -/
theorem sendSpace_some {f : FlushOut} (ok : f.ok = true) (here : plan sp = some p)
    (same : ∀ early pnLen len, buildHdr f.conn.toQuicConnOwn sp early pnLen len =
      buildHdr c sp early pnLen len) (measured : quicHdrSize (buildHdr c sp p.early p.pnLen 0) ≠ 0)
    (fits : f.dlen + planSize c plan sp ≤ QUIC_MAX_DATAGRAM) :
    sendSpace plan now f sp =
      { ok := true
        conn := recordSent f.conn sp p (planSize c plan sp) now
        dlen := f.dlen + planSize c plan sp
        elicited := f.elicited || p.elicit
        packets := f.packets ++ [⟨sp, (f.conn.pns sp).next, p.frames⟩] } := by
  have size_eq : planSize c plan sp =
      quicHdrSize (buildHdr c sp p.early p.pnLen 0) + p.payload.length + QUIC_TAG_LEN := by
    simp [planSize, here]
  have short : p.payload.length + p.pnLen + QUIC_TAG_LEN < 2 ^ 14 := by
    have pnLen_le : p.pnLen ≤ 4 :=
      (measured_spec (numbered_buildHdr c sp p.early p.pnLen 0) measured).2.2.2.1
    have := fits
    unfold QUIC_MAX_DATAGRAM at this
    omega
  have hdr_eq : { buildHdr f.conn.toQuicConnOwn sp p.early p.pnLen
      (p.payload.length + p.pnLen + QUIC_TAG_LEN) with
        pn := (f.conn.pns sp).next, pnEnc := (f.conn.pns sp).next % 256 ^ p.pnLen } =
      packetHdr c sp p.early p.pnLen (f.conn.pns sp).next p.payload.length := by
    rw [same]
    rfl
  have hdr_size : quicHdrSize (packetHdr c sp p.early p.pnLen (f.conn.pns sp).next
      p.payload.length) = quicHdrSize (buildHdr c sp p.early p.pnLen 0) :=
    quicHdrSize_packetHdr short
  have formed : (packetHdr c sp p.early p.pnLen (f.conn.pns sp).next p.payload.length).Formed _ _ :=
    formed_packetHdr measured short
  have encoded : (quicHdrEncode (quicWrInit (QUIC_MAX_DATAGRAM - f.dlen))
      (packetHdr c sp p.early p.pnLen (f.conn.pns sp).next p.payload.length)).1 = true := by
    rw [quicHdrEncode_eq formed rfl]
    rw [hdr_size]
    simp only [quicWrInit, length_nil]
    omega
  unfold sendSpace
  simp only [ok, here, hdr_eq, encoded, hdr_size, size_eq, recordSent, Bool.not_true,
    Bool.false_eq_true, if_false]

structure SentAs (c : QuicConnOwn) (plan : QuicPns → Option QuicPlan) (spaces : List QuicPns)
    (f f' : FlushOut) : Prop where
  ok : f'.ok = true
  view_eq : f'.conn.view = f.conn.view
  dlen_eq : f'.dlen = f.dlen + (spaces.map (planSize c plan)).sum
  packets_eq : f'.packets = f.packets ++ sentPackets c plan spaces

theorem sentAs_sendSpaces
    (measured : ∀ sp p, plan sp = some p → quicHdrSize (buildHdr c sp p.early p.pnLen 0) ≠ 0)
    (spaces : List QuicPns) (distinct : spaces.Nodup) (f : FlushOut) (ok : f.ok = true)
    (same : ∀ sp early pnLen len, buildHdr f.conn.toQuicConnOwn sp early pnLen len =
      buildHdr c sp early pnLen len)
    (next_eq : ∀ sp ∈ spaces, (f.conn.pns sp).next = (c.pns sp).next)
    (fits : f.dlen + (spaces.map (planSize c plan)).sum ≤ QUIC_MAX_DATAGRAM) :
    SentAs c plan spaces f (spaces.foldl (sendSpace plan now) f) := by
  induction spaces generalizing f with
  | nil => exact ⟨ok, rfl, by simp, by simp [sentPackets]⟩
  | cons sp rest ih =>
    rw [foldl_cons]
    simp only [map_cons, sum_cons] at fits
    cases plan_eq : plan sp with
    | none =>
      have skipped : sendSpace plan now f sp = f := by
        unfold sendSpace
        simp [ok, plan_eq]
      have no_size : planSize c plan sp = 0 := by simp [planSize, plan_eq]
      obtain ⟨sent_ok, view_eq, dlen_eq, packets_eq⟩ := ih distinct.of_cons f ok same
        (fun other later => next_eq other (mem_cons_of_mem _ later)) (by omega)
      rw [skipped]
      refine ⟨sent_ok, view_eq, ?_, ?_⟩
      · rw [dlen_eq, map_cons, sum_cons, no_size, Nat.zero_add]
      · rw [packets_eq]
        simp [sentPackets, plan_eq]
    | some p =>
      have step := sendSpace_some now ok plan_eq (same sp) (measured sp p plan_eq) (by omega)
      generalize sendSpace plan now f sp = after at step ⊢
      have rest_next : ∀ other ∈ rest,
          (after.conn.pns other).next = (c.pns other).next := by
        intro other later
        rw [step]
        have elsewhere : other ≠ sp := fun here =>
          (nodup_cons.1 distinct).1 (here ▸ later)
        simp only [recordSent, update_of_ne elsewhere]
        exact next_eq other (mem_cons_of_mem _ later)
      have rest_same : ∀ other early pnLen len,
          buildHdr after.conn.toQuicConnOwn other early pnLen len =
            buildHdr c other early pnLen len := by
        rw [step]
        exact same
      have dlen_step : after.dlen = f.dlen + planSize c plan sp := by rw [step]
      obtain ⟨sent_ok, view_eq, dlen_eq, packets_eq⟩ := ih distinct.of_cons after (by rw [step])
        rest_same rest_next (by omega)
      refine ⟨sent_ok, ?_, ?_, ?_⟩
      · rw [view_eq, step]
        rfl
      · rw [dlen_eq, dlen_step, map_cons, sum_cons, Nat.add_assoc]
      · rw [packets_eq, step]
        simp [sentPackets, plan_eq, next_eq sp]

theorem ampLimit_some {received sent cap room : Nat}
    (limit : ampLimit received sent cap = some room) : sent + room ≤ 3 * received ∧ room ≤ cap := by
  unfold ampLimit at limit
  dsimp only at limit
  split_ifs at limit <;> cases limit <;> omega

/-- What a flush may send is no more than any datagram, no more than the path takes, and within the
limits of addresses that are not validated. -/
theorem flushCap_spec {cap : Nat} (limit : flushCap c = some cap) :
    cap ≤ QUIC_MAX_DATAGRAM ∧ cap ≤ c.mtu ∧
      (c.server = true → c.addrValidated = false → c.bytesSent + cap ≤ 3 * c.bytesRecv) ∧
      (c.pathAmpLimited = true → c.pathValidated = false →
        c.pathSent + cap ≤ 3 * c.pathRecv) := by
  simp only [flushCap, Option.bind_eq_some_iff] at limit
  obtain ⟨middle, first, second⟩ := limit
  have cap_le : cap ≤ middle ∧ (c.pathAmpLimited = true → c.pathValidated = false →
      c.pathSent + cap ≤ 3 * c.pathRecv) := by
    split at second
    · exact ⟨(ampLimit_some second).2, fun _ _ => (ampLimit_some second).1⟩
    · next free =>
        exact ⟨(Option.some.inj second).ge, fun limited unproven => by simp_all⟩
  have middle_le : (middle ≤ if c.mtu > QUIC_MAX_DATAGRAM then QUIC_MAX_DATAGRAM else c.mtu) ∧
      (c.server = true → c.addrValidated = false → c.bytesSent + middle ≤ 3 * c.bytesRecv) := by
    split at first
    · exact ⟨(ampLimit_some first).2, fun _ _ => (ampLimit_some first).1⟩
    · next free =>
        exact ⟨(Option.some.inj first).ge, fun server unproven => by simp_all⟩
  obtain ⟨largest, started⟩ := middle_le
  refine ⟨?_, ?_, fun server unproven => ?_, cap_le.2⟩
  · split_ifs at largest <;> omega
  · split_ifs at largest <;> omega
  · exact (Nat.add_le_add_left cap_le.1 _).trans (started server unproven)

theorem flushRoom_le (cap : Nat) : (flushRoom r cap).2 ≤ cap := by
  unfold flushRoom
  dsimp only
  split_ifs <;> omega

theorem flushRoom_le_window {cap : Nat} (free : (flushRoom r cap).1 = false) :
    (flushRoom r cap).2 ≤ quicRecovWindowRoom r := by
  unfold flushRoom at free ⊢
  dsimp only at free ⊢
  split_ifs at free ⊢ <;> omega

theorem view_flushSent (plan : QuicPns → Option QuicPlan) (f : FlushOut) (now : Time) :
    (flushSent plan f now).view =
      { f.conn.view with
        bytesSent := f.conn.bytesSent + f.dlen
        pathSent := f.conn.pathSent + f.dlen
        log := .sent f.conn.peer f.dlen f.packets :: f.conn.log } := by
  unfold flushSent
  dsimp only
  split_ifs <;> rfl

theorem Planned.no_packet (planned : Planned c cap frames f) (empty : f.used = 0) (sp : QuicPns) :
    f.plan sp = none := by
  have sizes : planSize c f.plan sp = 0 := by
    have sum_zero := planned.used_eq.symm.trans empty
    refine (sum_eq_zero_iff.1 sum_zero) _ (mem_map_of_mem (QuicPns.mem_all sp))
  cases plan_eq : f.plan sp with
  | none => rfl
  | some =>
    simp [planSize, plan_eq, QUIC_TAG_LEN] at sizes

/-- The frames noted by a datagram are in its packet of the last space. -/
theorem Planned.packets (planned : Planned c cap frames f) :
    (∀ frame ∈ frames, ∃ packet ∈ sentPackets c f.plan QuicPns.all, packet.sp = .app ∧
      packet.pn = (c.pns .app).next ∧ packet.frames = frames) ∧
    ∀ packet ∈ sentPackets c f.plan QuicPns.all, ∀ data, .pathResponse data ∈ packet.frames →
      packet.frames = frames := by
  constructor
  · intro frame noted
    cases plan_eq : f.plan .app with
    | none =>
      rw [planned.silent plan_eq] at noted
      cases noted
    | some p =>
      refine ⟨⟨.app, (c.pns .app).next, p.frames⟩, ?_, rfl, rfl, planned.app p plan_eq⟩
      exact mem_filterMap.2 ⟨.app, QuicPns.mem_all _, by simp [plan_eq]⟩
  · intro packet listed data carried
    obtain ⟨sp, -, packet_eq⟩ := mem_filterMap.1 listed
    obtain ⟨p, plan_eq, rfl⟩ := Option.map_eq_some_iff.1 packet_eq
    by_cases app : sp = .app
    · subst app
      exact planned.app p plan_eq
    · exact absurd rfl (planned.others sp p plan_eq app _ carried data)

/-- The datagram that a flush plans, within the limit that addresses set. -/
def flushPlan (c : QuicConn) (cap : Nat) (now : Time) : FlushPlan :=
  let room := flushRoom c.recov cap
  padInitial room.2 (QuicPns.all.foldl (planSpace c.recov room.2 room.1 now)
    ⟨c.toQuicConnOwn, fun _ => none, 0, 0⟩)

/-- A datagram either goes out whole, as it was planned, or leaves nothing behind. -/
theorem flushOne_spec (c : QuicConn) (now : Time) :
    (∃ c', flushOne c now = (true, false, c') ∧ c'.view = c.view) ∨
      ∃ c' cap frames f, flushOne c now = (true, true, c') ∧
        flushCap c.toQuicConnOwn = some cap ∧ f = flushPlan c cap now ∧
        Planned c.toQuicConnOwn (flushRoom c.recov cap).2 frames f ∧
        c'.view =
          { f.own.view with
            bytesSent := c.bytesSent + f.used
            pathSent := c.pathSent + f.used
            log := .sent c.peer f.used (sentPackets c.toQuicConnOwn f.plan QuicPns.all) ::
              c.log } := by
  unfold flushOne
  cases limit : flushCap c.toQuicConnOwn with
  | none => exact .inl ⟨c, rfl, rfl⟩
  | some cap =>
    dsimp only
    obtain ⟨frames, planned⟩ := planned_flush c.recov c.toQuicConnOwn
      (flushRoom c.recov cap).2 (flushRoom c.recov cap).1 now
    generalize plan_eq : padInitial (flushRoom c.recov cap).2 _ = f at planned ⊢
    split
    · next empty =>
        refine .inl ⟨_, rfl, ?_⟩
        have written := planned.written
        rw [planned.silent (planned.no_packet empty .app)] at written
        exact written.view_eq
    · have sent := sentAs_sendSpaces now planned.measured QuicPns.all (by decide)
        ⟨true, { c with toQuicConnOwn := f.own }, 0, false, []⟩ rfl planned.headers.buildHdr_eq
        (fun sp _ => planned.headers.next_eq sp)
        (by
          rw [← planned.used_eq, Nat.zero_add]
          exact (planned.used_le.trans (flushRoom_le _ _)).trans (flushCap_spec limit).1)
      generalize QuicPns.all.foldl (sendSpace f.plan now) _ = out at sent ⊢
      rw [sent.ok]
      refine .inr ⟨_, cap, frames, f, rfl, rfl, plan_eq.symm, planned, ?_⟩
      have view_eq : out.conn.view = f.own.view := sent.view_eq
      have rest_eq := planned.written.rest_eq
      have bytes_eq : out.conn.bytesSent = c.bytesSent :=
        (congrArg ConnView.bytesSent view_eq).trans (congrArg ConnView.bytesSent rest_eq)
      have path_eq : out.conn.toQuicConnPath = c.toQuicConnPath :=
        (congrArg ConnView.toQuicConnPath view_eq).trans
          (congrArg ConnView.toQuicConnPath rest_eq)
      have log_eq : out.conn.log = c.log :=
        (congrArg ConnView.log view_eq).trans (congrArg ConnView.log rest_eq)
      have packets_eq : out.packets = sentPackets c.toQuicConnOwn f.plan QuicPns.all :=
        sent.packets_eq
      have dlen_eq : out.dlen = f.used := by
        rw [sent.dlen_eq, planned.used_eq, Nat.zero_add]
      rw [view_flushSent, view_eq, bytes_eq, path_eq, log_eq, packets_eq, dlen_eq]

theorem flushOne_cases (c : QuicConn) (now : Time) :
    (∃ c', flushOne c now = (true, false, c') ∧ c'.view = c.view) ∨
      ∃ c', flushOne c now = (true, true, c') ∧ SendMove c.view c'.view := by
  refine (flushOne_spec c now).imp_right ?_
  rintro ⟨c', cap, frames, f, sent, limit, -, planned, view_eq⟩
  refine ⟨c', sent, ?_⟩
  rw [view_eq]
  exact .flushed c.toQuicConnOwn f.own cap f.used _ _ frames limit
    (planned.used_le.trans (flushRoom_le _ _)) planned.written planned.packets.1
    planned.packets.2

/-- No more of the scratch buffer is used than of the datagram. -/
theorem scratchUsed_le (c : QuicConn) (cap : Nat) (now : Time) :
    (flushPlan c cap now).scratchUsed ≤ (flushPlan c cap now).used := by
  have visited (cap : Nat) (blocked : Bool) (f : FlushPlan) (sp : QuicPns)
      (le : f.scratchUsed ≤ f.used) : (planSpace c.recov cap blocked now f sp).scratchUsed ≤
        (planSpace c.recov cap blocked now f sp).used := by
    unfold planSpace
    dsimp only
    split_ifs <;> first | exact le | (dsimp only; omega)
  have padded (cap : Nat) (f : FlushPlan) (le : f.scratchUsed ≤ f.used) :
      (padInitial cap f).scratchUsed ≤ (padInitial cap f).used := by
    fun_cases padInitial cap f with
    | case1 => exact Nat.add_le_add_right le _
    | case2 | case3 => exact le
  exact padded _ _ (visited _ _ _ .app (visited _ _ _ .handshake (visited _ _ _ .initial le_rfl)))

/-- A datagram is within every limit that was set for it, and its payloads are within the buffer
they are built in. -/
theorem flushed_datagram_bounded (c : QuicConn) (now : Time) :
    (∀ cap, flushCap c.toQuicConnOwn = some cap →
      (flushPlan c cap now).scratchUsed ≤ QUIC_MAX_DATAGRAM) ∧
    ∀ c', flushOne c now = (true, true, c') → ∃ size packets,
      c'.log = .sent c.peer size packets :: c.log ∧ size ≤ c.mtu ∧ size ≤ QUIC_MAX_DATAGRAM ∧
      (c.server = true → c.addrValidated = false → size ≤ 3 * c.bytesRecv - c.bytesSent) ∧
      (c.pathAmpLimited = true → c.pathValidated = false →
        size ≤ 3 * c.pathRecv - c.pathSent) ∧
      ∃ cap, flushCap c.toQuicConnOwn = some cap ∧
        ((flushRoom c.recov cap).1 = false → size ≤ quicRecovWindowRoom c.recov) := by
  refine ⟨fun cap limit => ?_, fun c' sent => ?_⟩
  · obtain ⟨frames, planned⟩ := planned_flush c.recov c.toQuicConnOwn
      (flushRoom c.recov cap).2 (flushRoom c.recov cap).1 now
    exact (scratchUsed_le c cap now).trans
      ((planned.used_le.trans (flushRoom_le _ _)).trans (flushCap_spec limit).1)
  · rcases flushOne_spec c now with ⟨_, still, -⟩ |
      ⟨_, cap, frames, f, flushed, limit, -, planned, view_eq⟩
    · rw [still] at sent
      cases sent
    · rw [flushed] at sent
      cases sent
      obtain ⟨largest, narrow, started, moved⟩ := flushCap_spec limit
      have used_le := planned.used_le
      have room_le := flushRoom_le c.recov cap
      refine ⟨f.used, _, congrArg ConnView.log view_eq, by omega, by omega,
        fun server unproven => ?_, fun limited unproven => ?_, cap, limit, fun free => ?_⟩
      · have := started server unproven
        omega
      · have := moved limited unproven
        omega
      · exact used_le.trans (flushRoom_le_window c.recov free)

/-! ### The whole flush -/

/-- Datagrams go out one after another, and none fails. -/
theorem flushLoop_sends (count : Nat) (c : QuicConn) :
    (flushLoop now count c).1 = true ∧ SendMoves c.view (flushLoop now count c).2.view := by
  induction count generalizing c with
  | zero => exact ⟨rfl, .refl⟩
  | succ count ih =>
    rw [flushLoop]
    rcases flushOne_cases c now with ⟨c', one_eq, view_eq⟩ | ⟨c', one_eq, move⟩
    · rw [one_eq]
      refine ⟨rfl, ?_⟩
      rw [view_eq]
    · rw [one_eq]
      dsimp only
      split
      · exact ⟨rfl, .single move⟩
      · obtain ⟨ok, sends⟩ := ih c'
        exact ⟨ok, sends.head move⟩

/-- What a datagram with a single frame changes. -/
theorem sendSolo_view {c c' : QuicConn} {dest : NetAddr} {f : QuicFrame} {padTo pn : Nat}
    {now : Time} (sent : sendSolo c dest f padTo now = some (pn, c')) :
    c'.view =
      { c.view with
        bytesSent := c.bytesSent + padTo
        pathSent := c.pathSent + padTo
        log := .sent dest padTo [⟨.app, pn, [f]⟩] :: c.log } := by
  revert sent
  fun_cases sendSolo c dest f padTo now with
  | case5 s _ pnLen hdrsz room plen _ _ _ _ _ _ outLen =>
    have total : outLen = padTo := by
      dsimp only [outLen, plen]
      omega
    rw [total]
    rintro ⟨⟩
    rfl
  | _ => rintro ⟨⟩

theorem pathRespondElsewhere_sends (c : QuicConn) (now : Time) :
    SendMoves c.view (pathRespondElsewhere c now).view := by
  fun_cases pathRespondElsewhere c now with
  | case1 | case2 => exact .refl
  | case3 owed pn c' sent =>
    simp only [not_or, not_not, Bool.not_eq_true', Bool.not_eq_false] at owed
    have responded := SendMove.responded c.view QUIC_INITIAL_MTU pn owed.1 owed.2
    have view_eq := sendSolo_view sent
    change SendMoves c.view { c'.view with pathResponse := .sent pn }
    rw [view_eq]
    exact .single responded

theorem mtuProbeSend_sends (c : QuicConn) (now : Time) :
    SendMoves c.view (mtuProbeSend c now).view := by
  fun_cases mtuProbeSend c now with
  | case1 => exact .refl
  | case2 ready =>
    simp only [not_or, not_not] at ready
    let tried : QuicConnOwn := { c.toQuicConnOwn with mtuTries := QUIC_PMTU_PROBES }
    have narrowed : SizeMoves tried.view (mtuProbeLost tried c.mtuProbing now).view :=
      mtuProbeLost_moves tried c.mtuProbing now ready.1
    exact narrowed.sendMoves
  | case3 ready pn c' sent =>
    simp only [not_or, not_not] at ready
    have probed := SendMove.probed c.view c.mtuProbing pn ready.1
    have view_eq := sendSolo_view sent
    change SendMoves c.view { c'.view with size := { c'.view.size with mtuProbePn := some pn } }
    rw [view_eq]
    exact .single probed

theorem view_spaceDiscard (c : QuicConn) (sp : QuicPns) (now : Time) :
    (spaceDiscard c sp now).view = c.view := by
  unfold spaceDiscard
  split <;> rfl

/-- Spaces that are no longer needed go, and the packets that travel alone are sent. -/
theorem flushRest_sends (c : QuicConn) (now : Time) : SendMoves c.view (flushRest c now).view := by
  unfold flushRest
  extract_lets c₁ c₂ c₃ own c₄
  have first : c₁.view = c.view := by
    dsimp only [c₁]
    split
    · exact view_spaceDiscard c .initial now
    · rfl
  have second : c₂.view = c₁.view := by
    dsimp only [c₂]
    split
    · exact view_spaceDiscard _ .handshake now
    · rfl
  rw [← first, ← second]
  exact ((pathRespondElsewhere_sends c₂ now).trans
    (mtuStart_moves c₃.toQuicConnOwn now).sendMoves).trans (mtuProbeSend_sends c₄ now)

/-- A flush is nothing but datagrams that go out, and it does not fail. -/
theorem quicConnFlush_sends (c : QuicConn) (now : Time) :
    (quicConnFlush c now).1 = true ∧ SendMoves c.view (quicConnFlush c now).2.view := by
  unfold quicConnFlush
  split
  · exact ⟨rfl, .refl⟩
  · dsimp only
    obtain ⟨ok, sends⟩ := flushLoop_sends now QUIC_FLUSH_MAX_DATAGRAMS
      { c with now := now, recov := quicRecovPacerRefill c.recov now }
    generalize flushLoop now QUIC_FLUSH_MAX_DATAGRAMS
      { c with now := now, recov := quicRecovPacerRefill c.recov now } = looped at ok sends ⊢
    obtain ⟨flag, after⟩ := looped
    cases ok
    exact ⟨rfl, sends.trans (flushRest_sends after now)⟩

end Conn

end Cx.Quic
