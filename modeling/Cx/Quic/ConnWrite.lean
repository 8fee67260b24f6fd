import Cx.Quic.ConnMove
import Cx.Quic.StreamSound

/-!
# What filling a packet does

A packet is filled by one writer after another.  Each stays inside the room there is, adds frames
and notes the packet's number with what it wrote.  Put together, a payload is within its budget, its
frames say what was noted, and an empty payload noted nothing.
-/

namespace Cx.Quic

open List

variable {more : List QuicFrame} {f : QuicFrame}

def QuicFrame.Plain (f : QuicFrame) : Prop := ∀ data, f ≠ .pathResponse data

/-- Packet `pn` of a packet number space is being filled, within a budget. -/
structure Filling (sp : QuicPns) (budget pn : Nat) (c c' : QuicConnOwn) (fill : QuicFill) :
    Prop where
  room : fill.Room budget
  written : Written pn fill.frames c c'
  others : sp ≠ .app → c'.view = c.view ∧ ∀ f ∈ fill.frames, f.Plain

section Written

variable {pn : Nat} {frames : List QuicFrame} {c c' c'' : QuicConnOwn}

theorem written_nil (pn : Nat) (c : QuicConnOwn) : Written pn [] c c :=
  ⟨rfl, forall₂_same.2 fun _ _ => .inl rfl, .inl rfl, by simp, .inl rfl⟩

theorem Written.congr (written : Written pn frames c c') (view_eq : c''.view = c'.view) :
    Written pn frames c c'' := by
  have response_eq : c''.pathResponse = c'.pathResponse := congrArg ConnView.pathResponse view_eq
  have queue_eq : c''.retireQueue = c'.retireQueue := congrArg ConnView.retireQueue view_eq
  have dgram_eq : c''.dgramOut = c'.dgramOut := congrArg ConnView.dgramOut view_eq
  obtain ⟨rest_eq, retires, response, responses, dgram⟩ := written
  refine ⟨?_, ?_, ?_, responses, ?_⟩
  · rw [view_eq, response_eq, queue_eq, dgram_eq]
    exact rest_eq
  · rw [queue_eq]
    exact retires
  · rw [response_eq]
    exact response
  · rw [dgram_eq]
    exact dgram

theorem Written.congr_start (written : Written pn frames c c') (view_eq : c.view = c''.view) :
    Written pn frames c'' c' := by
  have response_eq : c.pathResponse = c''.pathResponse := congrArg ConnView.pathResponse view_eq
  have data_eq : c.pathResponseData = c''.pathResponseData :=
    congrArg ConnView.pathResponseData view_eq
  have path_eq : c.toQuicConnPath = c''.toQuicConnPath := congrArg ConnView.toQuicConnPath view_eq
  have queue_eq : c.retireQueue = c''.retireQueue := congrArg ConnView.retireQueue view_eq
  have dgram_eq : c.dgramOut = c''.dgramOut := congrArg ConnView.dgramOut view_eq
  obtain ⟨rest_eq, retires, response, responses, dgram⟩ := written
  refine ⟨?_, ?_, ?_, ?_, ?_⟩
  · rw [← view_eq]
    exact rest_eq
  · rw [← queue_eq]
    exact retires
  · rw [← response_eq, ← data_eq]
    exact response
  · rw [← path_eq, ← response_eq, ← data_eq]
    exact responses
  · rw [← dgram_eq]
    exact dgram

theorem Announced.append {entry entry' : QuicRetire} (announced : Announced pn frames entry entry')
    (more : List QuicFrame) : Announced pn (frames ++ more) entry entry' :=
  announced.imp_right fun noted => ⟨noted.1, mem_append_left _ noted.2⟩

theorem Written.append (written : Written pn frames c c') (plain : ∀ f ∈ more, f.Plain) :
    Written pn (frames ++ more) c c' := by
  obtain ⟨rest_eq, retires, response, responses, dgram⟩ := written
  refine ⟨rest_eq, retires.imp fun _ _ announced => announced.append more,
    response.imp_right fun sent => ⟨sent.1, mem_append_left _ sent.2⟩, ?_, ?_⟩
  · intro data here
    rcases mem_append.1 here with earlier | new
    · exact responses data earlier
    · exact absurd rfl (plain _ new data)
  · exact dgram.imp_right fun ⟨gone, data, waited, carried⟩ =>
      ⟨gone, data, waited, mem_append_left _ carried⟩

theorem Written.view_eq (written : Written pn [] c c') : c'.view = c.view := by
  obtain ⟨rest_eq, retires, response, -, dgram⟩ := written
  have queue_eq : c'.retireQueue = c.retireQueue := by
    have same : List.Forall₂ Eq c.retireQueue c'.retireQueue :=
      retires.imp fun _ _ announced => by simpa [Announced, eq_comm] using announced
    rw [forall₂_eq_eq_eq] at same
    exact same.symm
  have response_eq : c'.pathResponse = c.pathResponse := by simpa using response
  have dgram_eq : c'.dgramOut = c.dgramOut := by simpa using dgram
  rw [rest_eq, queue_eq, response_eq, dgram_eq]
  rfl

variable (written : Written pn frames c c')
include written

theorem Written.path_eq : c'.toQuicConnPath = c.toQuicConnPath :=
  congrArg ConnView.toQuicConnPath written.rest_eq

theorem Written.responseData_eq : c'.pathResponseData = c.pathResponseData :=
  congrArg ConnView.pathResponseData written.rest_eq

/-- A response is written while it waits and goes where everything else goes. -/
theorem Written.respond (waiting : c'.pathResponse = .pending)
    (here : c'.respondElsewhere = false) :
    Written pn (frames ++ [.pathResponse c'.pathResponseData]) c
      { c' with pathResponse := .sent pn } := by
  have path_eq := written.path_eq
  have data_eq := written.responseData_eq
  obtain ⟨rest_eq, retires, response, responses, dgram⟩ := written
  have owed : c.pathResponse = .pending := by
    rcases response with same | ⟨sent, -⟩
    · rw [← same, waiting]
    · rw [sent] at waiting
      cases waiting
  refine ⟨?_, retires.imp fun _ _ announced => announced.append _, .inr ⟨rfl, ?_⟩, ?_, ?_⟩
  · exact congrArg (fun v : ConnView => { v with pathResponse := .sent pn }) rest_eq
  · rw [← data_eq]
    exact mem_append_right _ (mem_singleton_self _)
  · intro data written_here
    rcases mem_append.1 written_here with earlier | new
    · exact responses data earlier
    · rw [mem_singleton, QuicFrame.pathResponse.injEq] at new
      refine ⟨?_, owed, new.trans data_eq⟩
      rw [← here, ← path_eq]
  · exact dgram.imp_right fun ⟨gone, data, waited, carried⟩ =>
      ⟨gone, data, waited, mem_append_left _ carried⟩

/-- The queue is written from the front. -/
theorem Written.retire {queue : List QuicRetire} (plain : ∀ f ∈ more, f.Plain)
    (announced : List.Forall₂
      (fun entry entry' => entry' = entry ∨ entry.ctl = .pending ∧ entry' =
        { entry with ctl := .sent pn } ∧ .retireConnId entry.seq ∈ more) c'.retireQueue queue) :
    Written pn (frames ++ more) c { c' with retireQueue := queue } := by
  obtain ⟨rest_eq, retires, response, responses, dgram⟩ := written.append plain
  refine ⟨?_, ?_, response, responses, dgram⟩
  · exact congrArg (fun v : ConnView => { v with retireQueue := queue }) rest_eq
  · clear rest_eq response responses dgram written
    generalize c'.retireQueue = middle, c.retireQueue = start at retires announced ⊢
    induction retires generalizing queue with
    | nil =>
      cases announced
      exact .nil
    | @cons entry _ entries _ first _ ih =>
      cases announced with
      | cons step later =>
        refine .cons ?_ (ih later)
        rcases step with rfl | ⟨pending, rfl, here⟩
        · exact first
        · rcases first with rfl | ⟨rfl, earlier⟩
          · exact .inr ⟨rfl, mem_append_right _ here⟩
          · cases pending

theorem Written.sendDatagram {data : List UInt8} (waiting : c'.dgramOut = some data) :
    Written pn (frames ++ [.datagram true data]) c { c' with dgramOut := none } := by
  have plain : ∀ f ∈ [QuicFrame.datagram true data], f.Plain := by
    simp [QuicFrame.Plain]
  obtain ⟨rest_eq, retires, response, responses, dgram⟩ := written.append plain
  have waited : c.dgramOut = some data := by
    rcases dgram with same | ⟨gone, -⟩
    · rw [← same, waiting]
    · rw [gone] at waiting
      cases waiting
  exact ⟨congrArg (fun v : ConnView => { v with dgramOut := none }) rest_eq, retires, response,
    responses, .inr ⟨rfl, data, waited, mem_append_right _ (mem_singleton_self _)⟩⟩

end Written

section Filling

variable {sp : QuicPns} {budget pn : Nat} {c c' c'' : QuicConnOwn} {fill : QuicFill}

theorem Filling.congr (filling : Filling sp budget pn c c' fill) (view_eq : c''.view = c'.view) :
    Filling sp budget pn c c'' fill :=
  ⟨filling.room, filling.written.congr view_eq, fun handshake =>
    ⟨view_eq.trans (filling.others handshake).1, (filling.others handshake).2⟩⟩

theorem Filling.elicits (filling : Filling sp budget pn c c' fill) (eliciting : Bool) :
    Filling sp budget pn c c' { fill with eliciting := eliciting } :=
  ⟨filling.room.elicits eliciting, filling.written, filling.others⟩

theorem frames_putFrame (fill : QuicFill) (f : QuicFrame) :
    (putFrame fill f).2.frames = fill.frames ++ if (putFrame fill f).1 then [f] else [] := by
  rcases putFrame_cases fill f with ⟨wr, put_eq⟩ | ⟨-, wr, put_eq⟩ <;> rw [put_eq] <;> simp

variable (filling : Filling sp budget pn c c' fill)
include filling

theorem Filling.putFrame (plain : f.Plain) :
    Filling sp budget pn c c' (putFrame fill f).2 := by
  have new : ∀ g ∈ if (Quic.putFrame fill f).1 then [f] else [], g.Plain := by
    split
    · simpa using plain
    · simp
  refine ⟨filling.room.putFrame f, ?_, fun handshake => ⟨(filling.others handshake).1, ?_⟩⟩
  · rw [frames_putFrame]
    exact filling.written.append new
  · rw [frames_putFrame, forall_mem_append]
    exact ⟨(filling.others handshake).2, new⟩

theorem Filling.put (plain : f.Plain) {written : Bool} {after : QuicFill}
    (put_eq : Quic.putFrame fill f = (written, after)) : Filling sp budget pn c c' after := by
  have wrote := filling.putFrame plain
  rw [put_eq] at wrote
  exact wrote

theorem Filling.putCtl (plain : f.Plain) (ctl : QuicCtl) :
    Filling sp budget pn c c' (putCtl fill ctl f pn).1 := by
  have wrote := filling.putFrame plain
  simp only [Quic.putCtl]
  split_ifs
  · exact filling
  · exact wrote.elicits true
  · exact wrote

end Filling

namespace Conn

section Writers

variable {sp : QuicPns} {budget pn : Nat} {c c' : QuicConnOwn} {fill : QuicFill}

theorem filling_putClose (filling : Filling sp budget pn c c' fill) :
    Filling sp budget pn c c' (putClose c' sp fill) := by
  have plain (reason : List UInt8) : (if (c'.closeApp && decide (sp = .app)) = true then
        QuicFrame.connCloseApp c'.closeError reason
      else .connClose (if c'.closeApp then QUIC_ERR_APPLICATION_ERROR else c'.closeError)
        c'.closeFrameType reason).Plain := by
    split <;> exact fun _ => by simp
  fun_cases putClose c' sp fill with
  | case1 _ _ reason _ _ written => exact filling.put (plain reason) written
  | case2 _ _ reason _ _ refused => exact (filling.put (plain reason) refused).putFrame (plain [])
  | case3 => exact filling.putFrame (plain [])

theorem plain_crypto (offset : Nat) (data : List UInt8) : (QuicFrame.crypto offset data).Plain :=
  fun _ => by simp

theorem filling_putCryptoLoop (fuel : Nat) (sb : QuicSendBuf)
    (filling : Filling sp budget pn c c' fill) :
    Filling sp budget pn c c' (putCryptoLoop pn fuel sb fill).2 := by
  fun_induction putCryptoLoop pn fuel sb fill with
  | case1 | case2 | case3 => exact filling
  | case4 _ _ _ _ _ _ _ _ _ refused => exact filling.put (plain_crypto _ _) refused
  | case5 _ _ _ _ _ _ _ _ _ written ih =>
    exact ih ((filling.put (plain_crypto _ _) written).elicits true)

theorem filling_putPing (filling : Filling sp budget pn c c' fill) :
    Filling sp budget pn c c' (putPing fill) := by
  have plain : QuicFrame.ping.Plain := fun _ => by simp
  fun_cases putPing fill with
  | case1 _ refused => exact filling.put plain refused
  | case2 _ written => exact (filling.put plain written).elicits true

theorem filling_putCryptoProbe (filling : Filling sp budget pn c c' fill) :
    Filling sp budget pn c c' (putCryptoProbe c' sp fill).2 := by
  fun_cases putCryptoProbe c' sp fill with
  | case1 | case2 => exact filling
  | case3 _ _ _ _ _ _ _ refused => exact filling.put (plain_crypto _ _) refused
  | case4 _ _ _ _ _ _ _ written => exact (filling.put (plain_crypto _ _) written).elicits true

theorem filling_putProbe (early : Bool) (filling : Filling sp budget pn c c' fill) :
    Filling sp budget pn c c' (putProbe c' sp early fill) := by
  have repeated := filling_putCryptoProbe filling
  fun_cases putProbe c' sp early fill with
  | case1 => exact filling_putPing filling
  | case2 _ _ written =>
    rw [written] at repeated
    exact repeated
  | case3 _ _ nothing =>
    rw [nothing] at repeated
    exact filling_putPing repeated

/-- An acknowledgement is written at the end, inside the buffer. -/
theorem grows_putAckRanges (delay : Nat) (as : QuicAckState) (count : Nat) (wr : QuicWr) :
    wr.Grows (putAckRanges delay as count wr).2 := by
  have put (wr : QuicWr) (f : QuicFrame) : wr.Grows (connPutFrame wr f).2 := by
    unfold connPutFrame
    dsimp only
    split
    · exact .refl wr
    · exact (QuicWr.Grows.refl wr).frame f
  fun_induction putAckRanges delay as count wr with
  | case1 wr => exact .refl wr
  | case2 _ _ _ ih => exact ih
  | case3 _ wr f _ _ written =>
    have wrote := put wr (.ack f)
    rw [written] at wrote
    exact wrote
  | case4 _ wr f _ _ refused ih =>
    have wrote := put wr (.ack f)
    rw [refused] at wrote
    exact wrote.trans ih

theorem grows_putAck (localTp : QuicConnParams) (sp : QuicPns) (as : QuicAckState) (wr : QuicWr)
    (pn : Nat) (now : Time) : wr.Grows (putAck localTp sp as wr pn now).2 := by
  have wrote (delay : Nat) := grows_putAckRanges delay as as.ranges.length wr
  unfold putAck
  split
  · exact .refl wr
  · rw [apply_ite Prod.snd, ite_self]
    exact wrote _

/-! ### The frames of the connection itself -/

/-- Entries are written from the front, each with its frame. -/
theorem putQueue_spec {α : Type*} (waiting : α → Bool) (frame : α → QuicFrame) (sent : α → α)
    (queue : List α) (fill : QuicFill) : ∃ more : List QuicFrame,
      (putQueue waiting frame sent queue fill).2.frames = fill.frames ++ more ∧
      (∀ f ∈ more, ∃ entry, f = frame entry) ∧
      List.Forall₂ (fun entry entry' => entry' = entry ∨
        waiting entry = true ∧ entry' = sent entry ∧ frame entry ∈ more) queue
        (putQueue waiting frame sent queue fill).1 := by
  fun_induction putQueue waiting frame sent queue fill with
  | case1 => exact ⟨[], by simp, by simp, .nil⟩
  | case2 entry rest fill idle put ih =>
    obtain ⟨more, frames_eq, framed, queue_eq⟩ := ih
    exact ⟨more, frames_eq, framed, .cons (.inl rfl) queue_eq⟩
  | case3 entry rest fill pending after refused =>
    have frames_eq := frames_putFrame fill (frame entry)
    rw [refused] at frames_eq
    exact ⟨[], frames_eq, by simp, forall₂_same.2 fun _ _ => .inl rfl⟩
  | case4 entry rest fill pending after written put ih =>
    have frames_eq := frames_putFrame fill (frame entry)
    rw [written] at frames_eq
    obtain ⟨more, more_eq, framed, queue_eq⟩ := ih
    refine ⟨frame entry :: more, ?_, ?_, .cons (.inr ⟨by simpa using pending, rfl, by simp⟩) ?_⟩
    · dsimp only [put]
      rw [more_eq, show after.frames = fill.frames ++ [frame entry] from frames_eq]
      simp
    · rintro f (_ | ⟨_, later⟩)
      · exact ⟨entry, rfl⟩
      · exact framed f later
    · exact queue_eq.imp fun _ _ step => step.imp_right fun noted =>
        ⟨noted.1, noted.2.1, mem_cons_of_mem _ noted.2.2⟩

theorem room_putQueue {α : Type*} (waiting : α → Bool) (frame : α → QuicFrame) (sent : α → α)
    (queue : List α) (room : fill.Room budget) :
    (putQueue waiting frame sent queue fill).2.Room budget := by
  fun_induction putQueue waiting frame sent queue fill with
  | case1 => exact room
  | case2 _ _ _ _ _ ih => exact ih room
  | case3 entry _ _ _ _ refused =>
    have wrote := room.putFrame (frame entry)
    rw [refused] at wrote
    exact wrote
  | case4 entry _ _ _ _ written _ ih =>
    have wrote := room.putFrame (frame entry)
    rw [written] at wrote
    exact ih (wrote.elicits true)

section

variable (filling : Filling .app budget pn c c' fill)
include filling

theorem filling_putRetires :
    Filling .app budget pn c { c' with retireQueue := (putRetires c'.retireQueue fill pn).1 }
      (putRetires c'.retireQueue fill pn).2 := by
  obtain ⟨more, frames_eq, framed, queue_eq⟩ := putQueue_spec
    (fun entry : QuicRetire => entry.ctl = .pending) (fun entry => .retireConnId entry.seq)
    (fun entry => { entry with ctl := quicCtlSent pn }) c'.retireQueue fill
  refine ⟨room_putQueue _ _ _ _ filling.room, ?_, by simp⟩
  rw [putRetires, frames_eq]
  refine filling.written.retire ?_ ?_
  · intro f new
    obtain ⟨entry, rfl⟩ := framed f new
    exact fun _ => by simp
  · exact queue_eq.imp fun _ _ step => step.imp_right fun noted =>
      ⟨by simpa using noted.1, noted.2.1, noted.2.2⟩

theorem filling_putAnnounces :
    Filling .app budget pn c { c' with «local» := (putAnnounces c'.local fill pn).1 }
      (putAnnounces c'.local fill pn).2 := by
  obtain ⟨more, frames_eq, framed, -⟩ := putQueue_spec
    (fun cid : QuicLocalCid => cid.live && !cid.retired && cid.announce = .pending)
    (fun cid => .newConnId cid.seq 0 cid.cid cid.resetToken)
    (fun cid => { cid with announce := quicCtlSent pn }) c'.local fill
  have plain : ∀ f ∈ more, f.Plain := by
    intro f new
    obtain ⟨cid, rfl⟩ := framed f new
    exact fun _ => by simp
  have written := filling.written.append plain
  rw [← frames_eq] at written
  exact ⟨room_putQueue _ _ _ _ filling.room, written.congr rfl, by simp⟩

/-- A response goes with everything else only when it goes where everything else goes. -/
theorem filling_putResponse (here : c'.respondElsewhere = false) : Filling .app budget pn c
      { c' with
        pathResponse :=
          (putCtl fill c'.pathResponse (.pathResponse c'.pathResponseData) pn).2 }
      (putCtl fill c'.pathResponse (.pathResponse c'.pathResponseData) pn).1 := by
  have room := filling.room.putCtl c'.pathResponse (.pathResponse c'.pathResponseData) pn
  rcases putCtl_cases fill c'.pathResponse (.pathResponse c'.pathResponseData) pn with
    ⟨wr, put_eq⟩ | ⟨waiting, wr, put_eq⟩
  · rw [put_eq] at room ⊢
    exact ⟨room, filling.written, by simp⟩
  · rw [put_eq] at room ⊢
    exact ⟨room, filling.written.respond waiting here, by simp⟩

end

theorem filling_putAppFrames (early : Bool) (filling : Filling .app budget pn c c' fill) :
    Filling .app budget pn c (putAppFrames c' fill pn early).1
      (putAppFrames c' fill pn early).2 := by
  have done : Filling .app budget pn c c' (if early then (fill, c'.handshakeDone)
      else putCtl fill c'.handshakeDone .handshakeDone pn).1 := by
    split
    · exact filling
    · exact filling.putCtl (fun _ => by simp) _
  unfold putAppFrames
  dsimp only
  generalize (ite (early = true) _ _ : QuicFill × QuicCtl) = confirmed at done ⊢
  have response : Filling .app budget pn c
      { c' with
        pathResponse := (if early ∨ c'.respondElsewhere then (confirmed.1, c'.pathResponse)
          else putCtl confirmed.1 c'.pathResponse (.pathResponse c'.pathResponseData) pn).2 }
      (if early ∨ c'.respondElsewhere then (confirmed.1, c'.pathResponse)
        else putCtl confirmed.1 c'.pathResponse (.pathResponse c'.pathResponseData) pn).1 := by
    split
    · exact done
    · next late => exact filling_putResponse done (by simpa using (not_or.1 late).2)
  have challenge := response.putCtl (f := .pathChallenge c'.pathChallengeData) (fun _ => by simp)
    c'.pathChallenge
  exact (filling_putAnnounces (filling_putRetires challenge)).congr rfl

theorem filling_putDatagram (filling : Filling .app budget pn c c' fill) :
    Filling .app budget pn c (putDatagram c' fill).1 (putDatagram c' fill).2 := by
  unfold putDatagram
  split
  · exact filling
  · next data waiting =>
      have room := filling.room.putFrame (.datagram true data)
      rcases putFrame_cases fill (.datagram true data) with ⟨wr, put_eq⟩ | ⟨-, wr, put_eq⟩
      · rw [put_eq] at room ⊢
        exact ⟨room, filling.written, by simp⟩
      · rw [put_eq] at room ⊢
        exact ⟨room.elicits true, filling.written.sendDatagram waiting, by simp⟩

/-! ### The frames of the stream layer -/

theorem plain_quicStreamsFill (ss : QuicStreams) (bufsz pn : Nat) :
    ∀ f ∈ (quicStreamsFill ss bufsz pn).2.frames, f.Plain := by
  refine quicStreamsFill_frames ss (P := fun _ => True) ?_ (fun _ _ => trivial) ?_
    (fun _ _ _ => trivial) bufsz
  · intro first last move _
    refine ⟨trivial, ?_⟩
    cases move with
    | none => exact fun _ early => .inl early
    | stopSending | maxData | reset | blocked | data | fin =>
      exact QuicFill.wrote_new (by simp [QuicFrame.Plain])
  · intro f wide
    cases f <;> first | exact wide.elim | simp [QuicFrame.Plain]

theorem filling_putStreams (filling : Filling .app budget pn c c' fill) :
    Filling .app budget pn c (putStreams c' fill budget pn).1 (putStreams c' fill budget pn).2 := by
  unfold putStreams
  dsimp only
  split
  · next left =>
      have inside := room_quicStreamsFill c'.streams (budget - quicWrLen fill.wr) pn
      have plain := plain_quicStreamsFill c'.streams (budget - quicWrLen fill.wr) pn
      generalize quicStreamsFill c'.streams (budget - quicWrLen fill.wr) pn = filled at inside plain
      obtain ⟨bufsz_eq, length_le, frames_le⟩ := filling.room
      have filled_le := inside.length_le
      have filled_frames := inside.frames_le
      refine ⟨⟨bufsz_eq, ?_, ?_⟩, (filling.written.append plain).congr rfl, by simp⟩
      all_goals
        simp only [quicWrLen, length_append] at left filled_le ⊢
        omega
  · exact filling

/-- A property that every writer keeps holds of the whole payload. -/
theorem buildPayload_induction (c : QuicConnOwn) (sp : QuicPns) (early : Bool) (budget pn : Nat)
    (probe blocked : Bool) (now : Time) (Good : QuicConnOwn → QuicFill → Prop)
    (start : Good c ⟨quicWrInit budget, [], false⟩)
    (close : ∀ own fill, Good own fill → Good own (putClose own sp fill))
    (ack : ∀ own fill, Good own fill →
      Good (putSpaceAck own sp fill pn now).1 (putSpaceAck own sp fill pn now).2)
    (crypto : ∀ own fill, Good own fill →
      Good (putCrypto own sp fill pn).1 (putCrypto own sp fill pn).2)
    (frames : ∀ own fill, sp = .app → Good own fill →
      Good (putAppFrames own fill pn early).1 (putAppFrames own fill pn early).2)
    (dgram : ∀ own fill, sp = .app → Good own fill →
      Good (putDatagram own fill).1 (putDatagram own fill).2)
    (streams : ∀ own fill, sp = .app → Good own fill →
      Good (putStreams own fill budget pn).1 (putStreams own fill budget pn).2)
    (again : ∀ own fill, Good own fill → Good own (putProbe own sp early fill)) :
    Good (buildPayload c sp early budget pn probe blocked now).1
      (buildPayload c sp early budget pn probe blocked now).2 := by
  have either {P : Prop} [Decidable P] {x y : QuicConnOwn × QuicFill} (yes : P → Good x.1 x.2)
      (no : Good y.1 y.2) : Good (if P then x else y).1 (if P then x else y).2 := by
    split
    · next holds => exact yes holds
    · exact no
  have acked := either (P := early = true) (x := (c, ⟨quicWrInit budget, [], false⟩))
    (fun _ => start) (ack c _ start)
  have said := either (P := early = true) (fun _ => acked) (crypto _ _ acked)
  fun_cases buildPayload c sp early budget pn probe blocked now with
  | case1 => exact start
  | case2 => exact close c _ start
  | case3 => exact acked
  | case4 =>
    refine again _ _ (either (fun app => ?_) said)
    exact streams _ _ app.1 (dgram _ _ app.1 (frames _ _ app.1 said))
  | case5 =>
    refine either (fun app => ?_) said
    exact streams _ _ app.1 (dgram _ _ app.1 (frames _ _ app.1 said))

theorem filling_buildPayload (c : QuicConnOwn) (sp : QuicPns) (early : Bool) (budget pn : Nat)
    (probe blocked : Bool) (now : Time) :
    Filling sp budget pn c (buildPayload c sp early budget pn probe blocked now).1
      (buildPayload c sp early budget pn probe blocked now).2 := by
  refine buildPayload_induction c sp early budget pn probe blocked now _
    ⟨room_init budget false, written_nil pn c, fun _ => ⟨rfl, by simp⟩⟩ ?_ ?_ ?_ ?_ ?_ ?_ ?_
  · exact fun _ _ filling => filling_putClose filling
  · exact fun own _ filling => ⟨filling.room.writer (grows_putAck own.localTp sp _ _ pn now),
      filling.written.congr rfl, filling.others⟩
  · exact fun _ _ filling => (filling_putCryptoLoop _ _ filling).congr rfl
  · rintro _ _ rfl filling
    exact filling_putAppFrames early filling
  · rintro _ _ rfl filling
    exact filling_putDatagram filling
  · rintro _ _ rfl filling
    exact filling_putStreams filling
  · exact fun _ _ filling => filling_putProbe early filling

end Writers

end Conn

end Cx.Quic
