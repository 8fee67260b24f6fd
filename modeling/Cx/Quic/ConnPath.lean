import Cx.Quic.ConnTurn

/-!
# The path in use

A path is proven when the handshake completed on it, or when the peer answered a challenge that was
drawn while the path was in use.  A connection that moves remembers the path it left and goes back
to it, as one that works, when the new one does not answer; nothing asks whether the path it left
was proven itself.

A PATH_RESPONSE belongs on the path its challenge came from.  Where it goes is noted apart from what
it carries, when the datagram has been read, and any later datagram can note another place.
-/

namespace Cx.Quic

open Library Relation

variable (cfg : QuicConnConfig) {packets : List SentPacket} {ctl : QuicCtl} {pn size : Nat}

/-! ### Proven paths -/

/-- The handshake completed on the path, or a challenge drawn for it was answered on it. -/
def provenOn (addr : NetAddr) : List ConnEvent → Bool
  | [] => false
  | .confirmed peer :: log => decide (peer = addr) || provenOn addr log
  | .answered peer data :: log =>
    decide (peer = addr ∧ .issued peer data ∈ log) || provenOn addr log
  | _ :: log => provenOn addr log

/-- The peer moves away from proven paths only, and where it has to prove one it answers a challenge
that was drawn for it. -/
def MovesProven : List ConnEvent → Prop
  | [] => True
  | .switched old _ true :: log => provenOn old log = true ∧ MovesProven log
  | .answered peer data :: log =>
    (.issued peer data ∈ log ∨ provenOn peer log = true) ∧ MovesProven log
  | _ :: log => MovesProven log

instance MovesProven.decidable (log : List ConnEvent) : Decidable (MovesProven log) :=
  match log with
  | [] => .isTrue trivial
  | event :: log =>
    have : Decidable (MovesProven log) := MovesProven.decidable log
    match event with
    | .switched old _ true =>
      inferInstanceAs (Decidable (provenOn old log = true ∧ MovesProven log))
    | .answered peer data =>
      inferInstanceAs
        (Decidable ((.issued peer data ∈ log ∨ provenOn peer log = true) ∧ MovesProven log))
    | .received .. | .sent .. | .acked .. | .vouched .. | .handshakeRead .. | .challenged ..
    | .issued .. | .switched _ _ false | .confirmed .. | .parameters | .newConnId .. | .retired ..
    | .retireDropped .. | .closeRead .. | .closed => this

/-- A path that is treated as validated is proven, and so is the one to go back to. -/
structure PathProven (validated : Bool) (peer : NetAddr) (prev : Option NetAddr)
    (log : List ConnEvent) : Prop where
  current : validated = true → provenOn peer log = true
  before : ∀ addr, prev = some addr → provenOn addr log = true

section Proven

variable {v v' : ConnView} {validated : Bool} {peer addr : NetAddr} {prev : Option NetAddr}
  {log : List ConnEvent}

theorem provenOn_event (proven : provenOn addr log = true) (event : ConnEvent) :
    provenOn addr (event :: log) = true := by
  cases event with
  | confirmed | answered => simp only [provenOn, proven, Bool.or_true]
  | _ => exact proven

theorem provenOn_extend (proven : provenOn addr log = true) (events : List ConnEvent) :
    provenOn addr (events ++ log) = true := by
  induction events with
  | nil => exact proven
  | cons event events ih => exact provenOn_event ih event

theorem MovesProven.of_event {event : ConnEvent} (moves : MovesProven (event :: log)) :
    MovesProven log := by
  cases event with
  | answered => exact moves.2
  | switched old new peerChose =>
    cases peerChose with
    | true => exact moves.2
    | false => exact moves
  | _ => exact moves

theorem MovesProven.of_append {events : List ConnEvent} (moves : MovesProven (events ++ log)) :
    MovesProven log := by
  induction events with
  | nil => exact moves
  | cons event events ih => exact ih moves.of_event

section

variable (sound : PathProven validated peer prev log)
include sound

theorem PathProven.extend (events : List ConnEvent) :
    PathProven validated peer prev (events ++ log) :=
  ⟨fun valid => provenOn_extend (sound.current valid) events,
    fun addr left => provenOn_extend (sound.before addr left) events⟩

theorem PathProven.event (event : ConnEvent) : PathProven validated peer prev (event :: log) :=
  sound.extend [event]

theorem PathProven.confirm : PathProven true peer prev (.confirmed peer :: log) :=
  ⟨fun _ => by simp [provenOn], (sound.event _).before⟩

end

/-- What the connection keeps, as long as the peer moves away from proven paths only. -/
def PathSound (validated : Bool) (peer : NetAddr) (prev : Option NetAddr)
    (log : List ConnEvent) : Prop :=
  MovesProven log → PathProven validated peer prev log

theorem PathSound.extend (sound : PathSound validated peer prev log) (events : List ConnEvent) :
    PathSound validated peer prev (events ++ log) :=
  fun moves => (sound moves.of_append).extend events

theorem PathSound.event (sound : PathSound validated peer prev log) (event : ConnEvent) :
    PathSound validated peer prev (event :: log) :=
  sound.extend [event]

theorem pathSound_idsOnly (sound : PathSound v.pathValidated v.peer v.prev v.log)
    (ids : IdsOnly v v') : PathSound v'.pathValidated v'.peer v'.prev v'.log := by
  obtain ⟨rest_eq, events, log_eq, -⟩ := ids
  have validated_eq : v'.pathValidated = v.pathValidated := by rw [rest_eq]
  have peer_eq : v'.peer = v.peer := by rw [rest_eq]
  have prev_eq : v'.prev = v.prev := by rw [rest_eq]
  rw [log_eq, validated_eq, peer_eq, prev_eq]
  exact sound.extend events

theorem pathSound_sizeMove (move : SizeMove v v')
    (sound : PathSound v.pathValidated v.peer v.prev v.log) :
    PathSound v'.pathValidated v'.peer v'.prev v'.log := by
  cases move <;> exact sound

theorem pathSound_connMove {source : Option NetAddr} (move : ConnMove source v v')
    (sound : PathSound v.pathValidated v.peer v.prev v.log) :
    PathSound v'.pathValidated v'.peer v'.prev v'.log := by
  cases move with
  | size move => exact pathSound_sizeMove move sound
  | closeRead => exact (sound.event _).event _
  | newConnId c =>
    exact Conn.handleNewConnId_keeps (fun v => PathSound v.pathValidated v.peer v.prev v.log) c
      (pathSound_idsOnly sound) fun _ kept => kept.event _
  | issued => exact fun moves => ⟨nofun, ((sound moves).event _).before⟩
  | answered =>
    refine fun moves => ⟨fun _ => ?_, nofun⟩
    rcases moves.1 with issued | proven
    · simp [provenOn, issued]
    · exact provenOn_event proven _
  | confirmed | completed => exact fun moves => (sound moves).confirm
  | forgotten | opened | lost | relabelled | activated | deadline => exact sound
  | close | silentClose | closeReread | acked | parameters | accepted | challenged
  | handshakeRead => exact sound.event _

theorem pathSound_sendMove (move : SendMove v v')
    (sound : PathSound v.pathValidated v.peer v.prev v.log) :
    PathSound v'.pathValidated v'.peer v'.prev v'.log := by
  cases move with
  | size move => exact pathSound_sizeMove move sound
  | flushed c c' cap size pn packets frames limit size_le written =>
    change PathSound c'.pathValidated c'.peer c'.prev (.sent c.peer size packets :: c.log)
    rw [written.path_eq]
    exact sound.event _
  | probed | responded => exact sound.event _

end Proven

theorem pathSound_invariant :
    ViewInvariant fun v => PathSound v.pathValidated v.peer v.prev v.log where
  move := pathSound_connMove
  send := pathSound_sendMove
  receive _ sound := sound.event _
  counted _ sound := sound
  tested _ sound := sound
  switched _ sound moves := by
    -- the path left is proven because the peer moves away from no other
    refine ⟨nofun, fun addr left => ?_⟩
    cases left
    exact provenOn_event moves.1 _
  fallback addr left sound moves := ⟨fun _ => (sound moves).before addr left, nofun⟩
  migrated _ _ := ⟨nofun, nofun⟩
  queued _ sound := sound

/-- The client moves to address 2 and answers there. -/
def provingCalls : List ConnCall :=
  Scene.handshake [] ++
    [Scene.short 2 0 [.ping] 100 3000, Scene.short 2 1 [.pathResponse (List.replicate 8 9)] 100
      4000]

/-- The client is seen at address 2 and then at address 3, neither answers, and time runs out. -/
def wanderingCalls : List ConnCall :=
  Scene.handshake [] ++
    [Scene.short 2 0 [.ping] 100 3000, Scene.short 3 1 [.ping] 100 4000,
      ⟨Scene.env, .tick 100000000⟩]

def lastSource : List ConnEvent → Option NetAddr
  | [] => none
  | .received peer _ :: _ => some peer
  | _ :: log => lastSource log

def challengeSource (data : List UInt8) : List ConnEvent → Option NetAddr
  | [] => none
  | .challenged read :: log => if read = data then lastSource log else challengeSource data log
  | _ :: log => challengeSource data log

/-- Every datagram with a response went where its challenge came from. -/
def ResponsesReturn (log : List ConnEvent) : Prop :=
  ∀ (dest : NetAddr) (size : Nat) (packets : List SentPacket) (older : List ConnEvent),
    .sent dest size packets :: older <:+ log → ∀ packet ∈ packets, ∀ data,
      .pathResponse data ∈ packet.frames → challengeSource data older = some dest

def ConnView.aim (v : ConnView) : NetAddr := if v.respondElsewhere then v.respondTo else v.peer

/-- A response that waits, or may have to be sent again, is aimed where its challenge came from. -/
structure Returning (response : QuicCtl) (data : List UInt8) (aim : NetAddr)
    (log : List ConnEvent) : Prop where
  aimed : response ≠ .idle → challengeSource data log = some aim
  returned : ResponsesReturn log

/-- While a datagram is read, a challenge in it has not been given its place yet.  `kept` says
whether a response that waited before is still aimed right. -/
structure Reading (source : Option NetAddr) (kept : Prop) (response : QuicCtl) (data : List UInt8)
    (elsewhere : Bool) (aim : NetAddr) (log : List ConnEvent) : Prop where
  aimed : response ≠ .idle →
    (elsewhere = false ∧ ∃ peer, source = some peer ∧ challengeSource data log = some peer) ∨
      kept ∧ challengeSource data log = some aim
  last : source.isSome = true → lastSource log = source
  returned : ResponsesReturn log

/-- Whether an event has to do with neither challenges nor responses. -/
def ConnEvent.quiet : ConnEvent → Bool
  | .received .. | .sent .. | .challenged .. => false
  | _ => true

section Returning

variable {v v' : ConnView} {source : Option NetAddr} {kept : Prop} {response response' : QuicCtl}
  {data : List UInt8} {elsewhere : Bool} {aim : NetAddr} {log : List ConnEvent}

theorem ResponsesReturn.event (returned : ResponsesReturn log) {event : ConnEvent}
    (apart : ∀ dest size packets, event ≠ .sent dest size packets) :
    ResponsesReturn (event :: log) := by
  intro dest size packets older within
  rcases List.suffix_cons_iff.1 within with here | before
  · cases here
    exact absurd rfl (apart dest size packets)
  · exact returned dest size packets older before

theorem ResponsesReturn.sent (returned : ResponsesReturn log) {dest : NetAddr}
    (here : ∀ packet ∈ packets, ∀ data, .pathResponse data ∈ packet.frames →
      challengeSource data log = some dest) : ResponsesReturn (.sent dest size packets :: log) := by
  intro dest' size' packets' older within
  rcases List.suffix_cons_iff.1 within with same | before
  · cases same
    exact here
  · exact returned dest' size' packets' older before

section

variable (reading : Reading source kept response data elsewhere aim log)
include reading

theorem Reading.event {event : ConnEvent} (quiet : event.quiet = true) :
    Reading source kept response data elsewhere aim (event :: log) := by
  have unsent : ∀ dest size packets, event ≠ .sent dest size packets := by
    rintro dest size packets rfl
    cases quiet
  have source_eq : challengeSource data (event :: log) = challengeSource data log := by
    cases event <;> first | rfl | cases quiet
  have last_eq : lastSource (event :: log) = lastSource log := by
    cases event <;> first | rfl | cases quiet
  refine ⟨?_, ?_, reading.returned.event unsent⟩
  · rw [source_eq]
    exact reading.aimed
  · rw [last_eq]
    exact reading.last

theorem Reading.extend {events : List ConnEvent} (quiet : ∀ event ∈ events, event.quiet = true) :
    Reading source kept response data elsewhere aim (events ++ log) := by
  induction events with
  | nil => exact reading
  | cons event events ih =>
    have rest := ih fun later noted => quiet later (List.mem_cons_of_mem event noted)
    exact rest.event (quiet event List.mem_cons_self)

theorem Reading.settle (settled : response' ≠ .idle → response ≠ .idle) :
    Reading source kept response' data elsewhere aim log :=
  ⟨fun waits => reading.aimed (settled waits), reading.last, reading.returned⟩

theorem Reading.challenge {aim' : NetAddr} {data' : List UInt8} (arrives : source.isSome = true) :
    Reading source kept .pending data' false aim' (.challenged data' :: log) := by
  obtain ⟨peer, source_eq⟩ := Option.isSome_iff_exists.1 arrives
  have unsent : ∀ dest size packets,
      ConnEvent.challenged data' ≠ .sent dest size packets := nofun
  refine ⟨fun _ => .inl ⟨rfl, peer, source_eq, ?_⟩, fun _ => reading.last arrives,
    reading.returned.event unsent⟩
  rw [challengeSource, if_pos rfl, reading.last arrives, source_eq]

end

abbrev ConnView.Reading (source : Option NetAddr) (kept : Prop) (v : ConnView) : Prop :=
  Quic.Reading source kept v.pathResponse v.pathResponseData v.respondElsewhere v.aim v.log

abbrev ConnView.Returning (v : ConnView) : Prop :=
  Quic.Returning v.pathResponse v.pathResponseData v.aim v.log

theorem quiet_of_aboutIds {events : List ConnEvent}
    (about : ∀ event ∈ events, event.aboutIds = true) : ∀ event ∈ events, event.quiet = true := by
  intro event noted
  have about_ids := about event noted
  cases event with
  | newConnId | retired | retireDropped => rfl
  | _ => cases about_ids

theorem reading_idsOnly (reading : v.Reading source kept) (ids : IdsOnly v v') :
    v'.Reading source kept := by
  obtain ⟨rest_eq, events, log_eq, about⟩ := ids
  have reading' := reading.extend (quiet_of_aboutIds about)
  rw [← log_eq] at reading'
  rw [rest_eq]
  exact reading'

theorem reading_connMove (move : ConnMove source v v') (reading : v.Reading source kept) :
    v'.Reading source kept := by
  cases move with
  | size move => cases move <;> exact reading
  | closeRead => exact (reading.event rfl).event rfl
  | acked => exact (reading.settle quicCtlAcked_ne_idle).event rfl
  | lost => exact reading.settle quicCtlLost_ne_idle
  | newConnId c =>
    exact Conn.handleNewConnId_keeps (·.Reading source kept) c (reading_idsOnly reading)
      fun _ mid => mid.event rfl
  | challenged _ data arrives => exact reading.challenge arrives
  | forgotten | opened | relabelled | activated | deadline => exact reading
  | close | silentClose | closeReread | parameters | accepted | issued | answered | confirmed
  | completed | handshakeRead => exact reading.event rfl

theorem reading_connMoves (moves : ConnMoves source v v') (reading : v.Reading source kept) :
    v'.Reading source kept :=
  steps_keep moves reading_connMove reading

/-- Sending leaves the address in use, and where a response goes, alone. -/
structure SendKept (v v' : ConnView) : Prop where
  peer_eq : v'.peer = v.peer
  elsewhere_eq : v'.respondElsewhere = v.respondElsewhere
  respondTo_eq : v'.respondTo = v.respondTo
  waits : v.pathResponse ≠ .idle → v'.pathResponse ≠ .idle

theorem sendKept_sendMove (move : SendMove v v') : SendKept v v' := by
  cases move with
  | size move => cases move <;> exact ⟨rfl, rfl, rfl, id⟩
  | flushed c c' cap size pn packets frames limit size_le written =>
    have peer_eq : c'.peer = c.peer := congrArg QuicConnPath.peer written.path_eq
    have elsewhere_eq : c'.respondElsewhere = c.respondElsewhere :=
      congrArg QuicConnPath.respondElsewhere written.path_eq
    have respondTo_eq : c'.respondTo = c.respondTo :=
      congrArg QuicConnPath.respondTo written.path_eq
    refine ⟨peer_eq, elsewhere_eq, respondTo_eq, fun waits => ?_⟩
    change c'.pathResponse ≠ .idle
    rcases written.response with same | ⟨sent, -⟩
    · rw [same]
      exact waits
    · rw [sent]
      exact nofun
  | probed => exact ⟨rfl, rfl, rfl, id⟩
  | responded => exact ⟨rfl, rfl, rfl, fun _ => nofun⟩

theorem sendKept_sendMoves (moves : SendMoves v v') : SendKept v v' := by
  induction moves with
  | refl => exact ⟨rfl, rfl, rfl, id⟩
  | tail _ move ih =>
    have kept := sendKept_sendMove move
    exact ⟨kept.peer_eq.trans ih.peer_eq, kept.elsewhere_eq.trans ih.elsewhere_eq,
      kept.respondTo_eq.trans ih.respondTo_eq, fun before => kept.waits (ih.waits before)⟩

theorem returning_flushed {c c' : QuicConnOwn} {frames : List QuicFrame}
    (written : Written pn frames c c')
    (others : ∀ packet ∈ packets, ∀ data, .pathResponse data ∈ packet.frames →
      packet.frames = frames) (returning : c.view.Returning) :
    Returning c'.pathResponse c'.pathResponseData c'.view.aim
      (.sent c.peer size packets :: c.log) := by
  have aim_eq : c'.view.aim = c.view.aim := by
    change (if c'.respondElsewhere then c'.respondTo else c'.peer) = _
    rw [written.path_eq]
    rfl
  rw [written.responseData_eq, aim_eq]
  constructor
  · intro waits
    refine returning.aimed fun idle => waits ?_
    rcases written.response with same | ⟨-, carried⟩
    · rw [same]
      exact idle
    · have pending := (written.responses _ carried).2.1
      rw [show c.pathResponse = .idle from idle] at pending
      cases pending
  · refine returning.returned.sent fun packet sent data carried => ?_
    rw [others packet sent data carried] at carried
    obtain ⟨here, pending, rfl⟩ := written.responses data carried
    have aimed := returning.aimed (by
      change c.pathResponse ≠ .idle
      rw [pending]
      exact nofun)
    have aim_peer : c.view.aim = c.peer := if_neg (by
      change ¬ c.respondElsewhere = true
      rw [here]
      exact Bool.false_ne_true)
    rw [aim_peer] at aimed
    exact aimed

theorem returning_sendMove (move : SendMove v v') (returning : v.Returning) : v'.Returning := by
  cases move with
  | size move => cases move <;> exact returning
  | flushed c c' cap size pn packets frames limit size_le written app others =>
    exact returning_flushed written others returning
  | probed =>
    refine ⟨returning.aimed, returning.returned.sent fun packet sent data carried => ?_⟩
    cases List.mem_singleton.1 sent
    cases List.mem_singleton.1 carried
  | responded _ size pn elsewhere waiting =>
    have aimed := returning.aimed (by
      rw [waiting]
      exact nofun)
    refine ⟨fun _ => aimed, returning.returned.sent fun packet sent data carried => ?_⟩
    cases List.mem_singleton.1 sent
    cases List.mem_singleton.1 carried
    rw [aimed, ConnView.aim, if_pos elsewhere]

theorem returning_sendMoves (moves : SendMoves v v') (returning : v.Returning) : v'.Returning :=
  steps_keep moves returning_sendMove returning

/-- Handling what arrives leaves the address in use alone. -/
theorem connMove_peer (move : ConnMove source v v') : v'.peer = v.peer := by
  cases move with
  | size move => cases move <;> rfl
  | newConnId c =>
    exact Conn.handleNewConnId_keeps (fun v => v.peer = c.view.peer) c (fun ids => by rw [ids.1])
      fun _ same => same
  | _ => rfl

theorem connMoves_peer (moves : ConnMoves source v v') : v'.peer = v.peer := by
  induction moves with
  | refl => rfl
  | tail _ move ih => exact (connMove_peer move).trans ih

theorem Returning.reading (returning : v.Returning) : v.Reading none True :=
  ⟨fun waits => .inr ⟨trivial, returning.aimed waits⟩, nofun, returning.returned⟩

theorem Reading.returning (reading : v.Reading none kept) : v.Returning := by
  refine ⟨fun waits => ?_, reading.returned⟩
  rcases reading.aimed waits with ⟨-, peer, source_eq, -⟩ | ⟨-, aimed⟩
  · cases source_eq
  · exact aimed

/-- A datagram arrives.  A response that waits stays aimed right if the datagram comes from the
address in use. -/
theorem Returning.receive (returning : v.Returning) (d : ConnDatagram)
    (alone : d.peer = v.peer ∨ v.pathResponse = .idle) :
    (v.receive d).Reading (some d.peer) (d.peer = v.peer) := by
  refine ⟨fun waits => .inr ?_, fun _ => rfl, returning.returned.event nofun⟩
  rcases alone with same | idle
  · exact ⟨same, returning.aimed waits⟩
  · exact absurd idle waits

/-- What was read from the address in use is answered there. -/
theorem Reading.answerHere {peer : NetAddr} (reading : v.Reading (some peer) kept)
    (placed : v.pathResponse ≠ .idle → v.respondElsewhere = false → v.peer = peer) :
    v.Returning := by
  refine ⟨fun waits => ?_, reading.returned⟩
  rcases reading.aimed waits with ⟨here, other, source_eq, aimed⟩ | ⟨-, aimed⟩
  · cases source_eq
    have aim_eq : v.aim = v.peer := if_neg (by rw [here]; exact Bool.false_ne_true)
    rw [aimed, aim_eq, placed waits here]
  · exact aimed

/-- What was read from elsewhere is answered there. -/
theorem Reading.answerElsewhere {peer : NetAddr} (reading : v.Reading (some peer) kept)
    (elsewhere : ¬ kept) : { v with respondElsewhere := true, respondTo := peer }.Returning := by
  refine ⟨fun waits => ?_, reading.returned⟩
  rcases reading.aimed waits with ⟨here, other, source_eq, aimed⟩ | ⟨known, -⟩
  · cases source_eq
    exact aimed
  · exact absurd known elsewhere

/-- What was read from elsewhere is answered there when the connection moves. -/
theorem Reading.move {peer : NetAddr} (reading : v.Reading (some peer) kept)
    (elsewhere : ¬ kept) : (v.switched peer true).Returning := by
  refine ⟨fun waits => ?_, reading.returned.event nofun⟩
  rcases reading.aimed waits with ⟨here, other, source_eq, aimed⟩ | ⟨known, -⟩
  · cases source_eq
    have aim_eq : (v.switched peer true).aim = peer := by
      change (if v.respondElsewhere then v.respondTo else peer) = peer
      rw [here]
      rfl
    rw [aim_eq]
    exact aimed
  · exact absurd known elsewhere

/-- Without a datagram nothing new is to be answered. -/
theorem idle_connMoves (moves : ConnMoves none v v') (returned : ResponsesReturn v.log)
    (idle : v.pathResponse = .idle) : v'.pathResponse = .idle := by
  have reading : v.Reading none False := ⟨fun waits => absurd idle waits, nofun, returned⟩
  by_contra waits
  rcases (reading_connMoves moves reading).aimed waits with ⟨-, peer, source_eq, -⟩ | ⟨never, -⟩
  · cases source_eq
  · exact never

end Returning

/-- While a response is in hand, nothing arrives from elsewhere and the path stays.  A challenge
that arrives from elsewhere comes in a datagram that only tests the path, or that moves the
connection. -/
def Undisturbed (op : ConnOp) (v v' : ConnView) : Prop :=
  match op with
  | .recv d _ =>
    d.peer = v.peer ∨
      v.pathResponse = .idle ∧
        (v'.pathResponse ≠ .idle → v'.respondElsewhere = true ∨ v'.peer = d.peer)
  | _ => v'.peer = v.peer ∨ v.pathResponse = .idle

instance (op : ConnOp) (v v' : ConnView) : Decidable (Undisturbed op v v') :=
  match op with
  | .recv .. => inferInstanceAs (Decidable (_ ∨ _ ∧ (_ → _)))
  | .start .. | .flush .. | .tick .. | .validatePath | .migrate .. | .close .. | .datagramSend ..
  | .keyUpdate | .stream .. => inferInstanceAs (Decidable (_ ∨ _))

/-- A datagram was read that leaves the path alone. -/
theorem Reading.handled {v mid v' : ConnView} {d : ConnDatagram} {now : Time} {kept : Prop}
    (reading : mid.Reading (some d.peer) kept) (peer_eq : mid.peer = v.peer)
    (sends : SendMoves mid v') (calm : Undisturbed (.recv d now) v v') : v'.Returning := by
  have kept := sendKept_sendMoves sends
  refine returning_sendMoves sends (reading.answerHere fun waits here => ?_)
  rcases calm with same | ⟨-, placed⟩
  · rw [peer_eq, same]
  · rcases placed (kept.waits waits) with elsewhere | moved
    · rw [kept.elsewhere_eq, here] at elsewhere
      cases elsewhere
    · rw [← moved, kept.peer_eq]

theorem returning_turn {op : ConnOp} {v v' : ConnView} (turn : ConnTurn op v v')
    (calm : Undisturbed op v v') (returning : v.Returning) : v'.Returning := by
  cases turn with
  | calm _ moves sends =>
    exact returning_sendMoves sends (reading_connMoves moves returning.reading).returning
  | @arrived d now _ mid _ moves sends =>
    have reading := reading_connMoves moves (returning.receive d (calm.imp_right And.left))
    have peer_eq : mid.peer = v.peer := (connMoves_peer moves :)
    exact reading.handled peer_eq sends calm
  | @handled d now _ mid _ moves sends =>
    have reading := reading_connMoves moves (returning.receive d (calm.imp_right And.left))
    have counted : (mid.counted d).Reading (some d.peer) (d.peer = v.peer) := reading
    have peer_eq : mid.peer = v.peer := (connMoves_peer moves :)
    exact counted.handled peer_eq sends calm
  | tested d now elsewhere moves sends =>
    have reading := reading_connMoves moves (returning.receive d (calm.imp_right And.left))
    exact returning_sendMoves sends (reading.answerElsewhere elsewhere)
  | moved d now elsewhere server moves settles sends =>
    have reading := reading_connMoves moves (returning.receive d (calm.imp_right And.left))
    have moved := reading.move elsewhere
    exact returning_sendMoves sends (reading_connMoves settles moved.reading).returning
  | @fellBack now _ mid after _ peer moves left settles sends =>
    have mid_returning := (reading_connMoves moves returning.reading).returning
    have peer_eq : v'.peer = peer :=
      (sendKept_sendMoves sends).peer_eq.trans (connMoves_peer settles)
    have fallen : (mid.fallback peer).Returning := by
      refine ⟨fun waits => ?_, mid_returning.returned⟩
      rcases calm with same | idle
      · -- the path before is the path in use
        have same_peer : peer = mid.peer := by rw [← peer_eq, same, connMoves_peer moves]
        subst same_peer
        exact mid_returning.aimed waits
      · exact absurd (idle_connMoves moves returning.returned idle) waits
    exact returning_sendMoves sends (reading_connMoves settles fallen.reading).returning
  | migrated now settles =>
    have switched : { v.switched v.peer false with prev := none }.Returning :=
      ⟨returning.aimed, returning.returned.event nofun⟩
    exact (reading_connMoves settles switched.reading).returning
  | queued => exact returning

theorem returning_create : (quicConnCreate cfg).view.Returning := by
  have none_sent : ResponsesReturn [] := by
    intro dest size packets older within
    cases List.suffix_nil.1 within
  refine ⟨fun waits => absurd rfl waits, ?_⟩
  change ResponsesReturn (if cfg.server ∧ cfg.origDcid.isSome then [.vouched cfg.peer] else [])
  split
  · exact none_sent.event nofun
  · exact none_sent

/-- Every datagram with a response goes where the last challenge with its data came from, as long as
nothing disturbs a response in hand. -/
theorem responses_return (cfg : QuicConnConfig) (calls : List ConnCall)
    (calm : Admits connStep (fun c call => Undisturbed call.op c.view (connStep c call).view)
      (quicConnCreate cfg) calls) :
    ResponsesReturn (run connStep (quicConnCreate cfg) calls).log := by
  have returning := admits_invariant (fun c : QuicConn => c.view.Returning)
    (returning_create cfg)
    (fun c call good undisturbed => returning_turn (connStep_turn c call) undisturbed good)
    calm
  exact returning.returned

def testingCalls : List ConnCall :=
  Scene.handshake [] ++ [Scene.short 2 0 [.pathChallenge (List.replicate 8 6)] 100 10000]

theorem responses_return_tested : ResponsesReturn
      (run connStep (quicConnCreate (Scene.config quicTpDefaults)) testingCalls).log :=
  responses_return (Scene.config quicTpDefaults) testingCalls (by decide +kernel)

/-- The test is copied and comes again from address 7, the response to it is lost, and what shows
the loss is the acknowledgement of a packet sent after it. -/
def replayedCalls : List ConnCall :=
  testingCalls ++
    [Scene.short 7 0 [.pathChallenge (List.replicate 8 6)] 100 20000,
      ⟨Scene.env, .validatePath⟩, ⟨Scene.env, .flush 1000000⟩,
      Scene.short 1 1 [.ack ⟨4, 0, 0, 0, [], none⟩] 100 1010000]

/-- The response goes to address 7. -/
theorem response_astray : ¬ ResponsesReturn
      (run connStep (quicConnCreate (Scene.config quicTpDefaults)) replayedCalls).log := by
  intro returned
  have within : .sent 7 1200 [⟨.app, 6, [.pathResponse (List.replicate 8 6)]⟩] ::
      (run connStep (quicConnCreate (Scene.config quicTpDefaults)) replayedCalls).log.drop 2 <:+
      (run connStep (quicConnCreate (Scene.config quicTpDefaults)) replayedCalls).log := by
    decide +kernel
  have source_eq : challengeSource (List.replicate 8 6)
      ((run connStep (quicConnCreate (Scene.config quicTpDefaults)) replayedCalls).log.drop 2) =
      some 2 := by
    decide +kernel
  have astray := returned 7 1200 _ _ within _ List.mem_cons_self _ List.mem_cons_self
  rw [source_eq] at astray
  cases astray

end Cx.Quic
