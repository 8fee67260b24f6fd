import Cx.Quic.ConnTurn

/-!
# How a connection ends

Six ways lead out of an open connection, and each of them tells the layer above.  Once it was told,
it is told again only when the peer's CONNECTION_CLOSE is read while this endpoint is closing.
-/

namespace Cx.Quic

open Library

def ConnEvent.tellsClosed : ConnEvent → Bool
  | .closed => true
  | _ => false

def ConnEvent.crossesClose : ConnEvent → Bool
  | .closeRead .closing => true
  | _ => false

/-- How often the layer above was told that the connection is over. -/
def closedCalls (log : List ConnEvent) : Nat := log.countP ConnEvent.tellsClosed

def crossedCloses (log : List ConnEvent) : Nat := log.countP ConnEvent.crossesClose

/-- The layer above is told when a connection stops being open, and once more for every
CONNECTION_CLOSE that crosses this endpoint's own. -/
structure ToldOfEnd (state : QuicConnState) (log : List ConnEvent) : Prop where
  calls_eq : closedCalls log = (if state.Open then 0 else 1) + crossedCloses log
  uncrossed : state.Open → crossedCloses log = 0

section Told

variable {v v' : ConnView} {state state' : QuicConnState} {log : List ConnEvent}

theorem closedCalls_append (events log : List ConnEvent) :
    closedCalls (events ++ log) = closedCalls events + closedCalls log :=
  List.countP_append

theorem crossedCloses_append (events log : List ConnEvent) :
    crossedCloses (events ++ log) = crossedCloses events + crossedCloses log :=
  List.countP_append

section

variable (told : ToldOfEnd state log)
include told

theorem ToldOfEnd.extend {events : List ConnEvent} (silent : closedCalls events = 0)
    (apart : crossedCloses events = 0) : ToldOfEnd state (events ++ log) := by
  have calls_eq : closedCalls (events ++ log) = closedCalls log := by
    rw [closedCalls_append, silent, Nat.zero_add]
  have crossed_eq : crossedCloses (events ++ log) = crossedCloses log := by
    rw [crossedCloses_append, apart, Nat.zero_add]
  refine ⟨?_, ?_⟩
  · rw [calls_eq, crossed_eq, told.calls_eq]
  · rw [crossed_eq]
    exact told.uncrossed

theorem ToldOfEnd.event {event : ConnEvent} (silent : event.tellsClosed = false)
    (apart : event.crossesClose = false) : ToldOfEnd state (event :: log) := by
  have calls_eq : closedCalls [event] = 0 := by simp [closedCalls, silent]
  have crossed_eq : crossedCloses [event] = 0 := by simp [crossedCloses, apart]
  exact told.extend calls_eq crossed_eq

theorem ToldOfEnd.close (live : state.Open) (ended : ¬ state'.Open) :
    ToldOfEnd state' (.closed :: log) := by
  have calls_eq := told.calls_eq
  have more_eq : closedCalls (.closed :: log) = closedCalls log + 1 := List.countP_cons_of_pos rfl
  have crossed_eq : crossedCloses (.closed :: log) = crossedCloses log := rfl
  rw [if_pos live] at calls_eq
  refine ⟨?_, fun still => absurd still ended⟩
  rw [more_eq, crossed_eq, if_neg ended]
  omega

theorem ToldOfEnd.settle (same : state.Open ↔ state'.Open) : ToldOfEnd state' log := by
  have calls_eq := told.calls_eq
  have uncrossed := told.uncrossed
  simp only [same] at calls_eq uncrossed
  exact ⟨calls_eq, uncrossed⟩

/-- The peer's CONNECTION_CLOSE is read.  An open connection was not told of its end before, and one
that is closing was. -/
theorem ToldOfEnd.closeRead (news : state ≠ .draining ∧ state ≠ .closed) :
    ToldOfEnd .draining (.closed :: .closeRead state :: log) := by
  have not_open : ¬ QuicConnState.draining.Open := by decide
  have calls_eq := told.calls_eq
  refine ⟨?_, fun still => absurd still not_open⟩
  change closedCalls ([.closed, .closeRead state] ++ log) =
    _ + crossedCloses ([.closed, .closeRead state] ++ log)
  have told_once : closedCalls [.closed, .closeRead state] = 1 := rfl
  rw [closedCalls_append, crossedCloses_append, calls_eq, if_neg not_open, told_once]
  cases state with
  | new | handshake | connected =>
    rw [if_pos (by decide)]
    rfl
  | closing =>
    rw [if_neg (by decide)]
    rfl
  | draining => exact absurd rfl news.1
  | closed => exact absurd rfl news.2

theorem ToldOfEnd.closeReread (known : state = .draining ∨ state = .closed) :
    ToldOfEnd .draining (.closeRead state :: log) := by
  rcases known with rfl | rfl
  · exact told.event rfl rfl
  · exact (told.settle (by decide)).event rfl rfl

end

theorem silent_aboutIds {events : List ConnEvent}
    (about : ∀ event ∈ events, event.aboutIds = true) :
    closedCalls events = 0 ∧ crossedCloses events = 0 := by
  constructor
  all_goals
    refine List.countP_eq_zero.2 fun event noted => ?_
    have about_ids := about event noted
    cases event with
    | newConnId | retired | retireDropped => exact Bool.false_ne_true
    | _ => cases about_ids

theorem toldOfEnd_idsOnly (told : ToldOfEnd v.state v.log) (ids : IdsOnly v v') :
    ToldOfEnd v'.state v'.log := by
  obtain ⟨rest_eq, events, log_eq, about⟩ := ids
  have state_eq : v'.state = v.state := by rw [rest_eq]
  obtain ⟨silent, apart⟩ := silent_aboutIds about
  rw [log_eq, state_eq]
  exact told.extend silent apart

theorem toldOfEnd_sizeMove (move : SizeMove v v') (told : ToldOfEnd v.state v.log) :
    ToldOfEnd v'.state v'.log := by
  cases move <;> exact told

theorem toldOfEnd_connMove {source : Option NetAddr} (move : ConnMove source v v')
    (told : ToldOfEnd v.state v.log) : ToldOfEnd v'.state v'.log := by
  have not_open_closing : ¬ QuicConnState.closing.Open := by decide
  have not_open_closed : ¬ QuicConnState.closed.Open := by decide
  cases move with
  | size move => exact toldOfEnd_sizeMove move told
  | close _ live => exact told.close live not_open_closing
  | silentClose _ live => exact told.close live not_open_closed
  | forgotten _ ended =>
    refine told.settle ?_
    rcases ended with closing | draining
    · simp [QuicConnState.Open, closing]
    · simp [QuicConnState.Open, draining]
  | closeRead _ news => exact told.closeRead news
  | closeReread _ known => exact told.closeReread known
  | opened _ state live still_live => exact told.settle ⟨fun _ => still_live, fun _ => live⟩
  | newConnId c =>
    exact Conn.handleNewConnId_keeps (fun v => ToldOfEnd v.state v.log) c (toldOfEnd_idsOnly told)
      fun live kept => kept.close live not_open_closing
  | lost | relabelled | activated | deadline => exact told
  | acked | parameters | accepted | issued | challenged | answered | confirmed | completed
  | handshakeRead => exact told.event rfl rfl

theorem toldOfEnd_sendMove (move : SendMove v v') (told : ToldOfEnd v.state v.log) :
    ToldOfEnd v'.state v'.log := by
  cases move with
  | size move => exact toldOfEnd_sizeMove move told
  | flushed c c' cap size pn packets frames limit size_le written =>
    have state_eq : c'.state = c.state := congrArg ConnView.state written.rest_eq
    have told' : ToldOfEnd c.state (.sent c.peer size packets :: c.log) := told.event rfl rfl
    rw [← state_eq] at told'
    exact told'
  | probed | responded => exact told.event rfl rfl

end Told

theorem toldOfEnd_invariant : ViewInvariant fun v => ToldOfEnd v.state v.log where
  move := toldOfEnd_connMove
  send := toldOfEnd_sendMove
  receive _ told := told.event rfl rfl
  counted _ told := told
  tested _ told := told
  switched _ told := told.event rfl rfl
  fallback _ _ told := told
  migrated told := told.event rfl rfl
  queued _ told := told

theorem toldOfEnd_create (cfg : QuicConnConfig) :
    ToldOfEnd (quicConnCreate cfg).state (quicConnCreate cfg).log := by
  have fresh : ToldOfEnd .new [] := ⟨rfl, fun _ => rfl⟩
  change ToldOfEnd .new (if cfg.server ∧ cfg.origDcid.isSome then [.vouched cfg.peer] else [])
  split
  · exact fresh.event rfl rfl
  · exact fresh

/-- The layer above is told of the end at most once if and only if no CONNECTION_CLOSE was read
while this endpoint was closing. -/
theorem closed_told_once_iff (cfg : QuicConnConfig) (calls : List ConnCall) :
    closedCalls (run connStep (quicConnCreate cfg) calls).log ≤ 1 ↔
      ConnEvent.closeRead .closing ∉ (run connStep (quicConnCreate cfg) calls).log := by
  have told := toldOfEnd_invariant.run (quicConnCreate cfg) (toldOfEnd_create cfg) calls
  change ToldOfEnd (run connStep (quicConnCreate cfg) calls).state
    (run connStep (quicConnCreate cfg) calls).log at told
  generalize run connStep (quicConnCreate cfg) calls = c at told ⊢
  have calls_eq := told.calls_eq
  constructor
  · intro once crossed
    have crossed_pos : 0 < crossedCloses c.log := List.countP_pos_iff.2 ⟨_, crossed, rfl⟩
    by_cases live : c.state.Open
    · exact absurd (told.uncrossed live) crossed_pos.ne'
    · rw [if_neg live] at calls_eq
      omega
  · intro apart
    have none_crossed : crossedCloses c.log = 0 := by
      refine List.countP_eq_zero.2 fun event noted crosses => apart ?_
      cases event with
      | closeRead state =>
        cases state with
        | closing => exact noted
        | _ => cases crosses
      | _ => cases crosses
    split_ifs at calls_eq <;> omega

/-- The application closes, and the client's own CONNECTION_CLOSE is on its way. -/
def crossingCalls : List ConnCall :=
  Scene.handshake [] ++
    [⟨Scene.env, .close 0 true []⟩, ⟨Scene.env, .flush 3000⟩,
      Scene.short 1 0 [.connCloseApp 7 []] 60 4000]

theorem closed_told_twice :
    closedCalls (run connStep (quicConnCreate (Scene.config quicTpDefaults)) crossingCalls).log =
      2 := by
  decide +kernel

/-! ### Nothing leads back -/

variable {v v' : ConnView}

theorem ended_connMove {source : Option NetAddr} (move : ConnMove source v v')
    (ended : ¬v.state.Open) : ¬v'.state.Open := by
  have not_open : ∀ state ∈ [QuicConnState.closing, .draining, .closed], ¬state.Open := by decide
  cases move with
  | size move => cases move <;> exact ended
  | close | silentClose | forgotten | closeRead | closeReread => exact not_open _ (by simp)
  | opened _ state live => exact absurd live ended
  | newConnId c =>
    refine Conn.handleNewConnId_keeps (fun v => ¬v.state.Open) c ?_ fun live gone =>
      absurd live gone
    rintro w ⟨rest_eq, -⟩
    rwa [show w.state = c.state by rw [rest_eq]; rfl]
  | _ => exact ended

theorem ended_sendMove (move : SendMove v v') (ended : ¬v.state.Open) : ¬v'.state.Open := by
  cases move with
  | size move => cases move <;> exact ended
  | flushed c c' cap size pn packets frames limit size_le written =>
    have state_eq : c'.state = c.state := congrArg ConnView.state written.rest_eq
    exact fun live => ended (state_eq ▸ live : c.state.Open)
  | probed | responded => exact ended

/-- No call and no datagram brings a connection back that is closing, draining or closed. -/
theorem ended_stays_ended (cfg : QuicConnConfig) (front back : List ConnCall)
    (ended : ¬(run connStep (quicConnCreate cfg) front).state.Open) :
    ¬(run connStep (quicConnCreate cfg) (front ++ back)).state.Open := by
  have invariant : ViewInvariant fun v => ¬v.state.Open :=
    { move := ended_connMove, send := ended_sendMove, receive := fun _ => id, counted := fun _ => id
      tested := fun _ => id, switched := fun _ => id, fallback := fun _ _ => id, migrated := id
      queued := fun _ => id }
  rw [run_append]
  exact invariant.run _ ended back

theorem ended_stays_ended_close :
    ¬(run connStep (quicConnCreate (Scene.config quicTpDefaults))
      ([⟨Scene.env, .close 0 true []⟩] ++ Scene.handshake [])).state.Open :=
  ended_stays_ended _ _ _ (by decide +kernel)

end Cx.Quic
