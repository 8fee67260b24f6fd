import Cx.Quic.StreamActive

/-!
# Counting the peer's streams

The peer opens streams of each kind in order, and naming one opens every lower one of its kind.  A
stream that is forgotten gives its place back, so the number the peer may open grows by one with
each, up to a cap.  What the layer above was told says which streams were opened and which were
forgotten; the counters agree with it.
-/

namespace Cx.Quic

open Library Relation Function

/-- The identifiers of one kind that the layer above was told about, oldest first. -/
def openedIds (dir : QuicDir) (events : List QuicStreamEvent) : List Nat :=
  events.filterMap fun
    | .opened id => if quicStreamDir id = dir then some id else none
    | _ => none

/-- The stream is one of this kind that the peer opened. -/
def isRemote (server : Bool) (dir : QuicDir) (id : Nat) : Bool :=
  !quicStreamLocal id server && quicStreamDir id = dir

/-- How many streams of one kind that the peer opened were forgotten. -/
def forgotten (server : Bool) (dir : QuicDir) (events : List QuicStreamEvent) : Nat :=
  events.countP fun
    | .closed id => isRemote server dir id
    | _ => false

def QuicStreams.liveRemote (ss : QuicStreams) (dir : QuicDir) : Nat :=
  ss.byId.total fun st => if isRemote ss.server dir st.id then 1 else 0

structure RemoteSide where
  server : Bool
  next : Nat
  max : Nat
  opened : List Nat
  forgotten : Nat
  live : Nat

def QuicStreams.remoteSide (ss : QuicStreams) (dir : QuicDir) : RemoteSide where
  server := ss.server
  next := ss.nextRemote dir
  max := ss.recvMaxStreams dir
  opened := openedIds dir ss.events
  forgotten := forgotten ss.server dir ss.events
  live := ss.liveRemote dir

/-- The counters agree with what the layer above was told, and with the number first allowed. -/
structure RemoteSide.Counted (initial : Nat) (dir : QuicDir) (side : RemoteSide) : Prop where
  room : side.next ≤ side.max
  /-- The layer above was told about every stream once, in order. -/
  announced : side.opened = (List.range side.next).map fun index =>
    quicStreamMakeId index (!side.server) (dir = .uni)
  /-- Every stream that was forgotten gave its place back, up to the cap. -/
  granted : side.max =
    Nat.max initial (Nat.min QUIC_MAX_STREAM_COUNT (initial + side.forgotten))
  live : side.live + side.forgotten = side.next

section

variable {env : StreamEnv} {guard : StreamGuard} {carrier : Option Nat}
  {before after ss : QuicStreams} {id : Nat} {st later : QuicStreamState}

/-- Storing a stream under its own identifier changes no count. -/
theorem liveRemote_put (server : Bool) (dir : QuicDir) (found : before.byId.find st.id = some st)
    (id_eq : later.id = st.id) :
    (before.byId.put later).total (fun st => if isRemote server dir st.id then 1 else 0) =
      before.byId.total fun st => if isRemote server dir st.id then 1 else 0 := by
  have total := Table.total_put_of_find
    (fun st : QuicStreamState => if isRemote server dir st.id then 1 else 0)
    (id_eq ▸ found : before.byId.find later.id = some st)
  simp only [id_eq] at total
  omega

theorem remoteSide_store (dir : QuicDir) (found : ss.byId.find st.id = some st)
    (id_eq : later.id = st.id) : (ss.store later).remoteSide dir = ss.remoteSide dir := by
  have live := liveRemote_put ss.server dir found id_eq
  unfold QuicStreams.remoteSide QuicStreams.liveRemote
  simp only [RemoteSide.mk.injEq]
  exact ⟨rfl, rfl, rfl, rfl, rfl, live⟩

theorem remoteSide_tell (ss : QuicStreams) (dir : QuicDir) (event : QuicStreamEvent)
    (not_opened : ∀ id, event ≠ .opened id) (not_closed : ∀ id, event ≠ .closed id) :
    (ss.tell event).remoteSide dir = ss.remoteSide dir := by
  have opened_eq : openedIds dir (ss.events ++ [event]) = openedIds dir ss.events := by
    cases event with
    | opened id => exact absurd rfl (not_opened id)
    | _ => simp [openedIds]
  have forgotten_eq : forgotten ss.server dir (ss.events ++ [event]) =
      forgotten ss.server dir ss.events := by
    cases event with
    | closed id => exact absurd rfl (not_closed id)
    | _ => simp [forgotten]
  unfold QuicStreams.remoteSide
  simp only [RemoteSide.mk.injEq]
  exact ⟨rfl, rfl, rfl, opened_eq, forgotten_eq, rfl⟩

theorem remoteSide_wake (ss : QuicStreams) (woken : Bool) (id : Nat) (dir : QuicDir) :
    (ss.wake woken id).remoteSide dir = ss.remoteSide dir := by
  cases woken
  · rfl
  · exact remoteSide_tell ss dir (.writable id) nofun nofun

def QuicStreams.Counted (initial : QuicDir → Nat) (ss : QuicStreams) : Prop :=
  ∀ dir, (ss.remoteSide dir).Counted (initial dir) dir

variable {initial : QuicDir → Nat} {dir : QuicDir}

theorem QuicStreams.Counted.congr (counted : before.Counted initial)
    (same : ∀ dir, after.remoteSide dir = before.remoteSide dir) : after.Counted initial :=
  fun dir => same dir ▸ counted dir

theorem isRemote_remoteNextId (ss : QuicStreams) (dir other : QuicDir) :
    isRemote ss.server other (remoteNextId ss dir) = decide (dir = other) := by
  simp [isRemote, remoteNextId]

/-- What admitting a stream does to the counts of its own kind and of the other. -/
theorem remoteSide_streamAdmitNext (all_known : before.AllKnown) (dir other : QuicDir) :
    (streamAdmitNext before dir).remoteSide other = if dir = other then
        { before.remoteSide other with
          next := before.nextRemote other + 1
          opened := (before.remoteSide other).opened ++ [remoteNextId before dir]
          live := before.liveRemote other + 1 }
      else before.remoteSide other := by
  have live_eq : (streamAdmitNext before dir).liveRemote other =
      before.liveRemote other + if dir = other then 1 else 0 := by
    have total := total_put_fresh all_known (not_knows_remoteNextId before dir)
      fun st => if isRemote before.server other st.id then 1 else 0
    have id_eq : (streamInit before (remoteNextId before dir)).id = remoteNextId before dir := rfl
    rw [id_eq, isRemote_remoteNextId] at total
    simp only [decide_eq_true_eq] at total
    exact total
  have events_eq : (streamAdmitNext before dir).events =
      before.events ++ [.opened (remoteNextId before dir)] := rfl
  have dir_eq : quicStreamDir (remoteNextId before dir) = dir :=
    quicStreamDir_makeId (before.nextRemote dir) (!before.server) dir
  have server_eq : (streamAdmitNext before dir).server = before.server := rfl
  unfold QuicStreams.remoteSide
  split_ifs at live_eq ⊢ with here <;> simp only [RemoteSide.mk.injEq, events_eq, server_eq]
  · subst here
    exact ⟨trivial, update_self dir _ _, rfl, by simp [openedIds, dir_eq], by simp [forgotten],
      live_eq⟩
  · exact ⟨trivial, update_of_ne (Ne.symm here) _ _, rfl, by simp [openedIds, dir_eq, here],
      by simp [forgotten], live_eq⟩

theorem QuicStreams.Counted.admit (counted : before.Counted initial) (all_known : before.AllKnown)
    (room : before.nextRemote dir < before.recvMaxStreams dir) :
    (streamAdmitNext before dir).Counted initial := by
  intro other
  rw [remoteSide_streamAdmitNext all_known]
  split_ifs with here
  · subst here
    obtain ⟨-, announced, granted, live⟩ := counted dir
    refine ⟨room, ?_, granted, ?_⟩
    · simp only [List.range_succ, List.map_append]
      exact congrArg (· ++ _) announced
    · exact (Nat.add_right_comm ..).trans (congrArg (· + 1) live)
  · exact counted other

/-- What forgetting a stream does to the counts of its own kind and of the other. -/
theorem remoteSide_streamForget (found : ss.byId.find id = some st) (dir : QuicDir) :
    (streamForget ss id).remoteSide dir = if isRemote ss.server dir id then
        { ss.remoteSide dir with
          max := if QUIC_MAX_STREAM_COUNT ≤ ss.recvMaxStreams dir then ss.recvMaxStreams dir
            else ss.recvMaxStreams dir + 1
          forgotten := (ss.remoteSide dir).forgotten + 1
          live := (ss.remoteSide dir).live - 1 }
      else ss.remoteSide dir := by
  have st_id : st.id = id := Table.key_of_find found
  have total := Table.total_erase
    (fun st : QuicStreamState => if isRemote ss.server dir st.id then 1 else 0) ss.byId id
  rw [Table.share_of_find _ found, st_id] at total
  have opened_eq : openedIds dir (ss.events ++ [.closed id]) = openedIds dir ss.events := by
    simp [openedIds]
  have forgotten_eq : forgotten ss.server dir (ss.events ++ [.closed id]) =
      forgotten ss.server dir ss.events + if isRemote ss.server dir id then 1 else 0 := by
    simp [forgotten]
  rw [streamForget_eq]
  by_cases remote : isRemote ss.server dir id = true
  · have opener : quicStreamLocal id ss.server = false := by
      simp only [isRemote, Bool.and_eq_true, Bool.not_eq_true'] at remote
      exact remote.1
    have kind : quicStreamDir id = dir := by
      simp only [isRemote, Bool.and_eq_true, decide_eq_true_eq] at remote
      exact remote.2
    rw [if_pos remote] at total forgotten_eq ⊢
    unfold QuicStreams.remoteSide QuicStreams.liveRemote
    simp only [RemoteSide.mk.injEq, opener, kind, Bool.false_eq_true, false_or, true_and]
    refine ⟨?_, opened_eq, forgotten_eq, by omega⟩
    split_ifs with capped
    · rfl
    · exact update_self dir _ _
  · rw [if_neg remote] at total forgotten_eq ⊢
    unfold QuicStreams.remoteSide QuicStreams.liveRemote
    simp only [RemoteSide.mk.injEq, true_and]
    refine ⟨?_, opened_eq, forgotten_eq, by omega⟩
    split_ifs with kept
    · rfl
    · refine update_of_ne ?_ _ _
      rintro rfl
      simp only [not_or, Bool.not_eq_true] at kept
      exact remote (by simp [isRemote, kept.1])

theorem liveRemote_pos (found : ss.byId.find id = some st)
    (remote : isRemote ss.server dir id = true) : 0 < ss.liveRemote dir := by
  have st_id : st.id = id := Table.key_of_find found
  have share := Table.share_le_total
    (fun st : QuicStreamState => if isRemote ss.server dir st.id then 1 else 0) ss.byId id
  rw [Table.share_of_find _ found, st_id, if_pos remote] at share
  exact share

theorem QuicStreams.Counted.forget (counted : ss.Counted initial)
    (found : ss.byId.find id = some st) : (streamForget ss id).Counted initial := by
  intro dir
  rw [remoteSide_streamForget found]
  by_cases remote : isRemote ss.server dir id = true
  · rw [if_pos remote]
    have live_pos : 0 < (ss.remoteSide dir).live := liveRemote_pos found remote
    have max_eq : (ss.remoteSide dir).max = ss.recvMaxStreams dir := rfl
    obtain ⟨room, announced, granted, live⟩ := counted dir
    refine ⟨?_, announced, ?_, ?_⟩
    · simp only
      split_ifs <;> omega
    · simp only [Nat.max_def, Nat.min_def] at granted ⊢
      split_ifs at granted ⊢ <;> omega
    · simp only
      omega
  · rw [if_neg remote]
    exact counted dir

theorem QuicStreams.Counted.settle (counted : ss.Counted initial)
    (found : ss.byId.find st.id = some st) (id_eq : later.id = st.id) :
    (streamSettle ss later).Counted initial := by
  rcases streamSettle_cases ss later with ⟨-, settle_eq⟩ | ⟨-, -, settle_eq⟩
  · rw [settle_eq]
    exact counted.congr fun dir => remoteSide_store dir found id_eq
  · rw [settle_eq, id_eq]
    exact counted.forget found

theorem StreamMove.counts (move : StreamMove env guard carrier before after)
    (all_known : before.AllKnown) (counted : before.Counted initial) : after.Counted initial := by
  cases move with
  | params | configure | ctl | connLimit | dropped | rotated =>
    exact counted.congr fun dir => rfl
  | fail =>
    unfold streamsFail
    split_ifs <;> exact counted.congr fun dir => rfl
  | credit =>
    rcases connWindowUpdate_cases before with same | ⟨-, moved⟩
    · rw [same]
      exact counted
    · rw [moved]
      exact counted.congr fun dir => rfl
  | countLimit dir =>
    unfold handleMaxStreams
    split_ifs <;> exact counted.congr fun dir => rfl
  | admitted room => exact counted.admit all_known room
  | @opened dir =>
    refine counted.congr fun other => ?_
    have total := total_put_fresh all_known (not_knows_localNextId before dir)
      fun st => if isRemote before.server other st.id then 1 else 0
    have share : (if isRemote before.server other (streamInit before (quicStreamMakeId
        (before.nextLocal dir) before.server (dir = .uni))).id then 1 else 0) = 0 :=
      if_neg (by simp [isRemote, streamInit])
    rw [share] at total
    unfold QuicStreams.remoteSide
    simp only [RemoteSide.mk.injEq]
    exact ⟨rfl, rfl, rfl, rfl, rfl, total⟩
  | limit found | sized found | placed found | take found | counted found =>
    exact counted.congr fun dir => remoteSide_store dir found rfl
  | @advanced st found =>
    exact counted.congr fun dir => remoteSide_store dir found (id_recvAdvance st)
  | @notified st =>
    exact counted.congr fun dir => remoteSide_tell before dir (.readable st.id) (by simp) (by simp)
  | @peerReset st found receives known final first unread error =>
    obtain ⟨recvRead, return_eq⟩ := recvReturn_eq before (recvAbandon st) st.recvFinal
    rw [return_eq]
    refine counted.congr fun dir => ?_
    rw [remoteSide_tell _ dir (.readable st.id) (by simp) (by simp),
      remoteSide_tell _ dir (.reset st.id error) (by simp) (by simp)]
    exact remoteSide_store dir found (by rw [recvReturn_stream]; rfl)
  | @stopped st found error =>
    refine counted.congr fun dir => ?_
    rw [← remoteSide_tell before dir (.stopped st.id error) (by simp) (by simp)]
    have found_tell : (before.tell (.stopped st.id error)).byId.find st.id = some st := found
    exact remoteSide_store dir found_tell rfl
  | abandon found | write found | complain found | finish found | stop found | window found =>
    rw [arm_eq]
    exact counted.congr fun dir => remoteSide_store dir found rfl
  | @ended st found | @endedReset st found =>
    refine QuicStreams.Counted.congr ?_ fun dir =>
      remoteSide_tell _ dir (.fin st.id) (by simp) (by simp)
    exact counted.settle found rfl
  | @wait st found wait woken =>
    refine counted.congr fun dir => ?_
    rw [← remoteSide_wake before woken st.id dir]
    have found_wake : (before.wake woken st.id).byId.find st.id = some st := by
      rw [byId_wake]
      exact found
    exact remoteSide_store dir found_wake rfl
  | @kept st after found visit wait woken =>
    refine counted.congr fun dir => ?_
    rw [← remoteSide_wake before woken st.id dir]
    exact remoteSide_store dir ((byId_wake before woken st.id).symm ▸ found) visit.id_eq
  | @retired st after front back found listed visit wait woken =>
    have woken_counted : QuicStreams.Counted initial
        { before.wake woken st.id with active := front ++ back } :=
      counted.congr fun dir => remoteSide_wake before woken st.id dir
    exact woken_counted.settle ((byId_wake before woken st.id).symm ▸ found) visit.id_eq

/-- The streams the peer may open of each kind before any was forgotten. -/
def initialStreams (server : Bool) (tp : QuicTransportParams) : QuicDir → Nat :=
  (quicStreamsInit server tp).recvMaxStreams

theorem counted_init (server : Bool) (tp : QuicTransportParams) :
    (quicStreamsInit server tp).Counted (initialStreams server tp) := by
  intro dir
  refine ⟨Nat.zero_le _, rfl, ?_, rfl⟩
  exact (Nat.max_eq_left (Nat.min_le_right _ _)).symm

theorem counted_run (env : StreamEnv) (server : Bool) (tp : QuicTransportParams)
    (ops : List StreamOp) : (run (streamStep env) (quicStreamsInit server tp) ops).Counted
      (initialStreams server tp) := by
  refine (streamRun_invariant (fun ss => ss.AllKnown ∧ ss.Counted (initialStreams server tp)) ?_
    ⟨QuicStreams.allKnown_init server tp, counted_init server tp⟩ ops).2
  rintro carrier before after ⟨all_known, counted⟩ move
  exact ⟨move.allKnown all_known, move.counts all_known counted⟩

/-- No more streams of one kind exist than the peer could open at first. -/
theorem RemoteSide.Counted.live_le {initial : Nat} {side : RemoteSide}
    (counted : side.Counted initial dir) : side.live ≤ initial := by
  obtain ⟨room, -, granted, live⟩ := counted
  simp only [Nat.max_def, Nat.min_def] at granted
  split_ifs at granted <;> omega

end

end Cx.Quic
