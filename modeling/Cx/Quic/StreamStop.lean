import Cx.Quic.StreamLife

/-!
# Asking the peer to stop

A STOP_SENDING frame is written anew each time it is sent, and its error is read from the stream.
The same field records the error of a STOP_SENDING that the peer sends for the other half.  A trace
keeps beside the streams the error of the last call for each stream that found it receiving.
-/

namespace Cx.Quic

open Library Function

structure StopTrace where
  streams : QuicStreams
  /-- The error of the last call that found the stream receiving. -/
  asked : Nat → Option Nat

def stopStep (env : StreamEnv) (t : StopTrace) (op : StreamOp) : StopTrace where
  streams := streamStep env t.streams op
  asked :=
    match op with
    | .stopSending id error =>
      if (quicStreamFind t.streams id).any (·.recvState = .recv) then
        update t.asked id (some error)
      else t.asked
    | _ => t.asked

/-- The peer asks for no stop on a stream on which it was asked for one. -/
def StopAllowed (t : StopTrace) : StreamOp → Prop
  | .frame (.stopSending id _) => t.asked id = none
  | _ => True

def stopStart (server : Bool) (own : QuicTransportParams) : StopTrace :=
  ⟨quicStreamsInit server own, fun _ => none⟩

/-- The moves of a call other than the application's own request. -/
def StreamGuard.unasked (asked : Nat → Option Nat) : StreamGuard :=
  { StreamGuard.any with stopped := fun id _ => asked id = none, stop := fun _ _ => False }

/-- A stream that owes a STOP_SENDING, or has one in flight, holds the error asked for. -/
def QuicStreamState.StopsAs (asked : Nat → Option Nat) (st : QuicStreamState) : Prop :=
  st.stopSending = .idle ∨ asked st.id = some st.stopError

/-- A STOP_SENDING carries the error asked for. -/
def QuicFrame.StopsAs (asked : Nat → Option Nat) (f : QuicFrame) : Prop :=
  ∀ id error, f = .stopSending id error → asked id = some error

variable {asked : Nat → Option Nat} {st later : QuicStreamState} {pn : Nat}

theorem FillMove.stopsAs {first last : QuicStreamState × QuicFill} (move : FillMove pn first last)
    (stops : first.1.StopsAs asked) :
    last.1.StopsAs asked ∧ ∀ f ∈ last.2.frames, f ∈ first.2.frames ∨ f.StopsAs asked := by
  cases move with
  | none => exact ⟨stops, fun _ early => .inl early⟩
  | stopSending wr waiting =>
    have right := stops.resolve_left (by simp [waiting])
    refine ⟨.inr right, QuicFill.wrote_new ?_⟩
    rintro id error ⟨⟩
    exact right
  | maxData | reset | blocked | data | fin => exact ⟨stops, QuicFill.wrote_new nofun⟩

theorem Visit.stopsAs {guard : StreamGuard} {carrier : Option Nat}
    (visit : Visit guard carrier st later) (stops : st.StopsAs asked) : later.StopsAs asked := by
  cases visit with
  | filled _ moves => exact (FillMoves.frames_of FillMove.stopsAs moves stops).1
  | acked pn =>
    refine stops.imp (fun idle => ?_) fun right => ?_
    · unfold streamAcked
      dsimp only
      split_ifs <;> simp [quicCtlAcked, idle]
    · unfold streamAcked
      dsimp only
      split_ifs <;> exact right
  | lost pn => exact stops.imp_left fun idle => by simp [streamLost, quicCtlLost, idle]

theorem StreamChange.stopsAs {env : StreamEnv} {carrier : Option Nat} {before : QuicStreams}
    (change : StreamChange env (.unasked asked) carrier before st later)
    (stops : st.StopsAs asked) : later.StopsAs asked := by
  cases change with
  | wait | limit | sized | counted | placed | peerReset | abandon | write | complain | finish | take
  | window | ended | endedReset => exact stops
  | advanced =>
    unfold recvAdvance
    dsimp only
    split_ifs <;> exact stops
  | stopped unasked => exact .inl (stops.resolve_right (unasked.trans_ne nofun))
  | stop _ called => exact called.elim
  | kept visit | retired visit => exact visit.stopsAs stops

def StopTrace.Right (t : StopTrace) : Prop :=
  ∀ id st, t.streams.byId.find id = some st → st.StopsAs t.asked

theorem StopTrace.Right.step {env : StreamEnv} {t : StopTrace} {op : StreamOp} (right : t.Right)
    (allowed : StopAllowed t op) : (stopStep env t op).Right := by
  have other (same : (stopStep env t op).asked = t.asked)
      (permitted : (StreamGuard.unasked t.asked).Permits t.streams op) :
      (stopStep env t op).Right := by
    rw [StopTrace.Right, same]
    exact (streamStep_moves permitted fun _ _ _ _ => trivial).invariant _
      (fun _ _ all move => move.forall_streams (fun _ => .inl rfl)
        (fun _ _ stops _ change => change.stopsAs stops) all) right
  cases op with
  | stopSending id error =>
    intro key later found
    simp only [stopStep, streamStep, quicStreamStopSending] at found ⊢
    split at found
    · next gone => simpa [gone] using right key later found
    · next st st_found =>
        obtain rfl : st.id = id := Table.key_of_find st_found
        split_ifs at found with ended
        · simpa [st_found, ended] using right key later found
        · change (t.streams.arm _).byId.find key = _ at found
          rw [arm_eq, Table.find_put] at found
          simp only [st_found, Option.any_some, not_not.1 ended, decide_true, if_true]
          split_ifs at found with here
          · cases found
            exact .inr (update_self ..)
          · have later_id : later.id ≠ st.id := by
              rw [Table.key_of_find found]
              exact here
            rw [QuicStreamState.StopsAs, update_of_ne later_id]
            exact right key later found
  | frame f =>
    refine other rfl ?_
    cases f with
    | stopSending => exact allowed
    | _ => simp
      [StreamGuard.Permits, StreamGuard.PermitsFrame, StreamGuard.unasked, StreamGuard.any]
  | _ => exact other rfl (by simp [StreamGuard.Permits, StreamGuard.unasked, StreamGuard.any])

end Cx.Quic
