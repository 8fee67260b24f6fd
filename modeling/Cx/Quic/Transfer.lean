import Cx.Library.Run
import Cx.Quic.Reasm
import Cx.Quic.SendBuf

/-!
# A send buffer joined to a reassembly buffer

The channel keeps every segment it was ever given and may deliver any of them at any time, any
number of times, or never: loss, duplication, delay and reordering.  The reader consumes any amount
that is readable.  The sender holds a window of what was written, every segment on the channel is a
part of what was written, and what was consumed is what was written below the receiver's `base`.
-/

namespace Cx.Quic

open Library List

structure Transfer where
  sb : QuicSendBuf
  r : QuicReasm
  channel : List QuicSegment
  /-- The concatenation of all bytes that `quicSendBufAdd` accepted. -/
  written : List UInt8
  consumed : List UInt8

/-- The operations on the two buffers and the channel between them. -/
inductive TransferOp where
  | add (alloc : Nat → Bool) (data : List UInt8)
  /-- Hand out the next pending range without recording a packet for it. -/
  | next (max : Nat)
  /-- Hand out the next pending range and record the packet it went into. -/
  | nextSent (max pn : Nat)
  | probe (max : Nat)
  | acked (pn : Nat)
  | lost (pn : Nat)
  | reset
  | deliver (alloc : Nat → Bool) (index : Nat)
  | consume (len : Nat)

namespace Transfer

def start (limit : Nat) : Transfer := ⟨quicSendBufInit, quicReasmInit limit, [], [], []⟩

def step (t : Transfer) : TransferOp → Transfer
  | .add alloc data =>
    match quicSendBufAdd alloc t.sb data with
    | some sb => { t with sb := sb, written := t.written ++ data }
    | none => t
  | .next max =>
    match quicSendBufNext t.sb max with
    | some segment => { t with channel := t.channel ++ [segment] }
    | none => t
  | .nextSent max pn =>
    match quicSendBufNext t.sb max with
    | some segment =>
      { t with
        sb := quicSendBufSent t.sb segment.off segment.data.length pn
        channel := t.channel ++ [segment] }
    | none => t
  | .probe max =>
    match quicSendBufProbe t.sb max with
    | some segment => { t with channel := t.channel ++ [segment] }
    | none => t
  | .acked pn => { t with sb := quicSendBufAcked t.sb pn }
  | .lost pn => { t with sb := quicSendBufLost t.sb pn }
  | .reset => { t with sb := quicSendBufReset t.sb }
  | .deliver alloc index =>
    match t.channel[index]? with
    | some segment =>
      match quicReasmAdd alloc t.r segment.off segment.data with
      | some r => { t with r := r }
      | none => t
    | none => t
  | .consume len =>
    if len ≤ quicReasmReadable t.r then
      { t with
        r := quicReasmConsume t.r len
        consumed := t.consumed ++ Memory.slice (quicReasmData t.r) 0 len }
    else t

def Genuine (written : List UInt8) (segment : QuicSegment) : Prop :=
  ∀ index, index < segment.data.length → written[segment.off + index]? = segment.data[index]?

variable {written : List UInt8} {segment : QuicSegment} {t : Transfer}

theorem Genuine.append (genuine : Genuine written segment) (more : List UInt8) :
    Genuine (written ++ more) segment := by
  intro index index_lt
  have same := genuine index index_lt
  rw [List.getElem?_eq_getElem index_lt] at same
  obtain ⟨in_range, -⟩ := List.getElem?_eq_some_iff.1 same
  rw [List.getElem?_append_left in_range, same, List.getElem?_eq_getElem index_lt]

theorem Genuine.length_le (genuine : Genuine written segment) :
    segment.data.length ≤ written.length := by
  by_cases empty : segment.data.length = 0
  · omega
  · have last_lt : segment.data.length - 1 < segment.data.length := by omega
    have same := genuine _ last_lt
    rw [List.getElem?_eq_getElem last_lt] at same
    obtain ⟨in_range, -⟩ := List.getElem?_eq_some_iff.1 same
    omega

theorem genuine_chunkSegment {sb : QuicSendBuf} {max : Nat} {chunk : QuicSendChunk}
    (sound : sb.Sound) (stores : sb.Stores written) (chunk_mem : chunk ∈ sb.chunks) :
    Genuine written (chunkSegment sb max chunk) := by
  intro index index_lt
  rw [QuicSendBuf.chunkSegment_eq sound stores chunk_mem, List.getElem?_take_of_lt index_lt,
    List.getElem?_drop]
  rfl

/-- The sender and the receiver agree with what was written. -/
structure Faithful (t : Transfer) : Prop where
  sender : t.sb.Sound
  held : t.sb.Stores t.written
  genuine : ∀ segment ∈ t.channel, Genuine t.written segment
  receiver : t.r.Sound
  recorded : t.r.Stores t.written
  base_le : t.r.base ≤ t.written.length
  consumed_eq : t.consumed = t.written.take t.r.base

theorem faithful_start (limit : Nat) : Faithful (start limit) :=
  ⟨QuicSendBuf.sound_init, QuicSendBuf.stores_init, by simp [start], QuicReasm.sound_init limit,
    QuicReasm.stores_init limit _, le_rfl, rfl⟩

theorem Faithful.withChannel (faithful : Faithful t) (genuine : Genuine t.written segment) :
    Faithful { t with channel := t.channel ++ [segment] } :=
  { faithful with
    genuine := forall_mem_append.2 ⟨faithful.genuine, forall_mem_singleton.2 genuine⟩ }

theorem Faithful.withSender {sb : QuicSendBuf} (faithful : Faithful t) (sound : sb.Sound)
    (stores : sb.Stores t.written) : Faithful { t with sb := sb } :=
  { faithful with sender := sound, held := stores }

/-- Every handed out segment is genuine. -/
theorem Faithful.next {max : Nat} (faithful : Faithful t)
    (handed : quicSendBufNext t.sb max = some segment) : Genuine t.written segment := by
  obtain ⟨-, front, chunk, rest, chunks_eq, -, -, rfl⟩ := QuicSendBuf.next_eq_some handed
  exact genuine_chunkSegment faithful.sender faithful.held (by simp [chunks_eq])

/-- An operation only ever appends to what was written. -/
theorem written_step (t : Transfer) (op : TransferOp) : t.written <+: (step t op).written := by
  cases op with
  | add =>
    simp only [step]
    split
    · exact prefix_append _ _
    · exact prefix_rfl
  | deliver =>
    simp only [step]
    split
    · split <;> exact prefix_rfl
    · exact prefix_rfl
  | next | nextSent | probe | consume =>
    simp only [step]
    split <;> exact prefix_rfl
  | acked | lost | reset => exact prefix_rfl

/-- Every operation keeps the two sides in agreement, as long as offsets stay below `2 ^ 64`. -/
theorem faithful_step (op : TransferOp) (small : t.written.length < 2 ^ 64)
    (faithful : Faithful t) : Faithful (step t op) := by
  cases op with
  | add alloc data =>
    simp only [step]
    split
    · next sb added =>
        obtain ⟨sound, -, -, -, stores⟩ := QuicSendBuf.add_spec faithful.sender added
        refine ⟨sound, stores _ faithful.held, ?_, faithful.receiver,
          faithful.recorded.append data, ?_, ?_⟩
        · intro segment segment_mem
          exact (faithful.genuine segment segment_mem).append data
        · simpa using faithful.base_le.trans (Nat.le_add_right _ _)
        · rw [faithful.consumed_eq, take_append_of_le_length faithful.base_le]
    · exact faithful
  | next =>
    simp only [step]
    split
    · next segment handed => exact faithful.withChannel (faithful.next handed)
    · exact faithful
  | nextSent max pn =>
    simp only [step]
    split
    · next segment handed =>
        obtain ⟨chunks, sent_eq, tiles, -⟩ :=
          QuicSendBuf.sent_next_spec pn faithful.sender handed
        rw [sent_eq]
        exact (faithful.withChannel (faithful.next handed)).withSender
          (faithful.sender.withChunks tiles) (faithful.held.withChunks chunks)
    · exact faithful
  | probe =>
    simp only [step]
    split
    · next segment handed =>
        obtain ⟨chunk, chunk_mem, rfl⟩ := QuicSendBuf.probe_eq_some handed
        exact faithful.withChannel (genuine_chunkSegment faithful.sender faithful.held chunk_mem)
    · exact faithful
  | acked pn =>
    obtain ⟨sound, -, -, -, -, stores⟩ := QuicSendBuf.acked_spec pn faithful.sender
    exact faithful.withSender sound (stores _ faithful.held)
  | lost | reset =>
    exact faithful.withSender (QuicSendBuf.relabel_spec _ faithful.sender).1
      (faithful.held.withChunks _).merge
  | deliver =>
    simp only [step]
    split
    · next segment segment_eq =>
        have genuine := faithful.genuine segment (mem_of_getElem? segment_eq)
        split
        · next r added =>
            obtain ⟨sound, base_eq, -, -, stores⟩ := QuicReasm.add_spec faithful.receiver
              (genuine.length_le.trans_lt small) added
            have recorded := stores (t.written[·]?) faithful.recorded
            rw [Memory.write_own genuine, ite_self] at recorded
            exact { faithful with
              receiver := sound
              recorded := recorded
              base_le := base_eq ▸ faithful.base_le
              consumed_eq := base_eq ▸ faithful.consumed_eq }
        · exact faithful
    · exact faithful
  | consume len =>
    simp only [step]
    split_ifs with readable
    · obtain ⟨sound, base_eq, -, -, stores⟩ := QuicReasm.consume_spec faithful.receiver readable
      have held : Memory.Holds (quicReasmData t.r) t.r.base t.written t.r.base
          (t.r.base + len) := by
        intro position low_le lt_high
        exact faithful.recorded position (QuicReasm.covers_of_lt_readable low_le (by omega))
      have read_eq := held.slice_eq le_rfl
      rw [Nat.sub_self] at read_eq
      have bytes_length : len ≤ t.written.length - t.r.base := by
        have := congrArg List.length read_eq
        simp only [Memory.length_slice, length_take, length_drop] at this
        omega
      have base_le := faithful.base_le
      refine { faithful with
        receiver := sound
        recorded := stores _ faithful.recorded
        base_le := ?_
        consumed_eq := ?_ }
      · rw [base_eq]
        simp only
        omega
      · rw [base_eq, read_eq, faithful.consumed_eq, ← take_add]
    · exact faithful

/-- What the reader has consumed is at every moment a prefix of what was written. -/
theorem consumed_prefix_written {limit : Nat} (limit_lt : limit < 2 ^ 64)
    (ops : List TransferOp) (length_le : (run step (start limit) ops).written.length ≤ limit) :
    (run step (start limit) ops).consumed <+: (run step (start limit) ops).written := by
  have faithful : (run step (start limit) ops).written.length < 2 ^ 64 →
      Faithful (run step (start limit) ops) := by
    refine run_invariant (fun t => t.written.length < 2 ^ 64 → Faithful t)
      (fun _ => faithful_start limit) ?_ ops
    intro t op agrees small
    have before_small : t.written.length < 2 ^ 64 :=
      (written_step t op).length_le.trans_lt small
    exact faithful_step op before_small (agrees before_small)
  rw [(faithful (by omega)).consumed_eq]
  exact take_prefix _ _

/-- Three bytes go out in two segments that arrive swapped, one of them twice. -/
theorem consumed_prefix_written_swapped :
    let ops : List TransferOp :=
      [.add (fun _ => true) [7, 8, 9], .nextSent 2 0, .nextSent 5 1, .lost 0, .nextSent 5 2,
        .deliver (fun _ => true) 1, .deliver (fun _ => true) 0, .consume 2,
        .deliver (fun _ => true) 2, .acked 2, .consume 1]
    (run step (start 100) ops).consumed = [7, 8, 9] ∧
      (run step (start 100) ops).consumed <+: (run step (start 100) ops).written := by
  intro ops
  exact ⟨by decide, consumed_prefix_written (by decide) ops (by decide)⟩

end Transfer

end Cx.Quic
