import Cx.Buffer
import Cx.Library.Tiling

/-!
# Send buffers

A send buffer holds the bytes of a stream from the first one the peer has not acknowledged, and a
list of chunks that says where each part of them is in its life.  The chunks tile `[base, endOff)`
exactly, and neighbours in the same state are joined.  The packet that carries a chunk is part of
the state `sent`, the only one in which the source reads it.
-/

namespace Cx.Quic

open Library List

inductive QuicChunkState where
  | pending
  /-- In packet `pn`, which the peer has not answered yet. -/
  | sent (pn : Nat)
  | acked
deriving DecidableEq, Repr

abbrev QuicSendChunk := Tile QuicChunkState

/-- An ordered byte stream being sent, held until the peer acknowledges it. -/
structure QuicSendBuf where
  /-- The bytes of `[base, endOff)`. -/
  buf : Option Buffer
  base : Nat
  endOff : Nat
  /-- Sorted ranges that cover `[base, endOff)` exactly. -/
  chunks : List QuicSendChunk

def quicSendBufInit : QuicSendBuf := ⟨none, 0, 0, []⟩

def chunkMerge (sb : QuicSendBuf) : QuicSendBuf :=
  { sb with chunks := Tile.join sb.chunks }

/-- Release the acknowledged chunks at the front of the given list. -/
def sendBufTrimFrom (sb : QuicSendBuf) : List QuicSendChunk → QuicSendBuf
  | [] => { sb with chunks := [] }
  | chunk :: rest =>
    if chunk.state = .acked then
      sendBufTrimFrom
        { sb with base := chunk.endOff, buf := bufDiscard sb.buf (chunk.endOff - sb.base) } rest
    else
      { sb with chunks := chunk :: rest }

/-- Release the acknowledged bytes at the front, the only ones that can be released. -/
def sendBufTrim (sb : QuicSendBuf) : QuicSendBuf :=
  sendBufTrimFrom sb sb.chunks

/-- Extend the last chunk, if it is waiting to be sent, or add one of its own. -/
def chunkExtend (off endOff : Nat) (chunks : List QuicSendChunk) : List QuicSendChunk :=
  match chunks.getLast? with
  | some ⟨first, _, .pending⟩ => chunks.dropLast ++ [⟨first, endOff, .pending⟩]
  | _ => chunks ++ [⟨off, endOff, .pending⟩]

/-- Add bytes to the end of the stream; `none` when they could not be stored. -/
def quicSendBufAdd (alloc : Nat → Bool) (sb : QuicSendBuf) (data : List UInt8) :
    Option QuicSendBuf :=
  if data.length = 0 then some sb
  else
    let used := sb.endOff - sb.base
    match bufEnsure alloc sb.buf (used + data.length) with
    | none => none
    | some held =>
      some
        { sb with
          buf := some { held with
            data := Memory.write held.data used data, len := used + data.length }
          endOff := sb.endOff + data.length
          chunks := chunkExtend sb.endOff (sb.endOff + data.length) sb.chunks }

structure QuicSegment where
  off : Nat
  data : List UInt8
deriving DecidableEq, Repr

section

variable (sb : QuicSendBuf)

/-- At most `max` bytes from the front of a chunk. -/
def chunkSegment (max : Nat) (chunk : QuicSendChunk) : QuicSegment :=
  let size := chunk.endOff - chunk.off
  ⟨chunk.off,
    Memory.slice (bufData sb.buf) (chunk.off - sb.base) (if size > max then max else size)⟩

/-- The next range waiting to be sent, no longer than `max` bytes. -/
def quicSendBufNext (max : Nat) : Option QuicSegment :=
  if max = 0 then none
  else (sb.chunks.find? fun chunk => chunk.state = .pending).map (chunkSegment sb max)

def QuicChunkState.isSent : QuicChunkState → Bool
  | .sent _ => true
  | _ => false

/-- The oldest range still waiting for an answer, no longer than `max` bytes. -/
def quicSendBufProbe (max : Nat) : Option QuicSegment :=
  if max = 0 then none
  else (sb.chunks.find? fun chunk => chunk.state.isSent).map (chunkSegment sb max)

/-- Mark the front of the first pending chunk that starts at `off`, if there is one. -/
def chunkSent (off len pn : Nat) : List QuicSendChunk → Option (List QuicSendChunk)
  | [] => none
  | chunk :: rest =>
    if chunk.state = .pending ∧ chunk.off = off then
      if chunk.endOff - chunk.off = len then
        some ({ chunk with state := .sent pn } :: rest)
      else
        some (⟨off, off + len, .sent pn⟩ :: { chunk with off := off + len } :: rest)
    else
      (chunkSent off len pn rest).map (chunk :: ·)

/-- Record that a range handed out by `quicSendBufNext` went into packet `pn`. -/
def quicSendBufSent (off len pn : Nat) : QuicSendBuf :=
  match chunkSent off len pn sb.chunks with
  | none => sb
  | some chunks => chunkMerge { sb with chunks := chunks }

/-- Replace the state of the chunks that packet `pn` carries. -/
def QuicChunkState.resolve (pn : Nat) (fate : QuicChunkState) (state : QuicChunkState) :
    QuicChunkState :=
  if state = .sent pn then fate else state

/-- A packet carrying part of this stream was acknowledged. -/
def quicSendBufAcked (pn : Nat) : QuicSendBuf :=
  sendBufTrim (chunkMerge
    { sb with chunks := Tile.relabel (QuicChunkState.resolve pn .acked) sb.chunks })

def quicSendBufLost (pn : Nat) : QuicSendBuf :=
  chunkMerge { sb with chunks := Tile.relabel (QuicChunkState.resolve pn .pending) sb.chunks }

/-- Put the whole stream back in the queue. -/
def quicSendBufReset : QuicSendBuf :=
  chunkMerge { sb with chunks := Tile.relabel (fun _ => .pending) sb.chunks }

def quicSendBufPending : Bool :=
  sb.chunks.any fun chunk => chunk.state = .pending

/-- How many bytes the peer has yet to acknowledge. -/
def quicSendBufOutstanding : Nat :=
  (sb.chunks.map fun chunk => if chunk.state ≠ .acked then chunk.endOff - chunk.off else 0).sum

end

namespace QuicSendBuf

structure Sound (sb : QuicSendBuf) : Prop where
  tiles : Tile.Tiles sb.base sb.chunks sb.endOff
  len_eq : bufLen sb.buf = sb.endOff - sb.base
  fits : BufferFits sb.buf

/-- The held bytes are those of the stream that was written. -/
structure Stores (sb : QuicSendBuf) (written : List UInt8) : Prop where
  length_eq : written.length = sb.endOff
  /-- The buffer holds the bytes of `[base, endOff)`. -/
  holds : Memory.Holds (bufData sb.buf) sb.base written sb.base sb.endOff

theorem sound_init : Sound quicSendBufInit := ⟨rfl, rfl, by rintro held ⟨⟩⟩

theorem stores_init : Stores quicSendBufInit [] := by
  refine ⟨rfl, ?_⟩
  intro position low_le lt_high
  simp only [quicSendBufInit] at lt_high
  omega

variable {sb : QuicSendBuf} {chunks : List QuicSendChunk} {written : List UInt8} {low max : Nat}
  {chunk : QuicSendChunk} {segment : QuicSegment}

theorem Sound.base_le (sound : Sound sb) : sb.base ≤ sb.endOff := sound.tiles.low_le_high

/-- Replacing the chunks by another tiling of the same range. -/
theorem Sound.withChunks (sound : Sound sb) (tiles : Tile.Tiles sb.base chunks sb.endOff) :
    Sound { sb with chunks := chunks } :=
  ⟨tiles, sound.len_eq, sound.fits⟩

theorem Stores.withChunks (stores : Stores sb written) (chunks : List QuicSendChunk) :
    Stores { sb with chunks := chunks } written :=
  ⟨stores.length_eq, stores.holds⟩

theorem Sound.merge (sound : Sound sb) : Sound (chunkMerge sb) :=
  sound.withChunks (Tile.tiles_join sound.tiles)

theorem Stores.merge (stores : Stores sb written) : Stores (chunkMerge sb) written :=
  stores.withChunks _

/-- New bytes extend a pending chunk at the end, or come in a chunk of their own. -/
theorem chunkExtend_cases {off : Nat} (endOff : Nat) (tiles : Tile.Tiles low chunks off) :
    (∃ front first, chunks = front ++ [⟨first, off, .pending⟩] ∧
        chunkExtend off endOff chunks = front ++ [⟨first, endOff, .pending⟩]) ∨
      chunkExtend off endOff chunks = chunks ++ [⟨off, endOff, .pending⟩] := by
  rcases eq_nil_or_concat' chunks with rfl | ⟨front, ⟨first, stop, state⟩, rfl⟩
  · exact .inr rfl
  · obtain ⟨_, -, -, -, rfl⟩ := Tile.tiles_append.1 tiles
    cases state with
    | pending => exact .inl ⟨front, first, rfl, by simp [chunkExtend]⟩
    | sent | acked => exact .inr (by simp [chunkExtend])

/-- Appending bytes extends the tiling to the new end. -/
theorem tiles_chunkExtend {off endOff : Nat} (tiles : Tile.Tiles low chunks off)
    (off_lt : off < endOff) : Tile.Tiles low (chunkExtend off endOff chunks) endOff := by
  obtain ⟨front, first, rfl, extended⟩ | extended := chunkExtend_cases endOff tiles <;> rw [extended]
  · obtain ⟨middle, front_tiles, first_eq, nonempty, -⟩ := Tile.tiles_append.1 tiles
    exact Tile.tiles_append.2 ⟨middle, front_tiles, first_eq, nonempty.trans off_lt, rfl⟩
  · exact Tile.tiles_append.2 ⟨off, tiles, rfl, off_lt, rfl⟩

/-- The appended range is pending and nothing else changes. -/
theorem hasState_chunkExtend {off endOff position : Nat} {state : QuicChunkState}
    (tiles : Tile.Tiles low chunks off) (off_lt : off < endOff) :
    Tile.HasState (chunkExtend off endOff chunks) position state ↔
      Tile.HasState chunks position state ∨
        (off ≤ position ∧ position < endOff ∧ state = .pending) := by
  obtain ⟨front, first, rfl, extended⟩ | extended := chunkExtend_cases endOff tiles <;> rw [extended]
  · obtain ⟨middle, -, first_eq, nonempty, -⟩ := Tile.tiles_append.1 tiles
    simp only [Tile.hasState_append, Tile.hasState_cons, Tile.hasState_nil, or_false, or_assoc]
      at first_eq nonempty ⊢
    refine or_congr_right ?_
    by_cases labelled : state = .pending
    · simp only [labelled, and_true]
      omega
    · simp [labelled, Ne.symm labelled]
  · simp [Tile.hasState_append, eq_comm]

/-- Marking the front of the first pending chunk labels exactly that range. -/
theorem chunkSent_spec {high len : Nat} {front rest : List QuicSendChunk} (pn : Nat)
    (tiles : Tile.Tiles low (front ++ chunk :: rest) high)
    (front_passed : ∀ earlier ∈ front, earlier.state ≠ .pending)
    (waiting : chunk.state = .pending) (len_pos : 0 < len)
    (len_le : len ≤ chunk.endOff - chunk.off) :
    ∃ marked, chunkSent chunk.off len pn (front ++ chunk :: rest) = some marked ∧
      Tile.Tiles low marked high ∧
      ∀ position state, Tile.HasState marked position state ↔
        if chunk.off ≤ position ∧ position < chunk.off + len then state = .sent pn
        else Tile.HasState (front ++ chunk :: rest) position state := by
  induction front generalizing low with
  | nil =>
    obtain ⟨chunk_off, chunk_nonempty, tail⟩ := tiles
    rw [nil_append, chunkSent, if_pos ⟨waiting, rfl⟩]
    have rest_after : ∀ position state, Tile.HasState rest position state →
        chunk.endOff ≤ position :=
      fun position state found => (tail.range_of_hasState found).1
    split_ifs with whole
    · refine ⟨_, rfl, ⟨chunk_off, chunk_nonempty, tail⟩, ?_⟩
      intro position state
      have later := rest_after position state
      simp only [Tile.hasState_cons]
      split_ifs with inside
      · constructor
        · rintro (⟨-, -, rfl⟩ | found)
          · rfl
          · have := later found
            omega
        · rintro rfl
          exact .inl ⟨inside.1, by omega, rfl⟩
      · refine or_congr_left ?_
        have outside : ¬ (chunk.off ≤ position ∧ position < chunk.endOff) := by omega
        tauto
    · refine ⟨_, rfl, ⟨chunk_off, by simp only; omega, rfl, by simp only; omega, tail⟩, ?_⟩
      intro position state
      have later := rest_after position state
      simp only [Tile.hasState_cons]
      split_ifs with inside
      · constructor
        · rintro (⟨-, -, rfl⟩ | ⟨above, -, -⟩ | found)
          · rfl
          · omega
          · have := later found
            omega
        · rintro rfl
          exact .inl ⟨inside.1, inside.2, rfl⟩
      · constructor
        · rintro (⟨above, below, -⟩ | ⟨above, below, labelled⟩ | found)
          · omega
          · exact .inl ⟨by omega, below, labelled⟩
          · exact .inr found
        · rintro (⟨above, below, labelled⟩ | found)
          · exact .inr (.inl ⟨by omega, below, labelled⟩)
          · exact .inr (.inr found)
  | cons head front ih =>
    obtain ⟨head_off, head_nonempty, tail⟩ := tiles
    obtain ⟨marked, marked_eq, marked_tiles, marked_state⟩ :=
      ih tail fun earlier earlier_mem => front_passed earlier (mem_cons_of_mem _ earlier_mem)
    have head_passed : ¬ (head.state = .pending ∧ head.off = chunk.off) :=
      fun both => front_passed head mem_cons_self both.1
    refine ⟨head :: marked, ?_, ⟨head_off, head_nonempty, marked_tiles⟩, ?_⟩
    · rw [cons_append, chunkSent, if_neg head_passed, marked_eq, Option.map_some]
    · intro position state
      have chunk_above : head.endOff ≤ chunk.off := by
        obtain ⟨middle, front_tiles, chunk_off, -⟩ := Tile.tiles_append.1 tail
        exact front_tiles.low_le_high.trans chunk_off.ge
      rw [Tile.hasState_cons, marked_state, cons_append, Tile.hasState_cons]
      split_ifs with inside
      · have outside : ¬ position < head.endOff := by omega
        simp [outside]
      · rfl

/-- What `quicSendBufNext` hands out is the front of the first pending chunk. -/
theorem next_eq_some (handed : quicSendBufNext sb max = some segment) :
    0 < max ∧ ∃ front chunk rest, sb.chunks = front ++ chunk :: rest ∧
      (∀ earlier ∈ front, earlier.state ≠ .pending) ∧ chunk.state = .pending ∧
      segment = chunkSegment sb max chunk := by
  unfold quicSendBufNext at handed
  split_ifs at handed with no_room
  obtain ⟨chunk, found, rfl⟩ := Option.map_eq_some_iff.1 handed
  obtain ⟨waiting, front, rest, chunks_eq, passed⟩ := List.find?_eq_some_iff_append.1 found
  refine ⟨Nat.pos_of_ne_zero no_room, front, chunk, rest, chunks_eq, ?_, by simpa using waiting,
    rfl⟩
  intro earlier earlier_mem
  simpa using passed earlier earlier_mem

/-- What `quicSendBufProbe` hands out is the front of a chunk in flight. -/
theorem probe_eq_some (handed : quicSendBufProbe sb max = some segment) :
    ∃ chunk ∈ sb.chunks, segment = chunkSegment sb max chunk := by
  unfold quicSendBufProbe at handed
  split_ifs at handed
  obtain ⟨chunk, found, rfl⟩ := Option.map_eq_some_iff.1 handed
  exact ⟨chunk, mem_of_find?_eq_some found, rfl⟩

/-- A segment cut from a held chunk carries the bytes that were written there. -/
theorem chunkSegment_eq (sound : Sound sb) (stores : Stores sb written)
    (chunk_mem : chunk ∈ sb.chunks) :
    (chunkSegment sb max chunk).data =
      (written.drop chunk.off).take (chunkSegment sb max chunk).data.length := by
  obtain ⟨base_le, nonempty, end_le⟩ := sound.tiles.bounds chunk_mem
  unfold chunkSegment
  simp only [Memory.length_slice]
  refine (stores.holds.mono base_le ?_).slice_eq base_le
  split_ifs <;> omega

/-- A segment is nonempty and ends within its chunk. -/
theorem chunkSegment_length (sb : QuicSendBuf) (max_pos : 0 < max)
    (nonempty : chunk.off < chunk.endOff) :
    0 < (chunkSegment sb max chunk).data.length ∧
      (chunkSegment sb max chunk).data.length ≤ chunk.endOff - chunk.off ∧
      (chunkSegment sb max chunk).data.length ≤ max := by
  unfold chunkSegment
  simp only [Memory.length_slice]
  split_ifs <;> omega

/-- What is handed out to be sent is nonempty and lies within what was written. -/
theorem next_bounds (sound : Sound sb) (handed : quicSendBufNext sb max = some segment) :
    0 < segment.data.length ∧ segment.data.length ≤ max ∧
      segment.off + segment.data.length ≤ sb.endOff := by
  obtain ⟨max_pos, front, chunk, rest, chunks_eq, -, -, rfl⟩ := next_eq_some handed
  obtain ⟨-, nonempty, end_le⟩ := sound.tiles.bounds (by simp [chunks_eq] : chunk ∈ sb.chunks)
  obtain ⟨len_pos, len_le, len_max⟩ := chunkSegment_length sb max_pos nonempty
  refine ⟨len_pos, len_max, ?_⟩
  change chunk.off + _ ≤ _
  omega

/-- Sending what `quicSendBufNext` handed out labels exactly that range. -/
theorem sent_next_spec (pn : Nat) (sound : Sound sb)
    (handed : quicSendBufNext sb max = some segment) :
    ∃ chunks, quicSendBufSent sb segment.off segment.data.length pn =
        { sb with chunks := chunks } ∧
      Tile.Tiles sb.base chunks sb.endOff ∧
      ∀ position state, Tile.HasState chunks position state ↔
        if segment.off ≤ position ∧ position < segment.off + segment.data.length then
          state = .sent pn
        else Tile.HasState sb.chunks position state := by
  obtain ⟨max_pos, front, chunk, rest, chunks_eq, passed, waiting, rfl⟩ := next_eq_some handed
  have chunk_mem : chunk ∈ sb.chunks := by simp [chunks_eq]
  obtain ⟨-, nonempty, -⟩ := sound.tiles.bounds chunk_mem
  obtain ⟨len_pos, len_le, -⟩ := chunkSegment_length sb max_pos nonempty
  have tiles := sound.tiles
  rw [chunks_eq] at tiles
  obtain ⟨marked, marked_eq, marked_tiles, marked_state⟩ :=
    chunkSent_spec pn tiles passed waiting len_pos len_le
  refine ⟨Tile.join marked, ?_, Tile.tiles_join marked_tiles, ?_⟩
  · have off_eq : (chunkSegment sb max chunk).off = chunk.off := rfl
    rw [quicSendBufSent, chunks_eq, off_eq, marked_eq]
    rfl
  · intro position state
    rw [Tile.hasState_join marked_tiles, marked_state, chunks_eq]
    rfl

/-- Trimming releases a run of acknowledged positions and leaves the others as they were. -/
theorem sendBufTrimFrom_spec (sound : Sound { sb with chunks := chunks }) :
    Sound (sendBufTrimFrom sb chunks) ∧ (sendBufTrimFrom sb chunks).endOff = sb.endOff ∧
      sb.base ≤ (sendBufTrimFrom sb chunks).base ∧
      (∀ position, sb.base ≤ position → position < (sendBufTrimFrom sb chunks).base →
        Tile.HasState chunks position .acked) ∧
      (∀ position state, Tile.HasState (sendBufTrimFrom sb chunks).chunks position state ↔
        Tile.HasState chunks position state ∧ (sendBufTrimFrom sb chunks).base ≤ position) ∧
      ∀ written, Stores sb written → Stores (sendBufTrimFrom sb chunks) written := by
  induction chunks generalizing sb with
  | nil =>
    refine ⟨sound, rfl, le_rfl, ?_, by simp [sendBufTrimFrom], fun _ held => held.withChunks _⟩
    exact fun _ above below => absurd below (Nat.not_lt.2 above)
  | cons chunk rest ih =>
    have tiles : Tile.Tiles sb.base (chunk :: rest) sb.endOff := sound.tiles
    rw [sendBufTrimFrom]
    split_ifs with released
    · obtain ⟨chunk_off, nonempty, tail⟩ := tiles
      have len_eq : bufLen sb.buf = sb.endOff - sb.base := sound.len_eq
      have end_le := tail.low_le_high
      obtain ⟨rest_sound, end_eq, base_le, rest_acked, rest_state, rest_stores⟩ := @ih
        { sb with base := chunk.endOff, buf := bufDiscard sb.buf (chunk.endOff - sb.base) }
        ⟨tail, by simp only [bufLen_discard]; omega, bufferFits_discard sound.fits _⟩
      refine ⟨rest_sound, end_eq, nonempty.le.trans base_le, ?_, ?_, ?_⟩
      · intro position low_le lt_base
        by_cases inside : position < chunk.endOff
        · exact Tile.hasState_cons.2 (.inl ⟨by omega, inside, released⟩)
        · exact Tile.hasState_cons.2 (.inr (rest_acked position (not_lt.1 inside) lt_base))
      · intro position state
        rw [rest_state, Tile.hasState_cons]
        constructor
        · rintro ⟨found, above⟩
          exact ⟨.inr found, above⟩
        · rintro ⟨⟨-, below, -⟩ | found, above⟩
          · exact absurd (base_le.trans above) (Nat.not_le.2 below)
          · exact ⟨found, above⟩
      · intro written stores
        refine rest_stores written ⟨stores.length_eq, ?_⟩
        have slid := holds_bufDiscard (chunk.endOff - sb.base)
          (stores.holds.mono (Nat.le_add_right _ _) le_rfl) le_rfl (by omega)
        rwa [show sb.base + (chunk.endOff - sb.base) = chunk.endOff by omega] at slid
    · refine ⟨sound, rfl, le_rfl, ?_, ?_, fun _ stores => stores.withChunks _⟩
      · exact fun _ above below => absurd below (Nat.not_lt.2 above)
      · intro position state
        refine (and_iff_left_of_imp fun found => ?_).symm
        exact (tiles.range_of_hasState found).1

/-- Adding bytes keeps the buffer sound, extends the stream and leaves older states alone. -/
theorem add_spec {alloc : Nat → Bool} {after : QuicSendBuf} {data : List UInt8} (sound : Sound sb)
    (added : quicSendBufAdd alloc sb data = some after) :
    Sound after ∧ after.base = sb.base ∧ after.endOff = sb.endOff + data.length ∧
      (∀ position state, Tile.HasState after.chunks position state ↔
        Tile.HasState sb.chunks position state ∨
          (sb.endOff ≤ position ∧ position < sb.endOff + data.length ∧ state = .pending)) ∧
      ∀ written, Stores sb written → Stores after (written ++ data) := by
  unfold quicSendBufAdd at added
  split_ifs at added with empty
  · cases added
    have data_nil : data = [] := eq_nil_of_length_eq_zero empty
    subst data_nil
    refine ⟨sound, rfl, rfl, ?_, fun written stores => by simpa using stores⟩
    intro position state
    refine (or_iff_left ?_).symm
    rintro ⟨low_le, lt_high, -⟩
    exact absurd lt_high (Nat.not_lt.2 low_le)
  · have len_pos : 0 < data.length := Nat.pos_of_ne_zero empty
    have base_le := sound.base_le
    have len_eq := sound.len_eq
    simp only at added
    cases ensured : bufEnsure alloc sb.buf (sb.endOff - sb.base + data.length) with
    | none => simp [ensured] at added
    | some held =>
      rw [ensured] at added
      cases added
      obtain ⟨held_len, held_data, room, held_fits⟩ := bufEnsure_spec sound.fits ensured
      refine ⟨⟨?_, ?_, ?_⟩, rfl, rfl, ?_, ?_⟩
      · exact tiles_chunkExtend sound.tiles (by omega)
      · simp only [bufLen_some]
        omega
      · rintro again ⟨⟩
        exact ⟨room, (held_fits held rfl).2⟩
      · intro position state
        exact hasState_chunkExtend sound.tiles (by omega)
      · intro written stores
        have length_eq := stores.length_eq
        refine ⟨by simp [length_eq], ?_⟩
        have matching : ∀ index, index < data.length →
            (written ++ data)[sb.endOff + index]? = data[index]? := by
          intro index _
          rw [List.getElem?_append_right (by omega)]
          congr 1
          omega
        intro position low_le lt_high
        simp only at low_le lt_high
        rw [← congrFun (Memory.write_own matching) position]
        refine Memory.write_map_some base_le fun outside => ⟨low_le, ?_⟩
        have nonempty : sb.buf.isSome := by
          cases buf_eq : sb.buf with
          | none =>
            rw [buf_eq, bufLen_none] at len_eq
            omega
          | some => rfl
        rw [held_data nonempty]
        exact stores.holds.append data position low_le (by omega)

/-- Relabelling every chunk and joining equals keeps the buffer and maps each state. -/
theorem relabel_spec (change : QuicChunkState → QuicChunkState) (sound : Sound sb) :
    Sound (chunkMerge { sb with chunks := Tile.relabel change sb.chunks }) ∧ (∀ position state,
        Tile.HasState (chunkMerge { sb with chunks := Tile.relabel change sb.chunks }).chunks
            position state ↔
          ∃ old, Tile.HasState sb.chunks position old ∧ change old = state) := by
  have relabelled : Tile.Tiles sb.base (Tile.relabel change sb.chunks) sb.endOff :=
    (Tile.tiles_relabel change).2 sound.tiles
  refine ⟨(sound.withChunks relabelled).merge, ?_⟩
  intro position state
  rw [chunkMerge, Tile.hasState_join relabelled, Tile.hasState_relabel]

/-- An acknowledgement turns the chunks of its packet acknowledged and releases what it can. -/
theorem acked_spec (pn : Nat) (sound : Sound sb) :
    Sound (quicSendBufAcked sb pn) ∧ (quicSendBufAcked sb pn).endOff = sb.endOff ∧
      sb.base ≤ (quicSendBufAcked sb pn).base ∧
      (∀ position, sb.base ≤ position → position < (quicSendBufAcked sb pn).base →
        Tile.HasState sb.chunks position (.sent pn) ∨ Tile.HasState sb.chunks position .acked) ∧
      (∀ position state, Tile.HasState (quicSendBufAcked sb pn).chunks position state ↔
        (∃ old, Tile.HasState sb.chunks position old ∧
          QuicChunkState.resolve pn .acked old = state) ∧
        (quicSendBufAcked sb pn).base ≤ position) ∧
      ∀ written, Stores sb written → Stores (quicSendBufAcked sb pn) written := by
  obtain ⟨merged_sound, states⟩ := relabel_spec (QuicChunkState.resolve pn .acked) sound
  obtain ⟨trim_sound, end_eq, base_le, released, kept, stores⟩ :
    Sound (quicSendBufAcked sb pn) ∧ _ := sendBufTrimFrom_spec merged_sound
  refine ⟨trim_sound, end_eq, base_le, ?_, ?_,
    fun written held => stores written (held.withChunks _).merge⟩
  · intro position low_le lt_base
    obtain ⟨old, found, resolved⟩ := (states position .acked).1
      (released position low_le lt_base)
    unfold QuicChunkState.resolve at resolved
    split_ifs at resolved with carried
    · exact .inl (carried ▸ found)
    · exact .inr (resolved ▸ found)
  · intro position state
    rw [← states]
    exact kept position state

/-- A chunk in some state is a position in that state, and the other way around. -/
theorem Sound.exists_chunk_iff (sound : Sound sb) (state : QuicChunkState) :
    (∃ chunk ∈ sb.chunks, chunk.state = state) ↔
      ∃ position, Tile.HasState sb.chunks position state := by
  constructor
  · rintro ⟨chunk, chunk_mem, rfl⟩
    obtain ⟨-, nonempty, -⟩ := sound.tiles.bounds chunk_mem
    exact ⟨chunk.off, chunk, chunk_mem, le_rfl, nonempty, rfl⟩
  · rintro ⟨position, chunk, chunk_mem, -, -, state_eq⟩
    exact ⟨chunk, chunk_mem, state_eq⟩

theorem Sound.pending_iff (sound : Sound sb) :
    quicSendBufPending sb = true ↔ ∃ position, Tile.HasState sb.chunks position .pending := by
  rw [← sound.exists_chunk_iff]
  simp [quicSendBufPending]

theorem Sound.outstanding_eq_zero_iff (sound : Sound sb) : quicSendBufOutstanding sb = 0 ↔
      ∀ position state, Tile.HasState sb.chunks position state → state = .acked := by
  simp only [quicSendBufOutstanding, sum_eq_zero_iff, mem_map, forall_exists_index,
    and_imp, forall_apply_eq_imp_iff₂]
  constructor
  · rintro empty position state ⟨chunk, chunk_mem, off_le, lt_end, rfl⟩
    by_contra unacked
    have size := empty chunk chunk_mem
    rw [if_pos unacked] at size
    omega
  · intro acked chunk chunk_mem
    obtain ⟨-, nonempty, -⟩ := sound.tiles.bounds chunk_mem
    have chunk_acked := acked chunk.off chunk.state ⟨chunk, chunk_mem, le_rfl, nonempty, rfl⟩
    rw [if_neg (by simpa using chunk_acked)]

end QuicSendBuf

end Cx.Quic
