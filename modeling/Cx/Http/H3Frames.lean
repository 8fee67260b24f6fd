import Cx.BufRingFifo
import Cx.Quic.WireCodec

/-!
# Reading the frames of an HTTP/3 stream

The reader peeks at both numbers of a frame header before it takes either, and hands the payload on
in the runs that arrive.  It is driven as its callers drive it: bytes go into the ring, and the
reader steps until it needs more, with every run it shows taken out of the ring.
-/

namespace Cx.Http

open Quic List

/-- The width and the value of the number that starts `off` bytes into the ring. -/
def rdVarintRing (src : BufRing) (off : Nat) : Option (Nat × Nat) :=
  match bufringPeek src off 1 with
  | [] => none
  | mark :: _ =>
    match bufringPeek src off (2 ^ (mark.toNat / 64)) with
    | [] => none
    | first :: rest =>
      if rest.length + 1 ≠ 2 ^ (mark.toNat / 64) then none
      else some (rest.length + 1, quicBigEndian (first.toNat % 64) rest)

inductive H3FrameResult
  | needMore
  | header
  | payload
  | complete
  | error

structure H3FrameReader where
  type : Nat
  len : Nat
  /-- Payload bytes that were not reported yet. -/
  remain : Nat
  /-- Payload bytes that the caller has to take out of the ring. -/
  avail : Nat
  inFrame : Bool
  bad : Bool

def h3FrameReaderInit : H3FrameReader := ⟨0, 0, 0, 0, false, false⟩

/-- The type and the length that stand at the front, and the ring behind them.  Both have to be
there before either is taken. -/
def rdFrameHdr (src : BufRing) : Option (Nat × Nat × BufRing) := do
  let (tn, type) ← rdVarintRing src 0
  let (ln, len) ← rdVarintRing src tn
  return (type, len, (bufringSkip src (tn + ln)).2)

def h3FrameReaderStep (fr : H3FrameReader) (src : BufRing) :
    H3FrameResult × H3FrameReader × BufRing :=
  if fr.bad then (.error, fr, src)
  else if fr.inFrame = false then
    match rdFrameHdr src with
    | none => (.needMore, { fr with avail := 0 }, src)
    | some (type, len, behind) =>
      (.header, { fr with type := type, len := len, remain := len, avail := 0, inFrame := true },
        behind)
  else if fr.remain = 0 then (.complete, { fr with avail := 0, inFrame := false }, src)
  else if src.total = 0 then (.needMore, { fr with avail := 0 }, src)
  else
    let avail := min src.total fr.remain
    (.payload, { fr with avail := avail, remain := fr.remain - avail }, src)

/-! ### The caller -/

/-- What the caller is told.  It does not matter to it in which runs the payload comes. -/
inductive H3Report
  | header (type len : Nat)
  | byte (value : UInt8)
  | complete
deriving DecidableEq

structure H3Run where
  told : List H3Report
  fr : H3FrameReader
  src : BufRing

/-- Whether the caller goes on, and what it knows then. -/
def h3Turn (run : H3Run) : Bool × H3Run :=
  match h3FrameReaderStep run.fr run.src with
  | (.header, fr, src) => (true, ⟨run.told ++ [.header fr.type fr.len], fr, src⟩)
  | (.payload, fr, src) =>
    let got := bufringRead src fr.avail
    (true, ⟨run.told ++ got.1.map .byte, fr, got.2⟩)
  | (.complete, fr, src) => (true, ⟨run.told ++ [.complete], fr, src⟩)
  | (_, fr, src) => (false, ⟨run.told, fr, src⟩)

def h3Loop : Nat → H3Run → H3Run
  | 0, run => run
  | fuel + 1, run => if (h3Turn run).1 then h3Loop fuel (h3Turn run).2 else (h3Turn run).2

/-- A turn takes a byte or leaves a frame, so there are no more turns than that. -/
def h3Owed (run : H3Run) : Nat := 2 * run.src.total + if run.fr.inFrame then 1 else 0

def h3Feed (run : H3Run) (piece : List UInt8) : H3Run :=
  let fed := { run with src := bufringWrite run.src piece }
  h3Loop (h3Owed fed + 1) fed

def h3Start (segsz : Nat) : H3Run := ⟨[], h3FrameReaderInit, bufringInit segsz⟩

/-! ### The sender -/

/-- A number in one of the widths that have room for it. -/
structure H3Varint where
  value : Nat
  width : Nat
  width_eq : width = 1 ∨ width = 2 ∨ width = 4 ∨ width = 8
  fits : value < 64 * 256 ^ (width - 1)

def H3Varint.bytes (n : H3Varint) : List UInt8 := quicVarintBytes n.value n.width

structure H3Frame where
  type : H3Varint
  len : H3Varint
  payload : List UInt8
  len_eq : payload.length = len.value

def H3Frame.bytes (frame : H3Frame) : List UInt8 :=
  frame.type.bytes ++ (frame.len.bytes ++ frame.payload)

def H3Frame.reports (frame : H3Frame) : List H3Report :=
  .header frame.type.value frame.len.value :: frame.payload.map .byte ++ [.complete]

/-! ### What a reader has told -/

variable {frames rest : List H3Frame} {later left : List UInt8} {run : H3Run}

/-- Where a reader stands among the frames when some bytes are still to come, with the payload and
the frames that are left.  It has told of all before, and a header that is not whole waits. -/
structure H3At (frames : List H3Frame) (later : List UInt8) (run : H3Run) (left : List UInt8)
    (rest : List H3Frame) : Prop where
  sound : run.src.Sound
  free : run.src.reserved = 0
  good : run.fr.bad = false
  remain : left.length = if run.fr.inFrame then run.fr.remain else 0
  waits : run.src.unread ++ later = left ++ rest.flatMap H3Frame.bytes
  told : run.told ++ ((if run.fr.inFrame then left.map .byte ++ [.complete] else []) ++
    rest.flatMap H3Frame.reports) = frames.flatMap H3Frame.reports

/-- The caller was told of all that has arrived, and of every frame if nothing is still to come. -/
def H3Told (frames : List H3Frame) (later : List UInt8) (run : H3Run) : Prop :=
  (∃ left rest, H3At frames later run left rest) ∧
    (later = [] → run.told = frames.flatMap H3Frame.reports)

/-- A number is read once the ring holds all of it. -/
theorem rdVarintRing_cases {src : BufRing} (sound : src.Sound) (off : Nat) (n : H3Varint)
    {more : List UInt8} (stands : src.unread.drop off ++ later = n.bytes ++ more) :
    (rdVarintRing src off = none ∧ later ≠ []) ∨
      rdVarintRing src off = some (n.width, n.value) ∧ off + n.width ≤ src.unread.length ∧
        src.unread.drop (off + n.width) ++ later = more := by
  have peek (count : Nat) : bufringPeek src off count = (src.unread.drop off).take count :=
    sound.read off count _
  have lengths := congrArg List.length stands
  have off_le := @List.length_drop _ off src.unread
  have read := takes_varintBytes n.width_eq n.fits more
  obtain ⟨tail, tail_eq⟩ : ∃ tail, n.width = tail + 1 :=
    ⟨n.width - 1, by have := n.width_eq; omega⟩
  rw [H3Varint.bytes, length_append, length_append, length_quicVarintBytes, tail_eq] at lengths
  rw [← H3Varint.bytes, ← stands] at read
  simp only [rdVarintRing, peek, ← drop_drop]
  generalize src.unread.drop off = waits at *
  cases waits with
  | nil => exact .inl ⟨rfl, by rintro rfl; simp at lengths; omega⟩
  | cons first waits =>
    simp only [quicRdVarint, cons_append] at read
    split_ifs at read with short
    · simp at read
    simp only [Prod.mk.injEq, QuicRd.mk.injEq, and_true] at read
    obtain ⟨value_eq, rest_eq⟩ := read
    have behind := congrArg List.length rest_eq
    simp only [length_append, length_drop, length_cons] at lengths behind short off_le
    have mark : 2 ^ (first.toNat / 64) = tail + 1 := by
      have := Nat.two_pow_pos (first.toNat / 64)
      omega
    rw [mark, Nat.add_sub_cancel] at value_eq rest_eq
    simp only [take_succ_cons, drop_succ_cons, mark, tail_eq, length_take]
    by_cases held : tail ≤ waits.length
    · rw [if_neg (by omega), Nat.min_eq_left held, ← take_append_of_le_length held, value_eq,
        ← drop_append_of_le_length held]
      exact .inr ⟨rfl, by omega, rest_eq⟩
    · rw [if_pos (by omega)]
      exact .inl ⟨rfl, by rintro rfl; simp at lengths; omega⟩

/-- A header is read once the ring holds all of it, and nothing but the header is taken. -/
theorem rdFrameHdr_cases {src : BufRing} (sound : src.Sound) {frame : H3Frame} {more : List UInt8}
    (stands : src.unread ++ later = frame.bytes ++ more) :
    (rdFrameHdr src = none ∧ later ≠ []) ∨
      ∃ behind, rdFrameHdr src = some (frame.type.value, frame.len.value, behind) ∧ behind.Sound ∧
        behind.reserved = src.reserved ∧ behind.total < src.total ∧
        behind.unread ++ later = frame.payload ++ more := by
  rw [H3Frame.bytes, append_assoc, append_assoc] at stands
  obtain ⟨type_at, more⟩ | ⟨type_at, -, len_stands⟩ := rdVarintRing_cases sound 0 frame.type stands
  · exact .inl ⟨by simp [rdFrameHdr, type_at], more⟩
  rw [Nat.zero_add] at len_stands
  obtain ⟨len_at, more⟩ | ⟨len_at, held, left⟩ := rdVarintRing_cases sound _ frame.len len_stands
  · exact .inl ⟨by simp [rdFrameHdr, type_at, len_at], more⟩
  obtain ⟨after, unread_eq⟩ := sound.bufringSkip (frame.type.width + frame.len.width)
  rw [show (bufringSkip src _).1 = _ from Nat.min_eq_left (sound.total_eq ▸ held)] at unread_eq
  refine .inr ⟨_, by simp only [rdFrameHdr, type_at, len_at, bind, pure, Option.bind_some], after,
    rfl, ?_, by rwa [unread_eq]⟩
  have some_byte := frame.type.width_eq
  rw [after.total_eq, unread_eq, sound.total_eq, length_drop]
  omega

/-- A turn that goes on owes less than before; one that does not has told of all that is there. -/
theorem H3At.turn (place : H3At frames later run left rest) : if (h3Turn run).1 then
      h3Owed (h3Turn run).2 < h3Owed run ∧ ∃ left rest, H3At frames later (h3Turn run).2 left rest
    else H3Told frames later (h3Turn run).2 := by
  obtain ⟨sound, free, good, remain, waits, told⟩ := place
  obtain ⟨seen, ⟨type, len, owed, avail, inFrame, bad⟩, src⟩ := run
  obtain rfl : bad = false := good
  dsimp only at sound free waits told
  cases inFrame with
  | false =>
    obtain rfl : left = [] := eq_nil_of_length_eq_zero remain
    cases rest with
    | nil =>
      have nothing : rdFrameHdr src = none := by
        have peek : bufringPeek src 0 1 = _ := sound.read 0 1 _
        rw [rdFrameHdr, rdVarintRing, peek, (append_eq_nil_iff.1 waits).1]
        rfl
      simp only [h3Turn, h3FrameReaderStep, nothing]
      exact ⟨⟨[], [], sound, free, rfl, rfl, waits, told⟩, fun _ => by simpa using told⟩
    | cons frame rest =>
      obtain ⟨part, more⟩ | ⟨behind, whole, after, same, less, next⟩ :=
        rdFrameHdr_cases sound waits
      · simp only [h3Turn, h3FrameReaderStep, part]
        exact ⟨⟨[], _, sound, free, rfl, rfl, waits, told⟩, fun none_left => absurd none_left more⟩
      · simp only [h3Turn, h3FrameReaderStep, whole]
        refine ⟨?_, _, rest, after, same.trans free, rfl, frame.len_eq, next, ?_⟩
        · change 2 * behind.total + 1 < 2 * src.total + 0
          clear remain
          omega
        · simpa [H3Frame.reports] using told
  | true =>
    obtain rfl : left.length = owed := remain
    by_cases ended : left.length = 0
    · obtain rfl := eq_nil_of_length_eq_zero ended
      simp only [h3Turn, h3FrameReaderStep]
      exact ⟨Nat.lt_succ_self _, [], rest, sound, free, rfl, rfl, waits, by simpa using told⟩
    by_cases empty : src.total = 0
    · simp only [h3Turn, h3FrameReaderStep, if_neg ended, if_pos empty]
      refine ⟨⟨left, rest, sound, free, rfl, rfl, waits, told⟩, fun none_left => ?_⟩
      have lengths := congrArg List.length waits
      rw [none_left, append_nil, ← sound.total_eq, length_append] at lengths
      omega
    · obtain ⟨count, count_eq⟩ : ∃ n, n = min src.total left.length := ⟨_, rfl⟩
      have held : count ≤ src.unread.length := by
        rw [← sound.total_eq]
        omega
      obtain ⟨after, got, behind⟩ := sound.bufringRead count
      have first := congrArg (List.take count) waits
      have next := congrArg (List.drop count) waits
      rw [take_append_of_le_length held, take_append_of_le_length (by omega)] at first
      rw [drop_append_of_le_length held, drop_append_of_le_length (by omega)] at next
      simp only [h3Turn, h3FrameReaderStep, if_neg ended, if_neg empty, ← count_eq]
      refine ⟨?_, left.drop count, rest, after, free, rfl, length_drop, behind ▸ next, ?_⟩
      · change 2 * (bufringRead src count).2.total + 1 < 2 * src.total + 1
        rw [after.total_eq, behind, length_drop, ← sound.total_eq]
        omega
      · change (seen ++ (bufringRead src count).1.map .byte) ++ (_ ++ _) = _
        rw [← told, got, first]
        simp [← append_assoc (List.take _ _)]

theorem H3At.loop {fuel : Nat} (place : H3At frames later run left rest)
    (enough : h3Owed run < fuel) : H3Told frames later (h3Loop fuel run) := by
  induction fuel generalizing run left rest with
  | zero => omega
  | succ fuel ih =>
    have turn := place.turn
    rw [h3Loop]
    split_ifs at turn ⊢
    · obtain ⟨less, left, rest, next⟩ := turn
      exact ih next (by omega)
    · exact turn

theorem reserved_bufringWriteLoop (fuel : Nat) (ring : BufRing) (bytes : List UInt8) :
    (bufringWriteLoop fuel ring bytes).reserved = ring.reserved := by
  induction fuel generalizing ring bytes with
  | zero => rfl
  | succ fuel ih =>
    rw [bufringWriteLoop]
    split_ifs
    · rfl
    · rw [ih]
      dsimp only [bufringMakeRoom]
      split_ifs <;> rfl

/-- Bytes that were to come are written behind those that wait, and read as far as they go. -/
theorem H3At.feed {piece : List UInt8} (place : H3At frames (piece ++ later) run left rest) :
    H3Told frames later (h3Feed run piece) := by
  obtain ⟨sound, unread_eq⟩ := place.sound.writeLoop place.free (le_refl piece.length)
  have fed : H3At frames later { run with src := bufringWrite run.src piece } left rest := by
    refine ⟨sound, (reserved_bufringWriteLoop _ _ _).trans place.free, place.good, place.remain, ?_,
      place.told⟩
    rw [bufringWrite, unread_eq, append_assoc, place.waits]
  exact fed.loop (Nat.lt_succ_self _)

theorem H3Told.feeds {pieces : List (List UInt8)}
    (told : H3Told frames (pieces.flatten ++ later) run) :
    H3Told frames later (pieces.foldl h3Feed run) := by
  induction pieces generalizing run with
  | nil => exact told
  | cons piece pieces ih =>
    obtain ⟨⟨left, rest, place⟩, -⟩ := told
    rw [flatten_cons, append_assoc] at place
    exact ih place.feed

/-- However the bytes of some frames are cut, the caller is told the same: after every piece of what
has arrived, with the payload of each frame under its own header and a header left in the ring
until it is whole, and of every frame in the end. -/
theorem h3_reader_ignores_cuts (segsz : Nat) (frames : List H3Frame) (pieces : List (List UInt8))
    (later : List UInt8) (cut : pieces.flatten ++ later = frames.flatMap H3Frame.bytes) :
    H3Told frames later (pieces.foldl h3Feed (h3Start segsz)) := by
  have start : H3At frames (pieces.flatten ++ later) (h3Start segsz) [] frames :=
    ⟨BufRing.Run.init.sound.1, rfl, rfl, rfl, cut, rfl⟩
  exact H3Told.feeds start.turn

theorem h3_reader_ignores_cuts_one :
    ([[0], [1, 7]].foldl h3Feed (h3Start 64)).told = [.header 0 1, .byte 7, .complete] :=
  (h3_reader_ignores_cuts 64
    [⟨⟨0, 1, by decide, by decide⟩, ⟨1, 1, by decide, by decide⟩, [7], rfl⟩] [[0], [1, 7]] []
    rfl).2 rfl

end Cx.Http
