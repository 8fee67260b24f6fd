import Cx.BufRing

/-!
# A ring is a queue of bytes

A segment's cursors say how many bytes wait in it, and moving the write cursor over bytes that were
put behind them adds these.  What waits in the segments, one after the other, is then what was put
into the ring and not read yet, in every run of the ring's functions.
-/

namespace Cx

open Library List

/-- The cursors of a segment in which so many bytes wait. -/
structure BufRingNode.Waits (node : BufRingNode) (count : Nat) : Prop where
  head_lt : node.head < node.buf.sz
  count_le : count ≤ node.buf.sz
  tail_eq : node.tail = (node.head + count) % node.buf.sz
  full_iff : node.full = true ↔ count = node.buf.sz

/-! ### One segment -/

theorem mod_wrap {x size : Nat} (once : x < 2 * size) :
    x % size = if x < size then x else x - size := by
  split
  · exact Nat.mod_eq_of_lt ‹_›
  · rw [Nat.mod_eq_sub_mod (by omega), Nat.mod_eq_of_lt (by omega)]

namespace BufRingNode.Waits

variable {node : BufRingNode} {count n : Nat}

variable (waits : node.Waits count)
include waits

theorem avail : nodeReadAvail node = count ∧ nodeWriteAvail node = node.buf.sz - count ∧
      nodeContigWriteAvail node ≤ node.buf.sz - count ∧
      node.tail + nodeContigWriteAvail node ≤ node.buf.sz := by
  obtain ⟨head_lt, count_le, tail_eq, full_iff⟩ := waits
  rw [mod_wrap (by omega)] at tail_eq
  unfold nodeReadAvail nodeWriteAvail nodeContigWriteAvail
  cases full : node.full
  · have : count ≠ node.buf.sz := fun all => by simp [full_iff.2 all] at full
    simp only [and_true, Bool.false_eq_true, if_false]
    split at tail_eq <;> split <;> omega
  · have := full_iff.1 full
    simp only [Bool.true_eq_false, and_false, if_false, if_true]
    split at tail_eq <;> omega

theorem unread_eq : node.unread = Memory.cycle node.buf.data node.buf.sz node.head count := by
  rw [unread, waits.avail.1]

theorem advance (fits : count + n ≤ node.buf.sz) : (nodeAdvance node n).Waits (count + n) := by
  obtain ⟨head_lt, -, tail_eq, full_iff⟩ := waits
  have tail : (node.tail + n) % node.buf.sz = (node.head + (count + n)) % node.buf.sz := by
    rw [tail_eq, Nat.mod_add_mod, Nat.add_assoc]
  refine ⟨head_lt, fits, tail, ?_⟩
  simp only [nodeAdvance, tail]
  rw [mod_wrap (by omega)]
  by_cases none_new : n = 0
  · simpa [none_new] using full_iff
  · have not_full : node.full = false := by
      rw [← Bool.not_eq_true, full_iff]
      omega
    rw [not_full]
    split_ifs <;> simp only [true_iff, false_iff] <;> omega

/-- Bytes that are put behind those that wait, without going around. -/
theorem feed (bytes : List UInt8) (fits : count + bytes.length ≤ node.buf.sz)
    (straight : node.tail + bytes.length ≤ node.buf.sz) :
    (nodeFeed node bytes).Waits (count + bytes.length) ∧
      (nodeFeed node bytes).unread = node.unread ++ bytes := by
  have put : (nodeFill node 0 bytes).Waits count :=
    { waits with }
  have fed : (nodeFeed node bytes).Waits (count + bytes.length) := put.advance fits
  refine ⟨fed, ?_⟩
  rw [waits.tail_eq] at straight
  rw [BufRingNode.Waits.unread_eq fed, waits.unread_eq, ← Memory.cycle_write straight fits,
    ← waits.tail_eq]
  rfl

theorem put {bytes : List UInt8} (some_byte : bytes ≠ [])
    (fits : count + bytes.length ≤ node.buf.sz) :
    (nodePut node bytes).Waits (count + bytes.length) ∧
      (nodePut node bytes).unread = node.unread ++ bytes := by
  have positive := length_pos_of_ne_nil some_byte
  by_cases straight : node.tail + bytes.length ≤ node.buf.sz
  · have same : nodePut node bytes = nodeFeed node bytes := by
      simp only
        [nodePut, nodeFeed, nodeFill, Nat.add_zero, nodeAdvance, straight, if_true, positive,
          true_and]
    rw [same]
    exact waits.feed bytes fits straight
  · -- the first part fills the segment to its end, the second goes on at its start
    have head_lt := waits.head_lt
    have tail_eq := waits.tail_eq
    rw [mod_wrap (by omega)] at tail_eq
    have tail_lt : node.tail < node.buf.sz := by split at tail_eq <;> omega
    have later : node.head ≠ 0 := by split at tail_eq <;> omega
    let first := node.buf.sz - node.tail
    have first_len : (bytes.take first).length = first := by
      rw [length_take]
      omega
    have second_len : (bytes.drop first).length = bytes.length - first := length_drop
    have around : (node.tail + first) % node.buf.sz = 0 := by
      rw [show node.tail + first = node.buf.sz by omega, Nat.mod_self]
    have short : (bytes.length - first) % node.buf.sz = bytes.length - first :=
      Nat.mod_eq_of_lt (by omega)
    have same : nodePut node bytes =
        nodeFeed (nodeFeed node (bytes.take first)) (bytes.drop first) := by
      simp only [nodePut, nodeFeed, nodeFill, Nat.add_zero, nodeAdvance, if_neg straight, first_len,
          second_len, around,
        Nat.zero_add, short, later, and_false, if_false]
      simp only [first, show 0 < bytes.length - (node.buf.sz - node.tail) by omega, true_and]
    obtain ⟨mid, mid_unread⟩ := waits.feed (bytes.take first) (by omega) (by omega)
    obtain ⟨last, last_unread⟩ := mid.feed (bytes.drop first)
      (show count + _ + _ ≤ node.buf.sz by omega)
      (show (node.tail + (bytes.take first).length) % node.buf.sz + _ ≤ node.buf.sz by
        rw [first_len, around]
        omega)
    rw [same, last_unread, mid_unread, append_assoc, take_append_drop]
    rw [Nat.add_assoc, ← length_append, take_append_drop] at last
    exact ⟨last, rfl⟩

theorem consume (some_read : 0 < n) (some_left : n < count) :
    (nodeConsume node n).Waits (count - n) ∧
      nodeContigWriteAvail node ≤ nodeContigWriteAvail (nodeConsume node n) := by
  obtain ⟨head_lt, count_le, tail_eq, full_iff⟩ := waits
  refine ⟨⟨Nat.mod_lt _ (by omega), (Nat.sub_le _ _).trans count_le, ?_, ?_⟩, ?_⟩
  · change node.tail = ((node.head + n) % node.buf.sz + (count - n)) % node.buf.sz
    rw [tail_eq, Nat.mod_add_mod, Nat.add_assoc, Nat.add_sub_cancel' some_left.le]
  · change false = true ↔ count - n = node.buf.sz
    simp only [Bool.false_eq_true, false_iff]
    omega
  · rw [mod_wrap (by omega)] at tail_eq
    change _ ≤ if (node.head + n) % node.buf.sz ≤ node.tail then node.buf.sz - node.tail
      else (node.head + n) % node.buf.sz - node.tail
    rw [mod_wrap (by omega), nodeContigWriteAvail]
    rcases count_le.lt_or_eq with part | whole
    · split_ifs at * <;> omega
    · rw [if_pos (full_iff.2 whole)]
      exact Nat.zero_le _

theorem tail_lt : node.tail < node.buf.sz := by
  rw [waits.tail_eq]
  exact Nat.mod_lt _ (by have := waits.head_lt; omega)

end BufRingNode.Waits

/-- A segment in which nothing waits, wherever its cursors stand. -/
theorem waits_nodeEmpty {node : BufRingNode} {place : Nat} (inside : place < node.buf.sz) :
    (nodeEmpty node place).Waits 0 :=
  ⟨inside, Nat.zero_le _, (Nat.mod_eq_of_lt inside).symm, by
    simp only [nodeEmpty, Bool.false_eq_true, false_iff]
    omega⟩

/-! ### Reading -/

def BufRingNode.Sound (node : BufRingNode) : Prop := node.Waits (nodeReadAvail node)

theorem BufRingNode.Waits.sound {node : BufRingNode} {count : Nat} (waits : node.Waits count) :
    node.Sound := by
  rw [BufRingNode.Sound, waits.avail.1]
  exact waits

@[simp] theorem BufRingNode.length_unread (node : BufRingNode) :
    node.unread.length = nodeReadAvail node := Memory.length_cycle _ _ _ _

/-- The last segment has room for a reservation. -/
def HasRoom (reserved : Nat) (nodes : List BufRingNode) : Prop :=
  reserved = 0 ∨ ∃ front last, nodes = front ++ [last] ∧ reserved ≤ nodeContigWriteAvail last

theorem HasRoom.cons {reserved : Nat} {node node' : BufRingNode} {rest : List BufRingNode}
    (room : HasRoom reserved (node :: rest))
    (keeps : nodeContigWriteAvail node ≤ nodeContigWriteAvail node') :
    HasRoom reserved (node' :: rest) ∧ (rest ≠ [] → HasRoom reserved rest) := by
  rcases room with none_held | ⟨front, last, split, fits⟩
  · exact ⟨.inl none_held, fun _ => .inl none_held⟩
  · cases front with
    | nil =>
      obtain ⟨rfl, rfl⟩ := List.cons.inj split
      exact ⟨.inr ⟨[], node', rfl, fits.trans keeps⟩, fun more => absurd rfl more⟩
    | cons first front =>
      obtain ⟨rfl, rfl⟩ := List.cons.inj split
      exact ⟨.inr ⟨node' :: front, last, rfl, fits⟩, fun _ => .inr ⟨front, last, rfl, fits⟩⟩

structure Moved (reserved total count : Nat) (nodes : List BufRingNode)
    (moved : List BufRingNode × Nat) : Prop where
  sound : ∀ node ∈ moved.1, node.Sound
  room : HasRoom reserved moved.1
  unread_eq : moved.1.flatMap BufRingNode.unread = (nodes.flatMap BufRingNode.unread).drop count
  total_eq : moved.2 = total - count

theorem moveReadHead_moved {reserved total remaining : Nat} {nodes : List BufRingNode}
    (sound : ∀ node ∈ nodes, node.Sound) (room : HasRoom reserved nodes)
    (counted : total = (nodes.flatMap BufRingNode.unread).length) :
    Moved reserved total remaining nodes (moveReadHead reserved nodes total remaining) := by
  induction nodes generalizing total remaining with
  | nil => exact ⟨sound, room, by simp [moveReadHead], by simp_all [moveReadHead]⟩
  | cons node rest ih =>
    obtain ⟨this, others⟩ := forall_mem_cons.1 sound
    have whole : total = nodeReadAvail node + (rest.flatMap BufRingNode.unread).length := by
      rw [counted, flatMap_cons, length_append, BufRingNode.length_unread]
    rw [moveReadHead]
    have place_lt : (if reserved = 0 then 0 else node.tail) < node.buf.sz := by
      have := this.tail_lt
      split <;> omega
    generalize place_eq : (if reserved = 0 then 0 else node.tail) = place at place_lt ⊢
    split_ifs with done part more
    · refine ⟨sound, room, ?_, by omega⟩
      rcases done with rfl | none_left
      · rfl
      · rw [eq_nil_of_length_eq_zero (counted.symm.trans none_left), drop_nil]
    · obtain ⟨left, keeps⟩ := BufRingNode.Waits.consume this (by omega) part
      refine ⟨forall_mem_cons.2 ⟨left.sound, others⟩, (room.cons keeps).1, ?_, rfl⟩
      have split := Memory.cycle_add node.buf.data node.buf.sz node.head remaining
        (nodeReadAvail node - remaining)
      rw [Nat.add_sub_cancel' part.le] at split
      rw [flatMap_cons, flatMap_cons, this.unread_eq, split, left.unread_eq,
        append_assoc, drop_left' (by simp)]
      rfl
    · obtain ⟨sound', room', unread_eq, total_eq⟩ := @ih (total - nodeReadAvail node)
        (remaining - nodeReadAvail node) others ((room.cons le_rfl).2 more) (by omega)
      refine ⟨sound', room', ?_, by omega⟩
      rw [unread_eq, flatMap_cons, drop_append, BufRingNode.length_unread,
        drop_of_length_le (l := node.unread) (by simp; omega), nil_append]
    · obtain rfl : rest = [] := by simpa using more
      have empty := waits_nodeEmpty place_lt
      refine ⟨by simpa using empty.sound, ?_, ?_, by simp at whole; omega⟩
      · by_cases held : reserved = 0
        · exact .inl held
        · refine (room.cons ?_).1
          rw [if_neg held] at place_eq
          have := this.avail.2.2.2
          simp only
            [nodeContigWriteAvail, nodeEmpty, Bool.false_eq_true, if_false, le_refl, if_true]
            at this ⊢
          omega
      · rw [drop_of_length_le (by simpa using part), flatMap_singleton,
          ← length_eq_zero_iff, BufRingNode.length_unread, empty.avail.1]

theorem flatten_readOutputHelper (run : List UInt8) (skip : Nat) :
    (readOutputHelper run skip).flatten = run.drop skip := by
  unfold readOutputHelper
  split
  · simp
  · rw [drop_of_length_le (by omega)]
    rfl

theorem drop_take_append (first second : List UInt8) (total skip : Nat) :
    ((first ++ second).take total).drop skip = (first.take total).drop skip ++
        (second.take (total - first.length)).drop (skip - min total first.length) := by
  rw [take_append, drop_append, length_take]

/-- What a segment holds, as the loop of `readCommon` reads it. -/
theorem BufRingNode.Sound.slices {node : BufRingNode} (sound : node.Sound) :
    node.unread = if node.head ≤ node.tail ∧ node.full = false then
        Memory.slice node.buf.data node.head (node.tail - node.head)
      else Memory.slice node.buf.data node.head (node.buf.sz - node.head) ++
        Memory.slice node.buf.data 0 node.tail := by
  have head_lt := sound.head_lt
  have tail_lt := sound.tail_lt
  rw [BufRingNode.unread, nodeReadAvail]
  split_ifs
  · exact Memory.cycle_eq_slice (by omega)
  · rw [Memory.cycle_add, Nat.add_sub_cancel' head_lt.le, Nat.mod_self,
      Memory.cycle_eq_slice (by omega), Memory.cycle_eq_slice (by omega)]

theorem flatten_readRuns {nodes : List BufRingNode} (sound : ∀ node ∈ nodes, node.Sound)
    {skip total avail : Nat} (enough : total ≤ avail) :
    (readRuns nodes skip total avail).flatten =
      ((nodes.flatMap BufRingNode.unread).take total).drop skip := by
  induction nodes generalizing skip total avail with
  | nil => simp [readRuns]
  | cons node rest ih =>
    obtain ⟨this, others⟩ := forall_mem_cons.1 sound
    have less (x y : Nat) : x - min x y = x - y := by omega
    have past (x y : Nat) : x - min y x = x - y := by omega
    have both (x y m n : Nat) : x - min y m - min (y - m) n = x - min y (m + n) := by omega
    by_cases done : total = 0 ∨ avail = 0
    · obtain rfl : total = 0 := by omega
      simp [readRuns]
    · rw [readRuns, if_neg done, flatMap_cons, this.slices]
      by_cases straight : node.head ≤ node.tail ∧ node.full = false
      · simp only [if_pos straight, flatten_append, flatten_readOutputHelper,
          drop_take_append, Memory.take_slice, Memory.length_slice]
        rw [ih others (by omega), less, past]
      · simp only [if_neg straight, flatten_append, flatten_readOutputHelper,
          drop_take_append, Memory.take_slice, Memory.length_slice, length_append, less, past]
        rw [ih others (by omega), both, Nat.sub_sub, append_assoc]

/-! ### The ring -/

/-- The first bytes of the reserved region. -/
def BufRing.filled (ring : BufRing) (bytes : Nat) : List UInt8 :=
  (ring.nodes.getLast?.map fun last => Memory.slice last.buf.data last.tail bytes).getD []

/-- Where the next byte is put, or a reservation begins. -/
def BufRing.place (ring : BufRing) : Option (Buffer × Nat) :=
  ring.nodes.getLast?.map fun last => (last.buf, last.tail)

/-- Reading moves no reservation. -/
theorem place_moveReadHead {reserved : Nat} (some_held : reserved ≠ 0) (nodes : List BufRingNode)
    (total remaining : Nat) :
    (moveReadHead reserved nodes total remaining).1.getLast?.map
      (fun last => (last.buf, last.tail)) =
      nodes.getLast?.map fun last => (last.buf, last.tail) := by
  induction nodes generalizing total remaining with
  | nil => rfl
  | cons node rest ih =>
    rw [moveReadHead]
    split_ifs with _ _ more
    · rfl
    · cases rest <;> rfl
    · rw [ih, List.getLast?_cons_of_ne_nil more]
    · obtain rfl : rest = [] := by simpa using more
      simp [nodeEmpty]

structure BufRing.Sound (ring : BufRing) : Prop where
  nodes : ∀ node ∈ ring.nodes, node.Sound
  room : HasRoom ring.reserved ring.nodes
  total_eq : ring.total = ring.unread.length
  segsz_pos : 0 < ring.segsz

namespace BufRing.Sound

variable {ring : BufRing}

section

variable (sound : ring.Sound)

include sound

theorem read (skip bsz : Nat) (cb : List (List UInt8) → Bool) :
    (readCommon ring skip bsz cb).1.flatten = (ring.unread.drop skip).take bsz := by
  rw [readCommon, flatten_readRuns sound.nodes (Nat.min_le_right _ _), sound.total_eq]
  change ((ring.unread).take _).drop skip = _
  rw [← take_eq_take_min, drop_take, Nat.add_sub_cancel_left]

theorem moved (count : Nat) : BufRing.Sound { ring with
        nodes := (moveReadHead ring.reserved ring.nodes ring.total count).1
        total := (moveReadHead ring.reserved ring.nodes ring.total count).2 } ∧
      (moveReadHead ring.reserved ring.nodes ring.total count).1.flatMap BufRingNode.unread =
        ring.unread.drop count := by
  obtain ⟨nodes, room, unread_eq, total_eq⟩ :=
    @moveReadHead_moved ring.reserved ring.total count ring.nodes sound.nodes sound.room
      sound.total_eq
  refine ⟨⟨nodes, room, ?_, sound.segsz_pos⟩, unread_eq⟩
  change _ = (List.flatMap _ _).length
  rw [total_eq, unread_eq, sound.total_eq, length_drop]
  rfl

theorem bufringRead (bytes : Nat) : (bufringRead ring bytes).2.Sound ∧
    (Cx.bufringRead ring bytes).1 = ring.unread.take bytes ∧
      (Cx.bufringRead ring bytes).2.unread = ring.unread.drop bytes := by
  obtain ⟨after, left⟩ := sound.moved (0 + bytes)
  refine ⟨after, sound.read 0 bytes _, left.trans ?_⟩
  rw [Nat.zero_add]

theorem bufringSkip (bytes : Nat) : (bufringSkip ring bytes).2.Sound ∧
    (Cx.bufringSkip ring bytes).2.unread = ring.unread.drop (Cx.bufringSkip ring bytes).1 :=
  sound.moved _

theorem grow {front : List BufRingNode} {last : BufRingNode}
    (nodes_eq : ring.nodes = front ++ [last]) (f : BufRingNode → BufRingNode) {bytes : List UInt8}
    (kept : (f last).Sound) (added : (f last).unread = last.unread ++ bytes) {reserved : Nat}
    (room : HasRoom reserved (ring.nodes.modifyLast f)) :
    BufRing.Sound ⟨ring.nodes.modifyLast f, ring.total + bytes.length, ring.segsz, reserved⟩ ∧
      (ring.nodes.modifyLast f).flatMap BufRingNode.unread = ring.unread ++ bytes := by
  have unread_eq : (ring.nodes.modifyLast f).flatMap BufRingNode.unread = ring.unread ++ bytes := by
    rw [BufRing.unread, nodes_eq, modifyLast_concat]
    simp [added]
  refine ⟨⟨?_, room, ?_, sound.segsz_pos⟩, unread_eq⟩
  · have before := sound.nodes
    rw [nodes_eq, forall_mem_append] at before
    rw [nodes_eq, modifyLast_concat]
    exact forall_mem_append.2 ⟨before.1, forall_mem_singleton.2 kept⟩
  · change _ = (List.flatMap _ _).length
    rw [unread_eq, length_append, sound.total_eq]

theorem append {node : BufRingNode} {count reserved : Nat}
    (waits : node.Waits count) (free : HasRoom reserved (ring.nodes ++ [node])) :
    BufRing.Sound ⟨ring.nodes ++ [node], ring.total + count, ring.segsz, reserved⟩ ∧
      (ring.nodes ++ [node]).flatMap BufRingNode.unread = ring.unread ++ node.unread := by
  refine ⟨⟨forall_mem_append.2 ⟨sound.nodes, forall_mem_singleton.2 waits.sound⟩, free, ?_,
    sound.segsz_pos⟩, by simp [BufRing.unread]⟩
  · change _ = (List.flatMap _ _).length
    rw [sound.total_eq, BufRing.unread]
    simp [waits.avail.1]

/-- There is room in the last segment once it was made. -/
theorem makeRoom (free : ring.reserved = 0) :
    (bufringMakeRoom ring).Sound ∧ (bufringMakeRoom ring).unread = ring.unread ∧
      (bufringMakeRoom ring).reserved = 0 ∧
      ∃ front last, (bufringMakeRoom ring).nodes = front ++ [last] ∧ 0 < nodeWriteAvail last := by
  unfold bufringMakeRoom
  split
  case isTrue =>
    have fresh : (newNode ring.segsz).Waits 0 := @waits_nodeEmpty (newNode _) _ sound.segsz_pos
    obtain ⟨kept, same⟩ := sound.append fresh (.inl free)
    refine ⟨kept, ?_, free, ring.nodes, _, rfl, ?_⟩
    · rw [fresh.unread_eq] at same
      exact same.trans (append_nil _)
    · rw [fresh.avail.2.1]
      exact sound.segsz_pos
  case isFalse some_room =>
    refine ⟨sound, rfl, free, ?_⟩
    rcases eq_nil_or_concat ring.nodes with none | ⟨front, last, split⟩
    · exact absurd (by rw [bufringWriteSpace, none]; rfl) some_room
    · rw [concat_eq_append] at split
      refine ⟨front, last, split, Nat.pos_of_ne_zero fun no_room => some_room ?_⟩
      rw [bufringWriteSpace, split]
      simpa using no_room

theorem writeLoop (free : ring.reserved = 0) {fuel : Nat} {bytes : List UInt8}
    (enough : bytes.length ≤ fuel) :
    (bufringWriteLoop fuel ring bytes).Sound ∧
      (bufringWriteLoop fuel ring bytes).unread = ring.unread ++ bytes := by
  induction fuel generalizing ring bytes with
  | zero =>
    obtain rfl := eq_nil_of_length_eq_zero (Nat.le_zero.1 enough)
    exact ⟨sound, (append_nil _).symm⟩
  | succ fuel ih =>
    rw [bufringWriteLoop]
    split
    case isTrue nothing => exact ⟨sound, by rw [nothing, append_nil]⟩
    case isFalse some_byte =>
      have positive := length_pos_of_ne_nil some_byte
      obtain ⟨roomy, same, still_free, front, last, split, room⟩ := sound.makeRoom free
      have space : bufringWriteSpace (bufringMakeRoom ring) = nodeWriteAvail last := by
        rw [bufringWriteSpace, split]
        simp
      have waits : last.Waits (nodeReadAvail last) := roomy.nodes last (by simp [split])
      have avail := waits.avail.2.1
      simp only [space]
      obtain ⟨count, count_eq⟩ : ∃ n, n = min bytes.length (nodeWriteAvail last) := ⟨_, rfl⟩
      have taken : (bytes.take count).length = count := by
        rw [length_take]
        omega
      rw [← count_eq]
      obtain ⟨put, put_unread⟩ := waits.put (ne_nil_of_length_pos (l := bytes.take count)
        (by omega)) (by have := waits.count_le; omega)
      obtain ⟨grown, grown_unread⟩ := roomy.grow split (nodePut · (bytes.take count)) put.sound
        put_unread (.inl still_free)
      rw [taken] at grown
      obtain ⟨done, done_unread⟩ := @ih _ grown still_free (bytes.drop count)
        (by rw [length_drop]; omega)
      refine ⟨done, done_unread.trans ?_⟩
      change List.flatMap _ _ ++ _ = _
      rw [grown_unread, same, append_assoc, take_append_drop]

end

theorem feedLoop {feed : Nat → Nat → List UInt8} (obeys : ∀ turn n, (feed turn n).length ≤ n)
    (sound : ring.Sound) (free : ring.reserved = 0) (fuel turn remaining : Nat) :
    (bufringFeedLoop feed fuel turn ring remaining).1.Sound ∧
      (bufringFeedLoop feed fuel turn ring remaining).1.unread =
        ring.unread ++ (bufringFeedLoop feed fuel turn ring remaining).2 := by
  induction fuel generalizing ring turn remaining with
  | zero => exact ⟨sound, (append_nil _).symm⟩
  | succ fuel ih =>
    rw [bufringFeedLoop]
    split
    case isTrue => exact ⟨sound, (append_nil _).symm⟩
    case isFalse =>
      obtain ⟨roomy, same, still_free, front, last, split, -⟩ := sound.makeRoom free
      have waits : last.Waits (nodeReadAvail last) := roomy.nodes last (by simp [split])
      have avail := waits.avail.2.1
      have offered := obeys turn (bufringFeedCount (bufringMakeRoom ring) remaining)
      have count_le : bufringFeedCount (bufringMakeRoom ring) remaining ≤
          min (nodeWriteAvail last) (last.buf.sz - last.tail) := by
        simp only [bufringFeedCount, bufringWriteSpace, split, List.getLast?_concat,
          Option.map_some, Option.getD_some]
        omega
      have := waits.count_le
      have := waits.tail_lt
      obtain ⟨fed, fed_unread⟩ := waits.feed
        (feed turn (bufringFeedCount (bufringMakeRoom ring) remaining)) (by omega) (by omega)
      obtain ⟨grown, grown_unread⟩ := roomy.grow split (nodeFeed · _) fed.sound fed_unread
        (.inl still_free)
      rw [same] at grown_unread
      simp only
      split
      case isTrue nothing => exact ⟨grown, grown_unread.trans (by rw [nothing])⟩
      case isFalse =>
        obtain ⟨done, done_unread⟩ := ih grown still_free (turn + 1)
          (remaining - (feed turn (bufringFeedCount (bufringMakeRoom ring) remaining)).length)
        refine ⟨done, done_unread.trans ?_⟩
        rw [← append_assoc, ← grown_unread]
        rfl

variable (sound : ring.Sound)
include sound

theorem rewind :
    BufRing.Sound { ring with nodes := ring.nodes.modifyLast nodeRewind, reserved := 0 } ∧
      (ring.nodes.modifyLast nodeRewind).flatMap BufRingNode.unread = ring.unread ++ [] := by
  rcases eq_nil_or_concat ring.nodes with none | ⟨front, last, split⟩
  · have same : ring.nodes.modifyLast nodeRewind = ring.nodes := by
      rw [none]
      rfl
    rw [same, append_nil]
    exact ⟨⟨sound.nodes, .inl rfl, sound.total_eq, sound.segsz_pos⟩, rfl⟩
  · rw [concat_eq_append] at split
    have waits : last.Waits (nodeReadAvail last) := sound.nodes last (by simp [split])
    have kept : (nodeRewind last).Sound ∧ (nodeRewind last).unread = last.unread ++ [] := by
      rw [append_nil, nodeRewind]
      split_ifs with empty
      · have none_waits : nodeReadAvail last = 0 := by
          rw [nodeReadAvail, if_pos ⟨empty.2.1.le, empty.1⟩]
          omega
        have start : (nodeEmpty last 0).Waits 0 :=
          waits_nodeEmpty (Nat.zero_lt_of_lt waits.head_lt)
        rw [show { last with head := 0, tail := 0 } = nodeEmpty last 0 by simp [nodeEmpty, empty.1],
          start.unread_eq, waits.unread_eq, none_waits]
        exact ⟨start.sound, rfl⟩
      · exact ⟨waits.sound, rfl⟩
    exact sound.grow split nodeRewind kept.1 kept.2 (.inl rfl)

theorem reserve {minbytes : Nat} (some_byte : 0 < minbytes) :
    (bufringReserve ring minbytes).Sound ∧ (bufringReserve ring minbytes).unread = ring.unread := by
  have hasRoom_last (nodes : List BufRingNode) :
      HasRoom ((nodes.getLast?.map nodeContigWriteAvail).getD 0) nodes := by
    rcases eq_nil_or_concat nodes with rfl | ⟨front, last, rfl⟩
    · exact .inl rfl
    · exact .inr ⟨front, last, by simp, by simp⟩
  obtain ⟨rewound, same⟩ := sound.rewind
  rw [append_nil] at same
  simp only [bufringReserve]
  split_ifs
  · have fresh : (newNode (max ring.segsz minbytes)).Waits 0 :=
      @waits_nodeEmpty (newNode _) _ (by change 0 < max _ _; omega)
    obtain ⟨grown, unread_eq⟩ := rewound.append fresh (hasRoom_last _)
    refine ⟨grown, unread_eq.trans ?_⟩
    rw [fresh.unread_eq]
    exact (append_nil _).trans same
  · exact ⟨⟨rewound.nodes, hasRoom_last _, rewound.total_eq, rewound.segsz_pos⟩, same⟩

/-- The segment a reservation lies in, and that it lies behind what waits there. -/
theorem held (some_held : ring.reserved ≠ 0) :
    ∃ front last, ring.nodes = front ++ [last] ∧ last.Sound ∧
      nodeReadAvail last + ring.reserved ≤ last.buf.sz ∧ last.tail + ring.reserved ≤
        last.buf.sz := by
  obtain none_held | ⟨front, last, split, fits⟩ := sound.room
  · exact absurd none_held some_held
  · have waits : last.Waits (nodeReadAvail last) := sound.nodes last (by simp [split])
    have avail := waits.avail
    have := waits.count_le
    exact ⟨front, last, split, waits, by omega, by omega⟩

theorem fill (some_held : ring.reserved ≠ 0) {offset : Nat} {bytes : List UInt8}
    (within : offset + bytes.length ≤ ring.reserved) :
    (bufringFill ring offset bytes).Sound ∧
      (bufringFill ring offset bytes).unread = ring.unread ++ [] := by
  obtain ⟨front, last, split, waits, fits, -⟩ := sound.held some_held
  have kept : (nodeFill last offset bytes).Waits (nodeReadAvail last) :=
    { waits with }
  refine @grow _ sound _ _ split (nodeFill · offset bytes) [] kept.sound ?_ ring.reserved ?_
  · rw [kept.unread_eq, waits.unread_eq, append_nil]
    simp only [nodeFill, waits.tail_eq]
    exact Memory.cycle_write_room _ _ _ (by omega)
  · rcases sound.room with none_held | ⟨front', last', split', room⟩
    · exact .inl none_held
    · exact .inr ⟨front', nodeFill last' offset bytes, by rw [split', modifyLast_concat], room⟩

theorem commit (some_held : ring.reserved ≠ 0) {bytes : Nat} (within : bytes ≤ ring.reserved) :
    (bufringCommit ring bytes).Sound ∧
      (bufringCommit ring bytes).unread = ring.unread ++ ring.filled bytes := by
  obtain ⟨front, last, split, waits, fits, straight⟩ := sound.held some_held
  have moved := BufRingNode.Waits.advance waits (show nodeReadAvail last + bytes ≤ _ by omega)
  have filled : ring.filled bytes = Memory.slice last.buf.data last.tail bytes := by
    simp [BufRing.filled, split]
  have added : (nodeAdvance last bytes).unread = last.unread ++ ring.filled bytes := by
    rw [moved.unread_eq, waits.unread_eq, filled,
      ← @Memory.cycle_eq_slice _ _ last.buf.sz _ _ (by omega), waits.tail_eq]
    exact Memory.cycle_add _ _ _ _ _
  have grown := @grow _ sound _ _ split (nodeAdvance · bytes) _ moved.sound added 0 (.inl rfl)
  rw [filled, Memory.length_slice] at grown
  rw [bufringCommit, Nat.min_eq_left within, filled]
  exact grown

end BufRing.Sound

/-! ### Runs -/

/-- A ring that some calls lead to, with the bytes they put in and the bytes they took out.  Nothing
is written while a reservation is held, and its holder writes only into it. -/
inductive BufRing.Run (segsz : Nat) : BufRing → List UInt8 → List UInt8 → Prop
  | init : Run segsz (bufringInit segsz) [] []
  | write {ring put got} (run : Run segsz ring put got) (free : ring.reserved = 0)
      (bytes : List UInt8) : Run segsz (bufringWrite ring bytes) (put ++ bytes) got
  | writeZC {ring put got} (run : Run segsz ring put got) (free : ring.reserved = 0)
      (buf : Buffer) (fits : buf.len ≤ buf.sz) :
      Run segsz (bufringWriteZC ring buf) (put ++ buf.text) got
  | feed {ring put got} (run : Run segsz ring put got) (free : ring.reserved = 0)
      {feed : Nat → Nat → List UInt8} (obeys : ∀ turn n, (feed turn n).length ≤ n) (bytes : Nat) :
      Run segsz (bufringFeed ring feed bytes).1 (put ++ (bufringFeed ring feed bytes).2) got
  | reserve {ring put got} (run : Run segsz ring put got) (free : ring.reserved = 0)
      {minbytes : Nat} (some_byte : 0 < minbytes) :
      Run segsz (bufringReserve ring minbytes) put got
  | fill {ring put got} (run : Run segsz ring put got) (some_held : ring.reserved ≠ 0)
      {offset : Nat} {bytes : List UInt8} (within : offset + bytes.length ≤ ring.reserved) :
      Run segsz (bufringFill ring offset bytes) put got
  | commit {ring put got} (run : Run segsz ring put got) (some_held : ring.reserved ≠ 0)
      {bytes : Nat} (within : bytes ≤ ring.reserved) :
      Run segsz (bufringCommit ring bytes) (put ++ ring.filled bytes) got
  | read {ring put got} (run : Run segsz ring put got) (bytes : Nat) :
      Run segsz (bufringRead ring bytes).2 put (got ++ (bufringRead ring bytes).1)
  | readZC {ring put got} (run : Run segsz ring put got) (bytes : Nat)
      (cb : Nat → List UInt8 → Bool) :
      Run segsz (bufringReadZC ring bytes cb).2 put
        (if ((bufringReadZC ring bytes cb).1.mapIdx cb).all id then
          got ++ (bufringReadZC ring bytes cb).1.flatten else got)
  | skip {ring put got} (run : Run segsz ring put got) (bytes : Nat) :
      Run segsz (bufringSkip ring bytes).2 put
        (got ++ (put.drop got.length).take (bufringSkip ring bytes).1)

theorem BufRing.Run.sound {segsz : Nat} {ring : BufRing} {put got : List UInt8}
    (run : Run segsz ring put got) : ring.Sound ∧ put = got ++ ring.unread := by
  induction run with
  | init => exact ⟨⟨by simp [bufringInit], .inl rfl, rfl, by change 0 < max _ _; omega⟩, rfl⟩
  | write _ free bytes ih =>
    obtain ⟨sound, unread_eq⟩ := ih.1.writeLoop free (le_refl bytes.length)
    exact ⟨sound, by rw [ih.2, append_assoc, ← unread_eq]; rfl⟩
  | writeZC _ free buf fits ih =>
    unfold bufringWriteZC
    split
    case isTrue none_fits =>
      have empty : buf.text = [] := eq_nil_of_length_eq_zero (by simp [Buffer.text]; omega)
      exact ⟨ih.1, by rw [empty, append_nil, ih.2]⟩
    case isFalse some_fit =>
      have waits : BufRingNode.Waits ⟨buf, 0, buf.len % buf.sz, buf.len == buf.sz⟩ buf.len :=
        ⟨Nat.pos_of_ne_zero some_fit, fits, by simp, by simp⟩
      obtain ⟨sound, unread_eq⟩ := ih.1.append waits (.inl free)
      refine ⟨sound, ?_⟩
      rw [waits.unread_eq, Memory.cycle_eq_slice (by simpa using fits)] at unread_eq
      rw [ih.2, append_assoc]
      exact congrArg _ unread_eq.symm
  | feed _ free obeys bytes ih =>
    obtain ⟨sound, unread_eq⟩ := ih.1.feedLoop obeys free bytes 0 bytes
    exact ⟨sound, by rw [ih.2, append_assoc, bufringFeed, unread_eq]⟩
  | reserve _ _ some_byte ih =>
    obtain ⟨sound, unread_eq⟩ := ih.1.reserve some_byte
    exact ⟨sound, by rw [ih.2, unread_eq]⟩
  | fill _ some_held within ih =>
    obtain ⟨sound, unread_eq⟩ := ih.1.fill some_held within
    exact ⟨sound, by rw [ih.2, unread_eq, append_nil]⟩
  | commit _ some_held within ih =>
    obtain ⟨sound, unread_eq⟩ := ih.1.commit some_held within
    exact ⟨sound, by rw [ih.2, unread_eq, append_assoc]⟩
  | read _ bytes ih =>
    obtain ⟨sound, taken, left⟩ := ih.1.bufringRead bytes
    exact ⟨sound, by rw [taken, left, append_assoc, take_append_drop, ih.2]⟩
  | @readZC ring put got _ bytes cb ih =>
    split
    case isTrue agreed =>
      have taken : (bufringReadZC ring bytes cb).1.flatten = _ := ih.1.read 0 bytes _
      obtain ⟨sound, unread_eq⟩ := ih.1.moved (0 + bytes)
      have moved : (bufringReadZC ring bytes cb).2 = _ := if_pos agreed
      have left : (bufringReadZC ring bytes cb).2.unread = _ :=
        (congrArg BufRing.unread moved).trans unread_eq
      refine ⟨moved ▸ sound, ?_⟩
      rw [taken, left, Nat.zero_add, drop_zero, append_assoc, take_append_drop, ih.2]
    case isFalse refused =>
      have kept : (bufringReadZC ring bytes cb).2 = ring := if_neg refused
      rw [kept]
      exact ih
  | skip _ bytes ih =>
    obtain ⟨sound, left⟩ := ih.1.bufringSkip bytes
    exact ⟨sound, by rw [left, ih.2, drop_left, append_assoc, take_append_drop]⟩

/-- In every run a ring is a queue: what was put in is what was taken out and what still waits, a
read, a peek and a walk show the next bytes that wait, a walk that is refused takes nothing, and a
reservation lies where nothing waits and is not moved by any of them. -/
theorem ring_is_byte_queue {segsz : Nat} {ring : BufRing} {put got : List UInt8}
    (run : ring.Run segsz put got) :
    put = got ++ ring.unread ∧ ring.total = put.length - got.length ∧
      (∀ bytes, (bufringRead ring bytes).1 = (put.drop got.length).take bytes) ∧
      (∀ off bytes, bufringPeek ring off bytes = (put.drop (got.length + off)).take bytes) ∧
      (∀ bytes cb, (bufringReadZC ring bytes cb).1.flatten = (put.drop got.length).take bytes ∧
        (((bufringReadZC ring bytes cb).1.mapIdx cb).all id = false →
          (bufringReadZC ring bytes cb).2 = ring)) ∧
      (∀ bytes, (bufringSkip ring bytes).1 = min bytes (put.length - got.length)) ∧
      (ring.reserved ≠ 0 → ∃ front last, ring.nodes = front ++ [last] ∧
        last.tail + ring.reserved ≤ last.buf.sz ∧
        ∀ waiting < nodeReadAvail last, ∀ offset < ring.reserved,
          (last.head + waiting) % last.buf.sz ≠ last.tail + offset) ∧
      (ring.reserved ≠ 0 → ∀ bytes, (bufringRead ring bytes).2.place = ring.place ∧
        (bufringSkip ring bytes).2.place = ring.place ∧
        ∀ cb, (bufringReadZC ring bytes cb).2.place = ring.place) := by
  obtain ⟨sound, put_eq⟩ := run.sound
  have rest : put.drop got.length = ring.unread := by rw [put_eq, drop_left]
  have total_eq : ring.total = put.length - got.length := by
    rw [sound.total_eq, ← rest, length_drop]
  refine ⟨put_eq, total_eq, fun bytes => ?_, fun off bytes => ?_, fun bytes cb => ⟨?_, ?_⟩,
    fun bytes => ?_, fun some_held => ?_, fun some_held bytes => ⟨?_, ?_, fun cb => ?_⟩⟩
  · rw [rest]
    exact sound.read 0 bytes _
  · rw [← drop_drop, rest]
    exact sound.read off bytes _
  · rw [rest]
    exact sound.read 0 bytes _
  · intro refused
    exact if_neg (by rw [Bool.not_eq_true]; exact refused)
  · rw [← total_eq]
    rfl
  · obtain ⟨front, last, split, waits, fits, straight⟩ := sound.held some_held
    refine ⟨front, last, split, straight, fun waiting before offset inside same => ?_⟩
    refine Memory.mod_ne_of_lt last.head before (show _ + offset < last.buf.sz by omega) ?_
    rw [← Nat.mod_add_mod (last.head + nodeReadAvail last), ← waits.tail_eq, same]
    exact (Nat.mod_eq_of_lt (by omega)).symm
  · exact place_moveReadHead some_held _ _ _
  · exact place_moveReadHead some_held _ _ _
  · rw [bufringReadZC, readCommon]
    split_ifs
    · exact place_moveReadHead some_held _ _ _
    · rfl

theorem ring_is_byte_queue_short :
    bufringPeek (bufringRead (bufringWrite (bufringInit 0) [1, 2, 3]) 2).2 0 5 = [3] :=
  (ring_is_byte_queue ((BufRing.Run.init.write rfl [1, 2, 3]).read 2)).2.2.2.1 0 5

end Cx
