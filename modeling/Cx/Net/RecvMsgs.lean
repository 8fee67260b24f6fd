import Cx.BufRing

/-!
# Draining a stream socket by messages

`NetSocket_recvMsgs` takes segment after segment out of the receive ring, or copies what it cannot
take.  Neither way sets the length of the buffer it hands out, and a full segment, whose write
cursor is back at 0, is taken without a change to the total.  So the bytes arrive only in segments
that came with their length, as `bufringWriteZC` leaves them.
-/

namespace Cx

open Library

/-- The message of one turn of the loop of `NetSocket_recvMsgs`. -/
def recvMsg (ring : BufRing) : Option (Buffer × BufRing) :=
  (bufringStealHead ring).or <|
    let avail := bufringReadContigAvail ring
    if avail = 0 then none
    else
      let copied := bufringRead ring avail
      some ({ bufCreate avail with data := Memory.write (bufCreate avail).data 0 copied.1 },
        copied.2)

/-- The loop, with a callback that takes every message.  Nothing stands for a loop that goes on. -/
def recvMsgs : Nat → BufRing → Option (List Buffer × BufRing)
  | 0, _ => none
  | fuel + 1, ring =>
    match recvMsg ring with
    | none => some ([], ring)
    | some msg => (recvMsgs fuel msg.2).map fun later => (msg.1 :: later.1, later.2)

/-- A segment as `bufringWriteZC` leaves it, unless the buffer was filled to its end. -/
structure BufRingNode.Handed (node : BufRingNode) : Prop where
  head_eq : node.head = 0
  tail_eq : node.tail = node.buf.len
  room : node.buf.len < node.buf.sz
  not_full : node.full = false

theorem BufRingNode.Handed.unread {node : BufRingNode} (handed : node.Handed) :
    node.unread = node.buf.text := by
  have avail : nodeReadAvail node = node.buf.len := by
    rw [nodeReadAvail, handed.head_eq, handed.not_full, handed.tail_eq]
    simp
  rw [BufRingNode.unread, avail, handed.head_eq,
    Memory.cycle_eq_slice (by have := handed.room; omega), Buffer.text]

theorem recvMsg_total_zero {ring : BufRing} (empty : ring.total = 0) : recvMsg ring = none := by
  have kept : bufringStealHead ring = none := by
    unfold bufringStealHead
    split
    · rfl
    · rw [if_pos (.inl empty)]
  have nothing : bufringReadContigAvail ring = 0 := by
    unfold bufringReadContigAvail
    split
    · rfl
    · rw [if_pos empty]
  rw [recvMsg, kept, nothing]
  rfl

end Cx
