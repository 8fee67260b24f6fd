import Mathlib.Data.List.ModifyLast
import Cx.Buffer
import Cx.Library.Cyclic

/-!
# Ring buffers

A ring is a chain of segments, each of them a buffer used in a circle: unread bytes stand from
`head` on and new ones go in at `tail`.  Where the two meet, `full` tells a full segment from an
empty one.
-/

namespace Cx

open Library

structure BufRingNode where
  buf : Buffer
  head : Nat
  tail : Nat
  full : Bool

/-- The segments stand in the order of the chain, `ring->head` first and `ring->tail` last. -/
structure BufRing where
  nodes : List BufRingNode
  total : Nat
  segsz : Nat
  reserved : Nat

def bufringInit (segsz : Nat) : BufRing := ⟨[], 0, max segsz 64, 0⟩

def bufCreate (size : Nat) : Buffer := ⟨size, 0, fun _ => 0⟩

/-- The segment `appendNode` puts behind the last one. -/
def newNode (segsz : Nat) : BufRingNode := ⟨bufCreate segsz, 0, 0, false⟩

def nodeReadAvail (node : BufRingNode) : Nat :=
  if node.head ≤ node.tail ∧ node.full = false then node.tail - node.head
  else node.buf.sz - node.head + node.tail

def nodeWriteAvail (node : BufRingNode) : Nat :=
  if node.head ≤ node.tail ∧ node.full = false then node.buf.sz - node.tail + node.head
  else node.head - node.tail

def nodeContigWriteAvail (node : BufRingNode) : Nat :=
  if node.full then 0
  else if node.head ≤ node.tail then node.buf.sz - node.tail
  else node.head - node.tail

def bufringWriteSpace (ring : BufRing) : Nat :=
  (ring.nodes.getLast?.map nodeWriteAvail).getD 0

/-! ### Reading -/

def nodeConsume (node : BufRingNode) (count : Nat) : BufRingNode :=
  { node with head := (node.head + count) % node.buf.sz, full := false }

def nodeEmpty (node : BufRingNode) (place : Nat) : BufRingNode :=
  { node with head := place, tail := place, full := false }

/-- The loop over the segments.  It is over once the last one is empty, for nothing is left then. -/
def moveReadHead (reserved : Nat) : List BufRingNode → Nat → Nat → List BufRingNode × Nat
  | [], total, _ => ([], total)
  | node :: rest, total, remaining =>
    if remaining = 0 ∨ total = 0 then (node :: rest, total)
    else if remaining < nodeReadAvail node then
      (nodeConsume node remaining :: rest, total - remaining)
    else if rest ≠ [] then
      moveReadHead reserved rest (total - nodeReadAvail node) (remaining - nodeReadAvail node)
    else
      -- a reserved region begins at the tail, so the cursors may not be rewound then
      ([nodeEmpty node (if reserved = 0 then 0 else node.tail)], total - nodeReadAvail node)

/-- A run of `count` bytes is handed on without the first `skip`, unless nothing is left. -/
def readOutputHelper (run : List UInt8) (skip : Nat) : List (List UInt8) :=
  if skip < run.length then [run.drop skip] else []

/-- The runs that `readCommon` copies or shows to its callback. -/
def readRuns : List BufRingNode → Nat → Nat → Nat → List (List UInt8)
  | [], _, _, _ => []
  | node :: rest, skip, total, avail =>
    if total = 0 ∨ avail = 0 then []
    else if node.head ≤ node.tail ∧ node.full = false then
      let count := min total (node.tail - node.head)
      readOutputHelper (Memory.slice node.buf.data node.head count) skip ++
        readRuns rest (skip - min count skip) (total - count) (avail - count)
    else
      -- have to split read
      let count := min total (node.buf.sz - node.head)
      let more := min (total - count) node.tail
      let skip' := skip - min count skip
      readOutputHelper (Memory.slice node.buf.data node.head count) skip ++
        (readOutputHelper (Memory.slice node.buf.data 0 more) skip' ++
          readRuns rest (skip' - min more skip') (total - count - more) (avail - count - more))

/-- The runs read, and the ring after the read cursor is moved or left. -/
def readCommon (ring : BufRing) (skip bsz : Nat) (cb : List (List UInt8) → Bool) :
    List (List UInt8) × BufRing :=
  let runs := readRuns ring.nodes skip (min (skip + bsz) ring.total) ring.total
  let moved := moveReadHead ring.reserved ring.nodes ring.total (skip + bsz)
  (runs, if cb runs then { ring with nodes := moved.1, total := moved.2 } else ring)

def bufringRead (ring : BufRing) (bytes : Nat) : List UInt8 × BufRing :=
  let done := readCommon ring 0 bytes fun _ => true
  (done.1.flatten, done.2)

def bufringPeek (ring : BufRing) (off bytes : Nat) : List UInt8 :=
  (readCommon ring off bytes fun _ => false).1.flatten

/-- The callback gets one run after the other, and each answer counts. -/
def bufringReadZC (ring : BufRing) (bytes : Nat) (cb : Nat → List UInt8 → Bool) :
    List (List UInt8) × BufRing :=
  readCommon ring 0 bytes fun runs => (runs.mapIdx cb).all id

def bufringSkip (ring : BufRing) (bytes : Nat) : Nat × BufRing :=
  let toSkip := min bytes ring.total
  let moved := moveReadHead ring.reserved ring.nodes ring.total toSkip
  (toSkip, { ring with nodes := moved.1, total := moved.2 })

/-! ### Writing -/

def bufringMakeRoom (ring : BufRing) : BufRing :=
  if bufringWriteSpace ring = 0 then { ring with nodes := ring.nodes ++ [newNode ring.segsz] }
  else ring

def nodeAdvance (node : BufRingNode) (count : Nat) : BufRingNode :=
  let tail := (node.tail + count) % node.buf.sz
  { node with tail := tail, full := if 0 < count ∧ node.head = tail then true else node.full }

/-- What one turn of the loop of `bufringWrite` does to the last segment. -/
def nodePut (node : BufRingNode) (bytes : List UInt8) : BufRingNode :=
  let first := node.buf.sz - node.tail
  let data :=
    if node.tail + bytes.length ≤ node.buf.sz then Memory.write node.buf.data node.tail bytes
    else Memory.write (Memory.write node.buf.data node.tail (bytes.take first)) 0 (bytes.drop first)
  let tail :=
    if node.tail + bytes.length ≤ node.buf.sz then (node.tail + bytes.length) % node.buf.sz
    else bytes.length - first
  { buf := { node.buf with data := data }
    head := node.head
    tail := tail
    full := if node.head = tail then true else node.full }

def bufringWriteLoop : Nat → BufRing → List UInt8 → BufRing
  | 0, ring, _ => ring
  | fuel + 1, ring, bytes =>
    if bytes = [] then ring
    else
      let roomy := bufringMakeRoom ring
      let count := min bytes.length (bufringWriteSpace roomy)
      bufringWriteLoop fuel
        { roomy with
          nodes := roomy.nodes.modifyLast (nodePut · (bytes.take count))
          total := roomy.total + count }
        (bytes.drop count)

/-- Every turn writes a byte, so there are no more turns than bytes. -/
def bufringWrite (ring : BufRing) (bytes : List UInt8) : BufRing :=
  bufringWriteLoop bytes.length ring bytes

def bufringWriteZC (ring : BufRing) (buf : Buffer) : BufRing :=
  if buf.sz = 0 then ring
  else
    { ring with
      nodes := ring.nodes ++ [⟨buf, 0, buf.len % buf.sz, buf.len == buf.sz⟩]
      total := ring.total + buf.len }

/-- Bytes are written behind those that wait, and the cursor stays. -/
def nodeFill (node : BufRingNode) (offset : Nat) (bytes : List UInt8) : BufRingNode :=
  { node with
    buf := { node.buf with data := Memory.write node.buf.data (node.tail + offset) bytes } }

/-- What one turn of the loop of `bufringFeed` does to the last segment. -/
def nodeFeed (node : BufRingNode) (bytes : List UInt8) : BufRingNode :=
  nodeAdvance (nodeFill node 0 bytes) bytes.length

/-- How much a turn of `bufringFeed` offers to its callback. -/
def bufringFeedCount (ring : BufRing) (remaining : Nat) : Nat :=
  min (min remaining (bufringWriteSpace ring))
    ((ring.nodes.getLast?.map fun node => node.buf.sz - node.tail).getD 0)

/-- The ring and the bytes that were fed.  The callback knows how often it was called. -/
def bufringFeedLoop (feed : Nat → Nat → List UInt8) :
    Nat → Nat → BufRing → Nat → BufRing × List UInt8
  | 0, _, ring, _ => (ring, [])
  | fuel + 1, turn, ring, remaining =>
    if remaining = 0 then (ring, [])
    else
      let roomy := bufringMakeRoom ring
      let bytes := feed turn (bufringFeedCount roomy remaining)
      let fed := { roomy with
        nodes := roomy.nodes.modifyLast (nodeFeed · bytes)
        total := roomy.total + bytes.length }
      if bytes = [] then (fed, [])
      else
        let later := bufringFeedLoop feed fuel (turn + 1) fed (remaining - bytes.length)
        (later.1, bytes ++ later.2)

def bufringFeed (ring : BufRing) (feed : Nat → Nat → List UInt8) (bytes : Nat) :
    BufRing × List UInt8 :=
  bufringFeedLoop feed bytes 0 ring bytes

/-! ### Reserving -/

def nodeRewind (node : BufRingNode) : BufRingNode :=
  if node.full = false ∧ node.head = node.tail ∧ node.head ≠ 0 then
    { node with head := 0, tail := 0 }
  else node

def bufringReserve (ring : BufRing) (minbytes : Nat) : BufRing :=
  let rewound := ring.nodes.modifyLast nodeRewind
  let nodes :=
    if (rewound.getLast?.map nodeContigWriteAvail).getD 0 < minbytes then
      rewound ++ [newNode (max ring.segsz minbytes)]
    else rewound
  { ring with
    nodes := nodes
    reserved := (nodes.getLast?.map nodeContigWriteAvail).getD 0 }

/-- The holder of a reservation writes into it. -/
def bufringFill (ring : BufRing) (offset : Nat) (bytes : List UInt8) : BufRing :=
  { ring with nodes := ring.nodes.modifyLast (nodeFill · offset bytes) }

def bufringCommit (ring : BufRing) (bytes : Nat) : BufRing :=
  let count := min bytes ring.reserved
  { ring with
    nodes := ring.nodes.modifyLast (nodeAdvance · count)
    total := ring.total + count
    reserved := 0 }

/-! ### Taking a segment out -/

def bufringReadContigAvail (ring : BufRing) : Nat :=
  match ring.nodes with
  | [] => 0
  | node :: _ => if ring.total = 0 then 0 else nodeReadAvail node

def bufringStealHead (ring : BufRing) : Option (Buffer × BufRing) :=
  match ring.nodes with
  | [] => none
  | node :: rest =>
    if ring.total = 0 ∨ node.head ≠ 0 then none
    else some (node.buf, { ring with nodes := rest, total := ring.total - node.tail })

/-! ### What is in a ring -/

/-- The bytes of a segment that wait to be read. -/
def BufRingNode.unread (node : BufRingNode) : List UInt8 :=
  Memory.cycle node.buf.data node.buf.sz node.head (nodeReadAvail node)

def Buffer.text (buf : Buffer) : List UInt8 := Memory.slice buf.data 0 buf.len

def BufRing.unread (ring : BufRing) : List UInt8 := ring.nodes.flatMap BufRingNode.unread

end Cx
