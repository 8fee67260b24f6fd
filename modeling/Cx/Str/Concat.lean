import Cx.Str.RopeText

/-!
# Joining and cutting strings

`strConcat`, `strAppend`, `strNConcat`, `strSubStr`, `strInsert` and `strErase` merge small strings
into a flat buffer and make ropes of large ones.  Which of the two happens, and whether the
destination's own buffer is used again, does not show in the bytes.
-/

namespace Cx.Str

open Cx.Library

/-- What an output handle refers to before a call, and what its header and its buffer say of it. -/
structure StrDest where
  held : CxStr
  /-- `STR_ALLOC`; a literal or a C string is not allocated -/
  alloc : Bool
  stack : Bool
  refs : Nat
  bufsz : Nat
  deriving DecidableEq, Repr

/-- What a call leaves: the string in the output handle, and the bytes of the object the handle
referred to before, as any other holder of that object sees them. -/
structure StrWrite where
  out : CxStr
  old : CxStr
  deriving DecidableEq, Repr

namespace StrDest

def empty : StrDest := ⟨.null, false, false, 0, 0⟩

def isRope : CxStr → Bool
  | .rope .. => true
  | _ => false

/-- `_strReset` finds a buffer it may use again. -/
def reuses (o : StrDest) (minsz : Nat) : Bool :=
  strCheckValid o.held && o.alloc && !isRope o.held && (o.stack || o.refs == 1) &&
    decide (minsz + 1 ≤ o.bufsz)

/-- `_strFlatten` and `_strResize` find the string flat and their own. -/
def unique (o : StrDest) : Bool :=
  o.alloc && !isRope o.held && (o.stack || o.refs == 1)

/-- `out` is put in the handle, in the object's own buffer or as another object. -/
def write (o : StrDest) (inplace : Bool) (out : CxStr) : StrWrite :=
  ⟨out, if inplace then out else o.held⟩

/-- `STR_STACK` of the destination, which keeps the result flat. -/
def onStack (o : StrDest) : Bool := strCheckValid o.held && o.stack

end StrDest

def strEnd : Int := 0x7fffffff

def strResolvePos (slen : Nat) (i : Int) : Nat :=
  if i = strEnd then slen
  else if i < 0 then if (-i).toNat < slen then (slen + i).toNat else 0
  else i.toNat

def strResolveOff (slen : Nat) (i : Int) : Nat := min (strResolvePos slen i) slen

def strLen (s : CxStr) : Nat := if strCheckValid s then strFastLen s else 0

/-- The bytes `_strFastCopy(s, 0, strLen(s))` copies out. -/
def strBytes (s : CxStr) : Option (List UInt8) :=
  if strCheckValid s then strFastCopy s 0 (strLen s) else some []

/-- `strDup` into a handle.  A stack string keeps its own encoding bits. -/
def strDupInto (o : StrDest) (full : Bool) (s : CxStr) : Option StrWrite :=
  if !strCheckValid s then some ⟨.null, o.held⟩
  else if o.onStack then
    if o.bufsz - 1 < strFastLen s then (strCopy s).map (o.write false)
    else
      (strFastCopy s 0 (strFastLen s)).map fun bytes => o.write true (.flat (strEnc o.held) bytes)
  else (strDup full s).map (o.write false)

/-- Both strings copied into one flat buffer. -/
def strMerge (s1 s2 : CxStr) : Option CxStr :=
  (strFastCopy s1 0 (strFastLen s1)).bind fun first =>
    (strFastCopy s2 0 (strFastLen s2)).map fun second =>
      .flat ((strEnc s1).both (strEnc s2)) (first ++ second)

def strAppendNoRope (full : Bool) (io s : CxStr) : Option CxStr :=
  if strLen io = 0 then strDup full s else strMerge io s

/-- Two strings are copied into one buffer instead of being joined. -/
def mergesInto (o : StrDest) (s1len s2len : Nat) : Bool :=
  decide (s1len + s2len < ropeJoinThresh) || decide (s1len < ropeMinSize ∧ s2len < ropeMaxMerge) ||
    decide (s2len < ropeMinSize ∧ s1len < ropeMaxMerge) || o.onStack

/-- `_strCreateRope(s1, 0, 0, s2, 0, 0, true)`. -/
def strJoinRope (full : Saturated) (s1 s2 : CxStr) : Option CxStr :=
  strCreateRope (strFastLen s1 + strFastLen s2 + 1) full ⟨s1, 0, 0⟩ ⟨s2, 0, 0⟩

/-- The handle's own string is the first operand. -/
def strAppend (full : Saturated) (io : StrDest) (s : CxStr) : Option StrWrite :=
  if !strCheckValid s then some ⟨io.held, io.held⟩
  else if io.held = .null then (strDup full.here s).map (io.write false)
  else if mergesInto io (strLen io.held) (strFastLen s) then
    (strMerge io.held s).map (io.write io.unique)
  else (strJoinRope full io.held s).map (io.write false)

/-- Neither operand is the handle's own string. -/
def strConcat (full : Saturated) (o : StrDest) (s1 s2 : CxStr) : Option StrWrite :=
  if s1 = .null then strDupInto o full.here s2
  else if s2 = .null then strDupInto o full.here s1
  else if mergesInto o (strFastLen s1) (strFastLen s2) then
    (strMerge s1 s2).map (o.write (o.reuses (strFastLen s1 + strFastLen s2)))
  else (strJoinRope full s1 s2).map (o.write false)

def strPrepend (full : Saturated) (s : CxStr) (io : StrDest) : Option StrWrite :=
  (strConcat full .empty s io.held).map fun done => ⟨done.out, io.held⟩

/-- An argument of `_strNConcat` while nothing waits on the right of the top. -/
def strNConcatTake (full : Saturated) (curtop arg : CxStr) : Option (CxStr × CxStr) :=
  if strFastLen curtop < ropeMinSize ∧ strFastLen arg < ropeMaxMerge then
    (strAppendNoRope full.here curtop arg).map (·, .null)
  else (strDup full.here arg).map (curtop, ·)

/-- The loop that builds a rope of the arguments, with NULL while nothing waits on the right. -/
def strNConcatRope : Saturated → List CxStr → CxStr → CxStr → Option CxStr
  | full, [], curtop, curright =>
    if curright = .null then some curtop else strJoinRope full curtop curright
  | full, arg :: args, curtop, curright =>
    if curright = .null then
      (strNConcatTake (full.call 0) curtop arg).bind fun next =>
        strNConcatRope (full.call 1) args next.1 next.2
    else if strFastLen curright < ropeMinSize ∧ strFastLen arg < ropeMaxMerge then
      (strAppendNoRope (full.call 0).here curright arg).bind fun newright =>
        strNConcatRope (full.call 1) args curtop newright
    else
      -- a new top takes both, and the argument is looked at again with nothing on the right
      (strJoinRope (full.call 0) curtop curright).bind fun newtop =>
        (strNConcatTake (full.call 2) newtop arg).bind fun next =>
          strNConcatRope (full.call 1) args next.1 next.2

/-- The arguments copied one after the other. -/
def strCopyAll : List CxStr → Option (List UInt8)
  | [] => some []
  | s :: rest =>
    (strFastCopy s 0 (strFastLen s)).bind fun first =>
      (strCopyAll rest).map fun second => first ++ second

/-- No argument is the handle's own string. -/
def strNConcat (full : Saturated) (o : StrDest) (args : List CxStr) : Option StrWrite :=
  let valid := args.filter fun arg => strCheckValid arg
  let len := (valid.map strFastLen).sum
  match valid with
  | first :: rest =>
    if rest = [] ∨ len < ropeJoinThresh ∨ o.onStack then
      (strCopyAll valid).map fun bytes =>
        o.write (o.reuses len) (.flat (valid.foldr (fun s => (strEnc s).both) .mask) bytes)
    else
      (strDup (full.call 0).here first).bind fun curtop =>
        (strNConcatRope (full.call 1) rest curtop .null).map (o.write false)
  | [] => some (o.write (o.reuses 0) (.flat .mask []))

/-- The source is not the handle's own string. -/
def strSubStr (full : Saturated) (o : StrDest) (s : CxStr) (b e : Int) : Option StrWrite :=
  if s = .null then some ⟨.null, o.held⟩
  else
    let off := strResolveOff (strFastLen s) b
    let len := strResolveOff (strFastLen s) e - off
    if ropeSubstrThresh ≤ len then (strCreateRope1 full s off len).map (o.write false)
    else
      (strFastCopy s off len).map fun bytes => o.write (o.reuses len) (.flat (strEnc s) bytes)

def strInsert (full : Saturated) (o : StrDest) (s : CxStr) (off : Int) (ins : CxStr) :
    Option StrWrite :=
  if !strCheckValid ins then strDupInto o full.here s
  else
    let cut := strResolveOff (strLen s) off
    (strSubStr (full.call 0) .empty s 0 cut).bind fun left =>
      (strSubStr (full.call 1) .empty s cut strEnd).bind fun right =>
        strNConcat (full.call 2) o [left.out, ins, right.out]

def strErase (full : Saturated) (o : StrDest) (s : CxStr) (b e : Int) : Option StrWrite :=
  let start := strResolveOff (strLen s) b
  let stop := max start (strResolveOff (strLen s) e)
  if start = stop then strDupInto o full.here s
  else
    (strSubStr (full.call 0) .empty s 0 start).bind fun left =>
      (strSubStr (full.call 1) .empty s stop strEnd).bind fun right =>
        strConcat (full.call 2) o left.out right.out

end Cx.Str
