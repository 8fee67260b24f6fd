import Cx.Library.Window

/-!
# Strings and ropes

A string is a flat run of bytes or a rope node, which refers to a window of one or two other
strings. Ropes are joined, merged and rotated by `strCreateRope`.  The operations work on windows;
what they mean is said by `CxStr.text`, the bytes in order.

Strings are values here: an operation that writes in place has made its buffer unique first.  A read
through a NULL string is `none`.
-/

namespace Cx.Str

open Cx.Library

/-- The cached encoding bits of a header, `STR_UTF8` and `STR_ASCII`. -/
structure StrEnc where
  utf8 : Bool
  ascii : Bool
  deriving DecidableEq, Repr

/-- `STR_ENCODING_MASK`: an empty string carries both bits. -/
def StrEnc.mask : StrEnc := ⟨true, true⟩

def StrEnc.clear : StrEnc := ⟨false, false⟩

def StrEnc.both (a b : StrEnc) : StrEnc := ⟨a.utf8 && b.utf8, a.ascii && b.ascii⟩

/-- What a `string` variable refers to: NULL, a C string without a header, a flat string with one,
or a rope node.  A node with only a left part has NULL on its right. -/
inductive CxStr where
  | null
  | plain (bytes : List UInt8)
  | flat (enc : StrEnc) (bytes : List UInt8)
  | rope (enc : StrEnc) (left : CxStr) (loff llen : Nat) (right : CxStr) (roff rlen : Nat)
      (depth : Nat)
  deriving DecidableEq, Repr

structure StrRef where
  str : CxStr
  off : Nat
  len : Nat
  deriving DecidableEq, Repr

def ropeMinSize : Nat := 64
def ropeJoinThresh : Nat := 128
def ropeSubstrThresh : Nat := 96
def ropeMaxMerge : Nat := 256
def maxRebalanceIter : Nat := 3

def strEnc : CxStr → StrEnc
  | .null => .clear
  | .plain _ => .clear
  | .flat enc _ => enc
  | .rope enc _ _ _ _ _ _ _ => enc

/-- `STR_CHECK_VALID`: NULL and a C string whose first byte is the terminator are no strings. -/
def strCheckValid : CxStr → Bool
  | .null => false
  | .plain bytes => !bytes.isEmpty
  | _ => true

def strFastLen : CxStr → Nat
  | .null => 0
  | .plain bytes => bytes.length
  | .flat _ bytes => bytes.length
  | .rope _ _ _ llen _ _ rlen _ => llen + rlen

@[simp] theorem strFastLen_rope (enc : StrEnc) (left : CxStr) (loff llen : Nat) (right : CxStr)
    (roff rlen depth : Nat) :
    strFastLen (.rope enc left loff llen right roff rlen depth) = llen + rlen := rfl

def strRopeDepth : CxStr → Nat
  | .rope _ _ _ _ _ _ _ depth => depth
  | _ => 0

/-- `_strFastCopy` and `_strRopeFastCopy`: `n` bytes from `off` on. -/
def strFastCopy : CxStr → Nat → Nat → Option (List UInt8)
  | .null, _, _ => none
  | .plain bytes, off, n => some (window bytes off n)
  | .flat _ bytes, off, n => some (window bytes off n)
  | .rope _ left loff llen right roff _ _, off, n =>
    (if off < llen then strFastCopy left (off + loff) (min n (llen - off)) else some []).bind
      fun leftcopy =>
        if n = leftcopy.length then some leftcopy
        else
          (strFastCopy right (off + roff + leftcopy.length - llen) (n - leftcopy.length)).map
            (leftcopy ++ ·)

def strCopy (s : CxStr) : Option CxStr :=
  (strFastCopy s 0 (strFastLen s)).map (.flat (strEnc s))

/-- `strDup` into an empty handle.  A C string is copied, and so is a string whose reference count
is at its limit (`full`); any other string is shared. -/
def strDup (full : Bool) (s : CxStr) : Option CxStr :=
  if strCheckValid s then
    match s with
    | .plain _ => strCopy s
    | _ => if full then strCopy s else some s
  else some .null

/-- Which calls of `strDup` find a reference count at its limit, by the path of calls that leads to
each. -/
def Saturated : Type := List Nat → Bool

namespace Saturated

def here (full : Saturated) : Bool := full []

def call (full : Saturated) (k : Nat) : Saturated := fun path => full (k :: path)

/-- No reference count is near its limit. -/
def never : Saturated := fun _ => false

end Saturated

/-- A window of a string, taken from as far down as one of its parts holds all of it. -/
def strMkOptimalRoperef (full : Bool) : CxStr → Nat → Nat → Option StrRef
  | .null, _, _ => none
  | .rope enc left loff llen right roff rlen depth, off, len =>
    if off + len ≤ llen then
      strMkOptimalRoperef full left (loff + off) len
    else if right ≠ .null ∧ llen ≤ off ∧ off - llen + len ≤ rlen then
      strMkOptimalRoperef full right (roff + off - llen) len
    else
      (strDup full (.rope enc left loff llen right roff rlen depth)).map (⟨·, off, len⟩)
  | s, off, len => (strDup full s).map (⟨·, off, len⟩)

/-- How far an argument of `_strCreateRope` reaches: the length 0 stands for everything. -/
def strArgLen (arg : StrRef) : Nat :=
  if arg.len = 0 then strFastLen arg.str - arg.off
  else min arg.len (strFastLen arg.str - arg.off)

/-- `_strCreateRope` without balancing. -/
def strCreateNode (full : Saturated) (left right : StrRef) : Option CxStr :=
  if left.str = .null then none
  else if right.str = .null then do
    let l ← strMkOptimalRoperef (full.call 0).here left.str left.off (strArgLen left)
    some (.rope (strEnc left.str) l.str l.off l.len .null 0 0 (strRopeDepth l.str + 1))
  else if strArgLen left + strArgLen right < ropeMinSize * 2 then do
    let l ← strFastCopy left.str left.off (strArgLen left)
    let r ← strFastCopy right.str right.off (strArgLen right)
    some (.flat ((strEnc left.str).both (strEnc right.str)) (l ++ r))
  else do
    let l ← strMkOptimalRoperef (full.call 0).here left.str left.off (strArgLen left)
    let r ← strMkOptimalRoperef (full.call 1).here right.str right.off (strArgLen right)
    some (.rope ((strEnc left.str).both (strEnc right.str)) l.str l.off l.len r.str r.off r.len
      (max (strRopeDepth l.str + 1) (strRopeDepth r.str + 1)))

section Balance

-- `_strCreateRope` with balancing, which rotations call on smaller parts.
variable (create : Saturated → StrRef → StrRef → Option CxStr)

def strRotateLeft (full : Saturated) : CxStr → Option CxStr
  | .rope enc left loff llen right roff rlen depth =>
    match right with
    | .null => none
    | .rope _ cleft cloff cllen cright croff crlen _ =>
      let upper : StrRef := ⟨left, loff, llen⟩
      let lower : StrRef := ⟨cleft, cloff + roff, min (cllen - roff) rlen⟩
      if cright = .null then strCreateNode (full.call 0) upper lower
      else do
        let newleft ← create (full.call 0) upper lower
        strCreateNode (full.call 1) ⟨newleft, 0, 0⟩
          ⟨cright, croff, min (rlen + roff - cllen) crlen⟩
    | _ => some (.rope enc left loff llen right roff rlen depth)
  | _ => none

def strRotateRight (full : Saturated) : CxStr → Option CxStr
  | .rope enc left loff llen right roff rlen depth =>
    match left with
    | .null => none
    | .rope _ cleft cloff cllen cright croff crlen _ =>
      let upper : StrRef := ⟨right, roff, rlen⟩
      let lower : StrRef := ⟨cleft, cloff + loff, min (cllen - loff) llen⟩
      if cright = .null then strCreateNode (full.call 0) lower upper
      else do
        let newright ←
          create (full.call 0) ⟨cright, croff, min (llen + loff - cllen) crlen⟩ upper
        strCreateNode (full.call 1) lower ⟨newright, 0, 0⟩
    | _ => some (.rope enc left loff llen right roff rlen depth)
  | _ => none

/-- The loop of `_strRebalanceRope`.  It reads the node's own data, which a flat string does not
have. -/
def strRebalanceRope : Nat → Saturated → Int → CxStr → Option CxStr
  | 0, _, _, top => some top
  | iter + 1, full, lastbal, .rope enc left loff llen right roff rlen depth =>
    let top : CxStr := .rope enc left loff llen right roff rlen depth
    let bal : Int := (strRopeDepth right : Int) - strRopeDepth left
    if bal = lastbal ∨ bal = -lastbal then some top
    else if bal < -1 then do
      let newtop ← strRotateRight create (full.call 0) top
      strRebalanceRope iter (full.call 1) bal newtop
    else if 1 < bal then do
      let newtop ← strRotateLeft create (full.call 0) top
      strRebalanceRope iter (full.call 1) bal newtop
    else some top
  | _ + 1, _, _, _ => none

end Balance

/-- `_strCreateRope` with balancing.  Rotations recurse on fewer bytes, so the bytes in all are
enough fuel. -/
def strCreateRope : Nat → Saturated → StrRef → StrRef → Option CxStr
  | 0, _, _, _ => none
  | fuel + 1, full, left, right => do
      let node ← strCreateNode (full.call 0) left right
      match node with
      | .rope .. =>
        strRebalanceRope (strCreateRope fuel) maxRebalanceIter (full.call 1) 0 node
      | _ => some node

/-- A node over a window of one string, which keeps the string's encoding bits. -/
def strCreateRope1 (full : Saturated) (s : CxStr) (off len : Nat) : Option CxStr :=
  match s with
  | .rope enc left loff llen right roff _ _ =>
    if off + len ≤ llen ∨ llen ≤ off ∨ right = .null then do
      let l ← strMkOptimalRoperef (full.call 0).here s off len
      some (.rope enc l.str l.off l.len .null 0 0 (strRopeDepth l.str + 1))
    else do
      let l ← strMkOptimalRoperef (full.call 0).here left (loff + off) (llen - off)
      let r ← strMkOptimalRoperef (full.call 1).here right roff (off + len - llen)
      some (.rope enc l.str l.off l.len r.str r.off r.len
        (max (strRopeDepth l.str + 1) (strRopeDepth r.str + 1)))
  | _ => strCreateNode full ⟨s, off, len⟩ ⟨.null, 0, 0⟩

end Cx.Str
