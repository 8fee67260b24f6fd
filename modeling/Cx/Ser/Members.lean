import Mathlib.Data.List.Nodup
import Cx.Library.Memory

/-!
# Members of a serialized object

The writer leaves out a member that holds its default, which for a class is all zero bytes; the
reader runs the class's init and then stores the members that the document has.  A document is the
map of the object's members; the type tag and the references around it are left out, and a scalar
stands in it as its bytes.
-/

namespace Cx.Ser

open Library.Memory List

/-- The bytes of an instance, or of a struct's defaults. -/
abbrev Instance := Nat → UInt8

structure StructMemberDesc where
  name : String
  offset : Nat
  /-- The size of the member's type. -/
  size : Nat
  arrsize : Nat
  noSerialize : Bool
deriving DecidableEq

def StructMemberDesc.span (mem : StructMemberDesc) : Nat :=
  mem.size * if mem.arrsize = 0 then 1 else mem.arrsize

/-- What one class of the chain declares. -/
structure ObjClassLevel where
  sermembers : List StructMemberDesc
  init : Instance → Instance × Bool

def serializable (levels : List ObjClassLevel) : List StructMemberDesc :=
  (levels.flatMap (·.sermembers)).filter (!·.noSerialize)

/-- A class, its own level first and then its parents; no two members of the flattened instance
have one name. -/
structure ObjClassInfo where
  levels : List ObjClassLevel
  distinct : ((serializable levels).map (·.name)).Nodup

inductive SerNode
  | scalar (bytes : List UInt8)
  | arr (elements : List (List UInt8))

structure SerMap where
  count : Nat
  entries : List (String × SerNode)

def memberIsDefault (defaults : Option Instance) (mem : StructMemberDesc) (s : Instance) : Bool :=
  match defaults with
  | some defaults => slice s mem.offset mem.span == slice defaults mem.offset mem.span
  | none => (slice s mem.offset mem.span).all (· == 0)

section

variable (emitDefaults : Bool)

def memberSkipped (defaults : Option Instance) (mem : StructMemberDesc) (s : Instance) : Bool :=
  mem.noSerialize || !emitDefaults && memberIsDefault defaults mem s

def countMembers (members : List StructMemberDesc)
    (defaults : Option Instance) (s : Instance) : Nat :=
  members.countP fun mem => !memberSkipped emitDefaults defaults mem s

def memberNode (mem : StructMemberDesc) (s : Instance) : SerNode :=
  if mem.arrsize = 0 then .scalar (slice s mem.offset mem.size)
  else .arr ((List.range mem.arrsize).map fun e => slice s (mem.offset + e * mem.size) mem.size)

def writeMembers (members : List StructMemberDesc)
    (defaults : Option Instance) (s : Instance) : List (String × SerNode) :=
  (members.filter fun mem => !memberSkipped emitDefaults defaults mem s).map
    fun mem => (mem.name, memberNode mem s)

def countClassMembers (inst : Instance) : List ObjClassLevel → Nat
  | [] => 0
  | cls :: parents => countClassMembers inst parents +
    countMembers emitDefaults cls.sermembers none inst

def writeClassMembers (inst : Instance) : List ObjClassLevel → List (String × SerNode)
  | [] => []
  | cls :: parents => writeClassMembers inst parents ++
    writeMembers emitDefaults cls.sermembers none inst

def writeObject (cls : ObjClassInfo) (inst : Instance) : SerMap :=
  ⟨countClassMembers emitDefaults inst cls.levels, writeClassMembers emitDefaults inst cls.levels⟩

end

def findMember (members : List StructMemberDesc) (key : String) : Option StructMemberDesc :=
  members.find? fun mem => !mem.noSerialize && mem.name == key

def findClassMember (levels : List ObjClassLevel) (key : String) : Option StructMemberDesc :=
  levels.findSome? fun cls => findMember cls.sermembers key

/-- Elements from the `e`-th on; a long array is an error, and a short one leaves the rest. -/
def readElements (mem : StructMemberDesc) : Nat → List (List UInt8) → Instance → Option Instance
  | _, [], s => some s
  | e, bytes :: rest, s =>
    if e < mem.arrsize ∧ bytes.length = mem.size then
      readElements mem (e + 1) rest (write s (mem.offset + e * mem.size) bytes)
    else none

def readMemberValue (mem : StructMemberDesc) (node : SerNode) (s : Instance) : Option Instance :=
  match node with
  | .scalar bytes =>
    if mem.arrsize = 0 ∧ bytes.length = mem.size then some (write s mem.offset bytes) else none
  | .arr elements => if mem.arrsize = 0 then none else readElements mem 0 elements s

def readMembers (strict : Bool) (levels : List ObjClassLevel) :
    List (String × SerNode) → Instance → Option Instance
  | [], s => some s
  | (key, node) :: rest, s =>
    match findClassMember levels key with
    | none => if strict then none else readMembers strict levels rest s
    | some mem => (readMemberValue mem node s).bind (readMembers strict levels rest)

def objInstInit (inst : Instance) : List ObjClassLevel → Instance × Bool
  | [] => (inst, true)
  | cls :: parents =>
    let base := objInstInit inst parents
    let own := cls.init base.1
    (own.1, base.2 && own.2)

def readObject (strict : Bool) (cls : ObjClassInfo) (doc : SerMap) : Option Instance :=
  let inst := objInstInit (fun _ => 0) cls.levels
  if inst.2 = true ∧ doc.count = doc.entries.length then
    readMembers strict cls.levels doc.entries inst.1
  else none

section RoundTrip

variable {x s : Instance} {mem : StructMemberDesc} {levels : List ObjClassLevel}

/-- Bytes of one instance put in place in another. -/
def overlay (x s : Instance) (start count : Nat) : Instance :=
  fun index => if start ≤ index ∧ index < start + count then x index else s index

theorem write_slice (x s : Instance) (start count : Nat) :
    write s start (slice x start count) = overlay x s start count := by
  funext index
  simp only [write, overlay]
  by_cases after : start ≤ index
  · by_cases before : index < start + count
    · rw [if_pos after, if_pos ⟨after, before⟩, getD_eq_getElem?_getD,
        getElem?_slice (by omega), Option.getD_some, Nat.add_sub_cancel' after]
    · rw [if_pos after, if_neg (by omega), getD_eq_getElem?_getD,
        List.getElem?_eq_none (by rw [length_slice]; omega), Option.getD_none]
  · rw [if_neg after, if_neg (by omega)]

theorem overlay_overlay (x s : Instance) (start first second : Nat) :
    overlay x (overlay x s start first) (start + first) second =
      overlay x s start (first + second) := by
  funext index
  grind [overlay]

theorem readElements_slices (count e : Nat) (count_eq : e + count = mem.arrsize) :
    readElements mem e ((List.range' e count).map fun e => slice x (mem.offset + e * mem.size)
        mem.size) s =
      some (overlay x s (mem.offset + e * mem.size) (count * mem.size)) := by
  induction count generalizing e s with
  | zero =>
    simp only [List.range'_zero, map_nil, readElements, Nat.zero_mul, Option.some.injEq]
    exact (funext fun index => if_neg (by omega)).symm
  | succ count ih =>
    rw [List.range'_succ, map_cons, readElements, if_pos ⟨by omega, length_slice ..⟩,
      write_slice, ih (e + 1) (by omega), Nat.add_mul, Nat.one_mul, ← Nat.add_assoc,
      overlay_overlay]
    congr 2
    ring

theorem readMemberValue_memberNode :
    readMemberValue mem (memberNode mem x) s = some (overlay x s mem.offset mem.span) := by
  unfold memberNode StructMemberDesc.span
  split_ifs with single
  · simp [readMemberValue, single, write_slice]
  · have whole : readElements mem 0 _ s = some (overlay x s _ _) :=
      readElements_slices mem.arrsize 0 (by omega)
    rw [← range_eq_range'] at whole
    simpa [readMemberValue, single, Nat.mul_comm] using whole

theorem findClassMember_eq (distinct : ((serializable levels).map (·.name)).Nodup)
    (mem_in : mem ∈ serializable levels) : findClassMember levels mem.name = some mem := by
  have found_eq : findClassMember levels mem.name = (levels.flatMap (·.sermembers)).find?
      fun other => !other.noSerialize && other.name == mem.name := by
    rw [List.find?_flatMap]
    rfl
  obtain ⟨member, kept⟩ := mem_filter.mp mem_in
  cases found : findClassMember levels mem.name with
  | none =>
    rw [found_eq, List.find?_eq_none] at found
    simpa [kept] using found mem member
  | some other =>
    rw [found_eq] at found
    have same := List.find?_some found
    rw [Bool.and_eq_true, beq_iff_eq] at same
    have other_in : other ∈ serializable levels :=
      mem_filter.mpr ⟨mem_of_find?_eq_some found, same.1⟩
    exact congrArg some (inj_on_of_nodup_map distinct other_in mem_in same.2)

/-- The members of the document, base first. -/
def written (emitDefaults : Bool) (x : Instance) : List ObjClassLevel → List StructMemberDesc
  | [] => []
  | cls :: parents => written emitDefaults x parents ++
    cls.sermembers.filter fun mem => !memberSkipped emitDefaults none mem x

variable (emitDefaults : Bool)

theorem writeClassMembers_eq : writeClassMembers emitDefaults x levels =
    (written emitDefaults x levels).map fun mem => (mem.name, memberNode mem x) := by
  induction levels with
  | nil => rfl
  | cons cls parents ih => simp [writeClassMembers, written, writeMembers, ih]

theorem countClassMembers_eq :
    countClassMembers emitDefaults x levels = (written emitDefaults x levels).length := by
  induction levels with
  | nil => rfl
  | cons cls parents ih =>
    simp [countClassMembers, written, countMembers, countP_eq_length_filter, ih]

theorem mem_written {emitDefaults : Bool} : mem ∈ written emitDefaults x levels ↔
    mem ∈ levels.flatMap (·.sermembers) ∧ memberSkipped emitDefaults none mem x = false := by
  induction levels with
  | nil => simp [written]
  | cons cls parents ih =>
    rw [written, mem_append, ih, mem_filter, Bool.not_eq_true', flatMap_cons,
      mem_append, ← or_and_right, or_comm]

/-- Every byte a member of the document covers is the original's, whatever else is stored. -/
theorem readMembers_written (strict : Bool) (members : List StructMemberDesc)
    (found : ∀ mem ∈ members, findClassMember levels mem.name = some mem) :
    ∃ y, readMembers strict levels (members.map fun mem => (mem.name, memberNode mem x)) s =
      some y ∧
      ∀ index, y index = x index ∨ y index = s index ∧
        ∀ mem ∈ members, ¬ (mem.offset ≤ index ∧ index < mem.offset + mem.span) := by
  induction members generalizing s with
  | nil => exact ⟨s, rfl, fun index => .inr ⟨rfl, by simp⟩⟩
  | cons mem members ih =>
    obtain ⟨y, read_eq, bytes⟩ := ih (s := overlay x s mem.offset mem.span)
      fun other other_in => found other (mem_cons_of_mem _ other_in)
    refine ⟨y, ?_, fun index => ?_⟩
    · simp [readMembers, found mem mem_cons_self, readMemberValue_memberNode, read_eq]
    · have byte := bytes index
      grind [overlay]

theorem byte_eq_zero (default : memberIsDefault none mem s = true) {index : Nat}
    (index_lt : index ∈ List.range mem.span) : s (mem.offset + index) = 0 :=
  eq_of_beq (all_eq_true.mp default _ (mem_map.mpr ⟨index, index_lt, rfl⟩))

end RoundTrip

/-- A parent's counter and a derived class's array; the instance has a zero in each. -/
def gauge (init : Instance → Instance × Bool) : ObjClassInfo where
  levels :=
    [⟨[⟨"samples", 4, 2, 2, false⟩], init⟩, ⟨[⟨"count", 0, 4, 0, false⟩], fun s => (s, true)⟩]
  distinct := by simp [serializable]

end Cx.Ser
