import Cx.Quic.FrameCodec
import Cx.Quic.Stream

/-!
# Transport parameters

Each endpoint sends a list of parameters inside its handshake.  A parameter that has its default
value is left out, so that a set which was not customised encodes to almost nothing; what the other
side reads is nevertheless the whole set.
-/

namespace Cx.Quic

open List

/-- The parameters whose value is one variable-length integer, in the order they are written. -/
inductive QuicTpInt where
  /-- Milliseconds without traffic after which the connection ends. -/
  | maxIdleTimeout
  | maxUdpPayload
  | initMaxData
  /-- Initial limit of bidirectional streams that the sender of the parameters opens. -/
  | initMaxSdBidiLocal
  /-- Initial limit of bidirectional streams that the other side opens. -/
  | initMaxSdBidiRemote
  | initMaxSdUni
  | initMaxStreamsBidi
  | initMaxStreamsUni
  | ackDelayExponent
  /-- Longest time in milliseconds by which an acknowledgement is delayed. -/
  | maxAckDelay
  | activeCidLimit
  | maxDatagramFrame
deriving DecidableEq, Repr

def QuicTpInt.all : List QuicTpInt :=
  [.maxIdleTimeout, .maxUdpPayload, .initMaxData, .initMaxSdBidiLocal, .initMaxSdBidiRemote,
    .initMaxSdUni, .initMaxStreamsBidi, .initMaxStreamsUni, .ackDelayExponent, .maxAckDelay,
    .activeCidLimit, .maxDatagramFrame]

inductive QuicTp where
  | origDcid
  | initScid
  | retryScid
  | statelessReset
  | disableMigration
  | preferredAddress
  | int (param : QuicTpInt)
deriving DecidableEq, Repr

/-- The number a parameter has on the wire. -/
def QuicTp.id : QuicTp → Nat
  | .origDcid => 0x00
  | .int .maxIdleTimeout => 0x01
  | .statelessReset => 0x02
  | .int .maxUdpPayload => 0x03
  | .int .initMaxData => 0x04
  | .int .initMaxSdBidiLocal => 0x05
  | .int .initMaxSdBidiRemote => 0x06
  | .int .initMaxSdUni => 0x07
  | .int .initMaxStreamsBidi => 0x08
  | .int .initMaxStreamsUni => 0x09
  | .int .ackDelayExponent => 0x0a
  | .int .maxAckDelay => 0x0b
  | .disableMigration => 0x0c
  | .preferredAddress => 0x0d
  | .int .activeCidLimit => 0x0e
  | .initScid => 0x0f
  | .retryScid => 0x10
  | .int .maxDatagramFrame => 0x20

/-- The parameter with a number, where the decoder has a case for it; `none` for one of a later
version, which is skipped. -/
def QuicTp.ofId : Nat → Option QuicTp
  | 0x00 => some .origDcid
  | 0x01 => some (.int .maxIdleTimeout)
  | 0x02 => some .statelessReset
  | 0x03 => some (.int .maxUdpPayload)
  | 0x04 => some (.int .initMaxData)
  | 0x05 => some (.int .initMaxSdBidiLocal)
  | 0x06 => some (.int .initMaxSdBidiRemote)
  | 0x07 => some (.int .initMaxSdUni)
  | 0x08 => some (.int .initMaxStreamsBidi)
  | 0x09 => some (.int .initMaxStreamsUni)
  | 0x0a => some (.int .ackDelayExponent)
  | 0x0b => some (.int .maxAckDelay)
  | 0x0c => some .disableMigration
  | 0x0d => some .preferredAddress
  | 0x0e => some (.int .activeCidLimit)
  | 0x0f => some .initScid
  | 0x10 => some .retryScid
  | 0x20 => some (.int .maxDatagramFrame)
  | _ => none

/-- A whole set of transport parameters; those that the streams depend on come first.  A value that
was not given is `none`. -/
structure QuicConnParams extends QuicTransportParams where
  origDcid : Option (List UInt8)
  initScid : Option (List UInt8)
  retryScid : Option (List UInt8)
  resetToken : Option (List UInt8)
  /-- Milliseconds without traffic after which the connection ends. -/
  maxIdleTimeout : Nat
  maxUdpPayload : Nat
  ackDelayExponent : Nat
  /-- Longest time in milliseconds by which an acknowledgement is delayed. -/
  maxAckDelay : Nat
  activeCidLimit : Nat
  maxDatagramFrame : Nat
  disableMigration : Bool
deriving DecidableEq, Repr

def QUIC_TP_DEF_MAX_UDP_PAYLOAD : Nat := 65527
def QUIC_TP_DEF_ACK_DELAY_EXP : Nat := 3
def QUIC_TP_DEF_MAX_ACK_DELAY : Nat := 25
def QUIC_TP_DEF_ACTIVE_CID : Nat := 2
def QUIC_TP_MIN_UDP_PAYLOAD : Nat := 1200
def QUIC_TP_MAX_ACK_DELAY_EXP : Nat := 20
def QUIC_TP_MAX_ACK_DELAY_MS : Nat := 16384
def QUIC_TP_MAX_STREAMS : Nat := 2 ^ 60

def quicTpDefaults : QuicConnParams where
  initMaxData := 0
  initMaxSdBidiLocal := 0
  initMaxSdBidiRemote := 0
  initMaxSdUni := 0
  initMaxStreamsBidi := 0
  initMaxStreamsUni := 0
  origDcid := none
  initScid := none
  retryScid := none
  resetToken := none
  maxIdleTimeout := 0
  maxUdpPayload := QUIC_TP_DEF_MAX_UDP_PAYLOAD
  ackDelayExponent := QUIC_TP_DEF_ACK_DELAY_EXP
  maxAckDelay := QUIC_TP_DEF_MAX_ACK_DELAY
  activeCidLimit := QUIC_TP_DEF_ACTIVE_CID
  maxDatagramFrame := 0
  disableMigration := false

def QuicTpInt.get (tp : QuicConnParams) : QuicTpInt → Nat
  | .maxIdleTimeout => tp.maxIdleTimeout
  | .maxUdpPayload => tp.maxUdpPayload
  | .initMaxData => tp.initMaxData
  | .initMaxSdBidiLocal => tp.initMaxSdBidiLocal
  | .initMaxSdBidiRemote => tp.initMaxSdBidiRemote
  | .initMaxSdUni => tp.initMaxSdUni
  | .initMaxStreamsBidi => tp.initMaxStreamsBidi
  | .initMaxStreamsUni => tp.initMaxStreamsUni
  | .ackDelayExponent => tp.ackDelayExponent
  | .maxAckDelay => tp.maxAckDelay
  | .activeCidLimit => tp.activeCidLimit
  | .maxDatagramFrame => tp.maxDatagramFrame

/-- The value for which an integer parameter is left out. -/
def QuicTpInt.omitted : QuicTpInt → Nat
  | .maxIdleTimeout => 0
  | .maxUdpPayload => QUIC_TP_DEF_MAX_UDP_PAYLOAD
  | .initMaxData => 0
  | .initMaxSdBidiLocal => 0
  | .initMaxSdBidiRemote => 0
  | .initMaxSdUni => 0
  | .initMaxStreamsBidi => 0
  | .initMaxStreamsUni => 0
  | .ackDelayExponent => QUIC_TP_DEF_ACK_DELAY_EXP
  | .maxAckDelay => QUIC_TP_DEF_MAX_ACK_DELAY
  | .activeCidLimit => QUIC_TP_DEF_ACTIVE_CID
  | .maxDatagramFrame => 0

/-- Whether a value is in the range of an integer parameter. -/
def QuicTpInt.allowed (v : Nat) : QuicTpInt → Bool
  | .maxUdpPayload => !(v < QUIC_TP_MIN_UDP_PAYLOAD)
  | .initMaxStreamsBidi | .initMaxStreamsUni => !(v > QUIC_TP_MAX_STREAMS)
  | .ackDelayExponent => !(v > QUIC_TP_MAX_ACK_DELAY_EXP)
  | .maxAckDelay => !(v ≥ QUIC_TP_MAX_ACK_DELAY_MS)
  | .activeCidLimit => !(v < QUIC_TP_DEF_ACTIVE_CID)
  | .maxIdleTimeout | .initMaxData | .initMaxSdBidiLocal | .initMaxSdBidiRemote | .initMaxSdUni
  | .maxDatagramFrame => true

def QuicTpInt.put (tp : QuicConnParams) (v : Nat) : QuicTpInt → QuicConnParams
  | .maxIdleTimeout => { tp with maxIdleTimeout := v }
  | .maxUdpPayload => { tp with maxUdpPayload := v }
  | .initMaxData => { tp with initMaxData := v }
  | .initMaxSdBidiLocal => { tp with initMaxSdBidiLocal := v }
  | .initMaxSdBidiRemote => { tp with initMaxSdBidiRemote := v }
  | .initMaxSdUni => { tp with initMaxSdUni := v }
  | .initMaxStreamsBidi => { tp with initMaxStreamsBidi := v }
  | .initMaxStreamsUni => { tp with initMaxStreamsUni := v }
  | .ackDelayExponent => { tp with ackDelayExponent := v }
  | .maxAckDelay => { tp with maxAckDelay := v }
  | .activeCidLimit => { tp with activeCidLimit := v }
  | .maxDatagramFrame => { tp with maxDatagramFrame := v }

/-- Write an integer parameter. -/
def tpInt (wr : QuicWr) (id val : Nat) : QuicWr :=
  quicWrVarint (quicWrVarint (quicWrVarint wr id) (quicVarintSize val)) val

/-- Write a parameter whose value is a connection ID. -/
def tpCid (wr : QuicWr) (id : Nat) (cid : List UInt8) : QuicWr :=
  quicWrVarintBytes (quicWrVarint wr id) cid

/-- Write a parameter whose value is a byte string, if it was given. -/
def tpGiven (wr : QuicWr) (id : Nat) : Option (List UInt8) → QuicWr
  | none => wr
  | some value => tpCid wr id value

/-- Write a set of parameters; the flag says whether it fitted.  Only a server writes the three
that depend on the client's first packets. -/
def quicTpEncode (wr : QuicWr) (tp : QuicConnParams) (server : Bool) : Bool × QuicWr :=
  let wr := tpGiven wr QuicTp.initScid.id tp.initScid
  let wr := if server then
      let wr := tpGiven wr QuicTp.origDcid.id tp.origDcid
      let wr := tpGiven wr QuicTp.retryScid.id tp.retryScid
      tpGiven wr QuicTp.statelessReset.id tp.resetToken
    else wr
  let wr := QuicTpInt.all.foldl (fun wr param =>
    if param.get tp ≠ param.omitted then tpInt wr (QuicTp.int param).id (param.get tp) else wr) wr
  let wr := if tp.disableMigration then
      quicWrVarint (quicWrVarint wr QuicTp.disableMigration.id) 0
    else wr
  (!wr.bad, wr)

def tpRdInt (val : List UInt8) : Option Nat :=
  let (v, rd) := quicRdVarint (quicRdInit val)
  if !rd.bad && quicRdLeft rd = 0 then some v else none

def tpRdCid (val : List UInt8) : Option (List UInt8) :=
  if val.length > QUIC_MAX_CID then none else some val

/-- Where the length of the connection ID stands in a preferred address. -/
def tpPreferredCid : Nat := 4 + 2 + 16 + 2

def tpStore (tp : QuicConnParams) (param : QuicTp) (val : List UInt8) : Option QuicConnParams :=
  match param with
  | .origDcid => (tpRdCid val).map fun cid => { tp with origDcid := some cid }
  | .initScid => (tpRdCid val).map fun cid => { tp with initScid := some cid }
  | .retryScid => (tpRdCid val).map fun cid => { tp with retryScid := some cid }
  | .statelessReset =>
    if val.length ≠ QUIC_RESET_TOKEN_LEN then none else some { tp with resetToken := some val }
  | .disableMigration =>
    if val.length ≠ 0 then none else some { tp with disableMigration := true }
  | .preferredAddress =>
    let cidLen := (val.getD tpPreferredCid 0).toNat
    if val.length < tpPreferredCid + 1 then none
    else if val.length ≠ tpPreferredCid + 1 + cidLen + QUIC_RESET_TOKEN_LEN then none
    else if cidLen > QUIC_MAX_CID then none
    else some tp
  | .int param =>
    match tpRdInt val with
    | none => none
    | some v => if param.allowed v then some (param.put tp v) else none

/-- The parameters a client must not send. -/
def tpServerOnly : QuicTp → Bool
  | .origDcid | .retryScid | .statelessReset | .preferredAddress => true
  | .initScid | .disableMigration | .int _ => false

theorem quicRdVarintBytes_spec {rd after : QuicRd} {val : List UInt8}
    (read : quicRdVarintBytes rd = (some val, after)) :
    rd.bad = false ∧ quicRdVarint rd = (val.length, ⟨val ++ after.data, false⟩) := by
  have sticky := @quicRdVarint_bad rd
  rw [quicRdVarintBytes] at read
  generalize quicRdVarint rd = length_read at read sticky
  obtain ⟨length, data, bad⟩ := length_read
  cases bad with
  | true => cases read
  | false =>
    simp only [quicRdLeft, quicRdBytes, Bool.false_eq_true, false_or, if_false] at read
    split_ifs at read with long
    · cases read
    · cases read
      refine ⟨by simpa using sticky, ?_⟩
      rw [take_append_drop, length_take, Nat.min_eq_left (not_lt.1 long)]

/-- Read parameters until there are none left, with the numbers that were seen as a bit mask. -/
def tpDecodeLoop (fromServer : Bool) (tp : QuicConnParams) (seen : Nat) (rd : QuicRd) :
    Option (QuicConnParams × QuicRd) :=
  if quicRdLeft rd = 0 then some (tp, rd)
  else
    match _read : quicRdVarintBytes (quicRdVarint rd).2 with
    | (none, _) => none
    | (some val, after) =>
      match QuicTp.ofId (quicRdVarint rd).1 with
      | none => tpDecodeLoop fromServer tp seen after
      | some param =>
        if seen.testBit param.id then none
        else if !fromServer && tpServerOnly param then none
        else
          match tpStore tp param val with
          | none => none
          | some tp => tpDecodeLoop fromServer tp (seen ||| 1 <<< param.id) after
termination_by rd.data.length
decreasing_by
  all_goals
    obtain ⟨good, length_read⟩ := quicRdVarintBytes_spec _read
    have shorter := quicRdVarint_length_le (quicRdVarint rd).2
    simp only [length_read, length_append] at shorter
    rcases quicRdVarint_progress rd with bad | progress
    · rw [good] at bad
      cases bad
    · omega

/-- Read a set of parameters; `none` when it is malformed, repeats a parameter, has a value out of
range, or lacks a connection ID that has to be checked. -/
def quicTpDecode (data : List UInt8) (fromServer : Bool) : Option QuicConnParams :=
  match tpDecodeLoop fromServer quicTpDefaults 0 (quicRdInit data) with
  | none => none
  | some (tp, rd) =>
    if tp.initScid.isNone then none
    else if fromServer && tp.origDcid.isNone then none
    else if rd.bad then none
    else some tp

/-- The bytes of a parameter: its number, the length of its value, and the value. -/
def tpEntryBytes (entry : QuicTp × List UInt8) : List UInt8 :=
  varintBytes entry.1.id ++ (varintBytes entry.2.length ++ entry.2)

def tpBytes (entries : List (QuicTp × List UInt8)) : List UInt8 := entries.flatMap tpEntryBytes

def tpGivenEntry (param : QuicTp) : Option (List UInt8) → List (QuicTp × List UInt8)
  | none => []
  | some value => [(param, value)]

def tpIntEntry (tp : QuicConnParams) (param : QuicTpInt) : List (QuicTp × List UInt8) :=
  if param.get tp ≠ param.omitted then [(.int param, varintBytes (param.get tp))] else []

def tpServerEntries (tp : QuicConnParams) : List (QuicTp × List UInt8) :=
  tpGivenEntry .origDcid tp.origDcid ++
    (tpGivenEntry .retryScid tp.retryScid ++ tpGivenEntry .statelessReset tp.resetToken)

def tpEntries (tp : QuicConnParams) (server : Bool) : List (QuicTp × List UInt8) :=
  tpGivenEntry .initScid tp.initScid ++ ((if server then tpServerEntries tp else []) ++
    (QuicTpInt.all.flatMap (tpIntEntry tp) ++
      if tp.disableMigration then [(.disableMigration, [])] else []))

variable {entries : List (QuicTp × List UInt8)} {entry : QuicTp × List UInt8} {fromServer : Bool}
  {seen : Nat}

section Writing

theorem writes_given (param : QuicTp) (value : Option (List UInt8)) :
    Writes (fun wr => tpGiven wr param.id value) (tpBytes (tpGivenEntry param value)) := by
  cases value with
  | none => exact writes_id
  | some value =>
    have written :=
      ((writes_bytes value).comp (writes_varint value.length)).comp (writes_varint param.id)
    simpa [tpBytes, tpGivenEntry, tpEntryBytes, tpGiven, tpCid, quicWrVarintBytes] using written

theorem writes_int (param : QuicTpInt) (value : Nat) :
    Writes (fun wr => tpInt wr (QuicTp.int param).id value)
      (tpEntryBytes (.int param, varintBytes value)) := by
  have written := (writes_varint value).comp
    ((writes_varint (quicVarintSize value)).comp (writes_varint (QuicTp.int param).id))
  simpa [tpEntryBytes, tpInt] using written

theorem writes_ints (tp : QuicConnParams) (params : List QuicTpInt) :
    Writes (fun wr => params.foldl (fun wr param =>
        if param.get tp ≠ param.omitted then tpInt wr (QuicTp.int param).id (param.get tp) else wr)
          wr)
      (tpBytes (params.flatMap (tpIntEntry tp))) := by
  induction params with
  | nil => exact writes_id
  | cons param params ih =>
    have first : Writes (fun wr =>
        if param.get tp ≠ param.omitted then tpInt wr (QuicTp.int param).id (param.get tp) else wr)
        (tpBytes (tpIntEntry tp param)) := by
      unfold tpIntEntry
      by_cases sent : param.get tp ≠ param.omitted
      · simp only [if_pos sent]
        simpa [tpBytes] using writes_int param (param.get tp)
      · simp only [if_neg sent]
        exact writes_id
    simpa [tpBytes] using ih.comp first

/-- A set that was written consists of its entries. -/
theorem quicTpEncode_written {tp : QuicConnParams} {server : Bool} {bufsz : Nat} {wr : QuicWr}
    (encoded : quicTpEncode (quicWrInit bufsz) tp server = (true, wr)) :
    wr.out = tpBytes (tpEntries tp server) := by
  have server_part : Writes (fun wr => if server then
        tpGiven (tpGiven (tpGiven wr QuicTp.origDcid.id tp.origDcid) QuicTp.retryScid.id
          tp.retryScid)
          QuicTp.statelessReset.id tp.resetToken
      else wr) (tpBytes (if server then tpServerEntries tp else [])) := by
    cases server with
    | true =>
      have written := (writes_given .statelessReset tp.resetToken).comp
        ((writes_given .retryScid tp.retryScid).comp (writes_given .origDcid tp.origDcid))
      simpa [tpBytes, tpServerEntries] using written
    | false => exact writes_id
  have migration_part : Writes (fun wr => if tp.disableMigration then
        quicWrVarint (quicWrVarint wr QuicTp.disableMigration.id) 0
      else wr) (tpBytes (if tp.disableMigration then [(.disableMigration, [])] else [])) := by
    cases tp.disableMigration with
    | true =>
      have written := (writes_varint 0).comp (writes_varint QuicTp.disableMigration.id)
      simpa [tpBytes, tpEntryBytes] using written
    | false => exact writes_id
  have written := migration_part.comp ((writes_ints tp QuicTpInt.all).comp
    (server_part.comp (writes_given .initScid tp.initScid)))
  simp only [quicTpEncode, Prod.mk.injEq, Bool.not_eq_true'] at encoded
  obtain ⟨good, rfl⟩ := encoded
  refine (congrArg QuicWr.out (written (quicWrInit bufsz) good).2).trans ?_
  simp [quicWrInit, tpEntries, tpBytes]

end Writing

section Reading

variable (param : QuicTp) (tp : QuicConnParams)

theorem ofId_id : QuicTp.ofId param.id = some param := by
  cases param with
  | int param => cases param <;> rfl
  | _ => rfl

theorem fitsVarint_id : FitsVarint param.id := by
  cases param with
  | int param => cases param <;> decide
  | _ => decide

theorem testBit_seen (seen : Nat) {param other : QuicTp} (differs : param ≠ other) :
    (seen ||| 1 <<< param.id).testBit other.id = seen.testBit other.id := by
  have ids_differ : param.id ≠ other.id := by
    intro same
    have := congrArg QuicTp.ofId same
    rw [ofId_id, ofId_id] at this
    exact differs (Option.some.inj this)
  rw [Nat.testBit_or, Nat.one_shiftLeft, Nat.testBit_two_pow_of_ne ids_differ, Bool.or_false]

/-- One parameter is read and stored. -/
theorem tpDecodeLoop_cons {tp stored : QuicConnParams} {param : QuicTp} {val rest : List UInt8}
    (fresh : seen.testBit param.id = false)
    (permitted : fromServer = true ∨ tpServerOnly param = false) (fits : FitsVarint val.length)
    (store_eq : tpStore tp param val = some stored) :
    tpDecodeLoop fromServer tp seen ⟨tpEntryBytes (param, val) ++ rest, false⟩ =
      tpDecodeLoop fromServer stored (seen ||| 1 <<< param.id) ⟨rest, false⟩ := by
  have id_read : quicRdVarint ⟨tpEntryBytes (param, val) ++ rest, false⟩ =
      (param.id, ⟨varintBytes val.length ++ val ++ rest, false⟩) := by
    rw [tpEntryBytes, append_assoc]
    exact takes_varint (fitsVarint_id param) _
  have value_read := takes_varintBytesOf fits rest
  have some_left : quicRdLeft ⟨tpEntryBytes (param, val) ++ rest, false⟩ ≠ 0 := by
    have := (quicVarintSize_spec (fitsVarint_id param)).1
    simp only [quicRdLeft, Bool.false_eq_true, if_false, tpEntryBytes, length_append,
      length_varintBytes]
    omega
  have allowed : ¬ ((!fromServer && tpServerOnly param) = true) := by
    rcases permitted with from_server | anyone
    · simp [from_server]
    · simp [anyone]
  rw [tpDecodeLoop, if_neg some_left]
  split
  · next after read =>
      rw [id_read, value_read] at read
      cases read
  · next value after read =>
      rw [id_read, value_read] at read
      cases read
      simp only [id_read, ofId_id, fresh, Bool.false_eq_true, if_false, if_neg allowed, store_eq]

def TpStores (tp : QuicConnParams) (entries : List (QuicTp × List UInt8))
    (stored : QuicConnParams) : Prop :=
  entries.foldlM (fun tp entry => tpStore tp entry.1 entry.2) tp = some stored

theorem tpStores_nil : TpStores tp [] tp := rfl

theorem tpStores_cons {tp stored : QuicConnParams} {rest : List (QuicTp × List UInt8)} :
    TpStores tp (entry :: rest) stored ↔
      ∃ middle, tpStore tp entry.1 entry.2 = some middle ∧ TpStores middle rest stored := by
  simp [TpStores, foldlM_cons, Option.bind_eq_some_iff]

theorem TpStores.append {tp middle stored : QuicConnParams}
    {front back : List (QuicTp × List UInt8)} (first : TpStores tp front middle)
    (second : TpStores middle back stored) : TpStores tp (front ++ back) stored := by
  unfold TpStores at *
  rw [foldlM_append, first]
  exact second

/-- Parameters that differ from each other and from those seen are all read and stored. -/
theorem tpDecodeLoop_eq {tp stored : QuicConnParams} (distinct : (entries.map Prod.fst).Nodup)
    (fresh : ∀ entry ∈ entries, seen.testBit entry.1.id = false)
    (permitted : ∀ entry ∈ entries, fromServer = true ∨ tpServerOnly entry.1 = false)
    (fits : ∀ entry ∈ entries, FitsVarint entry.2.length) (stores : TpStores tp entries stored) :
    tpDecodeLoop fromServer tp seen ⟨tpBytes entries, false⟩ = some (stored, ⟨[], false⟩) := by
  induction entries generalizing tp seen with
  | nil =>
    cases stores
    rw [tpDecodeLoop]
    rfl
  | cons entry rest ih =>
    obtain ⟨param, val⟩ := entry
    obtain ⟨middle, store_eq, rest_stores⟩ := tpStores_cons.1 stores
    obtain ⟨not_again, rest_distinct⟩ := nodup_cons.1 distinct
    obtain ⟨param_fresh, rest_fresh⟩ := forall_mem_cons.1 fresh
    obtain ⟨param_permitted, rest_permitted⟩ := forall_mem_cons.1 permitted
    obtain ⟨param_fits, rest_fits⟩ := forall_mem_cons.1 fits
    have still_fresh : ∀ entry ∈ rest,
        (seen ||| 1 <<< param.id).testBit entry.1.id = false := by
      intro entry entry_mem
      have differs : param ≠ entry.1 := by
        rintro rfl
        exact not_again (mem_map.2 ⟨entry, entry_mem, rfl⟩)
      rw [testBit_seen seen differs]
      exact rest_fresh entry entry_mem
    rw [tpBytes, flatMap_cons, tpDecodeLoop_cons param_fresh param_permitted param_fits store_eq]
    exact ih rest_distinct still_fresh rest_permitted rest_fits rest_stores

theorem tpRdInt_varintBytes {v : Nat} (fits : FitsVarint v) : tpRdInt (varintBytes v) = some v := by
  have read := takes_varint fits []
  rw [append_nil] at read
  simp [tpRdInt, quicRdInit, read, quicRdLeft]

theorem tpStore_int {tp : QuicConnParams} {param : QuicTpInt} {v : Nat} (fits : FitsVarint v)
    (allowed : param.allowed v = true) :
    tpStore tp (.int param) (varintBytes v) = some (param.put tp v) := by
  simp [tpStore, tpRdInt_varintBytes fits, allowed]

end Reading

structure QuicConnParams.Formed (tp : QuicConnParams) (server : Bool) : Prop where
  initScid_given : tp.initScid ≠ none
  /-- A server states the destination of the client's first packet. -/
  origDcid_given : server = true → tp.origDcid ≠ none
  initScid_le : ∀ cid, tp.initScid = some cid → cid.length ≤ QUIC_MAX_CID
  /-- The destination of the client's first packet is a connection ID. -/
  origDcid_le : ∀ cid, tp.origDcid = some cid → cid.length ≤ QUIC_MAX_CID
  retryScid_le : ∀ cid, tp.retryScid = some cid → cid.length ≤ QUIC_MAX_CID
  resetToken_length : ∀ token, tp.resetToken = some token → token.length = QUIC_RESET_TOKEN_LEN
  fits : ∀ param : QuicTpInt, FitsVarint (param.get tp)
  allowed : ∀ param : QuicTpInt, param.allowed (param.get tp) = true

/-- What is left of a set when the server's parameters are not sent. -/
def tpReceived (tp : QuicConnParams) (server : Bool) : QuicConnParams :=
  if server then tp else { tp with origDcid := none, retryScid := none, resetToken := none }

def tpOrder : List QuicTp :=
  .initScid :: .origDcid :: .retryScid :: .statelessReset :: QuicTpInt.all.map .int ++
    [.disableMigration]

/-- The value that is sent of a parameter, if any. -/
def tpSent (tp : QuicConnParams) (server : Bool) : QuicTp → Option (List UInt8)
  | .initScid => tp.initScid
  | .origDcid => if server then tp.origDcid else none
  | .retryScid => if server then tp.retryScid else none
  | .statelessReset => if server then tp.resetToken else none
  | .int param => if param.get tp ≠ param.omitted then some (varintBytes (param.get tp)) else none
  | .disableMigration => if tp.disableMigration then some [] else none
  | .preferredAddress => none

variable (tp : QuicConnParams)

/-- What is sent stands in the order in which it is written. -/
theorem tpEntries_eq (server : Bool) : tpEntries tp server =
    tpOrder.filterMap fun param => (tpSent tp server param).map (Prod.mk param) := by
  have given_eq (param : QuicTp) (value : Option (List UInt8)) :
      tpGivenEntry param value = (value.map (Prod.mk param)).toList := by
    cases value <;> rfl
  have int_eq : tpIntEntry tp = fun param =>
      ((tpSent tp server (.int param)).map (Prod.mk (.int param))).toList := by
    funext param
    dsimp only [tpIntEntry, tpSent]
    split_ifs <;> rfl
  rw [filterMap_eq_flatMap_toList]
  simp only [tpEntries, tpServerEntries, tpOrder, given_eq, int_eq, cons_append, flatMap_cons,
    flatMap_append, flatMap_map, flatMap_nil, append_nil]
  cases server <;> cases migration : tp.disableMigration <;> simp [tpSent, migration]

theorem nodup_tpOrder : tpOrder.Nodup := by decide

section RoundTrip

variable {tp : QuicConnParams} {server : Bool}

theorem tpRdCid_eq {cid : List UInt8} (short : cid.length ≤ QUIC_MAX_CID) :
    tpRdCid cid = some cid :=
  if_neg (Nat.not_lt.2 short)

/-- Take the value of one parameter from another set. -/
def tpCopy (source tp : QuicConnParams) : QuicTp → QuicConnParams
  | .initScid => { tp with initScid := source.initScid }
  | .origDcid => { tp with origDcid := source.origDcid }
  | .retryScid => { tp with retryScid := source.retryScid }
  | .statelessReset => { tp with resetToken := source.resetToken }
  | .disableMigration => { tp with disableMigration := source.disableMigration }
  | .preferredAddress => tp
  | .int param => param.put tp (param.get source)

theorem tpCopy_comm {source other acc : QuicConnParams} {p q : QuicTp} (differs : p ≠ q) :
    tpCopy source (tpCopy other acc p) q = tpCopy other (tpCopy source acc q) p := by
  rcases p with _ | _ | _ | _ | _ | _ | ⟨⟨⟩⟩ <;> rcases q with _ | _ | _ | _ | _ | _ | ⟨⟨⟩⟩ <;>
    first | rfl | exact absurd rfl differs

theorem tpCopy_self (tp : QuicConnParams) (param : QuicTp) : tpCopy tp tp param = tp := by
  rcases param with _ | _ | _ | _ | _ | _ | ⟨⟨⟩⟩ <;> rfl

theorem foldl_tpCopy (source acc : QuicConnParams) :
    tpOrder.foldl (tpCopy source) acc = source := by
  simp only [tpOrder, QuicTpInt.all, map_cons, map_nil, cons_append, nil_append, foldl_cons,
    foldl_nil, tpCopy, QuicTpInt.put, QuicTpInt.get]

theorem get_tpReceived (param : QuicTpInt) : param.get (tpReceived tp server) = param.get tp := by
  cases server <;> cases param <;> rfl

/-- What is not sent has its default value. -/
theorem tpCopy_unsent {param : QuicTp} (unsent : tpSent tp server param = none)
    (acc : QuicConnParams) :
    tpCopy (tpReceived tp server) acc param = tpCopy quicTpDefaults acc param := by
  cases param with
  | int param =>
    have same : param.get tp = param.omitted := by simpa [tpSent] using unsent
    rw [tpCopy, get_tpReceived, same]
    cases param <;> rfl
  | _ => cases server <;> simp_all [tpSent, tpReceived, tpCopy, quicTpDefaults]

/-- What is sent is stored. -/
theorem tpStore_sent (formed : tp.Formed server) {param : QuicTp} {value : List UInt8}
    (sent : tpSent tp server param = some value) (acc : QuicConnParams) :
    tpStore acc param value = some (tpCopy (tpReceived tp server) acc param) := by
  cases param with
  | initScid =>
    have received : (tpReceived tp server).initScid = some value := by
      cases server <;> exact sent
    simp [tpStore, tpCopy, tpRdCid_eq (formed.initScid_le _ sent), received]
  | origDcid =>
    obtain ⟨rfl, given⟩ := Option.ite_none_right_eq_some.1 sent
    simp [tpStore, tpCopy, tpReceived, tpRdCid_eq (formed.origDcid_le _ given), given]
  | retryScid =>
    obtain ⟨rfl, given⟩ := Option.ite_none_right_eq_some.1 sent
    simp [tpStore, tpCopy, tpReceived, tpRdCid_eq (formed.retryScid_le _ given), given]
  | statelessReset =>
    obtain ⟨rfl, given⟩ := Option.ite_none_right_eq_some.1 sent
    simp [tpStore, tpCopy, tpReceived, formed.resetToken_length _ given, given]
  | int param =>
    obtain ⟨-, ⟨⟩⟩ := Option.ite_none_right_eq_some.1 sent
    rw [tpStore_int (formed.fits param) (formed.allowed param), tpCopy, get_tpReceived]
  | disableMigration =>
    obtain ⟨disabled, ⟨⟩⟩ := Option.ite_none_right_eq_some.1 sent
    have received : (tpReceived tp server).disableMigration = true := by
      cases server <;> exact disabled
    simp [tpStore, tpCopy, received]
  | preferredAddress => cases sent

/-- What is sent of some parameters is stored, and those left out have their value already. -/
theorem tpStores_sent (formed : tp.Formed server) {params : List QuicTp} (distinct : params.Nodup)
    {acc : QuicConnParams} (unset : ∀ param ∈ params, tpCopy quicTpDefaults acc param = acc) :
    TpStores acc (params.filterMap fun param => (tpSent tp server param).map (Prod.mk param))
      (params.foldl (tpCopy (tpReceived tp server)) acc) := by
  induction params generalizing acc with
  | nil => exact tpStores_nil acc
  | cons param params ih =>
    obtain ⟨not_again, rest_distinct⟩ := nodup_cons.1 distinct
    obtain ⟨param_unset, rest_unset⟩ := forall_mem_cons.1 unset
    have still_unset : ∀ other ∈ params,
        tpCopy quicTpDefaults (tpCopy (tpReceived tp server) acc param) other =
          tpCopy (tpReceived tp server) acc param := by
      intro other other_mem
      rw [tpCopy_comm (ne_of_mem_of_not_mem other_mem not_again).symm, rest_unset other other_mem]
    have rest := ih rest_distinct still_unset
    rw [foldl_cons, filterMap_cons]
    cases sent : tpSent tp server param with
    | none => rwa [tpCopy_unsent sent, param_unset] at rest ⊢
    | some value => exact tpStores_cons.2 ⟨_, tpStore_sent formed sent acc, rest⟩

theorem mem_tpEntries :
    entry ∈ tpEntries tp server → tpSent tp server entry.1 = some entry.2 := by
  rw [tpEntries_eq, mem_filterMap]
  rintro ⟨param, -, sent⟩
  obtain ⟨value, value_eq, rfl⟩ := Option.map_eq_some_iff.1 sent
  exact value_eq

theorem nodup_tpEntries : ((tpEntries tp server).map Prod.fst).Nodup := by
  rw [tpEntries_eq, map_filterMap]
  refine nodup_tpOrder.filterMap fun param other first from_param from_other => ?_
  simp only [Option.map_map, Option.mem_def, Option.map_eq_some_iff] at from_param from_other
  obtain ⟨value, -, rfl⟩ := from_param
  obtain ⟨other_value, -, same⟩ := from_other
  exact same.symm

theorem permitted_entries (entry : QuicTp × List UInt8) (entry_mem : entry ∈ tpEntries tp server) :
    server = true ∨ tpServerOnly entry.1 = false := by
  have sent := mem_tpEntries entry_mem
  cases server with
  | true => exact .inl rfl
  | false =>
    obtain ⟨param, value⟩ := entry
    cases param <;> first | exact .inr rfl | cases sent

theorem fits_entries (formed : tp.Formed server) (entry : QuicTp × List UInt8)
    (entry_mem : entry ∈ tpEntries tp server) : FitsVarint entry.2.length := by
  obtain ⟨param, value⟩ := entry
  have sent : tpSent tp server param = some value := mem_tpEntries entry_mem
  suffices value.length ≤ QUIC_MAX_CID by
    unfold FitsVarint QUIC_MAX_PACKET_NUMBER
    unfold QUIC_MAX_CID at this
    dsimp only
    omega
  cases param with
  | initScid => exact formed.initScid_le _ sent
  | origDcid => exact formed.origDcid_le _ (Option.ite_none_right_eq_some.1 sent).2
  | retryScid => exact formed.retryScid_le _ (Option.ite_none_right_eq_some.1 sent).2
  | statelessReset =>
    rw [formed.resetToken_length _ (Option.ite_none_right_eq_some.1 sent).2]
    decide
  | int param =>
    obtain ⟨-, ⟨⟩⟩ := Option.ite_none_right_eq_some.1 sent
    rw [length_varintBytes]
    exact (quicVarintSize_le_eight _).trans (by decide)
  | disableMigration =>
    obtain ⟨-, ⟨⟩⟩ := Option.ite_none_right_eq_some.1 sent
    exact Nat.zero_le _
  | preferredAddress => cases sent

/-- Parameters that store a complete set are decoded to it. -/
theorem quicTpDecode_eq (formed : tp.Formed server) (distinct : (entries.map Prod.fst).Nodup)
    (permitted : ∀ entry ∈ entries, server = true ∨ tpServerOnly entry.1 = false)
    (fits : ∀ entry ∈ entries, FitsVarint entry.2.length)
    (stores : TpStores quicTpDefaults entries (tpReceived tp server)) :
    quicTpDecode (tpBytes entries) server = some (tpReceived tp server) := by
  have read := tpDecodeLoop_eq distinct (fun entry _ => Nat.zero_testBit entry.1.id) permitted fits
    stores
  have scid_given : (tpReceived tp server).initScid.isNone = false := by
    have given := formed.initScid_given
    cases server <;> simpa [tpReceived, Option.isSome_iff_ne_none] using given
  have orig_given : (server && (tpReceived tp server).origDcid.isNone) = false := by
    cases server with
    | false => rfl
    | true => simpa [tpReceived, Option.isSome_iff_ne_none] using formed.origDcid_given rfl
  simp only [quicTpDecode, quicRdInit, read, scid_given, orig_given, Bool.false_eq_true, if_false]

theorem not_mem_entries {param : QuicTpInt} (left_out : param.get tp = param.omitted) :
    QuicTp.int param ∉ (tpEntries tp server).map Prod.fst := by
  intro sent
  obtain ⟨⟨_, value⟩, entry_mem, rfl⟩ := mem_map.1 sent
  exact (Option.ite_none_right_eq_some.1 (mem_tpEntries entry_mem)).1 left_out

end RoundTrip

/-- A set of parameters that could be written is read back, without the server's parameters if a
client sent it; and stating a default value makes no difference. -/
theorem params_round_trip {tp : QuicConnParams} {server : Bool} {bufsz : Nat} {wr : QuicWr}
    (formed : tp.Formed server) (encoded : quicTpEncode (quicWrInit bufsz) tp server = (true, wr)) :
    quicTpDecode wr.out server = some (tpReceived tp server) ∧
      ∀ param : QuicTpInt, param.get tp = param.get quicTpDefaults →
        quicTpDecode (wr.out ++ tpEntryBytes (.int param, varintBytes (param.get tp))) server =
          quicTpDecode wr.out server := by
  have distinct : ((tpEntries tp server).map Prod.fst).Nodup := nodup_tpEntries
  have stores := tpStores_sent formed nodup_tpOrder fun param _ => tpCopy_self quicTpDefaults param
  rw [foldl_tpCopy, ← tpEntries_eq] at stores
  have decoded := quicTpDecode_eq formed distinct permitted_entries (fits_entries formed) stores
  rw [quicTpEncode_written encoded]
  refine ⟨decoded, fun param is_default => ?_⟩
  have bytes_eq : tpBytes (tpEntries tp server) ++
      tpEntryBytes (.int param, varintBytes (param.get tp)) =
      tpBytes (tpEntries tp server ++ [(.int param, varintBytes (param.get tp))]) := by
    simp [tpBytes]
  rw [decoded, bytes_eq]
  refine quicTpDecode_eq formed ?_ ?_ ?_ ?_
  · rw [map_append, nodup_append]
    refine ⟨distinct, nodup_singleton _, ?_⟩
    rintro entry entry_mem other other_mem rfl
    rw [mem_singleton.1 other_mem] at entry_mem
    exact not_mem_entries is_default entry_mem
  · exact forall_mem_append.2 ⟨permitted_entries, forall_mem_singleton.2 (.inr rfl)⟩
  · refine forall_mem_append.2 ⟨fits_entries formed, forall_mem_singleton.2 ?_⟩
    rw [length_varintBytes]
    exact (quicVarintSize_le_eight _).trans_lt (by decide)
  · refine stores.append (tpStores_cons.2 ⟨_, ?_, tpStores_nil _⟩)
    rw [tpStore_int (formed.fits param) (formed.allowed param), ← @get_tpReceived tp server param]
    exact congrArg some (tpCopy_self (tpReceived tp server) (.int param))

/-- A client's set with a customised limit and a connection ID of the server that is not sent. -/
theorem params_round_trip_client :
    let tp := { quicTpDefaults with
      initScid := some [1, 2], origDcid := some [3], initMaxData := 1000, disableMigration := true }
    quicTpEncode (quicWrInit 100) tp false =
        (true, ⟨100, [15, 2, 1, 2, 4, 2, 67, 232, 12, 0], false⟩) ∧
      quicTpDecode [15, 2, 1, 2, 4, 2, 67, 232, 12, 0] false =
        some { tp with origDcid := none } := by
  intro tp
  have formed : tp.Formed false :=
    { initScid_given := nofun
      origDcid_given := nofun
      initScid_le := by rintro cid ⟨⟩; decide
      origDcid_le := by rintro cid ⟨⟩; decide
      retryScid_le := nofun
      resetToken_length := nofun
      fits := by intro param; cases param <;> decide
      allowed := by intro param; cases param <;> decide }
  have encoded : quicTpEncode (quicWrInit 100) tp false =
      (true, ⟨100, [15, 2, 1, 2, 4, 2, 67, 232, 12, 0], false⟩) := by decide
  exact ⟨encoded, (params_round_trip formed encoded).1⟩

end Cx.Quic
