import Cx.Quic.ConnPath

/-!
# Amplification

A server that answers an address nobody proved can be turned against whoever lives there, so it may
send such an address no more than three times what it received from it.  The connection counts bytes
twice: from the start, for the first address, and from the last move, for the one in use.  Both
counters take in what comes from anywhere, and a response that goes elsewhere is not held against
either.
-/

namespace Cx.Quic

open Library Relation

variable {log : List ConnEvent} {d : ConnDatagram} {addr peer : NetAddr}

/-! ### What the history says about an address -/

def bytesTo (addr : NetAddr) : List ConnEvent → Nat
  | [] => 0
  | .sent dest size _ :: log => (if dest = addr then size else 0) + bytesTo addr log
  | _ :: log => bytesTo addr log

def bytesFrom (addr : NetAddr) : List ConnEvent → Nat
  | [] => 0
  | .received peer size :: log => (if peer = addr then size else 0) + bytesFrom addr log
  | _ :: log => bytesFrom addr log

def challengedAt (addr : NetAddr) (data : List UInt8) (log : List ConnEvent) : Bool :=
  log.any fun
    | .sent dest _ packets =>
      decide (dest = addr) && packets.any fun packet => decide (.pathChallenge data ∈ packet.frames)
    | _ => false

/-- A token or the handshake proved the address, or the peer answered a challenge sent to it. -/
def addressValidated (addr : NetAddr) : List ConnEvent → Bool
  | [] => false
  | .vouched peer :: log => decide (peer = addr) || addressValidated addr log
  | .handshakeRead peer :: log => decide (peer = addr) || addressValidated addr log
  | .confirmed peer :: log => decide (peer = addr) || addressValidated addr log
  | .answered peer data :: log =>
    decide (peer = addr) && challengedAt addr data log || addressValidated addr log
  | _ :: log => addressValidated addr log

/-- Where an address has to be proven, the answer is to a challenge that was sent to it. -/
def AnswersAsked : List ConnEvent → Prop
  | [] => True
  | .answered peer data :: log =>
    (challengedAt peer data log = true ∨ addressValidated peer log = true) ∧ AnswersAsked log
  | _ :: log => AnswersAsked log

instance AnswersAsked.decidable (log : List ConnEvent) : Decidable (AnswersAsked log) :=
  match log with
  | [] => .isTrue trivial
  | event :: log =>
    have : Decidable (AnswersAsked log) := AnswersAsked.decidable log
    match event with
    | .answered peer data =>
      inferInstanceAs (Decidable
        ((challengedAt peer data log = true ∨ addressValidated peer log = true) ∧
          AnswersAsked log))
    | .received .. | .sent .. | .acked .. | .vouched .. | .handshakeRead .. | .confirmed ..
    | .challenged .. | .issued .. | .switched .. | .parameters | .newConnId .. | .retired ..
    | .retireDropped .. | .closeRead .. | .closed => this

/-! ### The balance -/

structure AmpView where
  server : Bool
  addrValidated : Bool
  pathAmpLimited : Bool
  pathValidated : Bool
  peer : NetAddr
  prev : Option NetAddr
  pathSent : Nat
  pathRecv : Nat
  bytesSent : Nat
  bytesRecv : Nat
  mtuState : QuicMtuState
  mtuProbePn : Option Nat
  respondElsewhere : Bool
  respondTo : NetAddr
  valid : NetAddr → Bool
  sentTo : NetAddr → Nat
  receivedFrom : NetAddr → Nat

/-- What the limit on amplification depends on. -/
def ConnView.amp (v : ConnView) : AmpView where
  server := v.server
  addrValidated := v.addrValidated
  pathAmpLimited := v.pathAmpLimited
  pathValidated := v.pathValidated
  peer := v.peer
  prev := v.prev
  pathSent := v.pathSent
  pathRecv := v.pathRecv
  bytesSent := v.bytesSent
  bytesRecv := v.bytesRecv
  mtuState := v.size.mtuState
  mtuProbePn := v.size.mtuProbePn
  respondElsewhere := v.respondElsewhere
  respondTo := v.respondTo
  valid := fun addr => addressValidated addr v.log
  sentTo := fun addr => bytesTo addr v.log
  receivedFrom := fun addr => bytesFrom addr v.log

/-- No address that is not validated got more than three times what it sent.  `source` is where the
datagram that is being read came from, and `slack` how many bytes were received and not yet counted
for the path. -/
structure Balanced (source : Option NetAddr) (slack : Nat) (a : AmpView) : Prop where
  server : a.server = true
  validated : a.pathValidated = true → a.valid a.peer = true
  chosen : a.addrValidated = true → a.pathAmpLimited = false → a.valid a.peer = true
  before : ∀ addr, a.prev = some addr → a.valid addr = true
  /-- The size of a path is searched for on validated paths only. -/
  searched : a.mtuState ≠ .idle ∨ a.mtuProbePn.isSome = true → a.valid a.peer = true
  elsewhere : a.respondElsewhere = true → a.valid a.respondTo = true
  total : ∀ addr, a.valid addr = false → a.sentTo addr ≤ 3 * a.receivedFrom addr
  current : a.valid a.peer = false →
    a.sentTo a.peer + 3 * (a.pathRecv + slack) ≤ a.pathSent + 3 * a.receivedFrom a.peer
  young : a.valid a.peer = false → a.addrValidated = false →
    a.bytesRecv ≤ a.receivedFrom a.peer ∧ a.sentTo a.peer ≤ a.bytesSent
  /-- A datagram comes from the address in use, or that address is validated. -/
  home : ∀ addr, source = some addr →
    addr = a.peer ∨ a.valid a.peer = true ∧ a.addrValidated = true
  spare : ∀ addr, source = some addr → a.valid addr = false →
    a.sentTo addr + 3 * slack ≤ 3 * a.receivedFrom addr

/-- The balance, as long as answers are to challenges that were sent. -/
abbrev ConnView.Fair (source : Option NetAddr) (slack : Nat) (v : ConnView) : Prop :=
  AnswersAsked v.log → Balanced source slack v.amp

section Fair

variable {v v' : ConnView} {a : AmpView} {source : Option NetAddr} {slack : Nat}

theorem Balanced.validate (balanced : Balanced source slack a) (valid : NetAddr → Bool)
    (grows : ∀ addr, a.valid addr = true → valid addr = true) :
    Balanced source slack { a with valid := valid } := by
  have unproven : ∀ addr, valid addr = false → a.valid addr = false := fun addr not_valid =>
    Bool.eq_false_iff.2 fun was_valid => Bool.eq_false_iff.1 not_valid (grows addr was_valid)
  exact
    { server := balanced.server
      validated := fun h => grows _ (balanced.validated h)
      chosen := fun h unlimited => grows _ (balanced.chosen h unlimited)
      before := fun addr left => grows _ (balanced.before addr left)
      searched := fun busy => grows _ (balanced.searched busy)
      elsewhere := fun h => grows _ (balanced.elsewhere h)
      total := fun addr h => balanced.total addr (unproven addr h)
      current := fun h => balanced.current (unproven _ h)
      young := fun h unknown => balanced.young (unproven _ h) unknown
      home := fun addr h => (balanced.home addr h).imp_right fun ⟨known, seen⟩ =>
        ⟨grows _ known, seen⟩
      spare := fun addr h fresh => balanced.spare addr h (unproven _ fresh) }

theorem addressValidated_event (known : addressValidated addr log = true) (event : ConnEvent) :
    addressValidated addr (event :: log) = true := by
  cases event with
  | vouched | handshakeRead | confirmed | answered =>
    simp only [addressValidated, known, Bool.or_true]
  | _ => exact known

theorem Balanced.learn (balanced : Balanced source slack v.amp) (event : ConnEvent) :
    Balanced source slack
      { v.amp with valid := fun addr => addressValidated addr (event :: v.log) } :=
  balanced.validate _ fun _ known => addressValidated_event known event

theorem amp_idsOnly (ids : IdsOnly v v') : v'.amp = v.amp := by
  obtain ⟨rest_eq, events, log_eq, about⟩ := ids
  have quiet : ∀ addr, addressValidated addr v'.log = addressValidated addr v.log ∧
      bytesTo addr v'.log = bytesTo addr v.log ∧
      bytesFrom addr v'.log = bytesFrom addr v.log := by
    intro addr
    rw [log_eq]
    clear log_eq rest_eq
    induction events with
    | nil => exact ⟨rfl, rfl, rfl⟩
    | cons event events ih =>
      have rest := ih fun later noted => about later (List.mem_cons_of_mem event noted)
      have about_ids := about event List.mem_cons_self
      cases event with
      | newConnId | retired | retireDropped => exact rest
      | _ => cases about_ids
  have valid_eq : v'.amp.valid = v.amp.valid := funext fun addr => (quiet addr).1
  have sentTo_eq : v'.amp.sentTo = v.amp.sentTo := funext fun addr => (quiet addr).2.1
  have receivedFrom_eq : v'.amp.receivedFrom = v.amp.receivedFrom :=
    funext fun addr => (quiet addr).2.2
  calc v'.amp = { v.amp with
        valid := v'.amp.valid, sentTo := v'.amp.sentTo, receivedFrom := v'.amp.receivedFrom } := by
        rw [rest_eq]
        rfl
    _ = v.amp := by rw [valid_eq, sentTo_eq, receivedFrom_eq]

theorem AnswersAsked.of_event {event : ConnEvent} (asked : AnswersAsked (event :: log)) :
    AnswersAsked log := by
  cases event with
  | answered => exact asked.2
  | _ => exact asked

theorem AnswersAsked.of_append {events : List ConnEvent} (asked : AnswersAsked (events ++ log)) :
    AnswersAsked log := by
  induction events with
  | nil => exact asked
  | cons event events ih => exact ih asked.of_event

theorem fair_idsOnly (ids : IdsOnly v v') (fair : v.Fair source slack) : v'.Fair source slack := by
  intro asked
  rw [amp_idsOnly ids]
  obtain ⟨-, events, log_eq, -⟩ := ids
  rw [log_eq] at asked
  exact fair asked.of_append

theorem fair_sizeMove (move : SizeMove v v') (fair : v.Fair source slack) :
    v'.Fair source slack := by
  cases move with
  | started state valid =>
    exact fun asked => { fair asked with searched := fun _ => (fair asked).validated valid }
  | searched state busy =>
    exact fun asked => { fair asked with searched := fun _ => (fair asked).searched busy }
  | grown => exact fair
  | settled =>
    exact fun asked => { fair asked with
      searched := fun busy => (fair asked).searched (busy.imp_right nofun) }

theorem fair_connMove (move : ConnMove source v v') (fair : v.Fair source slack) :
    v'.Fair source slack := by
  cases move with
  | size move => exact fair_sizeMove move fair
  | newConnId c =>
    exact Conn.handleNewConnId_keeps (·.Fair source slack) c (fair_idsOnly · fair) fun _ kept =>
      kept
  | issued => exact fun asked => { fair asked with validated := nofun }
  | challenged => exact fun asked => { fair asked with elsewhere := nofun }
  | answered =>
    intro asked
    have here : addressValidated v.peer (.answered v.peer v.pathChallengeData :: v.log) = true := by
      rcases asked.1 with challenged | known
      · simp [addressValidated, challenged]
      · exact addressValidated_event known _
    exact { (fair asked.2).learn (.answered v.peer v.pathChallengeData) with
      validated := fun _ => here
      before := nofun }
  | confirmed =>
    intro asked
    have here : addressValidated v.peer (.confirmed v.peer :: v.log) = true := by
      simp [addressValidated]
    exact { (fair asked).learn (.confirmed v.peer) with validated := fun _ => here }
  | completed =>
    intro asked
    have here : addressValidated v.peer (.confirmed v.peer :: v.log) = true := by
      simp [addressValidated]
    exact { (fair asked).learn (.confirmed v.peer) with
      validated := fun _ => here
      chosen := fun _ _ => here
      young := nofun
      home := fun _ _ => .inr ⟨here, rfl⟩ }
  | handshakeRead _ peer from_source =>
    intro asked
    have balanced := fair asked
    -- the packet came from the address in use, or that address was validated before
    have here : addressValidated v.peer (.handshakeRead peer :: v.log) = true := by
      rcases balanced.home peer from_source with rfl | ⟨known, -⟩
      · simp [addressValidated, ConnView.amp]
      · exact addressValidated_event known _
    exact { balanced.learn (.handshakeRead peer) with
      chosen := fun _ _ => here
      young := nofun
      home := fun _ _ => .inr ⟨here, rfl⟩ }
  | forgotten | opened | acked | lost | relabelled | activated | deadline => exact fair
  | close | silentClose | closeRead | closeReread | parameters | accepted => exact fair

theorem fair_connMoves (moves : ConnMoves source v v') (fair : v.Fair source slack) :
    v'.Fair source slack :=
  Library.steps_keep moves fair_connMove fair

/-- A datagram goes out.  If the address is not validated it is the one in use, and there is room.
-/
theorem Balanced.sent (balanced : Balanced none 0 a) (dest : NetAddr) (size : Nat)
    (within : a.valid dest = false →
      dest = a.peer ∧ a.sentTo dest + size ≤ 3 * a.receivedFrom dest) :
    Balanced none 0 { a with
      bytesSent := a.bytesSent + size
      pathSent := a.pathSent + size
      sentTo := fun addr => (if dest = addr then size else 0) + a.sentTo addr } :=
  { balanced with
    total := fun addr unproven => by
      have before := balanced.total addr unproven
      change (if dest = addr then size else 0) + a.sentTo addr ≤ 3 * a.receivedFrom addr
      split
      · next same =>
          subst same
          have room := (within unproven).2
          omega
      · omega
    current := fun unproven => by
      have before := balanced.current unproven
      change (if dest = a.peer then size else 0) + a.sentTo a.peer + 3 * (a.pathRecv + 0) ≤
        a.pathSent + size + 3 * a.receivedFrom a.peer
      split <;> omega
    young := fun unproven unknown => by
      obtain ⟨received, sent⟩ := balanced.young unproven unknown
      refine ⟨received, ?_⟩
      change (if dest = a.peer then size else 0) + a.sentTo a.peer ≤ a.bytesSent + size
      split <;> omega
    spare := nofun }

/-- What the next datagram may hold is within the limit of an address that is not validated. -/
theorem Balanced.flushCap_le {c : QuicConnOwn} {cap : Nat} (balanced : Balanced none 0 c.view.amp)
    (limit : Conn.flushCap c = some cap) (unproven : addressValidated c.peer c.log = false) :
    bytesTo c.peer c.log + cap ≤ 3 * bytesFrom c.peer c.log := by
  have server : c.server = true := balanced.server
  have not_validated : c.pathValidated = false :=
    Bool.eq_false_iff.2 fun validated => Bool.eq_false_iff.1 unproven (balanced.validated validated)
  obtain ⟨-, -, started, moved⟩ := Conn.flushCap_spec limit
  by_cases seen : c.addrValidated = true
  · -- the peer chose the path, and the bytes counted since then limit it
    have limited : c.pathAmpLimited = true := by
      by_contra free
      have known := balanced.chosen seen (Bool.eq_false_of_not_eq_true free)
      exact absurd (known.symm.trans unproven) (by decide)
    have room := moved limited not_validated
    have counted : bytesTo c.peer c.log + 3 * (c.pathRecv + 0) ≤
        c.pathSent + 3 * bytesFrom c.peer c.log := balanced.current unproven
    omega
  · -- nothing validated the first address, and the bytes counted from the start limit it
    have unseen : c.addrValidated = false := Bool.eq_false_of_not_eq_true seen
    have room := started server unseen
    obtain ⟨received, sent⟩ : c.bytesRecv ≤ bytesFrom c.peer c.log ∧
        bytesTo c.peer c.log ≤ c.bytesSent := balanced.young unproven unseen
    omega

theorem fair_sendMove (move : SendMove v v') (fair : v.Fair none 0) : v'.Fair none 0 := by
  cases move with
  | size move => exact fair_sizeMove move fair
  | flushed c c' cap size pn packets frames limit size_le written =>
    intro asked
    have balanced := fair asked
    have sent := balanced.sent c.peer size fun unproven =>
      ⟨rfl, by
        have room := balanced.flushCap_le limit unproven
        change bytesTo c.peer c.log + size ≤ 3 * bytesFrom c.peer c.log
        omega⟩
    rw [written.rest_eq]
    exact sent
  | probed _ size pn searching =>
    intro asked
    have balanced := fair asked
    have known : v.amp.valid v.peer = true := balanced.searched (.inl (by
      change v.size.mtuState ≠ .idle
      rw [searching]
      exact nofun))
    have sent := balanced.sent v.peer size fun unproven => by
      rw [known] at unproven
      cases unproven
    exact { sent with searched := fun _ => known }
  | responded _ size pn elsewhere =>
    intro asked
    have balanced := fair asked
    have known : v.amp.valid v.respondTo = true := balanced.elsewhere elsewhere
    exact balanced.sent v.respondTo size fun unproven => by
      rw [known] at unproven
      cases unproven

theorem fair_sendMoves (moves : SendMoves v v') (fair : v.Fair none 0) : v'.Fair none 0 :=
  Library.steps_keep moves fair_sendMove fair

theorem valid_connMoves (moves : ConnMoves source v v')
    (known : addressValidated addr v.log = true) : addressValidated addr v'.log = true := by
  induction moves with
  | refl => exact known
  | tail _ move ih =>
    cases move with
    | size move => cases move <;> exact ih
    | newConnId c =>
      exact Conn.handleNewConnId_keeps (fun v => addressValidated addr v.log = true) c
        (fun ids => (congrFun (congrArg AmpView.valid (amp_idsOnly ids)) addr).trans ih)
        fun _ kept => kept
    | answered | confirmed | completed | handshakeRead => exact addressValidated_event ih _
    | _ => exact ih

def ConnView.limited (v : ConnView) : Bool :=
  v.server && !v.addrValidated || v.pathAmpLimited && !v.pathValidated

/-- Without a limit the address in use is validated. -/
theorem Balanced.unlimited (balanced : Balanced source slack v.amp) (free : v.limited = false) :
    v.amp.valid v.peer = true ∧ v.addrValidated = true := by
  have server : v.server = true := balanced.server
  simp only [ConnView.limited, server, Bool.true_and, Bool.or_eq_false_iff, Bool.not_eq_false',
    Bool.and_eq_false_iff] at free
  obtain ⟨seen, unchosen | validated⟩ := free
  · exact ⟨balanced.chosen seen unchosen, seen⟩
  · exact ⟨balanced.validated validated, seen⟩

/-- A datagram arrives from the address in use, or while nothing is limited. -/
theorem Balanced.receive (balanced : Balanced none 0 v.amp) (d : ConnDatagram)
    (safe : d.peer = v.peer ∨ v.limited = false) :
    Balanced (some d.peer) d.data.length (v.receive d).amp := by
  have home : d.peer = v.peer ∨ v.amp.valid v.peer = true ∧ v.addrValidated = true :=
    safe.imp_right balanced.unlimited
  have same_of : v.amp.valid v.peer = false → d.peer = v.peer := fun unproven =>
    home.resolve_right fun known => Bool.eq_false_iff.1 unproven known.1
  have total : ∀ addr, v.amp.valid addr = false →
      bytesTo addr v.log ≤ 3 * bytesFrom addr v.log := balanced.total
  exact
    { balanced with
      total := fun addr unproven => by
        have before := total addr unproven
        change bytesTo addr v.log ≤
          3 * ((if d.peer = addr then d.data.length else 0) + bytesFrom addr v.log)
        omega
      current := fun unproven => by
        have before : bytesTo v.peer v.log + 3 * (v.pathRecv + 0) ≤
          v.pathSent + 3 * bytesFrom v.peer v.log := balanced.current unproven
        change bytesTo v.peer v.log + 3 * (v.pathRecv + d.data.length) ≤ v.pathSent +
          3 * ((if d.peer = v.peer then d.data.length else 0) + bytesFrom v.peer v.log)
        rw [if_pos (same_of unproven)]
        omega
      young := fun unproven unknown => by
        obtain ⟨received, sent⟩ : v.bytesRecv ≤ bytesFrom v.peer v.log ∧
          bytesTo v.peer v.log ≤ v.bytesSent := balanced.young unproven unknown
        refine ⟨?_, sent⟩
        change v.bytesRecv + d.data.length ≤
          (if d.peer = v.peer then d.data.length else 0) + bytesFrom v.peer v.log
        rw [if_pos (same_of unproven)]
        omega
      home := fun addr from_source => by
        cases from_source
        exact home
      spare := fun addr from_source unproven => by
        cases from_source
        have before := total d.peer unproven
        change bytesTo d.peer v.log + 3 * d.data.length ≤
          3 * ((if d.peer = d.peer then d.data.length else 0) + bytesFrom d.peer v.log)
        rw [if_pos rfl]
        omega }

theorem Balanced.forget (balanced : Balanced source slack a) : Balanced none 0 a :=
  { balanced with
    current := fun unproven => by
      have before := balanced.current unproven
      omega
    home := nofun
    spare := nofun }

theorem Balanced.counted (balanced : Balanced source d.data.length v.amp) :
    Balanced none 0 (v.counted d).amp :=
  { balanced with
    current := fun unproven => by
      have before : bytesTo v.peer v.log + 3 * (v.pathRecv + d.data.length) ≤
        v.pathSent + 3 * bytesFrom v.peer v.log := balanced.current unproven
      change bytesTo v.peer v.log + 3 * (v.pathRecv + d.data.length + 0) ≤
        v.pathSent + 3 * bytesFrom v.peer v.log
      omega
    home := nofun
    spare := nofun }

theorem Balanced.moved (balanced : Balanced (some peer) slack v.amp) (elsewhere : peer ≠ v.peer) :
    Balanced none slack (v.switched peer true).amp := by
  obtain ⟨known, seen⟩ := (balanced.home peer rfl).resolve_left elsewhere
  exact
    { balanced with
      validated := nofun
      chosen := nofun
      before := fun addr left => by
        cases left
        exact known
      searched := fun busy => by
        rcases busy with awake | probing
        · exact absurd rfl awake
        · cases probing
      current := fun unproven => by
        have spare : bytesTo peer v.log + 3 * slack ≤ 3 * bytesFrom peer v.log :=
          balanced.spare peer rfl unproven
        change bytesTo peer v.log + 3 * (0 + slack) ≤ 0 + 3 * bytesFrom peer v.log
        omega
      young := fun _ unseen => by
        have contrary := seen.symm.trans unseen
        cases contrary
      home := nofun
      spare := nofun }

theorem Balanced.fallback (balanced : Balanced none 0 v.amp) (left : v.prev = some peer) :
    Balanced none 0 (v.fallback peer).amp := by
  have known : addressValidated peer v.log = true := balanced.before peer left
  exact
    { balanced with
      validated := fun _ => known
      chosen := fun _ _ => known
      before := nofun
      searched := fun _ => known
      current := fun unproven => absurd known (Bool.eq_false_iff.1 unproven)
      young := fun unproven => absurd known (Bool.eq_false_iff.1 unproven)
      home := nofun }

theorem Balanced.migrated (balanced : Balanced none 0 v.amp) (free : v.limited = false) :
    Balanced none 0 { v.switched v.peer false with prev := none }.amp := by
  have known : addressValidated v.peer v.log = true := (balanced.unlimited free).1
  exact
    { balanced with
      validated := nofun
      chosen := fun _ _ => known
      before := nofun
      searched := fun _ => known
      current := fun unproven => absurd known (Bool.eq_false_iff.1 unproven)
      young := fun unproven => absurd known (Bool.eq_false_iff.1 unproven) }

end Fair

/-- Datagrams come from the address in use, unless that address is not limited.  One from elsewhere
that only tests a path comes from an address that is validated.  This endpoint does not move while
the address in use is limited. -/
def AmpSafe (op : ConnOp) (v v' : ConnView) : Prop :=
  match op with
  | .recv d _ =>
    d.peer = v.peer ∨
      v.limited = false ∧
        (v'.respondElsewhere = true → addressValidated v'.respondTo v.log = true)
  | .migrate _ => v.limited = false
  | _ => True

instance (op : ConnOp) (v v' : ConnView) : Decidable (AmpSafe op v v') :=
  match op with
  | .recv .. => inferInstanceAs (Decidable (_ ∨ _ ∧ (_ → _)))
  | .migrate .. => inferInstanceAs (Decidable (_ = _))
  | .start .. | .flush .. | .tick .. | .validatePath | .close .. | .datagramSend .. | .keyUpdate
  | .stream .. => .isTrue trivial

theorem fair_receive {now : Time} {v v' : ConnView} (safe : AmpSafe (.recv d now) v v')
    (fair : v.Fair none 0) :
    (v.receive d).Fair (some d.peer) d.data.length :=
  fun asked => (fair asked).receive d (safe.imp_right And.left)

theorem fair_turn {op : ConnOp} {v v' : ConnView} (turn : ConnTurn op v v') (safe : AmpSafe op v v')
    (fair : v.Fair none 0) : v'.Fair none 0 := by
  cases turn with
  | calm _ moves sends => exact fair_sendMoves sends (fair_connMoves moves fair)
  | @arrived d now _ mid _ moves sends =>
    have received := fair_receive safe fair
    have read : mid.Fair none 0 := fun asked => (fair_connMoves moves received asked).forget
    exact fair_sendMoves sends read
  | @handled d now _ mid _ moves sends =>
    have received := fair_receive safe fair
    have read : (mid.counted d).Fair none 0 :=
      fun asked => (fair_connMoves moves received asked).counted
    exact fair_sendMoves sends read
  | @tested d now _ mid _ elsewhere moves sends =>
    have received := fair_receive safe fair
    -- the address the response goes to was validated before the datagram arrived
    have kept := sendKept_sendMoves sends
    have known : addressValidated d.peer v.log = true := by
      have answered := (safe.resolve_left elsewhere).2 kept.elsewhere_eq
      rw [kept.respondTo_eq] at answered
      exact answered
    have still_known : addressValidated d.peer mid.log = true :=
      valid_connMoves (v := v.receive d) moves known
    have tested : { mid with respondElsewhere := true, respondTo := d.peer }.Fair (some d.peer)
        d.data.length := fun asked =>
      { fair_connMoves moves received asked with elsewhere := fun _ => still_known }
    have read : ({ mid with respondElsewhere := true, respondTo := d.peer }.counted d).Fair
        none 0 := fun asked => (tested asked).counted
    exact fair_sendMoves sends read
  | @moved d now _ mid after _ elsewhere server moves settles sends =>
    have received := fair_receive safe fair
    have peer_eq : mid.peer = v.peer := (connMoves_peer moves :)
    have moved : (mid.switched d.peer true).Fair none d.data.length := fun asked =>
      (fair_connMoves moves received asked).moved (by rw [peer_eq]; exact elsewhere)
    have read : (after.counted d).Fair none 0 :=
      fun asked => (fair_connMoves settles moved asked).counted
    exact fair_sendMoves sends read
  | @fellBack now _ mid after _ peer moves left settles sends =>
    have fallen : (mid.fallback peer).Fair none 0 :=
      fun asked => (fair_connMoves moves fair asked).fallback left
    exact fair_sendMoves sends (fair_connMoves settles fallen)
  | migrated now settles =>
    have migrated : { v.switched v.peer false with prev := none }.Fair none 0 :=
      fun asked => (fair asked).migrated safe
    exact fair_connMoves settles migrated
  | queued => exact fair

theorem fair_create (cfg : QuicConnConfig) (server : cfg.server = true) :
    (quicConnCreate cfg).view.Fair none 0 := by
  intro _
  have log_eq : (quicConnCreate cfg).log =
      if cfg.server ∧ cfg.origDcid.isSome then [.vouched cfg.peer] else [] := rfl
  have none_sent : ∀ addr, bytesTo addr (quicConnCreate cfg).log = 0 := by
    intro addr
    rw [log_eq]
    split <;> rfl
  exact
    { server := server
      validated := nofun
      chosen := fun seen _ => by
        have vouched : cfg.server ∧ cfg.origDcid.isSome := (Bool.and_eq_true_iff.1 seen :)
        change addressValidated cfg.peer (quicConnCreate cfg).log = true
        rw [log_eq, if_pos vouched]
        simp [addressValidated]
      before := nofun
      searched := fun busy => by
        rcases busy with awake | probing
        · exact absurd rfl awake
        · cases probing
      elsewhere := nofun
      total := fun addr _ => le_of_eq_of_le (none_sent addr) (Nat.zero_le _)
      current := fun _ => by
        change bytesTo cfg.peer (quicConnCreate cfg).log + 3 * (0 + 0) ≤ 0 + _
        rw [none_sent]
        exact Nat.zero_le _
      young := fun _ _ => ⟨Nat.zero_le _, (none_sent cfg.peer).le⟩
      home := nofun
      spare := nofun }

/-- No address that is not validated gets more than three times what it sent, as long as datagrams
come from the address in use while that one is limited. -/
theorem amplification_limited (cfg : QuicConnConfig) (server : cfg.server = true)
    (calls : List ConnCall)
    (safe : Admits connStep (fun c call => AmpSafe call.op c.view (connStep c call).view)
      (quicConnCreate cfg) calls)
    (asked : AnswersAsked (run connStep (quicConnCreate cfg) calls).log) (addr : NetAddr)
    (unproven : addressValidated addr (run connStep (quicConnCreate cfg) calls).log = false) :
    bytesTo addr (run connStep (quicConnCreate cfg) calls).log ≤
      3 * bytesFrom addr (run connStep (quicConnCreate cfg) calls).log := by
  have fair := admits_invariant (fun c : QuicConn => c.view.Fair none 0)
    (fair_create cfg server)
    (fun c call good allowed => fair_turn (connStep_turn c call) allowed good) safe
  exact (fair asked).total addr unproven

/-- The client is seen at address 2 and says nothing more. -/
def silentCalls : List ConnCall :=
  Scene.handshake [] ++ [Scene.short 2 0 [.ping] 100 3000, ⟨Scene.env, .flush 4000⟩]

theorem amplification_limited_moved :
    0 < bytesTo 2 (run connStep (quicConnCreate (Scene.config quicTpDefaults)) silentCalls).log ∧
      bytesTo 2 (run connStep (quicConnCreate (Scene.config quicTpDefaults)) silentCalls).log ≤
        3 * bytesFrom 2
          (run connStep (quicConnCreate (Scene.config quicTpDefaults)) silentCalls).log :=
  ⟨by decide +kernel,
    amplification_limited (Scene.config quicTpDefaults) rfl silentCalls (by decide +kernel)
      (by decide +kernel) 2 (by decide +kernel)⟩

/-- A test of the path from address 2 with 100 bytes is answered with a full datagram. -/
theorem amplification_by_test : addressValidated 2
        (run connStep (quicConnCreate (Scene.config quicTpDefaults)) testingCalls).log = false ∧
      bytesFrom 2
        (run connStep (quicConnCreate (Scene.config quicTpDefaults)) testingCalls).log = 100 ∧
      bytesTo 2
        (run connStep (quicConnCreate (Scene.config quicTpDefaults)) testingCalls).log = 1200 := by
  decide +kernel

end Cx.Quic
