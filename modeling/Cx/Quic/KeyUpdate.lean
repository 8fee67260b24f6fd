import Cx.Quic.Recovery

/-!
# Key updates

Both directions of a connection move on to the next generation of keys together, and one bit of a
packet says which of two neighbouring generations it was sealed under.  Two endpoints are joined by
a network that drops, repeats and reorders packets; a set of keys is the number of its generation.
-/

namespace Cx.Quic

structure QuicAppKeys where
  tx : Nat
  rx : Nat
  rxNext : Nat
  rxPrev : Option Nat
  keyPhase : Bool
  rxPhaseFirst : Option Nat
  txPhaseFirst : Nat
  /-- Whether the peer has answered a packet sent in the current phase. -/
  keyPhaseAcked : Bool
  rxPrevUntil : Time
  /-- How many times the keys have moved on, as a 32-bit counter. -/
  keyUpdates : Nat
  handshakeConfirmed : Bool
  next : Nat
  /-- Whether the connection was given up with `KEY_UPDATE_ERROR`. -/
  aborted : Bool
deriving DecidableEq, Repr

def quicAppKeysInit : QuicAppKeys :=
  ⟨0, 0, 1, none, false, none, 0, false, 0, 0, false, 0, false⟩

structure QuicAppPacket where
  gen : Nat
  keyPhase : Bool
  pn : Nat
  acks : List Nat
deriving DecidableEq, Repr

/-- The generation after another. -/
def quicKeysNext (keys : Nat) : Nat := keys + 1

def quicPktOpen (keys : Nat) (p : QuicAppPacket) : Bool := p.gen = keys

/-- Move both directions on to the next generation.  The number is that of the packet that announced
the update, unless this endpoint started it; the probe timeout is that of loss recovery. -/
def keyUpdate (c : QuicAppKeys) (pn : Option Nat) (now pto : Time) : QuicAppKeys :=
  { c with
    rxPrev := some c.rx
    rx := c.rxNext
    rxNext := quicKeysNext c.rxNext
    tx := quicKeysNext c.tx
    keyPhase := !c.keyPhase
    rxPhaseFirst := pn
    txPhaseFirst := c.next
    keyPhaseAcked := false
    keyUpdates := (c.keyUpdates + 1) % 2 ^ 32
    rxPrevUntil := now + 3 * pto }

/-- Start a key update; the flag is false when it is too early for one. -/
def quicConnUpdateKeys (c : QuicAppKeys) (now pto : Time) : Bool × QuicAppKeys :=
  if !c.handshakeConfirmed then (false, c)
  else if c.keyUpdates > 0 ∧ !c.keyPhaseAcked then (false, c)
  else (true, keyUpdate c none now pto)

/-- Open a packet, following the peer through a key update if its phase says so. -/
def openApp (c : QuicAppKeys) (p : QuicAppPacket) (now pto : Time) : Bool × QuicAppKeys :=
  if quicPktOpen c.rx p then
    (true, if c.rxPhaseFirst.all (p.pn < ·) then { c with rxPhaseFirst := some p.pn } else c)
  else if p.keyPhase = c.keyPhase then (false, c)
  else if c.keyUpdates > 0 ∧ c.rxPhaseFirst.all (p.pn < ·) then
    (c.rxPrev.any (quicPktOpen · p) && decide (now < c.rxPrevUntil), c)
  else if !quicPktOpen c.rxNext p then (false, c)
  else if !c.handshakeConfirmed then (false, { c with aborted := true })
  else (true, keyUpdate c (some p.pn) now pto)

def connOnAcked (c : QuicAppKeys) (pn : Nat) : QuicAppKeys :=
  if pn ≥ c.txPhaseFirst then { c with keyPhaseAcked := true } else c

/-- One endpoint, with the packets it sent and the numbers of those it opened. -/
structure KeyEnd where
  keys : QuicAppKeys
  /-- What it sent; any of it can arrive, in any order and more than once. -/
  sent : List QuicAppPacket
  opened : List Nat

/-- The two endpoints of a connection. -/
abbrev KeyLink := Bool → KeyEnd

def keyLinkInit : KeyLink := fun _ => ⟨quicAppKeysInit, [], []⟩

inductive KeyOp where
  | confirm (side : Bool)
  /-- An endpoint sends a packet that acknowledges some of what it opened. -/
  | send (side : Bool) (acks : List Nat)
  | update (side : Bool) (now pto : Time)
  /-- A packet of the peer arrives; loss recovery reports some of what it acknowledges. -/
  | deliver (side : Bool) (index : Nat) (now pto : Time) (reported : List Nat)

def KeyEnd.send (e : KeyEnd) (acks : List Nat) : KeyEnd :=
  { e with
    keys := { e.keys with next := e.keys.next + 1 }
    sent := e.sent ++
      [⟨e.keys.tx, e.keys.keyPhase, e.keys.next, acks.filter (· ∈ e.opened)⟩] }

def KeyEnd.receive (e : KeyEnd) (p : QuicAppPacket) (now pto : Time)
    (reported : List Nat) : KeyEnd :=
  match openApp e.keys p now pto with
  | (false, keys) => { e with keys := keys }
  | (true, keys) =>
    { e with
      keys := (p.acks.filter (· ∈ reported)).foldl connOnAcked keys
      opened := p.pn :: e.opened }

def keyStep (link : KeyLink) : KeyOp → KeyLink
  | .confirm side =>
    let e := link side
    Function.update link side { e with keys := { e.keys with handshakeConfirmed := true } }
  | .send side acks => Function.update link side ((link side).send acks)
  | .update side now pto =>
    let e := link side
    Function.update link side { e with keys := (quicConnUpdateKeys e.keys now pto).2 }
  | .deliver side index now pto reported =>
    match (link !side).sent[index]? with
    | none => link
    | some p => Function.update link side ((link side).receive p now pto reported)

/-- The generations an endpoint holds are neighbours, and its phase is the parity of the middle
one. -/
structure KeysSound (c : QuicAppKeys) : Prop where
  rx_eq : c.rx = c.tx
  rxNext_eq : c.rxNext = c.tx + 1
  rxPrev_eq : ∀ gen, c.rxPrev = some gen ↔ gen + 1 = c.tx
  phase_eq : c.keyPhase = decide (c.tx % 2 = 1)
  updates_eq : c.keyUpdates = c.tx % 2 ^ 32

/-- What was sent under earlier keys has lower packet numbers. -/
structure SentSound (tx first next : Nat) (sent : List QuicAppPacket) : Prop where
  /-- The current phase started at a number that was used or is next. -/
  first_le : first ≤ next
  pn_lt : ∀ p ∈ sent, p.pn < next
  gen_le : ∀ p ∈ sent, p.gen ≤ tx
  phase_eq : ∀ p ∈ sent, p.keyPhase = decide (p.gen % 2 = 1)
  /-- The packets of the current phase are those from its first number on. -/
  current : ∀ p ∈ sent, first ≤ p.pn ↔ p.gen = tx
  ordered : ∀ p ∈ sent, ∀ q ∈ sent, p.gen < q.gen → p.pn < q.pn

def OpenedGen (opened : List Nat) (sent : List QuicAppPacket) (gen : Nat) : Prop :=
  ∃ p ∈ sent, p.pn ∈ opened ∧ p.gen = gen

structure KeySees (me peer : KeyEnd) : Prop where
  opened_sent : ∀ pn ∈ me.opened, ∃ p ∈ peer.sent, p.pn = pn
  opened_gen : ∀ p ∈ peer.sent, p.pn ∈ me.opened → p.gen ≤ me.keys.tx
  /-- The first number of the phase is that of a packet of the current generation. -/
  first_sent : ∀ first, me.keys.rxPhaseFirst = some first →
    ∃ p ∈ peer.sent, p.pn = first ∧ p.gen = me.keys.tx
  /-- It is known once a packet of the current generation was opened. -/
  first_known : OpenedGen me.opened peer.sent me.keys.tx → me.keys.rxPhaseFirst ≠ none
  acks_opened : ∀ p ∈ me.sent, ∀ pn ∈ p.acks, pn ∈ me.opened
  /-- The peer answered a packet of the current phase only after opening one. -/
  acked : me.keys.keyPhaseAcked = true → OpenedGen peer.opened me.sent me.keys.tx
  behind : peer.keys.tx ≤ me.keys.tx + 1
  /-- Beyond the first update the peer goes ahead only once a packet of the current generation was
  opened here. -/
  ahead : peer.keys.tx = me.keys.tx + 1 →
    me.keys.tx = 0 ∨ OpenedGen me.opened peer.sent me.keys.tx

def KeyEnd.SentFits (e : KeyEnd) : Prop :=
  SentSound e.keys.tx e.keys.txPhaseFirst e.keys.next e.sent

structure KeyAgree (me peer : KeyEnd) : Prop where
  mine : KeysSound me.keys
  theirs : KeysSound peer.keys
  sent : me.SentFits
  received : peer.SentFits
  sees : KeySees me peer
  seen : KeySees peer me

theorem KeyAgree.symm {me peer : KeyEnd} (agree : KeyAgree me peer) : KeyAgree peer me :=
  ⟨agree.theirs, agree.mine, agree.received, agree.sent, agree.seen, agree.sees⟩

variable {sent : List QuicAppPacket} {p : QuicAppPacket} {opened : List Nat} {c : QuicAppKeys}
  {gen : Nat}

/-- A number belongs to packets of one generation only. -/
theorem SentSound.gen_unique {tx first next : Nat} (sound : SentSound tx first next sent)
    {q : QuicAppPacket} (p_mem : p ∈ sent) (q_mem : q ∈ sent) (same : p.pn = q.pn) :
    p.gen = q.gen := by
  rcases lt_trichotomy p.gen q.gen with earlier | same_gen | later
  · have := sound.ordered p p_mem q q_mem earlier
    omega
  · exact same_gen
  · have := sound.ordered q q_mem p p_mem later
    omega

theorem OpenedGen.cons (held : OpenedGen opened sent gen) (pn : Nat) :
    OpenedGen (pn :: opened) sent gen := by
  obtain ⟨p, p_mem, p_opened, gen_eq⟩ := held
  exact ⟨p, p_mem, List.mem_cons_of_mem pn p_opened, gen_eq⟩

theorem OpenedGen.more (held : OpenedGen opened sent gen) (later : List QuicAppPacket) :
    OpenedGen opened (sent ++ later) gen := by
  obtain ⟨p, p_mem, p_opened, gen_eq⟩ := held
  exact ⟨p, List.mem_append_left later p_mem, p_opened, gen_eq⟩

section Moves

variable {me peer : KeyEnd}

theorem KeyAgree.send (agree : KeyAgree me peer) (acks : List Nat) :
    KeyAgree (me.send acks) peer := by
  obtain ⟨mine, theirs, sent, received, sees, seen⟩ := agree
  have pn_lt := sent.pn_lt
  have unopened : me.keys.next ∉ peer.opened := by
    intro opened
    obtain ⟨p, p_mem, pn_eq⟩ := seen.opened_sent _ opened
    have := pn_lt p p_mem
    omega
  refine ⟨{ mine with }, theirs, ?_, received, ?_, ?_⟩
  · refine ⟨Nat.le_succ_of_le sent.first_le, ?_, ?_, ?_, ?_, ?_⟩
    · refine List.forall_mem_append.2 ⟨fun p p_mem => Nat.lt_succ_of_lt (pn_lt p p_mem), ?_⟩
      simp [KeyEnd.send]
    · exact List.forall_mem_append.2 ⟨sent.gen_le, by simp [KeyEnd.send]⟩
    · exact List.forall_mem_append.2 ⟨sent.phase_eq, by simpa using mine.phase_eq⟩
    · exact List.forall_mem_append.2 ⟨sent.current, by simpa [KeyEnd.send] using sent.first_le⟩
    · intro p p_mem q q_mem earlier
      rcases List.mem_append.1 p_mem with p_old | p_new
      · rcases List.mem_append.1 q_mem with q_old | q_new
        · exact sent.ordered p p_old q q_old earlier
        · rw [List.mem_singleton.1 q_new]
          exact pn_lt p p_old
      · rw [List.mem_singleton.1 p_new] at earlier
        rcases List.mem_append.1 q_mem with q_old | q_new
        · have := sent.gen_le q q_old
          simp only at earlier
          omega
        · rw [List.mem_singleton.1 q_new] at earlier
          exact absurd earlier (lt_irrefl _)
  · refine { sees with acks_opened := ?_, acked := fun acked => (sees.acked acked).more _ }
    refine List.forall_mem_append.2 ⟨sees.acks_opened, ?_⟩
    intro p p_mem pn pn_mem
    rw [List.mem_singleton.1 p_mem] at pn_mem
    exact of_decide_eq_true (List.mem_filter.1 pn_mem).2
  · refine ⟨?_, ?_, ?_, ?_, seen.acks_opened, seen.acked, seen.behind,
      fun is_ahead => (seen.ahead is_ahead).imp_right fun held => held.more _⟩
    · intro pn pn_mem
      obtain ⟨p, p_mem, pn_eq⟩ := seen.opened_sent pn pn_mem
      exact ⟨p, List.mem_append_left _ p_mem, pn_eq⟩
    · refine List.forall_mem_append.2 ⟨seen.opened_gen, ?_⟩
      intro p p_mem opened
      rw [List.mem_singleton.1 p_mem] at opened
      exact absurd opened unopened
    · intro first first_eq
      obtain ⟨p, p_mem, pn_eq, gen_eq⟩ := seen.first_sent first first_eq
      exact ⟨p, List.mem_append_left _ p_mem, pn_eq, gen_eq⟩
    · rintro ⟨p, p_mem, opened, gen_eq⟩
      rcases List.mem_append.1 p_mem with p_old | p_new
      · exact seen.first_known ⟨p, p_old, opened, gen_eq⟩
      · rw [List.mem_singleton.1 p_new] at opened
        exact absurd opened unopened

/-- The flags that have to do with the handshake do not matter. -/
theorem KeyAgree.setFlags (agree : KeyAgree me peer) (confirmed aborted : Bool) : KeyAgree { me with
      keys := { me.keys with handshakeConfirmed := confirmed, aborted := aborted } } peer := by
  obtain ⟨mine, theirs, sent, received, sees, seen⟩ := agree
  exact ⟨{ mine with }, theirs, sent, received, { sees with }, { seen with }⟩

theorem KeyAgree.opens (agree : KeyAgree me peer) (p_mem : p ∈ peer.sent)
    (gen_le : p.gen ≤ me.keys.tx) {first : Option Nat}
    (first_sent : ∀ pn, first = some pn → ∃ q ∈ peer.sent, q.pn = pn ∧ q.gen = me.keys.tx)
    (first_known : p.gen = me.keys.tx ∨ me.keys.rxPhaseFirst ≠ none → first ≠ none) :
    KeyAgree { me with
      keys := { me.keys with rxPhaseFirst := first }, opened := p.pn :: me.opened } peer := by
  obtain ⟨mine, theirs, sent, received, sees, seen⟩ := agree
  have gen_of_pn : ∀ q ∈ peer.sent, q.pn = p.pn → q.gen = p.gen := fun q q_mem same =>
    received.gen_unique q_mem p_mem same
  refine ⟨{ mine with }, theirs, sent, received, ⟨?_, ?_, first_sent, ?_, ?_, sees.acked,
      sees.behind, fun is_ahead => (sees.ahead is_ahead).imp_right fun held => held.cons _⟩,
    { seen with acked := fun acked => (seen.acked acked).cons _ }⟩
  · exact List.forall_mem_cons.2 ⟨⟨p, p_mem, rfl⟩, sees.opened_sent⟩
  · intro q q_mem opened
    rcases List.mem_cons.1 opened with same | earlier
    · rw [gen_of_pn q q_mem same]
      exact gen_le
    · exact sees.opened_gen q q_mem earlier
  · rintro ⟨q, q_mem, opened, gen_eq⟩
    refine first_known ?_
    rcases List.mem_cons.1 opened with same | earlier
    · exact .inl ((gen_of_pn q q_mem same).symm.trans gen_eq)
    · exact .inr (sees.first_known ⟨q, q_mem, earlier, gen_eq⟩)
  · intro q q_mem pn pn_mem
    exact List.mem_cons_of_mem _ (sees.acks_opened q q_mem pn pn_mem)

theorem KeysSound.keyUpdate (sound : KeysSound c) (pn : Option Nat) (now pto : Time) :
    KeysSound (keyUpdate c pn now pto) := by
  refine ⟨sound.rxNext_eq, ?_, fun gen => ?_, ?_, ?_⟩
  · change c.rxNext + 1 = c.tx + 1 + 1
    rw [sound.rxNext_eq]
  · change some c.rx = some gen ↔ gen + 1 = c.tx + 1
    rw [sound.rx_eq, Option.some.injEq]
    omega
  · change (!c.keyPhase) = decide ((c.tx + 1) % 2 = 1)
    rw [sound.phase_eq, ← decide_not, decide_eq_decide]
    omega
  · change (c.keyUpdates + 1) % 2 ^ 32 = (c.tx + 1) % 2 ^ 32
    rw [sound.updates_eq]
    omega

theorem SentSound.keyUpdate {tx first next : Nat}
    (sound : SentSound tx first next sent) : SentSound (tx + 1) next next sent := by
  refine ⟨le_rfl, sound.pn_lt, fun p p_mem => Nat.le_succ_of_le (sound.gen_le p p_mem),
    sound.phase_eq, fun p p_mem => ?_, sound.ordered⟩
  have pn_lt := sound.pn_lt p p_mem
  have gen_le := sound.gen_le p p_mem
  omega

/-- An endpoint starts an update: its first, or after the peer opened a packet of the current
generation. -/
theorem KeyAgree.starts (agree : KeyAgree me peer) (now pto : Time)
    (may : me.keys.tx = 0 ∨ OpenedGen peer.opened me.sent me.keys.tx) :
    KeyAgree { me with keys := keyUpdate me.keys none now pto } peer := by
  obtain ⟨mine, theirs, sent, received, sees, seen⟩ := agree
  have tx_eq : (keyUpdate me.keys none now pto).tx = me.keys.tx + 1 := rfl
  have caught_up : me.keys.tx ≤ peer.keys.tx := by
    rcases may with first | ⟨p, p_mem, opened, gen_eq⟩
    · omega
    · rw [← gen_eq]
      exact seen.opened_gen p p_mem opened
  have not_behind := sees.behind
  refine ⟨mine.keyUpdate none now pto, theirs, sent.keyUpdate, received,
    ⟨sees.opened_sent, fun p p_mem opened => Nat.le_succ_of_le (sees.opened_gen p p_mem opened),
      nofun, ?_, sees.acks_opened, nofun, ?_, ?_⟩,
    { seen with behind := ?_, ahead := ?_ }⟩
  · rintro ⟨p, p_mem, opened, gen_eq⟩
    have := sees.opened_gen p p_mem opened
    simp only at gen_eq
    omega
  · simp only
    omega
  · simp only
    omega
  · simp only
    omega
  · intro is_ahead
    simp only at is_ahead
    obtain same : peer.keys.tx = me.keys.tx := by omega
    rw [same]
    exact may

theorem KeyAgree.follows (agree : KeyAgree me peer) (p_mem : p ∈ peer.sent)
    (gen_eq : p.gen = me.keys.tx + 1) (now pto : Time) :
    KeyAgree { me with
      keys := keyUpdate me.keys (some p.pn) now pto, opened := p.pn :: me.opened } peer := by
  obtain ⟨mine, theirs, sent, received, sees, seen⟩ := agree
  have tx_eq : (keyUpdate me.keys (some p.pn) now pto).tx = me.keys.tx + 1 := rfl
  have peer_ahead := received.gen_le p p_mem
  have not_behind := sees.behind
  refine ⟨mine.keyUpdate _ now pto, theirs, sent.keyUpdate, received,
    ⟨?_, ?_, ?_, nofun, ?_, nofun, ?_, ?_⟩,
    { seen with acked := fun acked => (seen.acked acked).cons _, behind := ?_, ahead := ?_ }⟩
  · exact List.forall_mem_cons.2 ⟨⟨p, p_mem, rfl⟩, sees.opened_sent⟩
  · intro q q_mem opened
    rcases List.mem_cons.1 opened with same | earlier
    · exact ((received.gen_unique q_mem p_mem same).trans gen_eq).le
    · exact Nat.le_succ_of_le (sees.opened_gen q q_mem earlier)
  · rintro first ⟨⟩
    exact ⟨p, p_mem, rfl, gen_eq⟩
  · intro q q_mem pn pn_mem
    exact List.mem_cons_of_mem _ (sees.acks_opened q q_mem pn pn_mem)
  all_goals
    simp only
    omega

theorem KeyAgree.acked (agree : KeyAgree me peer) {pn : Nat} (opened : pn ∈ peer.opened) :
    KeyAgree { me with keys := connOnAcked me.keys pn } peer := by
  obtain ⟨mine, theirs, sent, received, sees, seen⟩ := agree
  unfold connOnAcked
  split_ifs with current
  · refine ⟨{ mine with }, theirs, sent, received, { sees with acked := fun _ => ?_ },
      { seen with }⟩
    obtain ⟨p, p_mem, rfl⟩ := seen.opened_sent pn opened
    exact ⟨p, p_mem, opened, (sent.current p p_mem).1 current⟩
  · exact ⟨mine, theirs, sent, received, sees, seen⟩

theorem KeyAgree.allAcked (agree : KeyAgree me peer) {pns : List Nat}
    (opened : ∀ pn ∈ pns, pn ∈ peer.opened) :
    KeyAgree { me with keys := pns.foldl connOnAcked me.keys } peer := by
  induction pns generalizing me with
  | nil => exact agree
  | cons pn pns ih =>
    obtain ⟨pn_opened, rest_opened⟩ := List.forall_mem_cons.1 opened
    exact ih (agree.acked pn_opened) rest_opened

end Moves

inductive Opening (c : QuicAppKeys) (p : QuicAppPacket) (now pto : Time) :
    Bool × QuicAppKeys → Prop
  | current {first : Option Nat} (gen_eq : p.gen = c.tx)
      (first_eq : first = some p.pn ∨ first = c.rxPhaseFirst) (first_known : first ≠ none) :
      Opening c p now pto (true, { c with rxPhaseFirst := first })
  | previous (gen_eq : p.gen + 1 = c.tx) : Opening c p now pto (true, c)
  | next (gen_eq : p.gen = c.tx + 1) : Opening c p now pto (true, keyUpdate c (some p.pn) now pto)
  | refused : Opening c p now pto (false, c)
  /-- It is of the next generation before the handshake is confirmed. -/
  | early : Opening c p now pto (false, { c with aborted := true })

theorem openApp_opening (sound : KeysSound c) (p : QuicAppPacket) (now pto : Time) :
    Opening c p now pto (openApp c p now pto) := by
  unfold openApp
  by_cases opened : quicPktOpen c.rx p = true
  · have gen_eq : p.gen = c.tx := (of_decide_eq_true opened).trans sound.rx_eq
    rw [if_pos opened]
    split_ifs with lowest
    · exact .current gen_eq (.inl rfl) nofun
    · refine .current gen_eq (.inr rfl) ?_
      intro unknown
      simp [unknown] at lowest
  · rw [if_neg opened]
    split_ifs with same_phase lookback not_next unconfirmed
    · exact .refused
    · by_cases prev : (c.rxPrev.any (quicPktOpen · p) && decide (now < c.rxPrevUntil)) = true
      · rw [prev]
        obtain ⟨gen, gen_eq, opens⟩ := (Option.any_eq_true _ _).1 (Bool.and_eq_true_iff.1 prev).1
        refine .previous ?_
        rw [of_decide_eq_true opens]
        exact (sound.rxPrev_eq gen).1 gen_eq
      · rw [Bool.not_eq_true] at prev
        rw [prev]
        exact .refused
    · exact .refused
    · exact .early
    · refine .next ?_
      rw [← sound.rxNext_eq]
      exact of_decide_eq_true (show quicPktOpen c.rxNext p = true by simpa using not_next)

theorem KeyAgree.receive {me peer : KeyEnd} (agree : KeyAgree me peer) (p_mem : p ∈ peer.sent)
    (now pto : Time) (reported : List Nat) :
    KeyAgree (me.receive p now pto reported) peer := by
  have opening := openApp_opening agree.mine p now pto
  have acks_opened : ∀ pn ∈ p.acks.filter (· ∈ reported), pn ∈ peer.opened := fun pn pn_mem =>
    agree.seen.acks_opened p p_mem pn (List.mem_filter.1 pn_mem).1
  unfold KeyEnd.receive
  generalize openApp me.keys p now pto = outcome at opening ⊢
  cases opening with
  | @current first gen_eq first_eq first_known =>
    refine (agree.opens p_mem gen_eq.le ?_ fun _ => first_known).allAcked acks_opened
    intro pn pn_eq
    rcases first_eq with is_pn | is_old
    · cases is_pn.symm.trans pn_eq
      exact ⟨p, p_mem, rfl, gen_eq⟩
    · exact agree.sees.first_sent pn (is_old.symm.trans pn_eq)
  | previous =>
    have older : ¬ p.gen = me.keys.tx := by omega
    have opened := agree.opens p_mem (by omega) agree.sees.first_sent
      (fun known => known.resolve_left older)
    exact opened.allAcked acks_opened
  | next gen_eq => exact (agree.follows p_mem gen_eq now pto).allAcked acks_opened
  | refused => exact agree
  | early => exact agree.setFlags _ _

/-- An endpoint that is asked for an update keeps the agreement, as long as its counter has not come
round to zero again. -/
theorem KeyAgree.update {me peer : KeyEnd} (agree : KeyAgree me peer)
    (few : me.keys.tx < 2 ^ 32) (now pto : Time) :
    KeyAgree { me with keys := (quicConnUpdateKeys me.keys now pto).2 } peer := by
  unfold quicConnUpdateKeys
  split_ifs with unconfirmed too_early
  · exact agree
  · exact agree
  · refine agree.starts now pto ?_
    have updates_eq := agree.mine.updates_eq
    by_cases first : me.keys.tx = 0
    · exact .inl first
    · refine .inr (agree.sees.acked ?_)
      by_contra not_acked
      exact too_early ⟨by omega, by simpa using not_acked⟩

end Cx.Quic
