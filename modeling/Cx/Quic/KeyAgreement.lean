import Cx.Library.Run
import Cx.Quic.KeyUpdate

/-!
# Agreement on keys

Runs of the two endpoints of a connection.  They stay within one generation of each other, and the
phase bit, the packet number and the keys at hand are enough to find the right generation.
-/

namespace Cx.Quic

open Library Function

inductive KeyMove (me peer : KeyEnd) : KeyEnd → Prop
  | confirm : KeyMove me peer { me with keys := { me.keys with handshakeConfirmed := true } }
  | send (acks : List Nat) : KeyMove me peer (me.send acks)
  | update (now pto : Time) :
      KeyMove me peer { me with keys := (quicConnUpdateKeys me.keys now pto).2 }
  | receive {p : QuicAppPacket} (p_mem : p ∈ peer.sent) (now pto : Time) (reported : List Nat) :
      KeyMove me peer (me.receive p now pto reported)

/-- A step is about one endpoint and leaves the other one as it is. -/
theorem keyStep_move (link : KeyLink) (op : KeyOp) :
    keyStep link op = link ∨ ∃ side e, keyStep link op = update link side e ∧
        KeyMove (link side) (link !side) e := by
  cases op with
  | confirm side => exact .inr ⟨side, _, rfl, .confirm⟩
  | send side acks => exact .inr ⟨side, _, rfl, .send acks⟩
  | update side now pto => exact .inr ⟨side, _, rfl, .update now pto⟩
  | deliver side index now pto reported =>
    cases found : (link !side).sent[index]? with
    | none =>
      refine .inl ?_
      simp only [keyStep, found]
    | some =>
      refine .inr ⟨side, _, ?_, .receive (List.mem_of_getElem? found) now pto reported⟩
      simp only [keyStep, found]

variable {link : KeyLink} {e : KeyEnd}

/-- A relation between an endpoint and its peer holds both ways after a step if it does after a move
of either of them. -/
theorem keyStep_both {Good : KeyEnd → KeyEnd → Prop} (op : KeyOp)
    (good : ∀ side, Good (link side) (link !side))
    (moved : ∀ side e, KeyMove (link side) (link !side) e → Good e (link !side) ∧
      Good (link !side) e) : ∀ side, Good (keyStep link op side) (keyStep link op !side) := by
  rcases keyStep_move link op with same | ⟨mover, e, updated, move⟩
  · rw [same]
    exact good
  · obtain ⟨mine, theirs⟩ := moved mover e move
    intro side
    rw [updated]
    rcases Bool.eq_or_eq_not side mover with rfl | rfl
    · rw [update_self, update_of_ne (by simp)]
      exact mine
    · rw [Bool.not_not, update_self, update_of_ne (by simp)]
      exact theirs

/-- Keys only move on, and what they keep of the previous generation changes only then. -/
structure KeysFollow (c later : QuicAppKeys) : Prop where
  tx_le : c.tx ≤ later.tx
  until_eq : later.tx = c.tx → later.rxPrevUntil = c.rxPrevUntil

variable (side : Bool) (c : QuicAppKeys)

theorem KeysFollow.refl : KeysFollow c c := ⟨le_rfl, fun _ => rfl⟩

theorem KeysFollow.trans {a b c : QuicAppKeys} (first : KeysFollow a b) (second : KeysFollow b c) :
    KeysFollow a c := by
  have first_le := first.tx_le
  have second_le := second.tx_le
  refine ⟨first_le.trans second_le, fun same => ?_⟩
  rw [second.until_eq (by omega), first.until_eq (by omega)]

theorem keysFollow_keyUpdate (pn : Option Nat) (now pto : Time) :
    KeysFollow c (keyUpdate c pn now pto) :=
  ⟨Nat.le_succ _, fun same => absurd same (Nat.succ_ne_self _)⟩

theorem foldl_connOnAcked (pns : List Nat) :
    ∃ acked, pns.foldl connOnAcked c = { c with keyPhaseAcked := acked } := by
  induction pns generalizing c with
  | nil => exact ⟨c.keyPhaseAcked, rfl⟩
  | cons pn pns ih =>
    rw [List.foldl_cons]
    unfold connOnAcked
    split_ifs with current
    · exact ih { c with keyPhaseAcked := true }
    · exact ih c

/-- What an endpoint knows on its own, however often the counter came round. -/
structure KeyTrace (me peer : KeyEnd) : Prop where
  sound : KeysSound me.keys
  phase_eq : ∀ p ∈ me.sent, p.keyPhase = decide (p.gen % 2 = 1)
  /-- The first number of the phase is that of a packet opened under the current keys. -/
  first_opened : ∀ first, me.keys.rxPhaseFirst = some first →
    ∃ p ∈ peer.sent, p.pn = first ∧ first ∈ me.opened ∧ p.gen = me.keys.rx

variable {c : QuicAppKeys}

theorem KeysSound.refocus (sound : KeysSound c) (first : Option Nat)
    (acked : Bool) : KeysSound { c with rxPhaseFirst := first, keyPhaseAcked := acked } :=
  { sound with }

variable {me peer : KeyEnd}

theorem KeyTrace.move (trace : KeyTrace me peer) (move : KeyMove me peer e) :
    KeysFollow me.keys e.keys ∧ KeyTrace e peer := by
  obtain ⟨sound, phase_eq, first_opened⟩ := trace
  cases move with
  | confirm =>
    exact ⟨⟨le_rfl, fun _ => rfl⟩, { sound with }, phase_eq, first_opened⟩
  | send =>
    refine ⟨⟨le_rfl, fun _ => rfl⟩, { sound with }, ?_, first_opened⟩
    exact List.forall_mem_append.2 ⟨phase_eq, by simpa using sound.phase_eq⟩
  | update now pto =>
    unfold quicConnUpdateKeys
    split_ifs with unconfirmed too_early
    · exact ⟨.refl _, sound, phase_eq, first_opened⟩
    · exact ⟨.refl _, sound, phase_eq, first_opened⟩
    · exact ⟨keysFollow_keyUpdate _ none now pto, sound.keyUpdate none now pto, phase_eq, nofun⟩
  | @receive p p_mem now pto reported =>
    have opening := openApp_opening sound p now pto
    have opened_more : ∀ first, me.keys.rxPhaseFirst = some first →
        ∃ q ∈ peer.sent, q.pn = first ∧ first ∈ p.pn :: me.opened ∧ q.gen = me.keys.rx := by
      intro first first_eq
      obtain ⟨q, q_mem, pn_eq, opened, gen_eq⟩ := first_opened first first_eq
      exact ⟨q, q_mem, pn_eq, List.mem_cons_of_mem _ opened, gen_eq⟩
    unfold KeyEnd.receive
    generalize openApp me.keys p now pto = outcome at opening ⊢
    cases opening with
    | @current first gen_eq first_eq =>
      obtain ⟨acked, folded⟩ := foldl_connOnAcked { me.keys with rxPhaseFirst := first }
        (p.acks.filter (· ∈ reported))
      simp only [folded]
      refine ⟨⟨le_rfl, fun _ => rfl⟩, sound.refocus first acked, phase_eq, ?_⟩
      rcases first_eq with rfl | rfl
      · rintro _ ⟨⟩
        exact ⟨p, p_mem, rfl, List.mem_cons_self, gen_eq.trans sound.rx_eq.symm⟩
      · exact opened_more
    | previous =>
      obtain ⟨acked, folded⟩ := foldl_connOnAcked me.keys (p.acks.filter (· ∈ reported))
      simp only [folded]
      exact ⟨⟨le_rfl, fun _ => rfl⟩, sound.refocus _ acked, phase_eq, opened_more⟩
    | next gen_eq =>
      obtain ⟨acked, folded⟩ := foldl_connOnAcked (keyUpdate me.keys (some p.pn) now pto)
        (p.acks.filter (· ∈ reported))
      have followed := keysFollow_keyUpdate me.keys (some p.pn) now pto
      simp only [folded]
      refine ⟨⟨followed.tx_le, followed.until_eq⟩,
        (sound.keyUpdate (some p.pn) now pto).refocus _ acked, phase_eq, ?_⟩
      rintro _ ⟨⟩
      exact ⟨p, p_mem, rfl, List.mem_cons_self, gen_eq.trans sound.rxNext_eq.symm⟩
    | refused => exact ⟨.refl _, sound, phase_eq, first_opened⟩
    | early =>
      exact ⟨⟨le_rfl, fun _ => rfl⟩, { sound with }, phase_eq, first_opened⟩

/-- A move of the peer only adds to what it sent. -/
theorem KeyMove.sent_subset (move : KeyMove me peer e) : ∀ p ∈ me.sent, p ∈ e.sent := by
  intro p p_mem
  cases move with
  | confirm => exact p_mem
  | send => exact List.mem_append_left _ p_mem
  | update => exact p_mem
  | receive =>
    unfold KeyEnd.receive
    split
    · exact p_mem
    · exact p_mem

theorem KeyTrace.peerMoves (trace : KeyTrace me peer)
    (move : KeyMove peer me e) : KeyTrace me e := by
  refine ⟨trace.sound, trace.phase_eq, fun first first_eq => ?_⟩
  obtain ⟨p, p_mem, pn_eq, opened, gen_eq⟩ := trace.first_opened first first_eq
  exact ⟨p, move.sent_subset p p_mem, pn_eq, opened, gen_eq⟩

theorem keyTrace_step (trace : ∀ side, KeyTrace (link side) (link !side)) (op : KeyOp) :
    ∀ side, KeyTrace (keyStep link op side) (keyStep link op !side) := by
  refine keyStep_both op trace fun side e move => ⟨((trace side).move move).2, ?_⟩
  have theirs := trace !side
  rw [Bool.not_not] at theirs
  exact theirs.peerMoves move

theorem keysFollow_step (trace : ∀ side, KeyTrace (link side) (link !side)) (op : KeyOp)
    (side : Bool) : KeysFollow (link side).keys (keyStep link op side).keys := by
  rcases keyStep_move link op with same | ⟨mover, e, updated, move⟩
  · rw [same]
    exact .refl _
  · rw [updated]
    rcases eq_or_ne side mover with rfl | other
    · rw [update_self]
      exact ((trace side).move move).1
    · rw [update_of_ne other]
      exact .refl _

theorem keyTrace_init : KeyTrace (keyLinkInit side) (keyLinkInit !side) :=
  ⟨⟨rfl, rfl, fun _ => ⟨nofun, nofun⟩, rfl, rfl⟩, nofun, nofun⟩

theorem keyTrace_run (trace : ∀ side, KeyTrace (link side) (link !side)) (ops : List KeyOp) :
    ∀ side, KeyTrace (run keyStep link ops side) (run keyStep link ops !side) :=
  run_invariant (fun state : KeyLink => ∀ side, KeyTrace (state side) (state !side)) trace
    (fun _ op before => keyTrace_step before op) ops

/-- The keys of an endpoint only move on in a run. -/
theorem keysFollow_run (trace : ∀ side, KeyTrace (link side) (link !side)) (ops : List KeyOp)
    (side : Bool) : KeysFollow (link side).keys (run keyStep link ops side).keys := by
  induction ops generalizing link with
  | nil => exact .refl _
  | cons op ops ih => exact (keysFollow_step trace op side).trans (ih (keyTrace_step trace op))

theorem KeyAgree.move (agree : KeyAgree me peer) (few : me.keys.tx < 2 ^ 32)
    (move : KeyMove me peer e) : KeyAgree e peer := by
  cases move with
  | confirm => exact agree.setFlags _ _
  | send acks => exact agree.send acks
  | update now pto => exact agree.update few now pto
  | receive p_mem now pto reported => exact agree.receive p_mem now pto reported

theorem keyAgree_init : KeyAgree (keyLinkInit side) (keyLinkInit !side) := by
  have sound : KeysSound quicAppKeysInit := ⟨rfl, rfl, fun _ => ⟨nofun, nofun⟩, rfl, rfl⟩
  have sent : SentSound 0 0 0 [] := ⟨le_rfl, nofun, nofun, nofun, nofun, nofun⟩
  have sees : KeySees ⟨quicAppKeysInit, [], []⟩ ⟨quicAppKeysInit, [], []⟩ :=
    ⟨nofun, nofun, nofun, nofun, nofun, nofun, Nat.zero_le _, nofun⟩
  exact ⟨sound, sound, sent, sent, sees, sees⟩

/-- Two endpoints of a connection agree in every run in which neither has gone through `2 ^ 32`
generations. -/
theorem keyAgree_run (ops : List KeyOp)
    (few : ∀ side, (run keyStep keyLinkInit ops side).keys.tx < 2 ^ 32) :
    ∀ side, KeyAgree (run keyStep keyLinkInit ops side) (run keyStep keyLinkInit ops !side) := by
  induction ops using List.reverseRecOn with
  | nil => exact keyAgree_init
  | append_singleton ops op ih =>
    have trace := keyTrace_run keyTrace_init ops
    rw [run_append, run_cons, run_nil] at few ⊢
    have few_before : ∀ side, (run keyStep keyLinkInit ops side).keys.tx < 2 ^ 32 := fun side =>
      (keysFollow_step trace op side).tx_le.trans_lt (few side)
    have agree := ih few_before
    refine keyStep_both op agree fun side e move => ?_
    have moved := (agree side).move (few_before side) move
    exact ⟨moved, moved.symm⟩

section Held

variable {me peer : KeyEnd} {p : QuicAppPacket}

/-- The phase bit tells neighbouring generations apart. -/
theorem KeysSound.phase_ne (sound : KeysSound c) (phase_eq : p.keyPhase = decide (p.gen % 2 = 1))
    (neighbour : p.gen + 1 = c.tx ∨ p.gen = c.tx + 1) : p.keyPhase ≠ c.keyPhase := by
  rw [phase_eq, sound.phase_eq, ne_eq, decide_eq_decide]
  omega

/-- A packet of the previous generation is below the current phase. -/
theorem KeyAgree.below (agree : KeyAgree me peer) (p_mem : p ∈ peer.sent)
    (gen_eq : p.gen + 1 = me.keys.tx) : me.keys.rxPhaseFirst.all (p.pn < ·) = true := by
  cases first_eq : me.keys.rxPhaseFirst with
  | none => rfl
  | some first =>
    obtain ⟨q, q_mem, rfl, q_gen⟩ := agree.sees.first_sent first first_eq
    exact decide_eq_true (agree.received.ordered p p_mem q q_mem (by omega))

/-- A packet of the next generation is above the current phase, which is known by then. -/
theorem KeyAgree.above (agree : KeyAgree me peer) (p_mem : p ∈ peer.sent)
    (gen_eq : p.gen = me.keys.tx + 1) (updated : me.keys.tx ≠ 0) :
    me.keys.rxPhaseFirst.all (p.pn < ·) = false := by
  have peer_ahead := agree.received.gen_le p p_mem
  have not_behind := agree.sees.behind
  have opened := (agree.sees.ahead (by omega)).resolve_left updated
  obtain ⟨first, first_eq⟩ := Option.ne_none_iff_exists'.1 (agree.sees.first_known opened)
  obtain ⟨q, q_mem, rfl, q_gen⟩ := agree.sees.first_sent first first_eq
  have := agree.received.ordered q q_mem p p_mem (by omega)
  rw [first_eq]
  exact decide_eq_false (by omega)

theorem openApp_current (now pto : Time) (gen_eq : p.gen = c.rx) :
    (openApp c p now pto).1 = true := by
  have opens : quicPktOpen c.rx p = true := decide_eq_true gen_eq
  unfold openApp
  rw [if_pos opens]

theorem KeyAgree.updates_pos (agree : KeyAgree me peer) (few : me.keys.tx < 2 ^ 32) :
    0 < me.keys.keyUpdates ↔ me.keys.tx ≠ 0 := by
  rw [agree.mine.updates_eq, Nat.mod_eq_of_lt few, Nat.pos_iff_ne_zero]

/-- A packet of the previous generation that is below the current phase is opened until its keys
expire, if the counter tells that there are any. -/
theorem KeysSound.openApp_previous (sound : KeysSound c)
    (phase_eq : p.keyPhase = decide (p.gen % 2 = 1)) (gen_eq : p.gen + 1 = c.tx)
    (below : c.rxPhaseFirst.all (p.pn < ·) = true) (now pto : Time) :
    openApp c p now pto = (decide (0 < c.keyUpdates ∧ now < c.rxPrevUntil), c) := by
  have not_rx : ¬ quicPktOpen c.rx p = true := by
    simp only [quicPktOpen, sound.rx_eq, decide_eq_true_eq]
    omega
  have not_next : quicPktOpen c.rxNext p = false := by
    simp only [quicPktOpen, sound.rxNext_eq, decide_eq_false_iff_not]
    omega
  have prev : c.rxPrev = some p.gen := (sound.rxPrev_eq p.gen).2 gen_eq
  unfold openApp
  rw [if_neg not_rx, if_neg (sound.phase_ne phase_eq (.inl gen_eq))]
  by_cases updated : c.keyUpdates > 0
  · rw [if_pos ⟨updated, below⟩, prev]
    simp [quicPktOpen, updated]
  · rw [if_neg (fun both => updated both.1), not_next]
    simp [updated]

theorem KeyAgree.openApp_next (agree : KeyAgree me peer) (few : me.keys.tx < 2 ^ 32)
    (p_mem : p ∈ peer.sent) (is_next : p.gen = me.keys.rxNext) {now pto : Time} :
    openApp me.keys p now pto =
      if me.keys.handshakeConfirmed then (true, keyUpdate me.keys (some p.pn) now pto)
      else (false, { me.keys with aborted := true }) := by
  have gen_eq : p.gen = me.keys.tx + 1 := is_next.trans agree.mine.rxNext_eq
  have not_rx : ¬ quicPktOpen me.keys.rx p = true := by
    simp only [quicPktOpen, agree.mine.rx_eq, decide_eq_true_eq]
    omega
  have other_phase := agree.mine.phase_ne (agree.received.phase_eq p p_mem) (.inr gen_eq)
  have not_below : ¬ (me.keys.keyUpdates > 0 ∧ me.keys.rxPhaseFirst.all (p.pn < ·) = true) := by
    rintro ⟨updated, below⟩
    rw [agree.above p_mem gen_eq ((agree.updates_pos few).1 updated)] at below
    exact absurd below Bool.false_ne_true
  unfold openApp
  rw [if_neg not_rx, if_neg other_phase, if_neg not_below]
  simp only [quicPktOpen, is_next, decide_true, Bool.not_true, Bool.false_eq_true, if_false]
  cases me.keys.handshakeConfirmed <;> rfl

end Held

/-- Two endpoints never differ by more than one generation, and each of them opens every packet of
the other whose keys it holds: those of the current generation, of the previous one until it expires
and, once its own handshake is confirmed, of the next one.  Before that a packet of the next
generation ends the connection. -/
theorem key_update_agreement (ops : List KeyOp)
    (few : ∀ side, (run keyStep keyLinkInit ops side).keys.tx < 2 ^ 32) (side : Bool) :
    let me := (run keyStep keyLinkInit ops side).keys
    let peer := run keyStep keyLinkInit ops !side
    me.tx ≤ peer.keys.tx + 1 ∧ peer.keys.tx ≤ me.tx + 1 ∧ ∀ p ∈ peer.sent, ∀ now pto,
        (p.gen = me.rx → (openApp me p now pto).1 = true) ∧
        (me.rxPrev = some p.gen ∧ now < me.rxPrevUntil → openApp me p now pto = (true, me)) ∧
        (p.gen = me.rxNext ∧ me.handshakeConfirmed = true →
          openApp me p now pto = (true, keyUpdate me (some p.pn) now pto)) ∧
        (p.gen = me.rxNext ∧ me.handshakeConfirmed = false →
          openApp me p now pto = (false, { me with aborted := true })) := by
  have agree := keyAgree_run ops few side
  have few_here := few side
  intro me peer
  refine ⟨agree.seen.behind, agree.sees.behind, fun p p_mem now pto => ⟨?_, ?_, ?_, ?_⟩⟩
  · exact openApp_current now pto
  · rintro ⟨prev, unexpired⟩
    have gen_eq := (agree.mine.rxPrev_eq p.gen).1 prev
    have updated := (agree.updates_pos few_here).2 (by omega)
    rw [agree.mine.openApp_previous (agree.received.phase_eq p p_mem) gen_eq
      (agree.below p_mem gen_eq) now pto, decide_eq_true ⟨updated, unexpired⟩]
  · rintro ⟨is_next, confirmed⟩
    exact (agree.openApp_next few_here p_mem is_next).trans (if_pos confirmed)
  · rintro ⟨is_next, unconfirmed⟩
    exact (agree.openApp_next few_here p_mem is_next).trans (if_neg (by simp [me, unconfirmed]))

/-- The server updates its keys, hears that the client followed and updates them again; the client,
one generation behind, opens what it is sent. -/
theorem key_update_agreement_ahead :
    let ops : List KeyOp :=
      [.confirm true, .confirm false, .update true 0 10, .send true [], .deliver false 0 1 10 [],
        .send false [0], .deliver true 0 2 10 [0], .send true [], .update true 3 10, .send true []]
    (run keyStep keyLinkInit ops true).keys.tx = 2 ∧
      (run keyStep keyLinkInit ops false).keys.tx = 1 ∧
      ∀ p ∈ (run keyStep keyLinkInit ops true).sent, p.gen = 2 →
        (openApp (run keyStep keyLinkInit ops false).keys p 4 10).1 = true := by
  refine ⟨by decide, by decide, fun p p_mem gen_eq => ?_⟩
  have opens := (key_update_agreement
    [.confirm true, .confirm false, .update true 0 10, .send true [], .deliver false 0 1 10 [],
      .send false [0], .deliver true 0 2 10 [0], .send true [], .update true 3 10, .send true []]
    (by decide) false).2.2 p p_mem 4 10
  rw [opens.2.2.1 ⟨gen_eq.trans (by decide), by decide⟩]

/-- A server may update its keys before its client has learned that the handshake is confirmed.  The
client holds the new generation and ends the connection all the same. -/
theorem early_update_refused :
    let link := run keyStep keyLinkInit [.confirm true, .update true 0 10, .send true []]
    ∃ p ∈ (link true).sent, p.gen = (link false).keys.rxNext ∧
      openApp (link false).keys p 1 10 = (false, { (link false).keys with aborted := true }) := by
  refine ⟨⟨1, true, 0, []⟩, ?_⟩
  decide

/-- After a key update of its own, and until it opens a packet under the new keys, an endpoint opens
what its peer sealed under the previous ones for three probe timeouts from the start of the update,
unless the counter of updates has come round to zero. -/
theorem old_keys_open_iff (front back : List KeyOp) (side : Bool) (start startPto : Time)
    {before link : KeyLink} (before_eq : before = run keyStep keyLinkInit front)
    (started : (quicConnUpdateKeys (before side).keys start startPto).1 = true)
    (link_eq : link = run keyStep before (.update side start startPto :: back))
    (same_keys : (link side).keys.rx = (before side).keys.rx + 1)
    (unopened : ∀ q ∈ (link !side).sent, q.gen = (link side).keys.rx → q.pn ∉ (link side).opened)
    {p : QuicAppPacket} (p_mem : p ∈ (link !side).sent) (gen_eq : p.gen = (before side).keys.rx)
    (now pto : Time) :
    (openApp (link side).keys p now pto).1 = true ↔
      0 < (link side).keys.keyUpdates ∧ now < start + 3 * startPto := by
  have trace_before : ∀ side, KeyTrace (before side) (before !side) :=
    before_eq ▸ keyTrace_run keyTrace_init front
  have trace : ∀ side, KeyTrace (link side) (link !side) :=
    link_eq ▸ keyTrace_run trace_before _
  have sound := (trace side).sound
  have tx_eq : (link side).keys.tx = (before side).keys.tx + 1 := by
    rw [← sound.rx_eq, same_keys, (trace_before side).sound.rx_eq]
  have until_eq : (link side).keys.rxPrevUntil = start + 3 * startPto := by
    have updated : (keyStep before (.update side start startPto) side).keys =
        keyUpdate (before side).keys none start startPto := by
      simp only [keyStep, update_self]
      unfold quicConnUpdateKeys at started ⊢
      split_ifs at started ⊢ with unconfirmed too_early
      rfl
    have follow :=
      keysFollow_run (keyTrace_step trace_before (.update side start startPto)) back side
    rw [← run_cons, ← link_eq, updated] at follow
    exact follow.until_eq tx_eq
  have first_none : (link side).keys.rxPhaseFirst = none := by
    by_contra known
    obtain ⟨first, first_eq⟩ := Option.ne_none_iff_exists'.1 known
    obtain ⟨q, q_mem, pn_eq, opened, q_gen⟩ := (trace side).first_opened first first_eq
    exact unopened q q_mem q_gen (pn_eq ▸ opened)
  have prev_gen : p.gen + 1 = (link side).keys.tx := by
    rw [gen_eq, tx_eq, (trace_before side).sound.rx_eq]
  rw [sound.openApp_previous ((trace !side).phase_eq p p_mem) prev_gen (by simp [first_none]) now
    pto,
    decide_eq_true_eq, until_eq]

/-- An endpoint updates its keys at time zero with a probe timeout of ten; the packet that its peer
sent before is opened one tick before the deadline. -/
theorem old_keys_open_in_time :
    let front : List KeyOp := [.confirm true, .send false []]
    let link := run keyStep (run keyStep keyLinkInit front) [.update true 0 10]
    (openApp (link true).keys ⟨0, false, 0, []⟩ 29 10).1 = true :=
  (old_keys_open_iff [.confirm true, .send false []] [] true 0 10 rfl (by decide) rfl (by decide)
    (by decide) (p := ⟨0, false, 0, []⟩) (by decide) (by decide) 29 10).2 (by decide)

/-- The same packet at the deadline is refused, though the peer cannot have used any other keys. -/
theorem old_keys_expire :
    let link := run keyStep keyLinkInit [.confirm true, .send false [], .update true 0 10]
    (link true).keys.tx = 1 ∧ (link true).opened = [] ∧ (link false).keys.tx = 0 ∧
      ∃ p ∈ (link false).sent, p.gen = 0 ∧ (openApp (link true).keys p 30 10).1 = false := by
  refine ⟨by decide, by decide, by decide, ⟨0, false, 0, []⟩, by decide⟩

end Cx.Quic
