import Cx.Quic.ConnTurn

/-!
# The connection IDs of the peer

The IDs in the table are always distinct and none is below what the peer took back.  The one packets
are addressed to is among them as long as no frame that repeats a known sequence number takes more
back than those before it.  What is given up has to be announced until the peer acknowledges it; the
queue for that has as many places as the table.
-/

namespace Cx.Quic

open Library List

variable (cfg : QuicConnConfig) {relabel : QuicRemoteCid → QuicRemoteCid} {entry : QuicRemoteCid}
  {packets : List SentPacket} {retirePrior : Nat} {source : Option NetAddr} {dest : NetAddr}

/-! ### The table -/

/-- The sequence numbers and retire_prior_to values of the NEW_CONNECTION_ID frames so far, newest
first. -/
def idFrames (log : List ConnEvent) : List (Nat × Nat) :=
  log.filterMap fun
    | .newConnId seq retirePrior => some (seq, retirePrior)
    | _ => none

def largestPrior : List (Nat × Nat) → Nat
  | [] => 0
  | frame :: earlier => max frame.2 (largestPrior earlier)

/-- No frame that repeats a sequence number raises retire_prior_to. -/
def RepeatsKeepPrior : List (Nat × Nat) → Prop
  | [] => True
  | frame :: earlier =>
    ((∃ known ∈ earlier, known.1 = frame.1) → frame.2 ≤ largestPrior earlier) ∧
      RepeatsKeepPrior earlier

instance RepeatsKeepPrior.decidable : (frames : List (Nat × Nat)) →
    Decidable (RepeatsKeepPrior frames)
  | [] => .isTrue trivial
  | _ :: earlier =>
    have : Decidable (RepeatsKeepPrior earlier) := RepeatsKeepPrior.decidable earlier
    inferInstanceAs (Decidable (_ ∧ _))

/-- What always holds of the table of the peer's connection IDs. -/
structure RemoteSlots (remote : List QuicRemoteCid) (prior : Nat) (frames : List (Nat × Nat)) :
    Prop where
  prior_eq : prior = largestPrior frames
  issued : ∀ entry ∈ remote, entry.live = true → entry.seq = 0 ∨ ∃ frame ∈ frames, frame.1 =
    entry.seq
  distinct : ∀ (i j : Nat) (a b : QuicRemoteCid), remote[i]? = some a → remote[j]? = some b →
    a.live = true → b.live = true → a.seq = b.seq → i = j
  prior_le : ∀ entry ∈ remote, entry.live = true → prior ≤ entry.seq

def Addressed (state : QuicConnState) (remote : List QuicRemoteCid) (active : Nat)
    (frames : List (Nat × Nat)) : Prop :=
  state.Open → RepeatsKeepPrior frames → (remote.getD active QuicRemoteCid.zero).live = true

section Slots

variable {remote : List QuicRemoteCid} {prior : Nat} {frames : List (Nat × Nat)}

/-- A table whose live entries were in another table at the same places. -/
theorem RemoteSlots.of_origin (slots : RemoteSlots remote prior frames)
    {remote' : List QuicRemoteCid} {prior' : Nat} {frames' : List (Nat × Nat)}
    (prior_eq : prior' = largestPrior frames') (more : frames ⊆ frames')
    (origin : ∀ (i : Nat) (a : QuicRemoteCid), remote'[i]? = some a → a.live = true →
      ∃ old : QuicRemoteCid, remote[i]? = some old ∧ old.live = true ∧ a.seq = old.seq ∧
        prior' ≤ a.seq) :
    RemoteSlots remote' prior' frames' := by
  refine ⟨prior_eq, ?_, ?_, ?_⟩
  · intro a here live
    obtain ⟨i, found⟩ := mem_iff_getElem?.1 here
    obtain ⟨old, old_found, old_live, seq_eq, -⟩ := origin i a found live
    rw [seq_eq]
    exact (slots.issued old (mem_of_getElem? old_found) old_live).imp_right
      fun ⟨frame, earlier, same⟩ => ⟨frame, more earlier, same⟩
  · intro i j a b at_i at_j live_a live_b same
    obtain ⟨old_a, found_a, old_live_a, seq_a, -⟩ := origin i a at_i live_a
    obtain ⟨old_b, found_b, old_live_b, seq_b, -⟩ := origin j b at_j live_b
    exact slots.distinct i j old_a old_b found_a found_b old_live_a old_live_b
      (seq_a ▸ seq_b ▸ same)
  · intro a here live
    obtain ⟨i, found⟩ := mem_iff_getElem?.1 here
    obtain ⟨-, -, -, -, above⟩ := origin i a found live
    exact above

theorem RemoteSlots.modify (slots : RemoteSlots remote prior frames) (slot : Nat)
    (kept : ∀ entry, (relabel entry).live = entry.live ∧ (relabel entry).seq = entry.seq) :
    RemoteSlots (remote.modify slot relabel) prior frames := by
  refine slots.of_origin slots.prior_eq (Subset.refl _) fun i a here live => ?_
  rw [List.getElem?_modify] at here
  obtain ⟨old, found, rfl⟩ := Option.map_eq_some_iff.1 here
  have above := slots.prior_le old (mem_of_getElem? found)
  split_ifs at live ⊢
  · rw [(kept old).1] at live
    rw [(kept old).2]
    exact ⟨old, found, live, rfl, above live⟩
  · exact ⟨old, found, live, rfl, above live⟩

theorem live_modify (remote : List QuicRemoteCid) (slot active : Nat)
    (kept : ∀ entry, (relabel entry).live = entry.live ∧ (relabel entry).seq = entry.seq) :
    ((remote.modify slot relabel).getD active QuicRemoteCid.zero).live =
      (remote.getD active QuicRemoteCid.zero).live := by
  rw [getD_eq_getElem?_getD, getD_eq_getElem?_getD, List.getElem?_modify]
  cases remote[active]? with
  | none => rfl
  | some entry =>
    simp only [Option.getD_some]
    split
    · exact (kept entry).1
    · rfl

theorem RemoteSlots.keep (slots : RemoteSlots remote prior frames) (seq : Nat)
    (kept : retirePrior ≤ prior) : RemoteSlots remote prior ((seq, retirePrior) :: frames) := by
  refine slots.of_origin ?_ (subset_cons_self _ _) fun i a here live =>
    ⟨a, here, live, rfl, slots.prior_le a (mem_of_getElem? here) live⟩
  rw [slots.prior_eq] at kept ⊢
  exact (max_eq_right kept).symm

/-- An entry of the table once IDs below a value were taken back. -/
def retireEntry (retirePrior : Nat) (entry : QuicRemoteCid) : QuicRemoteCid :=
  if !entry.live ∨ entry.seq ≥ retirePrior then entry else QuicRemoteCid.zero

theorem live_retireEntry (live : (retireEntry retirePrior entry).live = true) :
    retireEntry retirePrior entry = entry ∧ retirePrior ≤ entry.seq := by
  unfold retireEntry at live ⊢
  split at live
  · next kept =>
      rw [if_pos kept]
      refine ⟨rfl, kept.resolve_left ?_⟩
      simp [live]
  · cases live

theorem RemoteSlots.retire (slots : RemoteSlots remote prior frames) (seq : Nat)
    (raised : prior < retirePrior) :
    RemoteSlots (remote.map (retireEntry retirePrior)) retirePrior
      ((seq, retirePrior) :: frames) := by
  refine slots.of_origin ?_ (subset_cons_self _ _) fun i a here live => ?_
  · rw [slots.prior_eq] at raised
    exact (max_eq_left raised.le).symm
  · rw [List.getElem?_map] at here
    obtain ⟨old, found, rfl⟩ := Option.map_eq_some_iff.1 here
    obtain ⟨same, above⟩ := live_retireEntry live
    rw [same] at live ⊢
    exact ⟨old, found, live, rfl, above⟩

theorem RemoteSlots.store (slots : RemoteSlots remote prior frames) {slot : Nat}
    (new : ∀ old ∈ remote, old.live = true → old.seq ≠ entry.seq)
    (came : ∃ frame ∈ frames, frame.1 = entry.seq) (above : prior ≤ entry.seq) :
    RemoteSlots (remote.set slot entry) prior frames := by
  refine ⟨slots.prior_eq, ?_, ?_, ?_⟩
  · intro other here live
    rcases mem_or_eq_of_mem_set here with earlier | rfl
    · exact slots.issued other earlier live
    · exact .inr came
  · intro i j a b at_i at_j live_a live_b same_seq
    rw [List.getElem?_set] at at_i at_j
    split_ifs at at_i at_j with here_i in_i here_j in_j
    · rw [← here_i, ← here_j]
    · cases at_i
      exact absurd same_seq.symm (new b (mem_of_getElem? at_j) live_b)
    · cases at_j
      exact absurd same_seq (new a (mem_of_getElem? at_i) live_a)
    · exact slots.distinct i j a b at_i at_j live_a live_b same_seq
  · intro other here live
    rcases mem_or_eq_of_mem_set here with earlier | rfl
    · exact slots.prior_le other earlier live
    · exact above

end Slots

namespace Conn

def Tabled (c : QuicConnOwn) : Prop :=
  RemoteSlots c.remote c.remoteRetirePrior (idFrames c.log) ∧
    Addressed c.state c.remote c.remoteActive (idFrames c.log)

theorem idFrames_cidQueueRetire (c : QuicConnOwn) (seq : Nat) :
    idFrames (cidQueueRetire c seq).log = idFrames c.log := by
  unfold cidQueueRetire
  dsimp only
  split_ifs <;> rfl

theorem remoteRetire_spec (prior : Nat) (remote : List QuicRemoteCid) (c : QuicConnOwn) :
    (remoteRetire prior remote c).1 = remote.map (retireEntry prior) ∧
      idFrames (remoteRetire prior remote c).2.log = idFrames c.log := by
  induction remote generalizing c with
  | nil => exact ⟨rfl, rfl⟩
  | cons entry rest ih =>
    rw [remoteRetire, map_cons, retireEntry]
    split
    · exact ⟨congrArg (entry :: ·) (ih c).1, (ih c).2⟩
    · obtain ⟨entries_eq, frames_eq⟩ := ih (cidQueueRetire c entry.seq)
      exact ⟨congrArg (QuicRemoteCid.zero :: ·) entries_eq,
        frames_eq.trans (idFrames_cidQueueRetire c entry.seq)⟩

theorem mem_of_live {remote : List QuicRemoteCid} {active : Nat}
    (live : (remote.getD active QuicRemoteCid.zero).live = true) :
    remote.getD active QuicRemoteCid.zero ∈ remote := by
  rw [getD_eq_getElem?_getD] at live ⊢
  cases found : remote[active]? with
  | none =>
    rw [found] at live
    cases live
  | some => exact mem_of_getElem? found

variable {c : QuicConnOwn}

/-- A table that is not empty has an ID to address packets to. -/
theorem live_remoteReplace (here : entry ∈ c.remote) (live : entry.live = true) :
    (remoteCid (remoteReplace c)).live = true := by
  unfold remoteReplace
  split
  · next still => exact still
  · split
    · next missing =>
        rw [List.findIdx?_eq_none_iff] at missing
        simp [missing entry here] at live
    · next index found =>
        rw [List.findIdx?_eq_some_iff_getElem] at found
        obtain ⟨in_range, found_live, -⟩ := found
        simpa [remoteCid, getD_eq_getElem?_getD, List.getElem?_eq_getElem in_range] using found_live

theorem tabled_quicConnAbort (slots : RemoteSlots c.remote c.remoteRetirePrior (idFrames c.log))
    (error frameType : Nat) : Tabled (quicConnAbort c error frameType) := by
  unfold quicConnAbort quicConnClose
  split
  · next ended => exact ⟨slots, fun live => absurd ended (QuicConnState.open_iff.1 live)⟩
  · exact ⟨slots, fun live => absurd live (by simp [QuicConnState.Open])⟩

/-- If there is an ID to address packets to, one is in use afterwards. -/
theorem tabled_remoteReplace (slots : RemoteSlots c.remote c.remoteRetirePrior (idFrames c.log))
    (some_live : c.state.Open → RepeatsKeepPrior (idFrames c.log) → ∃ entry ∈ c.remote, entry.live =
      true) : Tabled (remoteReplace c) := by
  have same : RemoteSlots (remoteReplace c).remote (remoteReplace c).remoteRetirePrior
      (idFrames (remoteReplace c).log) ∧ (remoteReplace c).state = c.state ∧
      (remoteReplace c).log = c.log := by
    unfold remoteReplace
    split
    · exact ⟨slots, rfl, rfl⟩
    · split <;> exact ⟨slots, rfl, rfl⟩
  obtain ⟨kept, state_eq, log_eq⟩ := same
  refine ⟨kept, fun live repeats => ?_⟩
  rw [state_eq] at live
  rw [log_eq] at repeats
  obtain ⟨entry, here, entry_live⟩ := some_live live repeats
  exact live_remoteReplace here entry_live

theorem tabled_cidQueueRetire (tabled : Tabled c) (seq : Nat) : Tabled (cidQueueRetire c seq) := by
  unfold cidQueueRetire
  dsimp only
  split_ifs <;> exact tabled

/-- An ID that was not taken back is stored, unless it is known. -/
theorem tabled_remoteStore {frameType seq : Nat} {cid token : List UInt8}
    (slots : RemoteSlots c.remote c.remoteRetirePrior (idFrames c.log))
    (came : ∃ frame ∈ idFrames c.log, frame.1 = seq) (above : c.remoteRetirePrior ≤ seq)
    (known : ∀ entry ∈ c.remote, entry.live = true → entry.seq = seq →
      Addressed c.state c.remote c.remoteActive (idFrames c.log)) :
    Tabled (remoteStore c frameType seq cid token).2 := by
  unfold remoteStore
  split
  · next entry found =>
      have matched := List.find?_some found
      simp only [Bool.and_eq_true, decide_eq_true_eq] at matched
      split
      · exact tabled_quicConnAbort slots _ _
      · exact ⟨slots, known entry (mem_of_find?_eq_some found) matched.1 matched.2⟩
  · next missing =>
      rw [List.find?_eq_none] at missing
      split
      · exact tabled_quicConnAbort slots _ _
      · next slot free =>
          rw [List.findIdx?_eq_some_iff_getElem] at free
          obtain ⟨in_range, -, -⟩ := free
          have stored : RemoteSlots (c.remote.set slot ⟨cid, seq, some token, true⟩)
              c.remoteRetirePrior (idFrames c.log) := by
            refine slots.store ?_ came above
            intro old here live same
            exact missing old here (by simp [live, same])
          exact tabled_remoteReplace
            (c := { c with remote := c.remote.set slot ⟨cid, seq, some token, true⟩ }) stored
            fun _ _ => ⟨_, mem_set in_range _, rfl⟩

/-- The table after a NEW_CONNECTION_ID.  When it takes IDs back, the one in use may be among them;
it is replaced, unless the frame repeats a sequence number. -/
theorem handleNewConnId_tabled (tabled : Tabled c) (frameType seq retirePrior : Nat)
    (cid token : List UInt8) (ordered : retirePrior ≤ seq) :
    Tabled (handleNewConnId c frameType seq retirePrior cid token).2 := by
  obtain ⟨slots, addressed⟩ := tabled
  unfold handleNewConnId
  split
  · exact tabled_quicConnAbort slots _ _
  · dsimp only
    by_cases raised : retirePrior > c.remoteRetirePrior
    · let noted : QuicConnOwn := { c with log := .newConnId seq retirePrior :: c.log }
      obtain ⟨entries_eq, log_eq⟩ := remoteRetire_spec retirePrior c.remote noted
      have frames_eq : idFrames (remoteRetire retirePrior c.remote noted).2.log =
          (seq, retirePrior) :: idFrames c.log := log_eq
      have retired := slots.retire seq raised
      rw [← entries_eq, ← frames_eq] at retired
      rw [if_pos raised, if_neg (not_lt.2 ordered)]
      refine tabled_remoteStore retired ⟨(seq, retirePrior), ?_, rfl⟩ ordered ?_
      · change _ ∈ idFrames (remoteRetire retirePrior c.remote noted).2.log
        rw [frames_eq]
        exact mem_cons_self
      · intro entry here live seq_eq still repeats
        rw [frames_eq] at repeats
        rw [entries_eq] at here
        obtain ⟨old, old_here, rfl⟩ := mem_map.1 here
        obtain ⟨same, -⟩ := live_retireEntry live
        rw [same] at live seq_eq
        -- a known sequence number is that of an earlier frame, or zero
        rcases slots.issued old old_here live with first | ⟨frame, earlier, frame_eq⟩
        · omega
        · have kept := repeats.1 ⟨frame, earlier, frame_eq.trans seq_eq⟩
          rw [← slots.prior_eq] at kept
          omega
    · rw [if_neg raised]
      rw [gt_iff_lt, not_lt] at raised
      have kept := slots.keep seq raised
      have still : Addressed c.state c.remote c.remoteActive
          ((seq, retirePrior) :: idFrames c.log) :=
        fun live repeats => addressed live repeats.2
      split
      · have queued := tabled_cidQueueRetire
          (c := { c with log := .newConnId seq retirePrior :: c.log }) ⟨kept, still⟩ seq
        refine tabled_remoteReplace queued.1 fun live repeats => ?_
        have in_use := queued.2 live repeats
        exact ⟨_, mem_of_live in_use, in_use⟩
      · next above =>
          exact tabled_remoteStore kept ⟨_, mem_cons_self, rfl⟩ (not_lt.1 above)
            fun _ _ _ _ => still

end Conn

def ConnView.Tabled (v : ConnView) : Prop :=
  RemoteSlots v.remote v.remoteRetirePrior (idFrames v.log) ∧
    Addressed v.state v.remote v.remoteActive (idFrames v.log)

section Tabled

variable {v v' : ConnView}

theorem ConnView.Tabled.close (tabled : v.Tabled) {state : QuicConnState} (ended : ¬ state.Open) :
    ({ v with state := state } : ConnView).Tabled :=
  ⟨tabled.1, fun live => absurd live ended⟩

theorem tabled_connMove (move : ConnMove source v v') (tabled : v.Tabled) : v'.Tabled := by
  have closing : ¬ QuicConnState.closing.Open := by decide
  have draining : ¬ QuicConnState.draining.Open := by decide
  have closed : ¬ QuicConnState.closed.Open := by decide
  cases move with
  | size move => cases move <;> exact tabled
  | close => exact tabled.close closing
  | silentClose | forgotten => exact tabled.close closed
  | closeRead | closeReread => exact tabled.close draining
  | opened _ _ live => exact ⟨tabled.1, fun _ => tabled.2 live⟩
  | newConnId c frameType seq retirePrior cid token ordered =>
    exact Conn.handleNewConnId_tabled tabled frameType seq retirePrior cid token ordered
  | relabelled _ slot relabel kept =>
    refine ⟨tabled.1.modify slot kept, fun live repeats => ?_⟩
    rw [live_modify v.remote slot v.remoteActive kept]
    exact tabled.2 live repeats
  | activated _ slot live => exact ⟨tabled.1, fun _ _ => live⟩
  | acked | lost | parameters | accepted | issued | deadline | challenged | answered | confirmed
  | completed | handshakeRead => exact tabled

theorem tabled_sendMove (move : SendMove v v') (tabled : v.Tabled) : v'.Tabled := by
  cases move with
  | size move => cases move <;> exact tabled
  | flushed c c' cap size pn packets frames limit size_le written =>
    have kept : c'.view.Tabled := by
      rw [written.rest_eq]
      exact tabled
    have log_eq : c'.log = c.log := congrArg ConnView.log written.rest_eq
    change RemoteSlots c'.remote c'.remoteRetirePrior (idFrames c'.log) ∧
      Addressed c'.state c'.remote c'.remoteActive (idFrames c'.log) at kept
    rw [log_eq] at kept
    exact kept
  | probed | responded => exact tabled

end Tabled

theorem tabled_invariant : ViewInvariant ConnView.Tabled where
  move := tabled_connMove
  send := tabled_sendMove
  receive _ tabled := tabled
  counted _ tabled := tabled
  tested _ tabled := tabled
  switched _ tabled := tabled
  fallback _ _ tabled := tabled
  migrated tabled := tabled
  queued _ tabled := tabled

theorem tabled_create : (quicConnCreate cfg).view.Tabled := by
  have no_frames : idFrames (quicConnCreate cfg).log = [] := by
    change idFrames (if cfg.server ∧ cfg.origDcid.isSome then [.vouched cfg.peer] else []) = []
    split <;> rfl
  have only_first (i : Nat) (entry : QuicRemoteCid) (live : entry.live = true)
      (here : (quicConnCreate cfg).remote[i]? = some entry) : i = 0 ∧ entry.seq = 0 := by
    cases i with
    | zero =>
      cases here
      exact ⟨rfl, rfl⟩
    | succ i =>
      change (List.replicate (QUIC_MAX_CIDS - 1) QuicRemoteCid.zero)[i]? = some entry at here
      rw [List.getElem?_replicate] at here
      split_ifs at here
      cases here
      cases live
  refine ⟨?_, fun _ _ => rfl⟩
  change RemoteSlots (quicConnCreate cfg).remote 0 (idFrames (quicConnCreate cfg).log)
  rw [no_frames]
  refine ⟨rfl, ?_, ?_, fun _ _ _ => Nat.zero_le _⟩
  · intro entry here live
    obtain ⟨i, found⟩ := mem_iff_getElem?.1 here
    exact .inl (only_first i entry live found).2
  · intro i j a b at_i at_j live_a live_b _
    rw [(only_first i a live_a at_i).1, (only_first j b live_b at_j).1]

/-- In a connection that is open, packets are addressed to an ID of the table, the IDs are distinct
and none was taken back, as long as no frame that repeats a sequence number takes more back. -/
theorem remote_ids_in_use (cfg : QuicConnConfig) (calls : List ConnCall)
    (live : (run connStep (quicConnCreate cfg) calls).state.Open)
    (repeats : RepeatsKeepPrior (idFrames (run connStep (quicConnCreate cfg) calls).log)) :
    (Conn.remoteCid (run connStep (quicConnCreate cfg) calls).toQuicConnOwn).live = true ∧
      (∀ (i j : Nat) (a b : QuicRemoteCid),
        (run connStep (quicConnCreate cfg) calls).remote[i]? = some a →
        (run connStep (quicConnCreate cfg) calls).remote[j]? = some b →
        a.live = true → b.live = true → a.seq = b.seq → i = j) ∧
      ∀ entry ∈ (run connStep (quicConnCreate cfg) calls).remote, entry.live = true →
        (run connStep (quicConnCreate cfg) calls).remoteRetirePrior ≤ entry.seq := by
  have tabled : (run connStep (quicConnCreate cfg) calls).view.Tabled :=
    tabled_invariant.run (quicConnCreate cfg) (tabled_create cfg) calls
  exact ⟨tabled.2 live repeats, tabled.1.distinct, tabled.1.prior_le⟩

/-- The client issues two more IDs, and takes the first back with the second of them. -/
def replacingCalls : List ConnCall :=
  Scene.handshake [] ++
    [Scene.short 1 0 [.newConnId 1 0 (List.replicate 8 2) (List.replicate 16 2)] 80 3000,
      Scene.short 1 1 [.newConnId 2 1 (List.replicate 8 3) (List.replicate 16 3)] 80 4000]

theorem remote_ids_in_use_replaced :
    (Conn.remoteCid (run connStep (quicConnCreate (Scene.config quicTpDefaults))
      replacingCalls).toQuicConnOwn).live = true :=
  (remote_ids_in_use (Scene.config quicTpDefaults) replacingCalls (by decide +kernel)
    (by decide +kernel)).1

/-- The client issues one more ID, and repeats the frame to take the first back. -/
def repeatingCalls : List ConnCall :=
  Scene.handshake [] ++
    [Scene.short 1 0 [.newConnId 1 0 (List.replicate 8 2) (List.replicate 16 2)] 80 3000,
      Scene.short 1 1 [.newConnId 1 1 (List.replicate 8 2) (List.replicate 16 2)] 80 4000]

theorem remote_id_in_use_retired :
    (run connStep (quicConnCreate (Scene.config quicTpDefaults)) repeatingCalls).state =
        .connected ∧
      (Conn.remoteCid (run connStep (quicConnCreate (Scene.config quicTpDefaults))
        repeatingCalls).toQuicConnOwn).live = false := by
  decide +kernel

/-! ### What is given up is announced -/

/-- Whether a 1-RTT packet with a number announced that an ID is given up. -/
def retireCarried (pn seq : Nat) (log : List ConnEvent) : Bool :=
  log.any fun
    | .sent _ _ packets => packets.any fun packet =>
      packet.sp = .app && packet.pn = pn && packet.frames.contains (.retireConnId seq)
    | _ => false

/-- Whether, since an ID was given up last, a packet that announced it was acknowledged. -/
def retireConfirmed (seq : Nat) : List ConnEvent → Bool
  | [] => false
  | .acked pn :: log => retireCarried pn seq log || retireConfirmed seq log
  | .retired other :: log => other ≠ seq && retireConfirmed seq log
  | _ :: log => retireConfirmed seq log

/-- Whether there was room for every announcement. -/
def retireQueueFits (log : List ConnEvent) : Bool :=
  log.all fun
    | .retireDropped _ => false
    | _ => true

structure RetireQueue (queue : List QuicRetire) (log : List ConnEvent) : Prop where
  carried : ∀ entry ∈ queue, ∀ pn, entry.ctl = .sent pn → retireCarried pn entry.seq log = true
  owed : ∀ entry ∈ queue, entry.ctl ≠ .idle
  announced : retireQueueFits log = true → ∀ seq, .retired seq ∈ log →
    (∃ entry ∈ queue, entry.seq = seq) ∨ retireConfirmed seq log = true

section Queue

variable {queue : List QuicRetire} {log : List ConnEvent} {pn seq : Nat}

theorem retireCarried_cons (event : ConnEvent) (carried : retireCarried pn seq log = true) :
    retireCarried pn seq (event :: log) = true := by
  rw [retireCarried, any_cons, Bool.or_eq_true]
  exact .inr carried

theorem retireCarried_sent {size : Nat} {packet : SentPacket} (listed : packet ∈ packets)
    (app : packet.sp = .app) (numbered : packet.pn = pn)
    (written : .retireConnId seq ∈ packet.frames) :
    retireCarried pn seq (.sent dest size packets :: log) = true := by
  rw [retireCarried, any_cons, Bool.or_eq_true]
  refine .inl (any_eq_true.2 ⟨packet, listed, ?_⟩)
  simp [app, numbered, written]

def ConnEvent.aboutRetiring : ConnEvent → Bool
  | .acked _ | .retired _ | .retireDropped _ => true
  | _ => false

theorem RetireQueue.event (sound : RetireQueue queue log) {event : ConnEvent}
    (apart : event.aboutRetiring = false) : RetireQueue queue (event :: log) := by
  have fits_eq : retireQueueFits (event :: log) = retireQueueFits log := by
    cases event <;> first | rfl | cases apart
  have confirmed_eq (seq : Nat) : retireConfirmed seq (event :: log) = retireConfirmed seq log := by
    cases event <;> first | rfl | cases apart
  refine ⟨fun entry here pn sent => retireCarried_cons event (sound.carried entry here pn sent),
    sound.owed, fun fits seq given_up => ?_⟩
  rw [fits_eq] at fits
  rw [confirmed_eq]
  rcases mem_cons.1 given_up with rfl | earlier
  · cases apart
  · exact sound.announced fits seq earlier

theorem retireAcked_eq (pn : Nat) (queue : List QuicRetire) :
    Conn.retireAcked pn queue = queue.filter fun entry => entry.ctl ≠ .sent pn := by
  induction queue with
  | nil => rfl
  | cons entry rest ih =>
    rw [Conn.retireAcked, quicCtlAcked]
    by_cases carried : entry.ctl = .sent pn
    · rw [if_pos carried, filter_cons_of_neg (by simp [carried])]
      exact ih
    · rw [if_neg carried, filter_cons_of_pos (by simp [carried])]
      exact congrArg (entry :: ·) ih

theorem RetireQueue.acked (sound : RetireQueue queue log) (pn : Nat) :
    RetireQueue (Conn.retireAcked pn queue) (.acked pn :: log) := by
  rw [retireAcked_eq]
  refine ⟨?_, ?_, ?_⟩
  · intro entry here other sent
    exact retireCarried_cons _ (sound.carried entry (mem_of_mem_filter here) other sent)
  · exact fun entry here => sound.owed entry (mem_of_mem_filter here)
  · intro fits seq given_up
    have given_up : .retired seq ∈ log := by simpa using given_up
    rcases sound.announced fits seq given_up with ⟨entry, here, seq_eq⟩ | confirmed
    · by_cases sent : entry.ctl = .sent pn
      · have carried := sound.carried entry here pn sent
        rw [seq_eq] at carried
        exact .inr (by simp [retireConfirmed, carried])
      · exact .inl ⟨entry, mem_filter.2 ⟨here, by simpa using sent⟩, seq_eq⟩
    · exact .inr (by simp [retireConfirmed, confirmed])

theorem RetireQueue.lost (sound : RetireQueue queue log) (pn : Nat) :
    RetireQueue (queue.map fun entry => { entry with ctl := (quicCtlLost entry.ctl pn).2 })
      log := by
  refine ⟨?_, ?_, ?_⟩
  · intro entry here other sent
    obtain ⟨old, old_here, rfl⟩ := mem_map.1 here
    exact sound.carried old old_here other (quicCtlLost_eq_sent.1 sent).1
  · intro entry here
    obtain ⟨old, old_here, rfl⟩ := mem_map.1 here
    have owed := sound.owed old old_here
    dsimp only [quicCtlLost]
    split
    · simp
    · exact owed
  · intro fits seq given_up
    refine (sound.announced fits seq given_up).imp_left fun ⟨entry, here, seq_eq⟩ => ?_
    exact ⟨_, mem_map_of_mem here, seq_eq⟩

theorem exists_of_forall₂ {α β : Type*} {related : α → β → Prop} {xs : List α} {ys : List β}
    (all : List.Forall₂ related xs ys) {y : β} (here : y ∈ ys) : ∃ x ∈ xs, related x y := by
  induction all with
  | nil => cases here
  | cons first _ ih =>
    rcases mem_cons.1 here with rfl | later
    · exact ⟨_, mem_cons_self, first⟩
    · obtain ⟨x, x_here, step⟩ := ih later
      exact ⟨x, mem_cons_of_mem _ x_here, step⟩

theorem RetireQueue.sent (sound : RetireQueue queue log) {queue' : List QuicRetire} {pn size : Nat}
    {frames : List QuicFrame} (announced : List.Forall₂ (Announced pn frames) queue queue')
    (app : ∀ frame ∈ frames, ∃ packet ∈ packets, packet.sp = .app ∧ packet.pn = pn ∧
      packet.frames = frames) : RetireQueue queue' (.sent dest size packets :: log) := by
  have waiting : RetireQueue queue (.sent dest size packets :: log) := sound.event rfl
  refine ⟨?_, ?_, ?_⟩
  · intro entry here other sent
    obtain ⟨old, old_here, rfl | ⟨rfl, written⟩⟩ := exists_of_forall₂ announced here
    · exact waiting.carried _ old_here other sent
    · cases sent
      obtain ⟨packet, listed, in_app, numbered, frames_eq⟩ := app _ written
      exact retireCarried_sent listed in_app numbered (frames_eq ▸ written)
  · intro entry here
    obtain ⟨old, old_here, rfl | ⟨rfl, -⟩⟩ := exists_of_forall₂ announced here
    · exact sound.owed _ old_here
    · simp
  · intro fits seq given_up
    refine (waiting.announced fits seq given_up).imp_left fun ⟨old, here, seq_eq⟩ => ?_
    have back : List.Forall₂ (flip (Announced pn frames)) queue' queue := announced.flip
    obtain ⟨entry, entry_here, rfl | ⟨rfl, -⟩⟩ := exists_of_forall₂ back here
    · exact ⟨_, entry_here, seq_eq⟩
    · exact ⟨_, entry_here, seq_eq⟩

end Queue

namespace Conn

variable {c : QuicConnOwn}

theorem queue_cidQueueRetire (sound : RetireQueue c.retireQueue c.log) (seq : Nat) :
    RetireQueue (cidQueueRetire c seq).retireQueue (cidQueueRetire c seq).log := by
  have carried (more : List ConnEvent) (entry : QuicRetire) (here : entry ∈ c.retireQueue)
      (pn : Nat) (sent : entry.ctl = .sent pn) :
      retireCarried pn entry.seq (more ++ c.log) = true := by
    rw [retireCarried, any_append, Bool.or_eq_true]
    exact .inr (sound.carried entry here pn sent)
  have earlier (fits : retireQueueFits c.log = true) (other : Nat)
      (given_up : .retired other ∈ ConnEvent.retired seq :: c.log) : other = seq ∨
      (∃ entry ∈ c.retireQueue, entry.seq = other) ∨
        other ≠ seq ∧ retireConfirmed other c.log = true := by
    by_cases same : other = seq
    · exact .inl same
    · have given_up : .retired other ∈ c.log := by simpa [same] using given_up
      exact .inr ((sound.announced fits other given_up).imp_right fun confirmed =>
        ⟨same, confirmed⟩)
  have confirmed_of {other : Nat} (apart : other ≠ seq)
      (confirmed : retireConfirmed other c.log = true) :
      retireConfirmed other (.retired seq :: c.log) = true := by
    simp [retireConfirmed, confirmed, Ne.symm apart]
  unfold cidQueueRetire
  dsimp only
  split_ifs with waiting room
  · refine ⟨carried [.retired seq], sound.owed, fun fits other given_up => ?_⟩
    rcases earlier fits other given_up with rfl | still | ⟨apart, confirmed⟩
    · obtain ⟨entry, here, seq_eq⟩ := any_eq_true.1 waiting
      exact .inl ⟨entry, here, by simpa using seq_eq⟩
    · exact .inl still
    · exact .inr (confirmed_of apart confirmed)
  · refine ⟨forall_mem_append.2 ⟨carried [.retired seq], forall_mem_singleton.2 nofun⟩,
      forall_mem_append.2 ⟨sound.owed, forall_mem_singleton.2 (by simp [quicCtlQueue])⟩,
      fun fits other given_up => ?_⟩
    · rcases earlier fits other given_up with rfl | ⟨entry, here, seq_eq⟩ | ⟨apart, confirmed⟩
      · exact .inl ⟨_, mem_append_right _ (mem_singleton_self _), rfl⟩
      · exact .inl ⟨entry, mem_append_left _ here, seq_eq⟩
      · exact .inr (confirmed_of apart confirmed)
  · exact ⟨carried [.retireDropped seq, .retired seq], sound.owed, fun fits => by cases fits⟩

theorem queue_handleNewConnId (sound : RetireQueue c.retireQueue c.log)
    (frameType seq retirePrior : Nat) (cid token : List UInt8) :
    RetireQueue (handleNewConnId c frameType seq retirePrior cid token).2.retireQueue
      (handleNewConnId c frameType seq retirePrior cid token).2.log := by
  refine handleNewConnId_rule (fun own => RetireQueue own.retireQueue own.log)
    (fun own => RetireQueue own.retireQueue own.log) sound (sound.event rfl)
    (fun _ seq kept => queue_cidQueueRetire kept seq) (fun _ _ _ _ kept => kept)
    (fun _ kept => kept) (fun own error kept => ?_) cid token
  unfold quicConnAbort quicConnClose
  split
  · exact kept
  · exact kept.event rfl

end Conn

section Announced

variable {v v' : ConnView}

theorem queue_connMove (move : ConnMove source v v') (sound : RetireQueue v.retireQueue v.log) :
    RetireQueue v'.retireQueue v'.log := by
  cases move with
  | size move => cases move <;> exact sound
  | closeRead => exact (sound.event rfl).event rfl
  | acked _ pn => exact sound.acked pn
  | lost _ pn => exact sound.lost pn
  | newConnId c frameType seq retirePrior cid token =>
    exact Conn.queue_handleNewConnId sound frameType seq retirePrior cid token
  | forgotten | opened | relabelled | activated | deadline => exact sound
  | close | silentClose | closeReread | parameters | accepted | issued | challenged | answered
  | confirmed | completed | handshakeRead => exact sound.event rfl

theorem queue_sendMove (move : SendMove v v') (sound : RetireQueue v.retireQueue v.log) :
    RetireQueue v'.retireQueue v'.log := by
  cases move with
  | size move => cases move <;> exact sound
  | flushed c c' cap size pn packets frames limit size_le written app =>
    have queued : RetireQueue c.retireQueue c.log := sound
    exact queued.sent written.retires app
  | probed | responded => exact sound.event rfl

end Announced

theorem queue_invariant : ViewInvariant fun v => RetireQueue v.retireQueue v.log where
  move := queue_connMove
  send := queue_sendMove
  receive _ sound := sound.event rfl
  counted _ sound := sound
  tested _ sound := sound
  switched _ sound := sound.event rfl
  fallback _ _ sound := sound
  migrated sound := sound.event rfl
  queued _ sound := sound

theorem queue_create :
    RetireQueue (quicConnCreate cfg).retireQueue (quicConnCreate cfg).log := by
  have fresh : RetireQueue [] [] := ⟨by simp, by simp, by simp⟩
  change RetireQueue [] (if cfg.server ∧ cfg.origDcid.isSome then [.vouched cfg.peer] else [])
  split
  · exact fresh.event rfl
  · exact fresh

/-- An ID of the peer that was given up waits to be announced until a packet that announced it was
acknowledged, if there was always room in the queue. -/
theorem retirement_announced (cfg : QuicConnConfig) (calls : List ConnCall) (seq : Nat)
    (fits : retireQueueFits (run connStep (quicConnCreate cfg) calls).log = true)
    (given_up : .retired seq ∈ (run connStep (quicConnCreate cfg) calls).log) :
    (∃ entry ∈ (run connStep (quicConnCreate cfg) calls).retireQueue,
      entry.seq = seq ∧ entry.ctl ≠ .idle) ∨
      retireConfirmed seq (run connStep (quicConnCreate cfg) calls).log = true := by
  have sound : RetireQueue (run connStep (quicConnCreate cfg) calls).retireQueue
      (run connStep (quicConnCreate cfg) calls).log :=
    queue_invariant.run (quicConnCreate cfg) (queue_create cfg) calls
  refine (sound.announced fits seq given_up).imp_left fun ⟨entry, here, seq_eq⟩ => ?_
  exact ⟨entry, here, seq_eq, sound.owed entry here⟩

theorem retirement_announced_queued :
    (∃ entry ∈ (run connStep (quicConnCreate (Scene.config quicTpDefaults))
        replacingCalls).retireQueue, entry.seq = 0 ∧ entry.ctl ≠ .idle) ∨
      retireConfirmed 0 (run connStep (quicConnCreate (Scene.config quicTpDefaults))
        replacingCalls).log = true :=
  retirement_announced (Scene.config quicTpDefaults) replacingCalls 0 (by decide +kernel)
    (by decide +kernel)

/-- The client replaces its ID nine times at once. -/
def hurriedCalls : List ConnCall :=
  Scene.handshake [] ++
    [Scene.short 1 0 ((List.range 9).map fun i =>
      .newConnId (i + 1) (i + 1) (List.replicate 8 (UInt8.ofNat (i + 2)))
        (List.replicate 16 (UInt8.ofNat (i + 2)))) 300 3000]

theorem retirement_dropped :
    (run connStep (quicConnCreate (Scene.config quicTpDefaults)) hurriedCalls).state = .connected ∧
      .retired 8 ∈ (run connStep (quicConnCreate (Scene.config quicTpDefaults)) hurriedCalls).log ∧
      (∀ entry ∈ (run connStep (quicConnCreate (Scene.config quicTpDefaults))
        hurriedCalls).retireQueue, entry.seq ≠ 8) ∧
      retireConfirmed 8 (run connStep (quicConnCreate (Scene.config quicTpDefaults))
        hurriedCalls).log = false := by
  decide +kernel

end Cx.Quic
