import RaftConsensus.Cluster.PendingRequests
import RaftConsensus.Cluster.LogSafety
import RaftConsensus.Node.AppendLoop
import RaftConsensus.Node.Installing
import RaftConsensus.Node.LeaderMessages

/-!
# What an accepted AppendEntries message does to a log

`Accepts` is when `handleAppendEntries` takes a message: its term is not old, and the previous
entry is there.  Three statements are about what it then does.

* `handleAppendEntries_merges` — on a log with nothing missing the result is the merge of the log
  with the sent entries, and the same message once more changes nothing.
* `commitVerified_iff` — when the commit index stays within what the message has verified.
* `keepsCommitted_iff` — when a message that agrees with what is committed leaves it in place, on a
  log whose beginning has been compacted away.
-/

namespace RaftConsensus.RaftNode

variable {n n' : RaftNode} {l l' : List LogEntry} {args : AppendEntriesArgs} {e : LogEntry}
  {c i : ℤ} {k : ℕ}

/-! ## Accepting a message -/

/-- The message is accepted: its term is not old and the previous entry is there. -/
def Accepts (n : RaftNode) (args : AppendEntriesArgs) : Prop :=
  n.currentTerm ≤ args.term ∧ n.consistentAt args

instance (n : RaftNode) (args : AppendEntriesArgs) : Decidable (n.Accepts args) :=
  inferInstanceAs (Decidable (_ ∧ _))

lemma consistentAt_acceptLeader (n : RaftNode) (args : AppendEntriesArgs) :
    (n.acceptLeader args.term args.leaderId).consistentAt args ↔ n.consistentAt args :=
  consistentAt_congr (logView_acceptLeader _ _ _) (lastLogTerm_acceptLeader _ _ _) args

lemma inPlace_acceptLeader (n : RaftNode) (t l : ℤ) :
    (n.acceptLeader t l).InPlace i e ↔ n.InPlace i e := by
  unfold InPlace
  rw [(logStill_acceptLeader n t l).lastLogIndex,
    getLogEntry_of_logView (logView_acceptLeader n t l)]

/-- A message that is not accepted does not concern the log, and the reply says so. -/
lemma handleAppendEntries_of_not_accepts (h : ¬ n.Accepts args) :
    (n.handleAppendEntries args).2.success = false ∧
      ((n.handleAppendEntries args).1 = n ∨
        (n.handleAppendEntries args).1 = n.acceptLeader args.term args.leaderId) := by
  unfold handleAppendEntries
  split
  · exact ⟨rfl, .inl rfl⟩
  · rename_i hle
    have hnot : ¬ (n.acceptLeader args.term args.leaderId).consistentAt args := by
      rw [consistentAt_acceptLeader]
      exact fun hcons => h ⟨not_lt.mp hle, hcons⟩
    dsimp only
    rw [if_neg hnot]
    exact ⟨rfl, .inr rfl⟩

/-- What an accepted message leads to. -/
lemma handleAppendEntries_of_accepts (h : n.Accepts args) :
    n.handleAppendEntries args =
      (((n.acceptLeader args.term args.leaderId).appendLoop args.prevLogIndex
        args.entries).followCommit args.leaderCommit, ⟨args.term, true⟩) := by
  have hterm : (((n.acceptLeader args.term args.leaderId).appendLoop args.prevLogIndex
      args.entries).followCommit args.leaderCommit).currentTerm = args.term := by
    have hview := (followCommit_view ((n.acceptLeader args.term args.leaderId).appendLoop
      args.prevLogIndex args.entries) args.leaderCommit).trans (appendLoop_view _ _ _)
    obtain ⟨-, -, hterm, -⟩ := electionView_inj hview
    rw [hterm]
    exact (acceptLeader_spec h.1).2.1
  unfold handleAppendEntries
  dsimp only
  rw [if_neg (not_lt.mpr h.1), if_pos ((consistentAt_acceptLeader n args).mpr h.2), hterm]

lemma success_handleAppendEntries :
    (n.handleAppendEntries args).2.success = true ↔ n.Accepts args := by
  by_cases h : n.Accepts args
  · simp [handleAppendEntries_of_accepts h, h]
  · simp [(handleAppendEntries_of_not_accepts h).1, h]

/-- A refused message leaves the log and the commit index alone. -/
lemma logStill_handleAppendEntries (h : ¬ n.Accepts args) :
    n.LogStill (n.handleAppendEntries args).1 := by
  obtain ⟨-, h' | h'⟩ := handleAppendEntries_of_not_accepts h
  · rw [h']
    exact .refl n
  · rw [h']
    exact logStill_acceptLeader n _ _

/-- A message whose term is not old is answered with its term. -/
lemma reply_handleAppendEntries (h : n.currentTerm ≤ args.term) :
    (n.handleAppendEntries args).1.currentTerm = args.term ∧
      (n.handleAppendEntries args).2 = ⟨args.term, decide (n.Accepts args)⟩ := by
  obtain ⟨-, hterm, -, hreply⟩ := (receivedAlike_appendEntries n args).followed h
  have hterm' : (n.handleAppendEntries args).2.term = args.term := hreply
  have hsuccess : (n.handleAppendEntries args).2.success = decide (n.Accepts args) := by
    simp [← success_handleAppendEntries]
  refine ⟨hterm, ?_⟩
  rw [← hterm', ← hsuccess]

/-- The sent entries are numbered from the previous one on. -/
def Indexed (args : AppendEntriesArgs) : Prop :=
  ∀ (k : ℕ) (e : LogEntry), args.entries[k]? = some e → e.index = args.prevLogIndex + 1 + k

instance (args : AppendEntriesArgs) : Decidable (Indexed args) :=
  decidable_of_iff (∀ p ∈ args.entries.zipIdx, p.1.index = args.prevLogIndex + 1 + p.2)
    ⟨fun h k e he => h (e, k) (List.mem_zipIdx_iff_getElem?.mpr he),
      fun h p hp => h p.2 p.1 (List.mem_zipIdx_iff_getElem?.mp hp)⟩

/-- **The log after an accepted message**, of a node whose log may have been compacted: the same if
all sent entries are in place, and otherwise replaced from the first one on that is not. -/
lemma logFrom_handleAppendEntries (h : n.LogFrom c l) (hc : c ≤ l.length) (hacc : n.Accepts args)
    (hprev : 0 ≤ args.prevLogIndex) (hindexed : Indexed args) :
    (∀ (k : ℕ) (e : LogEntry), args.entries[k]? = some e →
        n.InPlace (args.prevLogIndex + 1 + k) e) ∧
        (n.handleAppendEntries args).1.LogFrom c l ∨
      ∃ (d : ℕ) (e : LogEntry), args.entries[d]? = some e ∧
        ¬ n.InPlace (args.prevLogIndex + 1 + d) e ∧
        (∀ (k : ℕ) (x : LogEntry), k < d → args.entries[k]? = some x →
          n.InPlace (args.prevLogIndex + 1 + k) x) ∧
        args.prevLogIndex + d ≤ l.length ∧
        (n.handleAppendEntries args).1.LogFrom (min c (args.prevLogIndex + d))
          (l.take (args.prevLogIndex + d).toNat ++ args.entries.drop d) := by
  have hlog := h.still (n.logStill_acceptLeader args.term args.leaderId)
  have hplace : ∀ (k : ℕ) (x : LogEntry),
      (n.acceptLeader args.term args.leaderId).InPlace (args.prevLogIndex + 1 + k) x ↔
        n.InPlace (args.prevLogIndex + 1 + k) x := fun k x => inPlace_acceptLeader n _ _
  -- the commit index is not part of the log
  have hfollow : ∀ {n₀ : RaftNode} {c' : ℤ} {l' : List LogEntry}, n₀.LogFrom c' l' →
      (n₀.followCommit args.leaderCommit).LogFrom c' l' := by
    intro n₀ c' l' h₀
    unfold followCommit
    split
    · exact ⟨h₀.storage, h₀.lastLogIndex, h₀.lastLogTerm⟩
    · exact h₀
  rw [handleAppendEntries_of_accepts hacc]
  obtain ⟨hall, hloop⟩ | ⟨d, e, he, hnew, hbefore, hloop⟩ :=
    appendLoop_cases (n.acceptLeader args.term args.leaderId) args.prevLogIndex args.entries
  · refine .inl ⟨fun k e he => (hplace k e).mp (hall k e he), hfollow ?_⟩
    rw [hloop]
    exact hlog
  · have hd : d < args.entries.length := (List.getElem?_eq_some_iff.mp he).1
    have hcut : args.prevLogIndex + d ≤ l.length := by
      cases d with
      | zero =>
          obtain hzero | ⟨hle, -⟩ := hacc.2
          · omega
          · rw [h.lastLogIndex] at hle
            omega
      | succ d =>
          have hle := (hbefore d args.entries[d] d.lt_succ_self
            (List.getElem?_eq_getElem (by omega))).1
          rw [hlog.lastLogIndex] at hle
          omega
    have hfrom : args.prevLogIndex + 1 + d = ((args.prevLogIndex + d).toNat : ℤ) + 1 := by omega
    have hmin : args.prevLogIndex + d = ((args.prevLogIndex + d).toNat : ℤ) := by omega
    refine .inr ⟨d, e, he, fun h => hnew ((hplace d e).mpr h),
      fun k x hk hx => (hplace k x).mp (hbefore k x hk hx), hcut, hfollow ?_⟩
    rw [hloop, hfrom, hmin]
    refine hlog.replaceFrom hc (by omega) (by simpa using hd) fun j x hx => ?_
    rw [hindexed (d + j) x (by simpa using hx)]
    push_cast
    omega

/-! ## The merge -/

/-- The log has an entry of the same term at the index. -/
def Agrees (l : List LogEntry) (i : ℤ) (e : LogEntry) : Prop :=
  ∃ x, entryAt l i = some x ∧ x.term = e.term

/-- **The merge of a log with the sent entries**: the log itself if it agrees with all of them,
and otherwise what lies before the first one that is missing or differs, followed by the sent
entries from that one on. -/
def Merged (l : List LogEntry) (args : AppendEntriesArgs) (l' : List LogEntry) : Prop :=
  (∀ (k : ℕ) (e : LogEntry), args.entries[k]? = some e →
      Agrees l (args.prevLogIndex + 1 + k) e) ∧ l' = l ∨
    ∃ (d : ℕ) (e : LogEntry), args.entries[d]? = some e ∧
      ¬ Agrees l (args.prevLogIndex + 1 + d) e ∧
      (∀ (k : ℕ) (x : LogEntry), k < d → args.entries[k]? = some x →
        Agrees l (args.prevLogIndex + 1 + k) x) ∧
      l' = l.take (args.prevLogIndex + d).toNat ++ args.entries.drop d

/-- The previous entry is in the log. -/
def HasPrev (l : List LogEntry) (args : AppendEntriesArgs) : Prop :=
  args.prevLogIndex = 0 ∨ ∃ e, entryAt l args.prevLogIndex = some e ∧ e.term = args.prevLogTerm

lemma lastTerm_of_entryAt (he : entryAt l l.length = some e) : lastTerm l = e.term := by
  obtain ⟨k, hk, he⟩ := entryAt_eq_some.mp he
  have hlast : l.length - 1 = k := by omega
  rw [lastTerm, List.getLast?_eq_getElem?, hlast, he]
  rfl

/-- An entry that has been compacted away reads as one of term `0`. -/
lemma inPlace_compacted (h : n.LogFrom c l) (hc : c ≤ l.length) (hi : 1 ≤ i) (hic : i ≤ c) :
    n.InPlace i e ↔ e.term = 0 := by
  unfold InPlace
  rw [h.lastLogIndex, RocksDBStore.getLogEntry_eq, h.storage.entry i hi, if_pos hic,
    and_iff_right (hic.trans hc), eq_comm]
  rfl

lemma inPlace_iff (h : n.LogFrom c l) (hi : 1 ≤ i) (hic : c < i) :
    n.InPlace i e ↔ Agrees l i e := by
  unfold InPlace Agrees
  rw [h.lastLogIndex, RocksDBStore.getLogEntry_eq, h.storage.entry i hi, if_neg (not_le.mpr hic)]
  constructor
  · rintro ⟨hle, hterm⟩
    obtain ⟨x, hx, -⟩ := entryAt_of_pos hi hle
    rw [hx] at hterm ⊢
    exact ⟨x, rfl, hterm⟩
  · rintro ⟨x, hx, hterm⟩
    obtain ⟨k, rfl, hk⟩ := entryAt_eq_some.mp hx
    have hlt := (List.getElem?_eq_some_iff.mp hk).1
    rw [hx]
    exact ⟨by omega, hterm⟩

/-- On a log with nothing missing the check finds the previous entry, in RAM or in the store. -/
lemma consistentAt_iff (h : n.LogFrom 0 l) (hprev : 0 ≤ args.prevLogIndex) :
    n.consistentAt args ↔ HasPrev l args := by
  by_cases hzero : args.prevLogIndex = 0
  · simp [consistentAt, HasPrev, hzero]
  · have hpos : ¬ args.prevLogIndex ≤ 0 := by omega
    have hread : ∀ x, entryAt l args.prevLogIndex = some x →
        (if args.prevLogIndex = n.lastLogIndex then n.lastLogTerm
          else (n.storage.getLogEntry args.prevLogIndex).term) = x.term := by
      intro x hx
      rw [h.lastLogIndex, h.lastLogTerm]
      split
      · rename_i hlast
        exact lastTerm_of_entryAt (hlast ▸ hx)
      · rw [RocksDBStore.getLogEntry_eq, h.storage.entry _ (by omega), if_neg hpos, hx]
        rfl
    unfold consistentAt HasPrev
    rw [or_iff_right hpos, or_iff_right hzero]
    constructor
    · rintro ⟨hle, hterm⟩
      rw [h.lastLogIndex] at hle
      obtain ⟨x, hx, -⟩ := entryAt_of_pos (by omega) hle
      exact ⟨x, hx, (hread x hx).symm.trans hterm⟩
    · rintro ⟨x, hx, hterm⟩
      obtain ⟨k, hk, hget⟩ := entryAt_eq_some.mp hx
      have hlt := (List.getElem?_eq_some_iff.mp hget).1
      exact ⟨by rw [h.lastLogIndex]; omega, (hread x hx).trans hterm⟩

lemma HasPrev.le_length (h : HasPrev l args) : args.prevLogIndex ≤ l.length := by
  obtain h | ⟨e, he, -⟩ := h
  · omega
  · obtain ⟨k, hk, hget⟩ := entryAt_eq_some.mp he
    have hlt := (List.getElem?_eq_some_iff.mp hget).1
    omega

/-- The previous entry is kept. -/
lemma Merged.hasPrev (h : Merged l args l') (hprev : HasPrev l args) : HasPrev l' args := by
  obtain ⟨-, rfl⟩ | ⟨d, e, he, -, -, rfl⟩ := h
  · exact hprev
  · refine hprev.imp_right ?_
    rintro ⟨x, hx, hterm⟩
    obtain ⟨k, hk, hget⟩ := entryAt_eq_some.mp hx
    have hlt := (List.getElem?_eq_some_iff.mp hget).1
    refine ⟨x, entryAt_eq_some.mpr ⟨k, hk, ?_⟩, hterm⟩
    rw [List.getElem?_append_left (by rw [List.length_take]; omega),
      List.getElem?_take_of_lt (by omega), hget]

/-- The merged log agrees with all that was sent. -/
lemma Merged.agrees (h : Merged l args l') (hprev : 0 ≤ args.prevLogIndex)
    (hle : args.prevLogIndex ≤ l.length) (he : args.entries[k]? = some e) :
    Agrees l' (args.prevLogIndex + 1 + k) e := by
  obtain ⟨hall, rfl⟩ | ⟨d, x, hx, -, hbefore, rfl⟩ := h
  · exact hall k e he
  · have hd : d < args.entries.length := (List.getElem?_eq_some_iff.mp hx).1
    have hindex : ∀ j : ℕ,
        args.prevLogIndex + 1 + j = ((args.prevLogIndex.toNat + j : ℕ) : ℤ) + 1 := by
      intro j
      omega
    have hcut : (args.prevLogIndex + d).toNat ≤ l.length := by
      cases d with
      | zero => omega
      | succ d =>
          obtain ⟨y, hy, -⟩ := hbefore d args.entries[d] d.lt_succ_self
            (List.getElem?_eq_getElem (by omega))
          rw [hindex, entryAt_succ] at hy
          have hlt := (List.getElem?_eq_some_iff.mp hy).1
          omega
    have hlen : (l.take (args.prevLogIndex + d).toNat).length = args.prevLogIndex.toNat + d := by
      rw [List.length_take, min_eq_left hcut]
      omega
    by_cases hk : k < d
    · obtain ⟨y, hy, hterm⟩ := hbefore k e hk he
      refine ⟨y, ?_, hterm⟩
      rw [hindex, entryAt_succ] at hy ⊢
      rw [List.getElem?_append_left (by omega), List.getElem?_take_of_lt (by omega), hy]
    · refine ⟨e, ?_, rfl⟩
      rw [hindex, entryAt_succ, List.getElem?_append_right (by omega), hlen, List.getElem?_drop,
        ← he]
      congr 1
      omega

/-- A log that agrees with all that is sent is its own merge only. -/
lemma Merged.eq_of_agrees {r : List LogEntry} (h : Merged l args r)
    (hall : ∀ (k : ℕ) (e : LogEntry), args.entries[k]? = some e →
      Agrees l (args.prevLogIndex + 1 + k) e) : r = l := by
  obtain ⟨-, rfl⟩ | ⟨d, e, he, hdiffers, -⟩ := h
  · rfl
  · exact absurd (hall d e he) hdiffers

/-- An accepted message merges. -/
lemma merged_of_accepts (h : n.LogFrom 0 l) (hacc : n.Accepts args)
    (hprev : 0 ≤ args.prevLogIndex) (hindexed : Indexed args) :
    ∃ l', (n.handleAppendEntries args).1.LogFrom 0 l' ∧ Merged l args l' := by
  have hagree : ∀ (k : ℕ) (x : LogEntry),
      n.InPlace (args.prevLogIndex + 1 + k) x ↔ Agrees l (args.prevLogIndex + 1 + k) x :=
    fun k x => inPlace_iff h (by omega) (by omega)
  obtain ⟨hall, hlog⟩ | ⟨d, e, he, hnew, hbefore, -, hlog⟩ :=
    logFrom_handleAppendEntries h (by omega) hacc hprev hindexed
  · exact ⟨l, hlog, .inl ⟨fun k x hx => (hagree k x).mp (hall k x hx), rfl⟩⟩
  · have hnone : min 0 (args.prevLogIndex + d) = 0 := by omega
    rw [hnone] at hlog
    refine ⟨_, hlog, .inr ⟨d, e, he, fun h => hnew ((hagree d e).mpr h), ?_, rfl⟩⟩
    exact fun k x hk hx => (hagree k x).mp (hbefore k x hk hx)

/-- A first message fills an empty log. -/
lemma Merged.of_nil (h : Merged [] args l') : l' = args.entries := by
  have hnone : ∀ (k : ℕ) (e : LogEntry), ¬ Agrees [] (args.prevLogIndex + 1 + k) e := by
    rintro k e ⟨x, hx, -⟩
    obtain ⟨j, -, hj⟩ := entryAt_eq_some.mp hx
    simp at hj
  obtain ⟨hall, rfl⟩ | ⟨d, e, -, -, hbefore, rfl⟩ := h
  · rw [eq_comm, List.eq_nil_iff_forall_not_mem]
    intro e he
    obtain ⟨k, hk⟩ := List.mem_iff_getElem?.mp he
    exact hnone k e (hall k e hk)
  · cases d with
    | zero => simp
    | succ d =>
        cases hfirst : args.entries[0]? with
        | some x => exact absurd (hbefore 0 x d.succ_pos hfirst) (hnone 0 x)
        | none =>
            rw [List.getElem?_eq_none_iff, Nat.le_zero, List.length_eq_zero_iff] at hfirst
            simp [hfirst]

lemma currentTerm_new_genesis (config : ClusterConfig) :
    (RaftNode.new config .genesis).currentTerm = 0 := by
  rw [RocksDBStore.genesis_eq]
  rfl

lemma logFrom_genesis (config : ClusterConfig) : (RaftNode.new config .genesis).LogFrom 0 [] :=
  HasLog.logFrom ⟨hasLog_genesis, rfl, rfl⟩

/-- **An AppendEntries message merges its entries into the log.**  It is accepted exactly when the
previous entry is there, a refused one changes nothing, and the same message a second time changes
neither the log nor the reply. -/
theorem handleAppendEntries_merges (h : n.LogFrom 0 l) (hterm : n.currentTerm ≤ args.term)
    (hprev : 0 ≤ args.prevLogIndex) (hindexed : Indexed args) :
    ((n.handleAppendEntries args).2.success = true ↔ HasPrev l args) ∧
      ∃ l', (n.handleAppendEntries args).1.LogFrom 0 l' ∧
        ((n.handleAppendEntries args).2.success = true → Merged l args l') ∧
        ((n.handleAppendEntries args).2.success = false →
          l' = l ∧ (n.handleAppendEntries args).1.commitIndex = n.commitIndex) ∧
        ((n.handleAppendEntries args).1.handleAppendEntries args).1.LogFrom 0 l' ∧
        ((n.handleAppendEntries args).1.handleAppendEntries args).2 =
          (n.handleAppendEntries args).2 := by
  obtain ⟨hterm', hreply⟩ := reply_handleAppendEntries hterm
  have hsuccess : (n.handleAppendEntries args).2.success = true ↔ HasPrev l args := by
    rw [success_handleAppendEntries, ← consistentAt_iff h hprev]
    exact and_iff_right hterm
  refine ⟨hsuccess, ?_⟩
  obtain ⟨n', hn'⟩ : ∃ n', n' = (n.handleAppendEntries args).1 := ⟨_, rfl⟩
  rw [← hn'] at hterm' ⊢
  obtain ⟨-, hreply'⟩ := reply_handleAppendEntries hterm'.le
  rw [hreply']
  by_cases hacc : n.Accepts args
  · obtain ⟨l', hlog, hmerged⟩ := merged_of_accepts h hacc hprev hindexed
    have hhas := (consistentAt_iff h hprev).mp hacc.2
    rw [← hn'] at hlog
    have hacc' : n'.Accepts args :=
      ⟨hterm'.le, (consistentAt_iff hlog hprev).mpr (hmerged.hasPrev hhas)⟩
    obtain ⟨r, hagain, hmerged'⟩ := merged_of_accepts hlog hacc' hprev hindexed
    obtain rfl : r = l' := hmerged'.eq_of_agrees fun k e he =>
      hmerged.agrees hprev hhas.le_length he
    refine ⟨r, hlog, fun _ => hmerged, fun hfalse => ?_, hagain, ?_⟩
    · simp [hreply, hacc] at hfalse
    · simp [hreply, hacc, hacc']
  · have hstill := logStill_handleAppendEntries hacc
    rw [← hn'] at hstill
    have hlog : n'.LogFrom 0 l := h.still hstill
    have hacc' : ¬ n'.Accepts args := by
      rintro ⟨-, hcons⟩
      refine hacc ⟨hterm, ?_⟩
      rwa [consistentAt_iff h hprev, ← consistentAt_iff hlog hprev]
    refine ⟨l, hlog, fun htrue => ?_, fun _ => ⟨rfl, hstill.commitIndex⟩,
      hlog.still (logStill_handleAppendEntries hacc'), ?_⟩
    · simp [hreply, hacc] at htrue
    · simp [hreply, hacc, hacc']

/-- A new node takes over the entries of its first message. -/
lemma afterMessage_spec (hterm : 0 ≤ args.term) (hprev : args.prevLogIndex = 0)
    (hindexed : Indexed args) :
    (afterMessage .genesis args).LogFrom 0 args.entries ∧
      (afterMessage .genesis args).currentTerm = args.term := by
  have hacc : (RaftNode.new ⟨2, [1, 2, 3]⟩ .genesis).Accepts args :=
    ⟨by rwa [currentTerm_new_genesis], .inl hprev.le⟩
  obtain ⟨l', hlog, hmerged⟩ := merged_of_accepts (logFrom_genesis _) hacc hprev.ge hindexed
  rw [hmerged.of_nil] at hlog
  rw [afterMessage]
  exact ⟨hlog, (reply_handleAppendEntries hacc.1).1⟩

/-- The second of two entries is replaced. -/
theorem second_entry_replaced :
    ((committedTwo.handleAppendEntries ⟨2, 3, 1, 1, [⟨2, 2, .empty⟩], 1⟩).2.success = true ↔
      HasPrev [⟨1, 1, .empty⟩, ⟨1, 2, .empty⟩] ⟨2, 3, 1, 1, [⟨2, 2, .empty⟩], 1⟩) ∧
      Merged [⟨1, 1, .empty⟩, ⟨1, 2, .empty⟩] ⟨2, 3, 1, 1, [⟨2, 2, .empty⟩], 1⟩
        [⟨1, 1, .empty⟩, ⟨2, 2, .empty⟩] := by
  have hspec : committedTwo.LogFrom 0 [⟨1, 1, .empty⟩, ⟨1, 2, .empty⟩] ∧
      committedTwo.currentTerm = 1 := afterMessage_spec (by decide) rfl (by decide)
  obtain ⟨hlog, hterm⟩ := hspec
  have hle : committedTwo.currentTerm ≤
      AppendEntriesArgs.term ⟨2, 3, 1, 1, [⟨2, 2, .empty⟩], 1⟩ := by
    rw [hterm]
    decide
  obtain ⟨hsuccess, l', -, hmerged, -⟩ :=
    handleAppendEntries_merges hlog hle (by decide) (by decide)
  have hmerge := hmerged (hsuccess.mpr (.inr ⟨⟨1, 1, .empty⟩, rfl, rfl⟩))
  -- the entry in the second place is of another term, so this is where the merge begins
  have hlog' : l' = [⟨1, 1, .empty⟩, ⟨2, 2, .empty⟩] := by
    rcases hmerge with ⟨hall, -⟩ | ⟨d, e, he, -, -, hl'⟩
    · obtain ⟨x, hx, hterm⟩ := hall 0 ⟨2, 2, .empty⟩ rfl
      obtain rfl : x = ⟨1, 2, .empty⟩ := (Option.some.inj hx).symm
      cases hterm
    · obtain rfl : d = 0 := by
        have hd := (List.getElem?_eq_some_iff.mp he).1
        simpa using hd
      exact hl'
  exact ⟨hsuccess, hlog' ▸ hmerge⟩

/-! ## What the message has verified -/

/-- Nothing is newly committed beyond the sent entries. -/
def CommitVerified (n n' : RaftNode) (args : AppendEntriesArgs) : Prop :=
  n'.commitIndex ≤ max n.commitIndex (args.prevLogIndex + args.entries.length)

/-- The leader's commit index or the log itself ends with the sent entries, or the log will: it is
cut at a sent entry that is not in place. -/
def NoSuffix (n : RaftNode) (args : AppendEntriesArgs) : Prop :=
  args.leaderCommit ≤ max n.commitIndex (args.prevLogIndex + args.entries.length) ∨
    n.lastLogIndex ≤ max n.commitIndex (args.prevLogIndex + args.entries.length) ∨
    ∃ (k : ℕ) (e : LogEntry), args.entries[k]? = some e ∧
      ¬ n.InPlace (args.prevLogIndex + 1 + k) e

/-- The last index after an accepted message. -/
lemma lastLogIndex_handleAppendEntries (h : n.Accepts args) :
    (∀ (k : ℕ) (e : LogEntry), args.entries[k]? = some e →
        n.InPlace (args.prevLogIndex + 1 + k) e) ∧
        (n.handleAppendEntries args).1.lastLogIndex = n.lastLogIndex ∨
      (∃ (k : ℕ) (e : LogEntry), args.entries[k]? = some e ∧
        ¬ n.InPlace (args.prevLogIndex + 1 + k) e) ∧
        (n.handleAppendEntries args).1.lastLogIndex =
          args.prevLogIndex + args.entries.length := by
  have hlast := (n.logStill_acceptLeader args.term args.leaderId).lastLogIndex
  rw [handleAppendEntries_of_accepts h]
  have hfollow : ∀ n₀ : RaftNode, (n₀.followCommit args.leaderCommit).lastLogIndex =
      n₀.lastLogIndex := by
    intro n₀
    unfold followCommit
    split <;> rfl
  simp only [hfollow]
  obtain ⟨hall, hloop⟩ | ⟨d, e, he, hnew, -, hloop⟩ :=
    appendLoop_cases (n.acceptLeader args.term args.leaderId) args.prevLogIndex args.entries
  · rw [hloop]
    exact .inl ⟨fun k e he => (inPlace_acceptLeader n _ _).mp (hall k e he), hlast⟩
  · have hd := (List.getElem?_eq_some_iff.mp he).1
    rw [hloop, lastLogIndex_replaceFrom _ _ hd.le]
    exact .inr ⟨⟨d, e, he, fun h => hnew ((inPlace_acceptLeader n _ _).mpr h)⟩, rfl⟩

/-- The commit index after an accepted message. -/
lemma commitIndex_handleAppendEntries (h : n.Accepts args) :
    (n.handleAppendEntries args).1.commitIndex =
      if n.commitIndex < args.leaderCommit then
        min args.leaderCommit (n.handleAppendEntries args).1.lastLogIndex
      else n.commitIndex := by
  have hcommit := (n.logStill_acceptLeader args.term args.leaderId).commitIndex
  have hloop : ((n.acceptLeader args.term args.leaderId).appendLoop args.prevLogIndex
      args.entries).commitIndex = n.commitIndex := by
    obtain ⟨-, hloop⟩ | ⟨d, e, -, -, -, hloop⟩ :=
      appendLoop_cases (n.acceptLeader args.term args.leaderId) args.prevLogIndex args.entries
    · rw [hloop, hcommit]
    · rw [hloop]
      exact hcommit
  rw [handleAppendEntries_of_accepts h]
  unfold followCommit
  rw [hloop]
  split
  · rfl
  · exact hloop

/-- **When a follower commits only what the message has verified**: exactly when no suffix is left
behind the sent entries that the leader's commit index reaches. -/
theorem commitVerified_iff (n : RaftNode) (args : AppendEntriesArgs) :
    ((n.handleAppendEntries args).2.success = true →
        n.CommitVerified (n.handleAppendEntries args).1 args) ↔
      (n.Accepts args → n.NoSuffix args) := by
  rw [success_handleAppendEntries]
  refine forall_congr' fun hacc => ?_
  unfold CommitVerified NoSuffix
  rw [commitIndex_handleAppendEntries hacc]
  obtain ⟨hall, hlast⟩ | ⟨hnew, hlast⟩ := lastLogIndex_handleAppendEntries hacc
  · have hnone : ¬ ∃ (k : ℕ) (e : LogEntry), args.entries[k]? = some e ∧
        ¬ n.InPlace (args.prevLogIndex + 1 + k) e := by
      rintro ⟨k, e, he, hnot⟩
      exact hnot (hall k e he)
    simp only [hnone, hlast, or_false]
    split <;> omega
  · simp only [hnew, hlast, or_true, iff_true]
    split <;> omega

/-- A follower that has taken over two entries of term `1`, none of them committed. -/
def uncommittedTwo : RaftNode :=
  afterMessage .genesis ⟨1, 1, 0, 0, [⟨1, 1, .empty⟩, ⟨1, 2, .empty⟩], 0⟩

/-- **A heartbeat of a new leader**, after the first entry, makes the follower commit the second
one too, which the message has not compared. -/
theorem heartbeat_commits_suffix :
    (uncommittedTwo.handleAppendEntries ⟨2, 3, 1, 1, [], 2⟩).2.success = true ∧
      (uncommittedTwo.handleAppendEntries ⟨2, 3, 1, 1, [], 2⟩).1.commitIndex = 2 ∧
      ¬ uncommittedTwo.CommitVerified
        (uncommittedTwo.handleAppendEntries ⟨2, 3, 1, 1, [], 2⟩).1 ⟨2, 3, 1, 1, [], 2⟩ := by
  have hvalues : (uncommittedTwo.handleAppendEntries ⟨2, 3, 1, 1, [], 2⟩).2.success = true ∧
      (uncommittedTwo.handleAppendEntries ⟨2, 3, 1, 1, [], 2⟩).1.commitIndex = 2 ∧
      uncommittedTwo.commitIndex = 0 := by
    rw [uncommittedTwo, RocksDBStore.genesis_eq]
    decide +kernel
  obtain ⟨hsuccess, hcommit, hbefore⟩ := hvalues
  refine ⟨hsuccess, hcommit, fun h => ?_⟩
  unfold CommitVerified at h
  rw [hcommit, hbefore] at h
  revert h
  decide

/-! ## What is committed -/

/-- Nothing committed is deleted or changed, and the log still reaches to the end of it. -/
structure KeepsCommitted (n n' : RaftNode) : Prop where
  entries : ∀ i e, 1 ≤ i → i ≤ n.commitIndex → n.storage.entry? i = some e →
    n'.storage.entry? i = some e
  reaches : n.commitIndex ≤ n'.lastLogIndex

/-- With the entries up to `c` compacted away, none of them is sent, or the message goes on to the
end of what is committed.  A missing entry reads as one of term `0`. -/
def SparesCompacted (c : ℤ) (n : RaftNode) (args : AppendEntriesArgs) : Prop :=
  (∀ (k : ℕ) (e : LogEntry), args.entries[k]? = some e → args.prevLogIndex + 1 + k ≤ c →
      e.term = 0) ∨
    n.commitIndex ≤ args.prevLogIndex + args.entries.length

/-- The message says nothing else about a committed index than what is there. -/
def SendsCommitted (n : RaftNode) (l : List LogEntry) (args : AppendEntriesArgs) : Prop :=
  ∀ (k : ℕ) (e : LogEntry), args.entries[k]? = some e →
    args.prevLogIndex + 1 + k ≤ n.commitIndex → entryAt l (args.prevLogIndex + 1 + k) = some e

/-- Up to the end of what is committed nothing but compacted entries is out of place. -/
lemma compacted_of_not_inPlace (h : n.LogFrom c l) (hprev : 0 ≤ args.prevLogIndex)
    (hsent : n.SendsCommitted l args) (he : args.entries[k]? = some e)
    (hcommit : args.prevLogIndex + 1 + k ≤ n.commitIndex)
    (hnew : ¬ n.InPlace (args.prevLogIndex + 1 + k) e) : args.prevLogIndex + 1 + k ≤ c := by
  by_contra hlt
  rw [inPlace_iff h (by omega) (by omega)] at hnew
  exact hnew ⟨e, hsent k e he hcommit, rfl⟩

/-- A message that goes on to the end of what is committed leaves all of it where it was. -/
lemma getElem?_replaced {p d j : ℕ} (hp : args.prevLogIndex = p) (hk : p + d ≤ l.length)
    (hsent : n.SendsCommitted l args) (hj : (j : ℤ) + 1 ≤ n.commitIndex)
    (hreach : n.commitIndex ≤ args.prevLogIndex + args.entries.length) :
    (l.take (p + d) ++ args.entries.drop d)[j]? = l[j]? := by
  have hlen : (l.take (p + d)).length = p + d := by rw [List.length_take, min_eq_left hk]
  by_cases hjk : j < p + d
  · rw [List.getElem?_append_left (by omega), List.getElem?_take_of_lt hjk]
  · have hlt : j - p < args.entries.length := by omega
    have hget : args.entries[j - p]? = some args.entries[j - p] := List.getElem?_eq_getElem hlt
    have hindex : args.prevLogIndex + 1 + (j - p : ℕ) = (j : ℤ) + 1 := by omega
    have hstored := hsent (j - p) _ hget (by omega)
    rw [hindex, entryAt_succ] at hstored
    have hdrop : d + (j - (p + d)) = j - p := by omega
    rw [List.getElem?_append_right (by omega), hlen, List.getElem?_drop, hdrop, hget, hstored]

/-- **When a message that agrees with what is committed keeps it**: exactly when it is refused, or
sends no entry that has been compacted away, or goes on to the end of what is committed. -/
theorem keepsCommitted_iff (h : n.LogFrom c l) (hc : c ≤ n.commitIndex)
    (hcommit : n.commitIndex ≤ l.length) (hprev : 0 ≤ args.prevLogIndex)
    (hindexed : Indexed args) (hsent : n.SendsCommitted l args) :
    n.KeepsCommitted (n.handleAppendEntries args).1 ↔
      (n.Accepts args → n.SparesCompacted c args) := by
  have hcl : c ≤ l.length := hc.trans hcommit
  by_cases hacc : n.Accepts args
  · rw [forall_prop_of_true hacc]
    obtain ⟨hall, hlog⟩ | ⟨d, e, he, hnew, -, hk, hlog⟩ :=
      logFrom_handleAppendEntries h hcl hacc hprev hindexed
    · refine iff_of_true ⟨fun i e hi _ hentry => ?_, ?_⟩ (.inl fun k e he hkc => ?_)
      · rwa [hlog.storage.entry i hi, ← h.storage.entry i hi]
      · rw [hlog.lastLogIndex]
        exact hcommit
      · exact (inPlace_compacted h hcl (by omega) hkc).mp (hall k e he)
    · obtain ⟨p, hp⟩ := Int.eq_ofNat_of_zero_le hprev
      have hd := (List.getElem?_eq_some_iff.mp he).1
      have htake : (args.prevLogIndex + d).toNat = p + d := by omega
      rw [htake] at hlog
      have hlast : (n.handleAppendEntries args).1.lastLogIndex =
          args.prevLogIndex + args.entries.length := by
        rw [hlog.lastLogIndex, List.length_append, List.length_take, List.length_drop,
          min_eq_left (by omega)]
        omega
      have hreach : n.SparesCompacted c args ↔
          n.commitIndex ≤ args.prevLogIndex + args.entries.length := by
        refine ⟨fun hspares => ?_, .inr⟩
        obtain hzero | hle := hspares
        · by_contra hlt
          -- the first entry out of place has been compacted away
          have hdc := compacted_of_not_inPlace h hprev hsent he (by omega) hnew
          exact hnew ((inPlace_compacted h hcl (by omega) hdc).mpr (hzero d e he hdc))
        · exact hle
      rw [hreach]
      constructor
      · intro hkeeps
        exact hlast ▸ hkeeps.reaches
      · intro hle
        refine ⟨fun i x hi hic hentry => ?_, hlast ▸ hle⟩
        rw [h.storage.entry i hi] at hentry
        split at hentry
        · cases hentry
        · rename_i hgone
          obtain ⟨j, rfl, hj⟩ := entryAt_eq_some.mp hentry
          rw [hlog.storage.entry _ hi, if_neg (by omega), entryAt_succ,
            getElem?_replaced hp (by omega) hsent hic hle, hj]
  · have hstill := logStill_handleAppendEntries hacc
    refine iff_of_true ⟨fun i e _ _ he => (hstill.entry i).trans he, ?_⟩ fun h => absurd h hacc
    rw [hstill.lastLogIndex, h.lastLogIndex]
    exact hcommit

/-! ### A delayed message -/

/-- The first entries of a leader of term `1`. -/
def firstEntries (m : ℕ) : List LogEntry :=
  (List.range m).map fun k : ℕ => ⟨1, (k : ℤ) + 1, .empty⟩

@[simp] lemma length_firstEntries {m : ℕ} : (firstEntries m).length = m := by
  simp [firstEntries]

lemma getElem?_firstEntries {m k : ℕ} :
    (firstEntries m)[k]? = if k < m then some ⟨1, k + 1, .empty⟩ else none := by
  rw [firstEntries, List.getElem?_map]
  split
  · rename_i h
    rw [List.getElem?_range h]
    rfl
  · rename_i h
    rw [List.getElem?_eq_none (by simpa using h)]
    rfl

/-- The message of that leader with its first entries. -/
def firstMessage (m : ℕ) (leaderCommit : ℤ) : AppendEntriesArgs :=
  ⟨1, 1, 0, 0, firstEntries m, leaderCommit⟩

lemma entries_firstMessage (m : ℕ) (t : ℤ) : (firstMessage m t).entries = firstEntries m := rfl

lemma indexed_firstMessage (m : ℕ) (t : ℤ) : Indexed (firstMessage m t) := by
  intro k e he
  rw [firstMessage, getElem?_firstEntries] at he
  split at he
  · obtain rfl := Option.some.inj he
    show (k : ℤ) + 1 = 0 + 1 + k
    omega
  · cases he

/-- A follower that has the first thousand entries of the leader, all committed. -/
def thousandEntries : RaftNode := afterMessage .genesis (firstMessage 1000 1000)

/-- A node that has applied what is committed and then compacted its log. -/
def compacted (n : RaftNode) (j : ℤ) : RaftNode :=
  { n with
    lastApplied := n.commitIndex
    storage := n.storage.compactLog j }

lemma LogFrom.compacted (h : n.LogFrom 0 l) (hi : 0 ≤ i) : (n.compacted i).LogFrom i l where
  storage := by
    have hlog := h.storage.compactLog i
    rwa [max_eq_right hi] at hlog
  lastLogIndex := h.lastLogIndex
  lastLogTerm := h.lastLogTerm

lemma compacted_fields (n : RaftNode) (j : ℤ) :
    (n.compacted j).commitIndex = n.commitIndex ∧ (n.compacted j).currentTerm = n.currentTerm :=
  ⟨rfl, rfl⟩

/-- The same follower after its compaction. -/
def compactedThousand : RaftNode := thousandEntries.compacted 900

lemma accepts_firstMessage (m : ℕ) (t : ℤ) (hn : n.currentTerm ≤ 1) :
    n.Accepts (firstMessage m t) := ⟨hn, .inl le_rfl⟩

lemma commitIndex_thousandEntries : thousandEntries.commitIndex = 1000 := by
  have hterm : (RaftNode.new ⟨2, [1, 2, 3]⟩ .genesis).currentTerm ≤ 1 := by
    rw [currentTerm_new_genesis]
    decide
  have hcommit : (RaftNode.new ⟨2, [1, 2, 3]⟩ .genesis).commitIndex < 1000 := by decide
  obtain ⟨hlog, -⟩ := afterMessage_spec (by decide) rfl (indexed_firstMessage 1000 1000)
  have hlast := hlog.lastLogIndex
  rw [afterMessage] at hlast
  rw [thousandEntries, afterMessage,
    commitIndex_handleAppendEntries (accepts_firstMessage 1000 1000 hterm), hlast,
    entries_firstMessage, firstMessage, if_pos hcommit, length_firstEntries]
  rfl

lemma compactedThousand_spec :
    compactedThousand.LogFrom 900 (firstEntries 1000) ∧ compactedThousand.commitIndex = 1000 ∧
      compactedThousand.currentTerm = 1 := by
  obtain ⟨hlog, hterm⟩ := afterMessage_spec (by decide) rfl (indexed_firstMessage 1000 1000)
  rw [entries_firstMessage] at hlog
  obtain ⟨hcommit', hterm'⟩ := compacted_fields thousandEntries 900
  refine ⟨hlog.compacted (by decide), ?_, ?_⟩
  · exact hcommit'.trans commitIndex_thousandEntries
  · exact hterm'.trans hterm

/-- **A delayed message with the first hundred entries erases what is committed**: the first entry,
compacted away, reads as a conflict, and the log is cut there. -/
theorem delayed_message_erases :
    compactedThousand.LogFrom 900 (firstEntries 1000) ∧ compactedThousand.commitIndex = 1000 ∧
      compactedThousand.currentTerm = 1 ∧
      (compactedThousand.handleAppendEntries (firstMessage 100 0)).2.success = true ∧
      (compactedThousand.handleAppendEntries (firstMessage 100 0)).1.lastLogIndex = 100 ∧
      ¬ compactedThousand.KeepsCommitted
        (compactedThousand.handleAppendEntries (firstMessage 100 0)).1 := by
  obtain ⟨hlog, hcommit, hterm⟩ := compactedThousand_spec
  have hacc := accepts_firstMessage 100 0 hterm.le
  have hlast : (compactedThousand.handleAppendEntries (firstMessage 100 0)).1.lastLogIndex =
      100 := by
    obtain ⟨hall, -⟩ | ⟨-, hlast⟩ := lastLogIndex_handleAppendEntries hacc
    · have hplace := hall 0 ⟨1, 1, .empty⟩ (getElem?_firstEntries.trans rfl)
      rw [inPlace_compacted hlog (by rw [length_firstEntries]; decide) (by decide) (by decide)]
        at hplace
      cases hplace
    · rw [hlast, firstMessage, length_firstEntries]
      rfl
  refine ⟨hlog, hcommit, hterm, success_handleAppendEntries.mpr hacc, hlast, fun h => ?_⟩
  have hreach := h.reaches
  rw [hlast, hcommit] at hreach
  revert hreach
  decide

/-- A heartbeat keeps what is committed. -/
theorem heartbeat_keeps_committed :
    compactedThousand.KeepsCommitted
      (compactedThousand.handleAppendEntries ⟨1, 1, 1000, 1, [], 1000⟩).1 := by
  obtain ⟨hlog, hcommit, -⟩ := compactedThousand_spec
  have hprev : 0 ≤ AppendEntriesArgs.prevLogIndex ⟨1, 1, 1000, 1, [], 1000⟩ := by decide
  refine (keepsCommitted_iff hlog (by rw [hcommit]; decide) ?_ hprev (by simp [Indexed])
    (by simp [SendsCommitted])).mpr fun _ => .inl (by simp)
  rw [hcommit, length_firstEntries]
  rfl

end RaftConsensus.RaftNode
