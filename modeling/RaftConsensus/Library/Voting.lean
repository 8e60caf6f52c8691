import Mathlib.Data.Set.Insert
import Mathlib.Data.Finset.Basic
import Mathlib.Logic.Function.Basic
import Mathlib.Order.Basic

/-!
# Voting in terms, with votes that may be given back

Voters move through terms, stand as candidates, vote and win.  A voter has at most one current
vote, but the protocol lets it give that vote back *within* a term: a candidate that hears of
another winner of its own term steps down and forgets for whom it voted.  So "one vote per term"
is not an invariant here.

What holds instead is recorded in `Inv`: the only vote that is ever given back is a candidate's
vote for itself, and only after somebody has won the term.  Hence the voters that made the first
winner of a term never vote for another candidate of that term, and a term has one winner
(`Inv.won_unique`).

A voter may also fail and come back.  It then is a follower of the term it was in and still has its
vote, so a winner need not lead its term any more, but it votes for nobody else in it.
-/

namespace Voting

/-- What a voter currently is. -/
inductive Phase
  | follower
  | candidate
  | leader
  deriving DecidableEq

/-- The voters, and the votes and victories so far. -/
structure State (N τ : Type*) where
  term : N → τ
  vote : N → Option N
  phase : N → Phase
  /-- `(v, T, c)`: voter `v` has voted for `c` in term `T`. -/
  votes : Set (N × τ × N)
  /-- `(c, T)`: candidate `c` has won term `T`. -/
  won : Set (N × τ)

variable {N τ : Type*} [DecidableEq N] [LinearOrder τ] (Quorum : Finset N → Prop)

/-- Voter `v` becomes a follower of term `t` without a vote. -/
def State.follow (a : State N τ) (v : N) (t : τ) : State N τ :=
  { a with
    term := Function.update a.term v t
    vote := Function.update a.vote v none
    phase := Function.update a.phase v .follower }

/-- Voter `v` stands in term `t` and votes for itself. -/
def State.stand (a : State N τ) (v : N) (t : τ) : State N τ :=
  { a with
    term := Function.update a.term v t
    vote := Function.update a.vote v (some v)
    phase := Function.update a.phase v .candidate
    votes := insert (v, t, v) a.votes }

/-- Voter `v` votes for `c`. -/
def State.grant (a : State N τ) (v c : N) : State N τ :=
  { a with
    vote := Function.update a.vote v (some c)
    votes := insert (v, a.term v, c) a.votes }

/-- Voter `v` comes back after a failure, with the term and the vote it had. -/
def State.restart (a : State N τ) (v : N) : State N τ :=
  { a with phase := Function.update a.phase v .follower }

/-- Candidate `c` wins its term. -/
def State.win (a : State N τ) (c : N) : State N τ :=
  { a with
    phase := Function.update a.phase c .leader
    won := insert (c, a.term c) a.won }

/-- A step of the protocol. -/
inductive Step (a : State N τ) : State N τ → Prop
  /-- A newer term is heard of. -/
  | raise {v : N} {t : τ} (h : a.term v < t) : Step a (a.follow v t)
  /-- A candidate or leader hears of another winner of its own term. -/
  | release {v c : N} (hphase : a.phase v ≠ .follower) (hne : c ≠ v)
      (hwon : (c, a.term v) ∈ a.won) : Step a (a.follow v (a.term v))
  | stand {v : N} {t : τ} (h : a.term v < t) : Step a (a.stand v t)
  /-- A voter without a vote, or with this one already, votes for another node. -/
  | grant {v c : N} (hfree : a.vote v = none ∨ a.vote v = some c) (hne : c ≠ v) :
      Step a (a.grant v c)
  | restart {v : N} : Step a (a.restart v)
  | win {c : N} {A : Finset N} (hphase : a.phase c = .candidate) (hA : Quorum A)
      (hvotes : ∀ v ∈ A, (v, a.term c, c) ∈ a.votes) : Step a (a.win c)

/-- The invariant of voting. -/
structure Inv (a : State N τ) : Prop where
  /-- Candidates and leaders hold, and have cast, the vote for themselves. -/
  standing : ∀ v, a.phase v ≠ .follower → a.vote v = some v ∧ (v, a.term v, v) ∈ a.votes
  /-- Votes are cast in terms that have been reached. -/
  votes_le : ∀ v T c, (v, T, c) ∈ a.votes → T ≤ a.term v
  /-- A vote of the present term is still held, unless it was a vote for oneself that was given
  back to a winner. -/
  votes_held : ∀ v T c, (v, T, c) ∈ a.votes → T = a.term v →
    a.vote v = some c ∨ c = v ∧ a.phase v = .follower ∧ ∃ w, (w, T) ∈ a.won
  /-- Of two different votes in a term, one was for oneself, and the term has a winner. -/
  votes_two : ∀ v T c c', (v, T, c) ∈ a.votes → (v, T, c') ∈ a.votes → c ≠ c' →
    (c = v ∨ c' = v) ∧ ∃ w, (w, T) ∈ a.won
  /-- A leader has won its term. -/
  leader_won : ∀ v, a.phase v = .leader → (v, a.term v) ∈ a.won
  /-- A winner leads its term as long as it is in it, unless it has failed; then it still has the
  vote for itself. -/
  won_leads : ∀ c T, (c, T) ∈ a.won → T ≤ a.term c ∧ (T = a.term c →
    a.phase c = .leader ∨ a.phase c = .follower ∧ a.vote c = some c)
  /-- A winner has voted for nobody else in its term. -/
  won_votes : ∀ c T c', (c, T) ∈ a.won → (c, T, c') ∈ a.votes → c' = c
  /-- A winner had the votes of a quorum, whose other members did not stand. -/
  won_quorum : ∀ c T, (c, T) ∈ a.won → ∃ A, Quorum A ∧
    ∀ v ∈ A, (v, T, c) ∈ a.votes ∧ (v ≠ c → (v, T, v) ∉ a.votes)
  /-- **A term has at most one winner.** -/
  won_unique : ∀ c c' T, (c, T) ∈ a.won → (c', T) ∈ a.won → c = c'

variable {Quorum} {a : State N τ}

/-- Becoming a follower keeps the invariant when the term is new, or has another winner. -/
lemma inv_follow (hinv : Inv Quorum a) {v : N} {t : τ} (ht : a.term v ≤ t)
    (hback : t = a.term v → a.phase v ≠ .follower ∧ ∃ c, c ≠ v ∧ (c, t) ∈ a.won) :
    Inv Quorum (a.follow v t) := by
  -- nobody who has won the term is the one that steps down
  have hnotwon : ∀ T, (v, T) ∈ a.won → T ≠ t := by
    rintro T hT rfl
    obtain ⟨hle, hlead⟩ := hinv.won_leads v T hT
    obtain ⟨-, c, hne, hc⟩ := hback (le_antisymm hle ht)
    exact hne (hinv.won_unique c v T hc hT)
  have hterm : ∀ w, a.term w ≤ (a.follow v t).term w := by
    intro w
    by_cases hw : w = v
    · subst hw
      simpa [State.follow] using ht
    · simp [State.follow, hw]
  refine ⟨?_, ?_, ?_, hinv.votes_two, ?_, ?_, hinv.won_votes, hinv.won_quorum, hinv.won_unique⟩
  · intro w hw
    by_cases h : w = v
    · simp [State.follow, h] at hw
    · simpa [State.follow, h] using hinv.standing w (by simpa [State.follow, h] using hw)
  · exact fun w T c hv => (hinv.votes_le w T c hv).trans (hterm w)
  · intro w T c hv hT
    by_cases h : w = v
    · subst h
      obtain rfl : T = t := by simpa [State.follow] using hT
      have hTt : T = a.term w := le_antisymm (hinv.votes_le w T c hv) ht
      obtain ⟨hphase, d, -, hd⟩ := hback hTt
      rcases hinv.votes_held w T c hv hTt with hheld | ⟨_, hfollow, _⟩
      · have hself := (hinv.standing w hphase).1
        rw [hheld] at hself
        exact .inr ⟨Option.some.inj hself, by simp [State.follow], d, hd⟩
      · exact absurd hfollow hphase
    · have hT' : T = a.term w := by simpa [State.follow, h] using hT
      simpa [State.follow, h] using hinv.votes_held w T c hv hT'
  · intro w hw
    by_cases h : w = v
    · simp [State.follow, h] at hw
    · simpa [State.follow, h] using hinv.leader_won w (by simpa [State.follow, h] using hw)
  · intro c T hc
    obtain ⟨hle, hlead⟩ := hinv.won_leads c T hc
    refine ⟨hle.trans (hterm c), fun hT => ?_⟩
    by_cases h : c = v
    · subst h
      exact absurd (by simpa [State.follow] using hT) (hnotwon T hc)
    · simpa [State.follow, h] using hlead (by simpa [State.follow, h] using hT)

/-- Standing in a new term keeps the invariant. -/
lemma inv_stand (hinv : Inv Quorum a) {v : N} {t : τ} (ht : a.term v < t) :
    Inv Quorum (a.stand v t) := by
  have hterm : ∀ w, a.term w ≤ (a.stand v t).term w := by
    intro w
    by_cases hw : w = v
    · subst hw
      simpa [State.stand] using ht.le
    · simp [State.stand, hw]
  -- what `v` voted before was in earlier terms
  have hold : ∀ T c, (v, T, c) ∈ a.votes → T ≠ t := by
    rintro T c hv rfl
    exact absurd (hinv.votes_le v T c hv) (not_le.mpr ht)
  have hwon : ∀ T, (v, T) ∈ a.won → T ≠ t := by
    rintro T hT rfl
    exact absurd (hinv.won_leads v T hT).1 (not_le.mpr ht)
  have hcases : ∀ w T c, (w, T, c) ∈ (a.stand v t).votes →
      (w = v ∧ T = t ∧ c = v) ∨ (w, T, c) ∈ a.votes := by
    intro w T c h
    simpa [State.stand] using h
  refine ⟨?_, ?_, ?_, ?_, ?_, ?_, ?_, ?_, hinv.won_unique⟩
  · intro w hw
    by_cases h : w = v
    · simp [State.stand, h]
    · have hs := hinv.standing w (by simpa [State.stand, h] using hw)
      simpa [State.stand, h] using hs
  · intro w T c hv
    rcases hcases w T c hv with ⟨rfl, rfl, -⟩ | hv
    · simp [State.stand]
    · exact (hinv.votes_le w T c hv).trans (hterm w)
  · intro w T c hv hT
    rcases hcases w T c hv with ⟨rfl, rfl, rfl⟩ | hv₀
    · exact .inl (by simp [State.stand])
    · by_cases h : w = v
      · subst h
        exact absurd (by simpa [State.stand] using hT) (hold T c hv₀)
      · have hT' : T = a.term w := by simpa [State.stand, h] using hT
        simpa [State.stand, h] using hinv.votes_held w T c hv₀ hT'
  · intro w T c c' hv hv' hne
    rcases hcases w T c hv with ⟨rfl, rfl, rfl⟩ | hv₀
    · rcases hcases c T c' hv' with ⟨_, _, rfl⟩ | hv₁
      · exact absurd rfl hne
      · exact absurd rfl (hold T c' hv₁)
    · rcases hcases w T c' hv' with ⟨rfl, rfl, rfl⟩ | hv₁
      · exact absurd rfl (hold T c hv₀)
      · exact hinv.votes_two w T c c' hv₀ hv₁ hne
  · intro w hw
    by_cases h : w = v
    · simp [State.stand, h] at hw
    · simpa [State.stand, h] using hinv.leader_won w (by simpa [State.stand, h] using hw)
  · intro c T hc
    obtain ⟨hle, hlead⟩ := hinv.won_leads c T hc
    refine ⟨hle.trans (hterm c), fun hT => ?_⟩
    by_cases h : c = v
    · subst h
      exact absurd (by simpa [State.stand] using hT) (hwon T hc)
    · simpa [State.stand, h] using hlead (by simpa [State.stand, h] using hT)
  · intro c T c' hc hv
    rcases hcases c T c' hv with ⟨rfl, rfl, -⟩ | hv
    · exact absurd rfl (hwon T hc)
    · exact hinv.won_votes c T c' hc hv
  · intro c T hc
    obtain ⟨A, hA, hvotes⟩ := hinv.won_quorum c T hc
    refine ⟨A, hA, fun w hw => ⟨.inr (hvotes w hw).1, fun hne hself => ?_⟩⟩
    rcases hcases w T w hself with ⟨rfl, rfl, -⟩ | hself
    · exact hold T c (hvotes w hw).1 rfl
    · exact (hvotes w hw).2 hne hself

/-- Voting for another node with a free vote keeps the invariant. -/
lemma inv_grant (hinv : Inv Quorum a) {v c : N} (hfree : a.vote v = none ∨ a.vote v = some c)
    (hne : c ≠ v) : Inv Quorum (a.grant v c) := by
  have hcases : ∀ w T d, (w, T, d) ∈ (a.grant v c).votes →
      (w = v ∧ T = a.term v ∧ d = c) ∨ (w, T, d) ∈ a.votes := by
    intro w T d h
    simpa [State.grant] using h
  -- the voter does not stand itself
  have hfollow : a.phase v = .follower := by
    by_contra hphase
    rw [(hinv.standing v hphase).1] at hfree
    rcases hfree with h | h
    · cases h
    · exact hne (Option.some.inj h).symm
  -- an earlier vote of this term is this one, or was given back
  have hprev : ∀ d, (v, a.term v, d) ∈ a.votes → d = c ∨ d = v ∧ ∃ w, (w, a.term v) ∈ a.won := by
    intro d hd
    rcases hinv.votes_held v _ d hd rfl with hheld | ⟨hdv, -, hw⟩
    · rw [hheld] at hfree
      rcases hfree with h | h
      · cases h
      · exact .inl (Option.some.inj h)
    · exact .inr ⟨hdv, hw⟩
  -- the voter has not won its term: it would have its own vote
  have hlost : (v, a.term v) ∉ a.won := by
    intro hw
    rcases (hinv.won_leads v _ hw).2 rfl with h | ⟨-, h⟩
    · rw [h] at hfollow
      cases hfollow
    · rw [h] at hfree
      rcases hfree with h' | h'
      · cases h'
      · exact hne (Option.some.inj h').symm
  refine ⟨?_, ?_, ?_, ?_, hinv.leader_won, ?_, ?_, ?_, hinv.won_unique⟩
  · intro w hw
    have hwv : w ≠ v := by
      rintro rfl
      exact hw hfollow
    have hs := hinv.standing w hw
    simpa [State.grant, hwv] using hs
  · intro w T d hv
    rcases hcases w T d hv with ⟨rfl, rfl, -⟩ | hv
    · exact le_rfl
    · exact hinv.votes_le w T d hv
  · intro w T d hv hT
    by_cases h : w = v
    · subst h
      obtain rfl : T = a.term w := hT
      rcases hcases w _ d hv with ⟨-, -, rfl⟩ | hv
      · exact .inl (by simp [State.grant])
      · rcases hprev d hv with rfl | ⟨rfl, hw⟩
        · exact .inl (by simp [State.grant])
        · exact .inr ⟨rfl, hfollow, hw⟩
    · have hv' : (w, T, d) ∈ a.votes := (hcases w T d hv).resolve_left fun h' => h h'.1
      simpa [State.grant, h] using hinv.votes_held w T d hv' hT
  · intro w T d d' hv hv' hdd
    rcases hcases w T d hv with ⟨rfl, rfl, rfl⟩ | hv₀
    · rcases hcases w _ d' hv' with ⟨-, -, rfl⟩ | hv₁
      · exact absurd rfl hdd
      · rcases hprev d' hv₁ with h | ⟨h, hw⟩
        · exact absurd h.symm hdd
        · exact ⟨.inr h, hw⟩
    · rcases hcases w T d' hv' with ⟨rfl, rfl, rfl⟩ | hv₁
      · rcases hprev d hv₀ with h | ⟨h, hw⟩
        · exact absurd h hdd
        · exact ⟨.inl h, hw⟩
      · exact hinv.votes_two w T d d' hv₀ hv₁ hdd
  · intro w T hw
    obtain ⟨hle, hlead⟩ := hinv.won_leads w T hw
    refine ⟨hle, fun hT => ?_⟩
    have hwv : w ≠ v := by
      rintro rfl
      exact hlost (hT ▸ hw)
    simpa [State.grant, hwv] using hlead hT
  · intro w T d hw hv
    rcases hcases w T d hv with ⟨rfl, rfl, -⟩ | hv
    · exact absurd hw hlost
    · exact hinv.won_votes w T d hw hv
  · intro w T hw
    obtain ⟨A, hA, hvotes⟩ := hinv.won_quorum w T hw
    refine ⟨A, hA, fun u hu => ⟨.inr (hvotes u hu).1, fun hne' hself => ?_⟩⟩
    rcases hcases u T u hself with ⟨rfl, -, rfl⟩ | hself
    · exact hne rfl
    · exact (hvotes u hu).2 hne' hself

/-- Coming back keeps the invariant. -/
lemma inv_restart (hinv : Inv Quorum a) {v : N} : Inv Quorum (a.restart v) := by
  have hphase : (a.restart v).phase v = .follower := by simp [State.restart]
  have hother : ∀ w, w ≠ v → (a.restart v).phase w = a.phase w := by
    intro w hw
    simp [State.restart, hw]
  refine { hinv with standing := ?_, votes_held := ?_, leader_won := ?_, won_leads := ?_ }
  · intro w hw
    by_cases h : w = v
    · subst h
      exact absurd hphase hw
    · exact hinv.standing w (by rwa [hother w h] at hw)
  · intro w T c hv hT
    refine (hinv.votes_held w T c hv hT).imp_right fun ⟨hc, hfollow, hwon⟩ => ⟨hc, ?_, hwon⟩
    by_cases h : w = v
    · rw [h, hphase]
    · rwa [hother w h]
  · intro w hw
    by_cases h : w = v
    · subst h
      rw [hphase] at hw
      cases hw
    · exact hinv.leader_won w (by rwa [hother w h] at hw)
  · intro c T hc
    obtain ⟨hle, hlead⟩ := hinv.won_leads c T hc
    refine ⟨hle, fun hT => ?_⟩
    by_cases h : c = v
    · subst h
      rcases hlead hT with hleader | ⟨-, hvote⟩
      · exact .inr ⟨hphase, (hinv.standing c (by simp [hleader])).1⟩
      · exact .inr ⟨hphase, hvote⟩
    · rw [hother c h]
      exact hlead hT

/-- **Winning keeps the invariant**, because there cannot be another winner yet: the two quorums
share a voter, which voted twice in the term, so it is one of the two candidates; but the earlier
winner votes only for itself, and its quorum contains no other candidate. -/
lemma inv_win (hquorum : ∀ A B, Quorum A → Quorum B → ∃ v ∈ A, v ∈ B) (hinv : Inv Quorum a)
    {c : N} {A : Finset N} (hphase : a.phase c = .candidate) (hA : Quorum A)
    (hvotes : ∀ v ∈ A, (v, a.term c, c) ∈ a.votes) : Inv Quorum (a.win c) := by
  have hself := (hinv.standing c (by simp [hphase])).2
  have hfirst : ∀ w, (w, a.term c) ∉ a.won := by
    intro w hw
    have hwc : w ≠ c := by
      rintro rfl
      rcases (hinv.won_leads w _ hw).2 rfl with h | ⟨h, -⟩
      · rw [hphase] at h
        cases h
      · rw [hphase] at h
        cases h
    obtain ⟨B, hB, hB'⟩ := hinv.won_quorum w _ hw
    obtain ⟨u, huA, huB⟩ := hquorum A B hA hB
    rcases (hinv.votes_two u _ c w (hvotes u huA) (hB' u huB).1 hwc.symm).1 with rfl | rfl
    · exact (hB' c huB).2 hwc.symm hself
    · exact hwc (hinv.won_votes w _ c hw (hvotes w huA)).symm
  have hsingle : ∀ v d, (v, a.term c, d) ∈ a.votes → (v, a.term c, c) ∈ a.votes → d = c := by
    intro v d hv hvc
    by_contra hdc
    obtain ⟨w, hw⟩ := (hinv.votes_two v _ d c hv hvc hdc).2
    exact hfirst w hw
  have hcases : ∀ w T, (w, T) ∈ (a.win c).won → (w = c ∧ T = a.term c) ∨ (w, T) ∈ a.won := by
    intro w T h
    simpa [State.win] using h
  refine ⟨?_, hinv.votes_le, ?_, ?_, ?_, ?_, ?_, ?_, ?_⟩
  · intro w hw
    by_cases h : w = c
    · subst h
      exact hinv.standing w (by simp [hphase])
    · exact hinv.standing w (by simpa [State.win, h] using hw)
  · intro w T d hv hT
    rcases hinv.votes_held w T d hv hT with h | ⟨h, hfollow, x, hx⟩
    · exact .inl h
    · have hwc : w ≠ c := by
        rintro rfl
        rw [hphase] at hfollow
        cases hfollow
      exact .inr ⟨h, by simpa [State.win, hwc] using hfollow, x, .inr hx⟩
  · intro w T d d' hv hv' hne
    obtain ⟨h, x, hx⟩ := hinv.votes_two w T d d' hv hv' hne
    exact ⟨h, x, .inr hx⟩
  · intro w hw
    by_cases h : w = c
    · subst h
      exact .inl rfl
    · exact .inr (hinv.leader_won w (by simpa [State.win, h] using hw))
  · intro w T hw
    rcases hcases w T hw with ⟨rfl, rfl⟩ | hw
    · exact ⟨le_rfl, fun _ => .inl (by simp [State.win])⟩
    · obtain ⟨hle, hlead⟩ := hinv.won_leads w T hw
      refine ⟨hle, fun hT => ?_⟩
      by_cases h : w = c
      · exact .inl (by simp [State.win, h])
      · simpa [State.win, h] using hlead hT
  · intro w T d hw hv
    rcases hcases w T hw with ⟨rfl, rfl⟩ | hw
    · exact hsingle w d hv hself
    · exact hinv.won_votes w T d hw hv
  · intro w T hw
    rcases hcases w T hw with ⟨rfl, rfl⟩ | hw
    · refine ⟨A, hA, fun v hv => ⟨hvotes v hv, fun hne hvself => ?_⟩⟩
      exact hne (hsingle v v hvself (hvotes v hv))
    · exact hinv.won_quorum w T hw
  · intro w w' T hw hw'
    rcases hcases w T hw with ⟨hwc, hT⟩ | hw₀ <;> rcases hcases w' T hw' with ⟨hwc', hT'⟩ | hw₁
    · rw [hwc, hwc']
    · rw [hT] at hw₁
      exact absurd hw₁ (hfirst w')
    · rw [hT'] at hw₀
      exact absurd hw₀ (hfirst w)
    · exact hinv.won_unique w w' T hw₀ hw₁

/-- **Every step keeps the invariant**, in particular that a term has at most one winner. -/
theorem inv_step (hquorum : ∀ A B, Quorum A → Quorum B → ∃ v ∈ A, v ∈ B) (hinv : Inv Quorum a)
    {b : State N τ} (h : Step Quorum a b) : Inv Quorum b := by
  cases h with
  | raise h => exact inv_follow hinv h.le fun ht => absurd ht h.ne'
  | release hphase hne hwon => exact inv_follow hinv le_rfl fun _ => ⟨hphase, _, hne, hwon⟩
  | stand h => exact inv_stand hinv h
  | grant hfree hne => exact inv_grant hinv hfree hne
  | restart => exact inv_restart hinv
  | win hphase hA hvotes => exact inv_win hquorum hinv hphase hA hvotes

/-- Nobody has voted or won: the invariant holds. -/
lemma inv_init {term : N → τ} {vote : N → Option N} :
    Inv Quorum ⟨term, vote, fun _ => .follower, ∅, ∅⟩ := by
  constructor <;> simp

end Voting
