import SkyMoonScope.Governance.Tallies

/-!
# The execution of a proposal

An execution needs a threshold of admins, an open proposal whose window has ended, and the delay
since then. It closes the proposal, as a call of the admin may do before, and a closed proposal
takes neither votes nor another execution. What no check looks at is the outcome of the vote. The
end of the delay saturates at the greatest ledger.

## Main definitions

* `executes id l`, `closes id l`: the calls that end a proposal
* `ExecutedSafely`: what is expected of an execution
* `Safe`, `Passed`: what is expected of a call, and the condition under which it is met

## Main results

* `created_once`: an id is given out once, below the greatest
* `settled_step`: a proposal that is open was neither executed nor closed
* `execution_safe_iff_passed`: a run is safe just when every executed proposal has passed, and its
  delay ends within the range of the ledgers
* `execution_unsafe`: a proposal without votes is executed
-/

namespace Governance

open Soroban Machine Function

variable {Address : Type}

/-- The call has executed the proposal. -/
def executes (id : ℕ) (l : Event Address) : Bool :=
  match l.call, l.result with
  | .executeProposal id' _, .ok _ => id' = id
  | _, _ => false

/-- The call has closed the proposal. -/
def closes (id : ℕ) (l : Event Address) : Bool :=
  match l.call, l.result with
  | .closeProposal id', .ok _ => id' = id
  | _, _ => false

section Specification

variable [DecidableEq Address]

/-- An execution is the first one since the proposal was created, which was not closed, after the
voting and its delay, with enough approvals, of a proposal that has passed. -/
structure ExecutedSafely (ls : List (Event Address)) (s : State Address) (env : Env Address)
    (id : ℕ) (approvers : List Address) : Prop where
  once : ∀ l ∈ sinceCreated id ls, executes id l = false
  not_closed : ∀ l ∈ sinceCreated id ls, closes id l = false
  approved : Approved env s approvers
  after_voting : ∀ p ∈ s.proposal id, p.votingEndsAt < env.sequence
  after_delay : ∀ p ∈ s.proposal id,
    p.votingEndsAt + s.executionDelayLedgers ≤ env.sequence
  passed : ∃ p ∈ s.proposal id, p.againstVotes < p.forVotes

/-- The executions are safe, and there is no vote after one. -/
structure Safe (ls : List (Event Address)) (s : State Address) (l : Event Address) : Prop where
  execution : ∀ id approvers r, l.call = .executeProposal id approvers → l.result = .ok r →
    ExecutedSafely ls s l.host id approvers
  no_vote_after : ∀ id voter support credits r, l.call = .castVote id voter support credits →
    l.result = .ok r → ∀ k ∈ sinceCreated id ls, executes id k = false

omit [DecidableEq Address] in
/-- A proposal that is executed has passed, and its delay ends within the range of the ledgers. -/
def Passed (s : State Address) (l : Event Address) : Prop :=
  ∀ id approvers r, l.call = .executeProposal id approvers → l.result = .ok r →
    ∃ p ∈ s.proposal id, p.againstVotes < p.forVotes ∧
      p.votingEndsAt + s.executionDelayLedgers < 2 ^ 32

end Specification

section Steps

variable [DecidableEq Address] {env : Env Address} {call : Call Address} {s t : State Address}
  {ls : List (Event Address)} {v : Response Address}

/-! ## Ids -/

/-- No id from the next one on was given out, and none twice, but for the greatest. -/
structure IdsOnce (ls : List (Event Address)) (s : State Address) : Prop where
  uninitialized : s.admin = none → ∀ id, ls.countP (creates id) = 0
  unused : ∀ id, id + 1 < 2 ^ 32 → s.nextProposalId ≤ id → ls.countP (creates id) = 0
  once : ∀ id, id + 1 < 2 ^ 32 → ls.countP (creates id) ≤ 1

omit [DecidableEq Address] in
theorem countP_creates_concat {l : Event Address} {id : ℕ} :
    (ls ++ [l]).countP (creates id) =
      ls.countP (creates id) + if creates id l then 1 else 0 := by
  rw [List.countP_append, List.countP_singleton]

theorem idsOnce_step (hs : IdsOnce ls s) (hreturns : Returns (entryPoint env call) s v t) :
    IdsOnce (ls ++ [⟨env, call, .ok v⟩]) t := by
  -- a call that creates nothing, and either initialises the contract or gives out no id
  have hother : (∀ id, creates id ⟨env, call, .ok v⟩ = false) →
      (t.admin = s.admin ∧ t.nextProposalId = s.nextProposalId ∨
        s.admin = none ∧ t.admin.isSome) → IdsOnce (ls ++ [⟨env, call, .ok v⟩]) t := by
    intro hcreates hcases
    have hcount : ∀ id, List.countP (creates id) (ls ++ [⟨env, call, .ok v⟩]) =
        ls.countP (creates id) := by
      intro id
      rw [countP_creates_concat, hcreates, if_neg Bool.false_ne_true, add_zero]
    rcases hcases with ⟨hadmin, hnext⟩ | ⟨hnone, hsome⟩
    · refine ⟨fun hadmin' id => ?_, fun id hid hle => ?_, fun id hid => ?_⟩
      · rw [hcount]
        exact hs.uninitialized (hadmin ▸ hadmin') id
      · rw [hcount]
        exact hs.unused id hid (hnext ▸ hle)
      · rw [hcount]
        exact hs.once id hid
    · refine ⟨fun hadmin' => ?_, fun id _ _ => ?_, fun id hid => ?_⟩
      · rw [hadmin'] at hsome
        cases hsome
      · rw [hcount]
        exact hs.uninitialized hnone id
      · rw [hcount]
        exact hs.once id hid
  cases call with
  | initializeContract admin minVotingUnits identityRequired executionDelayLedgers =>
    obtain ⟨r, h, rfl⟩ := returns_map.mp hreturns
    obtain ⟨⟨hnone, -⟩, rfl⟩ := returns_initializeWithAdmins.mp (returns_initializeContract h)
    exact hother (fun _ => rfl) (.inr ⟨hnone, rfl⟩)
  | initializeWithAdmins admin executionAdmins executionThreshold minVotingUnits identityRequired
      executionDelayLedgers =>
    obtain ⟨r, h, rfl⟩ := returns_map.mp hreturns
    obtain ⟨⟨hnone, -⟩, rfl⟩ := returns_initializeWithAdmins.mp h
    exact hother (fun _ => rfl) (.inr ⟨hnone, rfl⟩)
  | setExecutionDelay executionDelayLedgers =>
    obtain ⟨r, h, rfl⟩ := returns_map.mp hreturns
    obtain rfl := returns_setExecutionDelay h
    exact hother (fun _ => rfl) (.inl ⟨rfl, rfl⟩)
  | registerVoter voter votingUnits identityCommitment =>
    obtain ⟨r, h, rfl⟩ := returns_map.mp hreturns
    obtain ⟨_, _, _, rfl⟩ := returns_registerVoter h
    exact hother (fun _ => rfl) (.inl ⟨rfl, rfl⟩)
  | createProposal title description votingEndsAt =>
    obtain ⟨r, h, rfl⟩ := returns_map.mp hreturns
    obtain ⟨admin, _, _, hadmin, -, rfl, rfl⟩ := returns_createProposal h
    -- the next id is the only one that is counted once more
    refine ⟨fun hnone => ?_, fun id hid hle => ?_, fun id hid => ?_⟩
    · cases hadmin.symm.trans hnone
    · have hlt : s.nextProposalId < id := by
        simp only [saturatingAdd] at hle
        omega
      rw [countP_creates_concat, hs.unused id hid hlt.le]
      simp [creates, hlt.ne]
    · rw [countP_creates_concat]
      by_cases heq : s.nextProposalId = id
      · rw [hs.unused id hid heq.le]
        split <;> simp
      · simpa [creates, heq] using hs.once id hid
  | updateProposalText id title description =>
    obtain ⟨r, h, rfl⟩ := returns_map.mp hreturns
    obtain ⟨p, _, _, -, -, rfl⟩ := returns_updateProposalText h
    exact hother (fun _ => rfl) (.inl ⟨rfl, rfl⟩)
  | closeProposal id =>
    obtain ⟨r, h, rfl⟩ := returns_map.mp hreturns
    obtain ⟨p, -, rfl⟩ := returns_closeProposal h
    exact hother (fun _ => rfl) (.inl ⟨rfl, rfl⟩)
  | executeProposal id approvers =>
    obtain ⟨r, h, rfl⟩ := returns_map.mp hreturns
    obtain ⟨p, -, rfl⟩ := returns_executeProposal h
    exact hother (fun _ => rfl) (.inl ⟨rfl, rfl⟩)
  | castVote id voter support credits =>
    obtain ⟨r, h, rfl⟩ := returns_map.mp hreturns
    obtain ⟨p, _, -, rfl⟩ := returns_castVote h
    exact hother (fun _ => rfl) (.inl ⟨rfl, rfl⟩)

/-- **An id is given out once** in every run, but for the greatest of the type, so that the calls
since its proposal was created are all that were ever made for it. -/
theorem created_once (h : Run (Step entryPoint) (State.initial Address) ls s) {id : ℕ}
    (hid : id + 1 < 2 ^ 32) : ls.countP (creates id) ≤ 1 := by
  have hids : IdsOnce ls s := by
    refine history_of_returns (P := fun _ _ _ => True) (J := IdsOnce) ?_ ?_
      (run_unconditional h) ⟨fun _ _ => rfl, fun _ _ _ => rfl, fun _ _ => Nat.zero_le 1⟩
    · intro ks env call u v w hu hreturns _
      exact idsOnce_step hu hreturns
    · intro ks env call u fault hu
      have hcount : ∀ id, List.countP (creates id) (ks ++ [⟨env, call, .error fault⟩]) =
          ks.countP (creates id) := by
        intro id
        rw [countP_creates_concat]
        cases call <;> rfl
      refine ⟨fun hnone id => ?_, fun id hid hle => ?_, fun id hid => ?_⟩
      · rw [hcount]
        exact hu.uninitialized hnone id
      · rw [hcount]
        exact hu.unused id hid hle
      · rw [hcount]
        exact hu.once id hid
  exact hids.once id hid

/-! ## Open proposals -/

omit [DecidableEq Address] in
/-- The call ends the proposal. -/
def settles (id : ℕ) (l : Event Address) : Bool := executes id l || closes id l

omit [DecidableEq Address] in
/-- A proposal that is open was not ended since it was created. -/
def Settled (ls : List (Event Address)) (s : State Address) : Prop :=
  ∀ id, ∀ p ∈ s.proposal id, p.id = id ∧
    (p.isOpen = true → ∀ l ∈ sinceCreated id ls, settles id l = false)

theorem settled_step (hs : Settled ls s) (hreturns : Returns (entryPoint env call) s v t) :
    Settled (ls ++ [⟨env, call, .ok v⟩]) t := by
  -- one more call that does not end a proposal
  have hmore : ∀ {id}, settles id ⟨env, call, .ok v⟩ = false →
      (∀ l ∈ sinceCreated id ls, settles id l = false) →
      ∀ l ∈ sinceCreated id (ls ++ [⟨env, call, .ok v⟩]), settles id l = false := by
    intro id hlast hls l hl
    rw [sinceCreated_concat] at hl
    split at hl
    · cases hl
    · rcases List.mem_append.mp hl with hl | hl
      · exact hls l hl
      · obtain rfl := List.mem_singleton.mp hl
        exact hlast
  -- a call that writes one proposal, which may be left open only where the call does not end it
  have hwrite : ∀ {id p p'}, p ∈ s.proposal id → t.proposal = update s.proposal p.id (some p') →
      p'.id = p.id → (p'.isOpen = true → p.isOpen = true ∧ settles id ⟨env, call, .ok v⟩ = false) →
      (∀ id', id' ≠ id → settles id' ⟨env, call, .ok v⟩ = false) →
      Settled (ls ++ [⟨env, call, .ok v⟩]) t := by
    intro id p p' hp hproposal hid hopen hother id' q hq
    obtain ⟨hkey, hsettled⟩ := hs id p hp
    rw [hproposal, hkey, Option.mem_def] at hq
    by_cases heq : id' = id
    · subst heq
      rw [update_self] at hq
      obtain rfl := Option.some.inj hq
      refine ⟨hid.trans hkey, fun hq' => ?_⟩
      obtain ⟨hp', hlast⟩ := hopen hq'
      exact hmore hlast (hsettled hp')
    · rw [update_of_ne heq] at hq
      obtain ⟨hkey', hsettled'⟩ := hs id' q hq
      exact ⟨hkey', fun hq' => hmore (hother id' heq) (hsettled' hq')⟩
  have hsame : (∀ id, settles id ⟨env, call, .ok v⟩ = false) → t.proposal = s.proposal →
      Settled (ls ++ [⟨env, call, .ok v⟩]) t := by
    intro hlast hproposal id p hp
    obtain ⟨hkey, hsettled⟩ := hs id p (hproposal ▸ hp)
    exact ⟨hkey, fun hp' => hmore (hlast id) (hsettled hp')⟩
  cases call with
  | initializeContract admin minVotingUnits identityRequired executionDelayLedgers =>
    obtain ⟨r, h, rfl⟩ := returns_map.mp hreturns
    obtain ⟨-, rfl⟩ := returns_initializeWithAdmins.mp (returns_initializeContract h)
    exact hsame (fun _ => rfl) rfl
  | initializeWithAdmins admin executionAdmins executionThreshold minVotingUnits identityRequired
      executionDelayLedgers =>
    obtain ⟨r, h, rfl⟩ := returns_map.mp hreturns
    obtain ⟨-, rfl⟩ := returns_initializeWithAdmins.mp h
    exact hsame (fun _ => rfl) rfl
  | setExecutionDelay executionDelayLedgers =>
    obtain ⟨r, h, rfl⟩ := returns_map.mp hreturns
    obtain rfl := returns_setExecutionDelay h
    exact hsame (fun _ => rfl) rfl
  | registerVoter voter votingUnits identityCommitment =>
    obtain ⟨r, h, rfl⟩ := returns_map.mp hreturns
    obtain ⟨_, _, _, rfl⟩ := returns_registerVoter h
    exact hsame (fun _ => rfl) rfl
  | createProposal title description votingEndsAt =>
    obtain ⟨r, h, rfl⟩ := returns_map.mp hreturns
    obtain ⟨admin, _, _, -, -, rfl, rfl⟩ := returns_createProposal h
    intro id p hp
    by_cases heq : id = s.nextProposalId
    · subst heq
      dsimp only at hp
      rw [update_self, Option.mem_def] at hp
      obtain rfl := Option.some.inj hp
      refine ⟨rfl, fun _ l hl => ?_⟩
      rw [sinceCreated_concat, if_pos (by simp [creates])] at hl
      cases hl
    · dsimp only at hp
      rw [update_of_ne heq] at hp
      obtain ⟨hkey, hsettled⟩ := hs id p hp
      exact ⟨hkey, fun hp' => hmore rfl (hsettled hp')⟩
  | updateProposalText id title description =>
    obtain ⟨r, h, rfl⟩ := returns_map.mp hreturns
    obtain ⟨p, _, _, hp, hopen, rfl⟩ := returns_updateProposalText h
    exact hwrite hp rfl rfl (fun _ => ⟨hopen, rfl⟩) fun _ _ => rfl
  | closeProposal id =>
    obtain ⟨r, h, rfl⟩ := returns_map.mp hreturns
    obtain ⟨p, hp, rfl⟩ := returns_closeProposal h
    exact hwrite hp rfl rfl Bool.noConfusion fun id' hne => by
      simpa [settles, executes, closes] using hne.symm
  | executeProposal id approvers =>
    obtain ⟨r, h, rfl⟩ := returns_map.mp hreturns
    obtain ⟨p, hexecutes, rfl⟩ := returns_executeProposal h
    exact hwrite hexecutes.proposal rfl rfl Bool.noConfusion fun id' hne => by
      simpa [settles, executes, closes] using hne.symm
  | castVote id voter support credits =>
    obtain ⟨r, h, rfl⟩ := returns_map.mp hreturns
    obtain ⟨p, _, hvotes, rfl⟩ := returns_castVote h
    exact hwrite hvotes.proposal rfl addVotes_id (fun _ => ⟨hvotes.isOpen, rfl⟩) fun _ _ => rfl

omit [DecidableEq Address] in
/-- A call that fails ends nothing. -/
theorem settled_concat_error (hs : Settled ls s) {fault : Fault Error} :
    Settled (ls ++ [⟨env, call, .error fault⟩]) s := by
  intro id p hp
  obtain ⟨hkey, hsettled⟩ := hs id p hp
  refine ⟨hkey, fun hp' l hl => ?_⟩
  have hcreates : creates id ⟨env, call, .error fault⟩ = false := by cases call <;> rfl
  rw [sinceCreated_concat, hcreates, if_neg Bool.false_ne_true] at hl
  rcases List.mem_append.mp hl with hl | hl
  · exact hsettled hp' l hl
  · obtain rfl := List.mem_singleton.mp hl
    cases call <;> rfl

/-! ## Executions -/

/-- **A call that returns is safe** just when a proposal that it executes has passed, and its delay
ends within the range of the ledgers. -/
theorem safe_iff_passed (hs : Settled ls s) (hreturns : Returns (entryPoint env call) s v t) :
    Safe ls s ⟨env, call, .ok v⟩ ↔ Passed s ⟨env, call, .ok v⟩ := by
  constructor
  · intro hsafe id approvers r hcall hresult
    obtain ⟨-, -, -, -, hdelay, p, hp, hpassed⟩ := hsafe.execution id approvers r hcall hresult
    exact ⟨p, hp, hpassed, (hdelay p hp).trans_lt env.sequence_lt⟩
  · intro hpassed
    refine ⟨fun id approvers r hcall hresult => ?_,
      fun id voter support credits r hcall hresult k hk => ?_⟩
    · obtain ⟨p, hp, hmajority, hrange⟩ := hpassed id approvers r hcall hresult
      obtain rfl : call = .executeProposal id approvers := hcall
      obtain ⟨r, h, rfl⟩ := returns_map.mp hreturns
      obtain ⟨p', hexecutes, -⟩ := returns_executeProposal h
      have hunique : ∀ q ∈ s.proposal id, q = p' :=
        fun q hq => Option.some.inj (hq.symm.trans hexecutes.proposal)
      obtain rfl := hunique p hp
      have hsettled := (hs id p hp).2 hexecutes.isOpen
      refine ⟨fun l hl => ?_, fun l hl => ?_, hexecutes.approved, fun q hq => ?_,
        fun q hq => ?_, p, hp, hmajority⟩
      · exact (Bool.or_eq_false_iff.mp (hsettled l hl)).1
      · exact (Bool.or_eq_false_iff.mp (hsettled l hl)).2
      · obtain rfl := hunique q hq
        exact hexecutes.after_voting
      · obtain rfl := hunique q hq
        -- within the range the sum does not saturate
        have hdelay := hexecutes.after_delay
        rw [saturatingAdd, min_eq_left (Nat.le_sub_one_of_lt hrange)] at hdelay
        exact hdelay
    · obtain rfl : call = .castVote id voter support credits := hcall
      obtain ⟨r, h, rfl⟩ := returns_map.mp hreturns
      obtain ⟨p, _, hvotes, -⟩ := returns_castVote h
      exact (Bool.or_eq_false_iff.mp ((hs id p hvotes.proposal).2 hvotes.isOpen k hk)).1

end Steps

/-- **Safe executions.** All calls of a run are safe (a proposal is executed at most once since it
was created and never after it was closed, after the voting and its delay, with enough different
admins, only when it has passed, and no vote comes after it) if and only if every proposal that is
executed has more votes for it than against it, and its delay ends within the range of the
ledgers. -/
theorem execution_safe_iff_passed [DecidableEq Address] {ls : List (Event Address)}
    {s : State Address} :
    Run (fun q l q' => recorded (Step entryPoint) q l q' ∧ Safe q.1 q.2 l)
        ([], State.initial Address) ls (ls, s) ↔
      Run (fun q l q' => recorded (Step entryPoint) q l q' ∧ Passed q.2 l)
        ([], State.initial Address) ls (ls, s) := by
  refine Run.and_iff_of_invariant (I := fun q => Settled q.1 q.2) ?_ ?_ ?_
  · rintro ⟨ks, u⟩ ⟨env, call, result⟩ ⟨_, w⟩ hu ⟨rfl, hl⟩ -
    rcases hl.cases with ⟨v, rfl, hreturns⟩ | ⟨⟨fault, rfl⟩, hw⟩
    · exact settled_step hu hreturns
    · obtain rfl : w = u := hw
      exact settled_concat_error hu
  · rintro ⟨ks, u⟩ ⟨env, call, result⟩ ⟨_, w⟩ hu ⟨rfl, hl⟩
    rcases hl.cases with ⟨v, rfl, hreturns⟩ | ⟨⟨fault, rfl⟩, -⟩
    · exact safe_iff_passed hu hreturns
    · -- a call that fails neither executes nor votes
      refine iff_of_true ⟨fun _ _ _ _ hresult => ?_, fun _ _ _ _ _ _ hresult => ?_⟩
        fun _ _ _ _ hresult => ?_ <;> cases hresult
  · intro id p hp
    cases hp

/-- A proposal on which nobody votes. -/
def sampleUnvoted : List (Env ℕ × Call ℕ) :=
  [(sampleEnv 1 5, .initializeContract 1 9 false 0),
   (sampleEnv 1 10, .createProposal "Title" "Description" 11)]

/-- A proposal without votes is executed. -/
theorem execution_unsafe :
    ¬ ∀ (ls : List (Event ℕ)) (s t : State ℕ) (l : Event ℕ),
      Run (Step entryPoint) (State.initial ℕ) ls s → Step entryPoint s l t → Safe ls s l := by
  intro h
  obtain ⟨r, hr⟩ := exists_returns_of_isOk (show
    (invoke (entryPoint (sampleEnv 1 12) (.executeProposal 0 [1]))
      (execute entryPoint (State.initial ℕ) sampleUnvoted).2).1.isOk = true by decide +kernel)
  have hsafe := h _ _ _ ⟨sampleEnv 1 12, .executeProposal 0 [1], .ok r⟩
    (run_execute entryPoint (State.initial ℕ) sampleUnvoted) (invoke_eq_ok.mpr hr)
  obtain ⟨p, hp, hpassed⟩ := (hsafe.execution 0 [1] r rfl rfl).passed
  have hunvoted : ((execute entryPoint (State.initial ℕ) sampleUnvoted).2.proposal 0).all
      (fun p => p.forVotes ≤ p.againstVotes) = true := by decide +kernel
  rw [Option.mem_def.mp hp] at hunvoted
  exact absurd hpassed (not_lt.mpr (of_decide_eq_true hunvoted))

end Governance
