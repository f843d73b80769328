import SkyMoonScope.Governance.Effects
import SkyMoonScope.Lib.Tally

/-!
# The tallies of the proposals

A vote adds to its side the difference of two square roots, that of the credits its voter has spent
by then and that of those before. The receipt of a voter keeps the credits and the side, and a vote
for the other side is refused. So a side has the sum over its voters of the square root of what each
of them has spent on it, however the credits came.

## Main definitions

* `ballotsOn id ls`: the votes cast on a proposal
* `creditsOn p support voter`: the credits that the receipts have on a side
* `Recorded`: the receipts and the votes of a proposal are those of its ballots
* `QuadraticTally`: what the tallies of a proposal are

## Main results

* `recorded_vote`: a vote is recorded
* `recorded_step`: every call that returns keeps the records
* `quadratic_tally`: the tallies in every run
-/

namespace Governance

open Soroban Machine Function Tally Accounts

variable {Address : Type}

/-- The ballot of a call that has voted on the proposal. -/
def ballotOn (id : ℕ) (l : Event Address) : Option (Ballot Address) :=
  match l.call, l.result with
  | .castVote id' voter support credits, .ok _ =>
    if id' = id then some ⟨voter, support, credits⟩ else none
  | _, _ => none

/-- The ballots on a proposal, since it was created. -/
def ballotsOn (id : ℕ) (ls : List (Event Address)) : List (Ballot Address) :=
  (sinceCreated id ls).filterMap (ballotOn id)

theorem ballotsOn_concat {id : ℕ} {ls : List (Event Address)} {l : Event Address} :
    ballotsOn id (ls ++ [l]) =
      if creates id l then [] else ballotsOn id ls ++ (ballotOn id l).toList := by
  rw [ballotsOn, sinceCreated_concat]
  split
  · rfl
  · rw [List.filterMap_append, List.filterMap_cons, ballotsOn]
    cases ballotOn id l <;> rfl

/-- The credits that the receipt of a voter has on a side. -/
def creditsOn (p : Proposal Address) (support : Bool) (voter : Address) : ℤ :=
  match p.voterReceipts voter with
  | some receipt => if receipt.support = support then receipt.creditsSpent else 0
  | none => 0

def Proposal.votes (p : Proposal Address) (support : Bool) : ℤ :=
  if support then p.forVotes else p.againstVotes

/-- A receipt is for the units of its voter in the snapshot, and for some credits within them. -/
structure ReceiptWithin (snapshot : Address → Option ℤ) (voter : Address) (receipt : VoteReceipt) :
    Prop where
  snapshot_eq : snapshot voter = some receipt.votingUnitsSnapshot
  pos : 0 < receipt.creditsSpent
  within : receipt.creditsSpent ≤ receipt.votingUnitsSnapshot

section Records

variable [DecidableEq Address]

/-- What is stored of a proposal is what its ballots amount to. -/
structure Recorded (ballots : List (Ballot Address)) (s : State Address) (id : ℕ)
    (p : Proposal Address) : Prop where
  id_eq : p.id = id
  credits : ∀ support voter, spent ballots support voter = creditsOn p support voter
  votes : ∀ support, p.votes support = tally isqrt ballots support
  receipts : ∃ snapshot, s.proposalSnapshot id = some snapshot ∧
    ∀ voter, ∀ receipt ∈ p.voterReceipts voter, ReceiptWithin snapshot voter receipt
  voted : ∀ ballot ∈ ballots, (p.voterReceipts ballot.voter).isSome

/-- The tallies of a proposal are the sums over the voters of the square roots of the credits that
each has spent on a side, which are within the voter's units in the snapshot, and on one side. -/
structure QuadraticTally (ballots : List (Ballot Address)) (s : State Address) (id : ℕ)
    (p : Proposal Address) : Prop where
  forVotes : p.forVotes = ∑ᶠ voter, isqrt (spent ballots true voter)
  againstVotes : p.againstVotes = ∑ᶠ voter, isqrt (spent ballots false voter)
  within_snapshot : ∀ ballot ∈ ballots, ∃ snapshot votingUnits,
    s.proposalSnapshot id = some snapshot ∧ snapshot ballot.voter = some votingUnits ∧
      spent ballots true ballot.voter + spent ballots false ballot.voter ≤ votingUnits
  one_side : ∀ voter, spent ballots true voter = 0 ∨ spent ballots false voter = 0

variable {ballots : List (Ballot Address)} {s t : State Address} {id : ℕ} {p : Proposal Address}

theorem Recorded.quadraticTally (h : Recorded ballots s id p) : QuadraticTally ballots s id p where
  forVotes := h.votes true
  againstVotes := h.votes false
  within_snapshot := by
    intro ballot hballot
    obtain ⟨snapshot, hsnapshot, hreceipts⟩ := h.receipts
    obtain ⟨receipt, hreceipt⟩ := Option.isSome_iff_exists.mp (h.voted ballot hballot)
    have hwithin := hreceipts ballot.voter receipt hreceipt
    refine ⟨snapshot, receipt.votingUnitsSnapshot, hsnapshot, hwithin.snapshot_eq, ?_⟩
    rw [h.credits, h.credits, creditsOn, creditsOn, hreceipt]
    -- the receipt is for one of the sides
    cases hside : receipt.support <;> simpa [hside] using hwithin.within
  one_side := by
    intro voter
    rw [h.credits, h.credits, creditsOn, creditsOn]
    cases hreceipt : p.voterReceipts voter with
    | none => exact .inl rfl
    | some receipt => cases hside : receipt.support <;> simp [hside]

/-- A proposal of the same id, votes and receipts, and the same snapshot, is recorded as well. -/
theorem Recorded.congr {p' : Proposal Address} (h : Recorded ballots s id p)
    (hsnapshot : t.proposalSnapshot = s.proposalSnapshot) (hid : p'.id = p.id)
    (hfor : p'.forVotes = p.forVotes) (hagainst : p'.againstVotes = p.againstVotes)
    (hreceipts : p'.voterReceipts = p.voterReceipts) : Recorded ballots t id p' where
  id_eq := hid.trans h.id_eq
  credits := by
    unfold creditsOn
    rw [hreceipts]
    exact h.credits
  votes := by
    unfold Proposal.votes
    rw [hfor, hagainst]
    exact h.votes
  receipts := by
    rw [hsnapshot, hreceipts]
    exact h.receipts
  voted := by
    rw [hreceipts]
    exact h.voted

/-- A new proposal has no ballots. -/
theorem recorded_new {snapshot : Address → Option ℤ} {creator : Address}
    {title description : String} {votingEndsAt : ℕ}
    (hsnapshot : s.proposalSnapshot id = some snapshot) :
    Recorded [] s id
      ⟨id, creator, title, description, votingEndsAt, 0, 0, true, fun _ => none⟩ where
  id_eq := rfl
  credits := fun _ _ => rfl
  votes := by
    intro support
    rw [tally_nil isqrt_zero]
    cases support <;> rfl
  receipts := ⟨snapshot, hsnapshot, fun _ _ h => by cases h⟩
  voted := by simp

/-! ## A vote -/

section Vote

variable {env : Env Address} {voter : Address} {support : Bool} {credits votingUnits : ℤ}

/-- The receipt before a vote has what the voter has spent on its side, and nothing was spent on
the other one. -/
theorem spent_eq_receiptOf (h : Recorded ballots s id p)
    (hv : Votes env s id p voter support credits votingUnits) :
    spent ballots support voter = (receiptOf p voter support votingUnits).creditsSpent ∧
      spent ballots (!support) voter = 0 := by
  obtain ⟨snapshot, hsnapshot, hreceipts⟩ := h.receipts
  have hside := hv.same_side
  rw [h.credits, h.credits, creditsOn, creditsOn]
  unfold receiptOf at hside ⊢
  cases hreceipt : p.voterReceipts voter with
  | none => exact ⟨rfl, rfl⟩
  | some receipt =>
    rw [hreceipt, Option.getD_some] at hside
    have hsupport := hside (hreceipts voter receipt hreceipt).pos
    subst hsupport
    simp

/-- The credits of the voter of a vote are on its side. -/
theorem creditsOn_afterVote_self {side : Bool} :
    creditsOn (p.afterVote voter support credits votingUnits) side voter =
      if support = side then (receiptOf p voter support votingUnits).creditsSpent + credits
      else 0 := by
  unfold creditsOn Proposal.afterVote
  dsimp only
  rw [update_self]

theorem creditsOn_afterVote_of_ne {side : Bool} {voter' : Address} (h : voter' ≠ voter) :
    creditsOn (p.afterVote voter support credits votingUnits) side voter' =
      creditsOn p side voter' := by
  unfold creditsOn Proposal.afterVote
  dsimp only
  rw [update_of_ne h]

/-- A vote adds to its side the difference of two square roots. -/
theorem votes_afterVote {side : Bool} :
    (p.afterVote voter support credits votingUnits).votes side =
      if support = side then
        p.votes side + (isqrt ((receiptOf p voter support votingUnits).creditsSpent + credits) -
          isqrt (receiptOf p voter support votingUnits).creditsSpent)
      else p.votes side := by
  unfold Proposal.afterVote Proposal.addVotes Proposal.votes
  cases support <;> cases side <;> rfl

/-- The credits that are stored after a vote are those of the ballots with it. -/
theorem spent_vote (h : Recorded ballots s id p)
    (hv : Votes env s id p voter support credits votingUnits) (side : Bool) (voter' : Address) :
    spent (ballots ++ [⟨voter, support, credits⟩]) side voter' =
      creditsOn (p.afterVote voter support credits votingUnits) side voter' := by
  obtain ⟨hspent, hother⟩ := spent_eq_receiptOf h hv
  by_cases hside : support = side
  · subst hside
    have hconcat : spent (ballots ++ [⟨voter, support, credits⟩]) support =
        credit (spent ballots support) voter credits := spent_concat
    by_cases hvoter : voter' = voter
    · subst hvoter
      rw [hconcat, credit_self, hspent, creditsOn_afterVote_self, if_pos rfl]
    · rw [hconcat, credit_of_ne hvoter, creditsOn_afterVote_of_ne hvoter, h.credits]
  · -- nothing is spent on the other side, by anyone
    have hconcat : spent (ballots ++ [⟨voter, support, credits⟩]) side = spent ballots side :=
      spent_concat_of_ne hside
    by_cases hvoter : voter' = voter
    · subst hvoter
      have hnot : side = !support := by
        cases side <;> cases support <;> simp_all
      rw [hconcat, hnot, hother, creditsOn_afterVote_self, if_neg (hnot ▸ hside)]
    · rw [hconcat, creditsOn_afterVote_of_ne hvoter, h.credits]

theorem votes_vote (h : Recorded ballots s id p)
    (hv : Votes env s id p voter support credits votingUnits) (side : Bool) :
    (p.afterVote voter support credits votingUnits).votes side =
      tally isqrt (ballots ++ [⟨voter, support, credits⟩]) side := by
  rw [votes_afterVote]
  by_cases hside : support = side
  · subst hside
    have htally : tally isqrt (ballots ++ [⟨voter, support, credits⟩]) support =
        tally isqrt ballots support + (isqrt (spent ballots support voter + credits) -
          isqrt (spent ballots support voter)) := tally_concat isqrt_zero
    rw [if_pos rfl, htally, (spent_eq_receiptOf h hv).1, h.votes]
  · have htally : tally isqrt (ballots ++ [⟨voter, support, credits⟩]) side =
        tally isqrt ballots side := tally_concat_of_ne hside
    rw [if_neg hside, htally, h.votes]

/-- The receipts after a vote are within the snapshot. -/
theorem receipts_vote (h : Recorded ballots s id p)
    (hv : Votes env s id p voter support credits votingUnits) :
    ∃ snapshot, s.proposalSnapshot id = some snapshot ∧
      ∀ voter', ∀ receipt ∈ (p.afterVote voter support credits votingUnits).voterReceipts voter',
        ReceiptWithin snapshot voter' receipt := by
  obtain ⟨snapshot, hstored, hreceipts⟩ := h.receipts
  refine ⟨snapshot, hstored, fun voter' receipt hreceipt => ?_⟩
  unfold Proposal.afterVote at hreceipt
  dsimp only at hreceipt
  by_cases hvoter : voter' = voter
  · subst hvoter
    rw [update_self] at hreceipt
    obtain rfl := Option.some.inj hreceipt
    obtain ⟨snapshot', hstored', hunits⟩ := hv.snapshot
    obtain rfl := Option.some.inj (hstored.symm.trans hstored')
    have hcredits := hv.credits_pos
    have hcovered := hv.covered
    unfold receiptOf at hcovered ⊢
    -- a first receipt takes its units from the snapshot, a later one keeps them
    cases hold : p.voterReceipts voter' with
    | none =>
      rw [hold] at hcovered
      exact ⟨hunits, by simpa using hcredits, hcovered⟩
    | some old =>
      rw [hold] at hcovered
      have hwithin := hreceipts voter' old hold
      exact ⟨hwithin.snapshot_eq, add_pos hwithin.pos hcredits, hcovered⟩
  · rw [update_of_ne hvoter] at hreceipt
    exact hreceipts voter' receipt hreceipt

theorem voted_vote (h : Recorded ballots s id p) :
    ∀ ballot ∈ ballots ++ [⟨voter, support, credits⟩],
      ((p.afterVote voter support credits votingUnits).voterReceipts ballot.voter).isSome := by
  intro ballot hballot
  unfold Proposal.afterVote
  dsimp only
  by_cases hvoter : ballot.voter = voter
  · rw [hvoter, update_self]
    rfl
  · rw [update_of_ne hvoter]
    rcases List.mem_append.mp hballot with hold | hnew
    · exact h.voted ballot hold
    · obtain rfl := List.mem_singleton.mp hnew
      exact absurd rfl hvoter

/-- **A vote is recorded**: the credits of the voter, the votes they add, and a receipt within the
snapshot. -/
theorem recorded_vote (h : Recorded ballots s id p)
    (hv : Votes env s id p voter support credits votingUnits)
    (hsnapshot : t.proposalSnapshot = s.proposalSnapshot) :
    Recorded (ballots ++ [⟨voter, support, credits⟩]) t id
      (p.afterVote voter support credits votingUnits) where
  id_eq := addVotes_id.trans h.id_eq
  credits := spent_vote h hv
  votes := votes_vote h hv
  receipts := by
    rw [hsnapshot]
    exact receipts_vote h hv
  voted := voted_vote h

end Vote

/-! ## Calls -/

/-- Every stored proposal is recorded. -/
def AllRecorded (ls : List (Event Address)) (s : State Address) : Prop :=
  ∀ id p, s.proposal id = some p → Recorded (ballotsOn id ls) s id p

variable {env : Env Address} {call : Call Address} {ls : List (Event Address)}
  {v : Response Address}

omit [DecidableEq Address] in
/-- A call that creates nothing and is no vote adds no ballot. -/
theorem ballotsOn_of_noVote {l : Event Address} (hcreates : ∀ id, creates id l = false)
    (hballot : ∀ id, ballotOn id l = none) (id : ℕ) :
    ballotsOn id (ls ++ [l]) = ballotsOn id ls := by
  rw [ballotsOn_concat, hcreates, hballot]
  simp

/-- **Every call that returns keeps the records.** -/
theorem recorded_step (hs : AllRecorded ls s)
    (hreturns : Returns (entryPoint env call) s v t) :
    AllRecorded (ls ++ [⟨env, call, .ok v⟩]) t := by
  -- a call that writes neither a proposal nor a snapshot
  have hsame : (∀ id, creates id ⟨env, call, .ok v⟩ = false) →
      (∀ id, ballotOn id ⟨env, call, .ok v⟩ = none) → t.proposal = s.proposal →
      t.proposalSnapshot = s.proposalSnapshot → AllRecorded (ls ++ [⟨env, call, .ok v⟩]) t := by
    intro hcreates hballot hproposal hsnapshot id p hp
    rw [ballotsOn_of_noVote hcreates hballot]
    exact (hs id p (hproposal ▸ hp)).congr hsnapshot rfl rfl rfl rfl
  -- a call that rewrites a proposal without its votes
  have hedit : ∀ {id p p'}, (∀ id, creates id ⟨env, call, .ok v⟩ = false) →
      (∀ id, ballotOn id ⟨env, call, .ok v⟩ = none) → s.proposal id = some p →
      t.proposal = update s.proposal p.id (some p') →
      t.proposalSnapshot = s.proposalSnapshot → p'.id = p.id → p'.forVotes = p.forVotes →
      p'.againstVotes = p.againstVotes → p'.voterReceipts = p.voterReceipts →
      AllRecorded (ls ++ [⟨env, call, .ok v⟩]) t := by
    intro id p p' hcreates hballot hp hproposal hsnapshot hid hfor hagainst hreceipts id' q hq
    rw [ballotsOn_of_noVote hcreates hballot]
    have hrecorded := hs id p hp
    rw [hproposal, hrecorded.id_eq] at hq
    by_cases heq : id' = id
    · subst heq
      rw [update_self] at hq
      obtain rfl := Option.some.inj hq
      exact hrecorded.congr hsnapshot hid hfor hagainst hreceipts
    · rw [update_of_ne heq] at hq
      exact (hs id' q hq).congr hsnapshot rfl rfl rfl rfl
  cases call with
  | initializeContract admin minVotingUnits identityRequired executionDelayLedgers =>
    obtain ⟨r, h, rfl⟩ := returns_map.mp hreturns
    obtain ⟨-, rfl⟩ := returns_initializeWithAdmins.mp (returns_initializeContract h)
    exact hsame (fun _ => rfl) (fun _ => rfl) rfl rfl
  | initializeWithAdmins admin executionAdmins executionThreshold minVotingUnits identityRequired
      executionDelayLedgers =>
    obtain ⟨r, h, rfl⟩ := returns_map.mp hreturns
    obtain ⟨-, rfl⟩ := returns_initializeWithAdmins.mp h
    exact hsame (fun _ => rfl) (fun _ => rfl) rfl rfl
  | setExecutionDelay executionDelayLedgers =>
    obtain ⟨r, h, rfl⟩ := returns_map.mp hreturns
    obtain rfl := returns_setExecutionDelay h
    exact hsame (fun _ => rfl) (fun _ => rfl) rfl rfl
  | registerVoter voter votingUnits identityCommitment =>
    obtain ⟨r, h, rfl⟩ := returns_map.mp hreturns
    obtain ⟨_, _, _, rfl⟩ := returns_registerVoter h
    exact hsame (fun _ => rfl) (fun _ => rfl) rfl rfl
  | createProposal title description votingEndsAt =>
    obtain ⟨r, h, rfl⟩ := returns_map.mp hreturns
    obtain ⟨admin, _, _, -, -, rfl, rfl⟩ := returns_createProposal h
    intro id p hp
    rw [ballotsOn_concat]
    by_cases heq : id = s.nextProposalId
    · subst heq
      dsimp only at hp
      rw [update_self] at hp
      obtain rfl := Option.some.inj hp
      rw [if_pos (by simp [creates])]
      exact recorded_new (update_self ..)
    · dsimp only at hp
      rw [update_of_ne heq] at hp
      rw [if_neg (by simpa [creates] using Ne.symm heq)]
      have hrecorded := hs id p hp
      obtain ⟨snapshot, hstored, hreceipts⟩ := hrecorded.receipts
      simp only [ballotOn, Option.toList_none, List.append_nil]
      exact ⟨hrecorded.id_eq, hrecorded.credits, hrecorded.votes,
        ⟨snapshot, (update_of_ne heq ..).trans hstored, hreceipts⟩, hrecorded.voted⟩
  | updateProposalText id title description =>
    obtain ⟨r, h, rfl⟩ := returns_map.mp hreturns
    obtain ⟨p, _, _, hp, -, rfl⟩ := returns_updateProposalText h
    exact hedit (fun _ => rfl) (fun _ => rfl) hp rfl rfl rfl rfl rfl rfl
  | closeProposal id =>
    obtain ⟨r, h, rfl⟩ := returns_map.mp hreturns
    obtain ⟨p, hp, rfl⟩ := returns_closeProposal h
    exact hedit (fun _ => rfl) (fun _ => rfl) hp rfl rfl rfl rfl rfl rfl
  | executeProposal id approvers =>
    obtain ⟨r, h, rfl⟩ := returns_map.mp hreturns
    obtain ⟨p, hexecutes, rfl⟩ := returns_executeProposal h
    exact hedit (fun _ => rfl) (fun _ => rfl) hexecutes.proposal rfl rfl rfl rfl rfl rfl
  | castVote id voter support credits =>
    obtain ⟨r, h, rfl⟩ := returns_map.mp hreturns
    obtain ⟨p, votingUnits, hvotes, rfl⟩ := returns_castVote h
    have hrecorded := hs id p hvotes.proposal
    intro id' q hq
    rw [ballotsOn_concat]
    dsimp only [creates, ballotOn] at hq ⊢
    rw [hrecorded.id_eq] at hq
    by_cases heq : id' = id
    · subst heq
      rw [update_self] at hq
      obtain rfl := Option.some.inj hq
      rw [if_pos rfl]
      exact recorded_vote hrecorded hvotes rfl
    · rw [update_of_ne heq] at hq
      simp only [if_neg (Ne.symm heq), Bool.false_eq_true, if_false, Option.toList_none,
        List.append_nil]
      exact (hs id' q hq).congr rfl rfl rfl rfl rfl

end Records

/-! ## Runs -/

section Runs

variable [DecidableEq Address] {ls ls' : List (Event Address)} {s s' : State Address}

theorem allRecorded_of_run (h : Run (Step entryPoint) (State.initial Address) ls s) :
    AllRecorded ls s := by
  refine history_of_returns (P := fun _ _ _ => True) (J := AllRecorded) ?_ ?_
    (run_unconditional h) ?_
  · intro ks env call u v w hu hreturns _
    exact recorded_step hu hreturns
  · -- a call that fails has no ballot
    intro ks env call u fault hu id p hp
    rw [ballotsOn_of_noVote (fun _ => by cases call <;> rfl) (fun _ => by cases call <;> rfl)]
    exact hu id p hp
  · intro id p hp
    cases hp

/-- **The quadratic tallies.** In every run, the tallies of a proposal are the sums over the voters
of the square roots of the credits each has spent on a side, within the voter's units and on one
side alone; and they are those of any proposal, in any run, on which the voters have spent the same
credits in ballots of other sizes. -/
theorem quadratic_tally (h : Run (Step entryPoint) (State.initial Address) ls s) {id : ℕ}
    {p : Proposal Address} (hp : s.proposal id = some p) :
    QuadraticTally (ballotsOn id ls) s id p ∧
      ∀ {ls' s' id' p'}, Run (Step entryPoint) (State.initial Address) ls' s' →
        s'.proposal id' = some p' →
        (∀ support voter, spent (ballotsOn id ls) support voter =
          spent (ballotsOn id' ls') support voter) →
        p.forVotes = p'.forVotes ∧ p.againstVotes = p'.againstVotes := by
  have hrecorded := allRecorded_of_run h id p hp
  refine ⟨hrecorded.quadraticTally, fun h' hp' hspent => ?_⟩
  have hrecorded' := allRecorded_of_run h' _ _ hp'
  constructor
  · calc p.forVotes = tally isqrt (ballotsOn id ls) true := hrecorded.votes true
      _ = tally isqrt (ballotsOn _ _) true := tally_congr (hspent true)
      _ = _ := (hrecorded'.votes true).symm
  · calc p.againstVotes = tally isqrt (ballotsOn id ls) false := hrecorded.votes false
      _ = tally isqrt (ballotsOn _ _) false := tally_congr (hspent false)
      _ = _ := (hrecorded'.votes false).symm

end Runs

/-- A call that an address has authorized, in a ledger. -/
def sampleEnv (caller sequence : ℕ) : Env ℕ where
  auth := fun a => a = caller
  sequence := sequence % 2 ^ 32
  sequence_lt := ledger_lt sequence

/-- A voter with 25 units, and a proposal with a window up to ledger 20. -/
def sampleProposal : List (Env ℕ × Call ℕ) :=
  [(sampleEnv 1 5, .initializeContract 1 9 false 0),
   (sampleEnv 1 6, .registerVoter 2 25 zeroIdentity),
   (sampleEnv 1 7, .createProposal "Title" "Description" 20)]

/-- Votes of the voter, in ledger 8. -/
def sampleVotes (credits : List ℤ) : List (Env ℕ × Call ℕ) :=
  credits.map fun x => (sampleEnv 2 8, .castVote 0 2 true x)

def sampleRun (credits : List ℤ) : List (Event ℕ) × State ℕ :=
  execute entryPoint (State.initial ℕ) (sampleProposal ++ sampleVotes credits)

theorem run_sampleRun (credits : List ℤ) : Run (Step entryPoint) (State.initial ℕ)
    (sampleRun credits).1 (sampleRun credits).2 :=
  run_execute entryPoint (State.initial ℕ) (sampleProposal ++ sampleVotes credits)

theorem spent_sample (support : Bool) (voter : ℕ) :
    spent [⟨2, true, 4⟩, ⟨2, true, 5⟩] support voter = spent [⟨2, true, 9⟩] support voter := by
  unfold spent
  by_cases h : 2 = voter
  · subst h
    cases support <;> rfl
  · simp [h]

/-- Nine credits count as much in two votes as in one. -/
theorem quadratic_tally_sample :
    ∃ p p', (sampleRun [4, 5]).2.proposal 0 = some p ∧ (sampleRun [9]).2.proposal 0 = some p' ∧
      QuadraticTally (ballotsOn 0 (sampleRun [4, 5]).1) (sampleRun [4, 5]).2 0 p ∧
      p.forVotes = p'.forVotes := by
  have hparts : ballotsOn 0 (sampleRun [4, 5]).1 = [⟨2, true, 4⟩, ⟨2, true, 5⟩] := by
    decide +kernel
  have hwhole : ballotsOn 0 (sampleRun [9]).1 = [⟨2, true, 9⟩] := by decide +kernel
  obtain ⟨p, hp⟩ : ∃ p, (sampleRun [4, 5]).2.proposal 0 = some p :=
    Option.isSome_iff_exists.mp (by decide +kernel)
  obtain ⟨p', hp'⟩ : ∃ p, (sampleRun [9]).2.proposal 0 = some p :=
    Option.isSome_iff_exists.mp (by decide +kernel)
  obtain ⟨htally, hsplit⟩ := quadratic_tally (run_sampleRun [4, 5]) hp
  refine ⟨p, p', hp, hp', htally, (hsplit (run_sampleRun [9]) hp' fun support voter => ?_).1⟩
  rw [hparts, hwhole]
  exact spent_sample support voter

end Governance
