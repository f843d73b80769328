import SkyMoonScope.Soroban.Contract
import SkyMoonScope.Soroban.Arithmetic
import SkyMoonScope.Soroban.Calls

/-!
# Proposals and their votes

The contract of `contracts/governance/src/lib.rs`. An admin registers voters and creates proposals,
voters spend credits on one side of a proposal while its window is open, and a threshold of
administrators executes it afterwards. The entry points that only read are left out, with the
comparison of two versions of a text.

## Main definitions

* `VoterProfile`, `Proposal`, `VoteReceipt`, `State`: the entries of the contract
* `Env`: who has authorized a call, and the ledger at which it is made
* `castVote`, `createProposal`, `executeProposal`, …: the entry points
* `Call`, `entryPoint`: a call of the contract, and its body
-/

namespace Governance

open Soroban Function

inductive Error
  | alreadyInitialized
  | notInitialized
  | unauthorized
  | proposalNotFound
  | proposalClosed
  | invalidVotingWindow
  | invalidCredits
  | voterNotRegistered
  | insufficientVotingUnits
  | identityRequired
  | identityAlreadyClaimed
  | voteSideMismatch
  | invalidExecutionThreshold
  | duplicateAdmin
  | insufficientApprovals
  | executionDelayNotElapsed
deriving DecidableEq

/-- A commitment to an identity, of 32 bytes. -/
abbrev Identity := Vector UInt8 32

def zeroIdentity : Identity := Vector.replicate 32 0

structure VoterProfile where
  votingUnits : ℤ
  identityCommitment : Identity

structure VoteReceipt where
  support : Bool
  creditsSpent : ℤ
  votesCast : ℤ
  votingUnitsSnapshot : ℤ

structure Proposal (Address : Type) where
  id : ℕ
  creator : Address
  title : String
  description : String
  votingEndsAt : ℕ
  forVotes : ℤ
  againstVotes : ℤ
  isOpen : Bool
  voterReceipts : Address → Option VoteReceipt

/-- The entries of the contract. One that is not stored reads as its default: a voter needs one
unit and no identity, the list of voters is empty, the next id and the delay are zero. -/
structure State (Address : Type) where
  admin : Option Address
  minVotingUnits : ℤ
  identityRequired : Bool
  voterList : List Address
  nextProposalId : ℕ
  voter : Address → Option VoterProfile
  identityOwner : Identity → Option Address
  proposal : ℕ → Option (Proposal Address)
  proposalSnapshot : ℕ → Option (Address → Option ℤ)
  executionAdmins : Option (List Address)
  executionThreshold : Option ℕ
  executionDelayLedgers : ℕ
  proposalVersion : ℕ → ℕ → Option (String × String)
  proposalVersionCount : ℕ → ℕ

/-- The storage before the first call. -/
def State.initial (Address : Type) : State Address where
  admin := none
  minVotingUnits := 1
  identityRequired := false
  voterList := []
  nextProposalId := 0
  voter := fun _ => none
  identityOwner := fun _ => none
  proposal := fun _ => none
  proposalSnapshot := fun _ => none
  executionAdmins := none
  executionThreshold := none
  executionDelayLedgers := 0
  proposalVersion := fun _ _ => none
  proposalVersionCount := fun _ => 0

/-- What a call takes from its surroundings: who has authorized it, and the sequence number of the
ledger. -/
structure Env (Address : Type) where
  auth : Address → Bool
  sequence : ℕ
  sequence_lt : sequence < 2 ^ 32

/-- `saturating_add` on `u32` values. -/
def saturatingAdd (x y : ℕ) : ℕ := min (x + y) (2 ^ 32 - 1)

variable {Address : Type}

abbrev Body (Address α : Type) := Contract (State Address) Error α

/-! ## Helpers -/

/-- A `checked_` method on `i128` values, followed by `.ok_or(..)?`. -/
def checked (e : Error) (x : ℤ) : Body Address ℤ := orFault (IntType.i128.checked x) (.error e)

def sqrt (x : ℤ) : Body Address ℤ := if x ≤ 0 then pure 0 else newtonSqrt x

def getProposal (id : ℕ) : Body Address (Proposal Address) := do
  let s ← get
  orFault (s.proposal id) (.error .proposalNotFound)

def writeProposal (proposal : Proposal Address) : Body Address Unit := do
  let s ← get
  set { s with proposal := update s.proposal proposal.id (some proposal) }

/-- The text of a version, and the number of versions there are with it. -/
def writeProposalVersion (id version count : ℕ) (title description : String) :
    Body Address Unit := do
  let s ← get
  set { s with
    proposalVersion := update s.proposalVersion id
      (update (s.proposalVersion id) version (some (title, description)))
    proposalVersionCount := update s.proposalVersionCount id count }

section Functions

variable (env : Env Address)

def requireAuth (addr : Address) : Body Address Unit :=
  require (env.auth addr) (.trap "Error(Auth, InvalidAction)")

def requireAdmin : Body Address Address := do
  let s ← get
  let admin ← orFault s.admin (.error .notInitialized)
  requireAuth env admin
  pure admin

/-! ## Setup -/

variable [DecidableEq Address]

def initializeWithAdmins (admin : Address) (executionAdmins : List Address)
    (executionThreshold : ℕ) (minVotingUnits : ℤ) (identityRequired : Bool)
    (executionDelayLedgers : ℕ) : Body Address Unit := do
  let s ← get
  require s.admin.isNone (.error .alreadyInitialized)
  require (¬minVotingUnits ≤ 0) (.error .insufficientVotingUnits)
  require (¬(executionThreshold = 0 ∨ executionThreshold > executionAdmins.length))
    (.error .invalidExecutionThreshold)
  require (admin ∈ executionAdmins) (.error .unauthorized)
  require executionAdmins.Nodup (.error .duplicateAdmin)
  set { s with
    admin := some admin
    minVotingUnits, identityRequired, executionDelayLedgers
    nextProposalId := 0
    executionAdmins := some executionAdmins
    executionThreshold := some executionThreshold }

def initializeContract (admin : Address) (minVotingUnits : ℤ) (identityRequired : Bool)
    (executionDelayLedgers : ℕ) : Body Address Unit := do
  let s ← get
  require s.admin.isNone (.error .alreadyInitialized)
  require (¬minVotingUnits ≤ 0) (.error .insufficientVotingUnits)
  initializeWithAdmins admin [admin] 1 minVotingUnits identityRequired executionDelayLedgers

omit [DecidableEq Address] in
def setExecutionDelay (executionDelayLedgers : ℕ) : Body Address Unit := do
  let _ ← requireAdmin env
  let s ← get
  set { s with executionDelayLedgers }

/-- The owners of the identities, where a voter that is registered with another one gives up the
one it had. -/
def releasedOwners (s : State Address) (voter : Address) (identityCommitment : Identity) :
    Identity → Option Address :=
  match s.voter voter with
  | some existing =>
    if existing.identityCommitment ≠ zeroIdentity ∧
        existing.identityCommitment ≠ identityCommitment then
      update s.identityOwner existing.identityCommitment none
    else s.identityOwner
  | none => s.identityOwner

def registerVoter (voter : Address) (votingUnits : ℤ) (identityCommitment : Identity) :
    Body Address VoterProfile := do
  let _ ← requireAdmin env
  let s ← get
  require (¬votingUnits < s.minVotingUnits) (.error .insufficientVotingUnits)
  require (¬(s.identityRequired ∧ identityCommitment = zeroIdentity)) (.error .identityRequired)
  let owners := releasedOwners s voter identityCommitment
  if identityCommitment ≠ zeroIdentity then
    require (∀ owner ∈ owners identityCommitment, owner = voter) (.error .identityAlreadyClaimed)
    set { s with identityOwner := update owners identityCommitment (some voter) }
  else set { s with identityOwner := owners }
  let profile := { votingUnits, identityCommitment }
  let s ← get
  set { s with
    voterList := if (s.voter voter).isNone then s.voterList ++ [voter] else s.voterList
    voter := update s.voter voter (some profile) }
  pure profile

/-! ## Proposals -/

/-- The units of the voters in a list, as they are registered. -/
def unitsSnapshot (s : State Address) : List Address → Address → Option ℤ :=
  List.foldl (fun snapshot voter =>
    match s.voter voter with
    | some profile => update snapshot voter (some profile.votingUnits)
    | none => snapshot) fun _ => none

def createProposal (title description : String) (votingEndsAt : ℕ) :
    Body Address (Proposal Address) := do
  let admin ← requireAdmin env
  require (¬votingEndsAt ≤ env.sequence) (.error .invalidVotingWindow)
  let s ← get
  let id := s.nextProposalId
  set { s with
    proposalSnapshot := update s.proposalSnapshot id (some (unitsSnapshot s s.voterList)) }
  let proposal := {
    id, title, description, votingEndsAt
    creator := admin
    forVotes := 0
    againstVotes := 0
    isOpen := true
    voterReceipts := fun _ => none }
  writeProposal proposal
  writeProposalVersion id 0 1 title description
  let s ← get
  set { s with nextProposalId := saturatingAdd id 1 }
  pure proposal

omit [DecidableEq Address] in
def updateProposalText (id : ℕ) (title description : String) : Body Address ℕ := do
  let _ ← requireAdmin env
  let proposal ← getProposal id
  require proposal.isOpen (.error .proposalClosed)
  let s ← get
  let count := s.proposalVersionCount id
  writeProposalVersion id count (saturatingAdd count 1) title description
  writeProposal { proposal with title, description }
  pure count

omit [DecidableEq Address] in
def closeProposal (id : ℕ) : Body Address (Proposal Address) := do
  let _ ← requireAdmin env
  let proposal ← getProposal id
  let proposal := { proposal with isOpen := false }
  writeProposal proposal
  pure proposal

/-- The loop over the approvers: each that was not seen before has to be one of the admins and to
have authorized the call, and counts once. -/
def countApproved (admins approvers : List Address) : Body Address ℕ :=
  countDistinct (fun approver => do
    require (approver ∈ admins) (.error .unauthorized)
    requireAuth env approver) [] approvers 0

def requireExecutionApprovals (approvers : List Address) : Body Address Unit := do
  let s ← get
  let admins ← orFault s.executionAdmins (.error .notInitialized)
  let threshold ← orFault s.executionThreshold (.error .notInitialized)
  require (¬approvers.length < threshold) (.error .insufficientApprovals)
  let approved ← countApproved env admins approvers
  require (¬approved < threshold) (.error .insufficientApprovals)

def executeProposal (id : ℕ) (approvers : List Address) : Body Address (Proposal Address) := do
  requireExecutionApprovals env approvers
  let proposal ← getProposal id
  require (¬(¬proposal.isOpen ∨ env.sequence ≤ proposal.votingEndsAt)) (.error .proposalClosed)
  let s ← get
  let earliestExecution := saturatingAdd proposal.votingEndsAt s.executionDelayLedgers
  require (¬env.sequence < earliestExecution) (.error .executionDelayNotElapsed)
  let proposal := { proposal with isOpen := false }
  writeProposal proposal
  pure proposal

/-! ## Votes -/

/-- The votes of a side, with more of them. -/
def addVotes (proposal : Proposal Address) (support : Bool) (delta : ℤ) :
    Body Address (Proposal Address) :=
  if support then do
    let forVotes ← checked .invalidCredits (proposal.forVotes + delta)
    pure { proposal with forVotes }
  else do
    let againstVotes ← checked .invalidCredits (proposal.againstVotes + delta)
    pure { proposal with againstVotes }

def castVote (id : ℕ) (voter : Address) (support : Bool) (creditsToSpend : ℤ) :
    Body Address VoteReceipt := do
  requireAuth env voter
  require (¬creditsToSpend ≤ 0) (.error .invalidCredits)
  let proposal ← getProposal id
  require (¬(¬proposal.isOpen ∨ env.sequence > proposal.votingEndsAt)) (.error .proposalClosed)
  let s ← get
  let snapshot ← orFault (s.proposalSnapshot id) (.error .voterNotRegistered)
  let votingUnits ← orFault (snapshot voter) (.error .voterNotRegistered)
  let receipt := (proposal.voterReceipts voter).getD {
    support
    creditsSpent := 0
    votesCast := 0
    votingUnitsSnapshot := votingUnits }
  require (¬(receipt.creditsSpent > 0 ∧ receipt.support ≠ support)) (.error .voteSideMismatch)
  let updatedCredits ← checked .invalidCredits (receipt.creditsSpent + creditsToSpend)
  require (¬updatedCredits > receipt.votingUnitsSnapshot) (.error .insufficientVotingUnits)
  let votesBefore ← sqrt receipt.creditsSpent
  let votesAfter ← sqrt updatedCredits
  require (¬votesAfter ≤ votesBefore) (.error .invalidCredits)
  let delta ← plainI128 (votesAfter - votesBefore)
  let proposal ← addVotes proposal support delta
  let receipt := { receipt with support, creditsSpent := updatedCredits, votesCast := votesAfter }
  writeProposal { proposal with
    voterReceipts := update proposal.voterReceipts voter (some receipt) }
  pure receipt

end Functions

/-! ## Calls -/

inductive Call (Address : Type)
  | initializeContract (admin : Address) (minVotingUnits : ℤ) (identityRequired : Bool)
      (executionDelayLedgers : ℕ)
  | initializeWithAdmins (admin : Address) (executionAdmins : List Address)
      (executionThreshold : ℕ) (minVotingUnits : ℤ) (identityRequired : Bool)
      (executionDelayLedgers : ℕ)
  | setExecutionDelay (executionDelayLedgers : ℕ)
  | registerVoter (voter : Address) (votingUnits : ℤ) (identityCommitment : Identity)
  | createProposal (title description : String) (votingEndsAt : ℕ)
  | updateProposalText (id : ℕ) (title description : String)
  | closeProposal (id : ℕ)
  | executeProposal (id : ℕ) (approvers : List Address)
  | castVote (id : ℕ) (voter : Address) (support : Bool) (creditsToSpend : ℤ)

/-- What a call returns. -/
inductive Response (Address : Type)
  | unit
  | profile (profile : VoterProfile)
  | proposal (proposal : Proposal Address)
  | version (version : ℕ)
  | receipt (receipt : VoteReceipt)

section Dispatch

variable [DecidableEq Address]

/-- The body of the called entry point. -/
def entryPoint (env : Env Address) : Call Address → Body Address (Response Address)
  | .initializeContract admin minVotingUnits identityRequired executionDelayLedgers =>
    (fun _ => .unit) <$>
      initializeContract admin minVotingUnits identityRequired executionDelayLedgers
  | .initializeWithAdmins admin executionAdmins executionThreshold minVotingUnits identityRequired
      executionDelayLedgers =>
    (fun _ => .unit) <$> initializeWithAdmins admin executionAdmins executionThreshold
      minVotingUnits identityRequired executionDelayLedgers
  | .setExecutionDelay executionDelayLedgers =>
    (fun _ => .unit) <$> setExecutionDelay env executionDelayLedgers
  | .registerVoter voter votingUnits identityCommitment =>
    .profile <$> registerVoter env voter votingUnits identityCommitment
  | .createProposal title description votingEndsAt =>
    .proposal <$> createProposal env title description votingEndsAt
  | .updateProposalText id title description =>
    .version <$> updateProposalText env id title description
  | .closeProposal id => .proposal <$> closeProposal env id
  | .executeProposal id approvers => .proposal <$> executeProposal env id approvers
  | .castVote id voter support creditsToSpend =>
    .receipt <$> castVote env id voter support creditsToSpend

end Dispatch

end Governance
