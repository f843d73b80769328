import SkyMoonScope.Governance.Proposals
import Mathlib.Data.Finset.Card
import Mathlib.Data.List.DropRight

/-!
# What the entry points write

Each entry point is read off its body once: what it has checked when it returns, and the storage it
leaves. Only four entry points write a proposal, each the one under its id.

## Main definitions

* `isqrt`: the integer square root
* `receiptOf`: the receipt of a voter before a vote
* `Proposal.afterVote`: the proposal after a vote
* `Votes`, `Approved`, `Executes`: what a vote, the approvals and an execution have checked
* `creates`, `sinceCreated`: the calls since a proposal was created

## Main results

* `returns_castVote`, `returns_createProposal`, `returns_executeProposal`, …: what each entry point
  has checked, and what it writes
-/

namespace Governance

open Soroban Function

variable {Address : Type}

/-- The square root rounded down, and zero below zero. -/
def isqrt (x : ℤ) : ℤ := Nat.sqrt x.toNat

theorem isqrt_zero : isqrt 0 = 0 := by decide

/-- The receipt of a voter, or one for nothing. -/
def receiptOf (p : Proposal Address) (voter : Address) (support : Bool) (votingUnits : ℤ) :
    VoteReceipt :=
  (p.voterReceipts voter).getD ⟨support, 0, 0, votingUnits⟩

/-- The votes of a side, with some more. -/
def Proposal.addVotes (p : Proposal Address) (support : Bool) (delta : ℤ) : Proposal Address :=
  if support then { p with forVotes := p.forVotes + delta }
  else { p with againstVotes := p.againstVotes + delta }

/-- The votes added leave the receipts and the id as they are. -/
@[simp] theorem addVotes_voterReceipts {p : Proposal Address} {support : Bool} {delta : ℤ} :
    (p.addVotes support delta).voterReceipts = p.voterReceipts := by
  unfold Proposal.addVotes
  split <;> rfl

@[simp] theorem addVotes_id {p : Proposal Address} {support : Bool} {delta : ℤ} :
    (p.addVotes support delta).id = p.id := by
  unfold Proposal.addVotes
  split <;> rfl

section Helpers

variable {s t : State Address} {env : Env Address} {α : Type} {v : α}

@[simp] theorem returns_checked {e : Error} {x z : ℤ} :
    Returns (checked e x : Body Address ℤ) s z t ↔ IntType.i128.Fits x ∧ x = z ∧ s = t := by
  simp [checked, and_assoc]

theorem returns_checked_bind {e : Error} {x : ℤ} {f : ℤ → Body Address α} :
    Returns (checked e x >>= f) s v t ↔ IntType.i128.Fits x ∧ Returns (f x) s v t := by
  rw [returns_bind_of_reads (p := fun z => IntType.i128.Fits x ∧ x = z) fun z t => by
    simp [and_assoc]]
  simp

/-- The root is the integer square root, which every value but the greatest has. -/
theorem returns_sqrt {x z : ℤ} :
    Returns (sqrt x : Body Address ℤ) s z t ↔
      (0 < x → IntType.i128.Fits (x + 1)) ∧ isqrt x = z ∧ s = t := by
  unfold sqrt
  split
  next hx =>
    have hzero : isqrt x = 0 := by
      rw [isqrt, Int.toNat_of_nonpos hx, Nat.sqrt_zero, Nat.cast_zero]
    rw [returns_pure, hzero]
    simp [not_lt.mpr hx]
  next hx =>
    rw [returns_newtonSqrt (not_le.mp hx)]
    simp [isqrt, not_le.mp hx]

theorem returns_sqrt_bind {x : ℤ} {f : ℤ → Body Address α} :
    Returns (sqrt x >>= f) s v t ↔
      (0 < x → IntType.i128.Fits (x + 1)) ∧ Returns (f (isqrt x)) s v t := by
  rw [returns_bind_of_reads
    (p := fun z => (0 < x → IntType.i128.Fits (x + 1)) ∧ isqrt x = z) fun z t => by
    rw [returns_sqrt, and_assoc]]
  simp

theorem returns_requireAdmin_bind {f : Address → Body Address α} :
    Returns (requireAdmin env >>= f) s v t ↔
      ∃ admin, s.admin = some admin ∧ env.auth admin = true ∧ Returns (f admin) s v t := by
  simp only [requireAdmin, requireAuth, bind_assoc, returns_get_bind, returns_orFault_bind,
    returns_require_bind, pure_bind]

theorem returns_getProposal_bind {id : ℕ} {f : Proposal Address → Body Address α} :
    Returns (getProposal id >>= f) s v t ↔ ∃ p, s.proposal id = some p ∧ Returns (f p) s v t := by
  simp only [getProposal, bind_assoc, returns_get_bind, returns_orFault_bind]

theorem returns_writeProposal_bind {p : Proposal Address} {f : Unit → Body Address α} :
    Returns (writeProposal p >>= f) s v t ↔
      Returns (f ()) { s with proposal := update s.proposal p.id (some p) } v t := by
  simp only [writeProposal, bind_assoc, returns_get_bind, returns_set_bind]

theorem returns_addVotes_bind {p : Proposal Address} {support : Bool} {delta : ℤ}
    {f : Proposal Address → Body Address α}
    (h : Returns (addVotes p support delta >>= f) s v t) :
    Returns (f (p.addVotes support delta)) s v t := by
  unfold addVotes at h
  unfold Proposal.addVotes
  split at h
  next hsupport =>
    rw [if_pos hsupport]
    simp only [bind_assoc, returns_checked_bind, pure_bind] at h
    exact h.2
  next hsupport =>
    rw [if_neg hsupport]
    simp only [bind_assoc, returns_checked_bind, pure_bind] at h
    exact h.2

end Helpers

/-! ## Votes -/

/-- The proposal after a vote of a voter with `votingUnits` for `credits`. -/
def Proposal.afterVote [DecidableEq Address] (p : Proposal Address) (voter : Address)
    (support : Bool) (credits votingUnits : ℤ) : Proposal Address :=
  let receipt := receiptOf p voter support votingUnits
  let updatedCredits := receipt.creditsSpent + credits
  { p.addVotes support (isqrt updatedCredits - isqrt receipt.creditsSpent) with
    voterReceipts := update p.voterReceipts voter (some { receipt with
      support
      creditsSpent := updatedCredits
      votesCast := isqrt updatedCredits }) }

/-- What a vote for `credits` has checked. -/
structure Votes (env : Env Address) (s : State Address) (id : ℕ) (p : Proposal Address)
    (voter : Address) (support : Bool) (credits votingUnits : ℤ) : Prop where
  authorized : env.auth voter = true
  proposal : s.proposal id = some p
  isOpen : p.isOpen = true
  in_window : env.sequence ≤ p.votingEndsAt
  snapshot : ∃ snapshot, s.proposalSnapshot id = some snapshot ∧ snapshot voter = some votingUnits
  credits_pos : 0 < credits
  same_side : 0 < (receiptOf p voter support votingUnits).creditsSpent →
    (receiptOf p voter support votingUnits).support = support
  covered : (receiptOf p voter support votingUnits).creditsSpent + credits ≤
    (receiptOf p voter support votingUnits).votingUnitsSnapshot

section Spec

variable [DecidableEq Address] {env : Env Address} {s t : State Address} {id : ℕ}

theorem returns_castVote {voter : Address} {support : Bool} {credits : ℤ} {r : VoteReceipt}
    (h : Returns (castVote env id voter support credits) s r t) :
    ∃ p votingUnits, Votes env s id p voter support credits votingUnits ∧
      t = { s with
        proposal := update s.proposal p.id (some (p.afterVote voter support credits votingUnits))
      } := by
  simp only [castVote, requireAuth, returns_require_bind, returns_getProposal_bind,
    returns_get_bind, returns_orFault_bind, returns_checked_bind, returns_sqrt_bind,
    returns_plainI128_bind] at h
  obtain ⟨hauth, hcredits, p, hp, hopen, snapshot, hsnapshot, votingUnits, hunits, hside, -, hle,
    -, -, -, -, h⟩ := h
  have h := returns_addVotes_bind h
  simp only [returns_writeProposal_bind, returns_pure] at h
  obtain ⟨-, rfl⟩ := h
  rw [not_or, not_not, not_lt] at hopen
  refine ⟨p, votingUnits, ⟨hauth, hp, hopen.1, hopen.2, ⟨snapshot, hsnapshot, hunits⟩,
    not_le.mp hcredits, fun hpos => ?_, not_lt.mp hle⟩, ?_⟩
  · by_contra hne
    exact hside ⟨hpos, hne⟩
  · simp only [addVotes_id, addVotes_voterReceipts, Proposal.afterVote, receiptOf]

/-! ## Proposals -/

/-- What the approvers of an execution have to be: enough different admins that have authorized
the call. -/
structure Approved (env : Env Address) (s : State Address) (approvers : List Address) : Prop where
  enough : ∃ threshold, s.executionThreshold = some threshold ∧
    threshold ≤ approvers.toFinset.card
  valid : ∃ admins, s.executionAdmins = some admins ∧
    ∀ a ∈ approvers, a ∈ admins ∧ env.auth a = true

theorem returns_requireExecutionApprovals {approvers : List Address} {r : Unit} :
    Returns (requireExecutionApprovals env approvers) s r t ↔
      Approved env s approvers ∧ s = t := by
  have hcount : ∀ {admins n u}, Returns (countApproved env admins approvers) s n u ↔
      (∀ a ∈ approvers, a ∈ admins ∧ env.auth a = true) ∧
        n = approvers.toFinset.card ∧ s = u := by
    intro admins n u
    rw [countApproved, returns_countDistinct (P := fun a => a ∈ admins ∧ env.auth a = true)
      fun a s r t => by simp only [requireAuth, returns_require_bind, returns_require, and_assoc]]
    simp
  simp only [requireExecutionApprovals, returns_get_bind, returns_orFault_bind,
    returns_require_bind]
  constructor
  · rintro ⟨admins, hadmins, threshold, hthreshold, -, h⟩
    obtain ⟨n, u, hn, h⟩ := returns_bind.mp h
    obtain ⟨hvalid, rfl, rfl⟩ := hcount.mp hn
    obtain ⟨henough, rfl⟩ := returns_require.mp h
    exact ⟨⟨⟨threshold, hthreshold, not_lt.mp henough⟩, admins, hadmins, hvalid⟩, rfl⟩
  · rintro ⟨⟨⟨threshold, hthreshold, henough⟩, admins, hadmins, hvalid⟩, rfl⟩
    -- different approvers are at most as many as approvers
    have hlength := henough.trans approvers.toFinset_card_le
    refine ⟨admins, hadmins, threshold, hthreshold, not_lt.mpr hlength, returns_bind.mpr ?_⟩
    exact ⟨_, s, hcount.mpr ⟨hvalid, rfl, rfl⟩, returns_require.mpr ⟨not_lt.mpr henough, rfl⟩⟩

/-- What an execution has checked. -/
structure Executes (env : Env Address) (s : State Address) (id : ℕ) (approvers : List Address)
    (p : Proposal Address) : Prop where
  approved : Approved env s approvers
  proposal : s.proposal id = some p
  isOpen : p.isOpen = true
  after_voting : p.votingEndsAt < env.sequence
  after_delay : saturatingAdd p.votingEndsAt s.executionDelayLedgers ≤ env.sequence

theorem returns_executeProposal {approvers : List Address} {r : Proposal Address}
    (h : Returns (executeProposal env id approvers) s r t) :
    ∃ p, Executes env s id approvers p ∧
      t = { s with proposal := update s.proposal p.id (some { p with isOpen := false }) } := by
  simp only [executeProposal,
    returns_bind_of_checks fun _ _ => returns_requireExecutionApprovals,
    returns_getProposal_bind, returns_require_bind, returns_get_bind, returns_writeProposal_bind,
    returns_pure, not_or, not_not, not_le, not_lt] at h
  obtain ⟨happroved, p, hp, ⟨hopen, hafter⟩, hdelay, -, rfl⟩ := h
  exact ⟨p, ⟨happroved, hp, hopen, hafter, hdelay⟩, rfl⟩

omit [DecidableEq Address] in
theorem returns_closeProposal {r : Proposal Address}
    (h : Returns (closeProposal env id) s r t) :
    ∃ p, s.proposal id = some p ∧
      t = { s with proposal := update s.proposal p.id (some { p with isOpen := false }) } := by
  simp only [closeProposal, returns_requireAdmin_bind, returns_getProposal_bind,
    returns_writeProposal_bind, returns_pure] at h
  obtain ⟨_, -, -, p, hp, -, rfl⟩ := h
  exact ⟨p, hp, rfl⟩

omit [DecidableEq Address] in
theorem returns_updateProposalText {title description : String} {r : ℕ}
    (h : Returns (updateProposalText env id title description) s r t) :
    ∃ p versions counts, s.proposal id = some p ∧ p.isOpen = true ∧
      t = { s with
        proposal := update s.proposal p.id (some { p with title, description })
        proposalVersion := versions
        proposalVersionCount := counts } := by
  simp only [updateProposalText, writeProposalVersion, returns_requireAdmin_bind,
    returns_getProposal_bind, returns_require_bind, returns_get_bind, bind_assoc, returns_set_bind,
    returns_writeProposal_bind, returns_pure] at h
  obtain ⟨_, -, -, p, hp, hopen, -, rfl⟩ := h
  exact ⟨p, _, _, hp, hopen, rfl⟩

theorem returns_createProposal {title description : String} {votingEndsAt : ℕ}
    {r : Proposal Address}
    (h : Returns (createProposal env title description votingEndsAt) s r t) :
    ∃ admin versions counts, s.admin = some admin ∧ env.sequence < votingEndsAt ∧
      r = ⟨s.nextProposalId, admin, title, description, votingEndsAt, 0, 0, true,
        fun _ => none⟩ ∧
      t = { s with
        nextProposalId := saturatingAdd s.nextProposalId 1
        proposal := update s.proposal s.nextProposalId (some r)
        proposalSnapshot :=
          update s.proposalSnapshot s.nextProposalId (some (unitsSnapshot s s.voterList))
        proposalVersion := versions
        proposalVersionCount := counts } := by
  simp only [createProposal, writeProposalVersion, returns_requireAdmin_bind,
    returns_require_bind, returns_get_bind, returns_set_bind, returns_writeProposal_bind,
    bind_assoc, returns_pure] at h
  obtain ⟨admin, hadmin, -, hwindow, rfl, rfl⟩ := h
  exact ⟨admin, _, _, hadmin, not_le.mp hwindow, rfl, rfl⟩

/-! ## Setup -/

theorem returns_initializeWithAdmins {admin : Address} {executionAdmins : List Address}
    {executionThreshold : ℕ} {minVotingUnits : ℤ} {identityRequired : Bool}
    {executionDelayLedgers : ℕ} {r : Unit} :
    Returns (initializeWithAdmins admin executionAdmins executionThreshold minVotingUnits
        identityRequired executionDelayLedgers) s r t ↔
      (s.admin = none ∧ 0 < minVotingUnits ∧
          (0 < executionThreshold ∧ executionThreshold ≤ executionAdmins.length) ∧
          admin ∈ executionAdmins ∧ executionAdmins.Nodup) ∧
        t = { s with
          admin := some admin
          minVotingUnits, identityRequired, executionDelayLedgers
          nextProposalId := 0
          executionAdmins := some executionAdmins
          executionThreshold := some executionThreshold } := by
  simp only [initializeWithAdmins, returns_get_bind, returns_require_bind, returns_set,
    Option.isNone_iff_eq_none, not_le, not_or, not_lt, Nat.pos_iff_ne_zero, and_assoc,
    eq_comm (b := t)]

theorem returns_initializeContract {admin : Address} {minVotingUnits : ℤ} {identityRequired : Bool}
    {executionDelayLedgers : ℕ} {r : Unit}
    (h : Returns (initializeContract admin minVotingUnits identityRequired executionDelayLedgers)
      s r t) :
    Returns (initializeWithAdmins admin [admin] 1 minVotingUnits identityRequired
      executionDelayLedgers) s r t := by
  simp only [initializeContract, returns_get_bind, returns_require_bind] at h
  exact h.2.2

omit [DecidableEq Address] in
theorem returns_setExecutionDelay {executionDelayLedgers : ℕ} {r : Unit}
    (h : Returns (setExecutionDelay env executionDelayLedgers) s r t) :
    t = { s with executionDelayLedgers } := by
  simp only [setExecutionDelay, returns_requireAdmin_bind, returns_get_bind, returns_set] at h
  obtain ⟨_, -, -, rfl⟩ := h
  rfl

theorem returns_registerVoter {voter : Address} {votingUnits : ℤ} {identityCommitment : Identity}
    {r : VoterProfile}
    (h : Returns (registerVoter env voter votingUnits identityCommitment) s r t) :
    ∃ owners voters profiles,
      t = { s with identityOwner := owners, voterList := voters, voter := profiles } := by
  simp only [registerVoter, returns_requireAdmin_bind, returns_get_bind, returns_require_bind]
    at h
  obtain ⟨_, -, -, -, -, h⟩ := h
  split at h
  · simp only [returns_require_bind, returns_set_bind, returns_get_bind, returns_pure] at h
    obtain ⟨-, -, rfl⟩ := h
    exact ⟨_, _, _, rfl⟩
  · simp only [returns_set_bind, returns_get_bind, returns_pure] at h
    obtain ⟨-, rfl⟩ := h
    exact ⟨_, _, _, rfl⟩

end Spec

/-! ## Events -/

abbrev Event (Address : Type) := Soroban.Event (Env Address) (Call Address) Error (Response Address)

/-- The call has created a proposal under the id. -/
def creates (id : ℕ) (l : Event Address) : Bool :=
  match l.call, l.result with
  | .createProposal _ _ _, .ok (.proposal p) => p.id = id
  | _, _ => false

/-- The calls since a proposal was last created under the id. Ids are given out once, up to the
greatest of the type, which is then given out again. -/
def sinceCreated (id : ℕ) (ls : List (Event Address)) : List (Event Address) :=
  ls.rtakeWhile fun l => !creates id l

theorem sinceCreated_concat {id : ℕ} {ls : List (Event Address)} {l : Event Address} :
    sinceCreated id (ls ++ [l]) = if creates id l then [] else sinceCreated id ls ++ [l] := by
  rw [sinceCreated, List.rtakeWhile_concat]
  cases creates id l <;> rfl

end Governance
