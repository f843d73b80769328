import SkyMoonScope.TimelockedEscrow.Effects
import Mathlib.Data.Finset.Card
import Mathlib.Data.List.DropRight

/-!
# The settlement of the escrow

Release and the two cancellations end the escrow, and each of them finds it active. So the contract
pays out once, all that was deposited. A release counts the bits of guardians, which only their own
approvals set and every rotation clears. A rotation finds the proposal that was made since the last
one by three of the guardians that it replaces; the end of its delay saturates at the greatest
ledger.

## Main definitions

* `rotates`, `sinceRotation`: the calls since the last rotation
* `sent`, `deposited`: what the contract has paid out, and what it was given
* `Settled`: nothing was paid out yet, or all of it, on one of the two ways
* `ReleaseApproved`, `RotationApproved`: what has come before a release and a rotation

## Main results

* `funds_step`: every call that returns keeps the payments in line with the stored escrow
* `votes_step`: every call that returns keeps the bits and the proposal in line with the calls
* `settled_once`: the payments, the releases and the rotations in every run
* `rotation_early`: a rotation at the greatest ledger waits for nothing
-/

namespace TimelockEscrow

open Soroban Machine Bits

variable {Address Tokens : Type}

/-! ## Payments -/

section Payments

variable [DecidableEq Address]

/-- What the contract has paid out, the last payment first. -/
def sent (contract : Address) (transfers : List (Transfer Address)) : List (Transfer Address) :=
  transfers.filter fun x => x.source = contract

/-- What the contract was given. -/
def deposited (contract : Address) (transfers : List (Transfer Address)) : ℤ :=
  ((transfers.filter fun x => x.source ≠ contract).map Transfer.amount).sum

/-- Nothing was paid out, or the whole deposit to the beneficiary, or the whole deposit to the
depositor, less the fee for the vault. -/
def Settled (host : Host Address Tokens) (s : State Address Tokens) : Prop :=
  sent host.currentContractAddress s.transfers = [] ∨
    ∃ config ∈ s.config,
      sent host.currentContractAddress s.transfers =
          [⟨config.token, host.currentContractAddress, config.beneficiary,
            deposited host.currentContractAddress s.transfers⟩] ∨
        sent host.currentContractAddress s.transfers =
          refunds host config (deposited host.currentContractAddress s.transfers)

/-- An active escrow holds what was deposited, and another one has paid it out. -/
structure Funds (host : Host Address Tokens) (config : EscrowConfig Address)
    (transfers : List (Transfer Address)) : Prop where
  held : Active config → sent host.currentContractAddress transfers = [] ∧ 0 ≤ config.amount ∧
    deposited host.currentContractAddress transfers = config.amount
  released : config.isReleased = true →
    sent host.currentContractAddress transfers =
      [⟨config.token, host.currentContractAddress, config.beneficiary,
        deposited host.currentContractAddress transfers⟩]
  cancelled : config.isCancelled = true →
    sent host.currentContractAddress transfers =
      refunds host config (deposited host.currentContractAddress transfers)

/-- The payments of a storage are those of its escrow. -/
structure FundsKept (host : Host Address Tokens) (s : State Address Tokens) : Prop where
  uninitialized : s.config = none → s.transfers = []
  funds : ∀ config ∈ s.config, Funds host config s.transfers

variable {host : Host Address Tokens} {s t : State Address Tokens}
  {transfers : List (Transfer Address)} {config : EscrowConfig Address}

theorem FundsKept.settled (h : FundsKept host s) : Settled host s := by
  cases hconfig : s.config with
  | none =>
    left
    rw [h.uninitialized hconfig]
    rfl
  | some config =>
    have hfunds := h.funds config hconfig
    by_cases hreleased : config.isReleased = true
    · exact .inr ⟨config, hconfig, .inl (hfunds.released hreleased)⟩
    · by_cases hcancelled : config.isCancelled = true
      · exact .inr ⟨config, hconfig, .inr (hfunds.cancelled hcancelled)⟩
      · rw [Bool.not_eq_true] at hreleased hcancelled
        exact .inl (hfunds.held ⟨hreleased, hcancelled⟩).1

theorem sent_refunds {amount : ℤ} :
    sent host.currentContractAddress (refunds host config amount ++ transfers) =
      refunds host config amount ++ sent host.currentContractAddress transfers := by
  unfold sent refunds
  split <;> simp

theorem deposited_refunds {amount : ℤ} :
    deposited host.currentContractAddress (refunds host config amount ++ transfers) =
      deposited host.currentContractAddress transfers := by
  unfold deposited refunds
  split <;> simp

/-- A deposit is given to an escrow that has none yet. -/
theorem funds_deposit {amount : ℤ} (h : Funds host config transfers) (hactive : Active config)
    (hempty : config.amount ≤ 0) (hne : config.depositor ≠ host.currentContractAddress)
    (hamount : 0 ≤ amount) :
    Funds host { config with amount }
      (⟨config.token, config.depositor, host.currentContractAddress, amount⟩ :: transfers) := by
  obtain ⟨hsent, hnonneg, hdeposited⟩ := h.held hactive
  refine ⟨fun _ => ⟨?_, hamount, ?_⟩, fun hreleased => ?_, fun hcancelled => ?_⟩
  · simpa [sent, hne] using hsent
  · have hzero : deposited host.currentContractAddress transfers = 0 := by omega
    unfold deposited at hzero ⊢
    rw [List.filter_cons_of_pos (by simpa using hne), List.map_cons, List.sum_cons, hzero, add_zero]
  · cases hreleased.symm.trans hactive.1
  · cases hcancelled.symm.trans hactive.2

theorem funds_release (h : Funds host config transfers) (hactive : Active config) :
    Funds host { config with amount := 0, isReleased := true }
      (⟨config.token, host.currentContractAddress, config.beneficiary, config.amount⟩ ::
        transfers) := by
  obtain ⟨hsent, -, hdeposited⟩ := h.held hactive
  refine ⟨fun h => ?_, fun _ => ?_, fun hcancelled => ?_⟩
  · cases h.1
  · unfold sent at hsent ⊢
    unfold deposited at hdeposited ⊢
    rw [List.filter_cons_of_pos (by simp), List.filter_cons_of_neg (by simp), hsent, hdeposited]
  · cases hcancelled.symm.trans hactive.2

theorem funds_refund (h : Funds host config transfers) (hactive : Active config) :
    Funds host { config with amount := 0, isCancelled := true }
      (refunds host config config.amount ++ transfers) := by
  obtain ⟨hsent, -, hdeposited⟩ := h.held hactive
  refine ⟨fun h => ?_, fun hreleased => ?_, fun _ => ?_⟩
  · cases h.2
  · cases hreleased.symm.trans hactive.1
  · rw [sent_refunds, deposited_refunds, hsent, hdeposited, List.append_nil]
    rfl

variable {env : Env host} {call : Call Address} {v : Response}

/-- **Every call that returns** keeps the payments in line with the stored escrow. -/
theorem funds_step (htokens : Conforming host.toTokenInterface) (hs : FundsKept host s)
    (hreturns : Returns (entryPoint env call) s v t) : FundsKept host t := by
  rw [returns_entryPoint] at hreturns
  -- a call that writes neither the escrow nor a transfer
  have hsame : t.config = s.config → t.transfers = s.transfers → FundsKept host t := by
    intro hconfig htransfers
    refine ⟨fun hnone => ?_, fun config hc => ?_⟩
    · rw [htransfers]
      exact hs.uninitialized (hconfig ▸ hnone)
    · rw [htransfers]
      exact hs.funds config (hconfig ▸ hc)
  -- a call that writes the escrow, and pays what belongs to it
  have hwrite : ∀ {config}, t.config = some config → Funds host config t.transfers →
      FundsKept host t := by
    intro config hconfig hfunds
    refine ⟨fun hnone => ?_, fun config' hc => ?_⟩
    · cases hconfig.symm.trans hnone
    · obtain rfl := Option.some.inj (hconfig.symm.trans hc)
      exact hfunds
  cases call with
  | initializeContract depositor beneficiary token guardians lockLedgers cancellationFeeBps
      protocolVault =>
    obtain ⟨r, h, rfl⟩ := returns_map.mp hreturns
    obtain ⟨hnone, -, rfl⟩ := returns_initializeContract h
    refine hwrite rfl ?_
    -- nothing was deposited before
    rw [show s.transfers = [] from hs.uninitialized hnone]
    exact ⟨fun _ => ⟨rfl, le_rfl, rfl⟩, Bool.noConfusion, Bool.noConfusion⟩
  | deposit amount =>
    obtain ⟨r, h, rfl⟩ := returns_map.mp hreturns
    obtain ⟨config, tokens, hconfig, hactive, hempty, hauth, htransfer, rfl⟩ := returns_deposit h
    have hne : config.depositor ≠ host.currentContractAddress := by
      intro heq
      rw [heq, env.auth_contract] at hauth
      cases hauth
    exact hwrite rfl (funds_deposit (hs.funds config hconfig) hactive hempty hne
      (htokens.transfer_nonneg htransfer))
  | approve guardian =>
    obtain ⟨r, h, rfl⟩ := returns_map.mp hreturns
    obtain ⟨_, _, -, -, -, rfl⟩ := returns_approve h
    exact hsame rfl rfl
  | release =>
    obtain ⟨r, h, rfl⟩ := returns_map.mp hreturns
    obtain ⟨config, tokens, hconfig, hactive, -, -, rfl⟩ := returns_release h
    exact hwrite rfl (funds_release (hs.funds config hconfig) hactive)
  | cancel =>
    obtain ⟨r, h, rfl⟩ := returns_map.mp hreturns
    obtain ⟨config, tokens, hconfig, hactive, rfl⟩ := returns_cancel h
    exact hwrite rfl (funds_refund (hs.funds config hconfig) hactive)
  | mutualCancel =>
    obtain ⟨r, h, rfl⟩ := returns_map.mp hreturns
    obtain ⟨config, tokens, hconfig, hactive, rfl⟩ := returns_mutualCancel h
    exact hwrite rfl (funds_refund (hs.funds config hconfig) hactive)
  | proposeGuardianRotation newGuardians approvingGuardians =>
    obtain ⟨r, h, rfl⟩ := returns_map.mp hreturns
    obtain ⟨_, -, -, -, -, -, rfl⟩ := returns_proposeGuardianRotation h
    exact hsame rfl rfl
  | executeGuardianRotation =>
    obtain ⟨r, h, rfl⟩ := returns_map.mp hreturns
    obtain ⟨_, _, -, -, -, rfl⟩ := returns_executeGuardianRotation h
    exact hsame rfl rfl
  | cancelGuardianRotation caller =>
    obtain ⟨r, h, rfl⟩ := returns_map.mp hreturns
    obtain ⟨_, -, rfl⟩ := returns_cancelGuardianRotation h
    exact hsame rfl rfl
  | rotateGuardians newGuardians approvingGuardians =>
    obtain ⟨r, h, rfl⟩ := returns_map.mp hreturns
    obtain ⟨_, -, -, -, -, -, rfl⟩ := returns_proposeGuardianRotation h
    exact hsame rfl rfl

end Payments

/-! ## Votes -/

abbrev Event (host : Host Address Tokens) :=
  Soroban.Event (Env host) (Call Address) Error Response

section Votes

variable {host : Host Address Tokens} {ls : List (Event host)} {l : Event host} {g : Address}

/-- The call has rotated the guardians. -/
def rotates (l : Event host) : Bool :=
  match l.call, l.result with
  | .executeGuardianRotation, .ok _ => true
  | _, _ => false

/-- The calls since the last rotation. -/
def sinceRotation (ls : List (Event host)) : List (Event host) := ls.rtakeWhile fun l => !rotates l

/-- The call was an approval of the guardian. -/
def ApprovedBy (g : Address) (l : Event host) : Prop :=
  l.call = .approve g ∧ l.host.auth g = true ∧ ∃ r, l.result = .ok r

/-- The call has proposed the guardians, with the approval of others. -/
def Proposes (newGuardians approvingGuardians : List Address) (l : Event host) : Prop :=
  (l.call = .proposeGuardianRotation newGuardians approvingGuardians ∨
    l.call = .rotateGuardians newGuardians approvingGuardians) ∧ ∃ r, l.result = .ok r

/-- The call has made the proposal, with three of the guardians. -/
def ProposedIn (s : State Address Tokens) (proposal : PendingGuardianRotation Address)
    (l : Event host) : Prop :=
  ∃ approvingGuardians, Proposes proposal.newGuardians approvingGuardians l ∧
    approvingGuardians.length = 3 ∧ approvingGuardians.Nodup ∧
    (∀ g ∈ approvingGuardians, g ∈ s.guardians ∧ l.host.auth g = true) ∧
    proposal.eta = saturatingAdd l.host.sequence (readRotationDelay s)

/-- Three different guardians have approved since the last rotation. -/
def ReleaseApproved (ls : List (Event host)) (s : State Address Tokens) : Prop :=
  ∃ approvers : Finset Address, 3 ≤ approvers.card ∧
    ∀ g ∈ approvers, g ∈ s.guardians ∧ ∃ l ∈ sinceRotation ls, ApprovedBy g l

/-- Three different guardians have proposed the new ones since the last rotation, and the delay has
passed since then, or the ledger is the greatest. -/
def RotationApproved (ls : List (Event host)) (s : State Address Tokens) (sequence : ℕ)
    (newGuardians : List Address) : Prop :=
  ∃ l ∈ sinceRotation ls, ∃ approvingGuardians, Proposes newGuardians approvingGuardians l ∧
    approvingGuardians.length = 3 ∧ approvingGuardians.Nodup ∧
    (∀ g ∈ approvingGuardians, g ∈ s.guardians ∧ l.host.auth g = true) ∧
    (l.host.sequence + readRotationDelay s ≤ sequence ∨ sequence = 2 ^ 32 - 1)

/-- The bits are of guardians that have approved since the last rotation, and the proposal was made
since then by the guardians that are still there. -/
structure VotesKept (ls : List (Event host)) (s : State Address Tokens) : Prop where
  nodup : s.guardians.Nodup
  approvals : ∀ i, s.approvals.testBit i = true →
    ∃ g, s.guardians[i]? = some g ∧ ∃ l ∈ sinceRotation ls, ApprovedBy g l
  pending : ∀ proposal ∈ s.pendingRotation, proposal.newGuardians.Nodup ∧
    ∃ l ∈ sinceRotation ls, ProposedIn s proposal l
  uninitialized : s.config = none → s.pendingRotation = none

theorem sinceRotation_concat :
    sinceRotation (ls ++ [l]) = if rotates l then [] else sinceRotation ls ++ [l] := by
  rw [sinceRotation, List.rtakeWhile_concat]
  cases rotates l <;> rfl

/-- What has happened since the last rotation is still there after another call. -/
theorem mem_sinceRotation_concat {k : Event host} (hl : rotates l = false)
    (hk : k ∈ sinceRotation ls) : k ∈ sinceRotation (ls ++ [l]) := by
  rw [sinceRotation_concat, hl, if_neg Bool.false_ne_true]
  exact List.mem_append_left [l] hk

theorem last_mem_sinceRotation (hl : rotates l = false) : l ∈ sinceRotation (ls ++ [l]) := by
  rw [sinceRotation_concat, hl, if_neg Bool.false_ne_true]
  exact List.mem_append_right _ (List.mem_singleton_self l)

variable {s t : State Address Tokens}

/-- A call that writes no guardian, approval or proposal keeps the votes. -/
theorem VotesKept.concat (h : VotesKept ls s) (hl : rotates l = false)
    (hguardians : t.guardians = s.guardians) (happrovals : t.approvals = s.approvals)
    (hpending : t.pendingRotation = s.pendingRotation)
    (hdelay : t.rotationDelayLedgers = s.rotationDelayLedgers)
    (hconfig : t.config = none → s.config = none) : VotesKept (ls ++ [l]) t where
  nodup := by
    rw [hguardians]
    exact h.nodup
  approvals := by
    intro i hi
    rw [happrovals] at hi
    obtain ⟨g, hg, k, hk, happroved⟩ := h.approvals i hi
    exact ⟨g, hguardians ▸ hg, k, mem_sinceRotation_concat hl hk, happroved⟩
  pending := by
    intro proposal hproposal
    rw [hpending] at hproposal
    obtain ⟨hnodup, k, hk, hproposed⟩ := h.pending proposal hproposal
    refine ⟨hnodup, k, mem_sinceRotation_concat hl hk, ?_⟩
    unfold ProposedIn readRotationDelay at hproposed ⊢
    rw [hguardians, hdelay]
    exact hproposed
  uninitialized := by
    intro hnone
    rw [hpending]
    exact h.uninitialized (hconfig hnone)

/-- **A quorum of bits** is of three different guardians. -/
theorem VotesKept.releaseApproved [DecidableEq Address] (h : VotesKept ls s)
    (hquorum : hasQuorum s.approvals) : ReleaseApproved ls s := by
  rw [hasQuorum, approvalCount, countBits_eq_card] at hquorum
  -- the guardians at the places of the bits
  have hplace : ∀ i ∈ (Finset.range 32).filter (fun i => s.approvals.testBit i),
      ∃ g, s.guardians[i]? = some g ∧ ∃ l ∈ sinceRotation ls, ApprovedBy g l := by
    intro i hi
    exact h.approvals i (Finset.mem_filter.mp hi).2
  choose guardian hguardian happroved using hplace
  refine ⟨(Finset.attach _).image fun i => guardian i.1 i.2, ?_, ?_⟩
  · rw [Finset.card_image_of_injective, Finset.card_attach]
    · exact hquorum
    · -- different places have different guardians
      rintro ⟨i, hi⟩ ⟨j, hj⟩ heq
      have hi' := hguardian i hi
      have hj' := hguardian j hj
      dsimp only at heq
      rw [← heq, ← hi'] at hj'
      obtain ⟨hlt, -⟩ := List.getElem?_eq_some_iff.mp hi'
      exact Subtype.ext ((List.getElem?_inj hlt h.nodup).mp hj'.symm)
  · intro g hg
    obtain ⟨⟨i, hi⟩, -, rfl⟩ := Finset.mem_image.mp hg
    exact ⟨List.mem_of_getElem? (hguardian i hi), happroved i hi⟩

/-- A proposal that has matured was made at least its delay ago, or this is the greatest ledger. -/
theorem VotesKept.rotationApproved (h : VotesKept ls s) {sequence : ℕ}
    {proposal : PendingGuardianRotation Address} (hproposal : s.pendingRotation = some proposal)
    (heta : proposal.eta ≤ sequence) (hsequence : sequence < 2 ^ 32) :
    RotationApproved ls s sequence proposal.newGuardians := by
  obtain ⟨-, l, hl, approvingGuardians, hproposes, hlength, hnodup, happrove, hdelay⟩ :=
    h.pending proposal hproposal
  refine ⟨l, hl, approvingGuardians, hproposes, hlength, hnodup, happrove, ?_⟩
  rw [hdelay, saturatingAdd] at heta
  omega

variable [DecidableEq Address] {env : Env host} {call : Call Address} {v : Response}

/-- **Every call that returns** keeps the bits and the proposal in line with the calls. -/
theorem votes_step (hs : VotesKept ls s) (hreturns : Returns (entryPoint env call) s v t) :
    VotesKept (ls ++ [⟨env, call, .ok v⟩]) t := by
  rw [returns_entryPoint] at hreturns
  -- a proposal takes the place of the one before
  have hpropose : ∀ {newGuardians approvingGuardians config},
      rotates (⟨env, call, .ok v⟩ : Event host) = false → s.config = some config →
      newGuardians.Nodup → approvingGuardians.length = 3 → approvingGuardians.Nodup →
      (∀ g ∈ approvingGuardians, g ∈ s.guardians ∧ env.auth g = true) →
      Proposes newGuardians approvingGuardians ⟨env, call, .ok v⟩ →
      t = { s with
        tokens := env.outside s.tokens
        pendingRotation := some
          { newGuardians, eta := saturatingAdd env.sequence (readRotationDelay s) } } →
      VotesKept (ls ++ [⟨env, call, .ok v⟩]) t := by
    rintro newGuardians approvingGuardians config hl hconfig hnew hlength hnodup happrove
      hproposes rfl
    have hkept : VotesKept (ls ++ [⟨env, call, .ok v⟩]) s :=
      hs.concat hl rfl rfl rfl rfl id
    refine ⟨hs.nodup, hkept.approvals, fun proposal hproposal => ?_, fun hnone => ?_⟩
    · obtain rfl := Option.some.inj hproposal
      exact ⟨hnew, _, last_mem_sinceRotation hl, approvingGuardians, hproposes, hlength, hnodup,
        happrove, rfl⟩
    · cases hconfig.symm.trans hnone
  cases call with
  | initializeContract depositor beneficiary token guardians lockLedgers cancellationFeeBps
      protocolVault =>
    obtain ⟨r, h, rfl⟩ := returns_map.mp hreturns
    obtain ⟨hnone, hnodup, rfl⟩ := returns_initializeContract h
    have hpending := hs.uninitialized hnone
    refine ⟨hnodup, fun i hi => ?_, fun proposal hproposal => ?_, fun h => by cases h⟩
    · simp at hi
    · cases hpending.symm.trans hproposal
  | deposit amount =>
    obtain ⟨r, h, rfl⟩ := returns_map.mp hreturns
    obtain ⟨config, tokens, -, -, -, -, -, rfl⟩ := returns_deposit h
    exact hs.concat rfl rfl rfl rfl rfl fun h => by cases h
  | approve guardian =>
    obtain ⟨r, h, rfl⟩ := returns_map.mp hreturns
    obtain ⟨config, idx, hconfig, hidx, hauth, rfl⟩ := returns_approve h
    have hkept : VotesKept (ls ++ [⟨env, .approve guardian, .ok (.count r)⟩]) s :=
      hs.concat rfl rfl rfl rfl rfl id
    refine ⟨hs.nodup, fun i hi => ?_, hkept.pending, hs.uninitialized⟩
    rw [testBit_or_mask, Bool.or_eq_true, decide_eq_true_eq] at hi
    rcases hi with hi | rfl
    · exact hkept.approvals i hi
    · -- the new bit is that of the guardian which has approved just now
      exact ⟨guardian, getElem?_of_idxOf? hidx, _, last_mem_sinceRotation rfl, rfl, hauth, _, rfl⟩
  | release =>
    obtain ⟨r, h, rfl⟩ := returns_map.mp hreturns
    obtain ⟨config, tokens, -, -, -, -, rfl⟩ := returns_release h
    exact hs.concat rfl rfl rfl rfl rfl fun h => by cases h
  | cancel =>
    obtain ⟨r, h, rfl⟩ := returns_map.mp hreturns
    obtain ⟨config, tokens, -, -, rfl⟩ := returns_cancel h
    exact hs.concat rfl rfl rfl rfl rfl fun h => by cases h
  | mutualCancel =>
    obtain ⟨r, h, rfl⟩ := returns_map.mp hreturns
    obtain ⟨config, tokens, -, -, rfl⟩ := returns_mutualCancel h
    exact hs.concat rfl rfl rfl rfl rfl fun h => by cases h
  | proposeGuardianRotation newGuardians approvingGuardians =>
    obtain ⟨r, h, rfl⟩ := returns_map.mp hreturns
    obtain ⟨config, hconfig, hnew, hlength, hnodup, happrove, rfl⟩ :=
      returns_proposeGuardianRotation h
    exact hpropose rfl hconfig hnew hlength hnodup happrove ⟨.inl rfl, _, rfl⟩ rfl
  | executeGuardianRotation =>
    obtain ⟨r, h, rfl⟩ := returns_map.mp hreturns
    obtain ⟨config, proposal, hconfig, hproposal, -, rfl⟩ := returns_executeGuardianRotation h
    refine ⟨(hs.pending proposal hproposal).1, fun i hi => ?_, fun _ h => (by cases h),
      fun _ => rfl⟩
    simp at hi
  | cancelGuardianRotation caller =>
    obtain ⟨r, h, rfl⟩ := returns_map.mp hreturns
    obtain ⟨config, -, rfl⟩ := returns_cancelGuardianRotation h
    have hkept : VotesKept (ls ++ [⟨env, .cancelGuardianRotation caller, .ok .unit⟩]) s :=
      hs.concat rfl rfl rfl rfl rfl id
    exact ⟨hs.nodup, hkept.approvals, fun _ h => (by cases h), fun _ => rfl⟩
  | rotateGuardians newGuardians approvingGuardians =>
    obtain ⟨r, h, rfl⟩ := returns_map.mp hreturns
    obtain ⟨config, hconfig, hnew, hlength, hnodup, happrove, rfl⟩ :=
      returns_proposeGuardianRotation h
    exact hpropose rfl hconfig hnew hlength hnodup happrove ⟨.inr rfl, _, rfl⟩ rfl

end Votes

/-! ## Runs -/

section Runs

variable [DecidableEq Address] {host : Host Address Tokens} {ls : List (Event host)}
  {tokens : Tokens} {s : State Address Tokens}

theorem fundsKept_of_run (htokens : Conforming host.toTokenInterface)
    (h : Run (Step entryPoint) (State.initial tokens) ls s) : FundsKept host s := by
  refine invariant_of_returns (P := fun _ _ _ => True) (I := FundsKept host) ?_
    (run_unconditional h) ⟨fun _ => rfl, fun _ hconfig => by cases hconfig⟩
  intro env call u v w hu hreturns _
  exact funds_step htokens hu hreturns

theorem votesKept_of_run (h : Run (Step entryPoint) (State.initial tokens) ls s) :
    VotesKept ls s := by
  refine history_of_returns (P := fun _ _ _ => True) (J := VotesKept) ?_ ?_
    (run_unconditional h) ?_
  · intro ks env call u v w hu hreturns _
    exact votes_step hu hreturns
  · intro ks env call u fault hu
    exact hu.concat (by cases call <;> rfl) rfl rfl rfl rfl id
  · refine ⟨List.nodup_nil, fun i hi => ?_, fun _ h => (by cases h), fun _ => rfl⟩
    simp [State.initial] at hi

/-- **A single settlement.** In every run, nothing has left the contract, or the whole deposit in
one release to the beneficiary or in one cancellation to the depositor, less the fee for the vault.
Every release comes after the approvals of three different guardians since the last rotation, and
every rotation after its proposal by three different guardians of the set that it replaces, by its
delay or at the greatest ledger. -/
theorem settled_once (htokens : Conforming host.toTokenInterface)
    (h : Run (Step entryPoint) (State.initial tokens) ls s) :
    Settled host s ∧ ∀ (l : Event host) t, Step entryPoint s l t → ∀ r, l.result = .ok r →
      (l.call = .release → ReleaseApproved ls s) ∧
        (l.call = .executeGuardianRotation →
          RotationApproved ls s l.host.sequence t.guardians) := by
  have hvotes := votesKept_of_run h
  refine ⟨(fundsKept_of_run htokens h).settled, fun l t hl r hr => ?_⟩
  have hreturns : Returns (entryPoint l.host l.call) s r t := by
    rcases hl.cases with ⟨v, hv, hreturns⟩ | ⟨⟨fault, hfault⟩, -⟩
    · obtain rfl := Except.ok.inj (hr.symm.trans hv)
      exact hreturns
    · cases hfault.symm.trans hr
  rw [returns_entryPoint] at hreturns
  constructor
  · intro hcall
    rw [hcall] at hreturns
    obtain ⟨_, hrelease, -⟩ := returns_map.mp hreturns
    obtain ⟨_, _, -, -, -, hquorum, -⟩ := returns_release hrelease
    exact hvotes.releaseApproved hquorum
  · intro hcall
    rw [hcall] at hreturns
    obtain ⟨_, hexecute, -⟩ := returns_map.mp hreturns
    obtain ⟨_, proposal, -, hproposal, heta, rfl⟩ := returns_executeGuardianRotation hexecute
    exact hvotes.rotationApproved hproposal heta l.host.sequence_lt

end Runs

/-- Token contracts with the balances as their storage; the contract has the address 0. -/
def sampleHost : Host ℕ (Balances ℕ) := { Balances.interface ℕ with currentContractAddress := 0 }

def sampleBalances : Balances ℕ :=
  ⟨fun token holder => if token = 9 ∧ holder = 1 then 1000 else 0, fun token holder => by
    dsimp only
    split <;> decide⟩

/-- Everybody but the contract has authorized the call. -/
def sampleEnv (sequence : ℕ) : Env sampleHost where
  auth := fun a => a ≠ 0
  auth_contract := rfl
  sequence := sequence % 2 ^ 32
  sequence_lt := ledger_lt sequence
  outside := id

/-- A deposit of 100, and three approvals. -/
def sampleApproved : List (Env sampleHost × Call ℕ) :=
  [(sampleEnv 1, .initializeContract 1 2 9 [11, 12, 13, 14, 15] 10 100 3),
   (sampleEnv 2, .deposit 100),
   (sampleEnv 3, .approve 11),
   (sampleEnv 4, .approve 13),
   (sampleEnv 5, .approve 15)]

/-- A release after the lock has expired. -/
theorem settled_once_sample :
    Settled sampleHost (execute entryPoint (State.initial sampleBalances) sampleApproved).2 ∧
      ReleaseApproved (execute entryPoint (State.initial sampleBalances) sampleApproved).1
        (execute entryPoint (State.initial sampleBalances) sampleApproved).2 := by
  obtain ⟨hsettled, hstep⟩ := @settled_once _ _ _ sampleHost _ _ _ conforming_balances
    (run_execute entryPoint (State.initial sampleBalances) sampleApproved)
  obtain ⟨r, hr⟩ := exists_returns_of_isOk (show
    (invoke (entryPoint (sampleEnv 11) .release)
      (execute entryPoint (State.initial sampleBalances) sampleApproved).2).1.isOk = true by
    decide +kernel)
  exact ⟨hsettled, (hstep ⟨_, .release, .ok r⟩ _ (invoke_eq_ok.mpr hr) r rfl).1 rfl⟩

/-- A proposal at the greatest ledger. -/
def sampleProposed : List (Env sampleHost × Call ℕ) :=
  [(sampleEnv (2 ^ 32 - 1),
      .initializeContract 1 2 9 [11, 12, 13, 14, 15] 10 100 3),
   (sampleEnv (2 ^ 32 - 1),
      .proposeGuardianRotation [21, 22, 23, 24, 25] [11, 12, 13])]

/-- A rotation at the greatest ledger does not wait for its delay. -/
theorem rotation_early :
    ¬ ∀ (ls : List (Event sampleHost)) (s t : State ℕ (Balances ℕ)) (l : Event sampleHost),
      Run (Step entryPoint) (State.initial sampleBalances) ls s → Step entryPoint s l t →
      ((ls ++ [l]).map fun k => k.host.sequence).IsChain (· ≤ ·) →
      l.call = .executeGuardianRotation → (∃ r, l.result = .ok r) →
      ∃ k ∈ ls, k.host.sequence + readRotationDelay s ≤ l.host.sequence := by
  intro h
  obtain ⟨r, hr⟩ := exists_returns_of_isOk (show
    (invoke (entryPoint (sampleEnv (2 ^ 32 - 1)) .executeGuardianRotation)
      (execute entryPoint (State.initial sampleBalances) sampleProposed).2).1.isOk = true by
    decide +kernel)
  have hsequences : (execute entryPoint (State.initial sampleBalances) sampleProposed).1.map
      (fun k => k.host.sequence) = [2 ^ 32 - 1, 2 ^ 32 - 1] := by decide +kernel
  have hdelay : readRotationDelay
      (execute entryPoint (State.initial sampleBalances) sampleProposed).2 = 100 := by
    decide +kernel
  have hchain : [2 ^ 32 - 1, 2 ^ 32 - 1, 2 ^ 32 - 1].IsChain (· ≤ ·) := by decide
  obtain ⟨k, hk, hle⟩ := h _ _ _ ⟨_, .executeGuardianRotation, .ok r⟩
    (run_execute entryPoint (State.initial sampleBalances) sampleProposed)
    (invoke_eq_ok.mpr hr) (by rwa [List.map_append, hsequences]) rfl ⟨r, rfl⟩
  have hmem : k.host.sequence ∈ [2 ^ 32 - 1, 2 ^ 32 - 1] := by
    rw [← hsequences]
    exact List.mem_map_of_mem hk
  have hsequence : k.host.sequence = 2 ^ 32 - 1 := by simpa using hmem
  rw [hsequence, hdelay] at hle
  have hfalse : ¬2 ^ 32 - 1 + 100 ≤ 2 ^ 32 - 1 := by decide
  exact hfalse hle

end TimelockEscrow
