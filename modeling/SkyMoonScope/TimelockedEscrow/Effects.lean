import SkyMoonScope.TimelockedEscrow.Escrow
import Mathlib.Data.List.Nodup

/-!
# What the entry points of the escrow check and write

Each entry point is read off its body once: what it has checked when it returns, and the storage it
leaves.

## Main definitions

* `Active`: an escrow that is neither released nor cancelled
* `feeOf`, `refunds`: the fee of a cancellation, and its transfers

## Main results

* `collectApprovers_spec`: the guardians that approve a rotation are different current ones
* `returns_deposit`, `returns_release`, `returns_approve`, …: what each entry point has checked, and
  what it writes
-/

namespace TimelockEscrow

open Soroban Bits

variable {Address Tokens : Type}

/-- Neither released nor cancelled. -/
def Active (config : EscrowConfig Address) : Prop :=
  config.isReleased = false ∧ config.isCancelled = false

/-- The fee of a cancellation, in basis points of the amount. -/
def feeOf (config : EscrowConfig Address) (amount : ℤ) : ℤ :=
  (amount * config.cancellationFeeBps).tdiv 10000

/-- The transfers of a cancellation, the last one first: the rest to the depositor, and before it
the fee to the vault, where there is one. -/
def refunds (host : Host Address Tokens) (config : EscrowConfig Address) (amount : ℤ) :
    List (Transfer Address) :=
  ⟨config.token, host.currentContractAddress, config.depositor, amount - feeOf config amount⟩ ::
    if feeOf config amount > 0 then
      [⟨config.token, host.currentContractAddress, config.protocolVault, feeOf config amount⟩]
    else []

section Helpers

variable {host : Host Address Tokens} {env : Env host} {s t : State Address Tokens}
  {config : EscrowConfig Address} {α : Type} {v : α}

theorem returns_readConfig_bind {f : EscrowConfig Address → Body Address Tokens α} :
    Returns (readConfig >>= f) s v t ↔
      ∃ config, s.config = some config ∧ Returns (f config) s v t := by
  simp only [readConfig, bind_assoc, returns_get_bind, returns_orFault_bind]

theorem returns_requireActive_bind {f : Unit → Body Address Tokens α} :
    Returns (requireActive config >>= f) s v t ↔ Active config ∧ Returns (f ()) s v t := by
  simp only [requireActive, returns_require_bind, Active, not_or, Bool.not_eq_true]

theorem returns_requireFunded_bind {f : Unit → Body Address Tokens α} :
    Returns (requireFunded config >>= f) s v t ↔ config.amount ≠ 0 ∧ Returns (f ()) s v t := by
  simp only [requireFunded, returns_require_bind, ne_eq]

theorem returns_requireAuth_bind {addr : Address} {f : Unit → Body Address Tokens α} :
    Returns (requireAuth env addr >>= f) s v t ↔ env.auth addr = true ∧ Returns (f ()) s v t := by
  simp only [requireAuth, returns_require_bind]

theorem returns_transfer_bind {token source destination : Address} {amount : ℤ}
    {f : Unit → Body Address Tokens α} :
    Returns (transfer host token source destination amount >>= f) s v t ↔
      ∃ tokens, host.transfer token source destination amount s.tokens = some tokens ∧
        Returns (f ()) { s with
          tokens, transfers := ⟨token, source, destination, amount⟩ :: s.transfers } v t := by
  simp only [transfer, bind_assoc, returns_get_bind, returns_orFault_bind, returns_set_bind]

theorem returns_writeConfig {r : Unit} :
    Returns (writeConfig config : Body Address Tokens Unit) s r t ↔
      { s with config := some config } = t := by
  simp only [writeConfig, returns_get_bind, returns_set]

/-- **A cancellation** pays out the fee and the rest, and ends the escrow. -/
theorem returns_refundDepositor {r : Unit}
    (h : Returns (refundDepositor host config) s r t) :
    ∃ tokens, t = { s with
      tokens
      transfers := refunds host config config.amount ++ s.transfers
      config := some { config with amount := 0, isCancelled := true } } := by
  simp only [refundDepositor, returns_plainI128_bind, returns_divideI128_bind] at h
  obtain ⟨-, -, -, -, h⟩ := h
  split at h
  next hfee =>
    simp only [returns_transfer_bind, returns_writeConfig] at h
    obtain ⟨_, -, tokens, -, rfl⟩ := h
    refine ⟨tokens, ?_⟩
    rw [refunds, feeOf, if_pos hfee]
    rfl
  next hfee =>
    simp only [returns_transfer_bind, returns_writeConfig] at h
    obtain ⟨tokens, -, rfl⟩ := h
    refine ⟨tokens, ?_⟩
    rw [refunds, feeOf, if_neg hfee]
    rfl

end Helpers

/-! ## The entry points -/

section Spec

variable {host : Host Address Tokens} {env : Env host} {s t : State Address Tokens} {r : Unit}

theorem returns_deposit {amount : ℤ} (h : Returns (deposit env amount) s r t) :
    ∃ config tokens, s.config = some config ∧ Active config ∧ config.amount ≤ 0 ∧
      env.auth config.depositor = true ∧
      host.transfer config.token config.depositor host.currentContractAddress amount s.tokens =
        some tokens ∧
      t = { s with
        tokens
        transfers :=
          ⟨config.token, config.depositor, host.currentContractAddress, amount⟩ :: s.transfers
        config := some { config with amount } } := by
  simp only [deposit, returns_readConfig_bind, returns_requireActive_bind, returns_require_bind,
    returns_requireAuth_bind, returns_transfer_bind, returns_writeConfig] at h
  obtain ⟨config, hconfig, hactive, hamount, hauth, tokens, htransfer, rfl⟩ := h
  exact ⟨config, tokens, hconfig, hactive, not_lt.mp hamount, hauth, htransfer, rfl⟩

theorem returns_release (h : Returns (release env) s r t) :
    ∃ config tokens, s.config = some config ∧ Active config ∧
      config.unlockLedger ≤ env.sequence ∧ hasQuorum s.approvals ∧
      t = { s with
        tokens
        transfers := ⟨config.token, host.currentContractAddress, config.beneficiary,
          config.amount⟩ :: s.transfers
        config := some { config with amount := 0, isReleased := true } } := by
  simp only [release, returns_readConfig_bind, returns_requireActive_bind,
    returns_requireFunded_bind, returns_require_bind, returns_get_bind, returns_transfer_bind,
    returns_writeConfig] at h
  obtain ⟨config, hconfig, hactive, -, hunlock, hquorum, tokens, -, rfl⟩ := h
  exact ⟨config, tokens, hconfig, hactive, not_lt.mp hunlock, hquorum, rfl⟩

theorem returns_cancel (h : Returns (cancel env) s r t) :
    ∃ config tokens, s.config = some config ∧ Active config ∧
      t = { s with
        tokens
        transfers := refunds host config config.amount ++ s.transfers
        config := some { config with amount := 0, isCancelled := true } } := by
  simp only [cancel, returns_readConfig_bind, returns_requireActive_bind,
    returns_requireFunded_bind, returns_requireAuth_bind, returns_get_bind,
    returns_require_bind] at h
  obtain ⟨config, hconfig, hactive, -, -, -, h⟩ := h
  obtain ⟨tokens, rfl⟩ := returns_refundDepositor h
  exact ⟨config, tokens, hconfig, hactive, rfl⟩

theorem returns_mutualCancel (h : Returns (mutualCancel env) s r t) :
    ∃ config tokens, s.config = some config ∧ Active config ∧
      t = { s with
        tokens
        transfers := refunds host config config.amount ++ s.transfers
        config := some { config with amount := 0, isCancelled := true } } := by
  simp only [mutualCancel, returns_readConfig_bind, returns_requireActive_bind,
    returns_requireFunded_bind, returns_requireAuth_bind] at h
  obtain ⟨config, hconfig, hactive, -, -, -, h⟩ := h
  obtain ⟨tokens, rfl⟩ := returns_refundDepositor h
  exact ⟨config, tokens, hconfig, hactive, rfl⟩

theorem returns_executeGuardianRotation (h : Returns (executeGuardianRotation env) s r t) :
    ∃ config proposal, s.config = some config ∧ s.pendingRotation = some proposal ∧
      proposal.eta ≤ env.sequence ∧
      t = { s with
        guardians := proposal.newGuardians
        pendingRotation := none
        approvals := 0
        approvalEpoch := s.approvalEpoch + 1 } := by
  simp only [executeGuardianRotation, returns_readConfig_bind, returns_requireActive_bind,
    returns_get_bind, returns_orFault_bind, returns_require_bind, returns_set] at h
  obtain ⟨config, hconfig, -, proposal, hproposal, heta, -, rfl⟩ := h
  exact ⟨config, proposal, hconfig, hproposal, not_lt.mp heta, rfl⟩

variable [DecidableEq Address]

theorem returns_guardianIndex_bind {guardians : List Address} {addr : Address} {α : Type} {v : α}
    {f : ℕ → Body Address Tokens α} :
    Returns (guardianIndex guardians addr >>= f) s v t ↔
      ∃ idx, guardians.idxOf? addr = some idx ∧ Returns (f idx) s v t := by
  simp only [guardianIndex, returns_orFault_bind]

theorem returns_initializeContract {depositor beneficiary token protocolVault : Address}
    {guardians : List Address} {lockLedgers cancellationFeeBps : ℕ}
    (h : Returns (initializeContract env depositor beneficiary token guardians lockLedgers
      cancellationFeeBps protocolVault) s r t) :
    s.config = none ∧ guardians.Nodup ∧
      t = { s with
        config := some ⟨depositor, beneficiary, token, 0, saturatingAdd env.sequence lockLedgers,
          false, false, cancellationFeeBps, protocolVault⟩
        guardians, approvals := 0, approvalEpoch := 0 } := by
  simp only [initializeContract, validateGuardians, bind_assoc, returns_get_bind,
    returns_require_bind, returns_set, Option.isNone_iff_eq_none] at h
  obtain ⟨hnone, -, hnodup, -, rfl⟩ := h
  exact ⟨hnone, hnodup, rfl⟩

theorem returns_approve {guardian : Address} {n : ℕ} (h : Returns (approve env guardian) s n t) :
    ∃ config idx, s.config = some config ∧ s.guardians.idxOf? guardian = some idx ∧
      env.auth guardian = true ∧ t = { s with approvals := s.approvals ||| mask idx } := by
  simp only [approve, setApproval, returns_readConfig_bind, returns_requireActive_bind,
    returns_requireFunded_bind, returns_requireAuth_bind, returns_get_bind,
    returns_guardianIndex_bind, bind_assoc, returns_require_bind, pure_bind, returns_set_bind,
    returns_pure] at h
  obtain ⟨config, hconfig, -, -, hauth, idx, hidx, -, -, rfl⟩ := h
  exact ⟨config, idx, hconfig, hidx, hauth, rfl⟩

/-- The place that was found for an address is its own. -/
theorem getElem?_of_idxOf? {guardians : List Address} {addr : Address}
    {idx : ℕ} (h : guardians.idxOf? addr = some idx) : guardians[idx]? = some addr := by
  obtain ⟨hlt, hget, -⟩ := List.idxOf?_eq_some_iff.mp h
  rw [List.getElem?_eq_getElem hlt, hget]

/-- **The loop over the guardians that approve a rotation** returns when they are current ones that
have authorized the call, different from each other and from those with a bit already. -/
theorem collectApprovers_spec {guardians approvingGuardians : List Address} {bitmap : ℕ}
    (h : Returns (collectApprovers env guardians approvingGuardians bitmap) s r t) :
    (∀ g ∈ approvingGuardians, g ∈ guardians ∧ env.auth g = true) ∧
      (∀ g ∈ approvingGuardians, ∀ idx ∈ guardians.idxOf? g, bitmap.testBit idx = false) ∧
      approvingGuardians.Nodup ∧ s = t := by
  induction approvingGuardians generalizing bitmap with
  | nil =>
    obtain ⟨-, rfl⟩ := returns_pure.mp h
    simp
  | cons g approvingGuardians ih =>
    simp only [collectApprovers, returns_requireAuth_bind, returns_guardianIndex_bind,
      returns_require_bind, ne_eq, not_not, and_mask_eq_zero] at h
    obtain ⟨hauth, idx, hidx, hbit, h⟩ := h
    obtain ⟨hcurrent, hbits, hnodup, rfl⟩ := ih h
    have hmem : g ∈ guardians := List.mem_of_getElem? (getElem?_of_idxOf? hidx)
    -- the bits that the rest finds clear were clear before, and the one of `g` is not among them
    have hclear : ∀ a ∈ approvingGuardians, ∀ i ∈ guardians.idxOf? a,
        bitmap.testBit i = false ∧ idx ≠ i := by
      intro a ha i hi
      have hbit := hbits a ha i hi
      rw [testBit_or_mask, Bool.or_eq_false_iff] at hbit
      exact ⟨hbit.1, of_decide_eq_false hbit.2⟩
    refine ⟨List.forall_mem_cons.mpr ⟨⟨hmem, hauth⟩, hcurrent⟩,
      List.forall_mem_cons.mpr ⟨fun i hi => ?_, fun a ha i hi => (hclear a ha i hi).1⟩,
      List.nodup_cons.mpr ⟨fun hg => ?_, hnodup⟩, rfl⟩
    · obtain rfl := Option.some.inj (hidx.symm.trans hi)
      exact hbit
    · exact (hclear g hg idx hidx).2 rfl

theorem returns_proposeGuardianRotation {newGuardians approvingGuardians : List Address} {n : ℕ}
    (h : Returns (proposeGuardianRotation env newGuardians approvingGuardians) s n t) :
    ∃ config, s.config = some config ∧ newGuardians.Nodup ∧ approvingGuardians.length = 3 ∧
      approvingGuardians.Nodup ∧
      (∀ g ∈ approvingGuardians, g ∈ s.guardians ∧ env.auth g = true) ∧
      t = { s with
        pendingRotation := some
          { newGuardians, eta := saturatingAdd env.sequence (readRotationDelay s) } } := by
  simp only [proposeGuardianRotation, validateGuardians, bind_assoc, returns_readConfig_bind,
    returns_requireActive_bind, returns_require_bind, returns_get_bind, ne_eq, not_not] at h
  obtain ⟨config, hconfig, -, -, hnew, hlength, h⟩ := h
  obtain ⟨_, u, hcollect, h⟩ := returns_bind.mp h
  obtain ⟨happrove, -, hnodup, rfl⟩ := collectApprovers_spec hcollect
  simp only [returns_set_bind, returns_pure] at h
  obtain ⟨-, rfl⟩ := h
  exact ⟨config, hconfig, hnew, hlength, hnodup, happrove, rfl⟩

theorem returns_cancelGuardianRotation {caller : Address}
    (h : Returns (cancelGuardianRotation env caller) s r t) :
    ∃ config, s.config = some config ∧ t = { s with pendingRotation := none } := by
  simp only [cancelGuardianRotation, returns_readConfig_bind, returns_requireActive_bind,
    returns_requireAuth_bind, returns_get_bind, returns_guardianIndex_bind, returns_require_bind,
    returns_set] at h
  obtain ⟨config, hconfig, -, -, _, -, -, rfl⟩ := h
  exact ⟨config, hconfig, rfl⟩

/-- A call runs its body after what became of the tokens. -/
theorem returns_entryPoint {call : Call Address} {v : Response} :
    Returns (entryPoint env call) s v t ↔
      Returns (body env call) { s with tokens := env.outside s.tokens } v t := by
  simp only [entryPoint, returns_get_bind, returns_set_bind]

end Spec

end TimelockEscrow
