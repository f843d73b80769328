import SkyMoonScope.FlashLoanVault.Vault
import SkyMoonScope.Lib.Machine
import SkyMoonScope.Soroban.Calls

/-!
# Loans are repaid, whatever the receiver does

While a receiver runs the lock is set, and every entry point that touches the deposits, the fee or
the lock asks for it to be clear. So whatever the receiver does, and whatever the contracts do that
it calls, these entries are the same when it returns, and the lock is set. The check of the balance
after it is what makes the loan safe, and the fee is added to the deposits only after it.

## Main definitions

* `Sound`: outside of a loan the lock is clear and the balance covers the deposits
* `Locked`: what holds while a receiver runs
* `Act`, `Act.perform`: what happens outside of the vault: transfers, and calls with their callbacks

## Main results

* `locked_run`: every program leaves the entries of a locked vault as they are
* `loan_repaid`: a loan that returns leaves at least the balance before and the fee
* `Sound.call`: every call keeps a sound vault sound
* `flash_loans_safe`: all three over every run
-/

namespace FlashLoanVault

open Soroban Machine

variable {Address Tokens : Type} {host : Host Address Tokens}
  {signers : Signers host}
  {receivers : Operation Address → World Address Tokens → Option (World Address Tokens)}
  {w w' : World Address Tokens} {amount fee : ℤ}

/-! ## Reading off the helpers -/

section Helpers

variable {x z : ℤ} {r : Unit}

theorem returns_plain_bind {α : Type} {f : ℤ → Body Address Tokens α} {v : α} :
    Returns (plain x >>= f) w v w' ↔ IntType.i128.Fits x ∧ Returns (f x) w v w' := by
  rw [plain, returns_orFault_bind]
  simp

theorem returns_save_bind {α : Type} {g : State Address → State Address}
    {f : Unit → Body Address Tokens α} {v : α} :
    Returns (save g >>= f) w v w' ↔ Returns (f ()) { w with vault := g w.vault } v w' := by
  simp only [save, bind_assoc, returns_get_bind, returns_set_bind]

theorem returns_save {g : State Address → State Address} :
    Returns (save g : Body Address Tokens Unit) w r w' ↔ { w with vault := g w.vault } = w' := by
  simp only [save, returns_get_bind, returns_set]

theorem returns_loadToken_bind {α : Type} {f : Address → Body Address Tokens α} {v : α} :
    Returns (loadToken >>= f) w v w' ↔
      ∃ token, w.vault.token = some token ∧ Returns (f token) w v w' := by
  simp only [loadToken, bind_assoc, returns_get_bind, returns_orFault_bind]

theorem returns_loadAdmin_bind {α : Type} {f : Address → Body Address Tokens α} {v : α} :
    Returns (loadAdmin >>= f) w v w' ↔
      ∃ admin, w.vault.admin = some admin ∧ Returns (f admin) w v w' := by
  simp only [loadAdmin, bind_assoc, returns_get_bind, returns_orFault_bind]

theorem returns_requireAuth_bind {α : Type} {auth : Address → Bool} {addr : Address}
    {f : Unit → Body Address Tokens α} {v : α} :
    Returns (requireAuth auth addr >>= f) w v w' ↔ auth addr = true ∧ Returns (f ()) w v w' := by
  rw [requireAuth, returns_require_bind]

/-- The check of the lock. -/
theorem returns_checkNoFlashLoanActive_bind {α : Type} {f : Unit → Body Address Tokens α} {v : α} :
    Returns (checkNoFlashLoanActive >>= f) w v w' ↔
      isFlashLoanActive w.vault = false ∧ Returns (f ()) w v w' := by
  simp only [checkNoFlashLoanActive, bind_assoc, returns_get_bind, returns_require_bind,
    Bool.not_eq_true']

theorem returns_checkNotPaused_bind {α : Type} {f : Unit → Body Address Tokens α} {v : α} :
    Returns (checkNotPaused >>= f) w v w' ↔
      EmergencyGuard.isPaused w.vault.guard flashLoanPauseFlag = false ∧
        Returns (f ()) w v w' := by
  simp only [checkNotPaused, bind_assoc, returns_get_bind, returns_require_bind,
    Bool.not_eq_true']

theorem returns_calculateFee_bind {α : Type} {f : ℤ → Body Address Tokens α} {v : α} :
    Returns (calculateFee amount >>= f) w v w' ↔
      IntType.i128.Fits (amount * getFeeBps w.vault) ∧
        Returns (f ((amount * getFeeBps w.vault).tdiv 10000)) w v w' := by
  simp only [calculateFee, bind_assoc, returns_get_bind, returns_plain_bind, pure_bind]

theorem returns_transfer_bind {α : Type} {token source destination : Address}
    {f : Unit → Body Address Tokens α} {v : α} :
    Returns (transfer host token source destination amount >>= f) w v w' ↔
      ∃ tokens, host.transfer token source destination amount w.tokens = some tokens ∧
        Returns (f ()) { w with tokens } v w' := by
  simp only [transfer, bind_assoc, returns_get_bind, returns_orFault_bind, returns_set_bind]

/-- The receiver returns, or panics and leaves the world as it was. -/
theorem returns_tryExecuteOperation_bind {α : Type} {operation : Operation Address}
    {f : Bool → Body Address Tokens α} {v : α} :
    Returns (tryExecuteOperation receivers operation >>= f) w v w' ↔
      (∃ u, receivers operation w = some u ∧ Returns (f true) u v w') ∨
        receivers operation w = none ∧ Returns (f false) w v w' := by
  simp only [tryExecuteOperation, bind_assoc, returns_get_bind]
  cases receivers operation w with
  | none => simp
  | some u =>
    simp only [bind_assoc, returns_set_bind, pure_bind, Option.some.injEq]
    simp

end Helpers

/-! ## The entries that the lock protects -/

/-- The entries that only an unlocked vault changes are the same. -/
structure Kept (s t : State Address) : Prop where
  admin : t.admin = s.admin
  token : t.token = s.token
  feeBps : t.feeBps = s.feeBps
  totalDeposited : t.totalDeposited = s.totalDeposited

theorem Kept.refl (s : State Address) : Kept s s := ⟨rfl, rfl, rfl, rfl⟩

theorem Kept.trans {s t u : State Address} (h : Kept s t) (h' : Kept t u) : Kept s u :=
  ⟨h'.admin.trans h.admin, h'.token.trans h.token, h'.feeBps.trans h.feeBps,
    h'.totalDeposited.trans h.totalDeposited⟩

/-- The vault while a receiver runs that was called from the entries of `s`. -/
structure Locked (s : State Address) (w : World Address Tokens) : Prop where
  lock : isFlashLoanActive w.vault = true
  kept : Kept s w.vault

theorem getFeeBps_of_kept {s t : State Address} (h : Kept s t) : getFeeBps t = getFeeBps s := by
  rw [getFeeBps, getFeeBps, h.feeBps]

theorem getTotalDeposited_of_kept {s t : State Address} (h : Kept s t) :
    getTotalDeposited t = getTotalDeposited s := by
  rw [getTotalDeposited, getTotalDeposited, h.totalDeposited]

/-! ## Loans -/

/-- What the end of a loan writes: the lock is clear, and a fee was added to the deposits. -/
structure Settled (u : World Address Tokens) (fee : ℤ) (w' : World Address Tokens) : Prop where
  tokens : w'.tokens = u.tokens
  admin : w'.vault.admin = u.vault.admin
  token : w'.vault.token = u.vault.token
  feeBps : w'.vault.feeBps = u.vault.feeBps
  unlocked : isFlashLoanActive w'.vault = false
  totalDeposited : getTotalDeposited w'.vault = getTotalDeposited u.vault + max fee 0

/-- A loan ends with a result only when the receiver has returned and has repaid the loan. -/
theorem settle_returns {token : Address} {preBalance fee' : ℤ} {returned : Bool}
    {g : State Address → State Address}
    (h : Returns (settle host token preBalance fee (save g) returned) w fee' w')
    (hkept : ∀ s, Kept s (g s)) (hclear : ∀ s, (g s).flashLoanActive = some false) :
    returned = true ∧ fee' = fee ∧ preBalance + fee ≤ vaultBalance host token w ∧
      Settled w fee w' := by
  unfold settle at h
  split at h
  next hreturned =>
    simp only [returns_plain_bind, returns_get_bind] at h
    obtain ⟨-, h⟩ := h
    split at h
    · -- the loan was not repaid
      simp only [returns_save_bind, not_returns_throw] at h
    next hrepaid =>
      refine ⟨hreturned, ?_⟩
      simp only [returns_save_bind, collectFee] at h
      split at h
      next hfee =>
        simp only [bind_assoc, returns_get_bind, returns_plain_bind, setTotalDeposited,
          returns_save_bind, returns_pure] at h
        obtain ⟨-, rfl, rfl⟩ := h
        refine ⟨rfl, not_lt.mp hrepaid, rfl, (hkept _).admin, (hkept _).token, (hkept _).feeBps,
          ?_, ?_⟩
        · show (g w.vault).flashLoanActive.getD false = false
          rw [hclear, Option.getD_some]
        · show getTotalDeposited (g w.vault) + _ = _
          rw [getTotalDeposited_of_kept (hkept _), max_eq_left hfee.le]
      next hfee =>
        simp only [pure_bind, returns_pure] at h
        obtain ⟨rfl, rfl⟩ := h
        refine ⟨rfl, not_lt.mp hrepaid, rfl, (hkept _).admin, (hkept _).token, (hkept _).feeBps,
          ?_, ?_⟩
        · show (g w.vault).flashLoanActive.getD false = false
          rw [hclear, Option.getD_some]
        · show getTotalDeposited (g w.vault) = _
          rw [getTotalDeposited_of_kept (hkept _), max_eq_right (not_lt.mp hfee), add_zero]
  · -- the receiver has panicked
    simp only [returns_save_bind, not_returns_throw] at h

/-- **A loan that returns**: the world `u` in which the receiver was called and the world `u'` that
it left. The lock was clear before and was set when the receiver was called, and the balance that it
left was checked before anything else was written. -/
inductive Loan (host : Host Address Tokens)
    (receivers : Operation Address → World Address Tokens → Option (World Address Tokens))
    (w : World Address Tokens) (amount fee : ℤ) (w' : World Address Tokens) : Prop
  | intro (token : Address) (operation : Operation Address) (u u' : World Address Tokens)
      (htoken : w.vault.token = some token) (hamount : 0 < amount)
      (hunlocked : isFlashLoanActive w.vault = false)
      (hfee : fee = (amount * getFeeBps w.vault).tdiv 10000)
      (hrun : receivers operation u = some u') (hlocked : Locked w.vault u)
      (hrepaid : vaultBalance host token w + fee ≤ vaultBalance host token u')
      (hsettled : Settled u' fee w') : Loan host receivers w amount fee w'

theorem flashLoan_loan {initiator receiver : Address}
    (h : Returns (flashLoan host signers receivers initiator receiver amount) w fee w') :
    Loan host receivers w amount fee w' := by
  simp only [flashLoan, setFlashLoanActive, returns_get_bind, returns_require_bind,
    returns_checkNotPaused_bind, returns_checkNoFlashLoanActive_bind, returns_requireAuth_bind,
    returns_loadToken_bind, returns_calculateFee_bind, returns_save_bind, returns_transfer_bind,
    returns_tryExecuteOperation_bind] at h
  obtain ⟨-, -, hamount, hunlocked, -, -, token, htoken, -, -, tokens, -, h⟩ := h
  rcases h with ⟨u, hrun, h⟩ | ⟨-, h⟩
  · obtain ⟨-, rfl, hrepaid, hsettled⟩ :=
      settle_returns h (fun s => ⟨rfl, rfl, rfl, rfl⟩) (fun _ => rfl)
    exact .intro token _ _ u htoken (not_le.mp hamount) hunlocked rfl hrun
      ⟨rfl, ⟨rfl, rfl, rfl, rfl⟩⟩ hrepaid hsettled
  · obtain ⟨hreturned, -⟩ := settle_returns h (fun s => ⟨rfl, rfl, rfl, rfl⟩) (fun _ => rfl)
    cases hreturned

/-- Two writes of the vault are one. -/
theorem save_save {f g : State Address → State Address} :
    (do save f; save g : Body Address Tokens Unit) = save fun s => g (f s) := by
  funext w
  rfl

/-! ## The vault outside of loans -/

/-- **Outside of a loan** the lock is clear, and the balance covers the deposits. -/
structure Sound (host : Host Address Tokens) (w : World Address Tokens) : Prop where
  unlocked : isFlashLoanActive w.vault = false
  fee_nonneg : 0 ≤ getFeeBps w.vault
  admin_isSome : w.vault.token.isSome → w.vault.admin.isSome
  deposited_le : ∀ token, w.vault.token = some token →
    getTotalDeposited w.vault ≤ vaultBalance host token w

theorem sound_initial (tokens : Tokens) : Sound host (World.initial tokens) :=
  ⟨rfl, le_rfl, by simp [World.initial], by simp [World.initial]⟩

/-- A vault with the same entries is sound where the balance has not become less. -/
theorem Sound.of_kept (hw : Sound host w) (hkept : Kept w.vault w'.vault)
    (hunlocked : isFlashLoanActive w'.vault = false)
    (hbalance : ∀ token, vaultBalance host token w ≤ vaultBalance host token w') :
    Sound host w' := by
  refine ⟨hunlocked, ?_, ?_, ?_⟩
  · rw [getFeeBps_of_kept hkept]
    exact hw.fee_nonneg
  · rw [hkept.token, hkept.admin]
    exact hw.admin_isSome
  · intro token htoken
    rw [getTotalDeposited_of_kept hkept]
    rw [hkept.token] at htoken
    exact (hw.deposited_le token htoken).trans (hbalance token)

/-- A loan keeps the vault sound when the receiver runs with the vault locked: the fee that is added
to the deposits has been paid. -/
theorem Sound.loan (hw : Sound host w) (h : Loan host receivers w amount fee w')
    (hreceivers : ∀ operation u u', Locked w.vault u → w.vault.admin.isSome →
      receivers operation u = some u' → Locked w.vault u') : Sound host w' := by
  obtain ⟨token, operation, u, u', htoken, hamount, -, hfee, hrun, hlocked, hrepaid, hsettled⟩ := h
  have hadmin : w.vault.admin.isSome := hw.admin_isSome (by rw [htoken]; rfl)
  have hafter := hreceivers operation u u' hlocked hadmin hrun
  have hfee_nonneg : 0 ≤ fee := by
    rw [hfee]
    exact Int.tdiv_nonneg (mul_nonneg hamount.le hw.fee_nonneg) (by decide)
  refine ⟨hsettled.unlocked, ?_, ?_, ?_⟩
  · rw [getFeeBps, hsettled.feeBps, hafter.kept.feeBps]
    exact hw.fee_nonneg
  · rw [hsettled.admin, hafter.kept.admin]
    exact fun _ => hadmin
  · intro token' htoken'
    obtain rfl : token = token' := by
      rw [hsettled.token, hafter.kept.token, htoken] at htoken'
      exact Option.some.inj htoken'
    calc getTotalDeposited w'.vault
        = getTotalDeposited u'.vault + fee := by
          rw [hsettled.totalDeposited, max_eq_left hfee_nonneg]
      _ = getTotalDeposited w.vault + fee := by rw [getTotalDeposited_of_kept hafter.kept]
      _ ≤ vaultBalance host token w + fee := by linarith [hw.deposited_le token htoken]
      _ ≤ vaultBalance host token u' := hrepaid
      _ = vaultBalance host token w' := by rw [vaultBalance, vaultBalance, hsettled.tokens]

/-- A change of the deposits keeps the vault sound where the balance changes as much. -/
theorem Sound.deposits (hw : Sound host w) {token : Address} {total : ℤ} {tokens : Tokens}
    (htoken : w.vault.token = some token)
    (htotal : total - getTotalDeposited w.vault =
      host.balance token tokens host.currentContractAddress - vaultBalance host token w) :
    Sound host ⟨{ w.vault with totalDeposited := some total }, tokens⟩ := by
  refine ⟨hw.unlocked, hw.fee_nonneg, hw.admin_isSome, ?_⟩
  intro token' htoken'
  obtain rfl : token = token' := Option.some.inj (htoken.symm.trans htoken')
  show total ≤ host.balance token tokens host.currentContractAddress
  linarith [hw.deposited_le token htoken]

/-- The parts of the guard change only its own entries. -/
theorem Sound.guarded (hw : Sound host w) {x : EmergencyGuard.Body Address Unit} {r : Unit}
    (h : Returns (guarded x : Body Address Tokens Unit) w r w') : Sound host w' := by
  rw [FlashLoanVault.guarded, returns_zoom] at h
  obtain ⟨guard, -, rfl⟩ := h
  exact ⟨hw.unlocked, hw.fee_nonneg, hw.admin_isSome, hw.deposited_le⟩

/-! ## Whatever the receiver does -/

variable [DecidableEq Address]

/-- A transfer by a program changes balances alone. -/
theorem Transfer.make_vault {m : Transfer Address} (h : m.make host w = some w') :
    w'.vault = w.vault := by
  unfold Transfer.make at h
  split at h
  · cases h
  · obtain ⟨tokens, -, rfl⟩ := Option.map_eq_some_iff.mp h
    rfl

/-- A transfer by a program does not lower the balance of the vault. -/
theorem Transfer.le_vaultBalance (hconf : Conforming host.toTokenInterface) {m : Transfer Address}
    (h : m.make host w = some w') (token : Address) :
    vaultBalance host token w ≤ vaultBalance host token w' := by
  unfold Transfer.make at h
  split at h
  · cases h
  next hsource =>
    obtain ⟨tokens, htransfer, rfl⟩ := Option.map_eq_some_iff.mp h
    exact hconf.le_balance htransfer (Ne.symm hsource) token

/-- The entry points that do not look at the lock, but for `initialize`. -/
def Call.Unguarded : Call Address → Prop
  | .pauseBorrow | .resumeBorrow | .getBorrowPaused | .getFee
  | .getAvailable | .getToken | .getAdmin | .getTotalDeposited => True
  | _ => False

/-- A call that returns although the vault is initialized and locked does not look at the lock. -/
theorem unguarded_of_lock {call : Call Address} {v : Response Address}
    (hlock : isFlashLoanActive w.vault = true) (hadmin : w.vault.admin.isSome)
    (h : Returns (entryPoint host signers receivers call) w v w') : call.Unguarded := by
  cases call with
  | initializeVault admin token =>
    simp only [entryPoint, initializeVault, bind_assoc, returns_get_bind, returns_require_bind,
      Option.isNone_iff_eq_none] at h
    rw [h.1] at hadmin
    cases hadmin
  | deposit source amount =>
    simp only [entryPoint, deposit, bind_assoc, returns_checkNoFlashLoanActive_bind, hlock,
      Bool.true_eq_false, false_and] at h
  | withdraw destination amount =>
    simp only [entryPoint, withdraw, bind_assoc, returns_checkNoFlashLoanActive_bind, hlock,
      Bool.true_eq_false, false_and] at h
  | setFee feeBps =>
    simp only [entryPoint, setFee, bind_assoc, returns_checkNoFlashLoanActive_bind, hlock,
      Bool.true_eq_false, false_and] at h
  | setPaused admin paused =>
    simp only [entryPoint, setPaused, bind_assoc, returns_checkNoFlashLoanActive_bind, hlock,
      Bool.true_eq_false, false_and] at h
  | emergencyPause approvers =>
    simp only [entryPoint, emergencyPause, bind_assoc, returns_checkNoFlashLoanActive_bind, hlock,
      Bool.true_eq_false, false_and] at h
  | flashLoan initiator receiver amount =>
    simp only [entryPoint, flashLoan, returns_map, returns_get_bind, returns_require_bind,
      returns_checkNotPaused_bind, returns_checkNoFlashLoanActive_bind, hlock, Bool.true_eq_false,
      false_and, and_false, exists_false] at h
  | borrow borrower amount =>
    simp only [entryPoint, borrow, returns_map, returns_require_bind, returns_checkNotPaused_bind,
      returns_checkNoFlashLoanActive_bind, hlock, Bool.true_eq_false, false_and, and_false,
      exists_false] at h
  | _ => trivial

/-- A call that does not look at the lock keeps the entries and the lock, and moves no tokens. -/
theorem kept_of_unguarded {call : Call Address} {v : Response Address} (hcall : call.Unguarded)
    (h : Returns (entryPoint host signers receivers call) w v w') :
    Kept w.vault w'.vault ∧ w'.vault.flashLoanActive = w.vault.flashLoanActive ∧
      w'.tokens = w.tokens := by
  cases call with
  | pauseBorrow =>
    simp only [entryPoint, pauseBorrow, setBorrowPaused, bind_assoc, returns_loadAdmin_bind,
      returns_requireAuth_bind, returns_save_bind, returns_pure] at h
    obtain ⟨_, -, -, -, rfl⟩ := h
    exact ⟨⟨rfl, rfl, rfl, rfl⟩, rfl, rfl⟩
  | resumeBorrow =>
    simp only [entryPoint, resumeBorrow, setBorrowPaused, bind_assoc, returns_loadAdmin_bind,
      returns_requireAuth_bind, returns_save_bind, returns_pure] at h
    obtain ⟨_, -, -, -, rfl⟩ := h
    exact ⟨⟨rfl, rfl, rfl, rfl⟩, rfl, rfl⟩
  | getBorrowPaused | getFee | getTotalDeposited =>
    simp only [entryPoint, returns_get_bind, returns_pure] at h
    obtain ⟨-, rfl⟩ := h
    exact ⟨.refl _, rfl, rfl⟩
  | getAvailable =>
    simp only [entryPoint, returns_loadToken_bind, returns_get_bind, returns_pure] at h
    obtain ⟨_, -, -, rfl⟩ := h
    exact ⟨.refl _, rfl, rfl⟩
  | getToken =>
    simp only [entryPoint, loadToken, returns_map, returns_get_bind, returns_orFault] at h
    obtain ⟨_, ⟨-, rfl⟩, -⟩ := h
    exact ⟨.refl _, rfl, rfl⟩
  | getAdmin =>
    simp only [entryPoint, loadAdmin, returns_map, returns_get_bind, returns_orFault] at h
    obtain ⟨_, ⟨-, rfl⟩, -⟩ := h
    exact ⟨.refl _, rfl, rfl⟩
  | initializeVault | deposit | withdraw | setFee | setPaused | emergencyPause | flashLoan
    | borrow => exact hcall.elim

/-- **While a receiver runs**, every program leaves the protected entries and the lock as they are:
the calls that would change them fail. -/
theorem locked_run {s : State Address} (hadmin : s.admin.isSome) {p : Program host}
    (h : p.run (semantics host) w = some w') (hw : Locked s w) : Locked s w' := by
  apply Reentry.Program.run_preserves (J := Locked s) _ _ h hw
  · intro m u u' hu hmove
    have hvault := Transfer.make_vault hmove
    exact ⟨hvault ▸ hu.lock, hvault ▸ hu.kept⟩
  · intro c receivers u _ hu
    cases hcall : (semantics host).call c receivers u with
    | mk outcome u' =>
      cases outcome with
      | error fault =>
        rw [eq_of_invoke_error hcall]
        exact hu
      | ok v =>
        have hreturns := invoke_eq_ok.mp hcall
        have hadmin' : u.vault.admin.isSome := by rwa [hu.kept.admin]
        obtain ⟨hkept, hlock, -⟩ :=
          kept_of_unguarded (unguarded_of_lock hu.lock hadmin' hreturns) hreturns
        constructor
        · show u'.vault.flashLoanActive.getD false = true
          rw [hlock]
          exact hu.lock
        · exact hu.kept.trans hkept

theorem borrow_loan {borrower : Address}
    (h : Returns (borrow host receivers borrower amount) w fee w') :
    Loan host receivers w amount fee w' := by
  simp only [borrow, setFlashLoanActive, setBorrowRecord, save_save, returns_get_bind,
    returns_require_bind, returns_checkNotPaused_bind, returns_checkNoFlashLoanActive_bind,
    returns_loadToken_bind, returns_calculateFee_bind, returns_plain_bind, returns_save_bind,
    returns_transfer_bind, returns_tryExecuteOperation_bind] at h
  obtain ⟨-, hamount, hunlocked, token, htoken, -, -, -, tokens, -, h⟩ := h
  rcases h with ⟨u, hrun, h⟩ | ⟨-, h⟩
  · obtain ⟨-, rfl, hrepaid, hsettled⟩ :=
      settle_returns h (fun s => ⟨rfl, rfl, rfl, rfl⟩) (fun _ => rfl)
    exact .intro token _ _ u htoken (not_le.mp hamount) hunlocked rfl hrun
      ⟨rfl, ⟨rfl, rfl, rfl, rfl⟩⟩ hrepaid hsettled
  · obtain ⟨hreturned, -⟩ := settle_returns h (fun s => ⟨rfl, rfl, rfl, rfl⟩) (fun _ => rfl)
    cases hreturned

theorem Sound.transfer (hconf : Conforming host.toTokenInterface) (hw : Sound host w)
    {m : Transfer Address} (h : m.make host w = some w') : Sound host w' := by
  have hvault := Transfer.make_vault h
  apply hw.of_kept (hvault ▸ .refl _) (hvault ▸ hw.unlocked)
  exact Transfer.le_vaultBalance hconf h

theorem Sound.deposit (hconf : Conforming host.toTokenInterface) (hw : Sound host w)
    {source : Address} {r : Unit} (h : Returns (deposit host signers source amount) w r w') :
    Sound host w' := by
  simp only [FlashLoanVault.deposit, setTotalDeposited, returns_checkNoFlashLoanActive_bind,
    returns_require_bind, returns_loadAdmin_bind, returns_requireAuth_bind, returns_loadToken_bind,
    returns_transfer_bind, returns_get_bind, returns_plain_bind, returns_save] at h
  obtain ⟨-, -, admin, -, -, hauth, token, htoken, tokens, htransfer, -, rfl⟩ := h
  -- the vault has not authorized the call, so that it is another one that pays
  have hsource : source ≠ host.currentContractAddress := by
    rintro rfl
    cases signers.auth_vault.symm.trans hauth
  apply hw.deposits htoken
  rw [hconf.balance_transfer htransfer, Accounts.move_destination hsource, vaultBalance]
  ring

theorem Sound.withdraw (hconf : Conforming host.toTokenInterface) (hw : Sound host w)
    {destination : Address} {r : Unit}
    (h : Returns (withdraw host signers destination amount) w r w') : Sound host w' := by
  simp only [FlashLoanVault.withdraw, setTotalDeposited, returns_checkNoFlashLoanActive_bind,
    returns_require_bind, returns_loadAdmin_bind, returns_requireAuth_bind, returns_loadToken_bind,
    returns_transfer_bind, returns_get_bind, returns_plain_bind, returns_save] at h
  obtain ⟨-, -, admin, -, -, hauth, -, token, htoken, tokens, htransfer, -, rfl⟩ := h
  have hdestination : destination ≠ host.currentContractAddress := by
    rintro rfl
    cases signers.auth_vault.symm.trans hauth
  apply hw.deposits htoken
  rw [hconf.balance_transfer htransfer, Accounts.move_source hdestination.symm, vaultBalance]
  ring

theorem sound_initialize (hconf : Conforming host.toTokenInterface) {admin token : Address}
    {r : Unit} (h : Returns (initializeVault admin token) w r w') : Sound host w' := by
  simp only [initializeVault, returns_get_bind, returns_require_bind, returns_save] at h
  obtain ⟨-, rfl⟩ := h
  refine ⟨rfl, le_rfl, fun _ => rfl, ?_⟩
  intro token' htoken'
  exact hconf.balance_nonneg _ _ _

/-- The receivers of a call run while the vault is locked, and leave its entries. -/
def Respects
    (receivers : Operation Address → World Address Tokens → Option (World Address Tokens)) : Prop :=
  ∀ s operation u u', Locked s u → s.admin.isSome → receivers operation u = some u' → Locked s u'

/-- **Every call keeps a sound vault sound**, with receivers that are any programs. -/
theorem Sound.call (hconf : Conforming host.toTokenInterface) (hw : Sound host w)
    (hreceivers : Respects receivers) {call : Call Address} {v : Response Address}
    (h : Returns (entryPoint host signers receivers call) w v w') : Sound host w' := by
  cases call with
  | initializeVault admin token =>
    obtain ⟨_, _, hbody, hpure⟩ := returns_bind.mp h
    obtain ⟨-, rfl⟩ := returns_pure.mp hpure
    exact sound_initialize hconf hbody
  | deposit source amount =>
    obtain ⟨_, _, hbody, hpure⟩ := returns_bind.mp h
    obtain ⟨-, rfl⟩ := returns_pure.mp hpure
    exact hw.deposit hconf hbody
  | withdraw destination amount =>
    obtain ⟨_, _, hbody, hpure⟩ := returns_bind.mp h
    obtain ⟨-, rfl⟩ := returns_pure.mp hpure
    exact hw.withdraw hconf hbody
  | setFee feeBps =>
    simp only [entryPoint, setFee, bind_assoc, returns_checkNoFlashLoanActive_bind,
      returns_require_bind, returns_loadAdmin_bind, returns_requireAuth_bind, returns_save_bind,
      returns_pure] at h
    obtain ⟨-, ⟨hfee, -⟩, _, -, -, -, rfl⟩ := h
    exact ⟨hw.unlocked, hfee, hw.admin_isSome, hw.deposited_le⟩
  | setPaused admin paused =>
    simp only [entryPoint, setPaused, bind_assoc, returns_checkNoFlashLoanActive_bind] at h
    obtain ⟨_, _, hbody, hpure⟩ := returns_bind.mp h.2
    obtain ⟨-, rfl⟩ := returns_pure.mp hpure
    exact hw.guarded hbody
  | emergencyPause approvers =>
    simp only [entryPoint, emergencyPause, bind_assoc, returns_checkNoFlashLoanActive_bind] at h
    obtain ⟨_, _, hbody, hpure⟩ := returns_bind.mp h.2
    obtain ⟨-, rfl⟩ := returns_pure.mp hpure
    exact hw.guarded hbody
  | flashLoan initiator receiver amount =>
    obtain ⟨fee, h, -⟩ := returns_map.mp h
    exact hw.loan (flashLoan_loan h) fun operation u u' => hreceivers _ operation u u'
  | borrow borrower amount =>
    obtain ⟨fee, h, -⟩ := returns_map.mp h
    exact hw.loan (borrow_loan h) fun operation u u' => hreceivers _ operation u u'
  | pauseBorrow | resumeBorrow | getBorrowPaused | getFee | getAvailable | getToken | getAdmin
    | getTotalDeposited =>
    obtain ⟨hkept, hlock, htokens⟩ := kept_of_unguarded (by trivial) h
    apply hw.of_kept hkept
    · rw [isFlashLoanActive, hlock]
      exact hw.unlocked
    · intro token
      rw [vaultBalance, vaultBalance, htokens]

/-! ## Runs -/

/-- What happens outside of the vault: some contract transfers tokens, or calls the vault and
decides what the receivers do that the call leads to. -/
inductive Act (host : Host Address Tokens)
  | transfer (m : Transfer Address)
  | call (c : Invocation host) (callback : Operation Address → Program host)

def Act.perform : Act host → World Address Tokens → Option (World Address Tokens)
  | .transfer m, w => m.make host w
  | .call c callback, w =>
    some ((semantics host).call c (fun a u => (callback a).run (semantics host) u) w).2

/-- Programs, run as receivers, leave the entries of a locked vault. -/
theorem respects_run (callback : Operation Address → Program host) :
    Respects fun a u => (callback a).run (semantics host) u :=
  fun _ _ _ _ hu hadmin hrun => locked_run hadmin hrun hu

theorem Sound.perform (hconf : Conforming host.toTokenInterface) (hw : Sound host w)
    {act : Act host} (h : act.perform w = some w') : Sound host w' := by
  cases act with
  | transfer m => exact hw.transfer hconf h
  | call c callback =>
    cases hcall : (semantics host).call c (fun a u => (callback a).run (semantics host) u) w with
    | mk outcome u =>
      obtain rfl : u = w' := by simpa [Act.perform, hcall] using h
      cases outcome with
      | error fault =>
        rw [eq_of_invoke_error hcall]
        exact hw
      | ok v => exact hw.call hconf (respects_run callback) (invoke_eq_ok.mp hcall)

/-- The call is one of the two kinds of loans. -/
def Call.IsLoan : Call Address → Prop
  | .flashLoan _ _ _ | .borrow _ _ => True
  | _ => False

/-- **A loan that returns is repaid**, at any depth of calls and whatever the receiver is. -/
theorem loan_repaid {c : Invocation host} {token : Address} (hloan : c.call.IsLoan)
    (h : (semantics host).call c receivers w = (.ok (.amount fee), w'))
    (htoken : w.vault.token = some token) :
    vaultBalance host token w + fee ≤ vaultBalance host token w' := by
  obtain ⟨amount, h⟩ : ∃ amount, Loan host receivers w amount fee w' := by
    have hreturns := invoke_eq_ok.mp h
    obtain ⟨signers, call⟩ := c
    cases call with
    | flashLoan initiator receiver amount =>
      obtain ⟨fee', hbody, hfee⟩ := returns_map.mp hreturns
      cases hfee
      exact ⟨amount, flashLoan_loan hbody⟩
    | borrow borrower amount =>
      obtain ⟨fee', hbody, hfee⟩ := returns_map.mp hreturns
      cases hfee
      exact ⟨amount, borrow_loan hbody⟩
    | _ => exact hloan.elim
  obtain ⟨token', -, u, u', htoken', -, -, -, -, -, hrepaid, hsettled⟩ := h
  obtain rfl : token' = token := Option.some.inj (htoken'.symm.trans htoken)
  calc vaultBalance host token' w + fee ≤ vaultBalance host token' u' := hrepaid
    _ = vaultBalance host token' w' := by rw [vaultBalance, vaultBalance, hsettled.tokens]

/-- **Flash loans are safe.** After every run of transfers and calls, with receivers that are any
programs, the lock is clear and the balance covers the deposits; and a loan that returns, at any
depth of calls, leaves at least the balance before it and the fee. -/
theorem flash_loans_safe (hconf : Conforming host.toTokenInterface) {tokens : Tokens}
    {acts : List (Act host)}
    (h : Run (fun u act u' => act.perform u = some u') (World.initial tokens) acts w) :
    isFlashLoanActive w.vault = false ∧
      (∀ token, w.vault.token = some token →
        getTotalDeposited w.vault ≤ vaultBalance host token w) ∧
      ∀ (c : Invocation host) (callback : Operation Address → Program host) (u u') (fee : ℤ)
        (token : Address), c.call.IsLoan →
        (semantics host).call c (fun a v => (callback a).run (semantics host) v) u =
          (.ok (.amount fee), u') →
        u.vault.token = some token →
          vaultBalance host token u + fee ≤ vaultBalance host token u' := by
  have hsound : Sound host w := by
    apply h.invariant (I := Sound host) _ (sound_initial tokens)
    intro u act u' hu hperform
    exact hu.perform hconf hperform
  refine ⟨hsound.unlocked, hsound.deposited_le, ?_⟩
  intro c callback u u' fee token hloan hcall htoken
  exact loan_repaid hloan hcall htoken

/-! ## A receiver that calls back -/

def sampleHost : Host ℕ (Balances ℕ) where
  toTokenInterface := Balances.interface ℕ
  currentContractAddress := 0
  isContract := fun addr => addr == 5

def sampleSigners : Signers sampleHost where
  auth := fun addr => addr != 0
  auth_vault := rfl

/-- Holders 5 and 9 have 1000 each of the token 100. -/
def sampleTokens : Balances ℕ :=
  ⟨fun token holder => if token = 100 ∧ (holder = 5 ∨ holder = 9) then 1000 else 0, by
    intro token holder
    dsimp only
    split <;> decide⟩

/-- The receiver tries to deposit what it was lent and to borrow once more, and then pays back as
much as it is told to. -/
def sampleReceiver (repayment : ℤ) (a : Operation ℕ) : Program sampleHost :=
  .call ⟨sampleSigners, .deposit 9 a.amount⟩ (fun _ => .finish true) fun _ =>
    .call ⟨sampleSigners, .borrow 5 a.amount⟩ (fun _ => .finish true) fun _ =>
      .move ⟨a.token, a.receiver, 0, repayment⟩ fun paid => .finish paid

def sampleActs : List (Act sampleHost) :=
  [.call ⟨sampleSigners, .initializeVault 9 100⟩ fun _ => .finish true,
   .call ⟨sampleSigners, .deposit 9 1000⟩ fun _ => .finish true,
   .call ⟨sampleSigners, .setFee 100⟩ fun _ => .finish true,
   .call ⟨sampleSigners, .flashLoan 1 5 500⟩ (sampleReceiver 505),
   .call ⟨sampleSigners, .borrow 5 500⟩ (sampleReceiver 504),
   .call ⟨sampleSigners, .withdraw 9 5⟩ fun _ => .finish true]

/-- The first loan earns a fee of 5, which the admin withdraws; the second fails. -/
theorem flash_loans_safe_sample :
    ∃ w, Run (fun u act u' => act.perform u = some u') (World.initial sampleTokens) sampleActs w ∧
      getTotalDeposited w.vault = 1000 ∧ vaultBalance sampleHost 100 w = 1000 ∧
      isFlashLoanActive w.vault = false ∧
      ∀ token, w.vault.token = some token →
        getTotalDeposited w.vault ≤ vaultBalance sampleHost token w := by
  have hexec : (exec (fun u act => act.perform u) (World.initial sampleTokens) sampleActs).any
      (fun w => getTotalDeposited w.vault = 1000 ∧ vaultBalance sampleHost 100 w = 1000) =
        true := by
    decide +kernel
  obtain ⟨w, hrun, hw⟩ := exists_run_of_exec hexec
  obtain ⟨hdeposited, hbalance⟩ := of_decide_eq_true hw
  have hconf : Conforming sampleHost.toTokenInterface := conforming_balances
  have hsafe := flash_loans_safe hconf hrun
  exact ⟨w, hrun, hdeposited, hbalance, hsafe.1, hsafe.2.1⟩

end FlashLoanVault
