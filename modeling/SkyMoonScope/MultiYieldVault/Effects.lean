import SkyMoonScope.MultiYieldVault.Entrypoints

/-!
# What the parts of the entry points do to the storage

What is done with the pools leaves the storage of the vault as it is. The other parts mint and burn
shares, pay and queue, and reserve shares for schedules.

## Main definitions

* `State.mint`, `State.settle`, `State.fill`, `State.writeOff`, `State.plan`, `State.fire`,
  `State.release`: the changes of the accounts

## Main results

* `keeps_eachPool`, `keeps_invest`, `keeps_redeem`, `keeps_divest`: the pools
* `returns_payOut`, `returns_enqueueRemainder`, `returns_reduceQueued`: payments and the queue
* `returns_adjustEscrowed`, `returns_planExecutions`: schedules
-/

namespace MultiYieldVault

open Soroban

variable {Address World : Type} {host : Host Address World} {c c' : Session Address World}

/-! ## Reading off the helpers -/

section Helpers

variable {α : Type} {v : α} {x : ℤ}

theorem returns_plain_bind {f : ℤ → Body Address World α} :
    Returns (plain x >>= f) c v c' ↔ IntType.i128.Fits x ∧ Returns (f x) c v c' := by
  rw [plain, returns_orFault_bind]
  simp

theorem returns_plainU32_bind {n : ℕ} {f : ℕ → Body Address World α} :
    Returns (plainU32 n >>= f) c v c' ↔ n < 2 ^ 32 ∧ Returns (f n) c v c' := by
  simp only [plainU32, bind_assoc, returns_require_bind, pure_bind]

theorem returns_storage_bind {f : State Address → Body Address World α} :
    Returns (storage >>= f) c v c' ↔ Returns (f c.storage) c v c' := by
  simp only [storage, bind_assoc, returns_get_bind, pure_bind]

theorem returns_save_bind {g : State Address → State Address} {f : Unit → Body Address World α} :
    Returns (save g >>= f) c v c' ↔ Returns (f ()) { c with storage := g c.storage } v c' := by
  simp only [save, bind_assoc, returns_get_bind, returns_set_bind]

theorem returns_save {g : State Address → State Address} {r : Unit} :
    Returns (save g : Body Address World Unit) c r c' ↔
      { c with storage := g c.storage } = c' := by
  simp only [save, returns_get_bind, returns_set]

theorem returns_requireAuth_bind {auth : Address → Bool} {addr : Address}
    {f : Unit → Body Address World α} :
    Returns (requireAuth auth addr >>= f) c v c' ↔ auth addr = true ∧ Returns (f ()) c v c' := by
  rw [requireAuth, returns_require_bind]

theorem returns_loadVault_bind {f : VaultState Address → Body Address World α} :
    Returns (loadVault >>= f) c v c' ↔
      ∃ vault, c.storage.vault = some vault ∧ Returns (f vault) c v c' := by
  simp only [loadVault, bind_assoc, returns_storage_bind, returns_orFault_bind]

theorem returns_loadRequest_bind {id : ℕ} {f : WithdrawalRequest Address → Body Address World α} :
    Returns (loadRequest id >>= f) c v c' ↔
      ∃ req, c.storage.withdrawal id = some req ∧ Returns (f req) c v c' := by
  simp only [loadRequest, bind_assoc, returns_storage_bind, returns_orFault_bind]

theorem returns_loadSchedule_bind {id : ℕ}
    {f : WithdrawalSchedule Address → Body Address World α} :
    Returns (loadSchedule id >>= f) c v c' ↔
      ∃ schedule, c.storage.schedule id = some schedule ∧ Returns (f schedule) c v c' := by
  simp only [loadSchedule, bind_assoc, returns_storage_bind, returns_orFault_bind]

theorem storage_of_loadVault {vault : VaultState Address} (h : Returns loadVault c vault c') :
    c = c' := by
  simp only [loadVault, returns_storage_bind, returns_orFault] at h
  exact h.2

end Helpers

/-! ## The other contracts -/

section External

variable {α : Type}

theorem keeps_external (f : World → Option (α × World)) :
    Keeps Session.storage (external f : Body Address World α) := by
  intro c a c' h
  simp only [external, returns_get_bind, returns_orFault_bind, returns_set_bind,
    returns_pure] at h
  obtain ⟨p, -, -, rfl⟩ := h
  rfl

theorem keeps_plain (x : ℤ) : Keeps Session.storage (plain x : Body Address World ℤ) :=
  ReadOnly.orFault.keeps

theorem keeps_plainU32 (n : ℕ) : Keeps Session.storage (plainU32 n : Body Address World ℕ) :=
  (ReadOnly.require.bind fun _ => ReadOnly.pure n).keeps

theorem keeps_divide (x y : ℤ) : Keeps Session.storage (divide x y : Body Address World ℤ) :=
  ReadOnly.orFault.keeps

theorem keeps_require {p : Prop} [Decidable p] (fault : Fault Error) :
    Keeps Session.storage (require p fault : Body Address World Unit) :=
  ReadOnly.require.keeps

theorem keeps_eachPool
    {visit : ℕ → PoolAllocation Address → ℤ → Body Address World (ℤ × PoolAllocation Address)}
    (hvisit : ∀ i alloc x, Keeps Session.storage (visit i alloc x)) (i : ℕ)
    (pools : List (PoolAllocation Address)) (x : ℤ) :
    Keeps Session.storage (eachPool visit i pools x) := by
  induction pools generalizing i x with
  | nil => exact Keeps.pure _
  | cons alloc pools ih =>
    apply (hvisit i alloc x).bind
    intro p
    apply (ih (i + 1) p.1).bind
    intro q
    exact Keeps.pure _

theorem keeps_invest (env : Env Address World) (depositToken : Address) (amount : ℤ)
    (lastIdx i : ℕ) (alloc : PoolAllocation Address) (remaining : ℤ) :
    Keeps Session.storage (invest host env depositToken amount lastIdx i alloc remaining) := by
  have hamount : Keeps Session.storage
      (poolAmount amount lastIdx i alloc.weight remaining : Body Address World ℤ) := by
    apply Keeps.ite (Keeps.pure _)
    exact (keeps_plain _).bind fun _ => Keeps.pure _
  apply Keeps.ite (Keeps.pure _)
  apply hamount.bind
  intro part
  apply Keeps.ite (Keeps.pure _)
  apply (keeps_plain _).bind
  intro rest
  apply (keeps_plainU32 _).bind
  intro expiration
  apply (keeps_external _).bind
  intro _
  apply (keeps_external _).bind
  intro newLp
  apply (keeps_plain _).bind
  intro lpShares
  exact Keeps.pure _

theorem keeps_redeem (checksTotal : Bool) (shares totalShares : ℤ) (i : ℕ)
    (alloc : PoolAllocation Address) (totalReceived : ℤ) :
    Keeps Session.storage (redeem host checksTotal shares totalShares i alloc totalReceived) := by
  apply Keeps.ite (Keeps.pure _)
  apply (keeps_plain _).bind
  intro product
  apply (keeps_divide _ _).bind
  intro lpToBurn
  apply Keeps.ite (Keeps.pure _)
  apply (keeps_external _).bind
  intro out
  apply (keeps_plain _).bind
  intro received
  apply (keeps_plain _).bind
  intro lpShares
  exact Keeps.pure _

theorem keeps_divest (slippageBps : ℤ) (i : ℕ) (alloc : PoolAllocation Address)
    (totalToMove : ℤ) :
    Keeps Session.storage (divest host slippageBps i alloc totalToMove) := by
  have hreserve : Keeps Session.storage (depositReserve host alloc) :=
    Keeps.ite (keeps_external _) (keeps_external _)
  apply Keeps.ite (Keeps.pure _)
  apply hreserve.bind
  intro reserve
  apply (keeps_external _).bind
  intro out
  apply (keeps_plain _).bind
  intro kept
  apply (keeps_plain _).bind
  intro product
  apply (keeps_require _).bind
  intro _
  apply (keeps_plain _).bind
  intro moved
  exact Keeps.pure _

theorem keeps_validateWeightedPools (pools : List (PoolAllocation Address)) :
    Keeps Session.storage (validateWeightedPools host pools) := by
  induction pools with
  | nil => exact Keeps.pure _
  | cons alloc pools ih =>
    apply Keeps.ite ih
    apply (keeps_external _).bind
    intro fee
    exact (keeps_require _).bind fun _ => ih

theorem keeps_checkWeights (pools : List (PoolAllocation Address)) :
    Keeps Session.storage (checkWeights host pools) := by
  have hsum : ∀ weights sum,
      Keeps Session.storage (sumWeights weights sum : Body Address World ℕ) := by
    intro weights
    induction weights with
    | nil => exact fun sum => Keeps.pure sum
    | cons w weights ih => exact fun sum => (keeps_plainU32 _).bind ih
  apply (hsum _ _).bind
  intro sum
  apply (keeps_require _).bind
  intro _
  apply (ReadOnly.orFault.keeps).bind
  intro lastIdx
  apply (keeps_validateWeightedPools pools).bind
  intro _
  exact Keeps.pure _

/-- A part of a body that keeps the storage, followed by the rest. -/
theorem returns_bind_of_keeps {β : Type} {x : Body Address World α} {f : α → Body Address World β}
    {v : β} (hx : Keeps Session.storage x) (h : Returns (x >>= f) c v c') :
    ∃ a world, Returns x c a ⟨c.storage, world⟩ ∧ Returns (f a) ⟨c.storage, world⟩ v c' := by
  obtain ⟨a, u, ha, hv⟩ := returns_bind.mp h
  have hu : u = ⟨c.storage, u.world⟩ := by
    rw [← hx c a u ha]
  rw [hu] at ha hv
  exact ⟨a, u.world, ha, hv⟩

end External

/-! ## The changes of the accounts -/

/-- The total of the shares, where there is a vault. -/
def totalShares (s : State Address) : ℤ := (s.vault.map VaultState.totalShares).getD 0

/-- The stored total of what is queued, where there is a vault. -/
def queuedAmount (s : State Address) : ℤ := (s.vault.map VaultState.queuedAmount).getD 0

/-- The requests, as a register. -/
def State.requests (s : State Address) : Register (WithdrawalRequest Address) :=
  ⟨s.nextQueueId, s.queue, s.withdrawal⟩

/-- The schedules, as a register. -/
def State.plans (s : State Address) : Register (WithdrawalSchedule Address) :=
  ⟨s.nextScheduleId, s.schedules, s.schedule⟩

/-- A payment, if anything was paid. -/
def State.pay (s : State Address) (payee : Address) (payout : ℤ) : State Address :=
  if 0 < payout then { s with payments := ⟨payee, payout⟩ :: s.payments } else s

/-- A new request at the end of the queue. -/
def State.enqueue (s : State Address) (vault : VaultState Address) (owner : Address)
    (requested : ℤ) : State Address :=
  { s with
    vault := some { vault with queuedAmount := vault.queuedAmount + requested }
    nextQueueId := s.nextQueueId + 1
    queue := s.queue ++ [s.nextQueueId]
    withdrawal := Function.update s.withdrawal s.nextQueueId
      (some { owner, requestedShares := requested, remainingShares := requested,
              filledAmount := 0, closed := false }) }

/-- Less is queued. -/
def State.reduce (s : State Address) (amount : ℤ) : State Address :=
  { s with
    vault := s.vault.map fun vault =>
      { vault with queuedAmount := max (vault.queuedAmount - amount) 0 } }

/-- A payment to the owner of a request, which is written over. -/
def State.fill (s : State Address) (id : ℕ) (req : WithdrawalRequest Address) (payout : ℤ) :
    State Address :=
  { s.reduce payout with
    withdrawal := Function.update s.withdrawal id (some req)
    payments := ⟨req.owner, payout⟩ :: s.payments }

/-- What remains of a request is written off. -/
def State.writeOff (s : State Address) (id : ℕ) (req : WithdrawalRequest Address) :
    State Address :=
  { s.reduce req.remainingShares with
    withdrawal := Function.update s.withdrawal id
      (some { req with remainingShares := 0, closed := true })
    queue := s.queue.erase id
    writeOffs := ⟨req.owner, req.remainingShares⟩ :: s.writeOffs }

section Changes

variable [DecidableEq Address]

/-- Shares are minted. -/
def State.mint (s : State Address) (vault : VaultState Address) (account : Address) (shares : ℤ)
    (pools : List (PoolAllocation Address)) : State Address :=
  { s with
    vault := some { vault with totalShares := vault.totalShares + shares }
    pools
    balance := Function.update s.balance account (s.balance account + shares)
    mints := ⟨account, shares⟩ :: s.mints }

/-- Shares of `owner` are burned in favour of `payee`. -/
def State.burn (s : State Address) (vault : VaultState Address) (owner payee : Address)
    (shares : ℤ) (pools : List (PoolAllocation Address)) : State Address :=
  { s with
    vault := some { vault with totalShares := vault.totalShares - shares }
    pools
    balance := Function.update s.balance owner (s.balance owner - shares)
    burns := ⟨payee, shares⟩ :: s.burns }

/-- Shares of `owner` are burned; `payee` is paid a part and queued for the rest. -/
def State.settle (s : State Address) (vault : VaultState Address) (owner payee : Address)
    (shares payout : ℤ) (pools : List (PoolAllocation Address)) : State Address :=
  let paid := (s.burn vault owner payee shares pools).pay payee payout
  if 0 < shares - payout then
    paid.enqueue { vault with totalShares := vault.totalShares - shares } payee (shares - payout)
  else paid

/-- What an address has reserved changes. -/
def State.adjust (s : State Address) (owner : Address) (delta : ℤ) : State Address :=
  { s with
    escrowed := Function.update s.escrowed owner (max (s.escrowed owner + delta) 0) }

/-- A new schedule, whose shares are reserved. -/
def State.plan (s : State Address) (schedule : WithdrawalSchedule Address) (escrow : ℤ) :
    State Address :=
  { s.adjust schedule.owner escrow with
    nextScheduleId := s.nextScheduleId + 1
    schedules := s.schedules ++ [s.nextScheduleId]
    schedule := Function.update s.schedule s.nextScheduleId (some schedule) }

/-- An execution of a schedule, which is taken off the list with the last one. -/
def State.fire (s : State Address) (vault : VaultState Address) (id : ℕ)
    (schedule : WithdrawalSchedule Address) (payout : ℤ) (pools : List (PoolAllocation Address)) :
    State Address :=
  { (s.settle vault schedule.owner schedule.recipient schedule.amountPerExecution payout
      pools).adjust schedule.owner (-schedule.amountPerExecution) with
    schedule := Function.update s.schedule id (some schedule.advance)
    schedules := if schedule.advance.closed then s.schedules.erase id else s.schedules }

/-- The shares of the executions that a schedule still has. -/
def WithdrawalSchedule.reserved (schedule : WithdrawalSchedule Address) : ℤ :=
  schedule.amountPerExecution * (schedule.totalExecutions - schedule.executions : ℕ)

/-- The executions that remain, one in every interval, end in time. -/
def WithdrawalSchedule.InTime (schedule : WithdrawalSchedule Address) : Prop :=
  schedule.nextExecutionLedger +
    (schedule.totalExecutions - schedule.executions - 1) * schedule.intervalLedgers ≤
      schedule.endLedger

/-- A schedule is cancelled. -/
def State.release (s : State Address) (id : ℕ) (schedule : WithdrawalSchedule Address) :
    State Address :=
  { s.adjust schedule.owner (-schedule.reserved) with
    schedule := Function.update s.schedule id (some { schedule with closed := true })
    schedules := s.schedules.erase id }

end Changes

/-! ## Payments and the queue -/

/-- The balances that the token contracts report are not negative. -/
def NonnegBalances (host : Host Address World) : Prop :=
  ∀ token holder w x w', host.balance token holder w = some (x, w') → 0 ≤ x

theorem returns_external_bind {α β : Type} {g : World → Option (α × World)}
    {f : α → Body Address World β} {v : β} :
    Returns (external g >>= f) c v c' ↔
      ∃ a world, g c.world = some (a, world) ∧ Returns (f a) { c with world } v c' := by
  simp only [external, bind_assoc, returns_get_bind, returns_orFault_bind, returns_set_bind,
    pure_bind, Prod.exists]

/-- What a payment is, and what it leaves in the storage. -/
theorem returns_payOut {depositToken owner : Address} {amount v : ℤ}
    (h : Returns (payOut host depositToken owner amount) c v c') :
    c'.storage = c.storage.pay owner v ∧ (v ≤ amount ∨ v = 0) ∧
      (NonnegBalances host → 0 ≤ v) := by
  unfold payOut at h
  split at h
  · obtain ⟨rfl, rfl⟩ := returns_pure.mp h
    exact ⟨rfl, .inr rfl, fun _ => le_rfl⟩
  next hamount =>
    simp only [availableLiquidity, returns_external_bind] at h
    obtain ⟨available, world, hbalance, h⟩ := h
    have hnonneg : NonnegBalances host → 0 ≤ min amount available := by
      intro hhost
      exact le_min (not_le.mp hamount).le (hhost _ _ _ _ _ hbalance)
    split at h
    next hpos =>
      rw [returns_external_bind] at h
      obtain ⟨_, world', -, h⟩ := h
      rw [returns_save_bind, returns_pure] at h
      obtain ⟨rfl, rfl⟩ := h
      refine ⟨?_, .inl (min_le_left _ _), hnonneg⟩
      show _ = State.pay _ _ _
      rw [State.pay, if_pos hpos]
    next hpos =>
      obtain ⟨rfl, rfl⟩ := returns_pure.mp h
      refine ⟨?_, .inl (min_le_left _ _), hnonneg⟩
      rw [State.pay, if_neg hpos]

theorem returns_enqueueRemainder {owner : Address} {remainder : ℤ} {vault : VaultState Address}
    {r : Unit} (hvault : c.storage.vault = some vault)
    (h : Returns (enqueueRemainder owner remainder) c r c') :
    c'.storage =
      if 0 < remainder then c.storage.enqueue vault owner remainder else c.storage := by
  unfold enqueueRemainder at h
  split at h
  next hpos =>
    simp only [enqueueRequest, addQueued, bind_assoc, pure_bind, returns_storage_bind,
      returns_require_bind, returns_plainU32_bind, returns_save_bind, saveRequest, saveQueue,
      hvault, returns_plain_bind, saveVault, returns_pure] at h
    obtain ⟨-, -, -, -, rfl⟩ := h
    rw [if_pos hpos]
    rfl
  next hpos =>
    obtain ⟨-, rfl⟩ := returns_pure.mp h
    rw [if_neg hpos]

theorem returns_maxZero_bind {α : Type} {x : ℤ} {f : ℤ → Body Address World α} {v : α} :
    Returns (maxZero (pure 0) x >>= f) c v c' ↔ Returns (f (max x 0)) c v c' := by
  unfold maxZero
  split
  next hx => rw [pure_bind, max_eq_right hx.le]
  next hx => rw [pure_bind, max_eq_left (not_lt.mp hx)]

theorem returns_reduceQueued {amount : ℤ} {r : Unit} (hpos : 0 < amount)
    (h : Returns (reduceQueued Fallbacks.source amount) c r c') :
    c' = { c with storage := c.storage.reduce amount } := by
  rw [reduceQueued, if_neg (not_le.mpr hpos), returns_storage_bind] at h
  cases hvault : c.storage.vault with
  | none =>
    simp only [hvault, returns_pure] at h
    obtain ⟨-, rfl⟩ := h
    simp only [State.reduce, hvault, Option.map_none]
    rw [← hvault]
  | some vault =>
    simp only [hvault, returns_plain_bind] at h
    obtain ⟨-, h⟩ := h
    simp only [Fallbacks.source, returns_maxZero_bind, saveVault, returns_save] at h
    rw [← h]
    simp only [State.reduce, hvault, Option.map_some]

theorem returns_adjustEscrowed [DecidableEq Address] {owner : Address} {delta : ℤ} {r : Unit}
    (h : Returns (adjustEscrowed Fallbacks.source owner delta) c r c') :
    c' = { c with storage := c.storage.adjust owner delta } := by
  simp only [adjustEscrowed, returns_storage_bind, returns_plain_bind, Fallbacks.source,
    returns_maxZero_bind, returns_save] at h
  exact h.2.symm

/-- The executions are counted such that the last one is not after the end. -/
theorem returns_totalExecutions {frequency : ScheduleFrequency} {first interval last total : ℕ}
    (h : Returns (totalExecutions frequency first interval last) c total c') :
    c' = c ∧ first + (total - 1) * interval ≤ effectiveEndLedger frequency first last := by
  unfold totalExecutions at h
  cases frequency with
  | oneTime =>
    obtain ⟨rfl, rfl⟩ := returns_pure.mp h
    exact ⟨rfl, by simp [effectiveEndLedger]⟩
  | recurring =>
    simp only [returns_require_bind, plainU32, returns_pure] at h
    obtain ⟨-, hlast, -, rfl, rfl⟩ := h
    refine ⟨rfl, ?_⟩
    have hle := Nat.div_mul_le_self (last - first) interval
    rw [Nat.add_sub_cancel]
    simp only [effectiveEndLedger]
    omega

/-- A plan has at least one execution, and its escrow covers all of them. -/
theorem returns_planExecutions {amountPerExecution escrow : ℤ} {frequency : ScheduleFrequency}
    {first interval last total : ℕ}
    (h : Returns (planExecutions amountPerExecution frequency first interval last) c
      (total, escrow) c') :
    c' = ⟨c.storage, c'.world⟩ ∧ 0 < amountPerExecution ∧ 0 < total ∧
      first + (total - 1) * interval ≤ effectiveEndLedger frequency first last ∧
      escrow = amountPerExecution * total := by
  rw [planExecutions, returns_require_bind] at h
  obtain ⟨hpos, h⟩ := h
  obtain ⟨n, c₁, hcount, hrest⟩ := returns_bind.mp h
  obtain ⟨rfl, hlast⟩ := returns_totalExecutions hcount
  rw [returns_require_bind, returns_orFault_bind] at hrest
  obtain ⟨hn, x, hx, hrest⟩ := hrest
  obtain ⟨hpair, rfl⟩ := returns_pure.mp hrest
  obtain ⟨rfl, rfl⟩ := Prod.mk.inj hpair
  obtain ⟨-, rfl⟩ := IntType.checked_eq_some.mp hx
  exact ⟨rfl, not_le.mp hpos, Nat.pos_of_ne_zero (not_or.mp hn).1, hlast, rfl⟩

end MultiYieldVault
