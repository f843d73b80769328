import SkyMoonScope.Lib.Apportion
import SkyMoonScope.MultiYieldVault.Unreachable

/-!
# What the pools are given

A deposit and a rebalancing approve and give tokens to the pools. Neither the storage of the vault
nor what it returns tells how much each of them was given. So the other contracts are watched: every
host has one beside it that answers the same and keeps a record of what it was asked for. Whatever
the other contracts answer, the record is that the amount was split by the weights, where the last
pool that has one takes what is left.

## Main definitions

* `Entry`, `Host.recording`: what is recorded, and the host that records
* `Recorded x y`: what `y` does, `x` does and leaves a record
* `Split pools amount parts`: the parts of an amount
* `given pools parts`: what the pools are asked for them

## Main results

* `recorded_deposit`, `recorded_rebalance`: the record changes nothing
* `given_eachPool`: what the loop over the pools gives to them
* `deposit_split`, `rebalance_split`, `amounts_split`: the parts of what was paid in, and of what
  was moved
-/

namespace MultiYieldVault

open Soroban

variable {Address World : Type}

/-! ## A record of what other contracts are asked for -/

/-- What a pool is given or gives back, and what it may take. -/
inductive Entry (Address : Type)
  | approved (pool : Address) (amount : ℤ)
  | deposited (pool : Address) (amountA amountB : ℤ)
  | withdrawn (pool : Address) (outA outB : ℤ)
deriving DecidableEq

/-- A function of another contract, with a note of its answer. -/
def noting {α : Type} (f : World → Option (α × World)) (note : α → List (Entry Address)) :
    World × List (Entry Address) → Option (α × World × List (Entry Address)) :=
  fun w => (f w.1).map fun p => (p.1, p.2, w.2 ++ note p.1)

/-- The same other contracts, with a record of what the pools are given. -/
def Host.recording (host : Host Address World) : Host Address (World × List (Entry Address)) where
  currentContractAddress := host.currentContractAddress
  balance := fun token holder => noting (host.balance token holder) fun _ => []
  transfer := fun token source destination amount =>
    noting (host.transfer token source destination amount) fun _ => []
  approve := fun token owner spender amount expiration =>
    noting (host.approve token owner spender amount expiration) fun _ => [.approved spender amount]
  poolDeposit := fun pool source amountA amountB =>
    noting (host.poolDeposit pool source amountA amountB) fun _ =>
      [.deposited pool amountA amountB]
  poolWithdraw := fun pool destination shares =>
    noting (host.poolWithdraw pool destination shares) fun out => [.withdrawn pool out.1 out.2]
  getReserveA := fun pool => noting (host.getReserveA pool) fun _ => []
  getReserveB := fun pool => noting (host.getReserveB pool) fun _ => []
  getFee := fun pool => noting (host.getFee pool) fun _ => []

/-- The same environment, with nothing recorded. -/
def Env.recording (env : Env Address World) : Env Address (World × List (Entry Address)) where
  sequence := env.sequence
  auth := env.auth
  world := (env.world, [])

/-- What returns on its own also returns with a record beside it. -/
def Recorded {α : Type} (x : Body Address (World × List (Entry Address)) α)
    (y : Body Address World α) : Prop :=
  ∀ c a c' log, Returns y c a c' →
    ∃ log', Returns x ⟨c.storage, c.world, log⟩ a ⟨c'.storage, c'.world, log'⟩

namespace Recorded

variable {α β : Type}

theorem pure (a : α) :
    Recorded (pure a : Body Address (World × List (Entry Address)) α) (pure a) := by
  intro c b c' log h
  obtain ⟨rfl, rfl⟩ := returns_pure.mp h
  exact ⟨log, returns_pure.mpr ⟨rfl, rfl⟩⟩

theorem bind {x : Body Address (World × List (Entry Address)) α} {y : Body Address World α}
    {f : α → Body Address (World × List (Entry Address)) β} {g : α → Body Address World β}
    (hxy : Recorded x y) (hfg : ∀ a, Recorded (f a) (g a)) : Recorded (x >>= f) (y >>= g) := by
  intro c b c' log h
  obtain ⟨a, c₁, ha, h⟩ := returns_bind.mp h
  obtain ⟨log₁, ha⟩ := hxy c a c₁ log ha
  obtain ⟨log₂, h⟩ := hfg a c₁ b c' log₁ h
  exact ⟨log₂, returns_bind.mpr ⟨a, _, ha, h⟩⟩

theorem ite {p : Prop} [Decidable p] {x x' : Body Address (World × List (Entry Address)) α}
    {y y' : Body Address World α} (hxy : Recorded x y) (hxy' : Recorded x' y') :
    Recorded (if p then x else x') (if p then y else y') := by
  split
  · exact hxy
  · exact hxy'

theorem require {p : Prop} [Decidable p] (fault : Fault Error) :
    Recorded (require p fault : Body Address (World × List (Entry Address)) Unit)
      (require p fault) := by
  intro c r c' log h
  obtain ⟨hp, rfl⟩ := returns_require.mp h
  exact ⟨log, returns_require.mpr ⟨hp, rfl⟩⟩

theorem orFault (o : Option α) (fault : Fault Error) :
    Recorded (orFault o fault : Body Address (World × List (Entry Address)) α)
      (orFault o fault) := by
  intro c a c' log h
  obtain ⟨ha, rfl⟩ := returns_orFault.mp h
  exact ⟨log, returns_orFault.mpr ⟨ha, rfl⟩⟩

/-- The storage is the same. -/
theorem storage : Recorded
    (storage : Body Address (World × List (Entry Address)) (State Address)) storage := by
  intro c s c' log h
  simp only [MultiYieldVault.storage, returns_get_bind, returns_pure] at h
  obtain ⟨rfl, rfl⟩ := h
  exact ⟨log, by simp [MultiYieldVault.storage]⟩

theorem save (f : State Address → State Address) : Recorded
    (save f : Body Address (World × List (Entry Address)) Unit) (save f) := by
  intro c r c' log h
  obtain rfl := returns_save.mp h
  exact ⟨log, returns_save.mpr rfl⟩

/-- A call of another contract is noted. -/
theorem external (f : World → Option (α × World)) (note : α → List (Entry Address)) :
    Recorded (external (noting f note)) (external f) := by
  intro c a c' log h
  simp only [MultiYieldVault.external, returns_get_bind, returns_orFault_bind, returns_set_bind,
    returns_pure] at h
  obtain ⟨p, hp, rfl, rfl⟩ := h
  refine ⟨log ++ note p.1, ?_⟩
  simp only [MultiYieldVault.external, returns_get_bind, returns_orFault_bind, returns_set_bind,
    returns_pure, noting, hp, Option.map_some, Option.some.injEq]
  exact ⟨_, rfl, rfl, rfl⟩

theorem plain (x : ℤ) : Recorded
    (plain x : Body Address (World × List (Entry Address)) ℤ) (plain x) := orFault _ _

theorem plainU32 (n : ℕ) : Recorded
    (plainU32 n : Body Address (World × List (Entry Address)) ℕ) (plainU32 n) :=
  (require _).bind fun _ => pure n

theorem loadVault : Recorded
    (loadVault : Body Address (World × List (Entry Address)) (VaultState Address)) loadVault :=
  storage.bind fun _ => orFault _ _

theorem mintShares [DecidableEq Address] (account : Address) (shares : ℤ) : Recorded
    (mintShares account shares : Body Address (World × List (Entry Address)) Unit)
    (mintShares account shares) :=
  storage.bind fun _ => (plain _).bind fun _ => save _

/-- The loop over the pools, where each visit is recorded. -/
theorem eachPool
    {visit : ℕ → PoolAllocation Address → ℤ →
      Body Address (World × List (Entry Address)) (ℤ × PoolAllocation Address)}
    {visit' : ℕ → PoolAllocation Address → ℤ → Body Address World (ℤ × PoolAllocation Address)}
    (hvisit : ∀ i alloc x, Recorded (visit i alloc x) (visit' i alloc x)) (i : ℕ)
    (pools : List (PoolAllocation Address)) (x : ℤ) :
    Recorded (eachPool visit i pools x) (eachPool visit' i pools x) := by
  induction pools generalizing i x with
  | nil => exact pure _
  | cons alloc pools ih =>
    apply (hvisit i alloc x).bind
    intro p
    apply (ih (i + 1) p.1).bind
    intro q
    exact pure _

variable {host : Host Address World}

theorem approve (token pool : Address) (amount : ℤ) (expiration : ℕ) :
    Recorded
      (MultiYieldVault.external (host.recording.approve token
        host.recording.currentContractAddress pool amount expiration))
      (MultiYieldVault.external (host.approve token host.currentContractAddress pool amount
        expiration)) :=
  external (host.approve token host.currentContractAddress pool amount expiration) fun _ =>
    [.approved pool amount]

theorem poolDeposit (pool : Address) (amountA amountB : ℤ) :
    Recorded
      (MultiYieldVault.external (host.recording.poolDeposit pool
        host.recording.currentContractAddress amountA amountB))
      (MultiYieldVault.external (host.poolDeposit pool host.currentContractAddress amountA
        amountB)) :=
  external (host.poolDeposit pool host.currentContractAddress amountA amountB) fun _ =>
    [.deposited pool amountA amountB]

theorem poolWithdraw (pool : Address) (shares : ℤ) :
    Recorded
      (MultiYieldVault.external (host.recording.poolWithdraw pool
        host.recording.currentContractAddress shares))
      (MultiYieldVault.external (host.poolWithdraw pool host.currentContractAddress shares)) :=
  external (host.poolWithdraw pool host.currentContractAddress shares) fun out =>
    [.withdrawn pool out.1 out.2]

theorem checkWeights (pools : List (PoolAllocation Address)) :
    Recorded (checkWeights host.recording pools) (checkWeights host pools) := by
  -- the sum of the weights calls nobody, and the fees are only asked for
  have hsum : ∀ (weights : List ℕ) (sum : ℕ), Recorded
      (sumWeights weights sum : Body Address (World × List (Entry Address)) ℕ)
      (sumWeights weights sum) := by
    intro weights
    induction weights with
    | nil => exact fun sum => pure sum
    | cons w weights ih => exact fun sum => (plainU32 _).bind ih
  have hfees : Recorded (validateWeightedPools host.recording pools)
      (validateWeightedPools host pools) := by
    induction pools with
    | nil => exact pure ()
    | cons alloc pools ih =>
      apply ite ih
      apply (external (host.getFee alloc.pool) fun _ => []).bind
      intro fee
      exact (require _).bind fun _ => ih
  apply (hsum _ _).bind
  intro sum
  apply (require _).bind
  intro _
  apply (orFault _ _).bind
  intro lastIdx
  exact hfees.bind fun _ => pure lastIdx

theorem invest (env : Env Address World) (depositToken : Address) (amount : ℤ) (lastIdx i : ℕ)
    (alloc : PoolAllocation Address) (remaining : ℤ) :
    Recorded (invest host.recording env.recording depositToken amount lastIdx i alloc remaining)
      (invest host env depositToken amount lastIdx i alloc remaining) := by
  have hamount : Recorded (poolAmount amount lastIdx i alloc.weight remaining :
        Body Address (World × List (Entry Address)) ℤ)
      (poolAmount amount lastIdx i alloc.weight remaining) :=
    ite (pure _) ((plain _).bind fun _ => pure _)
  apply ite (pure _)
  apply hamount.bind
  intro part
  apply ite (pure _)
  apply (plain _).bind
  intro rest
  apply (plainU32 _).bind
  intro expiration
  apply (approve _ _ _ _).bind
  intro _
  apply (poolDeposit _ _ _).bind
  intro newLp
  apply (plain _).bind
  intro lpShares
  exact pure _

theorem divest (slippageBps : ℤ) (i : ℕ) (alloc : PoolAllocation Address) (totalToMove : ℤ) :
    Recorded (divest host.recording slippageBps i alloc totalToMove)
      (divest host slippageBps i alloc totalToMove) := by
  have hreserve : Recorded (depositReserve host.recording alloc) (depositReserve host alloc) :=
    ite (external (host.getReserveA alloc.pool) fun _ => [])
      (external (host.getReserveB alloc.pool) fun _ => [])
  apply ite (pure _)
  apply hreserve.bind
  intro reserve
  apply (poolWithdraw _ _).bind
  intro out
  apply (plain _).bind
  intro kept
  apply (plain _).bind
  intro product
  apply (require _).bind
  intro _
  apply (plain _).bind
  intro moved
  exact pure _

end Recorded

section Calls

variable {host : Host Address World} {env : Env Address World}

/-- **The record changes nothing** about a deposit. -/
theorem recorded_deposit [DecidableEq Address] (source : Address) (amount : ℤ) :
    Recorded (deposit host.recording env.recording source amount)
      (deposit host env source amount) := by
  apply (Recorded.require _).bind
  intro _
  apply (Recorded.require _).bind
  intro _
  apply Recorded.loadVault.bind
  intro vault
  apply Recorded.storage.bind
  intro s
  apply (Recorded.require _).bind
  intro _
  apply (Recorded.external (host.transfer vault.depositToken source host.currentContractAddress
    amount) fun _ => []).bind
  intro _
  apply (Recorded.checkWeights s.pools).bind
  intro lastIdx
  apply (Recorded.eachPool (Recorded.invest env _ _ _) _ _ _).bind
  intro p
  apply (Recorded.save _).bind
  intro _
  apply (Recorded.mintShares _ _).bind
  intro _
  apply (Recorded.plain _).bind
  intro totalShares
  exact (Recorded.save _).bind fun _ => Recorded.pure _

/-- **The record changes nothing** about a rebalancing. -/
theorem recorded_rebalance :
    Recorded (rebalance host.recording env.recording) (rebalance host env) := by
  apply Recorded.loadVault.bind
  intro vault
  apply Recorded.storage.bind
  intro s
  apply Recorded.ite (Recorded.pure _)
  apply (Recorded.checkWeights s.pools).bind
  intro lastIdx
  apply (Recorded.eachPool (Recorded.divest _) _ _ _).bind
  intro p
  apply Recorded.ite
  · exact (Recorded.eachPool (Recorded.invest env _ _ _) _ _ _).bind fun _ => Recorded.save _
  · exact Recorded.save _

end Calls

/-! ## The parts -/

/-- The parts of an amount: they are all of it, none is negative, a pool without a weight gets
nothing, and a pool before another one with a weight gets its proportion, rounded down. -/
structure Split (pools : List (PoolAllocation Address)) (amount : ℤ) (parts : List ℤ) : Prop where
  length : parts.length = pools.length
  sum : parts.sum = amount
  nonneg : ∀ part ∈ parts, 0 ≤ part
  zero : ∀ (i : ℕ) (alloc : PoolAllocation Address) (part : ℤ), pools[i]? = some alloc →
    parts[i]? = some part → alloc.weight = 0 → part = 0
  floor : ∀ (i : ℕ) (alloc : PoolAllocation Address) (part : ℤ), pools[i]? = some alloc →
    parts[i]? = some part →
    (∃ (j : ℕ) (later : PoolAllocation Address),
      i < j ∧ pools[j]? = some later ∧ 0 < later.weight) →
    part = amount * alloc.weight / 10000

/-- What a pool is asked for its part: to take it, unless it is nothing. -/
def givenTo (alloc : PoolAllocation Address) (part : ℤ) : List (Entry Address) :=
  if part ≤ 0 then []
  else
    [.approved alloc.pool part,
     .deposited alloc.pool (if alloc.depositIsA then part else 0)
       (if alloc.depositIsA then 0 else part)]

/-- What the pools are asked for their parts. -/
def given (pools : List (PoolAllocation Address)) (parts : List ℤ) : List (Entry Address) :=
  (pools.zip parts).flatMap fun p => givenTo p.1 p.2

/-- The index is that of the last pool with a weight, of pools that are counted from `i` on. -/
def IsLast (lastIdx i : ℕ) (pools : List (PoolAllocation Address)) : Prop :=
  ∀ k alloc, pools[k]? = some alloc → alloc.weight ≠ 0 →
    (i + k = lastIdx ↔ Apportion.Last (pools.map PoolAllocation.weight) k)

section Parts

variable {pools : List (PoolAllocation Address)} {alloc : PoolAllocation Address} {i lastIdx : ℕ}
  {amount : ℤ}

theorem IsLast.tail (h : IsLast lastIdx i (alloc :: pools)) : IsLast lastIdx (i + 1) pools := by
  intro k later hlater hweight
  have hk := h (k + 1) later (by simpa using hlater) hweight
  rw [← Nat.add_assoc, Nat.add_right_comm] at hk
  exact hk

/-- The last index of pools that are counted from `i` on. -/
theorem isLast_of_getLast
    (h : ((pools.zipIdx i).filter fun p => p.1.weight > 0).getLast?.map Prod.snd = some lastIdx) :
    i ≤ lastIdx ∧ IsLast lastIdx i pools := by
  induction pools generalizing i with
  | nil => simp at h
  | cons alloc pools ih =>
    rw [List.zipIdx_cons] at h
    by_cases hrest : ∀ w ∈ pools.map PoolAllocation.weight, w = 0
    · -- no other pool has a weight
      have hnone : (pools.zipIdx (i + 1)).filter (fun p => p.1.weight > 0) = [] := by
        rw [List.filter_eq_nil_iff]
        rintro ⟨later, k⟩ hp
        have hmem : later ∈ pools := by
          obtain ⟨-, -, hlater⟩ := List.mem_zipIdx hp
          exact hlater ▸ List.getElem_mem _
        simp [hrest _ (List.mem_map_of_mem hmem)]
      rw [List.filter_cons, hnone] at h
      split at h
      next =>
        obtain rfl : i = lastIdx := by simpa using h
        refine ⟨le_rfl, fun k later hlater hweight => ?_⟩
        cases k with
        | zero => exact iff_of_true rfl hrest
        | succ k =>
          have hmem : later ∈ pools := List.mem_of_getElem? (by simpa using hlater)
          exact absurd (hrest _ (List.mem_map_of_mem hmem)) hweight
      next => simp at h
    · -- the last one is among the others
      have hlater : ((pools.zipIdx (i + 1)).filter fun p => p.1.weight > 0) ≠ [] := by
        intro hnil
        apply hrest
        intro w hw
        obtain ⟨later, hmem, rfl⟩ := List.mem_map.mp hw
        obtain ⟨k, hk, hlater⟩ := List.getElem_of_mem hmem
        have hp : (later, i + 1 + k) ∈ pools.zipIdx (i + 1) := by
          rw [List.mk_mem_zipIdx_iff_le_and_getElem?_sub, Nat.add_sub_cancel_left]
          exact ⟨by omega, hlater ▸ List.getElem?_eq_getElem hk⟩
        have hzero := (List.filter_eq_nil_iff.mp hnil) _ hp
        simpa using hzero
      have htail : ((pools.zipIdx (i + 1)).filter fun p => p.1.weight > 0).getLast?.map Prod.snd =
          some lastIdx := by
        rw [← h, List.filter_cons]
        split
        · rw [List.getLast?_cons_of_ne_nil hlater]
        · rfl
      obtain ⟨hle, hlast⟩ := ih htail
      refine ⟨by omega, fun k later hk hweight => ?_⟩
      cases k with
      | zero => exact iff_of_false (by omega) hrest
      | succ k =>
        have := hlast k later (by simpa using hk) hweight
        rw [← Nat.add_assoc, Nat.add_right_comm]
        exact this

/-- The parts of an amount for pools of which the weights add up to all of it. -/
theorem split_parts (hamount : 0 ≤ amount)
    (hsum : (pools.map PoolAllocation.weight).sum = 10000) :
    Split pools amount
      (Apportion.parts amount 10000 amount (pools.map PoolAllocation.weight)) := by
  have hweighted : ∃ w ∈ pools.map PoolAllocation.weight, w ≠ 0 := by
    by_contra hnone
    have hzero : (pools.map PoolAllocation.weight).sum = 0 :=
      List.sum_eq_zero fun w hw => not_not.mp fun hne => hnone ⟨w, hw, hne⟩
    omega
  have hleft : amount * ((pools.map PoolAllocation.weight).sum : ℕ) ≤ amount * (10000 : ℕ) := by
    rw [hsum]
  refine ⟨by simp, Apportion.sum_parts hweighted,
    Apportion.parts_nonneg (by decide) hamount hleft, ?_, ?_⟩
  · intro i alloc part halloc hpart hweight
    exact Apportion.part_eq_zero (by simp [halloc, hweight]) hpart
  · rintro i alloc part halloc hpart ⟨j, later, hij, hlater, hpos⟩
    refine Apportion.part_eq (by simp [halloc]) ?_ hpart
    -- a later pool with a weight is among those behind
    intro hlast
    have hmem : later.weight ∈ (pools.map PoolAllocation.weight).drop (i + 1) := by
      rw [List.mem_iff_getElem?]
      refine ⟨j - (i + 1), ?_⟩
      rw [List.getElem?_drop, show i + 1 + (j - (i + 1)) = j by omega, List.getElem?_map, hlater]
      rfl
    exact hpos.ne' (hlast _ hmem)

end Parts

/-! ## What the loops over the pools do -/

section Loops

variable {host : Host Address World} {env : Env Address (World × List (Entry Address))}
  {c c' : Session Address (World × List (Entry Address))}

theorem returns_noting_bind {α β : Type} {g : World → Option (α × World)}
    {n : α → List (Entry Address)} {f : α → Body Address (World × List (Entry Address)) β}
    {v : β} :
    Returns (external (noting g n) >>= f) c v c' ↔
      ∃ a world, g c.world.1 = some (a, world) ∧
        Returns (f a) ⟨c.storage, world, c.world.2 ++ n a⟩ v c' := by
  rw [returns_external_bind]
  constructor
  · rintro ⟨a, world, hg, h⟩
    obtain ⟨⟨b, w⟩, hb, hpair⟩ := Option.map_eq_some_iff.mp hg
    obtain ⟨rfl, rfl⟩ := Prod.mk.inj hpair
    exact ⟨b, w, hb, h⟩
  · rintro ⟨a, world, hg, h⟩
    exact ⟨a, (world, c.world.2 ++ n a), by simp [noting, hg], h⟩

theorem returns_approve_bind {β : Type} {token owner pool : Address} {amount : ℤ} {expiration : ℕ}
    {f : Unit → Body Address (World × List (Entry Address)) β} {v : β} :
    Returns (external (host.recording.approve token owner pool amount expiration) >>= f) c v c' ↔
      ∃ a world, host.approve token owner pool amount expiration c.world.1 = some (a, world) ∧
        Returns (f a) ⟨c.storage, world, c.world.2 ++ [.approved pool amount]⟩ v c' :=
  returns_noting_bind (g := host.approve token owner pool amount expiration)
    (n := fun _ => [.approved pool amount])

theorem returns_poolDeposit_bind {β : Type} {pool source : Address} {amountA amountB : ℤ}
    {f : ℤ → Body Address (World × List (Entry Address)) β} {v : β} :
    Returns (external (host.recording.poolDeposit pool source amountA amountB) >>= f) c v c' ↔
      ∃ a world, host.poolDeposit pool source amountA amountB c.world.1 = some (a, world) ∧
        Returns (f a) ⟨c.storage, world, c.world.2 ++ [.deposited pool amountA amountB]⟩ v c' :=
  returns_noting_bind (g := host.poolDeposit pool source amountA amountB)
    (n := fun _ => [.deposited pool amountA amountB])

theorem returns_poolWithdraw_bind {β : Type} {pool source : Address} {shares : ℤ}
    {f : ℤ × ℤ → Body Address (World × List (Entry Address)) β} {v : β} :
    Returns (external (host.recording.poolWithdraw pool source shares) >>= f) c v c' ↔
      ∃ a world, host.poolWithdraw pool source shares c.world.1 = some (a, world) ∧
        Returns (f a) ⟨c.storage, world, c.world.2 ++ [.withdrawn pool a.1 a.2]⟩ v c' :=
  returns_noting_bind (g := host.poolWithdraw pool source shares)
    (n := fun out => [.withdrawn pool out.1 out.2])

/-- **What a pool is given.** -/
theorem given_invest {depositToken : Address} {amount remaining rest : ℤ} {lastIdx i : ℕ}
    {alloc alloc' : PoolAllocation Address} {pools : List (PoolAllocation Address)}
    (hlast : IsLast lastIdx i (alloc :: pools)) (hamount : 0 ≤ amount) (hremaining : 0 ≤ remaining)
    (h : Returns (invest host.recording env depositToken amount lastIdx i alloc remaining) c
      (rest, alloc') c') :
    let part :=
      if alloc.weight = 0 then 0
      else if ∀ w ∈ pools.map PoolAllocation.weight, w = 0 then remaining
      else amount * alloc.weight / 10000
    rest = remaining - part ∧ c'.world.2 = c.world.2 ++ givenTo alloc part := by
  intro part
  unfold invest at h
  split at h
  next hweight =>
    obtain ⟨hpair, rfl⟩ := returns_pure.mp h
    obtain ⟨rfl, -⟩ := Prod.mk.inj hpair
    have hpart : part = 0 := if_pos hweight
    rw [hpart]
    simp [givenTo]
  next hweight =>
    -- the pool with the last index gets what is left
    have hidx : i = lastIdx ↔ ∀ w ∈ pools.map PoolAllocation.weight, w = 0 :=
      hlast 0 alloc rfl hweight
    obtain ⟨found, c₁, hfound, hgiven⟩ := returns_bind.mp h
    -- the part that the contract computes, where both quotients are rounded down
    obtain ⟨rfl, rfl⟩ : found = part ∧ c₁ = c := by
      unfold poolAmount at hfound
      split at hfound
      next hlastIdx =>
        obtain ⟨rfl, rfl⟩ := returns_pure.mp hfound
        exact ⟨by simp only [part]; rw [if_neg hweight, if_pos (hidx.mp hlastIdx)], rfl⟩
      next hbefore =>
        rw [returns_plain_bind, returns_pure] at hfound
        obtain ⟨-, rfl, rfl⟩ := hfound
        refine ⟨?_, rfl⟩
        simp only [part]
        rw [if_neg hweight, if_neg (mt hidx.mpr hbefore),
          Int.tdiv_eq_ediv_of_nonneg (mul_nonneg hamount (Int.natCast_nonneg _))]
    have hnonneg : 0 ≤ part := by
      simp only [part]
      rw [if_neg hweight]
      split
      · exact hremaining
      · exact Int.ediv_nonneg (mul_nonneg hamount (Int.natCast_nonneg _)) (by decide)
    clear_value part
    split at hgiven
    next hnone =>
      obtain ⟨hpair, rfl⟩ := returns_pure.mp hgiven
      obtain ⟨rfl, -⟩ := Prod.mk.inj hpair
      obtain rfl : part = 0 := le_antisymm hnone hnonneg
      simp [givenTo]
    next hsome =>
      rw [returns_plain_bind, returns_plainU32_bind] at hgiven
      obtain ⟨-, -, hgiven⟩ := hgiven
      obtain ⟨_, world, -, hgiven⟩ := returns_approve_bind.mp hgiven
      obtain ⟨newLp, world', -, hgiven⟩ := returns_poolDeposit_bind.mp hgiven
      rw [returns_plain_bind, returns_pure] at hgiven
      obtain ⟨-, hpair, rfl⟩ := hgiven
      obtain ⟨rfl, -⟩ := Prod.mk.inj hpair
      refine ⟨rfl, ?_⟩
      rw [givenTo, if_neg hsome, List.append_assoc]
      rfl

/-- **What the loop over the pools gives to them.** The induction is on the pools, and what is left
for those to come covers their weights. -/
theorem given_eachPool {depositToken : Address} {amount remaining rest : ℤ} {lastIdx i : ℕ}
    {pools pools' : List (PoolAllocation Address)} (hlast : IsLast lastIdx i pools)
    (hamount : 0 ≤ amount)
    (hleft : amount * ((pools.map PoolAllocation.weight).sum : ℕ) ≤ remaining * (10000 : ℕ))
    (h : Returns (eachPool (invest host.recording env depositToken amount lastIdx) i pools
      remaining) c (rest, pools') c') :
    c'.world.2 = c.world.2 ++
      given pools (Apportion.parts amount 10000 remaining (pools.map PoolAllocation.weight)) := by
  induction pools generalizing c i remaining rest pools' with
  | nil =>
    obtain ⟨-, rfl⟩ := returns_pure.mp h
    simp [given]
  | cons alloc pools ih =>
    -- what is left covers weights that are not negative
    have hremaining : 0 ≤ remaining := by
      have hsum : (0 : ℤ) ≤ amount * (((alloc :: pools).map PoolAllocation.weight).sum : ℕ) :=
        mul_nonneg hamount (Int.natCast_nonneg _)
      exact nonneg_of_mul_nonneg_left (hsum.trans hleft) (by decide)
    obtain ⟨⟨left, alloc'⟩, c₁, hinvest, h⟩ := returns_bind.mp h
    obtain ⟨⟨rest', pools''⟩, c₂, hloop, h⟩ := returns_bind.mp h
    obtain ⟨-, rfl⟩ := returns_pure.mp h
    obtain ⟨hrest, hlog⟩ := given_invest hlast hamount hremaining hinvest
    have hnext := ih hlast.tail ?_ hloop
    · rw [hnext, hlog, List.append_assoc, hrest]
      rfl
    · -- the part covers no more than the weight of its pool
      rw [hrest]
      split
      next hweight =>
        rw [List.map_cons, List.sum_cons, hweight, Nat.zero_add] at hleft
        rwa [sub_zero]
      next =>
        split
        next hzero => rw [List.sum_eq_zero hzero, Nat.cast_zero, mul_zero, sub_self, zero_mul]
        next => exact Apportion.le_sub_part (by decide) hleft

/-- What a rebalancing draws from a pool. -/
structure Draw (Address : Type) where
  alloc : PoolAllocation Address
  outA : ℤ
  outB : ℤ

/-- What is drawn of the deposit token. -/
def Draw.received (draw : Draw Address) : ℤ :=
  if draw.alloc.depositIsA then draw.outA else draw.outB

def Draw.entry (draw : Draw Address) : Entry Address :=
  .withdrawn draw.alloc.pool draw.outA draw.outB

/-- An allocation without shares. -/
def PoolAllocation.emptied (alloc : PoolAllocation Address) : PoolAllocation Address :=
  { alloc with lpShares := 0 }

theorem returns_depositReserve_bind {β : Type} {alloc : PoolAllocation Address}
    {f : ℤ → Body Address (World × List (Entry Address)) β} {v : β}
    (h : Returns (depositReserve host.recording alloc >>= f) c v c') :
    ∃ reserve world, Returns (f reserve) ⟨c.storage, world, c.world.2⟩ v c' := by
  unfold depositReserve at h
  split at h
  · obtain ⟨reserve, world, -, h⟩ := (returns_noting_bind (g := host.getReserveA alloc.pool)
      (n := fun _ => [])).mp h
    rw [List.append_nil] at h
    exact ⟨reserve, world, h⟩
  · obtain ⟨reserve, world, -, h⟩ := (returns_noting_bind (g := host.getReserveB alloc.pool)
      (n := fun _ => [])).mp h
    rw [List.append_nil] at h
    exact ⟨reserve, world, h⟩

/-- What the pools give back, each of them that has shares. -/
theorem drawn_eachPool {slippageBps total moved : ℤ} {i : ℕ}
    {pools pools' : List (PoolAllocation Address)}
    (h : Returns (eachPool (divest host.recording slippageBps) i pools total) c (moved, pools')
      c') :
    c'.storage = c.storage ∧ pools' = pools.map PoolAllocation.emptied ∧
      ∃ drawn : List (Draw Address),
      drawn.map Draw.alloc = pools.filter (fun alloc => alloc.lpShares ≠ 0) ∧
      c'.world.2 = c.world.2 ++ drawn.map Draw.entry ∧
      moved = total + (drawn.map Draw.received).sum := by
  induction pools generalizing c i total pools' with
  | nil =>
    obtain ⟨hpair, rfl⟩ := returns_pure.mp h
    obtain ⟨rfl, rfl⟩ := Prod.mk.inj hpair
    exact ⟨rfl, rfl, [], rfl, by simp, by simp⟩
  | cons alloc pools ih =>
    obtain ⟨⟨total', alloc'⟩, c₁, hdivest, h⟩ := returns_bind.mp h
    obtain ⟨⟨moved', pools''⟩, c₂, hloop, h⟩ := returns_bind.mp h
    obtain ⟨hpair, rfl⟩ := returns_pure.mp h
    obtain ⟨rfl, rfl⟩ := Prod.mk.inj hpair
    obtain ⟨hstorage, rfl, drawn, hdrawn, hlog, hmoved⟩ := ih hloop
    unfold divest at hdivest
    split at hdivest
    next hzero =>
      obtain ⟨hpair, rfl⟩ := returns_pure.mp hdivest
      obtain ⟨rfl, rfl⟩ := Prod.mk.inj hpair
      -- a pool without shares is passed over, and is empty as it is
      have hemptied : alloc.emptied = alloc := by rw [PoolAllocation.emptied, ← hzero]
      exact ⟨hstorage, by rw [List.map_cons, hemptied], drawn, by simp [hdrawn, hzero], hlog,
        hmoved⟩
    next hshares =>
      obtain ⟨reserve, world, hdivest⟩ := returns_depositReserve_bind hdivest
      obtain ⟨⟨outA, outB⟩, world', -, hdivest⟩ := returns_poolWithdraw_bind.mp hdivest
      simp only [returns_plain_bind, returns_require_bind, returns_pure] at hdivest
      obtain ⟨-, -, -, -, hpair, rfl⟩ := hdivest
      obtain ⟨rfl, rfl⟩ := Prod.mk.inj hpair
      refine ⟨hstorage, rfl, ⟨alloc, outA, outB⟩ :: drawn, by simp [hdrawn, hshares], ?_, ?_⟩
      · rw [hlog, List.append_assoc]
        rfl
      · rw [hmoved, List.map_cons, List.sum_cons, ← add_assoc]
        rfl

theorem returns_sumWeights {weights : List ℕ} {sum v : ℕ}
    (h : Returns (sumWeights weights sum) c v c') : v = sum + weights.sum ∧ c' = c := by
  induction weights generalizing sum with
  | nil =>
    obtain ⟨rfl, rfl⟩ := returns_pure.mp h
    exact ⟨by simp, rfl⟩
  | cons w weights ih =>
    rw [sumWeights, returns_plainU32_bind] at h
    obtain ⟨rfl, rfl⟩ := ih h.2
    exact ⟨by rw [List.sum_cons, Nat.add_assoc], rfl⟩

theorem returns_validateWeightedPools {pools : List (PoolAllocation Address)} {r : Unit}
    (h : Returns (validateWeightedPools host.recording pools) c r c') :
    c'.storage = c.storage ∧ c'.world.2 = c.world.2 := by
  induction pools generalizing c with
  | nil =>
    obtain ⟨-, rfl⟩ := returns_pure.mp h
    exact ⟨rfl, rfl⟩
  | cons alloc pools ih =>
    unfold validateWeightedPools at h
    split at h
    next => exact ih h
    next =>
      obtain ⟨fee, world, -, h⟩ := (returns_noting_bind (g := host.getFee alloc.pool)
        (n := fun _ => [])).mp h
      rw [List.append_nil, returns_require_bind] at h
      exact ih (c := ⟨c.storage, world, c.world.2⟩) h.2

/-- The checks find the last pool with a weight, and that the weights add up. -/
theorem returns_checkWeights {pools : List (PoolAllocation Address)} {lastIdx : ℕ}
    (h : Returns (checkWeights host.recording pools) c lastIdx c') :
    c'.storage = c.storage ∧ c'.world.2 = c.world.2 ∧
      (pools.map PoolAllocation.weight).sum = 10000 ∧ IsLast lastIdx 0 pools := by
  obtain ⟨sum, c₁, hsum, hrest⟩ := returns_bind.mp h
  obtain ⟨rfl, rfl⟩ := returns_sumWeights hsum
  rw [returns_require_bind, returns_orFault_bind] at hrest
  obtain ⟨hall, last, hlast, hrest⟩ := hrest
  obtain ⟨_, c₂, hfees, hrest⟩ := returns_bind.mp hrest
  obtain ⟨rfl, rfl⟩ := returns_pure.mp hrest
  obtain ⟨hstorage, hlog⟩ := returns_validateWeightedPools hfees
  rw [Nat.zero_add] at hall
  exact ⟨hstorage, hlog, hall, (isLast_of_getLast hlast).2⟩

end Loops

/-! ## Deposits and rebalancings -/

section Calls

variable {host : Host Address World} {env : Env Address World}

/-- What the pools are asked for does not depend on their shares. -/
theorem given_emptied (pools : List (PoolAllocation Address)) (parts : List ℤ) :
    given (pools.map PoolAllocation.emptied) parts = given pools parts := by
  rw [given, List.zip_map_left, List.flatMap_map]
  rfl

theorem weight_emptied (pools : List (PoolAllocation Address)) :
    (pools.map PoolAllocation.emptied).map PoolAllocation.weight =
      pools.map PoolAllocation.weight := by
  rw [List.map_map]
  rfl

theorem IsLast.emptied {lastIdx i : ℕ} {pools : List (PoolAllocation Address)}
    (h : IsLast lastIdx i pools) : IsLast lastIdx i (pools.map PoolAllocation.emptied) := by
  intro k alloc halloc hweight
  rw [weight_emptied]
  rw [List.getElem?_map] at halloc
  obtain ⟨alloc', halloc', rfl⟩ := Option.map_eq_some_iff.mp halloc
  exact h k alloc' halloc' hweight

/-- **A deposit is split by the weights.** -/
theorem deposit_split [DecidableEq Address] {source : Address} {amount v : ℤ}
    {c c' : Session Address World} (h : Returns (deposit host env source amount) c v c') :
    ∃ parts log, Split c.storage.pools amount parts ∧
      Returns (deposit host.recording env.recording source amount) ⟨c.storage, c.world, []⟩ v
        ⟨c'.storage, c'.world, log⟩ ∧ log = given c.storage.pools parts := by
  obtain ⟨log, hrecorded⟩ := recorded_deposit source amount c v c' [] h
  -- the calls of the recorded deposit are read off, one after another
  have hreturns := hrecorded
  rw [deposit, returns_require_bind, returns_requireAuth_bind, returns_loadVault_bind]
    at hrecorded
  obtain ⟨hpos, -, vault, -, hrecorded⟩ := hrecorded
  rw [returns_storage_bind, returns_require_bind] at hrecorded
  obtain ⟨-, hrecorded⟩ := hrecorded
  obtain ⟨_, world, -, hrecorded⟩ := (returns_noting_bind
    (g := host.transfer vault.depositToken source host.currentContractAddress amount)
    (n := fun _ => [])).mp hrecorded
  rw [List.append_nil] at hrecorded
  obtain ⟨lastIdx, c₁, hcheck, hrecorded⟩ := returns_bind.mp hrecorded
  obtain ⟨hstorage, hlog, hsum, hlast⟩ := returns_checkWeights hcheck
  obtain ⟨⟨rest, pools⟩, c₂, hloop, hrecorded⟩ := returns_bind.mp hrecorded
  simp only [savePools, mintShares, saveVault, bind_assoc, returns_save_bind,
    returns_storage_bind, returns_plain_bind, returns_pure] at hrecorded
  obtain ⟨-, -, -, hfinal⟩ := hrecorded
  have hamount : 0 ≤ amount := (not_le.mp hpos).le
  have hgiven := given_eachPool hlast hamount (by rw [hsum]) hloop
  have hworld : log = c₂.world.2 := (congrArg (fun c => c.world.2) hfinal).symm
  refine ⟨_, log, split_parts hamount hsum, hreturns, ?_⟩
  rw [hworld, hgiven, hlog]
  rfl

/-- What a rebalancing moves, from what it draws, to the pools. -/
def Moved (pools : List (PoolAllocation Address)) (drawn : List (Draw Address))
    (log : List (Entry Address)) : Prop :=
  let amount := (drawn.map Draw.received).sum
  drawn.map Draw.alloc = pools.filter (fun alloc => alloc.lpShares ≠ 0) ∧
    if 0 < amount then
      ∃ parts, Split pools amount parts ∧ log = drawn.map Draw.entry ++ given pools parts
    else log = drawn.map Draw.entry

/-- **A rebalancing splits what it draws by the weights**, unless there are less than two pools. -/
theorem rebalance_split {r : Unit} {c c' : Session Address World}
    (h : Returns (rebalance host env) c r c') :
    ∃ log, Returns (rebalance host.recording env.recording) ⟨c.storage, c.world, []⟩ r
        ⟨c'.storage, c'.world, log⟩ ∧
      if c.storage.pools.length ≤ 1 then log = []
      else ∃ drawn, Moved c.storage.pools drawn log := by
  obtain ⟨log, hreturns⟩ := recorded_rebalance c r c' [] h
  refine ⟨log, hreturns, ?_⟩
  rw [rebalance, returns_loadVault_bind] at hreturns
  obtain ⟨vault, -, hrest⟩ := hreturns
  rw [returns_storage_bind] at hrest
  by_cases hfew : c.storage.pools.length ≤ 1
  · rw [if_pos hfew] at hrest ⊢
    exact (congrArg (fun c => c.world.2) (returns_pure.mp hrest).2).symm
  rw [if_neg hfew] at hrest ⊢
  obtain ⟨lastIdx, c₁, hcheck, hrest⟩ := returns_bind.mp hrest
  obtain ⟨-, hlog, hsum, hlast⟩ := returns_checkWeights hcheck
  obtain ⟨⟨total, pools⟩, c₂, hdraw, hrest⟩ := returns_bind.mp hrest
  obtain ⟨-, rfl, drawn, hdrawn, hlog₂, htotal⟩ := drawn_eachPool hdraw
  rw [zero_add] at htotal
  rw [hlog, List.nil_append] at hlog₂
  refine ⟨drawn, hdrawn, ?_⟩
  rw [← htotal]
  dsimp only at hrest
  split at hrest
  next hpos =>
    obtain ⟨⟨rest, pools'⟩, c₃, hloop, hrest⟩ := returns_bind.mp hrest
    -- the pools were emptied by what was drawn, which changes no weight
    have hgiven := given_eachPool hlast.emptied hpos.le (by rw [weight_emptied, hsum]) hloop
    rw [weight_emptied, given_emptied] at hgiven
    have hworld : log = c₃.world.2 :=
      (congrArg (fun c => c.world.2) (returns_save.mp hrest)).symm
    rw [if_pos hpos]
    exact ⟨_, split_parts hpos.le hsum, by rw [hworld, hgiven, hlog₂]⟩
  next hpos =>
    have hworld : log = c₂.world.2 :=
      (congrArg (fun c => c.world.2) (returns_save.mp hrest)).symm
    rw [if_neg hpos, hworld, hlog₂]

/-- **Every amount is split by the weights**, that of a deposit and what a rebalancing draws. The
record of the calls of the pools is the same for every host. -/
theorem amounts_split [DecidableEq Address] (host : Host Address World) (env : Env Address World)
    (c c' : Session Address World) :
    (∀ source amount v, Returns (deposit host env source amount) c v c' →
      ∃ parts log, Split c.storage.pools amount parts ∧
        Returns (deposit host.recording env.recording source amount) ⟨c.storage, c.world, []⟩ v
          ⟨c'.storage, c'.world, log⟩ ∧ log = given c.storage.pools parts) ∧
    ∀ r, Returns (rebalance host env) c r c' →
      ∃ log, Returns (rebalance host.recording env.recording) ⟨c.storage, c.world, []⟩ r
          ⟨c'.storage, c'.world, log⟩ ∧
        if c.storage.pools.length ≤ 1 then log = []
        else ∃ drawn, Moved c.storage.pools drawn log :=
  ⟨fun _ _ _ h => deposit_split h, fun _ h => rebalance_split h⟩

/-- Three pools, of which the second has no weight. -/
def sampleThree : Session ℕ (ℕ × Bool) where
  storage :=
    { (State.initial : State ℕ) with
      vault := some
        { depositToken := 9, admin := 100, totalShares := 0, slippageBps := 100,
          volumeProxyBps := 1, queuedAmount := 0 }
      pools := [⟨101, 0, true, 5000⟩, ⟨102, 0, true, 0⟩, ⟨103, 0, false, 5000⟩] }
  world := (0, false)

theorem amounts_split_three :
    ∃ v c' parts, Returns (deposit sampleHost (sampleEnv 1 0 false) 1 101) sampleThree v c' ∧
      Split sampleThree.storage.pools 101 parts := by
  obtain ⟨v, h⟩ := exists_returns_of_isOk (show
    (invoke (deposit sampleHost (sampleEnv 1 0 false) 1 101) sampleThree).1.isOk = true by
      decide +kernel)
  obtain ⟨parts, log, hsplit, -⟩ :=
    (amounts_split sampleHost (sampleEnv 1 0 false) sampleThree _).1 1 101 v h
  exact ⟨v, _, parts, h, hsplit⟩

example : given sampleThree.storage.pools
    (Apportion.parts 101 10000 101 (sampleThree.storage.pools.map PoolAllocation.weight)) =
      [.approved 101 50, .deposited 101 50 0, .approved 103 51, .deposited 103 0 51] := by
  decide

end Calls

end MultiYieldVault
