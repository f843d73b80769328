import SkyMoonScope.AuctionFactory.Factory
import SkyMoonScope.Lib.Pages

/-!
# The registry of the factory

The factory records an auction by its address, by its number and in a list. The first two have every
auction that it has deployed, and pages of them have them in order. The list is filled up to a
bound, and the question whether an auction is one of the factory's is answered from the list. So the
answer is right as long as no more auctions were deployed than the list has room for.

## Main definitions

* `deployed ls`: the auctions that the calls have deployed, in order
* `Registered D s`: what is stored for the auctions `D`
* `RegistryAgreement D s`: the three ways of asking for an auction agree with what was deployed

## Main results

* `registered_step`: every call that returns keeps the records
* `getAuctions_eq`: a page is a part of the auctions
* `registry_agrees_iff`: the records agree just when the list had room
-/

namespace AuctionFactory

open Soroban Machine Function Pages

variable {Address World : Type}

/-- The auction that a call has deployed. -/
def deployment {host : Host Address World} (l : Event host) : Option Address :=
  match l.result with
  | .ok (.deployed a) => some a
  | _ => none

/-- The auctions that the calls have deployed, in order. -/
def deployed {host : Host Address World} (ls : List (Event host)) : List Address :=
  ls.filterMap deployment

/-- Consecutive pages of any sizes, none of which is zero, have what was deployed, each auction once
and in order. -/
structure PagesAgree (D : List Address) (s : State Address World) : Prop where
  nodup : D.Nodup
  pages_prefix : ∀ limits, pages (getAuctions s) 0 limits <+: D
  pages_eq : ∀ limits, (∀ n ∈ limits, 0 < n) → D.length ≤ limits.length →
    pages (getAuctions s) 0 limits = D

/-- Every way of asking for an auction agrees with what was deployed: the question whether it is one
of the factory's, its type, and the pages. -/
structure RegistryAgreement [DecidableEq Address] (D : List Address) (s : State Address World) :
    Prop extends PagesAgree D s where
  isDeployed_iff : ∀ a, isDeployedAuction s a = true ↔ a ∈ D
  isDeployed_eq : ∀ a, isDeployedAuction s a = (getAuctionType s a).isSome

/-! ## The records -/

/-- The records of the auctions, which are different contracts. The list has the first of them. -/
structure Registered (host : Host Address World) (D : List Address) (s : State Address World) :
    Prop where
  nodup : D.Nodup
  exist : ∀ a ∈ D, host.hasContract s.world a
  auction_iff : ∀ a, (s.auction a).isSome = true ↔ a ∈ D
  byIndex_eq : ∀ i, s.auctionByIndex i = D[i]?
  count_eq : s.auctionCount = D.length
  count_lt : s.auctionCount < 2 ^ 32
  instances_eq : s.instances = D.take maxTrackedAuctions

section Registered

variable {host : Host Address World} {D : List Address} {s t : State Address World}

/-- The records do not depend on the fee and the guard, and the auctions stay. -/
theorem Registered.congr (h : Registered host D s) (hauction : t.auction = s.auction)
    (hindex : t.auctionByIndex = s.auctionByIndex) (hcount : t.auctionCount = s.auctionCount)
    (hinstances : t.instances = s.instances)
    (hworld : ∀ a, host.hasContract s.world a → host.hasContract t.world a) :
    Registered host D t where
  nodup := h.nodup
  exist := fun a ha => hworld a (h.exist a ha)
  auction_iff := by
    rw [hauction]
    exact h.auction_iff
  byIndex_eq := by
    rw [hindex]
    exact h.byIndex_eq
  count_eq := hcount.trans h.count_eq
  count_lt := by
    rw [hcount]
    exact h.count_lt
  instances_eq := hinstances.trans h.instances_eq

variable [DecidableEq Address] {env : Env host}

/-- **A deployment** adds a new auction to the records. -/
theorem Registered.create (hhost : Lasting host) (h : Registered host D s)
    {auctionType : AuctionType} {args : InitArgs Address} {wasmHash : BytesN 32} {a : Address}
    (hcreate : Returns (createAuction env auctionType args wasmHash) s a t) :
    Registered host (D ++ [a]) t := by
  obtain ⟨fee, world₁, world₂, world₃, -, -, htransfer, hdeploy, hinitialize, hlt, rfl⟩ :=
    returns_createAuction.mp hcreate
  obtain ⟨hnew, hthere⟩ := hhost.deploy_new hdeploy
  have hold : ∀ b ∈ D, host.hasContract world₁ b :=
    fun b hb => hhost.transfer_keeps htransfer b (h.exist b hb)
  have hmem : a ∉ D := fun ha => hnew (hold a ha)
  refine ⟨?_, fun b hb => ?_, fun b => ?_, fun i => ?_, ?_, hlt, ?_⟩
  · rw [← List.concat_eq_append]
    exact h.nodup.concat hmem
  · apply hhost.initialize_keeps hinitialize
    rcases List.mem_append.mp hb with hb | hb
    · exact hhost.deploy_keeps hdeploy b (hold b hb)
    · rwa [List.mem_singleton.mp hb]
  · rw [List.mem_append, List.mem_singleton]
    by_cases hba : b = a
    · simp [hba]
    · simp [hba, h.auction_iff]
  · show update s.auctionByIndex s.auctionCount (some a) i = _
    rw [h.count_eq]
    by_cases hi : i = D.length
    · rw [hi, update_self, List.getElem?_concat_length]
    · rw [update_of_ne hi, h.byIndex_eq, List.getElem?_append]
      split
      next => rfl
      next hlen =>
        rw [List.getElem?_eq_none (not_lt.mp hlen), List.getElem?_eq_none]
        simp only [List.length_singleton]
        omega
  · rw [List.length_append, List.length_singleton, ← h.count_eq]
  · dsimp only
    rw [h.instances_eq, List.length_take]
    split
    next hroom =>
      rw [List.take_of_length_le (by omega), List.take_of_length_le]
      rw [List.length_append, List.length_singleton]
      omega
    next hfull => rw [List.take_append_of_le_length (by omega)]

end Registered

section Runs

variable [DecidableEq Address] {host : Host Address World} {env : Env host} {call : Call Address}
  {ls : List (Event host)} {l : Event host} {s t : State Address World} {r : Response Address}
  {world : World}

omit [DecidableEq Address] in
theorem deployed_concat : deployed (ls ++ [l]) = deployed ls ++ (deployment l).toList := by
  rw [deployed, List.filterMap_append]
  cases hl : deployment l <;> simp [deployed, hl]

/-- **Every call that returns** keeps the records in line with the deployments. -/
theorem registered_step (hhost : Lasting host) (hs : Registered host (deployed ls) s)
    (h : Returns (entryPoint env call) s r t) :
    Registered host (deployed (ls ++ [⟨env, call, .ok r⟩])) t := by
  rw [returns_entryPoint] at h
  have hworld : Registered host (deployed ls) { s with world := env.outside s.world } :=
    hs.congr rfl rfl rfl rfl (env.outside_keeps s.world)
  rw [deployed_concat]
  -- a call of the guard keeps the records
  have hguard : ∀ {x : EmergencyGuard.Body Address Unit},
      Returns ((fun _ => Response.unit) <$> onGuard x) { s with world := env.outside s.world } r t →
      Registered host (deployed ls ++ (deployment (⟨env, call, .ok r⟩ : Event host)).toList) t := by
    intro x hx
    obtain ⟨_, hguard, rfl⟩ := returns_map.mp hx
    obtain ⟨g, -, rfl⟩ := returns_onGuard.mp hguard
    rw [deployment, Option.toList_none, List.append_nil]
    exact hworld.congr rfl rfl rfl rfl fun _ => id
  cases call with
  | initializeFactory admins threshold =>
    obtain ⟨_, hx, rfl⟩ := returns_map.mp h
    rw [initializeFactory, returns_orFault_bind] at hx
    obtain ⟨guardian, -, hx⟩ := hx
    exact hguard (returns_map.mpr ⟨_, hx, rfl⟩)
  | rotateAdmin approvers oldAdmin newAdmin => exact hguard h
  | addAdmin approvers newAdmin => exact hguard h
  | removeAdmin approvers admin => exact hguard h
  | configureDeploymentFee approvers token recipient amount =>
    obtain ⟨_, hx, rfl⟩ := returns_map.mp h
    obtain ⟨g, rfl⟩ := returns_configureDeploymentFee hx
    rw [deployment, Option.toList_none, List.append_nil]
    exact hworld.congr rfl rfl rfl rfl fun _ => id
  | createEnglishAuction seller nftContract tokenId paymentToken startingPrice reservePrice
      durationLedgers englishWasmHash =>
    obtain ⟨a, hcreate, rfl⟩ := returns_map.mp h
    exact hworld.create hhost hcreate
  | createDutchAuction seller nftContract tokenId paymentToken startPrice endPrice durationLedgers
      dutchWasmHash =>
    obtain ⟨a, hcreate, rfl⟩ := returns_map.mp h
    exact hworld.create hhost hcreate

theorem registered_of_run (hhost : Lasting host)
    (h : Run (Step entryPoint) (State.initial world) ls s) : Registered host (deployed ls) s := by
  refine history_of_returns (P := fun _ _ _ => True)
    (J := fun ks u => Registered host (deployed ks) u) ?_ ?_ (run_unconditional h) ?_
  · intro ks env call u v w hu hreturns _
    exact registered_step hhost hu hreturns
  · intro ks env call u fault hu
    rw [deployed_concat, deployment, Option.toList_none, List.append_nil]
    exact hu
  · exact ⟨List.nodup_nil, fun a ha => (by cases ha), fun a => by simp [State.initial, deployed],
      fun i => rfl, rfl, Nat.two_pow_pos 32, rfl⟩

omit [DecidableEq Address] in
/-- **A page** is the part of the auctions from the start that it is asked for. -/
theorem getAuctions_eq {D : List Address} (h : Registered host D s) (start limit : ℕ) :
    getAuctions s start limit = (D.drop start).take (min limit maxPageSize) := by
  have hcount := h.count_lt
  have hread : getAuctionByIndex s = fun i => D[i]? := funext h.byIndex_eq
  have hlast : min (saturatingAdd start (min limit maxPageSize)) (getAuctionCount s) - start =
      min (min limit maxPageSize) (D.length - start) := by
    rw [saturatingAdd, getAuctionCount, h.count_eq]
    rw [h.count_eq] at hcount
    omega
  rw [getAuctions, hread, filterMap_range', hlast, ← List.length_drop, ← List.take_take,
    List.take_length]

/-- The list answers for the first auctions only. -/
theorem isDeployedAuction_iff {D : List Address} (h : Registered host D s) {a : Address} :
    isDeployedAuction s a = true ↔ a ∈ D.take maxTrackedAuctions := by
  rw [isDeployedAuction, List.contains_iff_mem, h.instances_eq]

/-- The list has all auctions just when there are no more than it has room for. -/
theorem forall_isDeployed_iff {D : List Address} (h : Registered host D s) :
    (∀ a, isDeployedAuction s a = true ↔ a ∈ D) ↔ D.length ≤ maxTrackedAuctions := by
  simp only [isDeployedAuction_iff h]
  constructor
  · intro hall
    by_contra hlt
    rw [not_le] at hlt
    -- the first auction that is not in the list
    have hmem := (hall D[maxTrackedAuctions]).mpr (List.getElem_mem hlt)
    obtain ⟨i, hi, heq⟩ := List.mem_iff_getElem.mp hmem
    rw [List.length_take] at hi
    rw [List.getElem_take] at heq
    have hi' := (h.nodup.getElem_inj_iff).mp heq
    omega
  · intro hle a
    rw [List.take_of_length_le hle]

theorem RegistryAgreement.length_le {D : List Address} (h : RegistryAgreement D s)
    (hs : Registered host D s) : D.length ≤ maxTrackedAuctions :=
  (forall_isDeployed_iff hs).mp h.isDeployed_iff

omit [DecidableEq Address] in
theorem Registered.pagesAgree {D : List Address} (h : Registered host D s) : PagesAgree D s where
  nodup := h.nodup
  pages_prefix := by
    intro limits
    rw [pages_eq_take (getAuctions_eq h), List.drop_zero]
    exact List.take_prefix _ _
  pages_eq := by
    intro limits hlimits hlength
    rw [pages_eq_drop (getAuctions_eq h) ?_ (by omega), List.drop_zero]
    intro n hn
    exact lt_min (hlimits n hn) (by decide)

/-- **The records agree** with what was deployed when the list had room. -/
theorem Registered.agreement {D : List Address} (h : Registered host D s)
    (hle : D.length ≤ maxTrackedAuctions) : RegistryAgreement D s where
  toPagesAgree := h.pagesAgree
  isDeployed_iff := (forall_isDeployed_iff h).mpr hle
  isDeployed_eq := by
    intro a
    rw [Bool.eq_iff_iff, (forall_isDeployed_iff h).mpr hle, getAuctionType, h.auction_iff]

/-- **The registry of the factory**, along every run where no contract disappears. An auction has a
type just when it was deployed, the pages have the auctions in order, and the three ways of asking
agree just when no more than 1000 auctions were deployed. -/
theorem registry_agrees_iff (hhost : Lasting host)
    (h : Run (Step entryPoint) (State.initial world) ls s) :
    (∀ a, (getAuctionType s a).isSome = true ↔ a ∈ deployed ls) ∧ PagesAgree (deployed ls) s ∧
      (RegistryAgreement (deployed ls) s ↔ (deployed ls).length ≤ maxTrackedAuctions) := by
  have hregistered := registered_of_run hhost h
  exact ⟨hregistered.auction_iff, hregistered.pagesAgree,
    fun hagrees => hagrees.length_le hregistered, hregistered.agreement⟩

end Runs

/-! ## A factory with as many auctions as one likes -/

/-- The world counts the contracts, and each is deployed at the next number. -/
def sampleHost : Host ℕ ℕ where
  transfer := fun _ _ _ _ w => some w
  salt := fun _ _ _ _ => .replicate 32 0
  deploy := fun _ _ w => some (w, w + 1)
  initializeAuction := fun _ _ w => some w
  hasContract := fun w a => a < w

theorem lasting_sampleHost : Lasting sampleHost where
  deploy_new := by
    intro salt wasmHash w a w' h
    obtain ⟨rfl, rfl⟩ := Prod.mk.inj (Option.some.inj h)
    exact ⟨lt_irrefl w, Nat.lt_succ_self w⟩
  deploy_keeps := by
    intro salt wasmHash w a w' h b hb
    obtain ⟨rfl, rfl⟩ := Prod.mk.inj (Option.some.inj h)
    exact Nat.lt_succ_of_lt hb
  transfer_keeps := by
    intro token source destination amount w w' h b hb
    obtain rfl := Option.some.inj h
    exact hb
  initialize_keeps := by
    intro a args w w' h b hb
    obtain rfl := Option.some.inj h
    exact hb

/-- Everybody has authorized the call. -/
def sampleEnv : Env sampleHost where
  auth := fun _ => true
  outside := id
  outside_keeps := fun _ _ => id

/-- A factory with a fee. -/
def sampleFee : List (Env sampleHost × Call ℕ) :=
  [(sampleEnv, .initializeFactory [1] 1), (sampleEnv, .configureDeploymentFee [1] 9 1 5)]

/-- A deployment by seller 3. -/
def sampleCreate : Call ℕ := .createDutchAuction 3 4 5 9 100 10 60 (.replicate 32 1)

/-- **Any number of auctions** may be deployed, up to the end of the type of their count. -/
theorem exists_deployed (n : ℕ) (hn : n + 1 < 2 ^ 32) :
    ∃ (ls : List (Event sampleHost)) (s : State ℕ ℕ),
      Run (Step entryPoint) (State.initial 0) ls s ∧ s.deploymentFee.isSome = true ∧
        (deployed ls).length = n := by
  induction n with
  | zero =>
    exact ⟨_, _, run_execute entryPoint (State.initial 0) sampleFee, by decide +kernel,
      by decide +kernel⟩
  | succ n ih =>
    obtain ⟨ls, s, hrun, hfee, hlength⟩ := ih (by omega)
    obtain ⟨fee, hfee⟩ := Option.isSome_iff_exists.mp hfee
    have hcount : s.auctionCount + 1 < 2 ^ 32 := by
      rw [(registered_of_run lasting_sampleHost hrun).count_eq, hlength]
      omega
    obtain ⟨t, hbody⟩ : ∃ t, Returns (createDutchAuction sampleEnv 3 4 5 9 100 10 60
        (.replicate 32 1)) s s.world t :=
      ⟨_, returns_createAuction.mpr
        ⟨fee, s.world, s.world + 1, s.world + 1, hfee, rfl, rfl, rfl, rfl, hcount, rfl⟩⟩
    have hcreate : Returns (entryPoint sampleEnv sampleCreate) s (.deployed s.world) t :=
      returns_entryPoint.mpr (returns_map.mpr ⟨_, hbody, rfl⟩)
    have hstep : Step entryPoint s ⟨sampleEnv, sampleCreate, .ok (.deployed s.world)⟩ t :=
      invoke_eq_ok.mpr hcreate
    refine ⟨_, t, hrun.append (.single hstep), ?_, ?_⟩
    · obtain ⟨_, _, _, _, -, -, -, -, -, -, rfl⟩ := returns_createAuction.mp hbody
      exact hfee ▸ rfl
    · rw [deployed_concat, List.length_append, hlength]
      rfl

/-- Three auctions. -/
theorem registry_agrees_sample :
    ∃ (ls : List (Event sampleHost)) (s : State ℕ ℕ),
      Run (Step entryPoint) (State.initial 0) ls s ∧ (deployed ls).length = 3 ∧
        RegistryAgreement (deployed ls) s := by
  obtain ⟨ls, s, hrun, -, hlength⟩ := exists_deployed 3 (by decide)
  refine ⟨ls, s, hrun, hlength, (registry_agrees_iff lasting_sampleHost hrun).2.2.mpr ?_⟩
  rw [hlength]
  decide

/-- After 1001 deployments the factory does not know the last auction as its own. -/
theorem registry_disagrees :
    ¬ ∀ (ls : List (Event sampleHost)) (s : State ℕ ℕ),
      Run (Step entryPoint) (State.initial 0) ls s → RegistryAgreement (deployed ls) s := by
  intro h
  obtain ⟨ls, s, hrun, -, hlength⟩ := exists_deployed 1001 (by decide)
  have hle := (h ls s hrun).length_le (registered_of_run lasting_sampleHost hrun)
  rw [hlength] at hle
  exact absurd hle (by decide)

end AuctionFactory
