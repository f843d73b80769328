import SkyMoonScope.EmergencyGuard.Entrypoints
import SkyMoonScope.Lib.Bytes
import SkyMoonScope.Soroban.Calls
import Mathlib.Data.Sym.Sym2
import Mathlib.Logic.Function.Basic

/-!
# The factory of liquidity pools

The contract of `contracts/factory/src/lib.rs`. Anybody may have a pool deployed for two tokens that
have none yet, unless the built-in guard has paused it; the factory finds the pool by its tokens in
either order, and lists all pools. Events and the lifetime of the storage are left out.

## Main definitions

* `State`: the entries of the contract, and of the world around it
* `Host`, `Env`: what the host does for the contract, and what a call takes from its surroundings
* `createPair`, `registerInstance`: a pool is deployed, initialised and recorded
* `getPair`, `getAllInstances`: what can be asked about the pools
* `Call`, `entryPoint`: a call of the contract, and its body
* `created ls`: the pairs of tokens whose pools the calls have deployed
* `Registered host D s`: what is stored for these
* `Reopens env s call`: the call lifts the pause of new pairs

## Main results

* `returns_createPair`: what a deployment has gone through, and what it writes
* `pools_registered_of_run`: the records agree with the deployments
* `reopened_of_created`: a pool deployed after a pause comes after a call that has lifted it
-/

namespace LiquidityPoolFactory

open Soroban Machine Function

inductive Error
  | alreadyInitialized
  | notInitialized
  | unauthorized
  | paused
  | pairAlreadyExists
  | invalidThreshold
deriving DecidableEq

/-- The entry points return one kind of error or the other. -/
inductive EntryError
  | factory (e : Error)
  | guard (e : EmergencyGuard.GuardError)
deriving DecidableEq

def mapGuardErr : EmergencyGuard.GuardError → Error
  | .alreadyInitialized => .alreadyInitialized
  | .invalidThreshold => .invalidThreshold
  | .notInitialized => .notInitialized
  | .insufficientSignatures => .unauthorized
  | .unauthorized => .unauthorized
  | .adminNotFound => .unauthorized
  | .paused => .paused
  | .tooManyGuardians => .unauthorized
  | .guardianNotFound => .unauthorized

structure InstanceRecord (Address : Type) where
  creator : Address
  createdAt : ℕ

/-- The entries of the contract, by the keys of `DataKey`, with those of the guard, and the world
around it. A list that is not stored reads as empty. -/
structure State (Address World : Type) where
  admin : Option Address
  pair : Address × Address → Option Address
  instanceRecord : Address → Option (InstanceRecord Address)
  creator : Address → Option Address
  allInstances : List Address
  guard : EmergencyGuard.State Address
  world : World

/-- The storage before the first call. -/
def State.initial {Address World : Type} (world : World) : State Address World where
  admin := none
  pair := fun _ => none
  instanceRecord := fun _ => none
  creator := fun _ => none
  allInstances := []
  guard := EmergencyGuard.State.initial Address
  world := world

/-- What the host does for the contract: its own address, the hash that the pool of two tokens is
salted with, the deployment of a contract and its first call; and whether there is a contract at an
address. The first call finds the storage of the factory closed, as no contract is entered again
before it has returned. -/
structure Host (Address World : Type) where
  currentContractAddress : Address
  salt : Address → Address → BytesN 32
  deploy : BytesN 32 → BytesN 32 → World → Option (Address × World)
  initializePool : Address → Address → Address → Address → World → Option World
  hasContract : World → Address → Prop

/-- A contract is deployed only where there is none, and no contract disappears. -/
structure Lasting {Address World : Type} (host : Host Address World) : Prop where
  deploy_new : ∀ {salt wasmHash w a w'}, host.deploy salt wasmHash w = some (a, w') →
    ¬host.hasContract w a ∧ host.hasContract w' a
  deploy_keeps : ∀ {salt wasmHash w a w'}, host.deploy salt wasmHash w = some (a, w') →
    ∀ b, host.hasContract w b → host.hasContract w' b
  initialize_keeps : ∀ {a factory token0 token1 w w'},
    host.initializePool a factory token0 token1 w = some w' →
      ∀ b, host.hasContract w b → host.hasContract w' b

/-- What a call takes from its surroundings: who has authorized it, the time of the ledger, and what
became of the world since the call before, where no contract has disappeared. -/
structure Env {Address World : Type} (host : Host Address World) where
  auth : Address → Bool
  timestamp : ℕ
  outside : World → World
  outside_keeps : ∀ w b, host.hasContract w b → host.hasContract (outside w) b

/-- `PauseType::CREATE_PAIR`. -/
def createPairOperation : UInt32 := (1 : UInt32) <<< 6

variable {Address World : Type}

abbrev Body (Address World α : Type) := Contract (State Address World) EntryError α

/-- The key of a pair of tokens has the smaller one first. -/
def sortTokens [LinearOrder Address] (tokenA tokenB : Address) : Address × Address :=
  if tokenA < tokenB then (tokenA, tokenB) else (tokenB, tokenA)

section Functions

variable [LinearOrder Address] {host : Host Address World} (env : Env host)

/-- A function of the built-in guard, whose errors are handed on by `err`. -/
def onGuard {α : Type} (err : EmergencyGuard.GuardError → EntryError)
    (x : EmergencyGuard.Body Address α) : Body Address World α :=
  zoom State.guard (fun s g => { s with guard := g }) err x

omit [LinearOrder Address] in
/-- `initialize`: the admin is the first admin of the guard and its guardian. -/
def initializeFactory (admin : Address) : Body Address World Unit := do
  let s ← get
  require s.admin.isNone (.error (.factory .alreadyInitialized))
  set { s with admin := some admin }
  onGuard (fun _ => .factory .unauthorized) (EmergencyGuard.initializeGuard [admin] 1 admin)

omit [LinearOrder Address] in
/-- The first admin becomes the guardian. -/
def initializeGuard (admins : List Address) (threshold : ℕ) : Body Address World Unit := do
  let guardian ← orFault admins.head? (.trap "called `Option::unwrap()` on a `None` value")
  onGuard .guard (EmergencyGuard.initializeGuard admins threshold guardian)

def addGuardAdmin (approvers : List Address) (newAdmin : Address) : Body Address World Unit :=
  onGuard .guard (EmergencyGuard.addAdmin env.auth approvers newAdmin)

def removeGuardAdmin (approvers : List Address) (admin : Address) : Body Address World Unit :=
  onGuard .guard (EmergencyGuard.removeAdmin env.auth approvers admin)

def setGuardPause (admin : Address) (operation : UInt32) (paused : Bool) :
    Body Address World Unit :=
  onGuard .guard (EmergencyGuard.setPause env.auth admin operation paused)

def guardUnpause (admin : Address) (operation : UInt32) : Body Address World Unit :=
  onGuard (fun e => .factory (mapGuardErr e))
    (EmergencyGuard.setPause env.auth admin operation false)

def emergencyPause (approvers : List Address) : Body Address World Unit :=
  onGuard (fun e => .factory (mapGuardErr e)) (EmergencyGuard.emergencyPause env.auth approvers)

def resumeGuard (approvers : List Address) : Body Address World Unit :=
  onGuard .guard (EmergencyGuard.resume env.auth approvers)

def registerInstance (instanceAddress creator : Address) : Body Address World Unit := do
  let s ← get
  set { s with
    instanceRecord := update s.instanceRecord instanceAddress (some ⟨creator, env.timestamp⟩)
    creator := update s.creator instanceAddress (some creator)
    allInstances := s.allInstances ++ [instanceAddress] }

def createPair (tokenA tokenB : Address) (wasmHash : BytesN 32) : Body Address World Address := do
  let s ← get
  require (¬EmergencyGuard.isPaused s.guard createPairOperation) (.error (.factory .paused))
  let (token0, token1) := sortTokens tokenA tokenB
  require (s.pair (token0, token1)).isNone (.error (.factory .pairAlreadyExists))
  let (deployedAddress, world) ← orFault (host.deploy (host.salt token0 token1) wasmHash s.world)
    (.trap "Error(Storage, ExistingValue)")
  let world ← orFault (host.initializePool deployedAddress host.currentContractAddress token0 token1
    world) (.trap "Error(Contract)")
  set { s with world, pair := update s.pair (token0, token1) (some deployedAddress) }
  registerInstance env deployedAddress host.currentContractAddress
  pure deployedAddress

end Functions

/-! ## What can be asked about the pools -/

def getPair [LinearOrder Address] (s : State Address World) (tokenA tokenB : Address) :
    Option Address :=
  let (token0, token1) := sortTokens tokenA tokenB
  s.pair (token0, token1)

def getAllInstances (s : State Address World) : List Address := s.allInstances

structure MultisigConfig (Address : Type) where
  admins : List Address
  threshold : ℕ

def getMultisigConfig (s : State Address World) : MultisigConfig Address where
  admins := EmergencyGuard.getAdmins s.guard
  threshold := EmergencyGuard.getThreshold s.guard

/-! ## Calls -/

inductive Call (Address : Type)
  | initializeFactory (admin : Address)
  | initializeGuard (admins : List Address) (threshold : ℕ)
  | addGuardAdmin (approvers : List Address) (newAdmin : Address)
  | removeGuardAdmin (approvers : List Address) (admin : Address)
  | setGuardPause (admin : Address) (operation : UInt32) (paused : Bool)
  | guardUnpause (admin : Address) (operation : UInt32)
  | emergencyPause (approvers : List Address)
  | resumeGuard (approvers : List Address)
  | createPair (tokenA tokenB : Address) (wasmHash : BytesN 32)

/-- What a call returns. -/
inductive Response (Address : Type)
  | unit
  | deployed (a : Address)

section Dispatch

variable [LinearOrder Address] {host : Host Address World}

/-- The body of the called entry point. -/
def body (env : Env host) : Call Address → Body Address World (Response Address)
  | .initializeFactory admin => (fun _ => .unit) <$> initializeFactory admin
  | .initializeGuard admins threshold => (fun _ => .unit) <$> initializeGuard admins threshold
  | .addGuardAdmin approvers newAdmin => (fun _ => .unit) <$> addGuardAdmin env approvers newAdmin
  | .removeGuardAdmin approvers admin => (fun _ => .unit) <$> removeGuardAdmin env approvers admin
  | .setGuardPause admin operation paused =>
    (fun _ => .unit) <$> setGuardPause env admin operation paused
  | .guardUnpause admin operation => (fun _ => .unit) <$> guardUnpause env admin operation
  | .emergencyPause approvers => (fun _ => .unit) <$> emergencyPause env approvers
  | .resumeGuard approvers => (fun _ => .unit) <$> resumeGuard env approvers
  | .createPair tokenA tokenB wasmHash => .deployed <$> createPair env tokenA tokenB wasmHash

/-- A call, which finds the world as it is by then. -/
def entryPoint (env : Env host) (call : Call Address) :
    Body Address World (Response Address) := do
  let s ← get
  set { s with world := env.outside s.world }
  body env call

end Dispatch

/-- A call of the contract with what it returned. -/
abbrev Event {Address World : Type} (host : Host Address World) :=
  Soroban.Event (Env host) (Call Address) EntryError (Response Address)

/-! ## What the entry points check and write -/

section Spec

variable [LinearOrder Address] {host : Host Address World} {env : Env host}
  {s t : State Address World} {tokenA tokenB : Address}

omit [LinearOrder Address] in
theorem returns_onGuard {α : Type} {v : α} {err : EmergencyGuard.GuardError → EntryError}
    {x : EmergencyGuard.Body Address α} :
    Returns (onGuard err x) s v t ↔ ∃ g, Returns x s.guard v g ∧ { s with guard := g } = t :=
  returns_zoom

/-- The key of a pair of tokens does not depend on their order. -/
theorem sortTokens_eq_iff {tokenC tokenD : Address} :
    sortTokens tokenA tokenB = sortTokens tokenC tokenD ↔
      s(tokenA, tokenB) = s(tokenC, tokenD) := by
  rw [Sym2.eq_iff, sortTokens, sortTokens]
  split_ifs with hab hcd hcd
  · rw [Prod.mk.injEq]
    constructor
    · exact .inl
    · rintro (h | ⟨rfl, rfl⟩)
      · exact h
      · exact absurd hab hcd.not_gt
  · rw [Prod.mk.injEq]
    constructor
    · exact fun h => .inr ⟨h.1, h.2⟩
    · rintro (⟨rfl, rfl⟩ | h)
      · exact absurd hab hcd
      · exact h
  · rw [Prod.mk.injEq]
    constructor
    · exact fun h => .inr ⟨h.2, h.1⟩
    · rintro (⟨rfl, rfl⟩ | ⟨rfl, rfl⟩)
      · exact absurd hcd hab
      · exact ⟨rfl, rfl⟩
  · rw [Prod.mk.injEq]
    constructor
    · exact fun h => .inl ⟨h.2, h.1⟩
    · rintro (⟨rfl, rfl⟩ | ⟨rfl, rfl⟩)
      · exact ⟨rfl, rfl⟩
      · exact ⟨le_antisymm (not_lt.mp hab) (not_lt.mp hcd),
          le_antisymm (not_lt.mp hcd) (not_lt.mp hab)⟩

/-- **A deployment** finds no pool for the tokens, deploys and initialises one and records it. -/
theorem returns_createPair {wasmHash : BytesN 32} {a : Address} :
    Returns (createPair env tokenA tokenB wasmHash) s a t ↔
      ∃ world₁ world₂, EmergencyGuard.isPaused s.guard createPairOperation = false ∧
        getPair s tokenA tokenB = none ∧
        host.deploy (host.salt (sortTokens tokenA tokenB).1 (sortTokens tokenA tokenB).2) wasmHash
          s.world = some (a, world₁) ∧
        host.initializePool a host.currentContractAddress (sortTokens tokenA tokenB).1
          (sortTokens tokenA tokenB).2 world₁ = some world₂ ∧
        t = { s with
          pair := update s.pair (sortTokens tokenA tokenB) (some a)
          instanceRecord :=
            update s.instanceRecord a (some ⟨host.currentContractAddress, env.timestamp⟩)
          creator := update s.creator a (some host.currentContractAddress)
          allInstances := s.allInstances ++ [a]
          world := world₂ } := by
  simp only [createPair, registerInstance, getPair, bind_assoc, returns_get_bind,
    returns_require_bind, returns_orFault_bind, returns_set_bind, returns_pure,
    Option.isNone_iff_eq_none, Bool.not_eq_true]
  constructor
  · rintro ⟨hpaused, hnone, ⟨a', world₁⟩, hdeploy, world₂, hinitialize, rfl, rfl⟩
    exact ⟨world₁, world₂, hpaused, hnone, hdeploy, hinitialize, rfl⟩
  · rintro ⟨world₁, world₂, hpaused, hnone, hdeploy, hinitialize, rfl⟩
    exact ⟨hpaused, hnone, ⟨a, world₁⟩, hdeploy, world₂, hinitialize, rfl, rfl⟩

/-- What a call has the built-in guard do. -/
def guardBody (env : Env host) : Call Address → Option (EmergencyGuard.Body Address Unit)
  | .initializeFactory admin => some (EmergencyGuard.initializeGuard [admin] 1 admin)
  | .initializeGuard admins threshold =>
    admins.head?.map fun guardian => EmergencyGuard.initializeGuard admins threshold guardian
  | .addGuardAdmin approvers newAdmin => some (EmergencyGuard.addAdmin env.auth approvers newAdmin)
  | .removeGuardAdmin approvers admin => some (EmergencyGuard.removeAdmin env.auth approvers admin)
  | .setGuardPause admin operation paused =>
    some (EmergencyGuard.setPause env.auth admin operation paused)
  | .guardUnpause admin operation => some (EmergencyGuard.setPause env.auth admin operation false)
  | .emergencyPause approvers => some (EmergencyGuard.emergencyPause env.auth approvers)
  | .resumeGuard approvers => some (EmergencyGuard.resume env.auth approvers)
  | .createPair _ _ _ => none

/-- A call that returns has deployed a pool, or has had the guard do something. -/
theorem returns_entryPoint_cases {call : Call Address} {r : Response Address}
    (h : Returns (entryPoint env call) s r t) :
    (∃ tokenA tokenB wasmHash a, call = .createPair tokenA tokenB wasmHash ∧ r = .deployed a ∧
      Returns (createPair env tokenA tokenB wasmHash) { s with world := env.outside s.world } a t) ∨
    ∃ x admin g, guardBody env call = some x ∧ Returns x s.guard () g ∧ r = .unit ∧
      t = { s with admin, guard := g, world := env.outside s.world } := by
  rw [entryPoint, returns_get_bind, returns_set_bind] at h
  -- most calls hand a function of the guard on
  have hguard : ∀ {err : EmergencyGuard.GuardError → EntryError}
      {x : EmergencyGuard.Body Address Unit}, guardBody env call = some x →
      Returns ((fun _ => Response.unit) <$> onGuard err x)
        { s with world := env.outside s.world } r t →
      ∃ x admin g, guardBody env call = some x ∧ Returns x s.guard () g ∧ r = .unit ∧
        t = { s with admin, guard := g, world := env.outside s.world } := by
    intro err x hx h
    obtain ⟨_, hreturns, rfl⟩ := returns_map.mp h
    obtain ⟨g, hg, rfl⟩ := returns_onGuard.mp hreturns
    exact ⟨x, s.admin, g, hx, hg, rfl, rfl⟩
  cases call with
  | initializeFactory admin =>
    obtain ⟨_, hreturns, rfl⟩ := returns_map.mp h
    rw [initializeFactory, returns_get_bind, returns_require_bind, returns_set_bind,
      returns_onGuard] at hreturns
    obtain ⟨-, g, hg, rfl⟩ := hreturns
    exact .inr ⟨_, some admin, g, rfl, hg, rfl, rfl⟩
  | initializeGuard admins threshold =>
    obtain ⟨_, hreturns, rfl⟩ := returns_map.mp h
    rw [initializeGuard, returns_orFault_bind] at hreturns
    obtain ⟨guardian, hguardian, hreturns⟩ := hreturns
    refine .inr (hguard ?_ (returns_map.mpr ⟨_, hreturns, rfl⟩))
    rw [guardBody, hguardian, Option.map_some]
  | addGuardAdmin approvers newAdmin => exact .inr (hguard rfl h)
  | removeGuardAdmin approvers admin => exact .inr (hguard rfl h)
  | setGuardPause admin operation paused => exact .inr (hguard rfl h)
  | guardUnpause admin operation => exact .inr (hguard rfl h)
  | emergencyPause approvers => exact .inr (hguard rfl h)
  | resumeGuard approvers => exact .inr (hguard rfl h)
  | createPair tokenA tokenB wasmHash =>
    obtain ⟨a, hreturns, rfl⟩ := returns_map.mp h
    exact .inl ⟨tokenA, tokenB, wasmHash, a, rfl, rfl, hreturns⟩

end Spec

/-! ## The records of the pools -/

/-- The tokens, in no order, of a call that has deployed a pool, and the pool. -/
def pairOf {host : Host Address World} (l : Event host) : Option (Sym2 Address × Address) :=
  match l.call, l.result with
  | .createPair tokenA tokenB _, .ok (.deployed a) => some (s(tokenA, tokenB), a)
  | _, _ => none

/-- The tokens whose pools the calls have deployed, with the pools, in order. -/
def created {host : Host Address World} (ls : List (Event host)) : List (Sym2 Address × Address) :=
  ls.filterMap pairOf

/-- The records of the pools: there is at most one for two tokens, they are different contracts, a
pool is found by its tokens in either order, and all of them are listed, with the factory as their
creator. -/
structure Registered [LinearOrder Address] (host : Host Address World)
    (D : List (Sym2 Address × Address)) (s : State Address World) : Prop where
  nodup_pairs : (D.map Prod.fst).Nodup
  nodup_pools : (D.map Prod.snd).Nodup
  exist : ∀ a ∈ D.map Prod.snd, host.hasContract s.world a
  getPair_iff : ∀ tokenA tokenB a,
    getPair s tokenA tokenB = some a ↔ (s(tokenA, tokenB), a) ∈ D
  getAllInstances_eq : getAllInstances s = D.map Prod.snd
  creator_iff : ∀ a c,
    s.creator a = some c ↔ a ∈ D.map Prod.snd ∧ c = host.currentContractAddress
  record_eq : ∀ a, (s.instanceRecord a).map InstanceRecord.creator = s.creator a

section Runs

variable [LinearOrder Address] {host : Host Address World} {env : Env host} {call : Call Address}
  {D : List (Sym2 Address × Address)} {ls : List (Event host)} {l : Event host}
  {s t : State Address World} {r : Response Address} {world : World}

/-- The records do not depend on the admin and the guard, and the pools stay. -/
theorem Registered.congr (h : Registered host D s) {admin : Option Address}
    {g : EmergencyGuard.State Address} {w : World}
    (hworld : ∀ a, host.hasContract s.world a → host.hasContract w a) :
    Registered host D { s with admin, guard := g, world := w } where
  nodup_pairs := h.nodup_pairs
  nodup_pools := h.nodup_pools
  exist := fun a ha => hworld a (h.exist a ha)
  getPair_iff := h.getPair_iff
  getAllInstances_eq := h.getAllInstances_eq
  creator_iff := h.creator_iff
  record_eq := h.record_eq

/-- **A deployment** adds a new pool to the records. -/
theorem Registered.create (hhost : Lasting host) (h : Registered host D s)
    {tokenA tokenB a : Address} {wasmHash : BytesN 32}
    (hcreate : Returns (createPair env tokenA tokenB wasmHash) s a t) :
    Registered host (D ++ [(s(tokenA, tokenB), a)]) t := by
  obtain ⟨world₁, world₂, -, hnone, hdeploy, hinitialize, rfl⟩ := returns_createPair.mp hcreate
  obtain ⟨hnew, hthere⟩ := hhost.deploy_new hdeploy
  have hpool : a ∉ D.map Prod.snd := fun ha => hnew (h.exist a ha)
  have hpair : s(tokenA, tokenB) ∉ D.map Prod.fst := by
    intro hmem
    obtain ⟨⟨_, b⟩, hb, rfl⟩ := List.mem_map.mp hmem
    rw [(h.getPair_iff tokenA tokenB b).mpr hb] at hnone
    cases hnone
  have hpools : (D ++ [(s(tokenA, tokenB), a)]).map Prod.snd = D.map Prod.snd ++ [a] :=
    List.map_append
  refine ⟨?_, ?_, fun b hb => ?_, fun tokenC tokenD b => ?_, ?_, fun b c => ?_, fun b => ?_⟩
  · rw [List.map_append, List.map_singleton, ← List.concat_eq_append]
    exact h.nodup_pairs.concat hpair
  · rw [hpools, ← List.concat_eq_append]
    exact h.nodup_pools.concat hpool
  · rw [hpools] at hb
    apply hhost.initialize_keeps hinitialize
    rcases List.mem_append.mp hb with hb | hb
    · exact hhost.deploy_keeps hdeploy b (h.exist b hb)
    · rwa [List.mem_singleton.mp hb]
  · have hold := h.getPair_iff tokenC tokenD b
    rw [List.mem_append, List.mem_singleton, Prod.mk.injEq]
    show update s.pair (sortTokens tokenA tokenB) (some a) (sortTokens tokenC tokenD) = some b ↔ _
    by_cases hsame : s(tokenC, tokenD) = s(tokenA, tokenB)
    · -- these tokens had no pool before
      rw [sortTokens_eq_iff.mpr hsame, update_self, Option.some.injEq, hsame]
      have hold' : (s(tokenA, tokenB), b) ∉ D := fun hb => hpair (List.mem_map_of_mem hb)
      simp [hold', eq_comm]
    · rw [update_of_ne (fun heq => hsame (sortTokens_eq_iff.mp heq))]
      simp only [hsame, false_and, or_false]
      exact hold
  · rw [hpools, ← h.getAllInstances_eq]
    rfl
  · rw [hpools, List.mem_append, List.mem_singleton]
    by_cases hba : b = a
    · simp [hba, eq_comm]
    · simp [hba, h.creator_iff]
  · by_cases hba : b = a
    · simp [hba]
    · simp [hba, h.record_eq]

omit [LinearOrder Address] in
theorem created_concat : created (ls ++ [l]) = created ls ++ (pairOf l).toList := by
  rw [created, List.filterMap_append]
  cases hl : pairOf l <;> simp [created, hl]

/-- **Every call that returns** keeps the records in line with the deployments. -/
theorem registered_step (hhost : Lasting host) (hs : Registered host (created ls) s)
    (h : Returns (entryPoint env call) s r t) :
    Registered host (created (ls ++ [⟨env, call, .ok r⟩])) t := by
  rw [created_concat]
  rcases returns_entryPoint_cases h with
    ⟨tokenA, tokenB, wasmHash, a, rfl, rfl, hcreate⟩ | ⟨x, admin, g, -, -, rfl, rfl⟩
  · exact (hs.congr (env.outside_keeps s.world)).create hhost hcreate
  · have hnone : pairOf (⟨env, call, .ok .unit⟩ : Event host) = none := by cases call <;> rfl
    rw [hnone, Option.toList_none, List.append_nil]
    exact hs.congr (env.outside_keeps s.world)

/-- **The records of the factory**, along every run where no contract disappears, agree with what
was deployed. -/
theorem pools_registered_of_run (hhost : Lasting host)
    (h : Run (Step entryPoint) (State.initial world) ls s) : Registered host (created ls) s := by
  refine history_of_returns (P := fun _ _ _ => True)
    (J := fun ks u => Registered host (created ks) u) ?_ ?_ (run_unconditional h) ?_
  · intro ks env call u v w hu hreturns _
    exact registered_step hhost hu hreturns
  · intro ks env call u fault hu
    have hnone : pairOf (⟨env, call, .error fault⟩ : Event host) = none := by cases call <;> rfl
    rw [created_concat, hnone, Option.toList_none, List.append_nil]
    exact hu
  · exact ⟨List.nodup_nil, List.nodup_nil, fun a ha => (by cases ha),
      fun tokenA tokenB a => by simp [getPair, State.initial, created], rfl,
      fun a c => by simp [State.initial, created], fun a => rfl⟩

end Runs

/-! ## Pauses -/

/-- The call pauses new pairs, maybe with other operations. -/
def Pauses : Call Address → Prop
  | .emergencyPause _ => True
  | .setGuardPause _ operation paused =>
    paused = true ∧ EmergencyGuard.PauseType.isPaused operation createPairOperation = true
  | _ => False

/-- The call lifts the pause of new pairs: at least as many admins as the threshold of the guard
have authorized it, or one of them where it names the operation. -/
def Reopens {host : Host Address World} [DecidableEq Address] (env : Env host)
    (g : EmergencyGuard.State Address) : Call Address → Prop
  | .resumeGuard approvers =>
    EmergencyGuard.Approves env.auth g (EmergencyGuard.getAdmins g) approvers
  | .setGuardPause admin operation paused =>
    paused = false ∧ EmergencyGuard.PauseType.isPaused operation createPairOperation = true ∧
      env.auth admin = true ∧ admin ∈ EmergencyGuard.getAdmins g
  | .guardUnpause admin operation =>
    EmergencyGuard.PauseType.isPaused operation createPairOperation = true ∧
      env.auth admin = true ∧ admin ∈ EmergencyGuard.getAdmins g
  | _ => False

/-- New pairs are paused, and there are admins, so that the guard is not initialised again. -/
structure Closed (g : EmergencyGuard.State Address) : Prop where
  isPaused : EmergencyGuard.isPaused g createPairOperation = true
  admins_ne_none : g.admins ≠ none

theorem isPaused_all :
    EmergencyGuard.PauseType.isPaused EmergencyGuard.PauseType.all createPairOperation = true := by
  decide

section Pauses

variable [LinearOrder Address] {host : Host Address World} {env : Env host} {call : Call Address}
  {g g' : EmergencyGuard.State Address} {x : EmergencyGuard.Body Address Unit}
  {s t : State Address World} {world : World} {ks ms : List (Event host)}

/-- **Every call of the guard** keeps new pairs paused, or has lifted the pause. -/
theorem closed_step (hg : Closed g) (hx : guardBody env call = some x) (h : Returns x g () g') :
    Closed g' ∨ Reopens env g call := by
  obtain ⟨hpaused, hadmins⟩ := hg
  -- what a call that names an operation does to the mask
  have hset : ∀ {admin : Address} {operation : UInt32} {paused : Bool},
      Returns (EmergencyGuard.setPause env.auth admin operation paused) g () g' →
      Closed g' ∨ paused = false ∧
        EmergencyGuard.PauseType.isPaused operation createPairOperation = true ∧
        env.auth admin = true ∧ admin ∈ EmergencyGuard.getAdmins g := by
    intro admin operation paused h
    obtain ⟨⟨hauth, hadmin⟩, rfl⟩ := EmergencyGuard.returns_setPause.mp h
    cases paused with
    | true =>
      refine .inl ⟨(EmergencyGuard.isPaused_setPaused_true _ _ _).trans ?_, hadmins⟩
      exact Bool.or_eq_true_iff.mpr (.inl hpaused)
    | false =>
      cases hop : EmergencyGuard.PauseType.isPaused operation createPairOperation with
      | true => exact .inr ⟨rfl, rfl, hauth, hadmin⟩
      | false => exact .inl ⟨(EmergencyGuard.isPaused_setPaused_false hop).trans hpaused, hadmins⟩
  cases call with
  | initializeFactory admin =>
    obtain rfl := Option.some.inj hx
    exact absurd (EmergencyGuard.returns_initializeGuard.mp h).1.1 hadmins
  | initializeGuard admins threshold =>
    obtain ⟨guardian, -, rfl⟩ := Option.map_eq_some_iff.mp hx
    exact absurd (EmergencyGuard.returns_initializeGuard.mp h).1.1 hadmins
  | addGuardAdmin approvers newAdmin =>
    obtain rfl := Option.some.inj hx
    obtain ⟨-, rfl⟩ := EmergencyGuard.returns_addAdmin.mp h
    split
    · exact .inl ⟨hpaused, hadmins⟩
    · exact .inl ⟨hpaused, Option.some_ne_none _⟩
  | removeGuardAdmin approvers admin =>
    obtain rfl := Option.some.inj hx
    obtain ⟨-, rfl⟩ := EmergencyGuard.returns_removeAdmin.mp h
    exact .inl ⟨hpaused, Option.some_ne_none _⟩
  | setGuardPause admin operation paused =>
    obtain rfl := Option.some.inj hx
    exact hset h
  | guardUnpause admin operation =>
    obtain rfl := Option.some.inj hx
    exact (hset h).imp_right And.right
  | emergencyPause approvers =>
    obtain rfl := Option.some.inj hx
    obtain ⟨-, rfl⟩ := EmergencyGuard.returns_emergencyPause.mp h
    exact .inl ⟨isPaused_all, hadmins⟩
  | resumeGuard approvers =>
    obtain rfl := Option.some.inj hx
    exact .inr (EmergencyGuard.returns_resume.mp h).1
  | createPair tokenA tokenB wasmHash => cases hx

/-- The threshold of the guard is stored with its admins, who are never removed as a whole. -/
theorem admins_ne_none_step (hg : g.signatureThreshold ≠ none → g.admins ≠ none)
    (hx : guardBody env call = some x) (h : Returns x g () g') :
    g'.signatureThreshold ≠ none → g'.admins ≠ none := by
  cases call with
  | initializeFactory admin =>
    obtain rfl := Option.some.inj hx
    obtain ⟨-, rfl⟩ := EmergencyGuard.returns_initializeGuard.mp h
    exact fun _ => Option.some_ne_none _
  | initializeGuard admins threshold =>
    obtain ⟨guardian, -, rfl⟩ := Option.map_eq_some_iff.mp hx
    obtain ⟨-, rfl⟩ := EmergencyGuard.returns_initializeGuard.mp h
    exact fun _ => Option.some_ne_none _
  | addGuardAdmin approvers newAdmin =>
    obtain rfl := Option.some.inj hx
    obtain ⟨-, rfl⟩ := EmergencyGuard.returns_addAdmin.mp h
    split
    · exact hg
    · exact fun _ => Option.some_ne_none _
  | removeGuardAdmin approvers admin =>
    obtain rfl := Option.some.inj hx
    obtain ⟨-, rfl⟩ := EmergencyGuard.returns_removeAdmin.mp h
    exact fun _ => Option.some_ne_none _
  | setGuardPause admin operation paused =>
    obtain rfl := Option.some.inj hx
    obtain ⟨-, rfl⟩ := EmergencyGuard.returns_setPause.mp h
    exact hg
  | guardUnpause admin operation =>
    obtain rfl := Option.some.inj hx
    obtain ⟨-, rfl⟩ := EmergencyGuard.returns_setPause.mp h
    exact hg
  | emergencyPause approvers =>
    obtain rfl := Option.some.inj hx
    obtain ⟨-, rfl⟩ := EmergencyGuard.returns_emergencyPause.mp h
    exact hg
  | resumeGuard approvers =>
    obtain rfl := Option.some.inj hx
    obtain ⟨-, rfl⟩ := EmergencyGuard.returns_resume.mp h
    exact hg
  | createPair tokenA tokenB wasmHash => cases hx

theorem admins_ne_none_of_run (h : Run (Step entryPoint) (State.initial world) ks s) :
    s.guard.signatureThreshold ≠ none → s.guard.admins ≠ none := by
  refine invariant_of_returns (P := fun _ _ _ => True)
    (I := fun u : State Address World => u.guard.signatureThreshold ≠ none → u.guard.admins ≠ none)
    ?_ (run_unconditional h) fun hnone => absurd rfl hnone
  intro env call u v w hu hreturns _
  rcases returns_entryPoint_cases hreturns with
    ⟨tokenA, tokenB, wasmHash, a, -, -, hcreate⟩ | ⟨x, admin, g, hx, hg, -, rfl⟩
  · obtain ⟨world₁, world₂, -, -, -, -, rfl⟩ := returns_createPair.mp hcreate
    exact hu
  · exact admins_ne_none_step hu hx hg

/-- A pause leaves new pairs paused. -/
theorem closed_of_pauses (hg : g.signatureThreshold ≠ none → g.admins ≠ none)
    (hpauses : Pauses call) (hx : guardBody env call = some x) (h : Returns x g () g') :
    Closed g' := by
  cases call with
  | emergencyPause approvers =>
    obtain rfl := Option.some.inj hx
    obtain ⟨⟨⟨threshold, hthreshold, -⟩, -⟩, rfl⟩ := EmergencyGuard.returns_emergencyPause.mp h
    exact ⟨isPaused_all, hg (by rw [hthreshold]; exact Option.some_ne_none _)⟩
  | setGuardPause admin operation paused =>
    obtain rfl := Option.some.inj hx
    obtain ⟨rfl, hop⟩ := hpauses
    obtain ⟨⟨-, hadmin⟩, rfl⟩ := EmergencyGuard.returns_setPause.mp h
    refine ⟨(EmergencyGuard.isPaused_setPaused_true _ _ _).trans ?_, ?_⟩
    · exact Bool.or_eq_true_iff.mpr (.inr hop)
    · intro hnone
      rw [EmergencyGuard.getAdmins, hnone] at hadmin
      cases hadmin
  | initializeFactory _ => cases hpauses
  | initializeGuard _ _ => cases hpauses
  | addGuardAdmin _ _ => cases hpauses
  | removeGuardAdmin _ _ => cases hpauses
  | guardUnpause _ _ => cases hpauses
  | resumeGuard _ => cases hpauses
  | createPair _ _ _ => cases hpauses

/-- While new pairs are paused no pool is deployed, until a call lifts the pause. -/
theorem reopened_of_run (h : Run (Step entryPoint) s ms t) (hs : Closed s.guard)
    (hcreated : created ms ≠ []) :
    ∃ ms₁ l ms₂ u, ms = ms₁ ++ l :: ms₂ ∧ created ms₁ = [] ∧ Run (Step entryPoint) s ms₁ u ∧
      l.result = .ok .unit ∧ Reopens l.host u.guard l.call := by
  induction h with
  | nil => exact absurd rfl hcreated
  | @cons s t v l ms hl hms ih =>
    -- a call that deploys nothing and lifts no pause comes before the one that is looked for
    have hnext : Closed t.guard → pairOf l = none →
        ∃ ms₁ l' ms₂ u, l :: ms = ms₁ ++ l' :: ms₂ ∧ created ms₁ = [] ∧
          Run (Step entryPoint) s ms₁ u ∧ l'.result = .ok .unit ∧
          Reopens l'.host u.guard l'.call := by
      intro ht hnone
      rw [created, List.filterMap_cons_none hnone] at hcreated
      obtain ⟨ms₁, l', ms₂, u, rfl, hms₁, hrun, hok, hreopens⟩ := ih ht hcreated
      refine ⟨l :: ms₁, l', ms₂, u, rfl, ?_, .cons hl hrun, hok, hreopens⟩
      rw [created, List.filterMap_cons_none hnone]
      exact hms₁
    rcases hl.cases with ⟨r, hr, hreturns⟩ | ⟨⟨fault, hfault⟩, rfl⟩
    · rcases returns_entryPoint_cases hreturns with
        ⟨tokenA, tokenB, wasmHash, a, -, -, hcreate⟩ | ⟨x, admin, g, hx, hg, rfl, rfl⟩
      · obtain ⟨_, _, hopen, -⟩ := returns_createPair.mp hcreate
        exact absurd hs.isPaused (by simp only [hopen, Bool.false_eq_true, not_false_eq_true])
      · rcases closed_step hs hx hg with hclosed | hreopens
        · refine hnext hclosed ?_
          unfold pairOf
          rw [hr]
          cases l.call <;> rfl
        · exact ⟨[], l, ms, s, rfl, rfl, .nil s, hr, hreopens⟩
    · refine hnext hs ?_
      unfold pairOf
      rw [hfault]
      cases l.call <;> rfl

/-- **After a pause** no pool is deployed before the pause is lifted, by an admin who has authorized
the call or by as many of them as the threshold asks for. -/
theorem reopened_of_created {pause : Event host}
    (h : Run (Step entryPoint) (State.initial world) (ks ++ pause :: ms) s)
    (hpauses : Pauses pause.call) (hok : pause.result = .ok .unit) (hcreated : created ms ≠ []) :
    ∃ ms₁ l ms₂ u, ms = ms₁ ++ l :: ms₂ ∧ created ms₁ = [] ∧
      Run (Step entryPoint) (State.initial world) (ks ++ pause :: ms₁) u ∧
      l.result = .ok .unit ∧ Reopens l.host u.guard l.call := by
  obtain ⟨v, hks, hrest⟩ := h.of_append
  obtain ⟨w, hpause, hms⟩ := hrest.of_cons
  have hclosed : Closed w.guard := by
    rcases hpause.cases with ⟨r, hr, hreturns⟩ | ⟨⟨fault, hfault⟩, -⟩
    · rcases returns_entryPoint_cases hreturns with
        ⟨tokenA, tokenB, wasmHash, a, -, rfl, -⟩ | ⟨x, admin, g, hx, hg, -, rfl⟩
      · rw [hok] at hr
        cases hr
      · exact closed_of_pauses (admins_ne_none_of_run hks) hpauses hx hg
    · rw [hok] at hfault
      cases hfault
  obtain ⟨ms₁, l, ms₂, u, rfl, hms₁, hrun, hl, hreopens⟩ := reopened_of_run hms hclosed hcreated
  exact ⟨ms₁, l, ms₂, u, rfl, hms₁, hks.append (.cons hpause hrun), hl, hreopens⟩

end Pauses

/-! ## A factory that is paused and resumed -/

/-- The world counts the contracts, and each is deployed at the next number. The factory is the
first of them. -/
def sampleHost : Host ℕ ℕ where
  currentContractAddress := 0
  salt := fun _ _ => .replicate 32 0
  deploy := fun _ _ w => some (w, w + 1)
  initializePool := fun _ _ _ _ w => some w
  hasContract := fun w a => a < w

theorem lasting_sampleHost : Lasting sampleHost where
  deploy_new := by
    intro salt wasmHash w a w' h
    obtain ⟨rfl, rfl⟩ := Prod.mk.inj (Option.some.inj h)
    exact ⟨lt_irrefl w, Nat.lt_succ_self w⟩
  deploy_keeps := by
    intro salt wasmHash w a w' h b hb
    obtain ⟨rfl, rfl⟩ := Prod.mk.inj (Option.some.inj h)
    exact Nat.lt_succ_of_lt hb
  initialize_keeps := by
    intro a factory token0 token1 w w' h b hb
    obtain rfl := Option.some.inj h
    exact hb

/-- Everybody has authorized the call. -/
def sampleEnv : Env sampleHost where
  auth := fun _ => true
  timestamp := 60
  outside := id
  outside_keeps := fun _ _ => id

def sampleWasm : BytesN 32 := .replicate 32 1

def initializeEvent : Event sampleHost := ⟨sampleEnv, .initializeFactory 1, .ok .unit⟩

def pauseEvent : Event sampleHost := ⟨sampleEnv, .emergencyPause [1], .ok .unit⟩

/-- What comes after the pause: a deployment that fails, the end of the pause, one deployment, and
another one for the same tokens. -/
def resumedEvents : List (Event sampleHost) :=
  [⟨sampleEnv, .createPair 8 7 sampleWasm, .error (.error (.factory .paused))⟩,
    ⟨sampleEnv, .resumeGuard [1], .ok .unit⟩,
    ⟨sampleEnv, .createPair 8 7 sampleWasm, .ok (.deployed 5)⟩,
    ⟨sampleEnv, .createPair 7 8 sampleWasm, .error (.error (.factory .pairAlreadyExists))⟩]

def resumedCalls : List (Env sampleHost × Call ℕ) :=
  ([initializeEvent] ++ pauseEvent :: resumedEvents).map fun l => (l.host, l.call)

theorem run_resumed : Run (Step entryPoint) (State.initial 5)
    ([initializeEvent] ++ pauseEvent :: resumedEvents)
    (execute entryPoint (State.initial 5) resumedCalls).2 :=
  run_execute entryPoint (State.initial 5) resumedCalls

/-- One pool, after two calls that deployed none. -/
theorem pools_registered_of_run_resumed :
    Registered sampleHost (created ([initializeEvent] ++ pauseEvent :: resumedEvents))
      (execute entryPoint (State.initial 5) resumedCalls).2 :=
  pools_registered_of_run lasting_sampleHost run_resumed

/-- The pool was deployed after the admin had ended the pause. -/
theorem reopened_of_created_resumed :
    ∃ ms₁ l ms₂ u, resumedEvents = ms₁ ++ l :: ms₂ ∧ created ms₁ = [] ∧
      Run (Step entryPoint) (State.initial 5) ([initializeEvent] ++ pauseEvent :: ms₁) u ∧
      l.result = .ok .unit ∧ Reopens l.host u.guard l.call :=
  reopened_of_created run_resumed trivial rfl (List.cons_ne_nil (s(8, 7), 5) [])

end LiquidityPoolFactory
