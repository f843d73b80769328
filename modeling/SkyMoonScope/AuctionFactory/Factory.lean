import SkyMoonScope.EmergencyGuard.Entrypoints
import SkyMoonScope.Lib.Bytes
import Mathlib.Logic.Function.Basic

/-!
# The factory of auctions

The contract of `contracts/auction_factory/src/lib.rs`. A seller pays the fee and has an auction
deployed and initialised; the factory records it by its address, by its number and in a list of
bounded length. The admins of the built-in guard set the fee. Events and the lifetime of the storage
are left out.

## Main definitions

* `State`: the entries of the contract, and of the world around it
* `Host`, `Env`: the other contracts, and what a call takes from its surroundings
* `createEnglishAuction`, `createDutchAuction`: the entry points that deploy an auction
* `isDeployedAuction`, `getAuctions`, `getAuctionType`: what can be asked about the auctions
* `Call`, `entryPoint`: a call of the contract, and its body

## Main results

* `returns_createAuction`: what a deployment has gone through, and what it writes
-/

namespace AuctionFactory

open Soroban Function

inductive AuctionType
  | english
  | dutch
deriving DecidableEq

structure DeploymentFee (Address : Type) where
  token : Address
  recipient : Address
  amount : ℤ

inductive FactoryError
  | invalidFee
  | feeNotConfigured
  | unauthorized
deriving DecidableEq

/-- The entry points return one kind of error or the other. -/
inductive Error
  | factory (e : FactoryError)
  | guard (e : EmergencyGuard.GuardError)
deriving DecidableEq

/-- The entries of the contract, with those of the guard, and the world around it. A count that is
not stored reads as zero, and a list as empty. -/
structure State (Address World : Type) where
  auction : Address → Option AuctionType
  auctionByIndex : ℕ → Option Address
  auctionCount : ℕ
  deploymentFee : Option (DeploymentFee Address)
  instances : List Address
  guard : EmergencyGuard.State Address
  world : World

/-- The storage before the first call. -/
def State.initial {Address World : Type} (world : World) : State Address World where
  auction := fun _ => none
  auctionByIndex := fun _ => none
  auctionCount := 0
  deploymentFee := none
  instances := []
  guard := EmergencyGuard.State.initial Address
  world := world

/-- What an auction is initialised with. -/
structure InitArgs (Address : Type) where
  seller : Address
  nftContract : Address
  tokenId : ℤ
  paymentToken : Address
  startPrice : ℤ
  secondPrice : ℤ
  durationLedgers : ℕ

/-- The other contracts: transfers of a token, the hash that a deployment is salted with, the
deployment of a contract and its first call; and whether there is a contract at an address. -/
structure Host (Address World : Type) where
  transfer : Address → Address → Address → ℤ → World → Option World
  salt : Address → Address → ℤ → AuctionType → BytesN 32
  deploy : BytesN 32 → BytesN 32 → World → Option (Address × World)
  initializeAuction : Address → InitArgs Address → World → Option World
  hasContract : World → Address → Prop

/-- A contract is deployed only where there is none, and no contract disappears. -/
structure Lasting {Address World : Type} (host : Host Address World) : Prop where
  deploy_new : ∀ {salt wasmHash w a w'}, host.deploy salt wasmHash w = some (a, w') →
    ¬host.hasContract w a ∧ host.hasContract w' a
  deploy_keeps : ∀ {salt wasmHash w a w'}, host.deploy salt wasmHash w = some (a, w') →
    ∀ b, host.hasContract w b → host.hasContract w' b
  transfer_keeps : ∀ {token source destination amount w w'},
    host.transfer token source destination amount w = some w' →
      ∀ b, host.hasContract w b → host.hasContract w' b
  initialize_keeps : ∀ {a args w w'}, host.initializeAuction a args w = some w' →
    ∀ b, host.hasContract w b → host.hasContract w' b

/-- What a call takes from its surroundings: who has authorized it, and what became of the world
since the call before, where no contract has disappeared. -/
structure Env {Address World : Type} (host : Host Address World) where
  auth : Address → Bool
  outside : World → World
  outside_keeps : ∀ w b, host.hasContract w b → host.hasContract (outside w) b

def maxPageSize : ℕ := 100

/-- The greatest number of deployments in the list. -/
def maxTrackedAuctions : ℕ := 1000

variable {Address World : Type}

abbrev Body (Address World α : Type) := Contract (State Address World) Error α

section Functions

variable [DecidableEq Address] {host : Host Address World} (env : Env host)

/-- A function of the built-in guard. -/
def onGuard {α : Type} (x : EmergencyGuard.Body Address α) : Body Address World α :=
  zoom State.guard (fun s g => { s with guard := g }) .guard x

def collectDeploymentFee (seller : Address) : Body Address World Unit := do
  let s ← get
  let fee ← orFault s.deploymentFee (.error (.factory .feeNotConfigured))
  require (env.auth seller) (.trap "Error(Auth, InvalidAction)")
  let world ← orFault (host.transfer fee.token seller fee.recipient fee.amount s.world)
    (.trap "Error(Contract)")
  set { s with world }

def registerAuction (address : Address) (auctionType : AuctionType) : Body Address World Unit := do
  let s ← get
  let index := s.auctionCount
  require (index + 1 < 2 ^ 32) (.trap "arithmetic operation with overflow")
  set { s with
    auction := update s.auction address (some auctionType)
    auctionByIndex := update s.auctionByIndex index (some address)
    auctionCount := index + 1
    instances :=
      if s.instances.length < maxTrackedAuctions then s.instances ++ [address] else s.instances }

/-- The entry points that deploy an auction do it alike. -/
def createAuction (auctionType : AuctionType) (args : InitArgs Address) (wasmHash : BytesN 32) :
    Body Address World Address := do
  collectDeploymentFee env args.seller
  let s ← get
  let salt := host.salt args.seller args.nftContract args.tokenId auctionType
  let (deployedAddress, world) ← orFault (host.deploy salt wasmHash s.world)
    (.trap "Error(Storage, ExistingValue)")
  let world ← orFault (host.initializeAuction deployedAddress args world) (.trap "Error(Contract)")
  set { s with world }
  registerAuction deployedAddress auctionType
  pure deployedAddress

def createEnglishAuction (seller nftContract : Address) (tokenId : ℤ) (paymentToken : Address)
    (startingPrice reservePrice : ℤ) (durationLedgers : ℕ) (englishWasmHash : BytesN 32) :
    Body Address World Address :=
  createAuction env .english ⟨seller, nftContract, tokenId, paymentToken, startingPrice,
    reservePrice, durationLedgers⟩ englishWasmHash

def createDutchAuction (seller nftContract : Address) (tokenId : ℤ) (paymentToken : Address)
    (startPrice endPrice : ℤ) (durationLedgers : ℕ) (dutchWasmHash : BytesN 32) :
    Body Address World Address :=
  createAuction env .dutch ⟨seller, nftContract, tokenId, paymentToken, startPrice, endPrice,
    durationLedgers⟩ dutchWasmHash

omit [DecidableEq Address] in
/-- The first admin becomes the guardian. -/
def initializeFactory (admins : List Address) (threshold : ℕ) : Body Address World Unit := do
  let guardian ← orFault admins.head? (.error (.guard .invalidThreshold))
  onGuard (EmergencyGuard.initializeGuard admins threshold guardian)

def rotateAdmin (approvers : List Address) (oldAdmin newAdmin : Address) :
    Body Address World Unit :=
  onGuard (EmergencyGuard.rotateAdmin env.auth approvers oldAdmin newAdmin)

def addAdmin (approvers : List Address) (newAdmin : Address) : Body Address World Unit :=
  onGuard (EmergencyGuard.addAdmin env.auth approvers newAdmin)

def removeAdmin (approvers : List Address) (admin : Address) : Body Address World Unit :=
  onGuard (EmergencyGuard.removeAdmin env.auth approvers admin)

/-- The check of the approvers, whose errors become the same one. -/
def configureDeploymentFee (approvers : List Address) (token recipient : Address) (amount : ℤ) :
    Body Address World Unit := do
  require (¬amount ≤ 0) (.error (.factory .invalidFee))
  zoom State.guard (fun s g => { s with guard := g }) (fun _ => .factory .unauthorized)
    (EmergencyGuard.checkMultiSig env.auth approvers)
  let s ← get
  set { s with deploymentFee := some { token, recipient, amount } }

end Functions

/-! ## What can be asked about the auctions -/

def getAuctionType (s : State Address World) (auctionAddress : Address) : Option AuctionType :=
  s.auction auctionAddress

def getAuctionCount (s : State Address World) : ℕ := s.auctionCount

def getAuctionByIndex (s : State Address World) (index : ℕ) : Option Address :=
  s.auctionByIndex index

def isDeployedAuction [DecidableEq Address] (s : State Address World) (auctionAddress : Address) :
    Bool :=
  s.instances.contains auctionAddress

/-- `saturating_add` on `u32` values. -/
def saturatingAdd (x y : ℕ) : ℕ := min (x + y) (2 ^ 32 - 1)

/-- A page of the auctions, read one by one. -/
def getAuctions (s : State Address World) (start limit : ℕ) : List Address :=
  let last := min (saturatingAdd start (min limit maxPageSize)) (getAuctionCount s)
  (List.range' start (last - start)).filterMap (getAuctionByIndex s)

/-! ## Calls -/

inductive Call (Address : Type)
  | initializeFactory (admins : List Address) (threshold : ℕ)
  | rotateAdmin (approvers : List Address) (oldAdmin newAdmin : Address)
  | addAdmin (approvers : List Address) (newAdmin : Address)
  | removeAdmin (approvers : List Address) (admin : Address)
  | configureDeploymentFee (approvers : List Address) (token recipient : Address) (amount : ℤ)
  | createEnglishAuction (seller nftContract : Address) (tokenId : ℤ) (paymentToken : Address)
      (startingPrice reservePrice : ℤ) (durationLedgers : ℕ) (englishWasmHash : BytesN 32)
  | createDutchAuction (seller nftContract : Address) (tokenId : ℤ) (paymentToken : Address)
      (startPrice endPrice : ℤ) (durationLedgers : ℕ) (dutchWasmHash : BytesN 32)

/-- What a call returns. -/
inductive Response (Address : Type)
  | unit
  | deployed (a : Address)

section Dispatch

variable [DecidableEq Address] {host : Host Address World}

/-- The body of the called entry point. -/
def body (env : Env host) : Call Address → Body Address World (Response Address)
  | .initializeFactory admins threshold =>
    (fun _ => .unit) <$> initializeFactory admins threshold
  | .rotateAdmin approvers oldAdmin newAdmin =>
    (fun _ => .unit) <$> rotateAdmin env approvers oldAdmin newAdmin
  | .addAdmin approvers newAdmin => (fun _ => .unit) <$> addAdmin env approvers newAdmin
  | .removeAdmin approvers admin => (fun _ => .unit) <$> removeAdmin env approvers admin
  | .configureDeploymentFee approvers token recipient amount =>
    (fun _ => .unit) <$> configureDeploymentFee env approvers token recipient amount
  | .createEnglishAuction seller nftContract tokenId paymentToken startingPrice reservePrice
      durationLedgers englishWasmHash =>
    .deployed <$> createEnglishAuction env seller nftContract tokenId paymentToken startingPrice
      reservePrice durationLedgers englishWasmHash
  | .createDutchAuction seller nftContract tokenId paymentToken startPrice endPrice
      durationLedgers dutchWasmHash =>
    .deployed <$> createDutchAuction env seller nftContract tokenId paymentToken startPrice
      endPrice durationLedgers dutchWasmHash

/-- A call, which finds the world as it is by then. -/
def entryPoint (env : Env host) (call : Call Address) :
    Body Address World (Response Address) := do
  let s ← get
  set { s with world := env.outside s.world }
  body env call

end Dispatch

/-- A call of the contract with what it returned. -/
abbrev Event {Address World : Type} (host : Host Address World) :=
  Soroban.Event (Env host) (Call Address) Error (Response Address)

/-! ## What the entry points check and write -/

section Spec

variable {host : Host Address World} {env : Env host} {s t : State Address World} {α : Type} {v : α}

theorem returns_onGuard {x : EmergencyGuard.Body Address α} :
    Returns (onGuard x) s v t ↔ ∃ g, Returns x s.guard v g ∧ { s with guard := g } = t :=
  returns_zoom

theorem returns_collectDeploymentFee_bind {seller : Address} {f : Unit → Body Address World α} :
    Returns (collectDeploymentFee env seller >>= f) s v t ↔
      ∃ fee world, s.deploymentFee = some fee ∧ env.auth seller = true ∧
        host.transfer fee.token seller fee.recipient fee.amount s.world = some world ∧
        Returns (f ()) { s with world } v t := by
  simp only [collectDeploymentFee, bind_assoc, returns_get_bind, returns_orFault_bind,
    returns_require_bind, returns_set_bind]
  constructor
  · rintro ⟨fee, hfee, hauth, world, htransfer, h⟩
    exact ⟨fee, world, hfee, hauth, htransfer, h⟩
  · rintro ⟨fee, world, hfee, hauth, htransfer, h⟩
    exact ⟨fee, hfee, hauth, world, htransfer, h⟩

variable [DecidableEq Address]

theorem returns_registerAuction_bind {address : Address} {auctionType : AuctionType}
    {f : Unit → Body Address World α} :
    Returns (registerAuction address auctionType >>= f) s v t ↔
      s.auctionCount + 1 < 2 ^ 32 ∧
        Returns (f ()) { s with
          auction := update s.auction address (some auctionType)
          auctionByIndex := update s.auctionByIndex s.auctionCount (some address)
          auctionCount := s.auctionCount + 1
          instances :=
            if s.instances.length < maxTrackedAuctions then s.instances ++ [address]
            else s.instances } v t := by
  simp only [registerAuction, bind_assoc, returns_get_bind, returns_require_bind, returns_set_bind]

/-- **A deployment** pays the fee, deploys and initialises the auction and records it. -/
theorem returns_createAuction {auctionType : AuctionType} {args : InitArgs Address}
    {wasmHash : BytesN 32} {a : Address} :
    Returns (createAuction env auctionType args wasmHash) s a t ↔
      ∃ fee world₁ world₂ world₃, s.deploymentFee = some fee ∧ env.auth args.seller = true ∧
        host.transfer fee.token args.seller fee.recipient fee.amount s.world = some world₁ ∧
        host.deploy (host.salt args.seller args.nftContract args.tokenId auctionType) wasmHash
          world₁ = some (a, world₂) ∧
        host.initializeAuction a args world₂ = some world₃ ∧ s.auctionCount + 1 < 2 ^ 32 ∧
        t = { s with
          auction := update s.auction a (some auctionType)
          auctionByIndex := update s.auctionByIndex s.auctionCount (some a)
          auctionCount := s.auctionCount + 1
          instances :=
            if s.instances.length < maxTrackedAuctions then s.instances ++ [a] else s.instances
          world := world₃ } := by
  simp only [createAuction, returns_collectDeploymentFee_bind, returns_get_bind,
    returns_orFault_bind, returns_set_bind, returns_registerAuction_bind, returns_pure]
  constructor
  · rintro ⟨fee, world₁, hfee, hauth, htransfer, ⟨a', world₂⟩, hdeploy, world₃, hinitialize,
      hcount, rfl, rfl⟩
    exact ⟨fee, world₁, world₂, world₃, hfee, hauth, htransfer, hdeploy, hinitialize, hcount, rfl⟩
  · rintro ⟨fee, world₁, world₂, world₃, hfee, hauth, htransfer, hdeploy, hinitialize, hcount,
      rfl⟩
    exact ⟨fee, world₁, hfee, hauth, htransfer, ⟨a, world₂⟩, hdeploy, world₃, hinitialize, hcount,
      rfl, rfl⟩

theorem returns_configureDeploymentFee {approvers : List Address} {token recipient : Address}
    {amount : ℤ} {r : Unit}
    (h : Returns (configureDeploymentFee env approvers token recipient amount) s r t) :
    ∃ g, t = { s with guard := g, deploymentFee := some { token, recipient, amount } } := by
  rw [configureDeploymentFee, returns_require_bind, returns_bind] at h
  obtain ⟨-, _, u, hcheck, h⟩ := h
  obtain ⟨g, -, rfl⟩ := returns_zoom.mp hcheck
  rw [returns_get_bind, returns_set] at h
  exact ⟨g, h.symm⟩

/-- A call runs its body after what became of the world. -/
theorem returns_entryPoint {call : Call Address} {r : Response Address} :
    Returns (entryPoint env call) s r t ↔
      Returns (body env call) { s with world := env.outside s.world } r t := by
  simp only [entryPoint, returns_get_bind, returns_set_bind]

end Spec

end AuctionFactory
