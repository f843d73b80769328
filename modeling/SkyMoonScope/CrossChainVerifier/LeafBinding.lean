import SkyMoonScope.CrossChainVerifier.Replay
import Mathlib.Data.Fintype.Pi
import Mathlib.Data.Fintype.Pigeonhole
import Mathlib.Data.List.Flatten

/-!
# Which leaves are accepted

A nonce is consumed once, but what a proof authenticates is a leaf. `verify_message` and
`verify_batch` read the nonce off the payload that they hash to the leaf, so that the leaf fixes its
nonce. `verify_message_and_consume` takes the nonce from its caller, beside a bare leaf, and accepts
a leaf again under another nonce.

## Main definitions

* `presents host call`: the nonces and leaves that a call submits
* `acceptedEntries host call result`: those that it accepts
* `Bound host ls`: a bare leaf is submitted under the same nonce as anywhere else in the run
* `SelfDelimiting`: an encoding whose end can be told from its beginning

## Main results

* `nonce_of_computePayloadHash`: a payload's leaf fixes its nonce
* `leaf_accepted_once`: in a run with bound nonces every leaf is accepted at most once
* `accepted_again`: a bare leaf is accepted as often as it comes with an unused nonce
-/

namespace CrossChainVerifier

open Soroban Machine

variable {Address : Type}

/-! ## Leaves of payloads -/

/-- The string that a payload is hashed as. -/
def payloadString (host : Host Address) (payload : Payload Address) : List UInt8 :=
  beBytes 4 payload.chainId.toNat ++ host.toXdr payload.destinationContract ++
    beBytes 8 payload.nonce.toNat ++ payload.data

/-- The end of an encoding can be told from its beginning. -/
def SelfDelimiting {α : Type} (encode : α → List UInt8) : Prop :=
  ∀ a b x y, encode a ++ x = encode b ++ y → a = b

/-- All fields of a payload can be read off the string. -/
theorem payload_of_payloadString {host : Host Address} (hxdr : SelfDelimiting host.toXdr)
    {p q : Payload Address} (h : payloadString host p = payloadString host q) : p = q := by
  simp only [payloadString, List.append_assoc] at h
  -- the chain ids and the nonces have their lengths, the addresses end where they end
  obtain ⟨hchain, h⟩ := List.append_inj h (by simp)
  have hdest := hxdr _ _ _ _ h
  rw [hdest] at h
  obtain ⟨hnonce, hdata⟩ := List.append_inj (List.append_cancel_left h) (by simp)
  have hchain' := UInt32.toNat_inj.mp (beBytes_inj p.chainId.toNat_lt q.chainId.toNat_lt hchain)
  have hnonce' := UInt64.toNat_inj.mp (beBytes_inj p.nonce.toNat_lt q.nonce.toNat_lt hnonce)
  cases p; cases q
  simp_all

/-- **A payload's leaf fixes its nonce**, where SHA-256 has no collision. -/
theorem nonce_of_computePayloadHash {host : Host Address} (hxdr : SelfDelimiting host.toXdr)
    {strings : Set (List UInt8)} (hinj : Set.InjOn host.sha256 strings) {p q : Payload Address}
    (hp : payloadString host p ∈ strings) (hq : payloadString host q ∈ strings)
    (h : computePayloadHash host p = computePayloadHash host q) : p.nonce = q.nonce :=
  congrArg Payload.nonce (payload_of_payloadString hxdr (hinj hp hq h))

/-! ## What is submitted and what is accepted -/

/-- The payloads of a call. -/
def payloads : Call Address → List (Payload Address)
  | .verifyMessage _ payload _ _ => [payload]
  | .verifyBatch messages => messages.map fun msg => msg.payload
  | _ => []

/-- The bare leaf of a call, with the nonce it comes with. -/
def bareLeaf : Call Address → Option (UInt64 × BytesN 32)
  | .verifyMessageAndConsume _ nonce leaf _ _ => some (nonce, leaf)
  | _ => none

/-- A payload with the nonce and the leaf that it stands for. -/
def entryOf (host : Host Address) (payload : Payload Address) : UInt64 × BytesN 32 :=
  (payload.nonce, computePayloadHash host payload)

/-- The nonces and leaves that a call submits. -/
def presents (host : Host Address) (call : Call Address) : List (UInt64 × BytesN 32) :=
  (bareLeaf call).toList ++ (payloads call).map (entryOf host)

/-- The nonces and leaves that the result of a call reports as newly verified. -/
def acceptedEntries (host : Host Address) :
    Call Address → Except (Fault Empty) Response → List (UInt64 × BytesN 32)
  | .verifyMessage _ payload .., .ok (.verdict true) => [entryOf host payload]
  | .verifyMessageAndConsume _ nonce leaf .., .ok (.verdict true) => [(nonce, leaf)]
  | .verifyBatch messages, .ok (.batch result) =>
    (succeededEntries result.failedIndices 0 messages).map fun msg => entryOf host msg.payload
  | _, _ => []

/-- What is accepted was submitted. -/
theorem mem_presents {host : Host Address} {call : Call Address}
    {result : Except (Fault Empty) Response} {entry : UInt64 × BytesN 32}
    (h : entry ∈ acceptedEntries host call result) : entry ∈ presents host call := by
  unfold acceptedEntries at h
  split at h
  case h_1 => simpa [presents, bareLeaf, payloads] using h
  case h_2 => simpa [presents, bareLeaf, payloads] using h
  case h_3 messages result =>
    obtain ⟨msg, hmsg, rfl⟩ := List.mem_map.mp h
    -- an entry of a batch that succeeded is one of the batch
    have hmem : msg ∈ messages := by
      obtain ⟨⟨m, i⟩, hm, rfl⟩ := List.mem_map.mp hmsg
      exact List.fst_mem_of_mem_zipIdx (List.mem_filter.mp hm).1
    simp only [presents, bareLeaf, payloads, Option.toList_none, List.nil_append, List.map_map]
    exact List.mem_map_of_mem hmem
  case h_4 => cases h

/-- The nonces of the accepted entries are among the accepted nonces. -/
theorem map_acceptedEntries_sublist (host : Host Address) (call : Call Address)
    (result : Except (Fault Empty) Response) :
    ((acceptedEntries host call result).map Prod.fst).Sublist (accepted call result) := by
  unfold acceptedEntries
  split
  case h_1 => exact .refl _
  case h_2 => exact .refl _
  case h_3 => simp [accepted, entryOf, Function.comp_def]
  case h_4 => exact List.nil_sublist _

/-! ## Runs -/

/-- A bare leaf comes with the nonce under which it is submitted anywhere else in the run. -/
def Bound (host : Host Address) (calls : List (Call Address)) : Prop :=
  ∀ call ∈ calls, ∀ entry ∈ bareLeaf call, ∀ other ∈ calls.flatMap (presents host),
    other.2 = entry.2 → other.1 = entry.1

/-- The strings that the payloads of the calls are hashed as. -/
def payloadStrings (host : Host Address) (calls : List (Call Address)) : Set (List UInt8) :=
  {x | x ∈ (calls.flatMap payloads).map (payloadString host)}

/-- When the nonces are bound, entries of one leaf have one nonce. -/
theorem Bound.nonce_eq {host : Host Address} {calls : List (Call Address)}
    (h : Bound host calls) (hxdr : SelfDelimiting host.toXdr)
    (hinj : Set.InjOn host.sha256 (payloadStrings host calls)) {x y : UInt64 × BytesN 32}
    (hx : x ∈ calls.flatMap (presents host)) (hy : y ∈ calls.flatMap (presents host))
    (hleaf : x.2 = y.2) : x.1 = y.1 := by
  obtain ⟨c, hc, hxc⟩ := List.mem_flatMap.mp hx
  obtain ⟨d, hd, hyd⟩ := List.mem_flatMap.mp hy
  rcases List.mem_append.mp hxc with hbare | hpayload
  · -- one of them is bare
    exact (h c hc x (Option.mem_toList.mp hbare) y hy hleaf.symm).symm
  · rcases List.mem_append.mp hyd with hbare | hpayload'
    · exact h d hd y (Option.mem_toList.mp hbare) x hx hleaf
    · -- both are leaves of payloads
      obtain ⟨p, hp, rfl⟩ := List.mem_map.mp hpayload
      obtain ⟨q, hq, rfl⟩ := List.mem_map.mp hpayload'
      exact nonce_of_computePayloadHash hxdr hinj
        (List.mem_map_of_mem (List.mem_flatMap.mpr ⟨c, hc, hp⟩))
        (List.mem_map_of_mem (List.mem_flatMap.mpr ⟨d, hd, hq⟩)) hleaf

/-- The leaves that the calls of a run report as newly verified, over the three entry points. -/
def acceptedLeaves (host : Host Address)
    (ls : List (Call Address × Except (Fault Empty) Response)) : List (BytesN 32) :=
  (ls.flatMap fun l => acceptedEntries host l.1 l.2).map Prod.snd

/-- **Every leaf is accepted at most once** in a run in which bare leaves come with the nonce under
which they are submitted elsewhere. -/
theorem leaf_accepted_once {host : Host Address} (hxdr : SelfDelimiting host.toXdr)
    {ls : List (Call Address × Except (Fault Empty) Response)} {s : State Address}
    (hinj : Set.InjOn host.sha256 (payloadStrings host (ls.map Prod.fst)))
    (hbound : Bound host (ls.map Prod.fst)) (h : Run (step host) (State.empty Address) ls s) :
    (acceptedLeaves host ls).Nodup := by
  have hempty : WellFormed (State.empty Address) := fun nonce => by simp [State.empty]
  obtain ⟨-, hc⟩ := h.consumes (fun _ _ _ => step_consumes) hempty
  -- the accepted entries have pairwise different nonces
  have hnonces : ((ls.flatMap fun l => acceptedEntries host l.1 l.2).map Prod.fst).Nodup := by
    rw [List.map_flatMap]
    apply List.Nodup.sublist _ hc.nodup
    exact List.Sublist.flatMap_right ls fun l _ => map_acceptedEntries_sublist host l.1 l.2
  have hmem : ∀ x ∈ ls.flatMap fun l => acceptedEntries host l.1 l.2,
      x ∈ (ls.map Prod.fst).flatMap (presents host) := by
    intro x hx
    obtain ⟨l, hl, hx⟩ := List.mem_flatMap.mp hx
    exact List.mem_flatMap.mpr ⟨l.1, List.mem_map_of_mem hl, mem_presents hx⟩
  -- and so different leaves, as a leaf has one nonce
  apply List.Nodup.map_on _ hnonces.of_map
  intro x hx y hy hleaf
  apply List.inj_on_of_nodup_map hnonces hx hy
  exact hbound.nonce_eq hxdr hinj (hmem x hx) (hmem y hy) hleaf

/-- **A bare leaf is accepted again** under every nonce that is not used yet. -/
theorem accepted_again {host : Host Address} {blockHeight : UInt32} {leaf : BytesN 32}
    {proof : List (BytesN 32)} {flags : List Bool} {s : State Address} (hp : isPaused s = false)
    (hv : verifyMerkleProof host s leaf blockHeight proof flags = true) {nonces : List UInt64}
    (hnodup : nonces.Nodup) (hunused : ∀ nonce ∈ nonces, nonce ∉ used s) :
    ∃ t, Run (step host) s (nonces.map fun nonce =>
      (.verifyMessageAndConsume blockHeight nonce leaf proof flags, .ok (.verdict true))) t := by
  induction nonces generalizing s with
  | nil => exact ⟨s, .nil s⟩
  | cons nonce nonces ih =>
    obtain ⟨hnot, hnodup⟩ := List.nodup_cons.mp hnodup
    let u : State Address :=
      { s with processedNonce := Function.update s.processedNonce nonce (some true) }
    have hstep : step host s
        (.verifyMessageAndConsume blockHeight nonce leaf proof flags, .ok (.verdict true)) u :=
      ⟨fun _ => true, invoke_eq_ok.mpr (returns_map.mpr ⟨true,
        verifyMessageAndConsume_of_proof hp (hunused nonce List.mem_cons_self) hv, rfl⟩)⟩
    -- the other nonces are still unused
    have hunused' : ∀ n ∈ nonces, n ∉ used u := by
      intro n hn
      have hne : n ≠ nonce := fun heq => hnot (heq ▸ hn)
      have hs := hunused n (List.mem_cons_of_mem _ hn)
      rw [mem_used] at hs ⊢
      simpa [u, hne] using hs
    obtain ⟨t, ht⟩ := ih (s := u) hp hv hnodup hunused'
    exact ⟨t, .cons hstep ht⟩

/-! ## A payload and its leaf -/

/-- The serialization of the address of a contract: its tags, and the contract's id. -/
def contractXdr (id : BytesN 32) : List UInt8 := [0, 0, 0, 18, 0, 0, 0, 1] ++ id.toList

theorem selfDelimiting_contractXdr : SelfDelimiting contractXdr := by
  intro a b x y h
  rw [contractXdr, contractXdr, List.append_assoc, List.append_assoc] at h
  obtain ⟨h, -⟩ := List.append_inj (List.append_cancel_left h) (by simp)
  exact BytesN.ext h

/-- An unused nonce and a payload with a proof are accepted. -/
theorem step_verifyMessage {host : Host Address} {payload : Payload Address}
    {blockHeight : UInt32} {proof : List (BytesN 32)} {flags : List Bool} {s : State Address}
    (hp : isPaused s = false) (hn : s.processedNonce payload.nonce = none)
    (hv : verifyMerkleProof host s (computePayloadHash host payload) blockHeight proof flags) :
    step host s (.verifyMessage blockHeight payload proof flags, .ok (.verdict true))
      { s with processedNonce := Function.update s.processedNonce payload.nonce (some true) } := by
  refine ⟨fun _ => true, invoke_eq_ok.mpr (returns_map.mpr ⟨true, ?_, rfl⟩)⟩
  simp only [verifyMessage, consumeLeaf, returns_bind, returns_get]
  refine ⟨s, s, ⟨rfl, rfl⟩, ?_⟩
  rw [if_neg (by simp [hp])]
  simp only [returns_bind, returns_require, returns_get]
  refine ⟨(), s, ⟨by simp [hn], rfl⟩, s, s, ⟨rfl, rfl⟩, ?_⟩
  simp [hv]

section Payload

/-- SHA-256 and the addresses of contracts. -/
def contractHost : Host (BytesN 32) := ⟨Sha256.hash, fun _ _ _ => false, contractXdr⟩

def helloPayload : Payload (BytesN 32) :=
  { chainId := 1, destinationContract := .replicate 32 1, nonce := 7, data := [104, 105] }

/-- The root of the tree whose only leaf is that of the payload is posted, and the payload is
verified. -/
def verified : List (Call (BytesN 32) × Except (Fault Empty) Response) :=
  [(.initializeContract (.replicate 32 2), .ok .unit),
    (.updateRoot 5 (hashLeaf Sha256.hash (computePayloadHash contractHost helloPayload)),
      .ok .unit),
    (.verifyMessage 5 helloPayload [] [], .ok (.verdict true))]

/-- The storage after that. -/
def verifiedState : State (BytesN 32) :=
  { State.empty (BytesN 32) with
    admin := some (.replicate 32 2)
    signerCount := some 0
    stateRoot := Function.update (fun _ => none) 5
      (some (hashLeaf Sha256.hash (computePayloadHash contractHost helloPayload)))
    processedNonce := Function.update (fun _ => none) 7 (some true) }

theorem verifyMerkleProof_single {s : State (BytesN 32)} {leaf : BytesN 32}
    (h : s.stateRoot 5 = some (hashLeaf Sha256.hash leaf)) :
    verifyMerkleProof contractHost s leaf 5 [] [] = true := by
  simp [verifyMerkleProof, h, merkleLoop, contractHost]

theorem run_verified : Run (step contractHost) (State.empty (BytesN 32)) verified verifiedState :=
  .cons ⟨fun _ => true, rfl⟩ <| .cons ⟨fun _ => true, rfl⟩ <|
    .single (step_verifyMessage rfl rfl (verifyMerkleProof_single rfl))

theorem injOn_helloPayload {calls : List (Call (BytesN 32))}
    (h : calls.flatMap payloads = [helloPayload]) :
    Set.InjOn contractHost.sha256 (payloadStrings contractHost calls) := by
  intro x hx y hy _
  simp only [payloadStrings, h, List.map_singleton, List.mem_singleton, Set.mem_ofPred_eq] at hx hy
  rw [hx, hy]

/-- The leaf of the payload is submitted once more, with the nonce of the payload. -/
theorem leaf_accepted_once_replayed :
    let leaf := computePayloadHash contractHost helloPayload
    let ls := verified ++ [(.verifyMessageAndConsume 5 7 leaf [] [],
      .error (.trap "nonce already processed"))]
    Run (step contractHost) (State.empty (BytesN 32)) ls verifiedState ∧
      (acceptedLeaves contractHost ls).Nodup := by
  intro leaf ls
  have hrun : Run (step contractHost) (State.empty (BytesN 32)) ls verifiedState :=
    run_verified.append (.single ⟨fun _ => true, rfl⟩)
  refine ⟨hrun, leaf_accepted_once selfDelimiting_contractXdr (injOn_helloPayload rfl) ?_ hrun⟩
  -- whatever is submitted in this run has the nonce of the payload
  have hnonce : ∀ entry ∈ (ls.map Prod.fst).flatMap (presents contractHost), entry.1 = 7 := by
    have hpresents : (ls.map Prod.fst).flatMap (presents contractHost) = [(7, leaf), (7, leaf)] :=
      rfl
    rw [hpresents]
    simp
  intro call hcall entry hentry other hother _
  have hmem : entry ∈ presents contractHost call :=
    List.mem_append_left _ (Option.mem_toList.mpr hentry)
  rw [hnonce other hother, hnonce entry (List.mem_flatMap.mpr ⟨call, hcall, hmem⟩)]

/-- **A leaf is accepted twice**: the leaf of the payload is submitted bare, with another nonce. -/
theorem not_leaf_accepted_once :
    ¬ ∀ (host : Host (BytesN 32)) (ls : List (Call (BytesN 32) × Except (Fault Empty) Response))
      (s : State (BytesN 32)), SelfDelimiting host.toXdr →
      Set.InjOn host.sha256 (payloadStrings host (ls.map Prod.fst)) →
      Run (step host) (State.empty (BytesN 32)) ls s → (acceptedLeaves host ls).Nodup := by
  intro h
  have hunused : ∀ nonce ∈ [(8 : UInt64)], nonce ∉ used verifiedState := by
    intro nonce hnonce
    obtain rfl := List.mem_singleton.mp hnonce
    rw [mem_used]
    decide
  have hagain : ∃ t, Run (step contractHost) verifiedState
      [(.verifyMessageAndConsume 5 8 (computePayloadHash contractHost helloPayload) [] [],
        .ok (.verdict true))] t :=
    accepted_again rfl (verifyMerkleProof_single rfl) (List.nodup_singleton 8) hunused
  obtain ⟨t, ht⟩ := hagain
  have hnodup := h contractHost _ t selfDelimiting_contractXdr (injOn_helloPayload rfl)
    (run_verified.append ht)
  simp [acceptedLeaves, verified, acceptedEntries, entryOf] at hnodup

end Payload

end CrossChainVerifier

/-!
# What is hashed

The leaf of a payload and the hash of a cross-chain message are SHA-256 hashes of strings without
separators. All fields can be read off the string of a payload. The string of a message has the
SHA-256 hash of its payload in it and not the payload, and the other fields can be read off. No
string is that of a payload and that of a message.

## Main definitions

* `messageString`: the string that a message is hashed as
* `addressTag`: the beginning of every serialized address
* `Unambiguous`: what the strings say about what was hashed

## Main results

* `unambiguous`: where addresses are serialized as XDR does it
* `payload_digest_ambiguous`: some messages differ in their payloads alone, with one string
-/

namespace CrossChainVerifier

open Soroban

variable {Address : Type}

/-- The string that a message is hashed as. -/
def messageString (sha256 : List UInt8 → BytesN 32) (message : CrossChainMessage) : List UInt8 :=
  messageTag ++ beBytes 4 message.sourceChain.toNat ++
    beBytes 4 message.destinationChain.toNat ++ beBytes 8 message.nonce.toNat ++
    beBytes 8 message.timestamp.toNat ++ (sha256 message.payload).toList

/-- The tag `SCV_ADDRESS`, which XDR writes before an address. -/
def addressTag : List UInt8 := [0, 0, 0, 18]

/-- What was hashed can be told from the string: every field of a payload, and every field of a
message, its payload by its hash. -/
structure Unambiguous (host : Host Address) : Prop where
  computePayloadHash_eq : ∀ p, computePayloadHash host p = host.sha256 (payloadString host p)
  hashMessage_eq : ∀ m, hashMessage host.sha256 m = host.sha256 (messageString host.sha256 m)
  payload_eq : ∀ p q, payloadString host p = payloadString host q → p = q
  message_eq : ∀ m n, messageString host.sha256 m = messageString host.sha256 n →
    m.sourceChain = n.sourceChain ∧ m.destinationChain = n.destinationChain ∧
      m.nonce = n.nonce ∧ m.timestamp = n.timestamp ∧
      host.sha256 m.payload = host.sha256 n.payload
  disjoint : ∀ p m, payloadString host p ≠ messageString host.sha256 m

/-- The fields of a message can be read off the string, and the hash of its payload. -/
theorem message_of_messageString {sha256 : List UInt8 → BytesN 32} {m n : CrossChainMessage}
    (h : messageString sha256 m = messageString sha256 n) :
    m.sourceChain = n.sourceChain ∧ m.destinationChain = n.destinationChain ∧
      m.nonce = n.nonce ∧ m.timestamp = n.timestamp ∧ sha256 m.payload = sha256 n.payload := by
  simp only [messageString, List.append_assoc] at h
  obtain ⟨hsource, h⟩ := List.append_inj (List.append_cancel_left h) (by simp)
  obtain ⟨hdestination, h⟩ := List.append_inj h (by simp)
  obtain ⟨hnonce, h⟩ := List.append_inj h (by simp)
  obtain ⟨htimestamp, hpayload⟩ := List.append_inj h (by simp)
  refine ⟨?_, ?_, ?_, ?_, BytesN.ext hpayload⟩
  · exact UInt32.toNat_inj.mp (beBytes_inj m.sourceChain.toNat_lt n.sourceChain.toNat_lt hsource)
  · exact UInt32.toNat_inj.mp
      (beBytes_inj m.destinationChain.toNat_lt n.destinationChain.toNat_lt hdestination)
  · exact UInt64.toNat_inj.mp (beBytes_inj m.nonce.toNat_lt n.nonce.toNat_lt hnonce)
  · exact UInt64.toNat_inj.mp (beBytes_inj m.timestamp.toNat_lt n.timestamp.toNat_lt htimestamp)

/-- After the chain id of a payload comes an address, after the same number of bytes of a message
the rest of its tag. -/
theorem payloadString_ne_messageString {host : Host Address}
    (htag : ∀ a, addressTag <+: host.toXdr a) (p : Payload Address) (m : CrossChainMessage) :
    payloadString host p ≠ messageString host.sha256 m := by
  intro h
  obtain ⟨rest, hrest⟩ := htag p.destinationContract
  have hfifth := congrArg (·[4]?) h
  rw [payloadString, ← hrest] at hfifth
  simp [messageString, messageTag, addressTag] at hfifth

/-- **The strings are unambiguous**, where the serialization of an address begins with its tag and
its end can be told. -/
theorem unambiguous {host : Host Address} (hxdr : SelfDelimiting host.toXdr)
    (htag : ∀ a, addressTag <+: host.toXdr a) : Unambiguous host where
  computePayloadHash_eq := fun _ => rfl
  hashMessage_eq := fun _ => rfl
  payload_eq := fun _ _ => payload_of_payloadString hxdr
  message_eq := fun _ _ => message_of_messageString
  disjoint := payloadString_ne_messageString htag

theorem unambiguous_contracts : Unambiguous contractHost :=
  unambiguous selfDelimiting_contractXdr fun id => ⟨[0, 0, 0, 1] ++ id.toList, rfl⟩

instance {n : ℕ} : Finite (BytesN n) := by
  -- a string is determined by its bytes
  let digits (a : BytesN n) (i : Fin n) : Fin 256 := (a.toList.get (i.cast (by simp))).toFin
  apply Finite.of_injective digits
  intro a b h
  apply BytesN.ext
  apply List.ext_get (by simp)
  intro i hi _
  exact UInt8.toFin_inj.mp (congrFun h ⟨i, by simpa using hi⟩)

/-- **A message is not determined by its string**: there are more payloads than hashes. -/
theorem payload_digest_ambiguous :
    ¬ ∀ m n : CrossChainMessage, messageString Sha256.hash m = messageString Sha256.hash n →
      m = n := by
  intro h
  obtain ⟨x, y, hne, hxy⟩ := Finite.exists_ne_map_eq_of_infinite Sha256.hash
  let message (payload : List UInt8) : CrossChainMessage :=
    { sourceChain := 1, destinationChain := 2, nonce := 7, payload, timestamp := 0 }
  have hmessage := h (message x) (message y) (by simp [messageString, message, hxy])
  exact hne (congrArg CrossChainMessage.payload hmessage)

end CrossChainVerifier
