import SkyMoonScope.CrossChainVerifier.Replay
import SkyMoonScope.Lib.Pages

/-!
# Batches against single calls

A batch handles its entries one by one and reports the positions of those that failed. The entries
of `verify_batch` do what calls of `verify_message` do one after another, except that a call with a
used nonce traps, while the entry fails. An entry of `verify_signed_batch` has a check that traps
like that, the one of an Ed25519 signature, and one bad signature reverts the whole batch.

## Main definitions

* `Reports r outcomes`: a report of what became of the entries
* `messageCall`: a call of `verify_message` for an entry
* `signedEntry`: what an entry of `verify_signed_batch` should do on its own
* `FailsAlone`: a bad entry of a signed batch fails, and only that entry
* `SignatureHolds`: the signature of an entry is good where it is checked

## Main results

* `verifyBatch_eq_sequential`: a batch is the sequence of its calls
* `failsAlone_iff`: bad entries fail alone just when no checked signature is bad
-/

namespace CrossChainVerifier

open Soroban Batches

variable {Address : Type} {host : Host Address}

/-- A report of a batch: the number of its entries, those accepted and those failed, and the
positions of the failed ones in increasing order. -/
structure Reports (r : BatchVerificationResult) (outcomes : List Bool) : Prop where
  total_eq : r.total = outcomes.length
  succeeded_eq : r.succeeded = outcomes.count true
  succeeded_add_failed : r.succeeded + r.failed = r.total
  increasing : r.failedIndices.Pairwise (· < ·)
  mem_failedIndices : ∀ i, i ∈ r.failedIndices ↔ outcomes[i]? = some false

section Batch

variable {M : Type} {entry : M → Body Address Bool}
  {f : State Address → M → Bool × State Address} {s : State Address} {messages : List M}

/-- The loop over entries of which each returns what it should. -/
theorem returns_batchLoop {i k : ℕ} {failed : List ℕ}
    (h : Along (fun s msg => Returns (entry msg) s (f s msg).1 (f s msg).2) f s messages) :
    Returns (batchLoop entry i k failed messages) s
      (k + (sequential f s messages).1.count true,
        failed ++ failedFrom i (sequential f s messages).1) (sequential f s messages).2 := by
  induction messages generalizing i k failed s with
  | nil =>
    rw [batchLoop, returns_pure]
    exact ⟨by simp [sequential, failedFrom], rfl⟩
  | cons msg messages ih =>
    obtain ⟨hmsg, hrest⟩ := h
    rw [batchLoop, returns_bind]
    refine ⟨_, _, hmsg, ?_⟩
    -- an accepted entry counts, and a failed one adds its position
    simp only [sequential]
    cases (f s msg).1 with
    | true =>
      rw [if_pos rfl, List.count_cons_self, failedFrom, ← Nat.add_assoc, Nat.add_right_comm]
      exact ih hrest
    | false =>
      rw [if_neg Bool.false_ne_true, List.count_cons_of_ne Bool.false_ne_true, failedFrom,
        List.append_cons failed i (failedFrom _ _)]
      exact ih hrest

/-- A loop that returns has gone through entries that return. -/
theorem along_of_batchLoop {I : State Address → Prop} (hI : ∀ s msg, I s → I (f s msg).2)
    (hentry : ∀ s msg b t, I s → Returns (entry msg) s b t → f s msg = (b, t))
    {i k : ℕ} {failed : List ℕ} {r : ℕ × List ℕ} {t : State Address} (hs : I s)
    (h : Returns (batchLoop entry i k failed messages) s r t) :
    Along (fun s msg => Returns (entry msg) s (f s msg).1 (f s msg).2) f s messages := by
  induction messages generalizing i k failed s with
  | nil => trivial
  | cons msg messages ih =>
    rw [batchLoop, returns_bind] at h
    obtain ⟨b, u, hmsg, hrest⟩ := h
    have hf := hentry s msg b u hs hmsg
    have hu := hI s msg hs
    refine ⟨by dsimp only; rw [hf]; exact hmsg, ?_⟩
    rw [hf] at hu ⊢
    cases b with
    | true => exact ih hu hrest
    | false => exact ih hu hrest

theorem reports_loop {outcomes : List Bool} :
    Reports ⟨outcomes.length, outcomes.count true, outcomes.length - outcomes.count true,
      failedFrom 0 outcomes⟩ outcomes where
  total_eq := rfl
  succeeded_eq := rfl
  succeeded_add_failed := Nat.add_sub_cancel' List.count_le_length
  increasing := pairwise_failedFrom
  mem_failedIndices := by
    intro i
    rw [← mem_failedFrom (i := 0), Nat.zero_add]

/-- A batch of entries of which each returns what it should, or one that is paused. -/
theorem returns_batch_of_along (hpaused : isPaused s = true → ∀ msg, f s msg = (false, s))
    (h : isPaused s = false →
      Along (fun s msg => Returns (entry msg) s (f s msg).1 (f s msg).2) f s messages) :
    ∃ r, Returns (batch entry messages) s r (sequential f s messages).2 ∧
      Reports r (sequential f s messages).1 := by
  have hlength : (sequential f s messages).1.length = messages.length := length_sequential
  cases hp : isPaused s with
  | true =>
    refine ⟨_, returns_batch.mpr (.inl ⟨hp, ?_, rfl⟩), ?_⟩
    · rw [sequential_of_fails (hpaused hp)]
    · rw [sequential_of_fails (hpaused hp)]
      refine ⟨List.length_replicate.symm, by simp [List.count_replicate], Nat.zero_add _,
        List.pairwise_lt_range, fun i => ?_⟩
      rw [List.mem_range, List.getElem?_replicate]
      split <;> simp_all
  | false =>
    refine ⟨_, returns_batch.mpr (.inr ⟨hp, _, _, returns_batchLoop (h hp), rfl⟩), ?_⟩
    rw [← hlength, Nat.zero_add, List.nil_append]
    exact reports_loop

end Batch

/-! ## Unsigned batches -/

/-- A call of `verify_message` for an entry. One that fails leaves the storage as it was. -/
def messageCall (host : Host Address) (s : State Address) (msg : BatchMessage Address) :
    Bool × State Address :=
  match invoke (verifyMessage host msg.blockHeight msg.payload msg.proof msg.proofFlags) s with
  | (.ok accepted, t) => (accepted, t)
  | (.error _, t) => (false, t)

section Unsigned

variable {s t : State Address} {msg : BatchMessage Address}

theorem messageCall_of_returns {accepted : Bool}
    (h : Returns (verifyMessage host msg.blockHeight msg.payload msg.proof msg.proofFlags) s
      accepted t) : messageCall host s msg = (accepted, t) := by
  unfold messageCall
  rw [invoke_eq_ok.mpr h]

theorem messageCall_of_paused (h : isPaused s = true) : messageCall host s msg = (false, s) := by
  apply messageCall_of_returns
  rw [verifyMessage, returns_get_bind, if_pos h, returns_pure]
  exact ⟨rfl, rfl⟩

theorem messageCall_of_not_returns
    (h : ∀ accepted t, ¬Returns (verifyMessage host msg.blockHeight msg.payload msg.proof
      msg.proofFlags) s accepted t) : messageCall host s msg = (false, s) := by
  unfold messageCall invoke
  cases hrun : (verifyMessage host msg.blockHeight msg.payload msg.proof msg.proofFlags).run s with
  | ok p => exact absurd hrun (h p.1 p.2)
  | error fault => rfl

/-- The part that a call and an entry share does not fail. -/
theorem exists_returns_consumeLeaf (host : Host Address) (s : State Address) (nonce : UInt64)
    (leaf : BytesN 32) (blockHeight : UInt32) (proof : List (BytesN 32)) (flags : List Bool) :
    ∃ accepted t, Returns (consumeLeaf host nonce leaf blockHeight proof flags) s accepted t := by
  simp only [consumeLeaf, returns_get_bind]
  split
  · exact ⟨false, s, returns_pure.mpr ⟨rfl, rfl⟩⟩
  · exact ⟨true, _, returns_set_bind.mpr (returns_pure.mpr ⟨rfl, rfl⟩)⟩

/-- **An entry does what the call does.** Where the call traps, the entry fails. -/
theorem returns_batchEntry (hp : isPaused s = false) :
    Returns (batchEntry host msg) s (messageCall host s msg).1 (messageCall host s msg).2 := by
  rw [batchEntry, returns_get_bind]
  split
  next hused =>
    -- the nonce was used before, and the call traps
    have hcall : messageCall host s msg = (false, s) := by
      apply messageCall_of_not_returns
      intro accepted t h
      rw [verifyMessage, returns_get_bind, if_neg (by simp [hp]), returns_require_bind] at h
      rw [Option.isNone_iff_eq_none.mp h.1] at hused
      cases hused
    rw [hcall, returns_pure]
    exact ⟨rfl, rfl⟩
  next hunused =>
    obtain ⟨accepted, t, h⟩ := exists_returns_consumeLeaf host s msg.payload.nonce
      (computePayloadHash host msg.payload) msg.blockHeight msg.proof msg.proofFlags
    have hcall : messageCall host s msg = (accepted, t) := by
      apply messageCall_of_returns
      rw [verifyMessage, returns_get_bind, if_neg (by simp [hp]), returns_require_bind]
      exact ⟨by simpa using hunused, h⟩
    rw [hcall]
    exact h

/-- A call does not change whether the contract is paused. -/
theorem isPaused_messageCall : isPaused (messageCall host s msg).2 = isPaused s := by
  by_cases h : ∃ accepted t, Returns (verifyMessage host msg.blockHeight msg.payload msg.proof
    msg.proofFlags) s accepted t
  · obtain ⟨accepted, t, h⟩ := h
    rw [messageCall_of_returns h]
    rw [verifyMessage, returns_get_bind] at h
    split at h
    · obtain ⟨-, rfl⟩ := returns_pure.mp h
      rfl
    · simp only [returns_require_bind, consumeLeaf, returns_get_bind] at h
      obtain ⟨-, h⟩ := h
      split at h
      · obtain ⟨-, rfl⟩ := returns_pure.mp h
        rfl
      · rw [returns_set_bind, returns_pure] at h
        obtain ⟨-, rfl⟩ := h
        rfl
  · rw [messageCall_of_not_returns fun accepted t hr => h ⟨accepted, t, hr⟩]

/-- The entries of a batch that is not paused. -/
theorem along_messageCall {messages : List (BatchMessage Address)} (hp : isPaused s = false) :
    Along (fun s msg => Returns (batchEntry host msg) s (messageCall host s msg).1
      (messageCall host s msg).2) (messageCall host) s messages := by
  induction messages generalizing s with
  | nil => trivial
  | cons msg messages ih => exact ⟨returns_batchEntry hp, ih (isPaused_messageCall.trans hp)⟩

end Unsigned

/-- **A batch is the sequence of its calls.** From every storage, a call of `verify_batch` leaves
what calls of `verify_message` for the entries one after another leave, and reports what became of
them. -/
theorem verifyBatch_eq_sequential (host : Host Address) (s : State Address)
    (messages : List (BatchMessage Address)) :
    ∃ r, invoke (verifyBatch host messages) s =
        (.ok r, (sequential (messageCall host) s messages).2) ∧
      Reports r (sequential (messageCall host) s messages).1 ∧
      (sequential (messageCall host) s messages).1.length = messages.length := by
  obtain ⟨r, hr, hreports⟩ :=
    returns_batch_of_along (fun hp _ => messageCall_of_paused hp) (along_messageCall (s := s))
  exact ⟨r, invoke_eq_ok.mpr hr, hreports, length_sequential⟩

/-! ## Signed batches -/

/-- What makes an entry of a signed batch good: an unused nonce, a trusted signer with a good
Ed25519 signature, a message that was not processed, and its proof. -/
def Acceptable (host : Host Address) (s : State Address) (msg : SignedBatchMessage) : Prop :=
  isPaused s = false ∧
    isNonceProcessed s msg.signedMessage.message.nonce = false ∧
    s.signerAlgorithm msg.signedMessage.signerPublicKey.toList = some .ed25519 ∧
    host.ed25519Verify msg.signedMessage.signerPublicKey
      (hashMessage host.sha256 msg.signedMessage.message).toList
      msg.signedMessage.signature = true ∧
    s.processedMessages (hashMessage host.sha256 msg.signedMessage.message) = none ∧
    verifyMerkleProof host s (hashMessage host.sha256 msg.signedMessage.message)
      msg.blockHeight msg.proof msg.proofFlags = true

instance {s : State Address} {msg : SignedBatchMessage} : Decidable (Acceptable host s msg) :=
  inferInstanceAs (Decidable (_ ∧ _))

/-- The storage after a message and its nonce were consumed. -/
def markSigned (host : Host Address) (s : State Address) (message : CrossChainMessage) :
    State Address :=
  { s with
    processedMessages :=
      Function.update s.processedMessages (hashMessage host.sha256 message) (some true)
    processedNonce := Function.update s.processedNonce message.nonce (some true) }

/-- What an entry should do on its own: a good one is consumed, and a bad one fails and changes
nothing. -/
def signedEntry (host : Host Address) (s : State Address)
    (msg : SignedBatchMessage) : Bool × State Address :=
  if Acceptable host s msg then (true, markSigned host s msg.signedMessage.message) else (false, s)

/-- A bad entry fails, and only that entry: the others are verified and consumed. -/
def FailsAlone (host : Host Address) (s : State Address) (messages : List SignedBatchMessage) :
    Prop :=
  ∃ r, invoke (verifySignedBatch host messages) s =
      (.ok r, (sequential (signedEntry host) s messages).2) ∧
    Reports r (sequential (signedEntry host) s messages).1

/-- The signature of an entry is good, unless the nonce was used or the signer is not one with an
Ed25519 key. -/
def SignatureHolds (host : Host Address) (s : State Address) (msg : SignedBatchMessage) : Prop :=
  isNonceProcessed s msg.signedMessage.message.nonce = false →
    s.signerAlgorithm msg.signedMessage.signerPublicKey.toList = some .ed25519 →
    host.ed25519Verify msg.signedMessage.signerPublicKey
      (hashMessage host.sha256 msg.signedMessage.message).toList msg.signedMessage.signature = true

section Signed

variable {s t : State Address} {msg : SignedBatchMessage} {messages : List SignedBatchMessage}

theorem signedEntry_of_not_acceptable (h : ¬Acceptable host s msg) :
    signedEntry host s msg = (false, s) := if_neg h

theorem isPaused_signedEntry : isPaused (signedEntry host s msg).2 = isPaused s := by
  unfold signedEntry
  split <;> rfl

/-- An entry that is not good for a reason that does not trap. -/
theorem fails_iff {b : Bool} (h : ¬Acceptable host s msg) :
    Returns (pure false : Body Address Bool) s b t ↔ signedEntry host s msg = (b, t) := by
  rw [signedEntry_of_not_acceptable h, returns_pure, Prod.mk.injEq]

/-- **An entry that returns** does what it should, and its signature holds. -/
theorem returns_signedBatchEntry (hp : isPaused s = false) {b : Bool} :
    Returns (signedBatchEntry host msg) s b t ↔
      SignatureHolds host s msg ∧ signedEntry host s msg = (b, t) := by
  rw [signedBatchEntry, consumeSigned, returns_get_bind, SignatureHolds]
  split
  next hused =>
    -- the nonce was used before, and the signature is not looked at
    have hbad : ¬Acceptable host s msg := fun h => by simp [h.2.1] at hused
    rw [fails_iff hbad]
    simp [hused]
  next hfresh =>
    rw [Bool.not_eq_true] at hfresh
    rw [verifySignature, bind_assoc, returns_get_bind]
    cases halgorithm : s.signerAlgorithm msg.signedMessage.signerPublicKey.toList with
    | none =>
      -- nobody has the key
      have hbad : ¬Acceptable host s msg := fun h => by simp [h.2.2.1] at halgorithm
      simp [fails_iff hbad, signedEntry_of_not_acceptable hbad]
    | some algorithm =>
      cases algorithm with
      | secp256k1 =>
        -- signatures of the other algorithm are refused
        have hbad : ¬Acceptable host s msg := fun h => by simp [h.2.2.1] at halgorithm
        simp [fails_iff hbad, signedEntry_of_not_acceptable hbad]
      | ed25519 =>
        -- the host traps unless the signature is good, which is what `SignatureHolds` says here
        dsimp only
        rw [bind_assoc, returns_require_bind, pure_bind]
        have hchecked : (isNonceProcessed s msg.signedMessage.message.nonce = false →
            some SignatureAlgorithm.ed25519 = some .ed25519 →
            host.ed25519Verify msg.signedMessage.signerPublicKey
              (hashMessage host.sha256 msg.signedMessage.message).toList
              msg.signedMessage.signature = true) ↔
            host.ed25519Verify msg.signedMessage.signerPublicKey
              (hashMessage host.sha256 msg.signedMessage.message).toList
              msg.signedMessage.signature = true :=
          ⟨fun h => h hfresh rfl, fun h _ _ => h⟩
        rw [hchecked]
        refine and_congr_right fun hsigned => ?_
        rw [if_neg (by decide)]
        split
        next hprocessed =>
          have hbad : ¬Acceptable host s msg := fun h => by simp [h.2.2.2.2.1] at hprocessed
          exact fails_iff hbad
        next hprocessed =>
          rw [Option.not_isSome_iff_eq_none] at hprocessed
          split
          next hproof =>
            have hbad : ¬Acceptable host s msg := fun h => by simp [h.2.2.2.2.2] at hproof
            exact fails_iff hbad
          next hproof =>
            have hgood : Acceptable host s msg :=
              ⟨hp, hfresh, halgorithm, hsigned, hprocessed, by simpa using hproof⟩
            rw [returns_set_bind, returns_pure, signedEntry, if_pos hgood, Prod.mk.injEq]
            rfl

theorem signedEntry_of_paused (hp : isPaused s = true) : signedEntry host s msg = (false, s) :=
  signedEntry_of_not_acceptable fun h => by simp [h.1] at hp

/-- The entries of a batch return just when their signatures hold. -/
theorem along_signedEntry_iff (hp : isPaused s = false) :
    Along (fun s msg => Returns (signedBatchEntry host msg) s (signedEntry host s msg).1
        (signedEntry host s msg).2) (signedEntry host) s messages ↔
      Along (SignatureHolds host) (signedEntry host) s messages := by
  induction messages generalizing s with
  | nil => exact Iff.rfl
  | cons msg messages ih =>
    have hmsg : Returns (signedBatchEntry host msg) s (signedEntry host s msg).1
        (signedEntry host s msg).2 ↔ SignatureHolds host s msg := by
      rw [returns_signedBatchEntry hp]
      exact and_iff_left rfl
    exact and_congr hmsg (ih (isPaused_signedEntry.trans hp))

end Signed

/-- **Bad entries fail alone** just when the contract is paused or no entry comes with an unused
nonce, a trusted Ed25519 signer and a bad signature. The host traps at the first one that does. -/
theorem failsAlone_iff (host : Host Address) (s : State Address)
    (messages : List SignedBatchMessage) :
    FailsAlone host s messages ↔
      isPaused s = true ∨ Along (SignatureHolds host) (signedEntry host) s messages := by
  constructor
  · rintro ⟨r, hr, -⟩
    rcases returns_batch.mp (invoke_eq_ok.mp hr) with ⟨hp, -, -⟩ | ⟨hp, k, failed, hloop, -⟩
    · exact .inl hp
    · right
      rw [← along_signedEntry_iff hp]
      exact along_of_batchLoop (I := fun u => isPaused u = false)
        (fun _ _ hu => isPaused_signedEntry.trans hu)
        (fun _ _ _ _ hu hmsg => ((returns_signedBatchEntry hu).mp hmsg).2) hp hloop
  · intro h
    have hreturns : isPaused s = false →
        Along (fun s msg => Returns (signedBatchEntry host msg) s (signedEntry host s msg).1
          (signedEntry host s msg).2) (signedEntry host) s messages := by
      intro hp
      rw [along_signedEntry_iff hp]
      exact h.resolve_left (by simp [hp])
    obtain ⟨r, hr, hreports⟩ :=
      returns_batch_of_along (fun hp _ => signedEntry_of_paused hp) hreturns
    exact ⟨r, invoke_eq_ok.mpr hr, hreports⟩

/-! ## A bad signature -/

section BadSignature

/-- Signatures of zeros are bad, the other ones are good. -/
def sampleHost : Host Unit where
  sha256 := Sha256.hash
  ed25519Verify := fun _ _ signature => signature != .replicate 64 0
  toXdr := fun _ => []

/-- An entry signed with the key of ones. -/
def sampleEntry (nonce : UInt64) (signature : BytesN 64) : SignedBatchMessage where
  blockHeight := 5
  signedMessage :=
    { message :=
        { sourceChain := 1, destinationChain := 2, nonce, payload := [], timestamp := 0 }
      signature
      signerPublicKey := .replicate 32 1
      algorithm := .ed25519 }
  proof := []
  proofFlags := []

/-- A contract that trusts the key of ones, with the second entry as root. -/
def sampleState : State Unit :=
  { State.empty Unit with
    signerAlgorithm :=
      Function.update (fun _ => none) (BytesN.replicate 32 1).toList (some .ed25519)
    stateRoot := Function.update (fun _ => none) 5 (some (hashLeaf Sha256.hash
      (hashMessage Sha256.hash (sampleEntry 8 (.replicate 64 1)).signedMessage.message))) }

theorem signed_batch_reverts :
    ¬FailsAlone sampleHost sampleState
      [sampleEntry 7 (.replicate 64 0), sampleEntry 8 (.replicate 64 1)] := by
  rintro ⟨r, hr, -⟩
  have hinvoke : invoke (verifySignedBatch sampleHost
      [sampleEntry 7 (.replicate 64 0), sampleEntry 8 (.replicate 64 1)]) sampleState =
      (.error (.trap "Error(Crypto, InvalidInput)"), sampleState) := rfl
  rw [hinvoke] at hr
  cases hr

end BadSignature

end CrossChainVerifier
