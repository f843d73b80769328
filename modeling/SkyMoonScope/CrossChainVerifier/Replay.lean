import SkyMoonScope.CrossChainVerifier.Verifier
import SkyMoonScope.Lib.Machine
import SkyMoonScope.Lib.Sha256

/-!
# Nonces are consumed once

The entry points that verify share one map of processed nonces. Some ask whether an entry is
stored, the others whether it is stored as `true`; the two agree because the contract stores only
`true`. With that invariant every call uses up exactly the nonces it reports as accepted, all of
them fresh and pairwise different, also within one batch.

## Main definitions

* `WellFormed s`: a stored nonce is stored as `true`
* `used s`: the nonces marked as processed
* `accepted call result`: the nonces that the result of a call reports as consumed
* `step host`: a call with its result, failed calls included

## Main results

* `batchLoop_consumes`: a batch uses up the nonces of the entries that are not reported as failed
* `batch_failed_entry`: an entry reported as failed leaves the storage as it found it
* `batch_report`: the counts of a report add up
* `step_consumes`: a call uses up the nonces it reports as accepted
* `nonce_accepted_once`: along a run every nonce is accepted at most once
-/

namespace CrossChainVerifier

open Soroban Machine

variable {Address : Type}

/-- A stored nonce is stored as `true`. -/
def WellFormed (s : State Address) : Prop := ∀ nonce, s.processedNonce nonce ≠ some false

/-- The nonces marked as processed. -/
def used (s : State Address) : Set UInt64 := {nonce | s.processedNonce nonce = some true}

theorem mem_used {s : State Address} {nonce : UInt64} :
    nonce ∈ used s ↔ s.processedNonce nonce = some true := Iff.rfl

/-- The body keeps the invariant, uses up `nonces`, and changes nothing when there are none. -/
structure Spends (s : State Address) (nonces : List UInt64) (t : State Address) : Prop where
  wellFormed : WellFormed t
  consumes : Consumes used s nonces t
  eq_of_nil : nonces = [] → t = s

theorem Spends.refl {s : State Address} (hs : WellFormed s) : Spends s [] s :=
  ⟨hs, .of_eq rfl, fun _ => rfl⟩

theorem isNonceProcessed_iff {s : State Address} {nonce : UInt64} :
    isNonceProcessed s nonce = true ↔ nonce ∈ used s := by
  rw [mem_used, isNonceProcessed]
  cases s.processedNonce nonce <;> simp

theorem WellFormed.isSome_iff {s : State Address} (hs : WellFormed s) {nonce : UInt64} :
    (s.processedNonce nonce).isSome ↔ nonce ∈ used s := by
  rw [mem_used]
  cases h : s.processedNonce nonce with
  | none => simp
  | some b =>
    cases b with
    | false => exact absurd h (hs nonce)
    | true => simp

/-- Marking a fresh nonce spends it. -/
theorem Spends.of_update {s t : State Address} (hs : WellFormed s) {nonce : UInt64}
    (hn : nonce ∉ used s)
    (ht : t.processedNonce = Function.update s.processedNonce nonce (some true)) :
    Spends s [nonce] t := by
  refine ⟨fun n => ?_, .singleton hn fun n => ?_, by simp⟩
  · rw [ht]
    rcases eq_or_ne n nonce with rfl | h
    · simp
    · simpa [h] using hs n
  · rw [mem_used, mem_used, ht]
    rcases eq_or_ne n nonce with rfl | h
    · simp
    · simp [h]

/-! ## The entries -/

variable {host : Host Address}

theorem verifySignature_state {m : SignedMessage} {s t : State Address} {b : Bool}
    (h : Returns (verifySignature host m) s b t) : t = s := by
  simp only [verifySignature, returns_bind, returns_get] at h
  obtain ⟨s, _, ⟨rfl, rfl⟩, h⟩ := h
  split at h
  · simp_all
  · simp_all
  · simp only [returns_bind, returns_require, returns_pure] at h
    obtain ⟨_, _, ⟨_, rfl⟩, _, rfl⟩ := h
    rfl

theorem consumeSigned_spends {m : SignedMessage} {blockHeight : UInt32}
    {proof : List (BytesN 32)} {flags : List Bool} {s t : State Address} {b : Bool}
    (hs : WellFormed s) (h : Returns (consumeSigned host m blockHeight proof flags) s b t) :
    Spends s (if b then [m.message.nonce] else []) t := by
  simp only [consumeSigned, returns_bind, returns_get] at h
  obtain ⟨s, _, ⟨rfl, rfl⟩, h⟩ := h
  split at h
  · -- the nonce was used before
    obtain ⟨rfl, rfl⟩ := returns_pure.mp h
    exact .refl hs
  next hn =>
  obtain ⟨signed, u, hsig, h⟩ := returns_bind.mp h
  obtain rfl := verifySignature_state hsig
  split at h
  · -- the signature is not accepted
    obtain ⟨rfl, rfl⟩ := returns_pure.mp h
    exact .refl hs
  split at h
  · -- the message was processed before
    obtain ⟨rfl, rfl⟩ := returns_pure.mp h
    exact .refl hs
  split at h
  · -- the proof is not accepted
    obtain ⟨rfl, rfl⟩ := returns_pure.mp h
    exact .refl hs
  · simp only [returns_bind, returns_set, returns_pure] at h
    obtain ⟨_, u, rfl, rfl, rfl⟩ := h
    exact .of_update hs (isNonceProcessed_iff.not.mp hn) rfl

theorem signedBatchEntry_spends {msg : SignedBatchMessage} {s t : State Address} {b : Bool}
    (hs : WellFormed s) (h : Returns (signedBatchEntry host msg) s b t) :
    Spends s (if b then [msg.signedMessage.message.nonce] else []) t :=
  consumeSigned_spends hs h

theorem consumeLeaf_spends {nonce : UInt64} {leaf : BytesN 32} {blockHeight : UInt32}
    {proof : List (BytesN 32)} {flags : List Bool} {s t : State Address} {b : Bool}
    (hs : WellFormed s) (hn : nonce ∉ used s)
    (h : Returns (consumeLeaf host nonce leaf blockHeight proof flags) s b t) :
    Spends s (if b then [nonce] else []) t := by
  simp only [consumeLeaf, returns_bind, returns_get] at h
  obtain ⟨s, _, ⟨rfl, rfl⟩, h⟩ := h
  split at h
  · obtain ⟨rfl, rfl⟩ := returns_pure.mp h
    exact .refl hs
  · simp only [returns_bind, returns_set, returns_pure] at h
    obtain ⟨_, u, rfl, rfl, rfl⟩ := h
    exact .of_update hs hn rfl

theorem batchEntry_spends {msg : BatchMessage Address} {s t : State Address} {b : Bool}
    (hs : WellFormed s) (h : Returns (batchEntry host msg) s b t) :
    Spends s (if b then [msg.payload.nonce] else []) t := by
  simp only [batchEntry, returns_bind, returns_get] at h
  obtain ⟨s, _, ⟨rfl, rfl⟩, h⟩ := h
  split at h
  · obtain ⟨rfl, rfl⟩ := returns_pure.mp h
    exact .refl hs
  · next hn => exact consumeLeaf_spends hs (hs.isSome_iff.not.mp hn) h

/-- An unused nonce and a leaf with a proof are accepted. -/
theorem verifyMessageAndConsume_of_proof {nonce : UInt64} {leaf : BytesN 32}
    {blockHeight : UInt32} {proof : List (BytesN 32)} {flags : List Bool} {s : State Address}
    (hp : isPaused s = false) (hn : nonce ∉ used s)
    (hv : verifyMerkleProof host s leaf blockHeight proof flags = true) :
    Returns (verifyMessageAndConsume host blockHeight nonce leaf proof flags) s true
      { s with processedNonce := Function.update s.processedNonce nonce (some true) } := by
  have hn' : isNonceProcessed s nonce = false := by
    simpa using isNonceProcessed_iff.not.mpr hn
  simp only [verifyMessageAndConsume, consumeLeaf, returns_bind, returns_get, returns_require]
  refine ⟨s, s, ⟨rfl, rfl⟩, (), s, ⟨by simp [hp], rfl⟩, (), s, ⟨by simp [hn'], rfl⟩, s, s,
    ⟨rfl, rfl⟩, ?_⟩
  simp [hv]

/-! ## Batches -/

/-- The entries whose index, counted from `i`, is not among the failed ones. -/
def succeededEntries {M : Type} (failedIndices : List ℕ) (i : ℕ) (messages : List M) : List M :=
  ((messages.zipIdx i).filter fun p => p.2 ∉ failedIndices).map Prod.fst

section Batch

variable {M : Type} {entry : M → Body Address Bool} {nonce : M → UInt64}

/-- The indices a batch adds to the failed ones are those of its entries. -/
theorem batchLoop_failed {i k k' : ℕ} {failed failed' : List ℕ} {messages : List M}
    {s t : State Address}
    (h : Returns (batchLoop entry i k failed messages) s (k', failed') t) :
    ∃ new, failed' = failed ++ new ∧ ∀ j ∈ new, i ≤ j ∧ j < i + messages.length := by
  induction messages generalizing i k failed s with
  | nil =>
    simp only [batchLoop, returns_pure, Prod.mk.injEq] at h
    exact ⟨[], by simp [h.1.2], by simp⟩
  | cons msg messages ih =>
    simp only [batchLoop, returns_bind] at h
    obtain ⟨b, u, -, h⟩ := h
    cases b with
    | true =>
      obtain ⟨new, rfl, hnew⟩ := ih h
      refine ⟨new, rfl, ?_⟩
      intro j hj
      have hj' := hnew j hj
      rw [List.length_cons]
      omega
    | false =>
      obtain ⟨new, rfl, hnew⟩ := ih h
      refine ⟨i :: new, by simp, ?_⟩
      intro j hj
      rw [List.length_cons]
      rcases List.mem_cons.mp hj with rfl | hj
      · omega
      · have hj' := hnew j hj
        omega

/-- **A batch uses up the nonces of the entries that are not reported as failed.** -/
theorem batchLoop_consumes
    (hentry : ∀ msg s b t, WellFormed s → Returns (entry msg) s b t →
      Spends s (if b then [nonce msg] else []) t)
    {i k k' : ℕ} {failed failed' : List ℕ} {messages : List M} {s t : State Address}
    (hs : WellFormed s) (hi : ∀ j ∈ failed, j < i)
    (h : Returns (batchLoop entry i k failed messages) s (k', failed') t) :
    WellFormed t ∧ Consumes used s ((succeededEntries failed' i messages).map nonce) t := by
  induction messages generalizing i k failed s with
  | nil =>
    simp only [batchLoop, returns_pure] at h
    obtain ⟨-, rfl⟩ := h
    exact ⟨hs, .of_eq rfl⟩
  | cons msg messages ih =>
    simp only [batchLoop, returns_bind] at h
    obtain ⟨b, u, hb, h⟩ := h
    have hu := hentry msg s b u hs hb
    cases b with
    | true =>
      obtain ⟨ht, hc⟩ := ih hu.wellFormed (fun j hj => (hi j hj).trans (Nat.lt_succ_self i)) h
      obtain ⟨new, rfl, hnew⟩ := batchLoop_failed h
      -- the entry is not reported: the indices before it are smaller, those after it greater
      have hmem : i ∉ failed ++ new := by
        rw [List.mem_append]
        rintro (hj | hj)
        · exact absurd (hi i hj) (lt_irrefl i)
        · exact absurd (hnew i hj).1 (Nat.not_succ_le_self i)
      refine ⟨ht, ?_⟩
      simp only [succeededEntries, List.zipIdx_cons, List.filter_cons, hmem, not_false_eq_true,
        decide_true, if_true, List.map_cons]
      exact hu.consumes.append hc
    | false =>
      obtain ⟨ht, hc⟩ := ih hu.wellFormed (i := i + 1) (by
        intro j hj
        rcases List.mem_append.mp hj with hj | hj
        · exact (hi j hj).trans (Nat.lt_succ_self i)
        · simp_all) h
      obtain ⟨new, rfl, -⟩ := batchLoop_failed h
      -- the entry is reported, and has changed nothing
      have hmem : i ∈ failed ++ [i] ++ new := by simp
      refine ⟨ht, ?_⟩
      simp only [succeededEntries, List.zipIdx_cons, List.filter_cons, hmem, not_true_eq_false,
        decide_false, Bool.false_eq_true, if_false]
      exact hu.eq_of_nil rfl ▸ hc

theorem returns_batch {messages : List M} {r : BatchVerificationResult} {s t : State Address} :
    Returns (batch entry messages) s r t ↔
      (isPaused s = true ∧ t = s ∧
        r = ⟨messages.length, 0, messages.length, List.range messages.length⟩) ∨
      (isPaused s = false ∧ ∃ k failed, Returns (batchLoop entry 0 0 [] messages) s (k, failed) t ∧
        r = ⟨messages.length, k, messages.length - k, failed⟩) := by
  simp only [batch, returns_bind, returns_get]
  constructor
  · rintro ⟨s, _, ⟨rfl, rfl⟩, h⟩
    split at h
    · next hp =>
      obtain ⟨rfl, rfl⟩ := returns_pure.mp h
      exact .inl ⟨hp, rfl, rfl⟩
    · next hp =>
      simp only [returns_bind, returns_pure] at h
      obtain ⟨⟨k, failed⟩, u, h, rfl, rfl⟩ := h
      exact .inr ⟨by simpa using hp, k, failed, h, rfl⟩
  · rintro (⟨hp, rfl, rfl⟩ | ⟨hp, k, failed, hl, rfl⟩)
    · exact ⟨t, t, ⟨rfl, rfl⟩, by rw [if_pos hp]; exact returns_pure.mpr ⟨rfl, rfl⟩⟩
    · refine ⟨s, s, ⟨rfl, rfl⟩, ?_⟩
      rw [if_neg (by simp [hp])]
      exact returns_bind.mpr ⟨_, t, hl, returns_pure.mpr ⟨rfl, rfl⟩⟩

/-- Every entry of a batch counts once, as succeeded or as failed. -/
theorem batchLoop_count {i k k' : ℕ} {failed failed' : List ℕ} {messages : List M}
    {s t : State Address}
    (h : Returns (batchLoop entry i k failed messages) s (k', failed') t) :
    k' + failed'.length = k + failed.length + messages.length := by
  induction messages generalizing i k failed s with
  | nil =>
    simp only [batchLoop, returns_pure, Prod.mk.injEq] at h
    obtain ⟨⟨rfl, rfl⟩, -⟩ := h
    rfl
  | cons msg messages ih =>
    simp only [batchLoop, returns_bind] at h
    obtain ⟨b, u, -, h⟩ := h
    rw [List.length_cons]
    cases b with
    | true =>
      have hcount := ih h
      omega
    | false =>
      have hcount := ih h
      rw [List.length_append, List.length_singleton] at hcount
      omega

/-- **The report of a batch adds up**: it has as many indices as it says have failed, and the
others have succeeded. -/
theorem batch_report {messages : List M} {r : BatchVerificationResult} {s t : State Address}
    (h : Returns (batch entry messages) s r t) :
    r.total = messages.length ∧ r.failed = r.failedIndices.length ∧
      r.succeeded + r.failed = r.total := by
  rcases returns_batch.mp h with ⟨-, -, rfl⟩ | ⟨-, k, failed, hl, rfl⟩
  · simp
  · have hcount := batchLoop_count hl
    rw [List.length_nil] at hcount
    refine ⟨rfl, ?_, ?_⟩ <;> dsimp only <;> omega

theorem batch_consumes
    (hentry : ∀ msg s b t, WellFormed s → Returns (entry msg) s b t →
      Spends s (if b then [nonce msg] else []) t)
    {messages : List M} {r : BatchVerificationResult} {s t : State Address} (hs : WellFormed s)
    (h : Returns (batch entry messages) s r t) :
    WellFormed t ∧ Consumes used s ((succeededEntries r.failedIndices 0 messages).map nonce) t := by
  rcases returns_batch.mp h with ⟨-, rfl, rfl⟩ | ⟨-, k, failed, hl, rfl⟩
  · -- a paused contract reports every entry
    have hnone : succeededEntries (List.range messages.length) 0 messages = [] := by
      simp only [succeededEntries, List.map_eq_nil_iff, List.filter_eq_nil_iff]
      rintro ⟨msg, j⟩ hj
      simpa using (List.mem_zipIdx hj).2.1
    simp only [hnone, List.map_nil]
    exact ⟨hs, .of_eq rfl⟩
  · exact batchLoop_consumes hentry hs (by simp) hl

/-- A batch is the batch of its first messages followed by the batch of the others. -/
theorem batchLoop_append {i k : ℕ} {failed : List ℕ} {messages messages' : List M}
    {s t : State Address} {r : ℕ × List ℕ} :
    Returns (batchLoop entry i k failed (messages ++ messages')) s r t ↔
      ∃ k' failed' u, Returns (batchLoop entry i k failed messages) s (k', failed') u ∧
        Returns (batchLoop entry (i + messages.length) k' failed' messages') u r t := by
  induction messages generalizing i k failed s with
  | nil => simp [batchLoop]
  | cons msg messages ih =>
    simp only [List.cons_append, batchLoop, returns_bind, List.length_cons]
    constructor
    · rintro ⟨b, v, hb, h⟩
      cases b with
      | true =>
        obtain ⟨k', failed', u, hu, ht⟩ := ih.mp h
        exact ⟨k', failed', u, ⟨true, v, hb, hu⟩, by rwa [← Nat.add_assoc, Nat.add_right_comm]⟩
      | false =>
        obtain ⟨k', failed', u, hu, ht⟩ := ih.mp h
        exact ⟨k', failed', u, ⟨false, v, hb, hu⟩, by rwa [← Nat.add_assoc, Nat.add_right_comm]⟩
    · rintro ⟨k', failed', u, ⟨b, v, hb, hu⟩, ht⟩
      rw [← Nat.add_assoc, Nat.add_right_comm] at ht
      cases b with
      | true => exact ⟨true, v, hb, ih.mpr ⟨k', failed', u, hu, ht⟩⟩
      | false => exact ⟨false, v, hb, ih.mpr ⟨k', failed', u, hu, ht⟩⟩

/-- **An entry reported as failed leaves the storage as it found it**: the batch that ends before
the entry and the batch that ends after it leave the same storage. -/
theorem batch_failed_entry
    (hentry : ∀ msg s b t, WellFormed s → Returns (entry msg) s b t →
      Spends s (if b then [nonce msg] else []) t)
    {messages : List M} {r : BatchVerificationResult} {s t : State Address} (hs : WellFormed s)
    (h : Returns (batch entry messages) s r t) {i : ℕ} (hi : i ∈ r.failedIndices) :
    ∃ u r₁ r₂, Returns (batch entry (messages.take i)) s r₁ u ∧
      Returns (batch entry (messages.take (i + 1))) s r₂ u := by
  rcases returns_batch.mp h with ⟨hp, rfl, rfl⟩ | ⟨hp, k, failed, hl, rfl⟩
  · exact ⟨t, _, _, returns_batch.mpr (.inl ⟨hp, rfl, rfl⟩),
      returns_batch.mpr (.inl ⟨hp, rfl, rfl⟩)⟩
  have hlt : i < messages.length := by
    obtain ⟨new, rfl, hnew⟩ := batchLoop_failed hl
    simpa using (hnew i hi).2
  -- the batch is the entries before this one, this one, and those after it
  rw [← List.take_append_drop (i + 1) messages, List.take_succ_eq_append_getElem hlt,
    batchLoop_append] at hl
  obtain ⟨k₂, failed₂, u₂, h₂, hrest⟩ := hl
  obtain ⟨k₁, failed₁, u₁, h₁, hmsg⟩ := batchLoop_append.mp h₂
  have hw := (batchLoop_consumes hentry hs (by simp) h₁).1
  simp only [batchLoop, returns_bind] at hmsg
  obtain ⟨b, v, hb, hmsg⟩ := hmsg
  have hlen : (messages.take i).length = i := by simp [hlt.le]
  cases b with
  | false =>
    obtain rfl : v = u₁ := (hentry _ _ _ _ hw hb).eq_of_nil rfl
    obtain ⟨-, rfl⟩ := returns_pure.mp hmsg
    rw [← List.take_succ_eq_append_getElem hlt] at h₂
    exact ⟨v, _, _, returns_batch.mpr (.inr ⟨hp, _, _, h₁, rfl⟩),
      returns_batch.mpr (.inr ⟨hp, _, _, h₂, rfl⟩)⟩
  | true =>
    -- an entry that succeeds is not reported: earlier indices are smaller, later ones greater
    simp only [if_true, returns_pure, Prod.mk.injEq] at hmsg
    obtain ⟨⟨-, rfl⟩, -⟩ := hmsg
    obtain ⟨new₁, rfl, hnew₁⟩ := batchLoop_failed h₁
    obtain ⟨new₂, rfl, hnew₂⟩ := batchLoop_failed hrest
    rcases List.mem_append.mp hi with hj | hj
    · have hlt' := hnew₁ i hj
      omega
    · have hge := hnew₂ i hj
      rw [List.length_append, List.length_singleton, hlen] at hge
      omega

end Batch

/-! ## Runs -/

/-- The nonces that the result of a call reports as consumed. -/
def accepted : Call Address → Except (Fault Empty) Response → List UInt64
  | .verifySignedMessage signedMessage .., .ok (.verdict true) => [signedMessage.message.nonce]
  | .verifyMessage _ payload .., .ok (.verdict true) => [payload.nonce]
  | .verifyMessageAndConsume _ nonce .., .ok (.verdict true) => [nonce]
  | .verifyBatch messages, .ok (.batch result) =>
    (succeededEntries result.failedIndices 0 messages).map fun msg => msg.payload.nonce
  | .verifySignedBatch messages, .ok (.batch result) =>
    (succeededEntries result.failedIndices 0 messages).map fun msg =>
      msg.signedMessage.message.nonce
  | _, _ => []

/-- A call with its result, whoever authorized it; a call that fails reverts its state. -/
def step (host : Host Address) (s : State Address)
    (l : Call Address × Except (Fault Empty) Response) (t : State Address) : Prop :=
  ∃ auth, invoke (entryPoint host auth l.1) s = (l.2, t)

theorem requireAdmin_state {auth : Address → Bool} {s t : State Address} {r : Unit}
    (h : Returns (requireAdmin auth) s r t) : t = s := by
  simp only [requireAdmin, returns_bind, returns_get, returns_orFault, returns_require] at h
  obtain ⟨s, _, ⟨rfl, rfl⟩, _, _, ⟨_, rfl⟩, _, rfl⟩ := h
  rfl

/-- A call that leaves the nonces alone spends none. -/
theorem spends_of_eq {s t : State Address} (hs : WellFormed s)
    (h : t.processedNonce = s.processedNonce) : WellFormed t ∧ Consumes used s [] t := by
  constructor
  · intro nonce
    rw [h]
    exact hs nonce
  · apply Consumes.of_eq
    rw [used, used, h]

/-- **A call uses up the nonces it reports as accepted**, and keeps the invariant. -/
theorem step_consumes {s t : State Address} {l : Call Address × Except (Fault Empty) Response}
    (hs : WellFormed s) (h : step host s l t) :
    WellFormed t ∧ Consumes used s (accepted l.1 l.2) t := by
  obtain ⟨auth, h⟩ := h
  obtain ⟨call, result⟩ := l
  cases result with
  | error fault =>
    -- the host reverts the call
    obtain rfl := eq_of_invoke_error h
    have hnone : accepted call (.error fault) = [] := by cases call <;> rfl
    rw [hnone]
    exact ⟨hs, .of_eq rfl⟩
  | ok r =>
    have hr := invoke_eq_ok.mp h
    cases call with
    | initializeContract admin =>
      simp only [entryPoint, initializeContract, returns_bind, returns_get, returns_require,
        returns_set, returns_pure] at hr
      obtain ⟨_, _, ⟨s, _, ⟨rfl, rfl⟩, _, _, ⟨_, rfl⟩, rfl⟩, rfl, rfl⟩ := hr
      exact spends_of_eq hs rfl
    | setPaused paused =>
      simp only [entryPoint, setPaused, returns_bind, returns_get, returns_set, returns_pure] at hr
      obtain ⟨_, _, ⟨_, u, ha, u, _, ⟨rfl, rfl⟩, rfl⟩, rfl, rfl⟩ := hr
      obtain rfl := requireAdmin_state ha
      exact spends_of_eq hs rfl
    | updateRoot blockHeight newRoot =>
      simp only [entryPoint, updateRoot, returns_bind, returns_get, returns_set, returns_pure] at hr
      obtain ⟨_, _, ⟨_, u, ha, u, _, ⟨rfl, rfl⟩, rfl⟩, rfl, rfl⟩ := hr
      obtain rfl := requireAdmin_state ha
      exact spends_of_eq hs rfl
    | addAuthorizedSigner publicKey algorithm =>
      simp only [entryPoint, addAuthorizedSigner, returns_bind, returns_get, returns_require,
        returns_orFault, returns_set, returns_pure] at hr
      obtain ⟨_, _, ⟨_, u, ha, u, _, ⟨rfl, rfl⟩, _, _, ⟨_, rfl⟩, _, _, ⟨_, rfl⟩, rfl⟩, rfl, rfl⟩ :=
        hr
      obtain rfl := requireAdmin_state ha
      exact spends_of_eq hs rfl
    | removeAuthorizedSigner publicKey =>
      simp only [entryPoint, removeAuthorizedSigner, returns_bind, returns_get, returns_require,
        returns_set, returns_pure] at hr
      obtain ⟨_, _, ⟨_, u, ha, u, _, ⟨rfl, rfl⟩, _, _, ⟨_, rfl⟩, rfl⟩, rfl, rfl⟩ := hr
      obtain rfl := requireAdmin_state ha
      exact spends_of_eq hs rfl
    | verifySignedMessage m blockHeight proof flags =>
      simp only [entryPoint, verifySignedMessage, returns_map, returns_bind, returns_get,
        returns_require] at hr
      obtain ⟨b, ⟨s, _, ⟨rfl, rfl⟩, _, _, ⟨_, rfl⟩, hb⟩, rfl⟩ := hr
      have hb := consumeSigned_spends hs hb
      cases b <;> exact ⟨hb.wellFormed, hb.consumes⟩
    | verifyMessage blockHeight payload proof flags =>
      simp only [entryPoint, verifyMessage, returns_map, returns_bind, returns_get] at hr
      obtain ⟨b, ⟨s, _, ⟨rfl, rfl⟩, hb⟩, rfl⟩ := hr
      split at hb
      · -- paused
        obtain ⟨rfl, rfl⟩ := returns_pure.mp hb
        exact spends_of_eq hs rfl
      · simp only [returns_bind, returns_require] at hb
        obtain ⟨_, _, ⟨hn, rfl⟩, hb⟩ := hb
        have hb := consumeLeaf_spends hs (hs.isSome_iff.not.mp (by simpa using hn)) hb
        cases b <;> exact ⟨hb.wellFormed, hb.consumes⟩
    | verifyMessageAndConsume blockHeight nonce leaf proof flags =>
      simp only [entryPoint, verifyMessageAndConsume, returns_map, returns_bind, returns_get,
        returns_require] at hr
      obtain ⟨b, ⟨s, _, ⟨rfl, rfl⟩, _, _, ⟨_, rfl⟩, _, _, ⟨hn, rfl⟩, hb⟩, rfl⟩ := hr
      have hb := consumeLeaf_spends hs (isNonceProcessed_iff.not.mp (by simpa using hn)) hb
      cases b <;> exact ⟨hb.wellFormed, hb.consumes⟩
    | verifyBatch messages =>
      obtain ⟨r, hb, rfl⟩ := returns_map.mp hr
      exact batch_consumes (fun _ _ _ _ => batchEntry_spends) hs hb
    | verifySignedBatch messages =>
      obtain ⟨r, hb, rfl⟩ := returns_map.mp hr
      exact batch_consumes (fun _ _ _ _ => signedBatchEntry_spends) hs hb

/-- **Replay protection.** Along a run of the contract every nonce is accepted at most once, over
all entry points and all entries of all batches, and the nonces marked at its end are the accepted
ones. An entry that a batch reports as failed leaves the storage as the entries before it left
it. -/
theorem nonce_accepted_once {ls : List (Call Address × Except (Fault Empty) Response)}
    {s : State Address} (h : Run (step host) (State.empty Address) ls s) :
    (ls.flatMap fun l => accepted l.1 l.2).Nodup ∧
    (∀ nonce, s.processedNonce nonce = some true ↔
      nonce ∈ ls.flatMap fun l => accepted l.1 l.2) ∧
    (∀ messages r t, Returns (verifyBatch host messages) s r t → ∀ i ∈ r.failedIndices,
      ∃ u r₁ r₂, Returns (verifyBatch host (messages.take i)) s r₁ u ∧
        Returns (verifyBatch host (messages.take (i + 1))) s r₂ u) ∧
    (∀ messages r t, Returns (verifySignedBatch host messages) s r t → ∀ i ∈ r.failedIndices,
      ∃ u r₁ r₂, Returns (verifySignedBatch host (messages.take i)) s r₁ u ∧
        Returns (verifySignedBatch host (messages.take (i + 1))) s r₂ u) := by
  -- the invariant holds of the empty storage, and along the run
  have hempty : WellFormed (State.empty Address) := fun nonce => by simp [State.empty]
  obtain ⟨hs, hc⟩ := h.consumes (fun _ _ _ => step_consumes) hempty
  refine ⟨hc.nodup, ?_, ?_, ?_⟩
  · intro nonce
    have hnone : nonce ∉ used (State.empty Address) := by simp [mem_used, State.empty]
    rw [← mem_used, hc.used_iff]
    exact or_iff_right hnone
  · intro messages r t hr i hi
    exact batch_failed_entry (fun _ _ _ _ => batchEntry_spends) hs hr hi
  · intro messages r t hr i hi
    exact batch_failed_entry (fun _ _ _ _ => signedBatchEntry_spends) hs hr hi

/-- A leaf accepted under the nonce 7, and submitted again. -/
theorem nonce_accepted_once_replayed :
    let host : Host Unit := ⟨Sha256.hash, fun _ _ _ => false, fun _ => []⟩
    let leaf : BytesN 32 := .replicate 32 1
    let ls : List (Call Unit × Except (Fault Empty) Response) :=
      [(.initializeContract (), .ok .unit),
        (.updateRoot 5 (hashLeaf Sha256.hash leaf), .ok .unit),
        (.verifyMessageAndConsume 5 7 leaf [] [], .ok (.verdict true)),
        (.verifyMessageAndConsume 5 7 leaf [] [], .error (.trap "nonce already processed"))]
    ∃ s, Run (step host) (State.empty Unit) ls s ∧
      (ls.flatMap fun l => accepted l.1 l.2).Nodup ∧ s.processedNonce 7 = some true := by
  intro host leaf ls
  have hauth : ∀ {s : State Unit} {l} {t : State Unit},
      invoke (entryPoint host (fun _ => true) l.1) s = (l.2, t) → step host s l t :=
    fun h => ⟨_, h⟩
  have haccept : ∀ {s : State Unit}, isPaused s = false → 7 ∉ used s →
      s.stateRoot 5 = some (hashLeaf Sha256.hash leaf) →
      step host s (.verifyMessageAndConsume 5 7 leaf [] [], .ok (.verdict true))
        { s with processedNonce := Function.update s.processedNonce 7 (some true) } :=
    fun hp hn hr => hauth <| invoke_eq_ok.mpr <| returns_map.mpr ⟨true,
      verifyMessageAndConsume_of_proof hp hn
        (by simp [verifyMerkleProof, hr, merkleLoop, host]), rfl⟩
  have hrun : ∃ s, Run (step host) (State.empty Unit) ls s :=
    ⟨_, .cons (hauth rfl) <| .cons (hauth rfl) <|
      .cons (haccept rfl (by simp [mem_used, State.empty]) rfl) <| .cons (hauth rfl) <| .nil _⟩
  obtain ⟨s, hs⟩ := hrun
  have h := nonce_accepted_once hs
  exact ⟨s, hs, h.1, (h.2.1 7).mpr (by decide)⟩

end CrossChainVerifier
