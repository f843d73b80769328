import SkyMoonScope.PrivateTransfer.Roots

/-!
# What can be spent once

The contract keeps three registries against replays: the nullifiers and the digests of the proofs of
accepted transfers, and the deposit keys, each with a mark once it was credited. A transfer looks a
key up in all three before it marks it, and no other entry point takes a mark away. So a run uses
every nullifier, every proof and every registered key at most once, whatever the verifiers answer.

## Main definitions

* `acceptedNullifiers`, `acceptedDigests`, `acceptedRecipients`, `registeredKeys`: what a call uses
* `usedNullifiers`, `usedDigests`, `registered`, `credited`: what the storage has as used

## Main results

* `applyPrivateTransfer_registries`: what an accepted transfer finds and marks
* `single_spend`: nothing is used twice, along every run
-/

namespace PrivateTransferContract

open Soroban Machine Function

variable {Address : Type}

/-- The transfer and the proof of a call that was accepted. -/
def acceptedTransfer (l : Submission Address) : List (PrivateTransfer × List UInt8) :=
  match l.call, l.result with
  | .applyPrivateTransfer _ transfer proof, .ok _ => [(transfer, proof)]
  | _, _ => []

def acceptedNullifiers (l : Submission Address) : List (BytesN 32) :=
  (acceptedTransfer l).map fun p => p.1.nullifier

def acceptedDigests (sha256 : List UInt8 → BytesN 32) (l : Submission Address) :
    List (BytesN 32) :=
  (acceptedTransfer l).map fun p => proofDigest sha256 p.2

def acceptedRecipients (l : Submission Address) : List (BytesN 32) :=
  (acceptedTransfer l).map fun p => p.1.recipientUpdate.commitment

/-- The deposit key that a call has registered. -/
def registeredKeys (l : Submission Address) : List (BytesN 32) :=
  match l.call, l.result with
  | .registerDepositKey _ commitment, .ok _ => [commitment]
  | _, _ => []

/-! ## The registries -/

def usedNullifiers (s : State Address) : Set (BytesN 32) :=
  { nullifier | isNullifierUsed s nullifier = true }

def isProofUsed (s : State Address) (digest : BytesN 32) : Bool := (s.usedProof digest).getD false

def usedDigests (s : State Address) : Set (BytesN 32) := { digest | isProofUsed s digest = true }

def registered (s : State Address) : Set (BytesN 32) :=
  { commitment | isRegisteredDepositKey s commitment = true }

/-- A deposit key, once it was credited. -/
def credited (key : BytesN 32) (s : State Address) : Set (BytesN 32) :=
  { commitment | commitment = key ∧ isDepositKeySpent s commitment = true }

/-- A storage with the same registries. -/
structure SameRegistries (s t : State Address) : Prop where
  nullifier : t.nullifier = s.nullifier
  usedProof : t.usedProof = s.usedProof
  depositKeyOwner : t.depositKeyOwner = s.depositKeyOwner
  depositKeyUsed : t.depositKeyUsed = s.depositKeyUsed

section Effects

variable {host : Host Address} {env : Env Address} {s t : State Address}

/-- A registered key is marked, and was not before. -/
theorem consumeDepositKey_effect {commitment : BytesN 32}
    (h : Returns (consumeDepositKeyIfRegistered commitment) s () t) :
    (isRegisteredDepositKey s commitment = true → isDepositKeySpent s commitment = false) ∧
      t = { s with
        depositKeyUsed := if isRegisteredDepositKey s commitment then
          update s.depositKeyUsed commitment (some true) else s.depositKeyUsed } := by
  rw [consumeDepositKeyIfRegistered, returns_get_bind] at h
  split at h
  next hnew =>
    obtain ⟨-, rfl⟩ := returns_pure.mp h
    rw [Bool.not_eq_true'] at hnew
    simp [hnew]
  next hregistered =>
    obtain ⟨hspent, h⟩ := returns_require_bind.mp h
    obtain rfl := returns_set.mp h
    rw [Bool.not_eq_true', Bool.not_eq_false] at hregistered
    rw [if_pos hregistered]
    exact ⟨fun _ => by simpa using hspent, rfl⟩

variable [DecidableEq Address]

/-- **An accepted transfer** finds its nullifier, its proof and, where it is registered, the key of
its recipient unused, and marks them. -/
theorem applyPrivateTransfer_registries {relayer : Address} {transfer : PrivateTransfer}
    {proof : List UInt8} {r : TransferReceipt}
    (h : Returns (applyPrivateTransfer host env relayer transfer proof) s r t) :
    isNullifierUsed s transfer.nullifier = false ∧
      isProofUsed s (proofDigest host.sha256 proof) = false ∧
      (isRegisteredDepositKey s transfer.recipientUpdate.commitment = true →
        isDepositKeySpent s transfer.recipientUpdate.commitment = false) ∧
      t.nullifier = update s.nullifier transfer.nullifier (some true) ∧
      t.usedProof = update s.usedProof (proofDigest host.sha256 proof) (some true) ∧
      t.depositKeyOwner = s.depositKeyOwner ∧
      t.depositKeyUsed =
        if isRegisteredDepositKey s transfer.recipientUpdate.commitment then
          update s.depositKeyUsed transfer.recipientUpdate.commitment (some true)
        else s.depositKeyUsed := by
  simp only [applyPrivateTransfer, requireAuth, requireNonzeroCommitment, validateProofMaterial,
    readCurrentRoot, bind_assoc, returns_require_bind, returns_get_bind, returns_orFault_bind,
    returns_set_bind, Bool.not_eq_true'] at h
  obtain ⟨-, -, -, -, hnullifier, -, _, -, _, -, -, -, _, -, hproof, _, -, -, h⟩ := h
  obtain ⟨_, u, hconsume, h⟩ := returns_bind.mp h
  obtain ⟨hspent, rfl⟩ := consumeDepositKey_effect hconsume
  simp only [recordTransfer, writeRoot, bind_assoc, returns_get_bind, returns_set_bind,
    returns_pure] at h
  obtain ⟨-, rfl⟩ := h
  exact ⟨hnullifier, hproof, hspent, rfl, rfl, rfl, rfl⟩

omit [DecidableEq Address] in
theorem initializeContract_registries {admin verifier : Address} {vk root : BytesN 32}
    (h : Returns (initializeContract admin verifier vk root) s () t) : SameRegistries s t := by
  simp only [initializeContract, writeRoot, returns_get_bind, returns_require_bind,
    returns_set_bind, returns_set] at h
  obtain ⟨-, rfl⟩ := h
  exact ⟨rfl, rfl, rfl, rfl⟩

end Effects

/-! ## Steps -/

section Steps

variable [DecidableEq Address] {host : Host Address} {s t : State Address}
  {l : Submission Address}

/-- A step is an accepted transfer, a registration, or it leaves the registries as they are. -/
theorem step_cases (h : Step (entryPoint host) s l t) :
    (∃ relayer transfer proof r, acceptedTransfer l = [(transfer, proof)] ∧ registeredKeys l = [] ∧
      Returns (applyPrivateTransfer host l.host relayer transfer proof) s r t) ∨
    (∃ owner commitment, acceptedTransfer l = [] ∧ registeredKeys l = [commitment] ∧
      Returns (registerDepositKey l.host owner commitment) s () t) ∨
    acceptedTransfer l = [] ∧ registeredKeys l = [] ∧ SameRegistries s t := by
  obtain ⟨env, call, result⟩ := l
  rcases h.cases with ⟨v, hv, hreturns⟩ | ⟨⟨fault, hfault⟩, rfl⟩
  · obtain rfl : result = .ok v := hv
    by_cases happly : ∃ relayer transfer proof,
        call = .applyPrivateTransfer relayer transfer proof
    · obtain ⟨relayer, transfer, proof, rfl⟩ := happly
      obtain ⟨r, haccepted, rfl⟩ := returns_map.mp hreturns
      exact .inl ⟨relayer, transfer, proof, r, rfl, rfl, haccepted⟩
    by_cases hregister : ∃ owner commitment, call = .registerDepositKey owner commitment
    · obtain ⟨owner, commitment, rfl⟩ := hregister
      obtain ⟨_, u, hregistered, hpure⟩ := returns_bind.mp hreturns
      obtain ⟨-, rfl⟩ := returns_pure.mp hpure
      exact .inr (.inl ⟨owner, commitment, rfl, rfl, hregistered⟩)
    · refine .inr (.inr ⟨?_, ?_, ?_⟩)
      · cases call <;> first | rfl | exact absurd ⟨_, _, _, rfl⟩ happly
      · cases call <;> first | rfl | exact absurd ⟨_, _, rfl⟩ hregister
      · by_cases hinit : ∃ admin verifier vk root,
            call = .initializeContract admin verifier vk root
        · obtain ⟨admin, verifier, vk, root, rfl⟩ := hinit
          obtain ⟨_, u, hinitialized, hpure⟩ := returns_bind.mp hreturns
          obtain ⟨-, rfl⟩ := returns_pure.mp hpure
          exact initializeContract_registries hinitialized
        · rw [frame_of_other hreturns
            (fun admin verifier vk root hc => hinit ⟨admin, verifier, vk, root, hc⟩)
            (fun owner commitment hc => hregister ⟨owner, commitment, hc⟩)
            (fun relayer transfer proof hc => happly ⟨relayer, transfer, proof, hc⟩)]
          exact ⟨rfl, rfl, rfl, rfl⟩
  · obtain rfl : result = .error fault := hfault
    exact .inr (.inr ⟨by cases call <;> rfl, by cases call <;> rfl, rfl, rfl, rfl, rfl⟩)

/-- A mark that is set is one more. -/
theorem marked_update {κ : Type} [DecidableEq κ] {f : κ → Option Bool} {k m : κ} :
    (update f k (some true) m).getD false = true ↔ (f m).getD false = true ∨ m = k := by
  by_cases hm : m = k
  · subst hm
    simp
  · simp [hm]

theorem consumes_nullifiers (h : Step (entryPoint host) s l t) :
    Consumes usedNullifiers s (acceptedNullifiers l) t := by
  rcases step_cases h with ⟨_, transfer, proof, _, haccepted, -, hreturns⟩ |
      ⟨_, commitment, haccepted, -, hreturns⟩ | ⟨haccepted, -, hsame⟩
  · obtain ⟨hfresh, -, -, hmark, -⟩ := applyPrivateTransfer_registries hreturns
    rw [acceptedNullifiers, haccepted]
    apply Consumes.singleton
    · simp [usedNullifiers, hfresh]
    · intro m
      show (t.nullifier m).getD false = true ↔ _
      rw [hmark]
      exact marked_update
  · obtain ⟨-, rfl⟩ := registerDepositKey_effect hreturns
    rw [acceptedNullifiers, haccepted]
    exact Consumes.of_eq rfl
  · rw [acceptedNullifiers, haccepted]
    apply Consumes.of_eq
    ext nullifier
    simp [usedNullifiers, isNullifierUsed, hsame.nullifier]

theorem consumes_digests (h : Step (entryPoint host) s l t) :
    Consumes usedDigests s (acceptedDigests host.sha256 l) t := by
  rcases step_cases h with ⟨_, transfer, proof, _, haccepted, -, hreturns⟩ |
      ⟨_, commitment, haccepted, -, hreturns⟩ | ⟨haccepted, -, hsame⟩
  · obtain ⟨-, hfresh, -, -, hmark, -⟩ := applyPrivateTransfer_registries hreturns
    rw [acceptedDigests, haccepted]
    apply Consumes.singleton
    · simp [usedDigests, hfresh]
    · intro m
      show (t.usedProof m).getD false = true ↔ _
      rw [hmark]
      exact marked_update
  · obtain ⟨-, rfl⟩ := registerDepositKey_effect hreturns
    rw [acceptedDigests, haccepted]
    exact Consumes.of_eq rfl
  · rw [acceptedDigests, haccepted]
    apply Consumes.of_eq
    ext digest
    simp [usedDigests, isProofUsed, hsame.usedProof]

theorem consumes_registrations (h : Step (entryPoint host) s l t) :
    Consumes registered s (registeredKeys l) t := by
  rcases step_cases h with ⟨_, transfer, proof, _, -, hkeys, hreturns⟩ |
      ⟨_, commitment, -, hkeys, hreturns⟩ | ⟨-, hkeys, hsame⟩
  · obtain ⟨-, -, -, -, -, hsame, -⟩ := applyPrivateTransfer_registries hreturns
    rw [hkeys]
    apply Consumes.of_eq
    ext key
    simp [registered, isRegisteredDepositKey, hsame]
  · obtain ⟨hnew, rfl⟩ := registerDepositKey_effect hreturns
    rw [hkeys]
    apply Consumes.singleton
    · simp [registered, hnew]
    · intro m
      by_cases hm : m = commitment
      · subst hm
        simp [registered, isRegisteredDepositKey]
      · simp [registered, isRegisteredDepositKey, hm]
  · rw [hkeys]
    apply Consumes.of_eq
    ext key
    simp [registered, isRegisteredDepositKey, hsame.depositKeyOwner]

/-- A key that is registered is credited by the first transfer to it, and by no other one. -/
theorem consumes_credits {key : BytesN 32} (hkey : key ∈ registered s)
    (h : Step (entryPoint host) s l t) :
    Consumes (credited key) s ((acceptedRecipients l).filter (· = key)) t := by
  rcases step_cases h with ⟨_, transfer, proof, _, haccepted, -, hreturns⟩ |
      ⟨_, commitment, haccepted, -, hreturns⟩ | ⟨haccepted, -, hsame⟩
  · obtain ⟨-, -, hfresh, -, -, -, hmark⟩ := applyPrivateTransfer_registries hreturns
    rw [acceptedRecipients, haccepted]
    by_cases hrecipient : transfer.recipientUpdate.commitment = key
    · have hkey : isRegisteredDepositKey s key = true := hkey
      rw [hrecipient] at hfresh hmark
      rw [if_pos hkey] at hmark
      simp only [List.map_cons, List.map_nil, hrecipient, decide_true, List.filter_cons_of_pos,
        List.filter_nil]
      apply Consumes.singleton
      · simp [credited, hfresh hkey]
      · intro m
        show m = key ∧ (t.depositKeyUsed m).getD false = true ↔
          (m = key ∧ (s.depositKeyUsed m).getD false = true) ∨ m = key
        rw [hmark, marked_update]
        grind
    · -- a transfer to another recipient
      simp only [List.map_cons, List.map_nil, hrecipient, decide_false, Bool.false_eq_true,
        not_false_eq_true, List.filter_cons_of_neg, List.filter_nil]
      apply Consumes.of_eq
      ext m
      have hother : t.depositKeyUsed key = s.depositKeyUsed key := by
        rw [hmark]
        split
        · exact update_of_ne (Ne.symm hrecipient) _ _
        · rfl
      simp only [credited, isDepositKeySpent, Set.mem_ofPred_eq]
      grind
  · obtain ⟨hnew, rfl⟩ := registerDepositKey_effect hreturns
    rw [acceptedRecipients, haccepted]
    apply Consumes.of_eq
    ext m
    have hother : key ≠ commitment := by
      rintro rfl
      rw [registered, Set.mem_ofPred_eq, hnew] at hkey
      cases hkey
    simp only [credited, isDepositKeySpent, Set.mem_ofPred_eq]
    grind
  · rw [acceptedRecipients, haccepted]
    apply Consumes.of_eq
    ext m
    simp [credited, isDepositKeySpent, hsame.depositKeyUsed]

end Steps

/-! ## Runs -/

section Runs

variable [DecidableEq Address] {host : Host Address} {s t : State Address}
  {ls : List (Submission Address)}

/-- From its registration on a key is credited at most once. -/
theorem count_recipients_le_one {key : BytesN 32} (hkey : key ∈ registered s)
    (h : Run (Step (entryPoint host)) s ls t) :
    (ls.flatMap acceptedRecipients).count key ≤ 1 := by
  have hstep : ∀ u l w, key ∈ registered u → Step (entryPoint host) u l w →
      key ∈ registered w ∧
        Consumes (credited key) u ((acceptedRecipients l).filter (· = key)) w := by
    intro u l w hu hl
    exact ⟨((consumes_registrations hl).used_iff key).mpr (.inl hu), consumes_credits hu hl⟩
  obtain ⟨-, hconsumes⟩ := h.consumes hstep hkey
  have hcount := List.nodup_iff_count_le_one.mp hconsumes.nodup key
  have hfilter : ls.flatMap (fun l => (acceptedRecipients l).filter (· = key)) =
      (ls.flatMap acceptedRecipients).filter (· = key) := by
    rw [List.filter_flatMap]
  rwa [hfilter, List.count_filter (by simp)] at hcount

/-- **Nothing is spent twice**, in a run of any calls by any callers with any verifiers: every
nullifier and every proof is accepted at most once, a deposit key is registered at most once, and
from its registration on it is the recipient of at most one accepted transfer. -/
theorem single_spend (h : Run (Step (entryPoint host)) (State.empty Address) ls s) :
    (ls.flatMap acceptedNullifiers).Nodup ∧
    (ls.flatMap (acceptedDigests host.sha256)).Nodup ∧
    (ls.flatMap registeredKeys).Nodup ∧
    ∀ before l after key, ls = before ++ l :: after → key ∈ registeredKeys l →
      (after.flatMap acceptedRecipients).count key ≤ 1 := by
  -- none of the three needs an invariant
  have hnullifiers := h.consumes (I := fun _ => True)
    (fun _ _ _ _ hl => ⟨trivial, consumes_nullifiers hl⟩) trivial
  have hdigests := h.consumes (I := fun _ => True)
    (fun _ _ _ _ hl => ⟨trivial, consumes_digests hl⟩) trivial
  have hkeys := h.consumes (I := fun _ => True)
    (fun _ _ _ _ hl => ⟨trivial, consumes_registrations hl⟩) trivial
  refine ⟨hnullifiers.2.nodup, hdigests.2.nodup, hkeys.2.nodup, ?_⟩
  rintro before l after key rfl hkey
  obtain ⟨u, -, hrest⟩ := h.of_append
  obtain ⟨w, hl, hafter⟩ := hrest.of_cons
  have hregistered : key ∈ registered w :=
    ((consumes_registrations hl).used_iff key).mpr (.inr hkey)
  exact count_recipients_le_one hregistered hafter

end Runs

/-! ## A run with a registered key -/

/-- A key is registered, credited once, and not a second time with another nullifier and proof. -/
def sampleSpends : List (Env ℕ × Call ℕ) :=
  [(sampleEnv, .initializeContract 1 2 (.replicate 32 9) (.replicate 32 8)),
   (sampleEnv, .registerDepositKey 5 (.replicate 32 12)),
   (sampleEnv, .applyPrivateTransfer 3 (sampleTransfer (.replicate 32 8) 10) [1]),
   (sampleEnv, .applyPrivateTransfer 3
    { sampleTransfer (.replicate 32 8) 10 with nullifier := .replicate 32 7 } [2]),
   (sampleEnv, .applyPrivateTransfer 4 (sampleTransfer (.replicate 32 8) 20) [3])]

theorem single_spend_sample :
    ∃ ls s, Run (Step (entryPoint sampleHost)) (State.empty ℕ) ls s ∧
      ls.flatMap acceptedNullifiers = [.replicate 32 10, .replicate 32 20] ∧
      ls.flatMap registeredKeys = [.replicate 32 12] ∧
      (ls.flatMap acceptedNullifiers).Nodup ∧
      (ls.flatMap (acceptedDigests Sha256.hash)).Nodup := by
  have hrun := run_execute (entryPoint sampleHost) (State.empty ℕ) sampleSpends
  obtain ⟨hnullifiers, hdigests, -⟩ := single_spend hrun
  exact ⟨_, _, hrun, by decide +kernel, by decide +kernel, hnullifiers, hdigests⟩

end PrivateTransferContract
