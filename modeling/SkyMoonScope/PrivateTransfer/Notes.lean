import SkyMoonScope.PrivateTransfer.SingleSpend

/-!
# The encrypted notes

An accepted transfer stores two ciphertexts, each under the commitment it belongs to. That the two
commitments differ is checked, and so the second does not replace the first. That nothing is stored
under them already is not checked. A later transfer with one of the commitments and another
ciphertext replaces the note, and this is the only way in which a note changes.

## Main definitions

* `NotesKept s t`: every note of the storage `s` is a note of the storage `t`
* `NotesFresh s transfer`: no other notes are stored under the commitments of a transfer
* `NotesImmutable`: along a run no note is changed

## Main results

* `ciphertext_step`: what a call does to the notes
* `notesImmutable_iff`: a run changes no note just when its transfers find no other ones
* `note_replaced`: a run in which a note is replaced
-/

namespace PrivateTransferContract

open Soroban Machine Function

variable {Address : Type}

/-- Every note is still there. -/
def NotesKept (s t : State Address) : Prop :=
  ∀ commitment ciphertext, s.ciphertext commitment = some ciphertext →
    t.ciphertext commitment = some ciphertext

/-- Under the commitment of an update nothing is stored, or the same. -/
def NoteFresh (s : State Address) (u : EncryptedBalanceUpdate) : Prop :=
  ∀ ciphertext, s.ciphertext u.commitment = some ciphertext → ciphertext = u.ciphertext

def NotesFresh (s : State Address) (transfer : PrivateTransfer) : Prop :=
  NoteFresh s transfer.senderUpdate ∧ NoteFresh s transfer.recipientUpdate

theorem NotesKept.refl (s : State Address) : NotesKept s s := fun _ _ h => h

theorem NotesKept.trans {s t u : State Address} (h : NotesKept s t) (h' : NotesKept t u) :
    NotesKept s u := fun commitment ciphertext hs => h' commitment ciphertext (h _ _ hs)

section Steps

variable [DecidableEq Address] {host : Host Address} {env : Env Address} {s t u : State Address}
  {l : Submission Address} {transfer : PrivateTransfer}

/-- **An accepted transfer** stores its two ciphertexts. -/
theorem ciphertext_applyPrivateTransfer {relayer : Address} {proof : List UInt8}
    {r : TransferReceipt}
    (h : Returns (applyPrivateTransfer host env relayer transfer proof) s r t) :
    transfer.senderUpdate.commitment ≠ transfer.recipientUpdate.commitment ∧
      t.ciphertext = update
        (update s.ciphertext transfer.senderUpdate.commitment
          (some transfer.senderUpdate.ciphertext))
        transfer.recipientUpdate.commitment (some transfer.recipientUpdate.ciphertext) := by
  simp only [applyPrivateTransfer, requireAuth, requireNonzeroCommitment, validateProofMaterial,
    readCurrentRoot, bind_assoc, returns_require_bind, returns_get_bind, returns_orFault_bind,
    returns_set_bind] at h
  obtain ⟨-, -, -, hne, -, -, _, -, _, -, -, -, _, -, -, _, -, -, h⟩ := h
  -- the deposit key is consumed between the checks and the records
  obtain ⟨_, u, hconsume, h⟩ := returns_bind.mp h
  obtain ⟨-, rfl⟩ := consumeDepositKey_effect hconsume
  simp only [recordTransfer, writeRoot, bind_assoc, returns_get_bind, returns_set_bind,
    returns_pure] at h
  obtain ⟨-, rfl⟩ := h
  exact ⟨hne, rfl⟩

/-- **A call** is an accepted transfer, or leaves the notes as they are. -/
theorem ciphertext_step (h : Step (entryPoint host) s l t) :
    (∃ transfer proof, acceptedTransfer l = [(transfer, proof)] ∧
      transfer.senderUpdate.commitment ≠ transfer.recipientUpdate.commitment ∧
      t.ciphertext = update
        (update s.ciphertext transfer.senderUpdate.commitment
          (some transfer.senderUpdate.ciphertext))
        transfer.recipientUpdate.commitment (some transfer.recipientUpdate.ciphertext)) ∨
    acceptedTransfer l = [] ∧ t.ciphertext = s.ciphertext := by
  obtain ⟨env, call, result⟩ := l
  rcases h.cases with ⟨v, hv, hreturns⟩ | ⟨⟨fault, hfault⟩, rfl⟩
  · obtain rfl : result = .ok v := hv
    by_cases happly : ∃ relayer transfer proof,
        call = .applyPrivateTransfer relayer transfer proof
    · obtain ⟨relayer, transfer, proof, rfl⟩ := happly
      obtain ⟨r, haccepted, rfl⟩ := returns_map.mp hreturns
      exact .inl ⟨transfer, proof, rfl, ciphertext_applyPrivateTransfer haccepted⟩
    · refine .inr ⟨by cases call <;> first | rfl | exact absurd ⟨_, _, _, rfl⟩ happly, ?_⟩
      -- the other calls that write, the keys and the initialization, leave the ciphertexts out
      by_cases hregister : ∃ owner commitment, call = .registerDepositKey owner commitment
      · obtain ⟨owner, commitment, rfl⟩ := hregister
        obtain ⟨_, u, hregistered, hpure⟩ := returns_bind.mp hreturns
        obtain ⟨-, rfl⟩ := returns_pure.mp hpure
        obtain ⟨-, rfl⟩ := registerDepositKey_effect hregistered
        rfl
      by_cases hinit : ∃ admin verifier vk root, call = .initializeContract admin verifier vk root
      · obtain ⟨admin, verifier, vk, root, rfl⟩ := hinit
        simp only [entryPoint, initializeContract, writeRoot, bind_assoc, returns_get_bind,
          returns_require_bind, returns_set_bind, returns_pure] at hreturns
        obtain ⟨-, -, rfl⟩ := hreturns
        rfl
      · rw [frame_of_other hreturns
          (fun admin verifier vk root hc => hinit ⟨admin, verifier, vk, root, hc⟩)
          (fun owner commitment hc => hregister ⟨owner, commitment, hc⟩)
          (fun relayer transfer proof hc => happly ⟨relayer, transfer, proof, hc⟩)]
  · obtain rfl : result = .error fault := hfault
    exact .inr ⟨by cases call <;> rfl, rfl⟩

/-- **A call keeps the notes** just when an accepted transfer finds no other ones. -/
theorem notesKept_iff (h : Step (entryPoint host) s l t) :
    NotesKept s t ↔ ∀ p ∈ acceptedTransfer l, NotesFresh s p.1 := by
  rcases ciphertext_step h with ⟨transfer, proof, haccepted, hne, ht⟩ | ⟨haccepted, ht⟩
  · rw [haccepted, List.forall_mem_singleton]
    constructor
    · intro hkept
      constructor
      · -- the two commitments are different, so that the note of the sender is not replaced again
        intro ciphertext hs
        have hafter := hkept _ _ hs
        rw [ht, update_of_ne hne, update_self] at hafter
        exact (Option.some.inj hafter).symm
      · intro ciphertext hs
        have hafter := hkept _ _ hs
        rw [ht, update_self] at hafter
        exact (Option.some.inj hafter).symm
    · rintro ⟨hsender, hrecipient⟩ commitment ciphertext hs
      rw [ht]
      by_cases hr : commitment = transfer.recipientUpdate.commitment
      · subst hr
        rw [update_self, hrecipient ciphertext hs]
      · rw [update_of_ne hr]
        by_cases hsend : commitment = transfer.senderUpdate.commitment
        · subst hsend
          rw [update_self, hsender ciphertext hs]
        · rwa [update_of_ne hsend]
  · rw [haccepted]
    refine iff_of_true (fun commitment ciphertext hs => ?_) fun p hp => absurd hp List.not_mem_nil
    rwa [ht]

end Steps

/-! ## Runs -/

section Runs

variable [DecidableEq Address] (host : Host Address)

/-- **No note is changed** by a call of a run: whatever is stored after some of the calls is stored
after some more of them. -/
def NotesImmutable (ls : List (Submission Address)) : Prop :=
  ∀ before middle after u w, ls = before ++ middle ++ after →
    Run (Step (entryPoint host)) (State.empty Address) before u →
      Run (Step (entryPoint host)) u middle w → NotesKept u w

/-- A step whose transfer, if it is an accepted one, finds no other notes. -/
def FreshStep (s : State Address) (l : Submission Address) (t : State Address) : Prop :=
  Step (entryPoint host) s l t ∧ ∀ p ∈ acceptedTransfer l, NotesFresh s p.1

variable {host} {s t : State Address} {ls : List (Submission Address)}

/-- A run of such steps keeps the notes. -/
theorem notesKept_of_run (h : Run (FreshStep host) s ls t) : NotesKept s t := by
  induction h with
  | nil s => exact .refl s
  | cons hl _ ih => exact ((notesKept_iff hl.1).mpr hl.2).trans ih

/-- **A run changes no note** just when every transfer that it accepts finds no other notes under
its commitments. -/
theorem notesImmutable_iff (h : Run (Step (entryPoint host)) (State.empty Address) ls s) :
    NotesImmutable host ls ↔ Run (FreshStep host) (State.empty Address) ls s := by
  constructor
  · intro himmutable
    -- from every state on the way, the steps that are left are fresh
    have hrest : ∀ (before after : List (Submission Address)) u, ls = before ++ after →
        Run (Step (entryPoint host)) (State.empty Address) before u →
          Run (Step (entryPoint host)) u after s → Run (FreshStep host) u after s := by
      intro before after
      induction after generalizing before with
      | nil =>
        intro u _ _ hnil
        cases hnil
        exact .nil _
      | cons l after ih =>
        intro u hls hbefore hafter
        obtain ⟨w, hl, hafter⟩ := hafter.of_cons
        have hls' : ls = before ++ [l] ++ after := by
          rw [hls, List.append_assoc, List.singleton_append]
        have hkept := himmutable before [l] after u w hls' hbefore (.single hl)
        exact .cons ⟨hl, (notesKept_iff hl).mp hkept⟩
          (ih (before ++ [l]) w hls' (hbefore.append (.single hl)) hafter)
    exact hrest [] ls _ rfl (.nil _) h
  · rintro hfresh before middle after u w rfl hbefore hmiddle
    obtain ⟨w', hfirst, -⟩ := hfresh.of_append
    obtain ⟨u', hbefore', hmiddle'⟩ := hfirst.of_append
    -- the calls decide which states these are
    obtain rfl := run_unique hbefore (hbefore'.mono fun _ _ _ hl => hl.1)
    obtain rfl := run_unique hmiddle (hmiddle'.mono fun _ _ _ hl => hl.1)
    exact notesKept_of_run hmiddle'

end Runs

/-! ## Two runs -/

/-- Two transfers with different commitments. -/
theorem notesImmutable_sample : ∃ ls s,
    Run (Step (entryPoint sampleHost)) (State.empty ℕ) ls s ∧
      (ls.flatMap acceptedTransfer).length = 2 ∧
      (NotesImmutable sampleHost ls ↔ Run (FreshStep sampleHost) (State.empty ℕ) ls s) := by
  have hrun := run_execute (entryPoint sampleHost) (State.empty ℕ) sampleSubmissions
  exact ⟨_, _, hrun, by decide +kernel, notesImmutable_iff hrun⟩

/-- A second transfer, with another nullifier and another proof, to the recipient of the first. -/
def repeatedCommitment : List (Env ℕ × Call ℕ) :=
  sampleSubmissions.take 2 ++ [(sampleEnv, .applyPrivateTransfer 4
    { sampleTransfer (.replicate 32 8) 20 with recipientUpdate := ⟨.replicate 32 12, [99]⟩ } [2])]

/-- **A note is replaced.** The second transfer leaves another ciphertext for the recipient. -/
theorem note_replaced :
    ¬∀ (ls : List (Submission ℕ)) (s : State ℕ),
      Run (Step (entryPoint sampleHost)) (State.empty ℕ) ls s → NotesImmutable sampleHost ls := by
  intro hall
  let first := execute (entryPoint sampleHost) (State.empty ℕ) (sampleSubmissions.take 2)
  let second := execute (entryPoint sampleHost) first.2 (repeatedCommitment.drop 2)
  have hfirst : Run (Step (entryPoint sampleHost)) (State.empty ℕ) first.1 first.2 :=
    run_execute _ _ _
  have hsecond : Run (Step (entryPoint sampleHost)) first.2 second.1 second.2 := run_execute _ _ _
  have hkept := hall _ _ (hfirst.append hsecond) first.1 second.1 [] first.2 second.2
    (List.append_nil _).symm hfirst hsecond
  -- both transfers are accepted
  have hbefore : first.2.ciphertext (.replicate 32 12) = some [12] := by decide +kernel
  have hafter : second.2.ciphertext (.replicate 32 12) = some [99] := by decide +kernel
  exact absurd ((hkept _ _ hbefore).symm.trans hafter) (by decide)

end PrivateTransferContract
