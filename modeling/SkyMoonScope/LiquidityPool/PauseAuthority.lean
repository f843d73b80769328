import SkyMoonScope.LiquidityPool.Guard

/-!
# Who may change the pause mask

Every function of the guard that writes the pause mask asks for the authorization of an admin, of a
quorum of admins or of a quorum of guardians, under both its names, except `set_pause_state`, which
asks nobody. The mask changes with authority as long as `set_pause_state` is called with authority
or without effect.

## Main definitions

* `Authorized`: an admin, or a positive quorum of admins or of guardians, has authorized the call
* `Call.KeepsMask`: the call is not `set_pause_state`, or it is authorized or has no effect
* `Guarded`: the invariant, that the threshold is positive, and that the mask is clear until there
  are admins

## Main results

* `mask_authorized_iff`: a call changes the mask with authority only, just when it keeps the mask in
  this sense
* `not_mask_authorized`: `set_pause_state` pauses the pool without any authorization
-/

namespace LiquidityPool

open Soroban Machine EmergencyGuard

variable {Address Tokens : Type}

/-- An admin has authorized the call, or as many admins or guardians as a positive threshold asks
for. -/
def Authorized (auth : Address → Bool) (g : EmergencyGuard.State Address) : Prop :=
  (∃ admin, auth admin = true ∧ admin ∈ getAdmins g) ∨
    0 < getThreshold g ∧ (Signed auth g (getAdmins g) ∨ Signed auth g (getGuardians g))

/-- A call of `set_pause_state` is authorized, or leaves the mask as it is. -/
def Call.KeepsMask (host : Host Address Tokens) (s : Storage Address Tokens) :
    Call Address → Prop
  | .setPauseState operation paused =>
    PauseType.setPaused (getPauseState s.guard) operation paused = getPauseState s.guard ∨
      Authorized host.auth s.guard
  | _ => True

/-- The threshold is positive, and nothing is set before the admins are. -/
structure Guarded (g : EmergencyGuard.State Address) : Prop where
  threshold_pos : ∀ threshold, g.signatureThreshold = some threshold → 0 < threshold
  unset : g.admins = none → g.signatureThreshold = none ∧ getPauseState g = 0

section Authority

variable {auth : Address → Bool} {g : EmergencyGuard.State Address} {members : List Address}

/-- A quorum for a positive threshold has a member. -/
theorem exists_auth_of_signed (hpos : 0 < getThreshold g) (h : Signed auth g members) :
    ∃ a, auth a = true := by
  obtain ⟨threshold, hthreshold, signers, -, hsigners, hlen⟩ := h
  rw [getThreshold, hthreshold, Option.getD_some] at hpos
  obtain ⟨a, ha⟩ := List.exists_mem_of_length_pos (hpos.trans_le hlen)
  exact ⟨a, (hsigners a ha).2⟩

/-- Somebody has authorized an authorized call. -/
theorem Authorized.exists_auth (h : Authorized auth g) : ∃ a, auth a = true := by
  rcases h with ⟨admin, hauth, -⟩ | ⟨hpos, hsigned | hsigned⟩
  · exact ⟨admin, hauth⟩
  · exact exists_auth_of_signed hpos hsigned
  · exact exists_auth_of_signed hpos hsigned

namespace Guarded

theorem getThreshold_pos (hg : Guarded g) (h : Signed auth g members) : 0 < getThreshold g := by
  obtain ⟨threshold, hthreshold, -⟩ := h
  rw [getThreshold, hthreshold, Option.getD_some]
  exact hg.threshold_pos threshold hthreshold

/-- What the guard approves is authorized. -/
theorem authorized (hg : Guarded g) (h : Approved auth g) : Authorized auth g := by
  rcases h with hadmin | hsigned | hsigned
  · exact .inl hadmin
  · exact .inr ⟨hg.getThreshold_pos hsigned, .inl hsigned⟩
  · exact .inr ⟨hg.getThreshold_pos hsigned, .inr hsigned⟩

/-- Nobody has authority before there are admins. -/
theorem not_authorized (hg : Guarded g) (hnone : g.admins = none) : ¬ Authorized auth g := by
  rintro (⟨admin, -, hmem⟩ | ⟨hpos, -⟩)
  · rw [getAdmins, hnone] at hmem
    cases hmem
  · rw [getThreshold, (hg.unset hnone).1] at hpos
    exact absurd hpos (lt_irrefl 0)

/-- New admins do not touch the threshold. -/
theorem withAdmins (hg : Guarded g) (admins : List Address) :
    Guarded { g with admins := some admins } :=
  ⟨hg.threshold_pos, by rintro ⟨⟩⟩

end Guarded

end Authority

section

variable [DecidableEq Address] {host : Host Address Tokens} {s t : Storage Address Tokens}
  {call : Call Address} {v : Response Address}

/-- A call that kept the mask, where it returned. -/
def maskStep (s : Storage Address Tokens) (l : Event Address Tokens)
    (t : Storage Address Tokens) : Prop :=
  s.step l t ∧ ∀ v, l.result = .ok v → l.call.KeepsMask l.host s

omit [DecidableEq Address] in
theorem Call.keepsMask_of_checked (hcall : call.checked = true) : call.KeepsMask host s := by
  cases call <;> trivial

/-- **A call changes the mask with authority only, just when it keeps the mask**, where the guard
is as it should be. -/
theorem Guarded.mask_iff (hs : Guarded s.guard) (h : Returns (entryPoint host call) s v t) :
    (getPauseState t.guard ≠ getPauseState s.guard → Authorized host.auth s.guard) ↔
      call.KeepsMask host s := by
  -- most calls leave the mask as it is
  have hsame : getPauseState t.guard = getPauseState s.guard → call.KeepsMask host s →
      ((getPauseState t.guard ≠ getPauseState s.guard → Authorized host.auth s.guard) ↔
        call.KeepsMask host s) :=
    fun hmask hkeeps => iff_of_true (fun hne => absurd hmask hne) hkeeps
  cases guardAfter h with
  | same hcall h hguard => exact hsame (by rw [hguard]) (Call.keepsMask_of_checked hcall)
  | paused hcall h happroved hguard =>
    exact iff_of_true (fun _ => hs.authorized happroved) (Call.keepsMask_of_checked hcall)
  | setPauseState h hguard =>
    rw [hguard]
    exact or_iff_not_imp_left.symm
  | initGuard h hnone hthreshold hguard =>
    refine hsame ?_ trivial
    rw [hguard, (hs.unset hnone).2]
    rfl
  | initializePool hpool hnone hadmin hguard =>
    refine hsame ?_ trivial
    rw [hguard, (hs.unset hnone).2]
    rfl
  | added hcall h hnew hguard =>
    exact hsame (by rw [hguard]; rfl) (Call.keepsMask_of_checked hcall)
  | removeGuardAdmin h hmem hguard => exact hsame (by rw [hguard]; rfl) trivial
  | removeAdmin hlen hguard hadmin hpool => exact hsame (by rw [hguard]; rfl) trivial
  | rotateAdmin hguard hadmin hpool => exact hsame (by rw [hguard]; rfl) trivial

theorem Guarded.of_returns (hs : Guarded s.guard) (h : Returns (entryPoint host call) s v t)
    (hkeeps : call.KeepsMask host s) : Guarded t.guard := by
  have hmask := (hs.mask_iff h).mpr hkeeps
  have hunset : t.guard.admins = s.guard.admins →
      t.guard.signatureThreshold = s.guard.signatureThreshold → Guarded t.guard := by
    intro hadmins hthreshold
    refine ⟨fun threshold hsome => hs.threshold_pos threshold (hthreshold ▸ hsome), ?_⟩
    intro hnone
    rw [hadmins] at hnone
    obtain ⟨hnone', hzero⟩ := hs.unset hnone
    refine ⟨hthreshold.trans hnone', ?_⟩
    -- a mask that has changed was changed with an authority that nobody has yet
    by_contra hne
    exact hs.not_authorized hnone (hmask (hzero.symm ▸ hne))
  cases guardAfter h with
  | same hcall h hguard => exact hunset (by rw [hguard]) (by rw [hguard])
  | paused hcall h happroved hguard => exact hunset (by rw [hguard]) (by rw [hguard])
  | setPauseState h hguard => exact hunset (by rw [hguard]) (by rw [hguard])
  | initGuard h hnone hthreshold hguard =>
    rw [hguard]
    refine ⟨?_, by rintro ⟨⟩⟩
    rintro threshold ⟨⟩
    exact hthreshold
  | initializePool hpool hnone hadmin hguard =>
    rw [hguard]
    refine ⟨?_, by rintro ⟨⟩⟩
    rintro threshold ⟨⟩
    exact one_pos
  | added hcall h hnew hguard => rw [hguard]; exact hs.withAdmins _
  | removeGuardAdmin h hmem hguard => rw [hguard]; exact hs.withAdmins _
  | removeAdmin hlen hguard hadmin hpool => rw [hguard]; exact hs.withAdmins _
  | rotateAdmin hguard hadmin hpool => rw [hguard]; exact hs.withAdmins _

theorem guarded_of_run {tokens : Tokens} {ls : List (Event Address Tokens)}
    (h : Run maskStep (Storage.initial tokens) ls s) : Guarded s.guard := by
  apply invariant_of_returns (I := fun u => Guarded u.guard) (fun hu => hu.of_returns) h
  exact ⟨by rintro threshold ⟨⟩, fun _ => ⟨rfl, rfl⟩⟩

/-- **Pause authority.** After every run of calls that keep the mask, a call that returns changes
the mask with authority only, just when it keeps the mask; a call that fails does not change it. -/
theorem mask_authorized_iff {tokens : Tokens} {ls : List (Event Address Tokens)}
    (hrun : Run maskStep (Storage.initial tokens) ls s)
    {result : Except (Fault Failure) (Response Address)} (h : s.step ⟨host, call, result⟩ t) :
    (∀ v, result = .ok v →
      ((getPauseState t.guard ≠ getPauseState s.guard → Authorized host.auth s.guard) ↔
        call.KeepsMask host s)) ∧
      ∀ fault, result = .error fault → getPauseState t.guard = getPauseState s.guard := by
  have hs := guarded_of_run hrun
  apply Storage.step_split h
  · exact fun v hreturns => hs.mask_iff hreturns
  · rintro rfl
    rfl

end

/-- The admin of the pool pauses the swaps, and resumes them. -/
def samplePauses : List (Host ℕ Unit × Call ℕ) :=
  [(sampleHost 1 [9], .initializePool 9 100 101),
   (sampleHost 2 [9], .pauseSwaps),
   (sampleHost 3 [9], .unpause 9 1)]

theorem mask_authorized_iff_sample :
    ∃ (ls : List (Event ℕ Unit)) (s t : Storage ℕ Unit),
      Run maskStep (Storage.initial ()) ls s ∧
      s.step ⟨sampleHost 4 [9], .guardPause 9 2 true, .ok .unit⟩ t ∧
      getPauseState t.guard = 2 ∧ Authorized (sampleHost 4 [9]).auth s.guard := by
  have hrun := run_execute_of (P := fun u l => ∀ v, l.result = .ok v → l.call.KeepsMask l.host u)
    (Storage.initial ()) samplePauses (by
      intro c hc u result v _
      simp only [samplePauses, List.mem_cons, List.not_mem_nil, or_false] at hc
      rcases hc with rfl | rfl | rfl <;> exact trivial)
  have hstep : Storage.step _ ⟨sampleHost 4 [9], .guardPause 9 2 true, .ok .unit⟩ _ :=
    Storage.step_invoke (execute (Storage.initial ()) samplePauses).2 _ _ rfl
  refine ⟨_, _, _, hrun, hstep, rfl, ?_⟩
  exact ((mask_authorized_iff hrun hstep).1 .unit rfl).mpr trivial (by decide)

/-- `set_pause_state` pauses the swaps though nobody has authorized the call. -/
theorem not_mask_authorized :
    ¬ ∀ (ls : List (Event ℕ Unit)) (s t : Storage ℕ Unit) (host : Host ℕ Unit) (call : Call ℕ)
      (result : Except (Fault Failure) (Response ℕ)),
      Run Storage.step (Storage.initial ()) ls s → s.step ⟨host, call, result⟩ t →
      getPauseState t.guard ≠ getPauseState s.guard → Authorized host.auth s.guard := by
  intro h
  have hrun := run_execute (Storage.initial ()) samplePauses
  have hauthorized := h _ _ _ (sampleHost 4 []) (.setPauseState 1 true) (.ok .unit) hrun
    (Storage.step_invoke _ _ _ rfl) (by decide)
  obtain ⟨a, ha⟩ := hauthorized.exists_auth
  cases ha

end LiquidityPool
