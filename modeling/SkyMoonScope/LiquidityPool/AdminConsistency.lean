import SkyMoonScope.LiquidityPool.Guard

/-!
# The admin of the pool among the admins of the guard

The admin of the pool is stored beside the admins of the guard. Where the trait removes or rotates
an admin, the admin of the pool follows; `remove_guard_admin` removes one and leaves the admin of
the pool as it is. The two agree as long as that function removes nobody who is the admin of the
pool.

## Main definitions

* `Consistent`: the admin of an initialised pool is one of the admins of the guard
* `Call.KeepsAdmin`: the call is not `remove_guard_admin` of the admin of the pool
* `AdministeredBy`: the invariant of an initialised pool

## Main results

* `consistent_iff`: the two agree after a call just when it keeps the admin in this sense
* `not_consistent`: a removed admin stays the admin of the pool
-/

namespace LiquidityPool

open Soroban Machine EmergencyGuard

variable {Address Tokens : Type}

/-- After the initialisation the admin of the pool is one of the admins of the guard. -/
def Consistent (s : Storage Address Tokens) : Prop :=
  s.pool.isSome → ∃ admin, s.admin = some admin ∧ admin ∈ getAdmins s.guard

/-- The call does not remove the admin of the pool from the guard alone. -/
def Call.KeepsAdmin (s : Storage Address Tokens) : Call Address → Prop
  | .removeGuardAdmin _ admin => s.pool.isSome → s.admin ≠ some admin
  | _ => True

/-- The pool is administered by one of different admins, of whom a removal leaves at least one. -/
structure AdministeredBy (admin : Address) (s : Storage Address Tokens) : Prop where
  primary : s.admin = some admin
  mem : admin ∈ getAdmins s.guard
  nodup : (getAdmins s.guard).Nodup
  threshold_pos : 0 < getThreshold s.guard

/-- An initialised pool is administered by somebody. -/
def Administered (s : Storage Address Tokens) : Prop :=
  s.pool.isSome → ∃ admin, AdministeredBy admin s

section Admins

variable {s t : Storage Address Tokens} {call : Call Address} {admin : Address}

theorem Call.keepsAdmin_of_checked (hcall : call.checked = true) : call.KeepsAdmin s := by
  cases call <;> trivial

theorem Administered.consistent (h : Administered s) : Consistent s := by
  intro hpool
  obtain ⟨admin, hadmin⟩ := h hpool
  exact ⟨admin, hadmin.primary, hadmin.mem⟩

namespace AdministeredBy

/-- The admins stay what they are. -/
theorem of_same (hs : AdministeredBy admin s) (h : SameAdmin s t)
    (hadmins : getAdmins t.guard = getAdmins s.guard)
    (hthreshold : getThreshold t.guard = getThreshold s.guard) : AdministeredBy admin t where
  primary := h.admin.trans hs.primary
  mem := hadmins ▸ hs.mem
  nodup := hadmins ▸ hs.nodup
  threshold_pos := hthreshold ▸ hs.threshold_pos

/-- The admins are replaced by different ones, and one of them is the admin of the pool. -/
theorem of_admins {admins : List Address} {admin' : Address} (hs : AdministeredBy admin s)
    (hguard : t.guard = { s.guard with admins := some admins }) (hadmin : t.admin = some admin')
    (hmem : admin' ∈ admins) (hnodup : admins.Nodup) : AdministeredBy admin' t := by
  refine ⟨hadmin, ?_, ?_, ?_⟩ <;> rw [hguard]
  · exact hmem
  · exact hnodup
  · exact hs.threshold_pos

theorem admins_ne_none (hs : AdministeredBy admin s) : s.admins ≠ none := by
  intro hnone
  have hmem := hs.mem
  rw [getAdmins, show s.guard.admins = none from hnone] at hmem
  cases hmem

variable [DecidableEq Address]

/-- A removal leaves an admin, as more were there than the threshold. -/
theorem exists_head (hs : AdministeredBy admin s) {departing : Address}
    (hlen : getThreshold s.guard < (getAdmins s.guard).length) :
    ∃ head, ((getAdmins s.guard).filter fun a => a ≠ departing).head? = some head := by
  have herase : (getAdmins s.guard).erase departing =
      (getAdmins s.guard).filter fun a => a ≠ departing := by
    rw [hs.nodup.erase_eq_filter]
    exact List.filter_congr fun a _ => by by_cases ha : a = departing <;> simp [ha]
  have hle := List.le_length_erase (a := departing) (l := getAdmins s.guard)
  rw [herase] at hle
  have hpos := hs.threshold_pos
  obtain ⟨head, tail, heq⟩ := List.exists_cons_of_length_pos (by omega :
    0 < ((getAdmins s.guard).filter fun a => a ≠ departing).length)
  exact ⟨head, by rw [heq]; rfl⟩

end AdministeredBy

end Admins

section

variable [DecidableEq Address] {host : Host Address Tokens} {s t : Storage Address Tokens}
  {call : Call Address} {v : Response Address} {admin : Address}

/-- A call that kept the admin, where it returned. -/
def adminStep (s : Storage Address Tokens) (l : Event Address Tokens)
    (t : Storage Address Tokens) : Prop :=
  s.step l t ∧ ∀ v, l.result = .ok v → l.call.KeepsAdmin s

/-- **The admin of an initialised pool is one of the admins after a call just when it is kept.** -/
theorem AdministeredBy.step (hs : AdministeredBy admin s) (hpool : s.pool.isSome)
    (h : Returns (entryPoint host call) s v t) (hkeeps : call.KeepsAdmin s) :
    ∃ admin', AdministeredBy admin' t := by
  cases guardAfter h with
  | same hcall h hguard =>
    exact ⟨admin, hs.of_same h (by rw [hguard]) (by rw [hguard])⟩
  | paused hcall h happroved hguard =>
    exact ⟨admin, hs.of_same h (by rw [hguard]; rfl) (by rw [hguard]; rfl)⟩
  | setPauseState h hguard =>
    exact ⟨admin, hs.of_same h (by rw [hguard]; rfl) (by rw [hguard]; rfl)⟩
  -- neither returns once there is a guard, or a pool
  | initGuard h hnone => exact absurd hnone hs.admins_ne_none
  | initializePool hnone => rw [hnone] at hpool; cases hpool
  | added hcall h hnew hguard =>
    refine ⟨admin, hs.of_admins hguard (h.admin.trans hs.primary) ?_ ?_⟩
    · exact List.mem_append_left _ hs.mem
    · exact List.nodup_append.mpr ⟨hs.nodup, List.nodup_singleton _, by grind⟩
  | removeGuardAdmin h hmem hguard =>
    -- nobody follows here, so the condition has to exclude the admin of the pool
    refine ⟨admin, hs.of_admins hguard (h.admin.trans hs.primary) ?_ (hs.nodup.filter _)⟩
    have hne := hkeeps hpool
    rw [hs.primary] at hne
    exact List.mem_filter.mpr ⟨hs.mem, by simpa using hne⟩
  | @removeAdmin approvers departing _ hlen hguard hadmin =>
    by_cases hdeparts : s.admin = some departing
    · -- the first of those left follows
      obtain ⟨head, hhead⟩ := hs.exists_head hlen
      rw [if_pos hdeparts, hguard] at hadmin
      refine ⟨head, hs.of_admins hguard ?_ (List.mem_of_head? hhead) (hs.nodup.filter _)⟩
      rw [hadmin]
      exact congrArg (fun o => o.or s.admin) hhead
    · rw [if_neg hdeparts, hs.primary] at hadmin
      refine ⟨admin, hs.of_admins hguard hadmin ?_ (hs.nodup.filter _)⟩
      rw [hs.primary] at hdeparts
      exact List.mem_filter.mpr ⟨hs.mem, by simpa using hdeparts⟩
  | @rotateAdmin approvers departing newAdmin _ hguard hadmin =>
    have hnodup : ((getAdmins s.guard).filter (fun a => a ≠ departing ∧ a ≠ newAdmin) ++
        [newAdmin]).Nodup := by
      refine List.nodup_append.mpr ⟨hs.nodup.filter _, List.nodup_singleton _, ?_⟩
      grind
    by_cases hdeparts : s.admin = some departing
    · -- the new admin follows
      rw [if_pos hdeparts] at hadmin
      exact ⟨newAdmin, hs.of_admins hguard hadmin (by simp) hnodup⟩
    · rw [if_neg hdeparts, hs.primary] at hadmin
      refine ⟨admin, hs.of_admins hguard hadmin ?_ hnodup⟩
      rw [hs.primary] at hdeparts
      by_cases hnew : admin = newAdmin
      · simp [hnew]
      · refine List.mem_append_left _ (List.mem_filter.mpr ⟨hs.mem, ?_⟩)
        simpa [hnew] using hdeparts

/-- An initialised pool was so before the call, or is initialised by it. -/
theorem Administered.of_returns (hs : Administered s) (h : Returns (entryPoint host call) s v t)
    (hkeeps : call.KeepsAdmin s) : Administered t := by
  intro hpool'
  by_cases hpool : s.pool.isSome
  · obtain ⟨admin, hadmin⟩ := hs hpool
    exact hadmin.step hpool h hkeeps
  · have hsame : t.pool.isSome = s.pool.isSome → ∃ admin, AdministeredBy admin t :=
      fun heq => absurd (heq ▸ hpool') hpool
    cases guardAfter h with
    | initializePool hnone hnone' hadmin hguard =>
      refine ⟨_, hadmin, ?_, ?_, ?_⟩ <;> rw [hguard]
      · exact List.mem_singleton_self _
      · exact List.nodup_singleton _
      · exact one_pos
    | same hcall h | paused hcall h | setPauseState h | initGuard h | added hcall h
    | removeGuardAdmin h => exact hsame h.isSome
    | removeAdmin hlen hguard hadmin hsome | rotateAdmin hguard hadmin hsome => exact hsame hsome

theorem administered_of_run {tokens : Tokens} {ls : List (Event Address Tokens)}
    (h : Run adminStep (Storage.initial tokens) ls s) : Administered s := by
  apply invariant_of_returns (C := fun _ u call => call.KeepsAdmin u) (I := Administered)
    (fun hu => hu.of_returns) h
  rintro ⟨⟩

/-- Removing the admin of the pool from the guard alone leaves an admin that is none. -/
theorem not_consistent_of_not_keepsAdmin (h : Returns (entryPoint host call) s v t)
    (hkeeps : ¬ call.KeepsAdmin s) : ¬ Consistent t := by
  intro hconsistent
  cases guardAfter h with
  | same hcall | paused hcall | added hcall => exact hkeeps (Call.keepsAdmin_of_checked hcall)
  | setPauseState | initGuard | initializePool | removeAdmin | rotateAdmin => exact hkeeps trivial
  | removeGuardAdmin h hmem hguard =>
    obtain ⟨hpool, hadmin⟩ := Classical.not_imp.mp hkeeps
    obtain ⟨admin, heq, hmem'⟩ := hconsistent (h.isSome ▸ hpool)
    rw [h.admin, not_not.mp hadmin] at heq
    obtain rfl := Option.some.inj heq
    rw [hguard] at hmem'
    simpa using (List.mem_filter.mp hmem').2

/-- **Admin consistency.** In every run of calls that keep the admin, the admin of an initialised
pool is one of the admins of the guard. It is so after the next call that returns just when that
one keeps the admin as well, and always after one that fails. -/
theorem consistent_iff {tokens : Tokens} {ls : List (Event Address Tokens)}
    (hrun : Run adminStep (Storage.initial tokens) ls s)
    {result : Except (Fault Failure) (Response Address)} (h : s.step ⟨host, call, result⟩ t) :
    Consistent s ∧ (∀ v, result = .ok v → (Consistent t ↔ call.KeepsAdmin s)) ∧
      ∀ fault, result = .error fault → Consistent t := by
  have hs := administered_of_run hrun
  refine ⟨hs.consistent, Storage.step_split h ?_ ?_⟩
  · intro v hreturns
    constructor
    · intro hconsistent
      by_contra hkeeps
      exact not_consistent_of_not_keepsAdmin hreturns hkeeps hconsistent
    · exact fun hkeeps => (hs.of_returns hreturns hkeeps).consistent
  · rintro rfl
    exact hs.consistent

end

/-- A pool with two admins. -/
def sampleAdmins : List (Host ℕ Unit × Call ℕ) :=
  [(sampleHost 1 [9], .initializePool 9 100 101),
   (sampleHost 2 [9], .addGuardAdmin [9] 8)]

/-- Where the trait removes the admin of the pool, the other admin follows. -/
theorem consistent_iff_sample :
    ∃ (ls : List (Event ℕ Unit)) (s t : Storage ℕ Unit),
      Run adminStep (Storage.initial ()) ls s ∧
      s.step ⟨sampleHost 3 [9], .removeAdmin [9] 9, .ok .unit⟩ t ∧
      t.admin = some 8 ∧ Consistent t := by
  have hrun := run_execute_of (P := fun u l => ∀ v, l.result = .ok v → l.call.KeepsAdmin u)
    (Storage.initial ()) sampleAdmins (by
      intro c hc u result v _
      simp only [sampleAdmins, List.mem_cons, List.not_mem_nil, or_false] at hc
      rcases hc with rfl | rfl <;> exact trivial)
  have hstep : Storage.step _ ⟨sampleHost 3 [9], .removeAdmin [9] 9, .ok .unit⟩ _ :=
    Storage.step_invoke (execute (Storage.initial ()) sampleAdmins).2 _ _ rfl
  refine ⟨_, _, _, hrun, hstep, rfl, ?_⟩
  exact ((consistent_iff hrun hstep).2.1 .unit rfl).mpr trivial

/-- Where the guard removes it under the pool's own name, it stays the admin of the pool. -/
theorem not_consistent :
    ¬ ∀ (ls : List (Event ℕ Unit)) (s : Storage ℕ Unit),
      Run Storage.step (Storage.initial ()) ls s → Consistent s := by
  intro h
  have hrun := run_execute (Storage.initial ())
    (sampleAdmins ++ [(sampleHost 3 [9], .removeGuardAdmin [9] 9)])
  obtain ⟨admin, hadmin, hmem⟩ := h _ _ hrun rfl
  obtain rfl : 9 = admin := Option.some.inj hadmin
  exact absurd hmem (by decide)

end LiquidityPool
