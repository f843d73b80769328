import SkyMoonScope.EmergencyGuard.Entrypoints
import Mathlib.Data.List.TakeWhile

/-!
# Where the two families of functions agree

`EmergencyGuard` and the defaults of the trait, `DefaultEmergencyGuard`, are to be the same guard.
Here both are driven by the same calls, each on its own storage. They part where one of them checks
what the other does not: the number of admins, the admin that sets the pause mask, and the
guardians, of whom the trait never has any. A rotation puts the new admin in the place of the old
one in the first, and last in the second.

## Main definitions

* `SharedCall`: a call that both have, with `SharedCall.standalone` and `DefaultEmergencyGuard.body`
  for what each of them runs
* `Twin`: a call made of both
* `Agree`: both returned or both failed, and they have the same admins, threshold and pause mask
* `SharedCall.Agreeable`: the call is one on which both do the same

## Main results

* `rotated_eq_iff`: when both rotations leave the same list
* `agree_iff_agreeable`: both agree all along a run just when all its calls are agreeable
* `twins_disagree`: anybody sets the pause mask of the second
-/

namespace EmergencyGuard

open Soroban Machine

variable {Address : Type}

/-- A call of the interface that both share. -/
inductive SharedCall (Address : Type)
  | initGuard (admins : List Address) (threshold : ℕ) (guardian : Address)
  | setPauseState (admin : Address) (operation : UInt32) (paused : Bool)
  | unpause (admin : Address) (operation : UInt32)
  | unpauseAll (admin : Address)
  | emergencyPauseAll (approvers : List Address)
  | resumeAll (approvers : List Address)
  | addAdmin (approvers : List Address) (newAdmin : Address)
  | removeAdmin (approvers : List Address) (admin : Address)
  | rotateAdmin (approvers : List Address) (oldAdmin newAdmin : Address)

/-- The call of `EmergencyGuard`, which unpauses by `set_pause`. -/
def SharedCall.standalone : SharedCall Address → Call Address
  | .initGuard admins threshold guardian => .initializeGuard admins threshold guardian
  | .setPauseState admin operation paused => .setPause admin operation paused
  | .unpause admin operation => .setPause admin operation false
  | .unpauseAll admin => .setPause admin PauseType.all false
  | .emergencyPauseAll approvers => .emergencyPause approvers
  | .resumeAll approvers => .resume approvers
  | .addAdmin approvers newAdmin => .addAdmin approvers newAdmin
  | .removeAdmin approvers admin => .removeAdmin approvers admin
  | .rotateAdmin approvers oldAdmin newAdmin => .rotateAdmin approvers oldAdmin newAdmin

/-- The body of a call in the trait, which takes no guardian and no admin that sets the mask. -/
def DefaultEmergencyGuard.body [DecidableEq Address] (auth : Address → Bool) :
    SharedCall Address → Body Address Unit
  | .initGuard admins threshold _ => initGuard admins threshold
  | .setPauseState _ operation paused => setPauseState operation paused
  | .unpause admin operation => unpause auth admin operation
  | .unpauseAll admin => unpauseAll auth admin
  | .emergencyPauseAll approvers => emergencyPauseAll auth approvers
  | .resumeAll approvers => resumeAll auth approvers
  | .addAdmin approvers newAdmin => addAdmin auth approvers newAdmin
  | .removeAdmin approvers admin => removeAdmin auth approvers admin
  | .rotateAdmin approvers oldAdmin newAdmin => rotateAdmin auth approvers oldAdmin newAdmin

/-- A call made of both guards, with what it returned or failed with in each of them. -/
structure TwinEvent (Address : Type) where
  auth : Address → Bool
  call : SharedCall Address
  standalone : Except (Fault GuardError) Unit
  embedded : Except (Fault GuardError) Unit

/-- The same call of the first guard and of the second, each on its own storage. -/
def Twin [DecidableEq Address] (p : State Address × State Address) (l : TwinEvent Address)
    (q : State Address × State Address) : Prop :=
  Step entryPoint p.1 ⟨l.auth, l.call.standalone, l.standalone⟩ q.1 ∧
    Step DefaultEmergencyGuard.body p.2 ⟨l.auth, l.call, l.embedded⟩ q.2

/-- The same admins, the same threshold and the same pause mask. -/
structure SameEntries (s t : State Address) : Prop where
  admins : s.admins = t.admins
  threshold : s.signatureThreshold = t.signatureThreshold
  pauseState : s.pauseState = t.pauseState

/-- Both have returned or both have failed, and their entries are the same. -/
def Agree (l : TwinEvent Address) (q : State Address × State Address) : Prop :=
  l.standalone.isOk = l.embedded.isOk ∧ SameEntries q.1 q.2

/-- The admins other than the old and the new one are different and come before these two. -/
def RotatesLast (oldAdmin newAdmin : Address) (admins : List Address) : Prop :=
  ∃ front rest, admins = front ++ rest ∧ front.Nodup ∧
    (∀ a ∈ front, a ≠ oldAdmin ∧ a ≠ newAdmin) ∧ ∀ a ∈ rest, a = oldAdmin ∨ a = newAdmin

/-- The call is one on which both guards do the same: it initialises with a number of admins within
the cap, an admin sets the pause mask, the guardian does not pause everything, an admin is added
below the cap, and a rotation that leaves enough admins is of one that the new one can follow. -/
def SharedCall.Agreeable [DecidableEq Address] (auth : Address → Bool) (s : State Address) :
    SharedCall Address → Prop
  | .initGuard admins threshold _ =>
    s.admins = none → 0 < threshold ∧ threshold ≤ admins.length → admins.length ≤ maxGuardians
  | .setPauseState admin _ _ => auth admin = true ∧ admin ∈ getAdmins s
  | .emergencyPauseAll approvers => ¬Approves auth s (getGuardians s) approvers
  | .addAdmin approvers newAdmin =>
    Approves auth s (getAdmins s) approvers → newAdmin ∉ getAdmins s →
      (getAdmins s).length < maxGuardians
  | .rotateAdmin approvers oldAdmin newAdmin =>
    Approves auth s (getAdmins s) approvers → oldAdmin ∈ getAdmins s →
      getThreshold s ≤
        ((getAdmins s).filter fun a => a ≠ oldAdmin ∧ a ≠ newAdmin).length + 1 →
      RotatesLast oldAdmin newAdmin (getAdmins s)
  | _ => True

variable [DecidableEq Address]

/-! ## The two rotations -/

/-- What comes before the old and the new admin is pushed as it is, and then the new one. -/
theorem rotated_append_cons {oldAdmin newAdmin a : Address} {front rest : List Address}
    (hnodup : front.Nodup) (hfront : ∀ b ∈ front, b ≠ oldAdmin ∧ b ≠ newAdmin)
    (ha : a = oldAdmin ∨ a = newAdmin) :
    rotated oldAdmin newAdmin (front ++ a :: rest) =
      (rest.map fun b => if b = oldAdmin then newAdmin else b).foldl pushNew
        (front ++ [newAdmin]) := by
  have hmapFront : front.map (fun b => if b = oldAdmin then newAdmin else b) = front := by
    rw [List.map_congr_left fun b hb => if_neg (hfront b hb).1, List.map_id']
  have ha' : (if a = oldAdmin then newAdmin else a) = newAdmin := by
    rcases ha with rfl | rfl <;> simp
  have hnew : newAdmin ∉ front := fun hmem => (hfront newAdmin hmem).2 rfl
  have hpushed : front.foldl pushNew [] = [] ++ front := foldl_pushNew_of_nodup hnodup
  rw [rotated_eq, List.map_append, hmapFront, List.map_cons, ha', List.foldl_append, hpushed,
    List.nil_append, List.foldl_cons, pushNew, if_neg hnew]

/-- Both rotations leave the same list just when the other admins are different and come first. -/
theorem rotated_eq_iff {oldAdmin newAdmin : Address} {admins : List Address}
    (hold : oldAdmin ∈ admins) :
    rotated oldAdmin newAdmin admins =
        admins.filter (fun a => a ≠ oldAdmin ∧ a ≠ newAdmin) ++ [newAdmin] ↔
      RotatesLast oldAdmin newAdmin admins := by
  constructor
  · intro heq
    let others : Address → Bool := fun a => a ≠ oldAdmin ∧ a ≠ newAdmin
    have hsplit := List.takeWhile_append_dropWhile (p := others) (l := admins)
    have hfront : ∀ a ∈ admins.takeWhile others, a ≠ oldAdmin ∧ a ≠ newAdmin := fun a ha => by
      simpa [others] using List.mem_takeWhile_imp ha
    have hhead := List.head?_dropWhile_not others admins
    generalize admins.takeWhile others = front at hsplit hfront
    generalize admins.dropWhile others = rest at hsplit hhead
    subst hsplit
    have hkept : front.filter others = front :=
      List.filter_eq_self.mpr fun a ha => by simpa [others] using hfront a ha
    have hnodup : (front ++ rest.filter others ++ [newAdmin]).Nodup := by
      rw [List.filter_append, hkept] at heq
      rw [← heq, rotated_eq]
      exact nodup_foldl_pushNew List.nodup_nil
    refine ⟨front, rest, rfl, (List.nodup_append.mp (List.nodup_append.mp hnodup).1).1,
      hfront, ?_⟩
    cases rest with
    | nil => simp
    | cons a rest =>
      have ha : a = oldAdmin ∨ a = newAdmin := by
        have hnot : others a = false := by simpa using hhead
        simp only [others, decide_eq_false_iff_not] at hnot
        tauto
      rw [rotated_append_cons (List.nodup_append.mp (List.nodup_append.mp hnodup).1).1 hfront ha,
        List.filter_append, hkept, List.append_assoc] at heq
      -- the new admin is pushed right after the front, so that nothing else stands there
      have hprefix := heq ▸ prefix_foldl_pushNew (front ++ [newAdmin]) _
      rw [List.prefix_append_right_inj] at hprefix
      cases hothers : (a :: rest).filter others with
      | nil =>
        intro b hb
        have hnot := List.filter_eq_nil_iff.mp hothers b hb
        simp only [others, decide_eq_true_eq] at hnot
        tauto
      | cons b l =>
        rw [hothers, List.cons_append, List.cons_prefix_cons] at hprefix
        have hb : b ∈ (a :: rest).filter others := hothers ▸ List.mem_cons_self
        simp [others, ← hprefix.1] at hb
  · rintro ⟨front, rest, rfl, hnodup, hfront, hrest⟩
    have hkept : front.filter (fun a => a ≠ oldAdmin ∧ a ≠ newAdmin) = front :=
      List.filter_eq_self.mpr fun a ha => by simpa using hfront a ha
    have hdropped : rest.filter (fun a => a ≠ oldAdmin ∧ a ≠ newAdmin) = [] :=
      List.filter_eq_nil_iff.mpr fun a ha => by
        rcases hrest a ha with rfl | rfl <;> simp
    cases rest with
    | nil => exact absurd rfl (hfront oldAdmin (by simpa using hold)).1
    | cons a rest =>
      obtain ⟨ha, hrest⟩ := List.forall_mem_cons.mp hrest
      rw [rotated_append_cons hnodup hfront ha, List.filter_append, hkept, hdropped,
        List.append_nil]
      refine foldl_pushNew_of_subset fun b hb => ?_
      obtain ⟨c, hc, rfl⟩ := List.mem_map.mp hb
      rcases hrest c hc with rfl | rfl <;> simp

/-- The rotation of the first guard never leaves more admins than that of the second. -/
theorem length_rotated_le (oldAdmin newAdmin : Address) (admins : List Address) :
    (rotated oldAdmin newAdmin admins).length ≤
      (admins.filter fun a => a ≠ oldAdmin ∧ a ≠ newAdmin).length + 1 := by
  have hnodup : (rotated oldAdmin newAdmin admins).Nodup := by
    rw [rotated_eq]
    exact nodup_foldl_pushNew List.nodup_nil
  have hsubset : rotated oldAdmin newAdmin admins ⊆
      admins.filter (fun a => a ≠ oldAdmin ∧ a ≠ newAdmin) ++ [newAdmin] := by
    intro b hb
    rw [rotated_eq, mem_foldl_pushNew] at hb
    obtain ⟨a, ha, rfl⟩ := List.mem_map.mp (hb.resolve_left List.not_mem_nil)
    simp only [List.mem_append, List.mem_filter, List.mem_singleton, decide_eq_true_eq]
    split
    · exact .inr rfl
    · next hold =>
      by_cases hnew : a = newAdmin
      · exact .inr hnew
      · exact .inl ⟨ha, hold, hnew⟩
  simpa using (hnodup.subperm hsubset).length_le

/-! ## When the defaults of the trait return -/

namespace DefaultEmergencyGuard

variable {auth : Address → Bool} {s t : State Address} {r : Unit} {approvers : List Address}

omit [DecidableEq Address] in
theorem returns_initGuard {admins : List Address} {threshold : ℕ} :
    Returns (initGuard admins threshold) s r t ↔
      (s.admins = none ∧ 0 < threshold ∧ threshold ≤ admins.length) ∧
        t = { s with
          admins := some admins
          signatureThreshold := some threshold
          pauseState := some 0 } := by
  simp only [initGuard, returns_get_bind, returns_require_bind, returns_set,
    Option.isNone_iff_eq_none, eq_comm (a := t)]
  grind

omit [DecidableEq Address] in
theorem returns_setPauseState {operation : UInt32} {paused : Bool} :
    Returns (setPauseState operation paused) s r t ↔
      True ∧ t = { s with
        pauseState := some (PauseType.setPaused (getPauseState s) operation paused) } := by
  simp only [setPauseState, returns_get_bind, returns_savePauseState, true_and, eq_comm (a := t)]

theorem returns_unpause {admin : Address} {operation : UInt32} :
    Returns (unpause auth admin operation) s r t ↔
      (auth admin = true ∧ admin ∈ getAdmins s) ∧
        t = { s with
          pauseState := some (PauseType.setPaused (getPauseState s) operation false) } := by
  simp only [unpause, returns_bind_of_checks fun _ _ => returns_requireAdmin,
    returns_setPauseState, true_and]

theorem returns_unpauseAll {admin : Address} :
    Returns (unpauseAll auth admin) s r t ↔
      (auth admin = true ∧ admin ∈ getAdmins s) ∧ t = { s with pauseState := some 0 } := by
  simp only [unpauseAll, returns_bind_of_checks fun _ _ => returns_requireAdmin,
    returns_savePauseState, eq_comm (a := t)]

theorem returns_addAdmin {newAdmin : Address} :
    Returns (addAdmin auth approvers newAdmin) s r t ↔
      Approves auth s (getAdmins s) approvers ∧
        t = if newAdmin ∈ getAdmins s then s
          else { s with admins := some (getAdmins s ++ [newAdmin]) } := by
  simp only [addAdmin, returns_checkMultiSig_bind, returns_get_bind]
  split <;> simp [eq_comm]

theorem returns_rotateAdmin {oldAdmin newAdmin : Address} :
    Returns (rotateAdmin auth approvers oldAdmin newAdmin) s r t ↔
      (Approves auth s (getAdmins s) approvers ∧ oldAdmin ∈ getAdmins s ∧
        getThreshold s ≤
          ((getAdmins s).filter fun a => a ≠ oldAdmin ∧ a ≠ newAdmin).length + 1) ∧
        t = { s with
          admins := some
            ((getAdmins s).filter (fun a => a ≠ oldAdmin ∧ a ≠ newAdmin) ++ [newAdmin]) } := by
  simp only [rotateAdmin, returns_checkMultiSig_bind, returns_get_bind, returns_require_bind,
    returns_saveAdmins, not_lt, List.length_append, List.length_singleton, and_assoc,
    eq_comm (a := t)]

end DefaultEmergencyGuard

/-! ## One call of both -/

/-- What two bodies do matches: each returns where the other does, with the same entries. -/
def Match (x y : State Address → Prop) : Prop :=
  (∀ t, x t → ∃ u, y u ∧ SameEntries t u) ∧ ∀ u, y u → ∃ t, x t ∧ SameEntries t u

omit [DecidableEq Address] in
/-- Two bodies match that return under conditions which agree, and then store the same entries. -/
theorem match_iff {x y : State Address → Prop} {p q : Prop} {t u : State Address}
    (hx : ∀ t', x t' ↔ p ∧ t' = t) (hy : ∀ u', y u' ↔ q ∧ u' = u) :
    Match x y ↔ (p ↔ q) ∧ (p → SameEntries t u) := by
  simp only [Match, hx, hy]
  constructor
  · rintro ⟨hxy, hyx⟩
    refine ⟨⟨fun hp => ?_, fun hq => ?_⟩, fun hp => ?_⟩
    · obtain ⟨_, ⟨hq, -⟩, -⟩ := hxy t ⟨hp, rfl⟩
      exact hq
    · obtain ⟨_, ⟨hp, -⟩, -⟩ := hyx u ⟨hq, rfl⟩
      exact hp
    · obtain ⟨_, ⟨-, rfl⟩, hsame⟩ := hxy t ⟨hp, rfl⟩
      exact hsame
  · rintro ⟨hpq, hsame⟩
    constructor
    · rintro _ ⟨hp, rfl⟩
      exact ⟨u, ⟨hpq.mp hp, rfl⟩, hsame hp⟩
    · rintro _ ⟨hq, rfl⟩
      exact ⟨t, ⟨hpq.mpr hq, rfl⟩, hsame (hpq.mpr hq)⟩

/-- What holds between the two guards as long as they agree: the same entries, no guardians in the
second, and a threshold that is not zero once it is stored. -/
structure Together (s d : State Address) : Prop where
  same : SameEntries s d
  unguarded : d.guardians = none
  threshold_pos : ∀ threshold, d.signatureThreshold = some threshold → 0 < threshold

section Pair

variable {auth : Address → Bool} {s d t u : State Address} {call : SharedCall Address}

omit [DecidableEq Address] in
theorem SameEntries.getAdmins_eq (h : SameEntries s d) : getAdmins d = getAdmins s := by
  rw [getAdmins, getAdmins, h.admins]

omit [DecidableEq Address] in
theorem SameEntries.getThreshold_eq (h : SameEntries s d) : getThreshold d = getThreshold s := by
  rw [getThreshold, getThreshold, h.threshold]

omit [DecidableEq Address] in
theorem SameEntries.getPauseState_eq (h : SameEntries s d) :
    getPauseState d = getPauseState s := by
  rw [getPauseState, getPauseState, h.pauseState]

theorem SameEntries.approves_iff (h : SameEntries s d) {members approvers : List Address} :
    Approves auth d members approvers ↔ Approves auth s members approvers := by
  constructor
  · rintro ⟨henough, hvalid⟩
    exact ⟨h.threshold ▸ henough, hvalid⟩
  · rintro ⟨henough, hvalid⟩
    exact ⟨h.threshold ▸ henough, hvalid⟩

/-- Nobody approves for guardians that do not exist. -/
theorem Together.not_approves (h : Together s d) {approvers : List Address} :
    ¬Approves auth d (getGuardians d) approvers := by
  rintro ⟨⟨threshold, hthreshold, henough⟩, hvalid⟩
  have hpos := h.threshold_pos threshold hthreshold
  rw [getGuardians, h.unguarded, Option.getD_none] at hvalid
  obtain rfl : approvers = [] :=
    List.eq_nil_iff_forall_not_mem.mpr fun a ha => List.not_mem_nil (hvalid a ha).1
  rw [List.toFinset_nil, Finset.card_empty] at henough
  omega

/-- Without the admins of either guard a mask of all operations is cleared at once. -/
theorem setPaused_all (state : UInt32) : PauseType.setPaused state PauseType.all false = 0 := by
  simp [PauseType.setPaused, PauseType.all]

/-- **One call.** From guards that agree, both do the same just when the call is agreeable. -/
theorem match_iff_agreeable (h : Together s d) :
    Match (fun t => Returns (entryPoint auth call.standalone) s () t)
        (fun u => Returns (DefaultEmergencyGuard.body auth call) d () u) ↔
      call.Agreeable auth s := by
  obtain ⟨hadmins, hthreshold, hpause⟩ := h.same
  cases call with
  | initGuard admins threshold guardian =>
    refine (match_iff (fun _ => returns_initializeGuard)
      fun _ => DefaultEmergencyGuard.returns_initGuard).trans ?_
    rw [← hadmins]
    constructor
    · exact fun hmatch hnone hvalid => (hmatch.1.mpr ⟨hnone, hvalid⟩).2.2
    · refine fun hagreeable => ⟨⟨?_, ?_⟩, fun _ => ⟨rfl, rfl, rfl⟩⟩
      · exact fun hstandalone => ⟨hstandalone.1, hstandalone.2.1⟩
      · exact fun hembedded => ⟨hembedded.1, hembedded.2, hagreeable hembedded.1 hembedded.2⟩
  | setPauseState admin operation paused =>
    refine (match_iff (fun _ => returns_setPause)
      fun _ => DefaultEmergencyGuard.returns_setPauseState).trans ?_
    rw [h.same.getPauseState_eq]
    exact ⟨fun hmatch => hmatch.1.mpr trivial,
      fun hagreeable => ⟨iff_of_true hagreeable trivial, fun _ => ⟨hadmins, hthreshold, rfl⟩⟩⟩
  | unpause admin operation =>
    refine (match_iff (fun _ => returns_setPause)
      fun _ => DefaultEmergencyGuard.returns_unpause).trans ?_
    rw [h.same.getPauseState_eq, h.same.getAdmins_eq]
    exact iff_true_intro ⟨.rfl, fun _ => ⟨hadmins, hthreshold, rfl⟩⟩
  | unpauseAll admin =>
    refine (match_iff (fun _ => returns_setPause)
      fun _ => DefaultEmergencyGuard.returns_unpauseAll).trans ?_
    rw [setPaused_all, h.same.getAdmins_eq]
    exact iff_true_intro ⟨.rfl, fun _ => ⟨hadmins, hthreshold, rfl⟩⟩
  | emergencyPauseAll approvers =>
    refine (match_iff (fun _ => returns_emergencyPause) fun _ => returns_emergencyPause).trans ?_
    constructor
    · exact fun hmatch happroves => h.not_approves (hmatch.1.mp happroves)
    · exact fun hnot => ⟨iff_of_false hnot h.not_approves, fun happroves => absurd happroves hnot⟩
  | resumeAll approvers =>
    refine (match_iff (fun _ => returns_resume) fun _ => returns_resume).trans ?_
    rw [h.same.getAdmins_eq]
    exact iff_true_intro ⟨h.same.approves_iff.symm, fun _ => ⟨hadmins, hthreshold, rfl⟩⟩
  | addAdmin approvers newAdmin =>
    refine (match_iff (fun _ => returns_addAdmin)
      fun _ => DefaultEmergencyGuard.returns_addAdmin).trans ?_
    rw [h.same.getAdmins_eq, h.same.approves_iff]
    constructor
    · exact fun hmatch happroves => (hmatch.1.mpr happroves).2
    · refine fun hagreeable => ⟨⟨And.left, fun happroves => ⟨happroves, hagreeable happroves⟩⟩,
        fun _ => ?_⟩
      split
      · exact h.same
      · exact ⟨rfl, hthreshold, hpause⟩
  | removeAdmin approvers admin =>
    refine (match_iff (fun _ => returns_removeAdmin) fun _ => returns_removeAdmin).trans ?_
    rw [h.same.getAdmins_eq, h.same.getThreshold_eq, h.same.approves_iff]
    exact iff_true_intro ⟨.rfl, fun _ => ⟨rfl, hthreshold, hpause⟩⟩
  | rotateAdmin approvers oldAdmin newAdmin =>
    refine (match_iff (fun _ => returns_rotateAdmin)
      fun _ => DefaultEmergencyGuard.returns_rotateAdmin).trans ?_
    rw [h.same.getAdmins_eq, h.same.getThreshold_eq, h.same.approves_iff]
    constructor
    · intro hmatch happroves hold hlen
      have hstandalone := hmatch.1.mpr ⟨happroves, hold, hlen⟩
      exact (rotated_eq_iff hold).mp (Option.some.inj (hmatch.2 hstandalone).admins)
    · intro hagreeable
      -- the rotation of the second guard lets through what that of the first does
      have hle := length_rotated_le oldAdmin newAdmin (getAdmins s)
      refine ⟨⟨?_, ?_⟩, ?_⟩
      · rintro ⟨happroves, hold, hlen⟩
        exact ⟨happroves, hold, hlen.trans hle⟩
      · rintro ⟨happroves, hold, hlen⟩
        refine ⟨happroves, hold, ?_⟩
        rwa [(rotated_eq_iff hold).mpr (hagreeable happroves hold hlen), List.length_append]
      · rintro ⟨happroves, hold, hlen⟩
        have hlast := hagreeable happroves hold (hlen.trans hle)
        exact ⟨congrArg some ((rotated_eq_iff hold).mpr hlast), hthreshold, hpause⟩

/-- A default of the trait leaves the guardians as they are, and stores no threshold of zero. -/
theorem DefaultEmergencyGuard.frame (h : Returns (body auth call) d () u) :
    u.guardians = d.guardians ∧ (u.signatureThreshold = d.signatureThreshold ∨
      ∃ threshold, u.signatureThreshold = some threshold ∧ 0 < threshold) := by
  cases call with
  | initGuard admins threshold guardian =>
    obtain ⟨-, hpos, rfl⟩ := initGuard_spec h
    exact ⟨rfl, .inr ⟨threshold, rfl, hpos⟩⟩
  | setPauseState admin operation paused =>
    obtain rfl := setPauseState_spec h
    exact ⟨rfl, .inl rfl⟩
  | unpause admin operation =>
    obtain ⟨-, rfl⟩ := unpause_spec h
    exact ⟨rfl, .inl rfl⟩
  | unpauseAll admin =>
    obtain ⟨-, rfl⟩ := unpauseAll_spec h
    exact ⟨rfl, .inl rfl⟩
  | emergencyPauseAll approvers =>
    obtain ⟨-, rfl⟩ := emergencyPauseAll_spec h
    exact ⟨rfl, .inl rfl⟩
  | resumeAll approvers =>
    obtain ⟨-, rfl⟩ := resumeAll_spec h
    exact ⟨rfl, .inl rfl⟩
  | addAdmin approvers newAdmin =>
    rcases addAdmin_spec h with rfl | ⟨-, rfl⟩
    · exact ⟨rfl, .inl rfl⟩
    · exact ⟨rfl, .inl rfl⟩
  | removeAdmin approvers admin =>
    obtain ⟨-, -, rfl⟩ := removeAdmin_spec h
    exact ⟨rfl, .inl rfl⟩
  | rotateAdmin approvers oldAdmin newAdmin =>
    obtain rfl := rotateAdmin_spec h
    exact ⟨rfl, .inl rfl⟩

theorem Together.of_returns (h : Together s d) (hu : Returns (DefaultEmergencyGuard.body auth call)
    d () u) (hsame : SameEntries t u) : Together t u := by
  obtain ⟨hguardians, hthreshold⟩ := DefaultEmergencyGuard.frame hu
  refine ⟨hsame, hguardians.trans h.unguarded, fun threshold hstored => ?_⟩
  rcases hthreshold with hkept | ⟨threshold', hstored', hpos⟩
  · exact h.threshold_pos threshold (hkept.symm.trans hstored)
  · obtain rfl : threshold' = threshold := Option.some.inj (hstored'.symm.trans hstored)
    exact hpos

/-- The two guards agree on a call just when it is agreeable, and then they stay together. -/
theorem Twin.agree_iff {p q : State Address × State Address} {l : TwinEvent Address}
    (hp : Together p.1 p.2) (hl : Twin p l q) :
    (Agree l q → Together q.1 q.2) ∧ (Agree l q ↔ l.call.Agreeable l.auth p.1) := by
  rw [← match_iff_agreeable hp]
  rcases hl.1.cases with ⟨v, hok, hfirst⟩ | ⟨⟨fault, hfault⟩, hfirst⟩ <;>
    rcases hl.2.cases with ⟨v', hok', hsecond⟩ | ⟨⟨fault', hfault'⟩, hsecond⟩
  · -- both have returned
    refine ⟨fun hagree => hp.of_returns hsecond hagree.2, fun hagree => ⟨?_, ?_⟩, fun hmatch => ?_⟩
    · exact fun t ht => ⟨q.2, hsecond, (hl.1.of_returns ht).2 ▸ hagree.2⟩
    · exact fun u hu => ⟨q.1, hfirst, (hl.2.of_returns hu).2 ▸ hagree.2⟩
    · obtain ⟨u, hu, hsame⟩ := hmatch.1 q.1 hfirst
      refine ⟨?_, (hl.2.of_returns hu).2 ▸ hsame⟩
      rw [show l.standalone = .ok v from hok, show l.embedded = .ok v' from hok']
  · -- only the first has returned
    have hnot : ¬Agree l q := by
      rintro ⟨hsame, -⟩
      rw [show l.standalone = .ok v from hok, show l.embedded = .error fault' from hfault'] at hsame
      cases hsame
    refine ⟨fun hagree => absurd hagree hnot, iff_of_false hnot fun hmatch => ?_⟩
    obtain ⟨u, hu, -⟩ := hmatch.1 q.1 hfirst
    cases hfault'.symm.trans (hl.2.of_returns hu).1
  · -- only the second has returned
    have hnot : ¬Agree l q := by
      rintro ⟨hsame, -⟩
      rw [show l.standalone = .error fault from hfault, show l.embedded = .ok v' from hok'] at hsame
      cases hsame
    refine ⟨fun hagree => absurd hagree hnot, iff_of_false hnot fun hmatch => ?_⟩
    obtain ⟨t, ht, -⟩ := hmatch.2 q.2 hsecond
    cases hfault.symm.trans (hl.1.of_returns ht).1
  · -- both have failed, and stay as they were
    have hagree : Agree l q := by
      refine ⟨?_, ?_⟩
      · rw [show l.standalone = .error fault from hfault,
          show l.embedded = .error fault' from hfault']
        rfl
      · rw [hfirst, hsecond]
        exact hp.same
    refine ⟨fun _ => ?_, iff_of_true hagree ⟨fun t ht => ?_, fun u hu => ?_⟩⟩
    · rw [hfirst, hsecond]
      exact hp
    · cases hfault.symm.trans (hl.1.of_returns ht).1
    · cases hfault'.symm.trans (hl.2.of_returns hu).1

/-- The storages of both before the first call. -/
def twinInitial (Address : Type) : State Address × State Address :=
  (State.initial Address, State.initial Address)

omit [DecidableEq Address] in
theorem together_initial : Together (State.initial Address) (State.initial Address) :=
  ⟨⟨rfl, rfl, rfl⟩, rfl, fun _ h => by cases h⟩

/-- **The two families agree** all along a run of the same calls, whichever addresses authorize
them, if and only if every call of it is agreeable. -/
theorem agree_iff_agreeable {ls : List (TwinEvent Address)}
    {p : State Address × State Address} :
    Run (fun p l q => Twin p l q ∧ Agree l q) (twinInitial Address) ls p ↔
      Run (fun p l q => Twin p l q ∧ l.call.Agreeable l.auth p.1) (twinInitial Address) ls p :=
  Run.and_iff_of_invariant (I := fun p => Together p.1 p.2)
    (fun _ _ _ hp hl hagree => (hl.agree_iff hp).1 hagree)
    (fun _ _ _ hp hl => (hl.agree_iff hp).2) together_initial

end Pair

/-- Somebody who is no admin sets the pause mask of the second guard, and not of the first. -/
theorem twins_disagree :
    ¬ ∀ (ls : List (TwinEvent ℕ)) (p : State ℕ × State ℕ), Run Twin (twinInitial ℕ) ls p →
      SameEntries p.1 p.2 ∧ ∀ l ∈ ls, l.standalone.isOk = l.embedded.isOk := by
  intro h
  have hinit : Twin (twinInitial ℕ) ⟨fun _ => true, .initGuard [1] 1 9, .ok (), .ok ()⟩
      (⟨some 0, some [1], some [9], some 1⟩, ⟨some 0, some [1], none, some 1⟩) := ⟨rfl, rfl⟩
  have hpause : Twin (⟨some 0, some [1], some [9], some 1⟩, ⟨some 0, some [1], none, some 1⟩)
      ⟨fun _ => true, .setPauseState 5 1 true, .error (.error .unauthorized), .ok ()⟩
      (⟨some 0, some [1], some [9], some 1⟩, ⟨some 1, some [1], none, some 1⟩) := ⟨rfl, rfl⟩
  have hmask := (h _ _ (.cons hinit (.single hpause))).1.pauseState
  exact absurd hmask (by decide)

end EmergencyGuard
