import SkyMoonScope.EmergencyGuard.Entrypoints

/-!
# Whether the quorums of the guard can still be met

The two checks of approvers count different members, and the functions that store the members and
the threshold compare the threshold with the length of a list, or not at all. A list with an
address twice, a threshold above the one guardian of `initialize` and the removal of a guardian can
each leave a quorum that nobody can ever meet.

## Main definitions

* `CountsDistinct`: what a check of approvers should do
* `AdminQuorum`, `GuardianQuorum`: the admins, or the guardians, are enough for their check
* `Call.KeepsAdmins`, `Call.KeepsGuardians`: the call leaves enough of them

## Main results

* `checks_countDistinct`: both checks count every approver once, and ask each
* `adminQuorum_iff_keeps`: the admins are enough all along a run just when its calls leave enough
* `guardianQuorum_iff_keeps`: the same for the guardians
* `admins_locked_out`, `guardians_locked_out`: a run after which they are not enough
-/

namespace EmergencyGuard

open Soroban Machine

variable {Address : Type} [DecidableEq Address] {s t : State Address} {auth : Address → Bool}
  {call : Call Address} {r : Unit}

/-- A check passes approvers that authorize it just when all of them are members and there are as
many different ones as the threshold asks for. No check passes without asking each approver. -/
structure CountsDistinct (check : (Address → Bool) → List Address → Body Address Unit)
    (members : List Address) (s : State Address) : Prop where
  passes_iff : ∀ auth approvers, (∀ a ∈ approvers, auth a = true) →
    (Returns (check auth approvers) s () s ↔
      (∀ a ∈ approvers, a ∈ members) ∧ ∃ threshold, s.signatureThreshold = some threshold ∧
        threshold ≤ approvers.toFinset.card)
  asked : ∀ auth approvers t, Returns (check auth approvers) s () t →
    s = t ∧ ∀ a ∈ approvers, auth a = true

/-- There are at least as many different admins as the threshold asks for and not more than the
cap, and some list of approvers passes the check whenever all of them authorize the call. -/
structure AdminQuorum (s : State Address) : Prop where
  enough : ∃ threshold, s.signatureThreshold = some threshold ∧ 1 ≤ threshold ∧
    threshold ≤ (getAdmins s).toFinset.card
  capped : (getAdmins s).length ≤ maxGuardians
  passes : ∃ approvers, ∀ auth : Address → Bool, (∀ a ∈ approvers, auth a = true) →
    Returns (checkMultiSig auth approvers) s () s

/-- There are at least as many different guardians as the threshold asks for, and some list of them
can pause everything whenever all of them authorize the call. -/
structure GuardianQuorum (s : State Address) : Prop where
  enough : ∃ threshold, s.signatureThreshold = some threshold ∧
    threshold ≤ (getGuardians s).toFinset.card
  pauses : ∃ approvers, ∀ auth : Address → Bool, (∀ a ∈ approvers, auth a = true) →
    Returns (emergencyPause auth approvers) s () { s with pauseState := some PauseType.all }

/-- The initialisation is with enough different admins, and a removal leaves enough of them. -/
def Call.KeepsAdmins (s : State Address) : Call Address → Prop
  | .initializeGuard admins threshold _ => threshold ≤ admins.toFinset.card
  | .initializeWithRoles admins _ threshold => threshold ≤ admins.toFinset.card
  | .removeAdmin _ _ => getThreshold s < (getAdmins s).toFinset.card
  | _ => True

/-- The initialisation is with enough different guardians, and a removal leaves enough of them. -/
def Call.KeepsGuardians (s : State Address) : Call Address → Prop
  | .initializeGuard _ threshold _ => threshold ≤ 1
  | .initializeWithRoles _ guardians threshold => threshold ≤ guardians.toFinset.card
  | .removeGuardian _ _ => getThreshold s < (getGuardians s).toFinset.card
  | _ => True

/-! ## Who passes a check -/

/-- A check of the members that the contract stores. -/
theorem countsDistinct_of_returns {check : (Address → Bool) → List Address → Body Address Unit}
    {members : List Address} (h : ∀ auth approvers t, Returns (check auth approvers) s () t ↔
      Approves auth s members approvers ∧ s = t) : CountsDistinct check members s where
  passes_iff := by
    intro auth approvers hauth
    rw [h]
    constructor
    · rintro ⟨⟨hthreshold, hmembers⟩, -⟩
      exact ⟨fun a ha => (hmembers a ha).1, hthreshold⟩
    · rintro ⟨hmembers, hthreshold⟩
      exact ⟨⟨hthreshold, fun a ha => ⟨hmembers a ha, hauth a ha⟩⟩, rfl⟩
  asked := by
    intro auth approvers t hreturns
    obtain ⟨⟨-, hmembers⟩, rfl⟩ := (h auth approvers t).mp hreturns
    exact ⟨rfl, fun a ha => (hmembers a ha).2⟩

/-- **Both checks count every approver once**, in whatever order and however often it is listed, and
ask each for its authorization. -/
theorem checks_countDistinct (s : State Address) :
    CountsDistinct checkMultiSig (getAdmins s) s ∧
      CountsDistinct checkGuardianMultiSig (getGuardians s) s :=
  ⟨countsDistinct_of_returns fun _ _ _ => returns_checkMultiSig,
    countsDistinct_of_returns fun _ _ _ => returns_checkGuardianMultiSig⟩

/-! ## Enough members can pass their check -/

/-- Members that are enough pass the check all together. -/
theorem approves_members {members : List Address} {threshold : ℕ}
    (hthreshold : s.signatureThreshold = some threshold)
    (henough : threshold ≤ members.toFinset.card) (hauth : ∀ a ∈ members, auth a = true) :
    Approves auth s members members :=
  ⟨⟨threshold, hthreshold, henough⟩, fun a ha => ⟨ha, hauth a ha⟩⟩

theorem adminQuorum_iff :
    AdminQuorum s ↔ (∃ threshold, s.signatureThreshold = some threshold ∧ 1 ≤ threshold ∧
      threshold ≤ (getAdmins s).toFinset.card) ∧ (getAdmins s).length ≤ maxGuardians := by
  constructor
  · intro h
    exact ⟨h.enough, h.capped⟩
  · rintro ⟨⟨threshold, hthreshold, hpos, henough⟩, hcapped⟩
    refine ⟨⟨threshold, hthreshold, hpos, henough⟩, hcapped, getAdmins s, fun auth hauth => ?_⟩
    exact returns_checkMultiSig.mpr ⟨approves_members hthreshold henough hauth, rfl⟩

theorem guardianQuorum_iff :
    GuardianQuorum s ↔ ∃ threshold, s.signatureThreshold = some threshold ∧
      threshold ≤ (getGuardians s).toFinset.card := by
  constructor
  · exact GuardianQuorum.enough
  · rintro ⟨threshold, hthreshold, henough⟩
    refine ⟨⟨threshold, hthreshold, henough⟩, getGuardians s, fun auth hauth => ?_⟩
    exact returns_emergencyPause.mpr ⟨approves_members hthreshold henough hauth, rfl⟩

/-- The quorum of the admins depends on them and on the threshold alone. -/
theorem adminQuorum_congr (hadmins : t.admins = s.admins)
    (hthreshold : t.signatureThreshold = s.signatureThreshold) :
    AdminQuorum t ↔ AdminQuorum s := by
  simp only [adminQuorum_iff, getAdmins, hadmins, hthreshold]

theorem guardianQuorum_congr (hguardians : t.guardians = s.guardians)
    (hthreshold : t.signatureThreshold = s.signatureThreshold) :
    GuardianQuorum t ↔ GuardianQuorum s := by
  simp only [guardianQuorum_iff, getGuardians, hguardians, hthreshold]

/-! ## The lists after a removal or a rotation -/

theorem card_toFinset_filter_ne {members : List Address} {a : Address} (ha : a ∈ members) :
    (members.filter fun b => b ≠ a).toFinset.card + 1 = members.toFinset.card := by
  have herase : (members.filter fun b => b ≠ a).toFinset = members.toFinset.erase a := by
    ext b
    simp [and_comm]
  rw [herase]
  exact Finset.card_erase_add_one (List.mem_toFinset.mpr ha)

theorem card_toFinset_append {members : List Address} {a : Address} (ha : a ∉ members) :
    (members ++ [a]).toFinset.card = members.toFinset.card + 1 := by
  have hinsert : (members ++ [a]).toFinset = insert a members.toFinset := by
    ext b
    simp
  rw [hinsert]
  exact Finset.card_insert_of_notMem (mt List.mem_toFinset.mp ha)

/-- A rotation leaves different admins, and not more of them than there were. -/
theorem rotated_spec (oldAdmin newAdmin : Address) (admins : List Address) :
    (rotated oldAdmin newAdmin admins).Nodup ∧
      (rotated oldAdmin newAdmin admins).length ≤ admins.length := by
  rw [rotated_eq]
  refine ⟨nodup_foldl_pushNew List.nodup_nil, ?_⟩
  simpa using length_foldl_pushNew_le []
    (admins.map fun a => if a = oldAdmin then newAdmin else a)

/-! ## What a call does to the quorums -/

/-- Only an initialised guard has members that approve anything. -/
theorem Approves.ne_initial {members approvers : List Address}
    (h : Approves auth s members approvers) : s ≠ State.initial Address := by
  rintro rfl
  obtain ⟨threshold, hthreshold, -⟩ := h.enough
  cases hthreshold

/-- The guard is initialised, and its quorum is as stated. -/
def Holds (quorum : State Address → Prop) (s : State Address) : Prop :=
  s.admins.isSome ∧ quorum s

/-- From a guard that is not initialised, or whose admins are enough, a call that returns leaves
enough of them just when it keeps them. -/
theorem adminQuorum_step (hs : s = State.initial Address ∨ Holds AdminQuorum s)
    (h : Returns (entryPoint auth call) s r t) :
    t.admins.isSome ∧ (AdminQuorum t ↔ call.KeepsAdmins s) := by
  -- what changes neither the admins nor the threshold keeps the quorum of an initialised guard
  have hsame : s ≠ State.initial Address → t.admins = s.admins →
      t.signatureThreshold = s.signatureThreshold →
      t.admins.isSome ∧ (AdminQuorum t ↔ True) := by
    intro hne hadmins hthreshold
    obtain ⟨hsome, hquorum⟩ := hs.resolve_left hne
    exact ⟨hadmins ▸ hsome, iff_true_intro ((adminQuorum_congr hadmins hthreshold).mpr hquorum)⟩
  cases call with
  | initializeGuard admins threshold guardian =>
    obtain ⟨⟨-, ⟨hpos, -⟩, hcapped⟩, rfl⟩ := returns_initializeGuard.mp h
    refine ⟨rfl, adminQuorum_iff.trans ?_⟩
    simp [Call.KeepsAdmins, getAdmins, hcapped, Nat.one_le_iff_ne_zero, hpos.ne']
  | initializeWithRoles admins guardians threshold =>
    obtain ⟨⟨-, ⟨hpos, -⟩, hcapped, -⟩, rfl⟩ := returns_initializeWithRoles.mp h
    refine ⟨rfl, adminQuorum_iff.trans ?_⟩
    simp [Call.KeepsAdmins, getAdmins, hcapped, Nat.one_le_iff_ne_zero, hpos.ne']
  | setPause admin operation paused =>
    obtain ⟨⟨-, hmem⟩, rfl⟩ := returns_setPause.mp h
    refine hsame ?_ rfl rfl
    rintro rfl
    cases hmem
  | emergencyPause approvers =>
    obtain ⟨happroves, rfl⟩ := returns_emergencyPause.mp h
    exact hsame happroves.ne_initial rfl rfl
  | resume approvers =>
    obtain ⟨happroves, rfl⟩ := returns_resume.mp h
    exact hsame happroves.ne_initial rfl rfl
  | addAdmin approvers newAdmin =>
    obtain ⟨⟨happroves, hlen⟩, rfl⟩ := returns_addAdmin.mp h
    split
    next => exact hs.resolve_left happroves.ne_initial |>.imp_right iff_true_intro
    next hnew =>
      obtain ⟨-, ⟨threshold, hthreshold, hpos, henough⟩, -⟩ :=
        hs.resolve_left happroves.ne_initial
      refine ⟨rfl, iff_true_intro (adminQuorum_iff.mpr ⟨⟨threshold, hthreshold, hpos, ?_⟩, ?_⟩)⟩
      · exact henough.trans ((card_toFinset_append hnew).symm ▸ Nat.le_succ _)
      · simpa [getAdmins, Nat.add_one_le_iff] using hlen hnew
  | addGuardian approvers newGuardian =>
    obtain ⟨⟨happroves, -⟩, rfl⟩ := returns_addGuardian.mp h
    exact hsame happroves.ne_initial (by split <;> rfl) (by split <;> rfl)
  | removeGuardian approvers guardian =>
    obtain ⟨⟨happroves, -⟩, rfl⟩ := returns_removeGuardian.mp h
    exact hsame happroves.ne_initial rfl rfl
  | removeAdmin approvers admin =>
    obtain ⟨⟨happroves, -, hmem⟩, rfl⟩ := returns_removeAdmin.mp h
    obtain ⟨-, ⟨threshold, hthreshold, hpos, -⟩, hcapped, -⟩ :=
      hs.resolve_left happroves.ne_initial
    -- a listing of the admin more than once does not count, so that one different admin is gone
    have hcard := card_toFinset_filter_ne hmem
    have hlen := (List.length_filter_le (fun a => a ≠ admin) (getAdmins s)).trans hcapped
    refine ⟨rfl, adminQuorum_iff.trans ?_⟩
    constructor
    · rintro ⟨⟨threshold', hthreshold', -, henough⟩, -⟩
      obtain rfl : threshold = threshold' := Option.some.inj (hthreshold.symm.trans hthreshold')
      simp only [Call.KeepsAdmins, getThreshold, hthreshold, Option.getD_some]
      exact hcard ▸ Nat.lt_succ_of_le henough
    · intro hkeeps
      simp only [Call.KeepsAdmins, getThreshold, hthreshold, Option.getD_some, ← hcard] at hkeeps
      exact ⟨⟨threshold, hthreshold, hpos, Nat.le_of_lt_succ hkeeps⟩, hlen⟩
  | rotateAdmin approvers oldAdmin newAdmin =>
    obtain ⟨⟨happroves, -, hlen⟩, rfl⟩ := returns_rotateAdmin.mp h
    obtain ⟨-, ⟨threshold, hthreshold, hpos, -⟩, hcapped, -⟩ :=
      hs.resolve_left happroves.ne_initial
    obtain ⟨hnodup, hle⟩ := rotated_spec oldAdmin newAdmin (getAdmins s)
    -- the new list is as long as there are different admins in it
    have hcard := List.toFinset_card_of_nodup hnodup
    rw [getThreshold, hthreshold, Option.getD_some] at hlen
    exact ⟨rfl, iff_true_intro (adminQuorum_iff.mpr
      ⟨⟨threshold, hthreshold, hpos, hlen.trans hcard.ge⟩, hle.trans hcapped⟩)⟩
  | validateMultiSig approvers =>
    obtain ⟨happroves, rfl⟩ := returns_checkMultiSig.mp h
    exact hsame happroves.ne_initial rfl rfl

/-- The same for the guardians. -/
theorem guardianQuorum_step (hs : s = State.initial Address ∨ Holds GuardianQuorum s)
    (h : Returns (entryPoint auth call) s r t) :
    t.admins.isSome ∧ (GuardianQuorum t ↔ call.KeepsGuardians s) := by
  have hsame : s ≠ State.initial Address → (s.admins.isSome → t.admins.isSome) →
      t.guardians = s.guardians → t.signatureThreshold = s.signatureThreshold →
      t.admins.isSome ∧ (GuardianQuorum t ↔ True) := by
    intro hne hadmins hguardians hthreshold
    obtain ⟨hsome, hquorum⟩ := hs.resolve_left hne
    exact ⟨hadmins hsome,
      iff_true_intro ((guardianQuorum_congr hguardians hthreshold).mpr hquorum)⟩
  cases call with
  | initializeGuard admins threshold guardian =>
    obtain ⟨-, rfl⟩ := returns_initializeGuard.mp h
    refine ⟨rfl, guardianQuorum_iff.trans ?_⟩
    simp [Call.KeepsGuardians, getGuardians]
  | initializeWithRoles admins guardians threshold =>
    obtain ⟨-, rfl⟩ := returns_initializeWithRoles.mp h
    refine ⟨rfl, guardianQuorum_iff.trans ?_⟩
    simp [Call.KeepsGuardians, getGuardians]
  | setPause admin operation paused =>
    obtain ⟨⟨-, hmem⟩, rfl⟩ := returns_setPause.mp h
    refine hsame ?_ id rfl rfl
    rintro rfl
    cases hmem
  | emergencyPause approvers =>
    obtain ⟨happroves, rfl⟩ := returns_emergencyPause.mp h
    exact hsame happroves.ne_initial id rfl rfl
  | resume approvers =>
    obtain ⟨happroves, rfl⟩ := returns_resume.mp h
    exact hsame happroves.ne_initial id rfl rfl
  | addAdmin approvers newAdmin =>
    obtain ⟨⟨happroves, -⟩, rfl⟩ := returns_addAdmin.mp h
    refine hsame happroves.ne_initial (fun hsome => ?_) (by split <;> rfl) (by split <;> rfl)
    split
    · exact hsome
    · rfl
  | addGuardian approvers newGuardian =>
    obtain ⟨⟨happroves, -⟩, rfl⟩ := returns_addGuardian.mp h
    split
    next => exact hs.resolve_left happroves.ne_initial |>.imp_right iff_true_intro
    next hnew =>
      obtain ⟨hsome, ⟨threshold, hthreshold, henough⟩, -⟩ :=
        hs.resolve_left happroves.ne_initial
      refine ⟨hsome, iff_true_intro (guardianQuorum_iff.mpr ⟨threshold, hthreshold, ?_⟩)⟩
      exact henough.trans ((card_toFinset_append hnew).symm ▸ Nat.le_succ _)
  | removeGuardian approvers guardian =>
    obtain ⟨⟨happroves, hmem⟩, rfl⟩ := returns_removeGuardian.mp h
    obtain ⟨hsome, ⟨threshold, hthreshold, -⟩, -⟩ := hs.resolve_left happroves.ne_initial
    have hcard := card_toFinset_filter_ne hmem
    refine ⟨hsome, guardianQuorum_iff.trans ?_⟩
    constructor
    · rintro ⟨threshold', hthreshold', henough⟩
      obtain rfl : threshold = threshold' := Option.some.inj (hthreshold.symm.trans hthreshold')
      simp only [Call.KeepsGuardians, getThreshold, hthreshold, Option.getD_some]
      exact hcard ▸ Nat.lt_succ_of_le henough
    · intro hkeeps
      simp only [Call.KeepsGuardians, getThreshold, hthreshold, Option.getD_some, ← hcard]
        at hkeeps
      exact ⟨threshold, hthreshold, Nat.le_of_lt_succ hkeeps⟩
  | removeAdmin approvers admin =>
    obtain ⟨⟨happroves, -⟩, rfl⟩ := returns_removeAdmin.mp h
    exact hsame happroves.ne_initial (fun _ => rfl) rfl rfl
  | rotateAdmin approvers oldAdmin newAdmin =>
    obtain ⟨⟨happroves, -⟩, rfl⟩ := returns_rotateAdmin.mp h
    exact hsame happroves.ne_initial (fun _ => rfl) rfl rfl
  | validateMultiSig approvers =>
    obtain ⟨happroves, rfl⟩ := returns_checkMultiSig.mp h
    exact hsame happroves.ne_initial id rfl rfl

/-! ## The quorums along a run -/

abbrev Event (Address : Type) := Soroban.Event (Address → Bool) (Call Address) GuardError Unit

section Runs

variable {ls : List (Event Address)}

/-- A quorum that each returning call leaves just when it keeps it holds all along a run just when
all returning calls of the run keep it. -/
theorem quorum_iff_keeps {quorum : State Address → Prop}
    {keeps : State Address → Call Address → Prop}
    (hstep : ∀ {auth call u w}, u = State.initial Address ∨ Holds quorum u →
      Returns (entryPoint auth call) u () w → w.admins.isSome ∧ (quorum w ↔ keeps u call)) :
    Run (fun u l w => Step entryPoint u l w ∧ (w.admins.isSome → quorum w))
        (State.initial Address) ls s ↔
      Run (fun u l w => Step entryPoint u l w ∧ ∀ v, l.result = .ok v → keeps u l.call)
        (State.initial Address) ls s := by
  refine Run.and_iff_of_invariant
    (I := fun u => u = State.initial Address ∨ Holds quorum u) ?_ ?_ (.inl rfl)
  · intro u l w hu hl hquorum
    rcases hl.cases with ⟨v, -, hreturns⟩ | ⟨-, rfl⟩
    · have hsome := (hstep hu hreturns).1
      exact .inr ⟨hsome, hquorum hsome⟩
    · exact hu
  · intro u l w hu hl
    rcases hl.cases with ⟨v, hv, hreturns⟩ | ⟨⟨fault, hfault⟩, rfl⟩
    · obtain ⟨hsome, hiff⟩ := hstep hu hreturns
      constructor
      · exact fun hquorum _ _ => hiff.mp (hquorum hsome)
      · exact fun hkeeps _ => hiff.mpr (hkeeps v hv)
    · -- a call that fails changes nothing, and a guard that is not initialised has no admins
      refine iff_of_true (fun hsome => ?_) fun v hv => ?_
      · rcases hu with rfl | hu
        · cases hsome
        · exact hu.2
      · rw [hfault] at hv
        cases hv

/-- **The quorum of the admins** can be met after every call of a run, whichever addresses authorize
its calls, if and only if every initialisation is with as many different admins as its threshold
and every removal of an admin is from more different ones than the threshold. -/
theorem adminQuorum_iff_keeps :
    Run (fun u l w => Step entryPoint u l w ∧ (w.admins.isSome → AdminQuorum w))
        (State.initial Address) ls s ↔
      Run (fun u l w => Step entryPoint u l w ∧ ∀ v, l.result = .ok v → l.call.KeepsAdmins u)
        (State.initial Address) ls s :=
  quorum_iff_keeps fun hu h => adminQuorum_step hu h

/-- **The quorum of the guardians** can be met after every call of a run, if and only if every
initialisation is with as many different guardians as its threshold, of which `initialize` has
one, and every removal of a guardian is from more different ones than the threshold. -/
theorem guardianQuorum_iff_keeps :
    Run (fun u l w => Step entryPoint u l w ∧ (w.admins.isSome → GuardianQuorum w))
        (State.initial Address) ls s ↔
      Run (fun u l w => Step entryPoint u l w ∧ ∀ v, l.result = .ok v → l.call.KeepsGuardians u)
        (State.initial Address) ls s :=
  quorum_iff_keeps fun hu h => guardianQuorum_step hu h

end Runs

/-- Two admins that are the same address cannot sign for a threshold of two. -/
theorem admins_locked_out :
    ¬ ∀ (ls : List (Event ℕ)) (s : State ℕ), Run (Step entryPoint) (State.initial ℕ) ls s →
      s.admins.isSome → AdminQuorum s := by
  intro h
  have hrun := run_execute entryPoint (State.initial ℕ)
    [(fun _ => true, .initializeGuard [1, 1] 2 9)]
  obtain ⟨threshold, hthreshold, -, henough⟩ := (h _ _ hrun rfl).enough
  obtain rfl : 2 = threshold := Option.some.inj hthreshold
  exact absurd henough (by decide)

/-- One guardian cannot sign for a threshold of two, and no call pauses everything. -/
theorem guardians_locked_out :
    ¬ ∀ (ls : List (Event ℕ)) (s : State ℕ), Run (Step entryPoint) (State.initial ℕ) ls s →
      s.admins.isSome → GuardianQuorum s := by
  intro h
  have hrun := run_execute entryPoint (State.initial ℕ)
    [(fun _ => true, .initializeGuard [1, 2] 2 9)]
  obtain ⟨threshold, hthreshold, henough⟩ := (h _ _ hrun rfl).enough
  obtain rfl : 2 = threshold := Option.some.inj hthreshold
  exact absurd henough (by decide)

end EmergencyGuard
