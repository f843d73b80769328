import SkyMoonScope.Soroban.Arithmetic
import SkyMoonScope.Soroban.Token

/-!
# Batches of transfers

The contract of `contracts/batch_transfer/src/lib.rs`. A call gives a list of recipients and one of
amounts, and sends the amounts from one sender. It plans the whole batch before any token moves: an
entry is refused for its amount, for its recipient, or for what the entries planned before it have
left of the balance. In one mode a refused entry makes the call fail, in the other it is left out.
The contract stores nothing, so that the storage is that of the token contracts.

## Main definitions

* `Host`: the token contracts, and the two burn addresses
* `planAndExecute`, `summarize`: the batch, and its sums
* `execute`, `executeBatch`, `quote`, `quoteBatch`: the entry points
* `planned`: the plan that the loop computes

## Main results

* `returns_planBatch`: the plan is the same in both modes
* `sum_planned_le`: no more is planned than there is
* `returns_executeBatch`: a batch that returns has made the transfers of its plan
* `quote_eq`: a quote is the plan of the execution, and moves nothing
-/

namespace BatchTransfer

open Soroban

inductive Error
  | emptyBatch
  | lengthMismatch
  | invalidAmount
  | insufficientBalance
  | tooManyRecipients
  | transferFailed
deriving DecidableEq

def maxRecipients : ℕ := 100

inductive ExecutionMode
  | allOrNothing
  | partialMode
deriving DecidableEq

inductive TransferFailure
  | none
  | invalidAmount
  | insufficientBalance
  | transferFailed
deriving DecidableEq

structure TransferResult (Address : Type) where
  recipient : Address
  amount : ℤ
  success : Bool
  failure : TransferFailure
deriving DecidableEq

structure BatchResult (Address : Type) where
  total : ℕ
  succeeded : ℕ
  failed : ℕ
  totalTransferred : ℤ
  results : List (TransferResult Address)

/-- The token contracts, and the burn addresses, an account and a contract. -/
structure Host (Address Tokens : Type) extends TokenInterface Address Tokens where
  zeroG : Address
  zeroC : Address

abbrev Body (Tokens α : Type) := Contract Tokens Error α

variable {Address Tokens : Type}

def validateShape (recipients : List Address) (amounts : List ℤ) : Body Tokens Unit := do
  let len := recipients.length
  require (¬len = 0) (.error .emptyBatch)
  require (¬len > maxRecipients) (.error .tooManyRecipients)
  require (¬len ≠ amounts.length) (.error .lengthMismatch)

section Functions

variable [DecidableEq Address] (host : Host Address Tokens) (auth : Address → Bool)
  (token sender : Address)

/-- An entry that is not planned: the call fails, or the entry is recorded with its failure. -/
def refuse (mode : ExecutionMode) (e : Error) (remainingBalance : ℤ)
    (plan : List (TransferResult Address)) (recipient : Address) (amount : ℤ)
    (failure : TransferFailure) : Body Tokens (ℤ × List (TransferResult Address)) := do
  require (¬mode = .allOrNothing) (.error e)
  pure (remainingBalance, plan ++ [⟨recipient, amount, false, failure⟩])

/-- A round of the loop that plans. -/
def planEntry (mode : ExecutionMode) :
    ℤ × List (TransferResult Address) → Address × ℤ →
      Body Tokens (ℤ × List (TransferResult Address))
  | (remainingBalance, plan), (recipient, amount) =>
    if amount ≤ 0 ∨ recipient = host.zeroG ∨ recipient = host.zeroC then
      refuse mode .invalidAmount remainingBalance plan recipient amount .invalidAmount
    else if remainingBalance < amount then
      refuse mode .insufficientBalance remainingBalance plan recipient amount .insufficientBalance
    else do
      -- the plan reserves the amount, whoever receives it
      let remainingBalance ← plainI128 (remainingBalance - amount)
      pure (remainingBalance, plan ++ [⟨recipient, amount, true, .none⟩])

/-- The first phase, which moves nothing. -/
def planBatch (mode : ExecutionMode) (recipients : List Address) (amounts : List ℤ) :
    Body Tokens (List (TransferResult Address)) := do
  let s ← get
  -- the lists have the same length here
  let (_, plan) ← (recipients.zip amounts).foldlM (planEntry host mode)
    (host.balance token s sender, [])
  pure plan

/-- A transfer of the plan, which traps where the token contract refuses it. -/
def transferEntry (entry : TransferResult Address) : Body Tokens Unit := do
  if entry.success then do
    let s ← get
    let t ← orFault (host.transfer token sender entry.recipient entry.amount s)
      (.trap "Error(Contract)")
    set t

def planAndExecute (recipients : List Address) (amounts : List ℤ) (mode : ExecutionMode)
    (doTransfer : Bool) : Body Tokens (List (TransferResult Address)) := do
  validateShape recipients amounts
  let plan ← planBatch host token sender mode recipients amounts
  if doTransfer then do
    plan.forM (transferEntry host token sender)
    pure plan
  else pure plan

/-- A round of the sums. The counts are at most the length, which is a `u32`. -/
def summarizeEntry (sums : BatchResult Address) (entry : TransferResult Address) :
    Body Tokens (BatchResult Address) :=
  if entry.success then do
    let totalTransferred ← plainI128 (sums.totalTransferred + entry.amount)
    pure { sums with succeeded := sums.succeeded + 1, totalTransferred }
  else pure { sums with failed := sums.failed + 1 }

def summarize (results : List (TransferResult Address)) : Body Tokens (BatchResult Address) :=
  results.foldlM summarizeEntry ⟨results.length, 0, 0, 0, results⟩

def requireAuth (addr : Address) : Body Tokens Unit :=
  require (auth addr) (.trap "Error(Auth, InvalidAction)")

def execute (recipients : List Address) (amounts : List ℤ) (mode : ExecutionMode) :
    Body Tokens (List (TransferResult Address)) := do
  requireAuth auth sender
  planAndExecute host token sender recipients amounts mode true

def executeBatch (recipients : List Address) (amounts : List ℤ) (mode : ExecutionMode) :
    Body Tokens (BatchResult Address) := do
  requireAuth auth sender
  let results ← planAndExecute host token sender recipients amounts mode true
  summarize results

def quote (recipients : List Address) (amounts : List ℤ) (mode : ExecutionMode) :
    Body Tokens (List (TransferResult Address)) :=
  planAndExecute host token sender recipients amounts mode false

def quoteBatch (recipients : List Address) (amounts : List ℤ) (mode : ExecutionMode) :
    Body Tokens (BatchResult Address) := do
  let results ← planAndExecute host token sender recipients amounts mode false
  summarize results

end Functions

/-! ## The plan -/

section Plan

variable [DecidableEq Address] {host : Host Address Tokens} {auth : Address → Bool}
  {token sender : Address} {mode : ExecutionMode} {entries : List (Address × ℤ)}
  {recipients : List Address} {amounts : List ℤ} {remaining : ℤ}
  {plan : List (TransferResult Address)} {s t : Tokens}

/-- An amount that can be sent to a recipient that can be sent to. -/
def Payable (host : Host Address Tokens) (recipient : Address) (amount : ℤ) : Prop :=
  0 < amount ∧ recipient ≠ host.zeroG ∧ recipient ≠ host.zeroC

instance (host : Host Address Tokens) (recipient : Address) (amount : ℤ) :
    Decidable (Payable host recipient amount) := inferInstanceAs (Decidable (_ ∧ _))

omit [DecidableEq Address] in
theorem not_payable_iff {recipient : Address} {amount : ℤ} : ¬Payable host recipient amount ↔
    amount ≤ 0 ∨ recipient = host.zeroG ∨ recipient = host.zeroC := by
  unfold Payable
  rw [not_and_or, not_and_or, not_lt, not_ne_iff, not_ne_iff]

/-- The plan of some entries, from what remains of the balance. -/
def planned (host : Host Address Tokens) : ℤ → List (Address × ℤ) → List (TransferResult Address)
  | _, [] => []
  | remaining, (recipient, amount) :: entries =>
    if ¬Payable host recipient amount then
      ⟨recipient, amount, false, .invalidAmount⟩ :: planned host remaining entries
    else if remaining < amount then
      ⟨recipient, amount, false, .insufficientBalance⟩ :: planned host remaining entries
    else ⟨recipient, amount, true, .none⟩ :: planned host (remaining - amount) entries

/-- The plan has the recipients and the amounts of the entries. -/
theorem map_planned : (planned host remaining entries).map (fun r => (r.recipient, r.amount)) =
    entries := by
  induction entries generalizing remaining with
  | nil => rfl
  | cons entry entries ih =>
    unfold planned
    split
    · rw [List.map_cons, ih]
    · split <;> rw [List.map_cons, ih]

/-- What is planned to be sent. -/
def plannedTotal (plan : List (TransferResult Address)) : ℤ :=
  ((plan.filter (·.success)).map (·.amount)).sum

/-- **No more is planned than there is.** -/
theorem sum_planned_le (h : 0 ≤ remaining) :
    0 ≤ plannedTotal (planned host remaining entries) ∧
      plannedTotal (planned host remaining entries) ≤ remaining := by
  induction entries generalizing remaining with
  | nil => exact ⟨le_rfl, h⟩
  | cons entry entries ih =>
    unfold planned
    split
    · exact ih h
    next hpayable =>
      split
      · exact ih h
      next hle =>
        obtain ⟨hnonneg, hbound⟩ := ih (sub_nonneg.mpr (not_lt.mp hle))
        have hpositive := (not_not.mp hpayable).1
        show 0 ≤ entry.2 + plannedTotal (planned host (remaining - entry.2) entries) ∧
          entry.2 + plannedTotal (planned host (remaining - entry.2) entries) ≤ remaining
        -- a planned amount is positive, and the rest is planned from what it leaves
        constructor <;> linarith

/-- **The loop** appends the plan. Where every entry has to succeed, it returns only if all do. -/
theorem returns_foldlM_planEntry (hremaining : 0 ≤ remaining)
    (hfits : remaining ≤ 2 ^ 127 - 1) {next : ℤ × List (TransferResult Address)} :
    Returns (entries.foldlM (planEntry host mode) (remaining, plan)) s next t ↔
      (mode = .allOrNothing → ∀ r ∈ planned host remaining entries, r.success = true) ∧
        next = (remaining - plannedTotal (planned host remaining entries),
          plan ++ planned host remaining entries) ∧ s = t := by
  induction entries generalizing remaining plan with
  | nil =>
    have hnil : (remaining - plannedTotal (planned host remaining []),
        plan ++ planned host remaining []) = (remaining, plan) := by
      simp [planned, plannedTotal]
    rw [List.foldlM_nil, returns_pure, hnil]
    constructor
    · rintro ⟨rfl, rfl⟩
      exact ⟨fun _ r hr => absurd hr List.not_mem_nil, rfl, rfl⟩
    · rintro ⟨-, rfl, rfl⟩
      exact ⟨rfl, rfl⟩
  | cons entry entries ih =>
    obtain ⟨recipient, amount⟩ := entry
    rw [List.foldlM_cons, planned, planEntry]
    -- an entry that is refused makes the call fail, or leaves what remains
    have hrefused : ∀ {e : Error} {failure : TransferFailure},
        Returns (refuse mode e remaining plan recipient amount failure >>= fun next =>
            entries.foldlM (planEntry host mode) next) s next t ↔
          (mode = .allOrNothing → ∀ r ∈ (⟨recipient, amount, false, failure⟩ ::
            planned host remaining entries : List (TransferResult Address)), r.success = true) ∧
          next = (remaining - plannedTotal (⟨recipient, amount, false, failure⟩ ::
              planned host remaining entries),
            plan ++ ⟨recipient, amount, false, failure⟩ :: planned host remaining entries) ∧
          s = t := by
      intro e failure
      simp only [refuse, bind_assoc, returns_require_bind, pure_bind]
      rw [ih hremaining hfits, List.append_assoc, List.singleton_append]
      constructor
      · rintro ⟨hmode, -, hnext, rfl⟩
        exact ⟨fun hall => absurd hall hmode, hnext, rfl⟩
      · rintro ⟨hall, hnext, rfl⟩
        have hmode : ¬mode = .allOrNothing := fun hmode => by
          have hsuccess := hall hmode _ List.mem_cons_self
          cases hsuccess
        exact ⟨hmode, fun h => absurd h hmode, hnext, rfl⟩
    by_cases hpayable : Payable host recipient amount
    · rw [if_neg (not_payable_iff.not.mp (not_not.mpr hpayable)), if_neg (not_not.mpr hpayable)]
      by_cases hlt : remaining < amount
      · rw [if_pos hlt, if_pos hlt]
        exact hrefused
      · rw [if_neg hlt, if_neg hlt]
        have hpositive := hpayable.1
        -- an entry that is planned takes its amount off what remains
        have hrest : 0 ≤ remaining - amount := sub_nonneg.mpr (not_lt.mp hlt)
        simp only [bind_assoc, returns_plainI128_bind, pure_bind]
        rw [ih hrest (by linarith), List.append_assoc, List.singleton_append]
        have htotal : remaining - plannedTotal (⟨recipient, amount, true, .none⟩ ::
            planned host (remaining - amount) entries) =
              remaining - amount - plannedTotal (planned host (remaining - amount) entries) := by
          show remaining - (amount + plannedTotal (planned host (remaining - amount) entries)) = _
          ring
        rw [htotal, List.forall_mem_cons]
        constructor
        · rintro ⟨-, hall, hnext, rfl⟩
          exact ⟨fun hmode => ⟨rfl, hall hmode⟩, hnext, rfl⟩
        · rintro ⟨hall, hnext, rfl⟩
          have hrestFits : IntType.i128.Fits (remaining - amount) :=
            ⟨le_trans (by decide) hrest, by
              have : remaining - amount ≤ 2 ^ 127 - 1 := by linarith
              exact this⟩
          exact ⟨hrestFits, fun hmode => (hall hmode).2, hnext, rfl⟩
    · rw [if_pos (not_payable_iff.mp hpayable), if_pos hpayable]
      exact hrefused

end Plan

/-! ## The entry points -/

/-- Lists that the check of their shape admits. -/
structure Shaped (recipients : List Address) (amounts : List ℤ) : Prop where
  nonempty : recipients.length ≠ 0
  length_le : recipients.length ≤ maxRecipients
  length_eq : recipients.length = amounts.length

/-- The result of a batch with this plan. -/
def batchResult (plan : List (TransferResult Address)) : BatchResult Address where
  total := plan.length
  succeeded := plan.countP (·.success)
  failed := plan.countP (!·.success)
  totalTransferred := plannedTotal plan
  results := plan

section Spec

variable {recipients : List Address} {amounts : List ℤ} {s t : Tokens} {r : Unit}
  {plan : List (TransferResult Address)} {batch sums : BatchResult Address}

theorem returns_validateShape : Returns (validateShape recipients amounts) s r t ↔
    Shaped recipients amounts ∧ s = t := by
  simp only [validateShape, returns_require_bind, returns_require, not_lt, not_not]
  constructor
  · rintro ⟨hnonempty, hle, heq, rfl⟩
    exact ⟨⟨hnonempty, hle, heq⟩, rfl⟩
  · rintro ⟨⟨hnonempty, hle, heq⟩, rfl⟩
    exact ⟨hnonempty, hle, heq, rfl⟩

/-- The sums of a plan do not overflow when its total does not. -/
theorem returns_foldlM_summarizeEntry (hpositive : ∀ r ∈ plan, r.success = true → 0 ≤ r.amount)
    (hsums : 0 ≤ sums.totalTransferred)
    (hfits : sums.totalTransferred + plannedTotal plan ≤ 2 ^ 127 - 1) :
    Returns (plan.foldlM summarizeEntry sums) s { sums with
      succeeded := sums.succeeded + plan.countP (·.success)
      failed := sums.failed + plan.countP (!·.success)
      totalTransferred := sums.totalTransferred + plannedTotal plan } s := by
  induction plan generalizing sums with
  | nil =>
    rw [List.foldlM_nil, returns_pure]
    simp [plannedTotal]
  | cons entry plan ih =>
    have hrest : ∀ r ∈ plan, r.success = true → 0 ≤ r.amount :=
      fun r hr => hpositive r (List.mem_cons_of_mem entry hr)
    -- the rest adds no negative amount, so that no partial sum is above the whole
    have htotal : 0 ≤ plannedTotal plan := List.sum_nonneg fun x hx => by
      obtain ⟨r, hr, rfl⟩ := List.mem_map.mp hx
      obtain ⟨hr, hsuccess⟩ := List.mem_filter.mp hr
      exact hrest r hr hsuccess
    rw [List.foldlM_cons, summarizeEntry]
    cases hsuccess : entry.success with
    | true =>
      have hamount := hpositive entry List.mem_cons_self hsuccess
      have hsum : plannedTotal (entry :: plan) = entry.amount + plannedTotal plan := by
        simp [plannedTotal, hsuccess]
      rw [hsum] at hfits ⊢
      rw [if_pos rfl, bind_assoc, returns_plainI128_bind, pure_bind]
      have hnext : IntType.i128.Fits (sums.totalTransferred + entry.amount) := by
        have : sums.totalTransferred + entry.amount ≤ 2 ^ 127 - 1 := by linarith
        exact ⟨le_trans (by decide) (by linarith : (0 : ℤ) ≤ _), this⟩
      refine ⟨hnext, ?_⟩
      have hreturns := @ih { sums with
        succeeded := sums.succeeded + 1
        totalTransferred := sums.totalTransferred + entry.amount } hrest
          (add_nonneg hsums hamount) (by linarith)
      rw [List.countP_cons_of_pos hsuccess, List.countP_cons_of_neg (by rw [hsuccess]; decide)]
      simpa only [add_assoc, Nat.add_assoc, Nat.add_comm 1] using hreturns
    | false =>
      have hsum : plannedTotal (entry :: plan) = plannedTotal plan := by
        simp [plannedTotal, hsuccess]
      rw [hsum] at hfits ⊢
      rw [if_neg Bool.false_ne_true, pure_bind]
      -- a refused entry is counted, and adds nothing
      have hreturns := @ih { sums with failed := sums.failed + 1 } hrest hsums hfits
      rw [List.countP_cons_of_neg (by rw [hsuccess]; decide),
        List.countP_cons_of_pos (by rw [hsuccess]; rfl)]
      simpa only [Nat.add_assoc, Nat.add_comm 1] using hreturns

variable [DecidableEq Address] {host : Host Address Tokens} {auth : Address → Bool}
  {token sender : Address} {mode : ExecutionMode} {entries : List (Address × ℤ)} {remaining : ℤ}

/-- What is planned is positive. -/
theorem planned_positive {entry : TransferResult Address}
    (h : entry ∈ planned host remaining entries) (hsuccess : entry.success = true) :
    0 ≤ entry.amount := by
  induction entries generalizing remaining with
  | nil => cases h
  | cons head entries ih =>
    unfold planned at h
    split at h
    · rcases List.mem_cons.mp h with rfl | h
      · cases hsuccess
      · exact ih h
    next hpayable =>
      split at h
      · rcases List.mem_cons.mp h with rfl | h
        · cases hsuccess
        · exact ih h
      · rcases List.mem_cons.mp h with rfl | h
        · exact (not_not.mp hpayable).1.le
        · exact ih h

/-- **The sums** of a plan from a balance that fits. -/
theorem returns_summarize (hremaining : 0 ≤ remaining) (hfits : remaining ≤ 2 ^ 127 - 1) :
    Returns (summarize (planned host remaining entries)) s batch t ↔
      batch = batchResult (planned host remaining entries) ∧ s = t := by
  have hreturns : Returns (summarize (planned host remaining entries)) s
      (batchResult (planned host remaining entries)) s := by
    -- the total is at most the balance, which is an `i128`
    have htotal : 0 + plannedTotal (planned host remaining entries) ≤ 2 ^ 127 - 1 := by
      rw [zero_add]
      exact (sum_planned_le hremaining).2.trans hfits
    have hsums := @returns_foldlM_summarizeEntry _ _ s (planned host remaining entries)
      ⟨(planned host remaining entries).length, 0, 0, 0, planned host remaining entries⟩
      (fun r hr hsuccess => planned_positive hr hsuccess) le_rfl htotal
    simp only [zero_add] at hsums
    exact hsums
  constructor
  · intro h
    -- a call has one result
    have heq := Except.ok.inj (hreturns.symm.trans h)
    exact ⟨(congrArg Prod.fst heq).symm, congrArg Prod.snd heq⟩
  · rintro ⟨rfl, rfl⟩
    exact hreturns

variable (hremaining : 0 ≤ host.balance token s sender)
  (hfits : host.balance token s sender ≤ 2 ^ 127 - 1)

include hremaining hfits in
/-- **The plan** is the same in both modes, but in one of them all entries have to succeed. -/
theorem returns_planBatch :
    Returns (planBatch host token sender mode recipients amounts) s plan t ↔
      (mode = .allOrNothing → ∀ r ∈ plan, r.success = true) ∧
        plan = planned host (host.balance token s sender) (recipients.zip amounts) ∧ s = t := by
  rw [planBatch, returns_get_bind, returns_bind]
  constructor
  · rintro ⟨next, u, hloop, hpure⟩
    obtain ⟨hall, rfl, rfl⟩ := (returns_foldlM_planEntry hremaining hfits).mp hloop
    obtain ⟨rfl, rfl⟩ := returns_pure.mp hpure
    exact ⟨hall, rfl, rfl⟩
  · rintro ⟨hall, rfl, rfl⟩
    exact ⟨_, s, (returns_foldlM_planEntry hremaining hfits).mpr ⟨hall, rfl, rfl⟩,
      returns_pure.mpr ⟨rfl, rfl⟩⟩

include hremaining hfits in
theorem returns_planAndExecute {doTransfer : Bool} :
    Returns (planAndExecute host token sender recipients amounts mode doTransfer) s plan t ↔
      Shaped recipients amounts ∧ (mode = .allOrNothing → ∀ r ∈ plan, r.success = true) ∧
        plan = planned host (host.balance token s sender) (recipients.zip amounts) ∧
        if doTransfer then Returns (plan.forM (transferEntry host token sender)) s () t
          else s = t := by
  rw [planAndExecute, returns_bind_of_checks fun _ _ => returns_validateShape, returns_bind]
  refine and_congr_right fun _ => ?_
  simp only [returns_planBatch hremaining hfits]
  cases doTransfer with
  | false =>
    constructor
    · rintro ⟨_, _, ⟨hall, rfl, rfl⟩, hpure⟩
      obtain ⟨rfl, rfl⟩ := returns_pure.mp hpure
      exact ⟨hall, rfl, rfl⟩
    · rintro ⟨hall, rfl, hst⟩
      exact ⟨_, s, ⟨hall, rfl, rfl⟩, returns_pure.mpr ⟨rfl, hst⟩⟩
  | true =>
    constructor
    · -- the transfers come after the plan, and the result is the plan
      rintro ⟨_, _, ⟨hall, rfl, rfl⟩, hrest⟩
      obtain ⟨⟨⟩, u, hforM, hpure⟩ := returns_bind.mp hrest
      obtain ⟨rfl, rfl⟩ := returns_pure.mp hpure
      exact ⟨hall, rfl, hforM⟩
    · rintro ⟨hall, rfl, hforM⟩
      exact ⟨_, s, ⟨hall, rfl, rfl⟩,
        returns_bind.mpr ⟨(), t, hforM, returns_pure.mpr ⟨rfl, rfl⟩⟩⟩

include hremaining hfits in
/-- **A batch that returns** has made the transfers of its plan. -/
theorem returns_executeBatch :
    Returns (executeBatch host auth token sender recipients amounts mode) s batch t ↔
      auth sender = true ∧ Shaped recipients amounts ∧
        let plan := planned host (host.balance token s sender) (recipients.zip amounts)
        (mode = .allOrNothing → ∀ r ∈ plan, r.success = true) ∧ batch = batchResult plan ∧
          Returns (plan.forM (transferEntry host token sender)) s () t := by
  rw [executeBatch, requireAuth, returns_require_bind, returns_bind]
  refine and_congr_right fun _ => ?_
  constructor
  · rintro ⟨_, u, hplan, hsummarize⟩
    obtain ⟨hshape, hall, rfl, hforM⟩ := (returns_planAndExecute hremaining hfits).mp hplan
    obtain ⟨rfl, rfl⟩ := (returns_summarize hremaining hfits).mp hsummarize
    exact ⟨hshape, hall, rfl, hforM⟩
  · rintro ⟨hshape, hall, rfl, hforM⟩
    exact ⟨_, t, (returns_planAndExecute hremaining hfits).mpr ⟨hshape, hall, rfl, hforM⟩,
      (returns_summarize hremaining hfits).mpr ⟨rfl, rfl⟩⟩

include hremaining hfits in
/-- **A quote** is the plan of the execution, and moves nothing. -/
theorem quote_eq
    (h : Returns (execute host auth token sender recipients amounts mode) s plan t) :
    Returns (quote host token sender recipients amounts mode) s plan s := by
  rw [execute, requireAuth, returns_require_bind, returns_planAndExecute hremaining hfits] at h
  obtain ⟨-, hshape, hall, hplan, -⟩ := h
  exact (returns_planAndExecute hremaining hfits).mpr ⟨hshape, hall, hplan, rfl⟩

end Spec

end BatchTransfer
