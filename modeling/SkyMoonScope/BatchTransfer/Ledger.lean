import SkyMoonScope.BatchTransfer.Batch

/-!
# A plan against the ledger

The plan takes every planned amount off the balance that it began with. The token ledger does not
when the recipient is the sender. So the plan refuses an entry that the ledger would accept just
when the entry is covered by what the sender holds, but not by what is left of it after the amounts
that the sender has sent to itself. Where there is no such entry, a batch does what the ledger would
accept.

## Main definitions

* `Settled`: an entry is executed just when the ledger accepts it after the executed ones before it
* `Transferred`: all entries are transferred, one after the other
* `AgreesWithLedger`: what a batch does in the two modes
* `Covered`: the entries that the ledger accepts are covered without what the sender sent to itself

## Main results

* `exists_transfers`: what is planned can be transferred
* `settled_iff_covered`: the plan against the ledger, entry by entry
* `agreesWithLedger_iff`: for which batches they agree
-/

namespace BatchTransfer

open Soroban Accounts

variable {Address Tokens : Type} [DecidableEq Address]

section Ledger

variable (host : Host Address Tokens) (token sender : Address)

/-- An entry is executed just when it is payable and the ledger, with the entries before it that
were executed, accepts its transfer. -/
def Settled : Tokens → List (TransferResult Address) → Tokens → Prop
  | s, [], t => s = t
  | s, entry :: rest, t =>
    (entry.success = true ↔ Payable host entry.recipient entry.amount ∧
      ∃ u, host.transfer token sender entry.recipient entry.amount s = some u) ∧
    ∃ u, (if entry.success then
        host.transfer token sender entry.recipient entry.amount s = some u else s = u) ∧
      Settled u rest t

/-- All entries are transferred. -/
def Transferred : Tokens → List (Address × ℤ) → Tokens → Prop
  | s, [], t => s = t
  | s, (recipient, amount) :: entries, t =>
    ∃ u, host.transfer token sender recipient amount s = some u ∧ Transferred u entries t

/-- What a batch does. In one mode it returns, has executed the entries that the ledger accepts and
sums them up. In the other it transfers all entries, or changes nothing. -/
structure AgreesWithLedger (auth : Address → Bool) (recipients : List Address) (amounts : List ℤ)
    (s : Tokens) : Prop where
  partialMode : ∃ batch t,
    Returns (executeBatch host auth token sender recipients amounts .partialMode) s batch t ∧
      batch.results.map (fun r => (r.recipient, r.amount)) = recipients.zip amounts ∧
      Settled host token sender s batch.results t ∧
      batch.totalTransferred = ((batch.results.filter (·.success)).map (·.amount)).sum
  allOrNothing :
    let call := invoke (executeBatch host auth token sender recipients amounts .allOrNothing) s
    (∃ batch, call.1 = .ok batch ∧ (∀ r ∈ batch.results, r.success = true) ∧
      Transferred host token sender s (recipients.zip amounts) call.2) ∨ call.2 = s

/-- Every entry that the ledger accepts, from what the sender holds, is covered also without the
amounts that the sender has sent to itself before. -/
def Covered : ℤ → ℤ → List (Address × ℤ) → Prop
  | _, _, [] => True
  | held, returned, (recipient, amount) :: entries =>
    if ¬Payable host recipient amount ∨ held < amount then Covered held returned entries
    else returned + amount ≤ held ∧
      if recipient = sender then Covered held (returned + amount) entries
      else Covered (held - amount) returned entries

instance decidableCovered : ∀ held returned entries,
    Decidable (Covered host sender held returned entries)
  | _, _, [] => .isTrue trivial
  | held, returned, (recipient, amount) :: entries =>
    have := decidableCovered held returned entries
    have := decidableCovered held (returned + amount) entries
    have := decidableCovered (held - amount) returned entries
    inferInstanceAs (Decidable (if ¬Payable host recipient amount ∨ held < amount then
      Covered host sender held returned entries
    else returned + amount ≤ held ∧
      if recipient = sender then Covered host sender held (returned + amount) entries
      else Covered host sender (held - amount) returned entries))

end Ledger

section Agreement

variable {host : Host Address Tokens} {auth : Address → Bool} {token sender recipient : Address}
  {entries : List (Address × ℤ)} {recipients : List Address} {amounts : List ℤ}
  {remaining held returned amount : ℤ} {s t : Tokens} {r : Unit}
  {entry : TransferResult Address} {plan : List (TransferResult Address)}

omit [DecidableEq Address] in
theorem returns_transferEntry : Returns (transferEntry host token sender entry) s r t ↔
    if entry.success then host.transfer token sender entry.recipient entry.amount s = some t
      else s = t := by
  unfold transferEntry
  split
  · rw [returns_get_bind, returns_orFault_bind]
    simp only [returns_set]
    constructor
    · rintro ⟨u, htransfer, rfl⟩
      exact htransfer
    · intro htransfer
      exact ⟨t, htransfer, rfl⟩
  · rw [returns_pure]
    exact ⟨And.right, fun hst => ⟨rfl, hst⟩⟩

omit [DecidableEq Address] in
/-- The transfers of a plan, one after the other. -/
theorem returns_forM_cons :
    Returns ((entry :: plan).forM (transferEntry host token sender)) s () t ↔
      ∃ u, (if entry.success then
          host.transfer token sender entry.recipient entry.amount s = some u else s = u) ∧
        Returns (plan.forM (transferEntry host token sender)) u () t := by
  show Returns (transferEntry host token sender entry >>= fun _ =>
    plan.forM (transferEntry host token sender)) s () t ↔ _
  rw [returns_bind]
  constructor
  · rintro ⟨⟨⟩, u, hentry, hrest⟩
    exact ⟨u, returns_transferEntry.mp hentry, hrest⟩
  · rintro ⟨u, hentry, hrest⟩
    exact ⟨(), u, returns_transferEntry.mpr hentry, hrest⟩

/-- What the sender holds after a transfer. -/
theorem held_transfer (htoken : Standard host.toTokenInterface)
    (h : host.transfer token sender recipient amount s = some t) :
    host.balance token t sender =
      if recipient = sender then host.balance token s sender
      else host.balance token s sender - amount := by
  rw [htoken.balance_transfer h]
  split
  next hself => rw [hself, move_self]
  next hother => rw [move_source fun heq => hother heq.symm]

/-- **What is planned can be transferred.** The sender holds at least what remains. -/
theorem exists_transfers (htoken : Standard host.toTokenInterface)
    (hremaining : remaining ≤ host.balance token s sender) :
    ∃ t, Returns ((planned host remaining entries).forM (transferEntry host token sender)) s ()
      t := by
  induction entries generalizing remaining s with
  | nil => exact ⟨s, rfl⟩
  | cons entry entries ih =>
    obtain ⟨recipient, amount⟩ := entry
    unfold planned
    split
    · obtain ⟨t, ht⟩ := ih hremaining
      exact ⟨t, returns_forM_cons.mpr ⟨s, rfl, ht⟩⟩
    next hpayable =>
      split
      · obtain ⟨t, ht⟩ := ih hremaining
        exact ⟨t, returns_forM_cons.mpr ⟨s, rfl, ht⟩⟩
      next hle =>
        have hpositive := (not_not.mp hpayable).1
        -- the ledger accepts what the plan has reserved
        have haccepts : ∃ u, host.transfer token sender recipient amount s = some u :=
          htoken.exists_transfer_iff.mpr ⟨hpositive.le, (not_lt.mp hle).trans hremaining⟩
        obtain ⟨u, hu⟩ := haccepts
        have hheld := held_transfer htoken hu
        -- a transfer to the sender itself leaves it with more than that
        have hrest : remaining - amount ≤ host.balance token u sender := by
          rw [hheld]
          split <;> linarith
        obtain ⟨t, ht⟩ := ih hrest
        exact ⟨t, returns_forM_cons.mpr ⟨u, hu, ht⟩⟩

/-- **The plan against the ledger**, entry by entry. What remains for the plan is what the sender
holds without what it has sent to itself. -/
theorem settled_iff_covered (htoken : Standard host.toTokenInterface)
    (hheld : host.balance token s sender = held)
    (hplan : Returns ((planned host (held - returned) entries).forM
      (transferEntry host token sender)) s () t) (hreturned : 0 ≤ returned) :
    Settled host token sender s (planned host (held - returned) entries) t ↔
      Covered host sender held returned entries := by
  induction entries generalizing held returned s with
  | nil =>
    obtain ⟨-, rfl⟩ := returns_pure.mp hplan
    exact iff_of_true rfl trivial
  | cons entry entries ih =>
    obtain ⟨recipient, amount⟩ := entry
    -- the ledger accepts what is payable and covered by what the sender holds
    have haccepts : (Payable host recipient amount ∧
        ∃ u, host.transfer token sender recipient amount s = some u) ↔
          Payable host recipient amount ∧ amount ≤ held := by
      refine and_congr_right fun hpayable => ?_
      rw [htoken.exists_transfer_iff, hheld]
      exact and_iff_right hpayable.1.le
    -- an entry that is not planned is one that the ledger must not accept
    have hskipped : ∀ {failure : TransferFailure}, Returns
        ((⟨recipient, amount, false, failure⟩ :: planned host (held - returned) entries :
          List (TransferResult Address)).forM (transferEntry host token sender)) s () t →
        (Settled host token sender s
          (⟨recipient, amount, false, failure⟩ :: planned host (held - returned) entries) t ↔
            ¬(Payable host recipient amount ∧ amount ≤ held) ∧
              Covered host sender held returned entries) := by
      intro failure hforM
      obtain ⟨u, hu, hrest⟩ := returns_forM_cons.mp hforM
      obtain rfl : s = u := hu
      rw [← ih hheld hrest hreturned, ← haccepts]
      constructor
      · rintro ⟨hiff, u, hu, hsettled⟩
        obtain rfl : s = u := hu
        exact ⟨fun h => Bool.false_ne_true (hiff.mpr h), hsettled⟩
      · rintro ⟨hnot, hsettled⟩
        exact ⟨iff_of_false Bool.false_ne_true hnot, s, rfl, hsettled⟩
    unfold planned at hplan ⊢
    unfold Covered
    by_cases hpayable : Payable host recipient amount
    · rw [if_neg (not_not.mpr hpayable)] at hplan ⊢
      by_cases hlt : held - returned < amount
      · rw [if_pos hlt] at hplan ⊢
        rw [hskipped hplan]
        by_cases hledger : held < amount
        · rw [if_pos (.inr hledger)]
          exact and_iff_right fun h => absurd h.2 (not_le.mpr hledger)
        · -- the ledger accepts the entry, which is not planned
          rw [if_neg (not_or.mpr ⟨not_not.mpr hpayable, hledger⟩)]
          exact iff_of_false (fun h => h.1 ⟨hpayable, not_lt.mp hledger⟩) fun h => by
            linarith [h.1]
      · rw [if_neg hlt] at hplan ⊢
        have hledger : amount ≤ held := by linarith
        rw [if_neg (not_or.mpr ⟨not_not.mpr hpayable, not_lt.mpr hledger⟩)]
        obtain ⟨u, hu, hrest⟩ := returns_forM_cons.mp hplan
        have hu : host.transfer token sender recipient amount s = some u := hu
        have hheld' := held_transfer htoken hu
        rw [hheld] at hheld'
        have hsettled : Settled host token sender s (⟨recipient, amount, true, .none⟩ ::
            planned host (held - returned - amount) entries) t ↔
              Settled host token sender u (planned host (held - returned - amount) entries) t := by
          constructor
          · rintro ⟨-, u', hu', hsettled⟩
            obtain rfl := Option.some.inj (hu.symm.trans hu')
            exact hsettled
          · exact fun hsettled => ⟨iff_of_true rfl ⟨hpayable, u, hu⟩, u, hu, hsettled⟩
        rw [hsettled, and_iff_right (by linarith)]
        -- what was sent to the sender itself is still held
        split at hheld'
        next hself =>
          rw [if_pos hself]
          have hremaining : held - returned - amount = held - (returned + amount) := by ring
          rw [hremaining] at hrest ⊢
          exact ih hheld' hrest (by linarith [hpayable.1])
        next hother =>
          rw [if_neg hother]
          have hremaining : held - returned - amount = held - amount - returned := by ring
          rw [hremaining] at hrest ⊢
          exact ih hheld' hrest hreturned
    · rw [if_pos hpayable] at hplan ⊢
      rw [if_pos (.inl hpayable), hskipped hplan]
      exact and_iff_right fun h => hpayable h.1

omit [DecidableEq Address] in
/-- A plan in which all entries succeed transfers all of them. -/
theorem transferred_of_forM (hall : ∀ r ∈ plan, r.success = true)
    (h : Returns (plan.forM (transferEntry host token sender)) s () t) :
    Transferred host token sender s (plan.map fun r => (r.recipient, r.amount)) t := by
  induction plan generalizing s with
  | nil => exact (returns_pure.mp h).2
  | cons entry plan ih =>
    obtain ⟨u, hu, hrest⟩ := returns_forM_cons.mp h
    rw [if_pos (hall entry List.mem_cons_self)] at hu
    exact ⟨u, hu, ih (fun r hr => hall r (List.mem_cons_of_mem entry hr)) hrest⟩

/-- A call in the mode of all or nothing. -/
theorem allOrNothing_executeBatch (hnonneg : 0 ≤ host.balance token s sender)
    (hfits : host.balance token s sender ≤ 2 ^ 127 - 1) :
    let call := invoke (executeBatch host auth token sender recipients amounts .allOrNothing) s
    (∃ batch, call.1 = .ok batch ∧ (∀ r ∈ batch.results, r.success = true) ∧
      Transferred host token sender s (recipients.zip amounts) call.2) ∨ call.2 = s := by
  intro call
  rcases hcall : call with ⟨result, t⟩
  cases result with
  -- a call that fails is rolled back
  | error fault => exact .inr (eq_of_invoke_error hcall)
  | ok batch =>
    obtain ⟨-, -, hall, rfl, hforM⟩ :=
      (returns_executeBatch hnonneg hfits).mp (invoke_eq_ok.mp hcall)
    have hall := hall rfl
    refine .inl ⟨_, rfl, hall, ?_⟩
    have htransferred := transferred_of_forM hall hforM
    rwa [map_planned] at htransferred

/-- A batch that does what the ledger would accept is covered. -/
theorem AgreesWithLedger.covered (htoken : Standard host.toTokenInterface)
    (hfits : IntType.i128.Fits (host.balance token s sender))
    (h : AgreesWithLedger host token sender auth recipients amounts s) :
    Covered host sender (host.balance token s sender) 0 (recipients.zip amounts) := by
  obtain ⟨batch, t, hreturns, -, hsettled, -⟩ := h.partialMode
  obtain ⟨-, -, -, rfl, hforM⟩ :=
    (returns_executeBatch (htoken.balance_nonneg token s sender) hfits.2).mp hreturns
  -- at the beginning nothing has been sent to the sender itself
  rw [← sub_zero (host.balance token s sender)] at hforM hsettled
  exact (settled_iff_covered htoken rfl hforM le_rfl).mp hsettled

/-- **A batch does what the ledger would accept** just when every entry that the ledger accepts is
covered also without the amounts that the sender has sent to itself before. -/
theorem agreesWithLedger_iff (htoken : Standard host.toTokenInterface)
    (hshape : Shaped recipients amounts) (hauth : auth sender = true)
    (hfits : IntType.i128.Fits (host.balance token s sender)) :
    AgreesWithLedger host token sender auth recipients amounts s ↔
      Covered host sender (host.balance token s sender) 0 (recipients.zip amounts) := by
  refine ⟨AgreesWithLedger.covered htoken hfits, fun h => ?_⟩
  have hnonneg := htoken.balance_nonneg token s sender
  obtain ⟨t, ht⟩ : ∃ t, Returns ((planned host (host.balance token s sender)
      (recipients.zip amounts)).forM (transferEntry host token sender)) s () t :=
    exists_transfers htoken le_rfl
  have hsettled : Settled host token sender s
      (planned host (host.balance token s sender) (recipients.zip amounts)) t := by
    rw [← sub_zero (host.balance token s sender)] at ht ⊢
    exact (settled_iff_covered htoken rfl ht le_rfl).mpr h
  refine ⟨⟨batchResult (planned host (host.balance token s sender) (recipients.zip amounts)), t,
    ?_, map_planned, hsettled, rfl⟩, allOrNothing_executeBatch hnonneg hfits.2⟩
  exact (returns_executeBatch hnonneg hfits.2).mpr ⟨hauth, hshape, nofun, rfl, ht⟩

end Agreement

/-! ## A transfer to oneself -/

/-- Balances of all tokens, and the burn addresses 0 and 1. -/
def market : Host ℕ (Balances ℕ) where
  toTokenInterface := Balances.interface ℕ
  zeroG := 0
  zeroC := 1

/-- The holder of 100 sends 60 away, 30 to itself and 10 away, and is refused 20 more. -/
theorem agreesWithLedger_sample : AgreesWithLedger market 9 5 (fun a => a = 5) [6, 5, 7, 8]
    [60, 30, 10, 50] (Balances.constant ℕ 100) :=
  (agreesWithLedger_iff standard_balances ⟨by decide, by decide, by decide⟩ (by decide)
    (by decide)).mpr (by decide)

/-- **A transfer to oneself is taken off the plan.** The holder of 100 sends 100 to itself, and
cannot send it to another then, although it still holds it. -/
theorem selfTransfer_refused :
    ¬∀ (recipients : List ℕ) (amounts : List ℤ) (s : Balances ℕ), Shaped recipients amounts →
      IntType.i128.Fits (market.balance 9 s 5) →
        AgreesWithLedger market 9 5 (fun a => a = 5) recipients amounts s := by
  intro hall
  have hagrees := hall [5, 6] [100, 100] (Balances.constant ℕ 100)
    ⟨by decide, by decide, by decide⟩ (by decide)
  exact absurd (hagrees.covered standard_balances (by decide)) (by decide)

end BatchTransfer
