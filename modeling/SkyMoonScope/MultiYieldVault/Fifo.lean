import SkyMoonScope.MultiYieldVault.Unreachable

/-!
# Requests are paid in order

A pass over the queue only pays its head, and leaves the head when it is paid in full or has nothing
to be paid. So what the pass has left behind is settled, and a payment that is not in full is the
last one. This holds for every queue, whatever the requests in it and the idle balances that the
token contract reports.

## Main definitions

* `Fill`: a payment to a request, as the request was before
* `Filled fills s t`: the payments to requests that lead from one storage to the other
* `InOrder fills queue t`: before a request that was paid, everything is settled

## Main results

* `filled_processLoop`: what a pass pays, and what it leaves behind
* `processWithdrawQueue_inOrder`: requests are paid in order, and none more than it is owed
* `older_settled`: after every run, the order is that of the numbers
-/

namespace MultiYieldVault

open Soroban Machine

variable {Address World : Type} {host : Host Address World} {c c' : Session Address World}

/-- A payment to a request. -/
structure Fill (Address : Type) where
  id : ℕ
  req : WithdrawalRequest Address
  amount : ℤ

/-- Nothing is left to be paid. -/
def WithdrawalRequest.Settled (req : WithdrawalRequest Address) : Prop :=
  req.closed = true ∨ req.remainingShares ≤ 0

/-- The request of this number is settled. -/
def State.Settled (s : State Address) (id : ℕ) : Prop :=
  ∃ req, s.withdrawal id = some req ∧ req.Settled

/-- The requests that are paid, each once and not more than it is owed, and all payments that are
made. -/
structure Filled (fills : List (Fill Address)) (s t : State Address) : Prop where
  payments : t.payments = (fills.map fun f => ⟨f.req.owner, f.amount⟩).reverse ++ s.payments
  once : (fills.map Fill.id).Nodup
  owed : ∀ f ∈ fills, s.withdrawal f.id = some f.req ∧ ¬f.req.Settled ∧ 0 < f.amount ∧
    f.amount ≤ f.req.remainingShares
  booked : ∀ f ∈ fills, ∃ req, t.withdrawal f.id = some req ∧
    req.remainingShares = f.req.remainingShares - f.amount ∧
    req.filledAmount = f.req.filledAmount + f.amount
  others : ∀ id ∉ fills.map Fill.id, t.withdrawal id = s.withdrawal id

/-- Everything that was queued before a request that was paid is settled. -/
def InOrder (fills : List (Fill Address)) (queue : List ℕ) (t : State Address) : Prop :=
  ∀ f ∈ fills, ∃ older younger, queue = older ++ f.id :: younger ∧ f.id ∉ older ∧
    ∀ id ∈ older, t.Settled id

section Filled

variable {s t u : State Address} {fills : List (Fill Address)} {f : Fill Address} {id : ℕ}
  {req : WithdrawalRequest Address}

theorem Filled.refl (s : State Address) : Filled [] s s where
  payments := rfl
  once := List.nodup_nil
  owed := fun _ hf => absurd hf List.not_mem_nil
  booked := fun _ hf => absurd hf List.not_mem_nil
  others := fun _ _ => rfl

/-- A settled request is not paid. -/
theorem Filled.notMem_of_settled (h : Filled fills s t) (hid : s.Settled id) :
    id ∉ fills.map Fill.id := by
  intro hmem
  obtain ⟨f, hf, rfl⟩ := List.mem_map.mp hmem
  obtain ⟨req, hreq, hsettled⟩ := hid
  -- what is paid was open before
  obtain ⟨hreq', hopen, -⟩ := h.owed f hf
  obtain rfl : req = f.req := Option.some.inj (hreq.symm.trans hreq')
  exact hopen hsettled

/-- What is settled stays so. -/
theorem Filled.settled (h : Filled fills s t) (hid : s.Settled id) : t.Settled id := by
  obtain ⟨req, hreq, hsettled⟩ := hid
  refine ⟨req, ?_, hsettled⟩
  -- it was not paid, so nothing about it has changed
  rw [h.others id (h.notMem_of_settled ⟨req, hreq, hsettled⟩), hreq]

/-- One payment. -/
theorem filled_single {payout : ℤ} {req' : WithdrawalRequest Address}
    (hreq : s.withdrawal id = some req) (hopen : ¬req.Settled) (hpos : 0 < payout)
    (hle : payout ≤ req.remainingShares) (howner : req'.owner = req.owner)
    (hremaining : req'.remainingShares = req.remainingShares - payout)
    (hfilled : req'.filledAmount = req.filledAmount + payout) :
    Filled [⟨id, req, payout⟩] s (s.fill id req' payout) where
  payments := by
    show _ :: s.payments = _
    rw [howner]
    rfl
  once := List.nodup_singleton id
  owed := by
    intro f hf
    obtain rfl := List.mem_singleton.mp hf
    exact ⟨hreq, hopen, hpos, hle⟩
  booked := by
    intro f hf
    obtain rfl := List.mem_singleton.mp hf
    exact ⟨req', Function.update_self .., hremaining, hfilled⟩
  others := by
    intro k hk
    have hne : k ≠ id := fun heq => hk (List.mem_singleton.mpr heq)
    exact Function.update_of_ne hne ..

/-- A payment that settles its request, and more payments. -/
theorem Filled.cons (h : Filled [f] s t) (hsettled : t.Settled f.id) (h' : Filled fills t u) :
    Filled (f :: fills) s u := by
  have hnew := h'.notMem_of_settled hsettled
  -- the later payments are to other requests, which the first one leaves as they were
  have hne : ∀ g ∈ fills, g.id ∉ [f].map Fill.id := by
    intro g hg hmem
    obtain hid : g.id = f.id := List.mem_singleton.mp hmem
    exact hnew (List.mem_map.mpr ⟨g, hg, hid⟩)
  refine ⟨?_, List.nodup_cons.mpr ⟨hnew, h'.once⟩, ?_, ?_, ?_⟩
  · simp [h'.payments, h.payments]
  · intro g hg
    rcases List.mem_cons.mp hg with rfl | hg
    · exact h.owed g (List.mem_singleton_self g)
    · obtain ⟨hreq, hrest⟩ := h'.owed g hg
      rw [h.others g.id (hne g hg)] at hreq
      exact ⟨hreq, hrest⟩
  · intro g hg
    rcases List.mem_cons.mp hg with rfl | hg
    · rw [h'.others g.id hnew]
      exact h.booked g (List.mem_singleton_self g)
    · exact h'.booked g hg
  · intro k hk
    obtain ⟨hkf, hkfills⟩ := not_or.mp (mt List.mem_cons.mpr hk)
    rw [h'.others k hkfills, h.others k (mt List.mem_singleton.mp hkf)]

end Filled

section Loop

variable {depositToken : Address} {budget visited : ℕ} {queue l : List ℕ}
  {result result' : QueueFillResult}

theorem not_settled {req : WithdrawalRequest Address} (hopen : req.closed = false)
    (hpos : 0 < req.remainingShares) : ¬req.Settled := by
  rintro (hclosed | hle)
  · rw [hopen] at hclosed
    exact Bool.noConfusion hclosed
  · exact hpos.not_ge hle

theorem inOrder_nil (queue : List ℕ) (t : State Address) : InOrder [] queue t :=
  fun _ hf => absurd hf List.not_mem_nil

/-- Nothing is queued before the head. -/
theorem inOrder_head (f : Fill Address) (queue : List ℕ) (t : State Address) :
    InOrder [f] (f.id :: queue) t := by
  intro g hg
  obtain rfl := List.mem_singleton.mp hg
  exact ⟨[], queue, rfl, List.not_mem_nil, fun _ hk => absurd hk List.not_mem_nil⟩

/-- What is paid after a settled head. -/
theorem InOrder.cons {fills : List (Fill Address)} {t : State Address} {id : ℕ}
    (h : InOrder fills queue t) (hid : id ∉ fills.map Fill.id) (hhead : t.Settled id) :
    InOrder fills (id :: queue) t := by
  intro f hf
  obtain ⟨older, younger, hqueue, hfirst, holder⟩ := h f hf
  refine ⟨id :: older, younger, by rw [hqueue, List.cons_append], ?_, ?_⟩
  · intro hmem
    rcases List.mem_cons.mp hmem with heq | hmem
    · exact hid (List.mem_map.mpr ⟨f, hf, heq⟩)
    · exact hfirst hmem
  · intro k hk
    rcases List.mem_cons.mp hk with rfl | hk
    · exact hhead
    · exact holder k hk

/-- **What a pass pays, and what it leaves behind.** The induction is on the queue: a round leaves
its head behind only when it is settled, and pays nothing more otherwise. -/
theorem filled_processLoop
    (h : Returns (processLoop host Fallbacks.source depositToken budget queue visited result) c
      (l, result') c') :
    ∃ fills, Filled fills c.storage c'.storage ∧ InOrder fills queue c'.storage ∧
      result'.paidOut = result.paidOut + (fills.map Fill.amount).sum := by
  induction queue generalizing c visited result with
  | nil =>
    obtain ⟨hl, rfl⟩ := returns_pure.mp h
    obtain ⟨-, rfl⟩ := Prod.mk.inj hl
    exact ⟨[], .refl _, fun _ hf => absurd hf List.not_mem_nil, (add_zero _).symm⟩
  | cons id queue ih =>
    rw [processLoop] at h
    split at h
    next =>
      obtain ⟨visit, c₁, hvisit, h⟩ := returns_bind.mp h
      have hlook := looked_fillRequest hvisit
      cases visit with
      | gone =>
        -- the head is settled already, and stays so
        obtain ⟨fills, hfilled, hfills, hpaid⟩ := ih h
        generalize c₁.storage = s₁ at hlook hfilled
        cases hlook with
        | gone hreq hgone =>
          have hsettled : c.storage.Settled id := ⟨_, hreq, hgone⟩
          exact ⟨fills, hfilled,
            hfills.cons (hfilled.notMem_of_settled hsettled) (hfilled.settled hsettled), hpaid⟩
      | dry =>
        obtain ⟨hl, rfl⟩ := returns_pure.mp h
        obtain ⟨-, rfl⟩ := Prod.mk.inj hl
        generalize c₁.storage = s₁ at hlook
        cases hlook with
        -- nothing is idle, and the pass stops before the head
        | dry => exact ⟨[], .refl _, inOrder_nil _ _, (add_zero _).symm⟩
      | partly payout =>
        simp only [returns_plain_bind, returns_pure] at h
        obtain ⟨-, hl, rfl⟩ := h
        obtain ⟨-, rfl⟩ := Prod.mk.inj hl
        generalize c₁.storage = s₁ at hlook
        cases hlook with
        | @partly req _ hreq hopen hpos hlt =>
          -- what is idle does not pay all of it, and the pass stops at the head
          have hfill : Filled [⟨id, req, payout⟩] c.storage (c.storage.fill id { req with
              remainingShares := req.remainingShares - payout
              filledAmount := req.filledAmount + payout } payout) :=
            filled_single hreq (not_settled hopen (hpos.trans hlt)) hpos hlt.le rfl rfl rfl
          exact ⟨[⟨id, req, payout⟩], hfill, inOrder_head ⟨id, req, payout⟩ _ _, by simp⟩
      | settled payout =>
        simp only [returns_plain_bind] at h
        obtain ⟨fills, hfilled, hfills, hpaid⟩ := ih h.2
        generalize c₁.storage = s₁ at hlook hfilled
        cases hlook with
        | @settled req hreq hopen hpos =>
          let req' := { req with
            remainingShares := 0
            filledAmount := req.filledAmount + req.remainingShares
            closed := true }
          have hfill : Filled [⟨id, req, req.remainingShares⟩] c.storage
              (c.storage.fill id req' req.remainingShares) :=
            filled_single hreq (not_settled hopen hpos) hpos le_rfl rfl (sub_self _).symm rfl
          have hsettled : (c.storage.fill id req' req.remainingShares).Settled id :=
            ⟨_, Function.update_self .., .inl rfl⟩
          -- the head is paid in full, so nothing that follows pays it again
          have hnew := hfilled.notMem_of_settled hsettled
          refine ⟨⟨id, req, req.remainingShares⟩ :: fills, hfill.cons hsettled hfilled, ?_, ?_⟩
          · intro f hf
            rcases List.mem_cons.mp hf with rfl | hf
            · exact inOrder_head ⟨id, req, req.remainingShares⟩ _ _ _ (List.mem_singleton_self _)
            · exact hfills.cons hnew (hfilled.settled hsettled) f hf
          · rw [hpaid, List.map_cons, List.sum_cons, add_assoc]
    next =>
      -- the budget is used up
      obtain ⟨hl, rfl⟩ := returns_pure.mp h
      obtain ⟨-, rfl⟩ := Prod.mk.inj hl
      exact ⟨[], .refl _, inOrder_nil _ _, (add_zero _).symm⟩

/-- **Requests are paid in order.** For every storage, the payments of the call are payments to
requests of the queue, each of them once and not more than it was owed, and everything that was
queued before a request that was paid is settled after the call. -/
theorem processWithdrawQueue_inOrder {maxEntries : ℕ} {result : QueueFillResult}
    (h : Returns (processWithdrawQueue host Fallbacks.source maxEntries) c result c') :
    ∃ fills, Filled fills c.storage c'.storage ∧ InOrder fills c.storage.queue c'.storage ∧
      result.paidOut = (fills.map Fill.amount).sum := by
  rw [processWithdrawQueue, returns_loadVault_bind] at h
  obtain ⟨vault, -, h⟩ := h
  rw [returns_storage_bind] at h
  split at h
  next =>
    obtain ⟨rfl, rfl⟩ := returns_pure.mp h
    exact ⟨[], .refl _, inOrder_nil _ _, rfl⟩
  next =>
    obtain ⟨⟨queue, result'⟩, c₁, hloop, h⟩ := returns_bind.mp h
    simp only [saveQueue, returns_save_bind, returns_pure] at h
    obtain ⟨rfl, rfl⟩ := h
    obtain ⟨fills, hfilled, hfills, hpaid⟩ := filled_processLoop hloop
    -- only the list is written after the pass
    refine ⟨fills, ⟨hfilled.payments, hfilled.once, hfilled.owed, hfilled.booked,
      hfilled.others⟩, hfills, ?_⟩
    rw [hpaid]
    exact zero_add _

end Loop

/-- A vault with two requests of one owner, of 40 and 30 shares. -/
def sampleQueue (idle : ℕ) : Session ℕ (ℕ × Bool) where
  storage :=
    { (State.initial : State ℕ) with
      vault := some
        { depositToken := 9, admin := 100, totalShares := 0, slippageBps := 0,
          volumeProxyBps := 1, queuedAmount := 70 }
      queue := [0, 1]
      nextQueueId := 2
      withdrawal := fun id =>
        if id = 0 then some ⟨1, 40, 40, 0, false⟩
        else if id = 1 then some ⟨1, 30, 30, 0, false⟩
        else none }
  world := (idle, true)

/-- Fifty idle tokens pay the first request in full and the second in part. -/
theorem processWithdrawQueue_inOrder_sample :
    ∃ result c' fills,
      Returns (processWithdrawQueue sampleHost Fallbacks.source 0) (sampleQueue 50) result c' ∧
      (c'.storage.withdrawal 0).map WithdrawalRequest.remainingShares = some 0 ∧
      (c'.storage.withdrawal 1).map WithdrawalRequest.remainingShares = some 20 ∧
      Filled fills (sampleQueue 50).storage c'.storage ∧
      InOrder fills (sampleQueue 50).storage.queue c'.storage := by
  obtain ⟨result, h⟩ := exists_returns_of_isOk (show
    (invoke (processWithdrawQueue sampleHost Fallbacks.source 0) (sampleQueue 50)).1.isOk = true by
      decide +kernel)
  obtain ⟨fills, hfilled, hfills, -⟩ := processWithdrawQueue_inOrder h
  exact ⟨result, _, fills, h, by decide +kernel, by decide +kernel, hfilled, hfills⟩

/-! ## The order of the numbers -/

/-- **The older requests are settled.** After every run, no request with a lower number than one
that a pass pays is left unpaid. -/
theorem older_settled [DecidableEq Address]
    {events : List (Event (Env Address World) (Call Address) Error (Response Address))}
    {s : State Address} {w : World} {maxEntries : ℕ} {result : QueueFillResult}
    (hrun : Run (Step (entryPoint host Fallbacks.source)) State.initial events s)
    (h : Returns (processWithdrawQueue host Fallbacks.source maxEntries) ⟨s, w⟩ result c') :
    ∃ fills, Filled fills s c'.storage ∧
      ∀ f ∈ fills, ∀ id < f.id, (s.withdrawal id).isSome → c'.storage.Settled id := by
  have hsound : Sound s := Sound.initial.run hrun
  obtain ⟨fills, hfilled, hfills, -⟩ := processWithdrawQueue_inOrder h
  refine ⟨fills, hfilled, fun f hf id hid hsome => ?_⟩
  obtain ⟨req, hreq⟩ := Option.isSome_iff_exists.mp hsome
  by_cases hsettled : req.Settled
  · exact hfilled.settled ⟨req, hreq, hsettled⟩
  -- an open request is in the queue, and before all greater numbers
  have hopen : req.closed = false := Bool.eq_false_of_not_eq_true (not_or.mp hsettled).1
  have hmem : id ∈ s.queue := hsound.queue.sound.mem_of_open hreq hopen
  obtain ⟨older, younger, hqueue, -, holder⟩ := hfills f hf
  have hqueue : s.queue = older ++ f.id :: younger := hqueue
  have hincreasing : (older ++ f.id :: younger).Pairwise (· < ·) :=
    hqueue ▸ hsound.queue.sound.increasing
  rw [hqueue, List.mem_append, List.mem_cons] at hmem
  rcases hmem with hbefore | heq | hafter
  · exact holder id hbefore
  · -- it is the paid one itself, or behind it, where the numbers are greater
    exact absurd heq hid.ne
  · have hyounger := (List.pairwise_cons.mp (List.pairwise_append.mp hincreasing).2.1).1 id hafter
    exact absurd hid hyounger.not_gt

end MultiYieldVault
