import SkyMoonScope.Gasless.Executor
import SkyMoonScope.Lib.Machine

/-!
# No replay of a signed transfer

The epoch and the nonce of a user are one counter, in lexicographic order. An execution takes the
payload that is at the counter, an invalidation moves the nonce on and a rotation the epoch, so
every call that succeeds for a user moves its counter forward. A payload is executed at the counter
and is behind it from then on; a payload that an invalidation or a rotation has passed is behind it
too.

## Main definitions

* `counter s user`: the epoch and the next nonce of a user
* `payload l`: the source, the epoch and the nonce that a call has executed
* `Advances s l t`: a call that succeeds moves the counter of its user, and no other

## Main results

* `advances_step`: every step does so
* `replay_protected`: no payload is executed twice, nor after it was retired
-/

namespace Gasless

open Soroban Machine Function

variable {Address Tokens : Type}

/-- The epoch and the next nonce of a user, in lexicographic order. -/
def counter (s : State Address Tokens) (user : Address) : ℕ ×ₗ ℕ :=
  toLex (s.epoch user, s.nonce user)

/-- The user whose counter a call is about. -/
def Call.user? : Call Address → Option Address
  | .initializeExecutor _ => none
  | .execute _ metaTx => some metaTx.source
  | .invalidateNonces user _ => some user
  | .rotateEpoch user => some user

/-- What a call has executed. -/
def payload (l : Event Address Tokens) : Option (Address × (ℕ ×ₗ ℕ)) :=
  match l.call, l.result with
  | .execute _ metaTx, .ok _ => some (metaTx.source, toLex (metaTx.epoch, metaTx.nonce))
  | _, _ => none

/-- The payloads that the calls have executed. -/
def executed (ls : List (Event Address Tokens)) : List (Address × (ℕ ×ₗ ℕ)) :=
  ls.filterMap payload

/-- A call that succeeds moves the counter of its user forward, and no call moves another one. -/
structure Advances (s : State Address Tokens) (l : Event Address Tokens)
    (t : State Address Tokens) : Prop where
  lt : ∀ r, l.result = .ok r → ∀ user ∈ l.call.user?, counter s user < counter t user
  others : ∀ user, l.call.user? ≠ some user → counter t user = counter s user

/-- After an invalidation no nonce below the new one is executed in the epoch, and after a rotation
none of the epochs before. -/
structure Retired (s : State Address Tokens) (l : Event Address Tokens)
    (ls : List (Event Address Tokens)) : Prop where
  invalidated : ∀ user newNonce, l.call = .invalidateNonces user newNonce →
    ∀ nonce, (user, toLex (s.epoch user, nonce)) ∈ executed ls → newNonce ≤ nonce
  rotated : ∀ user, l.call = .rotateEpoch user →
    ∀ epoch nonce, (user, toLex (epoch, nonce)) ∈ executed ls → s.epoch user < epoch

section Step

variable [DecidableEq Address] {host : TokenInterface Address Tokens}
  {env : Env Address Tokens} {call : Call Address} {l : Event Address Tokens}
  {s t : State Address Tokens} {r : Response}

/-- **A call that returns** moves the counter of its user forward, and no other. -/
theorem advances_body (h : Returns (body host env call) s r t) :
    (∀ user ∈ call.user?, counter s user < counter t user) ∧
      ∀ user, call.user? ≠ some user → counter t user = counter s user := by
  cases call with
  | initializeExecutor admin =>
    obtain ⟨_, h, -⟩ := returns_map.mp h
    obtain rfl := returns_initializeExecutor h
    exact ⟨fun user huser => (by cases huser), fun user _ => rfl⟩
  | execute relayer metaTx =>
    obtain ⟨_, h, -⟩ := returns_map.mp h
    obtain ⟨-, hnonce, tokens, -, rfl⟩ := returns_execute h
    constructor
    · intro user huser
      obtain rfl := Option.some.inj huser
      refine Prod.Lex.toLex_lt_toLex.mpr (.inr ⟨rfl, ?_⟩)
      dsimp only
      rw [update_self, hnonce]
      exact Nat.lt_succ_self _
    · intro user huser
      have hne : user ≠ metaTx.source := fun heq => huser (congrArg some heq.symm)
      simp only [counter, update_of_ne hne]
  | invalidateNonces user newNonce =>
    obtain ⟨_, h, -⟩ := returns_map.mp h
    obtain ⟨hlt, -, rfl⟩ := returns_invalidateNonces h
    constructor
    · intro user' huser
      obtain rfl := Option.some.inj huser
      refine Prod.Lex.toLex_lt_toLex.mpr (.inr ⟨rfl, ?_⟩)
      dsimp only
      rw [update_self]
      exact hlt
    · intro user' huser
      have hne : user' ≠ user := fun heq => huser (congrArg some heq.symm)
      simp only [counter, update_of_ne hne]
  | rotateEpoch user =>
    obtain ⟨_, h, -⟩ := returns_map.mp h
    obtain ⟨-, rfl⟩ := returns_rotateEpoch h
    constructor
    · intro user' huser
      obtain rfl := Option.some.inj huser
      refine Prod.Lex.toLex_lt_toLex.mpr (.inl ?_)
      dsimp only
      rw [update_self]
      exact Nat.lt_succ_self _
    · intro user' huser
      have hne : user' ≠ user := fun heq => huser (congrArg some heq.symm)
      simp only [counter, update_of_ne hne]

/-- **Every step** advances the counters in this way. -/
theorem advances_step (h : Step (entryPoint host) s l t) : Advances s l t := by
  rcases h.cases with ⟨v, hv, hreturns⟩ | ⟨⟨fault, hfault⟩, rfl⟩
  · obtain ⟨hlt, hothers⟩ := advances_body (returns_entryPoint.mp hreturns)
    exact ⟨fun _ _ => hlt, hothers⟩
  · exact ⟨fun r hr => (by cases hfault.symm.trans hr), fun _ _ => rfl⟩

/-- What is executed is at the counter. -/
theorem counter_of_payload {user : Address} {x : ℕ ×ₗ ℕ} (h : Step (entryPoint host) s l t)
    (hpayload : payload l = some (user, x)) :
    x = counter s user ∧ l.call.user? = some user ∧ ∃ r, l.result = .ok r := by
  obtain ⟨env, call, result⟩ := l
  unfold payload at hpayload
  split at hpayload
  next relayer metaTx r hcall hresult =>
    obtain ⟨rfl, rfl⟩ := Prod.mk.inj (Option.some.inj hpayload)
    dsimp only at hcall hresult
    subst hcall hresult
    have hreturns := returns_entryPoint.mp (invoke_eq_ok.mp h)
    obtain ⟨_, hexecute, -⟩ := returns_map.mp hreturns
    obtain ⟨hepoch, hnonce, -⟩ := returns_execute hexecute
    exact ⟨by rw [hepoch, hnonce]; rfl, rfl, r, rfl⟩
  next => cases hpayload

/-- An execution uses its payload up, and no call turns a counter back. -/
theorem usesUp_step : UsesUp (Step (entryPoint host)) counter payload where
  le := by
    intro s l t h user
    by_cases huser : l.call.user? = some user
    · rcases h.cases with ⟨v, hv, -⟩ | ⟨-, rfl⟩
      · exact ((advances_step h).lt v hv user huser).le
      · exact le_rfl
    · exact ((advances_step h).others user huser).ge
  eq_counter := fun h hpayload => (counter_of_payload h hpayload).1
  lt_counter := by
    intro s l t user x h hpayload
    obtain ⟨rfl, huser, r, hr⟩ := counter_of_payload h hpayload
    exact (advances_step h).lt r hr user huser

/-- **What a call retires** is not executed in a run after it. -/
theorem retired_of_run {ls : List (Event Address Tokens)} {u : State Address Tokens}
    (h : Step (entryPoint host) s l t) (hr : l.result = .ok r)
    (hrun : Run (Step (entryPoint host)) t ls u) : Retired s l ls := by
  have hreturns : Returns (entryPoint host l.host l.call) s r t := by
    unfold Step at h
    rw [hr] at h
    exact invoke_eq_ok.mp h
  rw [returns_entryPoint] at hreturns
  constructor
  · intro user newNonce hcall nonce hmem
    rw [hcall] at hreturns
    obtain ⟨_, hinvalidate, -⟩ := returns_map.mp hreturns
    obtain ⟨-, -, rfl⟩ := returns_invalidateNonces hinvalidate
    have hle := hrun.le_of_ticket usesUp_step hmem
    -- in the same epoch the nonces are compared
    rcases Prod.Lex.toLex_le_toLex.mp hle with hlt | ⟨-, hle⟩
    · exact absurd hlt (lt_irrefl _)
    · simpa only [update_self] using hle
  · intro user hcall epoch nonce hmem
    rw [hcall] at hreturns
    obtain ⟨_, hrotate, -⟩ := returns_map.mp hreturns
    obtain ⟨-, rfl⟩ := returns_rotateEpoch hrotate
    have hle := Prod.Lex.monotone_fst _ _ (hrun.le_of_ticket usesUp_step hmem)
    simp only [counter, update_self] at hle
    exact Nat.lt_of_succ_le hle

end Step

/-! ## Runs -/

/-- **No replay.** In every run no payload is executed twice, every call that succeeds moves the
counter of its user forward and leaves the others, and what such a call retires is not executed
afterwards. -/
theorem replay_protected [DecidableEq Address] {host : TokenInterface Address Tokens}
    {tokens : Tokens} {ls : List (Event Address Tokens)} {s : State Address Tokens}
    (h : Run (Step (entryPoint host)) (State.initial tokens) ls s) :
    (executed ls).Nodup ∧
      ∀ l t, Step (entryPoint host) s l t → Advances s l t ∧
        ∀ r ms u, l.result = .ok r → Run (Step (entryPoint host)) t ms u → Retired s l ms :=
  ⟨h.nodup_tickets usesUp_step, fun _ _ hl =>
    ⟨advances_step hl, fun _ _ _ hr hrun => retired_of_run hl hr hrun⟩⟩

/-- Everybody has authorized the call, in ledger time 5. -/
def sampleEnv : Env ℕ (Balances ℕ) where
  auth := fun _ => true
  timestamp := 5
  outside := id

/-- A transfer of 10 by user 2, up to time 9. -/
def sampleTx (epoch nonce : ℕ) : MetaTx ℕ := ⟨2, 3, 7, 10, nonce, epoch, 9⟩

/-- Two transfers, the first of which is tried twice, skipped nonces and another epoch. -/
def sampleCalls : List (Env ℕ (Balances ℕ) × Call ℕ) :=
  [(sampleEnv, .initializeExecutor 1), (sampleEnv, .execute 1 (sampleTx 0 0)),
   (sampleEnv, .execute 1 (sampleTx 0 0)), (sampleEnv, .invalidateNonces 2 5),
   (sampleEnv, .execute 1 (sampleTx 0 5)), (sampleEnv, .rotateEpoch 2)]

theorem replay_protected_sample :
    (executed (Soroban.execute (entryPoint (Balances.interface ℕ))
        (State.initial (.constant ℕ 1000)) sampleCalls).1).Nodup ∧
      executed (Soroban.execute (entryPoint (Balances.interface ℕ))
        (State.initial (.constant ℕ 1000)) sampleCalls).1 =
          [(2, toLex (0, 0)), (2, toLex (0, 5))] :=
  ⟨(replay_protected (run_execute _ _ sampleCalls)).1, by decide +kernel⟩

end Gasless
