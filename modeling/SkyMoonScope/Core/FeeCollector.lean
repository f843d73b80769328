import SkyMoonScope.Lib.Machine
import Mathlib.Data.List.Basic
import Mathlib.Order.Basic

/-!
# The fee collector

A call of `collect_latest_fees` first replays the ledgers it missed, one after another, and stops
the replay at the first that it cannot fetch or write. It then collects the latest ledger, and moves
the cursor there, wherever the replay stopped.

## Main definitions

* `FeeWritePolicy`, `retryWithBackoff`: a write that is attempted a bounded number of times
* `FeeCollector`: the cursor, the dead-letter buffer and the counters
* `Call`: what the network and the database answer to one call
* `persistSampleWithRetry`, `catchUp`, `collectLatestFees`: the functions of the source
* `Complete`: every ledger after the first collected one, up to the cursor, was persisted or placed
  in the dead-letter buffer
* `NoSkip`: a replay that stops leaves no ledger behind that was not handled before, unless the
  latest ledger is not collected either

## Main results

* `catchUp_spec`: the replay handles all ledgers before the one it stops at
* `complete_iff_noSkip`: from a complete state, a call ends in one exactly when it skips nothing
* `run_complete_iff`: the runs that are complete throughout are those that never skip
-/

namespace Core.Fees

open Machine

/-- How often a write is attempted, how many records the dead-letter buffer holds, and after how
many writes that failed an alarm is raised. -/
structure FeeWritePolicy where
  maxAttempts : ℕ
  deadLetterCapacity : ℕ
  alarmAfterConsecutiveFailures : ℕ

inductive FeeCollectorError
  | rpcRequestFailed (message : String)
  | nodeTimeout
  | parseError (message : String)
  | storeError (message : String)
  | noHealthyProviders

/-- The attempts `attempt`, `attempt + 1`, … of an operation, as many as remain. -/
def attemptsFrom (operation : ℕ → Option String) (attempt : ℕ) (lastError : String) :
    ℕ → Except (ℕ × String) ℕ
  | 0 => .error (attempt - 1, lastError)
  | n + 1 =>
    match operation attempt with
    | none => .ok attempt
    | some err => attemptsFrom operation (attempt + 1) err n

/-- Attempt an operation at least once and at most `maxAttempts` times: how many attempts it took,
or how many failed and the last error. -/
def retryWithBackoff (policy : FeeWritePolicy) (operation : ℕ → Option String) :
    Except (ℕ × String) ℕ :=
  attemptsFrom operation 1 "" (max policy.maxAttempts 1)

/-- A sample that could not be written. -/
structure DeadLetterRecord where
  ledgerSequence : ℕ
  attempts : ℕ
  lastError : String

/-- The collector. The last two fields are for the specification only: the first ledger the cursor
was at, zero before there is one, and the ledgers whose samples were persisted or placed in the
dead-letter buffer. -/
structure FeeCollector where
  writePolicy : FeeWritePolicy
  lastCollectedSequence : ℕ
  deadLetters : List DeadLetterRecord
  deadLettersDropped : ℕ
  consecutiveStoreFailures : ℕ
  alarmsRaised : ℕ
  first : ℕ
  handled : List ℕ

/-- What is answered during one call: the latest ledger, the greatest one in the database, the
sample of a ledger, and each attempt to write it. -/
structure Call where
  latest : Except FeeCollectorError ℕ
  dbLatest : Option ℕ
  fetch : ℕ → Except FeeCollectorError Unit
  write : ℕ → ℕ → Option String

namespace FeeCollector

/-- A collector whose cursor is at `cursor`. -/
def start (writePolicy : FeeWritePolicy) (cursor : ℕ) : FeeCollector where
  writePolicy
  lastCollectedSequence := cursor
  deadLetters := []
  deadLettersDropped := 0
  consecutiveStoreFailures := 0
  alarmsRaised := 0
  first := cursor
  handled := []

/-- Store the cursor. -/
def setCursor (s : FeeCollector) (seq : ℕ) : FeeCollector :=
  { s with lastCollectedSequence := seq, first := if s.first = 0 then seq else s.first }

/-- The oldest records make room for a new one. A buffer of capacity zero holds nothing. -/
def pushDeadLetter (s : FeeCollector) (record : DeadLetterRecord) : FeeCollector :=
  if s.writePolicy.deadLetterCapacity = 0 then
    { s with deadLettersDropped := s.deadLettersDropped + 1 }
  else
    let evicted := s.deadLetters.length + 1 - s.writePolicy.deadLetterCapacity
    { s with
      deadLetters := s.deadLetters.drop evicted ++ [record]
      deadLettersDropped := s.deadLettersDropped + evicted
      handled := record.ledgerSequence :: s.handled }

def enqueueDeadLetter (s : FeeCollector) (record : DeadLetterRecord) : FeeCollector :=
  let s := s.pushDeadLetter record
  let consecutive := s.consecutiveStoreFailures + 1
  let threshold := s.writePolicy.alarmAfterConsecutiveFailures
  -- an alarm on the first crossing, and then once for each further threshold of failures
  if 0 < threshold ∧ (consecutive = threshold ∨ consecutive % threshold = 0) then
    { s with consecutiveStoreFailures := consecutive, alarmsRaised := s.alarmsRaised + 1 }
  else
    { s with consecutiveStoreFailures := consecutive }

def persistSampleWithRetry (c : Call) (s : FeeCollector) (seq : ℕ) :
    Except FeeCollectorError Unit × FeeCollector :=
  match retryWithBackoff s.writePolicy (c.write seq) with
  | .ok _ => (.ok (), { s with consecutiveStoreFailures := 0, handled := seq :: s.handled })
  | .error (attempts, error) =>
    (.error (.storeError error), s.enqueueDeadLetter ⟨seq, attempts, error⟩)

/-- The catch-up replay of the `n` ledgers from `seq` on. -/
def catchUp (c : Call) (s : FeeCollector) (seq : ℕ) : ℕ → FeeCollector
  | 0 => s
  | n + 1 =>
    match c.fetch seq with
    | .error _ => s
    | .ok () =>
      match s.persistSampleWithRetry c seq with
      | (.error _, s) => s
      | (.ok (), s) => (s.setCursor seq).catchUp c (seq + 1) n

/-- An uninitialized cursor is loaded from the database. -/
def loadCursor (c : Call) (s : FeeCollector) : FeeCollector :=
  match c.dbLatest with
  | some dbLatest => if s.lastCollectedSequence = 0 then s.setCursor dbLatest else s
  | none => s

/-- Fetch and write the latest ledger, and move the cursor there. -/
def collectLatest (c : Call) (s : FeeCollector) (latest : ℕ) :
    Except FeeCollectorError Bool × FeeCollector :=
  match c.fetch latest with
  | .error e => (.error e, s)
  | .ok () =>
    match s.persistSampleWithRetry c latest with
    | (.error e, s) => (.error e, s)
    | (.ok (), s) => (.ok true, s.setCursor latest)

def collectLatestFees (c : Call) (s : FeeCollector) :
    Except FeeCollectorError Bool × FeeCollector :=
  match c.latest with
  | .error e => (.error e, s)
  | .ok latest =>
    let s := s.loadCursor c
    let lastCollected := s.lastCollectedSequence
    if latest ≤ lastCollected then (.ok false, s)
    else if 0 < lastCollected ∧ lastCollected + 1 < latest then
      (s.catchUp c (lastCollected + 1) (latest - 1 - lastCollected)).collectLatest c latest
    else
      s.collectLatest c latest

/-! ## What a call collects -/

/-- The sample of a ledger is fetched, and one of the attempts to write it succeeds. -/
def Collects (policy : FeeWritePolicy) (c : Call) (seq : ℕ) : Prop :=
  c.fetch seq = .ok () ∧ (retryWithBackoff policy (c.write seq)).isOk

/-- The sample of a ledger is fetched, and placed in the dead-letter buffer as it cannot be
written. -/
def DeadLetters (policy : FeeWritePolicy) (c : Call) (seq : ℕ) : Prop :=
  c.fetch seq = .ok () ∧ ¬ (retryWithBackoff policy (c.write seq)).isOk ∧
    policy.deadLetterCapacity ≠ 0

/-- Every ledger after the first collected one, up to the cursor, was handled. -/
def Complete (s : FeeCollector) : Prop :=
  ∀ seq, s.first < seq → seq ≤ s.lastCollectedSequence → seq ∈ s.handled

/-- When the replay stops at a ledger and the latest ledger is collected all the same, the ledgers
between, the one it stopped at included, were handled before; or this one was placed in the
dead-letter buffer just now. -/
def NoSkip (s : FeeCollector) (c : Call) : Prop :=
  ∀ latest stop, c.latest = .ok latest → Collects s.writePolicy c latest →
    0 < (s.loadCursor c).lastCollectedSequence → (s.loadCursor c).lastCollectedSequence < stop →
    stop < latest →
    (∀ seq, (s.loadCursor c).lastCollectedSequence < seq → seq < stop →
      Collects s.writePolicy c seq) →
    ¬ Collects s.writePolicy c stop →
    ∀ seq, stop ≤ seq → seq < latest →
      seq ∈ s.handled ∨ seq = stop ∧ DeadLetters s.writePolicy c stop

/-- One call. -/
def Step (s : FeeCollector) (c : Call) (t : FeeCollector) : Prop :=
  (s.collectLatestFees c).2 = t

variable {policy : FeeWritePolicy} {c : Call} {s t : FeeCollector} {seq latest : ℕ}

/-- A write leaves the cursor alone, and handles its ledger when it succeeds or the buffer holds
what failed. -/
structure Wrote (c : Call) (seq : ℕ) (s t : FeeCollector) : Prop where
  policy_eq : t.writePolicy = s.writePolicy
  first_eq : t.first = s.first
  cursor_eq : t.lastCollectedSequence = s.lastCollectedSequence
  handled : ∀ q, q ∈ t.handled ↔ q ∈ s.handled ∨ q = seq ∧
    ((retryWithBackoff s.writePolicy (c.write seq)).isOk ∨ s.writePolicy.deadLetterCapacity ≠ 0)

theorem enqueueDeadLetter_frame (s : FeeCollector) (record : DeadLetterRecord) :
    (s.enqueueDeadLetter record).writePolicy = s.writePolicy ∧
      (s.enqueueDeadLetter record).first = s.first ∧
      (s.enqueueDeadLetter record).lastCollectedSequence = s.lastCollectedSequence ∧
      (s.enqueueDeadLetter record).handled =
        if s.writePolicy.deadLetterCapacity = 0 then s.handled
        else record.ledgerSequence :: s.handled := by
  simp only [enqueueDeadLetter, pushDeadLetter]
  by_cases hcap : s.writePolicy.deadLetterCapacity = 0
  · simp only [hcap, if_true]
    split <;> exact ⟨rfl, rfl, rfl, rfl⟩
  · simp only [hcap, if_false]
    split <;> exact ⟨rfl, rfl, rfl, rfl⟩

theorem persistSampleWithRetry_spec (c : Call) (s : FeeCollector) (seq : ℕ) :
    Wrote c seq s (s.persistSampleWithRetry c seq).2 ∧
      (s.persistSampleWithRetry c seq).1.isOk =
        (retryWithBackoff s.writePolicy (c.write seq)).isOk := by
  unfold persistSampleWithRetry
  cases hretry : retryWithBackoff s.writePolicy (c.write seq) with
  | ok attempts =>
    refine ⟨⟨rfl, rfl, rfl, ?_⟩, rfl⟩
    intro q
    simp [hretry, Except.isOk, Except.toBool, or_comm]
  | error e =>
    obtain ⟨attempts, error⟩ := e
    obtain ⟨hpolicy, hfirst, hcursor, hhandled⟩ :=
      enqueueDeadLetter_frame s ⟨seq, attempts, error⟩
    refine ⟨⟨hpolicy, hfirst, hcursor, ?_⟩, rfl⟩
    intro q
    simp only [hhandled]
    by_cases hcap : s.writePolicy.deadLetterCapacity = 0
    · simp [hcap, hretry, Except.isOk, Except.toBool]
    · simp [hcap, or_comm]

theorem first_setCursor (h : s.first ≠ 0) : (s.setCursor seq).first = s.first := by
  simp only [setCursor, h, if_false]

/-- The replay of the `n` ledgers from `seq` on stopped at `stop`: it collected all before it, and
placed this one in the dead-letter buffer if it could. -/
structure Replayed (c : Call) (s : FeeCollector) (seq n stop : ℕ) (t : FeeCollector) : Prop where
  seq_le : seq ≤ stop
  stop_le : stop ≤ seq + n
  collects : ∀ q, seq ≤ q → q < stop → Collects s.writePolicy c q
  not_collects : stop < seq + n → ¬ Collects s.writePolicy c stop
  policy_eq : t.writePolicy = s.writePolicy
  first_eq : t.first = s.first
  cursor : t.lastCollectedSequence + 1 = stop
  handled : ∀ q, q ∈ t.handled ↔ q ∈ s.handled ∨ seq ≤ q ∧ q < stop ∨
    q = stop ∧ stop < seq + n ∧ DeadLetters s.writePolicy c stop

/-- A replay that stops at its first ledger. -/
theorem Replayed.of_wrote {n : ℕ} (hcursor : s.lastCollectedSequence + 1 = seq)
    (hpolicy : t.writePolicy = s.writePolicy) (hfirst : t.first = s.first)
    (hlast : t.lastCollectedSequence = s.lastCollectedSequence)
    (hnot : 0 < n → ¬ Collects s.writePolicy c seq)
    (hhandled : ∀ q, q ∈ t.handled ↔ q ∈ s.handled ∨ q = seq ∧ 0 < n ∧
      DeadLetters s.writePolicy c seq) : Replayed c s seq n seq t where
  seq_le := Nat.le_refl _
  stop_le := Nat.le_add_right _ _
  collects := by omega
  not_collects := fun h => hnot (by omega)
  policy_eq := hpolicy
  first_eq := hfirst
  cursor := by rw [hlast, hcursor]
  handled := by
    intro q
    rw [hhandled]
    constructor
    · rintro (h | ⟨rfl, hn, h⟩)
      · exact .inl h
      · exact .inr (.inr ⟨rfl, by omega, h⟩)
    · rintro (h | h | ⟨rfl, hn, h⟩)
      · exact .inl h
      · omega
      · exact .inr ⟨rfl, by omega, h⟩

/-- A replay that collects its first ledger goes on with the next. -/
theorem Replayed.cons {n stop : ℕ} {u : FeeCollector} (hfirst : s.first ≠ 0)
    (hcol : Collects s.writePolicy c seq) (hwrote : Wrote c seq s t)
    (h : Replayed c (t.setCursor seq) (seq + 1) n stop u) : Replayed c s seq (n + 1) stop u := by
  have hle := h.seq_le
  have hpolicy : (t.setCursor seq).writePolicy = s.writePolicy := hwrote.policy_eq
  have hfirst' : (t.setCursor seq).first = s.first := by
    rw [first_setCursor (by rw [hwrote.first_eq]; exact hfirst), hwrote.first_eq]
  have hcollects := h.collects
  have hnot := h.not_collects
  have hhandled := h.handled
  rw [hpolicy] at hcollects hnot hhandled
  refine ⟨by omega, by have := h.stop_le; omega, ?_, fun hlt => hnot (by omega),
    h.policy_eq.trans hpolicy, h.first_eq.trans hfirst', h.cursor, ?_⟩
  · intro q hq hlt
    rcases Nat.eq_or_lt_of_le hq with rfl | hq
    · exact hcol
    · exact hcollects q hq hlt
  · intro q
    rw [hhandled, show (t.setCursor seq).handled = t.handled from rfl, hwrote.handled]
    constructor
    · rintro ((h | ⟨rfl, -⟩) | h | ⟨rfl, hlt, h⟩)
      · exact .inl h
      · exact .inr (.inl (by omega))
      · exact .inr (.inl (by omega))
      · exact .inr (.inr ⟨rfl, by omega, h⟩)
    · rintro (h | h | ⟨rfl, hlt, h⟩)
      · exact .inl (.inl h)
      · by_cases hq : q = seq
        · exact .inl (.inr ⟨hq, .inl hcol.2⟩)
        · exact .inr (.inl (by omega))
      · exact .inr (.inr ⟨rfl, by omega, h⟩)

/-- **The replay** of the ledgers after the cursor handles all before the one it stops at. -/
theorem catchUp_spec (c : Call) (s : FeeCollector) (seq n : ℕ)
    (hcursor : s.lastCollectedSequence + 1 = seq) (hfirst : s.first ≠ 0) :
    ∃ stop, Replayed c s seq n stop (s.catchUp c seq n) := by
  induction n generalizing s seq with
  | zero => exact ⟨seq, .of_wrote hcursor rfl rfl rfl (by omega) (by simp [catchUp])⟩
  | succ n ih =>
    cases hfetch : c.fetch seq with
    | error e =>
      -- the replay stops at a ledger that cannot be fetched
      have heq : s.catchUp c seq (n + 1) = s := by simp only [catchUp, hfetch]
      rw [heq]
      exact ⟨seq, .of_wrote hcursor rfl rfl rfl (by simp [Collects, hfetch])
        (by simp [DeadLetters, hfetch])⟩
    | ok u =>
      obtain ⟨hwrote, hok⟩ := persistSampleWithRetry_spec c s seq
      rcases hpersist : s.persistSampleWithRetry c seq with ⟨r, t⟩
      rw [hpersist] at hwrote hok
      cases r with
      | error e =>
        -- or at one that cannot be written
        have hnot : (retryWithBackoff s.writePolicy (c.write seq)).isOk = false := hok.symm
        have heq : s.catchUp c seq (n + 1) = t := by simp only [catchUp, hfetch, hpersist]
        rw [heq]
        refine ⟨seq, .of_wrote hcursor hwrote.policy_eq hwrote.first_eq hwrote.cursor_eq
          (by simp [Collects, hnot]) ?_⟩
        intro q
        rw [hwrote.handled]
        simp [hnot, DeadLetters, hfetch]
      | ok u =>
        have hwrite : (retryWithBackoff s.writePolicy (c.write seq)).isOk = true := hok.symm
        have heq : s.catchUp c seq (n + 1) = (t.setCursor seq).catchUp c (seq + 1) n := by
          simp only [catchUp, hfetch, hpersist]
        rw [heq]
        have hfirst' : t.first ≠ 0 := by
          rw [hwrote.first_eq]
          exact hfirst
        obtain ⟨stop, hstop⟩ := ih (t.setCursor seq) (seq + 1) rfl (by
          rw [first_setCursor hfirst']
          exact hfirst')
        exact ⟨stop, hstop.cons hfirst ⟨hfetch, hwrite⟩ hwrote⟩

/-! ## One call -/

/-- The cursor is zero exactly until the first ledger, and never behind it. -/
structure Started (s : FeeCollector) : Prop where
  zero_iff : s.first = 0 ↔ s.lastCollectedSequence = 0
  first_le : s.first ≤ s.lastCollectedSequence

/-- The latest ledger is collected, with the cursor moved there, or else nothing but perhaps the
dead-letter buffer changes. -/
theorem collectLatest_spec (c : Call) (s : FeeCollector) (latest : ℕ) :
    (Collects s.writePolicy c latest ∧ ∃ u, Wrote c latest s u ∧
        (s.collectLatest c latest).2 = u.setCursor latest) ∨
      (¬ Collects s.writePolicy c latest ∧ (s.collectLatest c latest).2.first = s.first ∧
        (s.collectLatest c latest).2.lastCollectedSequence = s.lastCollectedSequence ∧
        ∀ q ∈ s.handled, q ∈ (s.collectLatest c latest).2.handled) := by
  unfold collectLatest
  cases hfetch : c.fetch latest with
  | error e => exact .inr ⟨by simp [Collects, hfetch], rfl, rfl, fun q hq => hq⟩
  | ok u =>
    obtain ⟨hwrote, hok⟩ := persistSampleWithRetry_spec c s latest
    rcases hpersist : s.persistSampleWithRetry c latest with ⟨r, t⟩
    rw [hpersist] at hwrote hok
    cases r with
    | error e =>
      have hnot : (retryWithBackoff s.writePolicy (c.write latest)).isOk = false := hok.symm
      exact .inr ⟨by simp [Collects, hnot], hwrote.first_eq, hwrote.cursor_eq,
        fun q hq => (hwrote.handled q).mpr (.inl hq)⟩
    | ok u =>
      exact .inl ⟨⟨hfetch, hok.symm⟩, t, hwrote, rfl⟩

/-- Loading the cursor handles nothing, and keeps a complete collector complete. -/
theorem loadCursor_spec (c : Call) (hs : s.Started) :
    (s.loadCursor c).writePolicy = s.writePolicy ∧ (s.loadCursor c).handled = s.handled ∧
      (s.loadCursor c).Started ∧ (s.Complete → (s.loadCursor c).Complete) := by
  unfold loadCursor
  cases c.dbLatest with
  | none => exact ⟨rfl, rfl, hs, id⟩
  | some dbLatest =>
    by_cases hlast : s.lastCollectedSequence = 0
    · have hfirst : s.first = 0 := hs.zero_iff.mpr hlast
      simp only [hlast, if_true, setCursor, hfirst]
      refine ⟨trivial, trivial, ⟨Iff.rfl, le_rfl⟩, fun _ seq hlt hle => ?_⟩
      simp only at hlt hle
      omega
    · simp only [hlast, if_false]
      exact ⟨trivial, trivial, hs, id⟩

/-- The four outcomes of a call: the latest ledger is not known; it is not new; it is the first;
or the replay stopped somewhere before it. -/
theorem step_cases (h : Step s c t) (hs : s.Started) :
    (t = s ∧ ∀ latest, c.latest ≠ .ok latest) ∨
    (∃ latest, c.latest = .ok latest ∧ t = s.loadCursor c ∧
      latest ≤ (s.loadCursor c).lastCollectedSequence) ∨
    (∃ latest, c.latest = .ok latest ∧ (s.loadCursor c).lastCollectedSequence = 0 ∧
      0 < latest ∧ t = ((s.loadCursor c).collectLatest c latest).2) ∨
    ∃ latest stop u, c.latest = .ok latest ∧ 0 < (s.loadCursor c).lastCollectedSequence ∧
      (s.loadCursor c).lastCollectedSequence < latest ∧
      Replayed c (s.loadCursor c) ((s.loadCursor c).lastCollectedSequence + 1)
        (latest - 1 - (s.loadCursor c).lastCollectedSequence) stop u ∧
      t = (u.collectLatest c latest).2 := by
  obtain ⟨-, -, hstarted, -⟩ := loadCursor_spec c hs
  unfold Step collectLatestFees at h
  cases hlatest : c.latest with
  | error e =>
    rw [hlatest] at h
    exact .inl ⟨h.symm, by simp⟩
  | ok latest =>
    simp only [hlatest] at h
    split at h
    case isTrue hle => exact .inr (.inl ⟨latest, rfl, h.symm, hle⟩)
    case isFalse hlt =>
      split at h
      case isTrue hgap =>
        have hfirst : (s.loadCursor c).first ≠ 0 := fun h0 => by
          have := hstarted.zero_iff.mp h0
          omega
        obtain ⟨stop, hstop⟩ := catchUp_spec c (s.loadCursor c) _
          (latest - 1 - (s.loadCursor c).lastCollectedSequence) rfl hfirst
        exact .inr (.inr (.inr ⟨latest, stop, _, rfl, hgap.1, by omega, hstop, h.symm⟩))
      case isFalse hgap =>
        by_cases hlast : (s.loadCursor c).lastCollectedSequence = 0
        · exact .inr (.inr (.inl ⟨latest, rfl, hlast, by omega, h.symm⟩))
        · -- there is nothing to replay
          have hn : latest - 1 - (s.loadCursor c).lastCollectedSequence = 0 := by omega
          have hreplayed : Replayed c (s.loadCursor c)
              ((s.loadCursor c).lastCollectedSequence + 1) 0 _ (s.loadCursor c) :=
            .of_wrote rfl rfl rfl rfl (by omega) (by simp)
          exact .inr (.inr (.inr ⟨latest, (s.loadCursor c).lastCollectedSequence + 1,
            s.loadCursor c, rfl, by omega, by omega, by rw [hn]; exact hreplayed, h.symm⟩))

/-- After a replay all ledgers before the one it stopped at are handled. -/
theorem Replayed.mem_handled {n stop q : ℕ} {u : FeeCollector}
    (h : Replayed c s (s.lastCollectedSequence + 1) n stop u) (hc : s.Complete)
    (hq : s.first < q) (hlt : q < stop) : q ∈ u.handled := by
  rw [h.handled]
  by_cases hle : q ≤ s.lastCollectedSequence
  · exact .inl (hc q hq hle)
  · exact .inr (.inl ⟨by omega, hlt⟩)

/-- Only one ledger is the first that is not collected. -/
theorem Replayed.stop_unique {n stop stop' : ℕ} {u : FeeCollector}
    (h : Replayed c s seq n stop u) (hle : seq ≤ stop') (hlt : stop' < seq + n)
    (hcol : ∀ q, seq ≤ q → q < stop' → Collects s.writePolicy c q)
    (hnot : ¬ Collects s.writePolicy c stop') : stop' = stop := by
  rcases Nat.lt_trichotomy stop' stop with hs | hs | hs
  · exact absurd (h.collects stop' hle hs) hnot
  · exact hs
  · exact absurd (hcol stop h.seq_le hs) (h.not_collects (by omega))

/-- A call skips nothing when what its replay left before the latest ledger is handled, or goes to
the dead-letter buffer. -/
theorem Replayed.noSkip_iff {stop : ℕ} {u : FeeCollector} (hs : s.Started)
    (hlatest : c.latest = .ok latest) (hpos : 0 < (s.loadCursor c).lastCollectedSequence)
    (hlt : (s.loadCursor c).lastCollectedSequence < latest)
    (h : Replayed c (s.loadCursor c) ((s.loadCursor c).lastCollectedSequence + 1)
      (latest - 1 - (s.loadCursor c).lastCollectedSequence) stop u) :
    s.NoSkip c ↔ (Collects s.writePolicy c latest → ∀ q, stop ≤ q → q < latest →
      q ∈ s.handled ∨ q = stop ∧ DeadLetters s.writePolicy c stop) := by
  obtain ⟨hpolicy, -, -, -⟩ := loadCursor_spec c hs
  have hle := h.seq_le
  constructor
  · intro hnoskip hcol q hq hqlt
    have hcollects := h.collects
    have hnot := h.not_collects (by omega)
    rw [hpolicy] at hcollects hnot
    exact hnoskip latest stop hlatest hcol hpos (by omega) (by omega)
      (fun q hq => hcollects q hq) hnot q hq hqlt
  · intro hskip latest' stop' hl hcol _ hstop' hlt' hcol' hnot
    obtain rfl : latest = latest' := Except.ok.inj (hlatest.symm.trans hl)
    rw [← hpolicy] at hcol' hnot
    obtain rfl := h.stop_unique hstop' (by omega) (fun q hq => hcol' q hq) hnot
    exact hskip hcol

/-- The first ledger of all: there is nothing before it. -/
theorem complete_of_first (c : Call) (latest : ℕ) (hs : s.Started) (hc : s.Complete)
    (hlast : s.lastCollectedSequence = 0) :
    (s.collectLatest c latest).2.Started ∧ (s.collectLatest c latest).2.Complete := by
  have hfirst := hs.zero_iff.mpr hlast
  rcases collectLatest_spec c s latest with ⟨-, u, hwrote, heq⟩ | ⟨-, hfst, hcur, hkeep⟩
  · have hfirst' : u.first = 0 := hwrote.first_eq.trans hfirst
    rw [heq]
    refine ⟨⟨?_, ?_⟩, ?_⟩
    · simp only [setCursor, hfirst', if_true]
    · simp only [setCursor, hfirst', if_true, le_refl]
    · intro seq hlt hle
      simp only [setCursor, hfirst', if_true] at hlt hle
      omega
  · refine ⟨⟨?_, ?_⟩, ?_⟩
    · rw [hfst, hcur]
      exact hs.zero_iff
    · rw [hfst, hcur]
      exact hs.first_le
    · intro seq hlt hle
      rw [hfst] at hlt
      rw [hcur] at hle
      exact hkeep seq (hc seq hlt hle)

/-- A replay after which the latest ledger is not collected: the cursor stays where it stopped. -/
theorem Replayed.complete_of_kept {n stop : ℕ} {u : FeeCollector}
    (h : Replayed c s (s.lastCollectedSequence + 1) n stop u) (hs : s.Started) (hc : s.Complete)
    (hpos : 0 < s.lastCollectedSequence) (hfst : t.first = u.first)
    (hcur : t.lastCollectedSequence = u.lastCollectedSequence)
    (hkeep : ∀ q ∈ u.handled, q ∈ t.handled) : t.Started ∧ t.Complete := by
  have hle := h.seq_le
  have hcursor := h.cursor
  have hfirst_le := hs.first_le
  have hfirst : s.first ≠ 0 := fun h0 => Nat.ne_of_gt hpos (hs.zero_iff.mp h0)
  refine ⟨⟨?_, ?_⟩, ?_⟩
  · rw [hfst, hcur, h.first_eq]
    exact iff_of_false hfirst (by omega)
  · rw [hfst, hcur, h.first_eq]
    omega
  · intro q hqlt hqle
    rw [hfst, h.first_eq] at hqlt
    rw [hcur] at hqle
    exact hkeep q (h.mem_handled hc hqlt (by omega))

/-- A replay after which the latest ledger is collected: what the replay left is behind the
cursor. -/
theorem Replayed.complete_iff_of_collected {stop : ℕ} {u v : FeeCollector}
    (h : Replayed c s (s.lastCollectedSequence + 1) (latest - 1 - s.lastCollectedSequence) stop u)
    (hs : s.Started) (hc : s.Complete) (hpos : 0 < s.lastCollectedSequence)
    (hlt : s.lastCollectedSequence < latest) (hwrote : Wrote c latest u v)
    (hcol : Collects u.writePolicy c latest) :
    (v.setCursor latest).Started ∧ ((v.setCursor latest).Complete ↔
      ∀ q, stop ≤ q → q < latest →
        q ∈ s.handled ∨ q = stop ∧ DeadLetters s.writePolicy c stop) := by
  have hle := h.seq_le
  have hle' := h.stop_le
  have hfirst_le := hs.first_le
  have hfirst : s.first ≠ 0 := fun h0 => Nat.ne_of_gt hpos (hs.zero_iff.mp h0)
  have hvfirst : v.first ≠ 0 := by rwa [hwrote.first_eq, h.first_eq]
  have hfst : (v.setCursor latest).first = s.first := by
    rw [first_setCursor hvfirst, hwrote.first_eq, h.first_eq]
  have hcur : (v.setCursor latest).lastCollectedSequence = latest := rfl
  have hmem : ∀ q, q ∈ (v.setCursor latest).handled ↔ q ∈ u.handled ∨ q = latest := by
    intro q
    rw [show (v.setCursor latest).handled = v.handled from rfl, hwrote.handled]
    simp [hcol.2]
  refine ⟨⟨?_, ?_⟩, ?_, ?_⟩
  · rw [hfst, hcur]
    exact iff_of_false hfirst (by omega)
  · rw [hfst, hcur]
    omega
  · intro hcompl q hq hqlt
    have hin := hcompl q (by omega) (by omega)
    rw [hmem, h.handled] at hin
    rcases hin with (hin | hin | ⟨heq, -, hdead⟩) | hin
    · exact .inl hin
    · omega
    · exact .inr ⟨heq, hdead⟩
    · omega
  · intro hleft q hqlt hqle
    rw [hfst] at hqlt
    rw [hcur] at hqle
    rw [hmem]
    by_cases hq : q < stop
    · exact .inl (h.mem_handled hc hqlt hq)
    rcases Nat.eq_or_lt_of_le hqle with rfl | hq'
    · exact .inr rfl
    refine .inl ((h.handled q).mpr ?_)
    rcases hleft q (by omega) hq' with hin | ⟨rfl, hdead⟩
    · exact .inl hin
    · exact .inr (.inr ⟨rfl, by omega, hdead⟩)

/-- **A call from a complete state** ends in a complete state exactly when it skips nothing. -/
theorem complete_iff_noSkip (h : Step s c t) (hs : s.Started) (hc : s.Complete) :
    t.Started ∧ (t.Complete ↔ s.NoSkip c) := by
  obtain ⟨hpolicy, hhandled, hstarted, hcomplete⟩ := loadCursor_spec c hs
  rcases step_cases h hs with ⟨rfl, hlatest⟩ | ⟨latest, hlatest, rfl, hle⟩ |
    ⟨latest, hlatest, hlast, hpos, rfl⟩ | ⟨latest, stop, u, hlatest, hpos, hlt, hu, rfl⟩
  · refine ⟨hs, iff_of_true hc ?_⟩
    intro latest _ hl
    exact absurd hl (hlatest latest)
  · refine ⟨hstarted, iff_of_true (hcomplete hc) ?_⟩
    intro latest' stop hl _ _ hstop hlt
    obtain rfl : latest = latest' := Except.ok.inj (hlatest.symm.trans hl)
    omega
  · have hnoskip : s.NoSkip c := by
      intro _ _ _ _ hpos'
      omega
    obtain ⟨ht, htc⟩ := complete_of_first c latest hstarted (hcomplete hc) hlast
    exact ⟨ht, iff_of_true htc hnoskip⟩
  · have hupolicy : u.writePolicy = s.writePolicy := hu.policy_eq.trans hpolicy
    rw [Replayed.noSkip_iff hs hlatest hpos hlt hu]
    rcases collectLatest_spec c u latest with ⟨hcol, v, hwrote, heq⟩ | ⟨hcol, hfst, hcur, hkeep⟩
    · obtain ⟨ht, hiff⟩ :=
        hu.complete_iff_of_collected hstarted (hcomplete hc) hpos hlt hwrote hcol
      rw [hpolicy, hhandled] at hiff
      rw [hupolicy] at hcol
      rw [heq]
      exact ⟨ht, hiff.trans ⟨fun hleft _ => hleft, fun hleft => hleft hcol⟩⟩
    · obtain ⟨ht, htc⟩ := hu.complete_of_kept hstarted (hcomplete hc) hpos hfst hcur hkeep
      rw [hupolicy] at hcol
      exact ⟨ht, iff_of_true htc fun hcol' => absurd hcol' hcol⟩

/-! ## Runs of calls -/

/-- A call that ends in a complete state. -/
def CompleteStep (s : FeeCollector) (c : Call) (t : FeeCollector) : Prop :=
  Step s c t ∧ t.Complete

/-- A call that skips nothing. -/
def NoSkipStep (s : FeeCollector) (c : Call) (t : FeeCollector) : Prop :=
  Step s c t ∧ s.NoSkip c

theorem start_spec (policy : FeeWritePolicy) (cursor : ℕ) :
    (start policy cursor).Started ∧ (start policy cursor).Complete := by
  refine ⟨⟨Iff.rfl, le_rfl⟩, ?_⟩
  intro seq hlt hle
  simp only [start] at hlt hle
  omega

/-- **The runs that are complete throughout** are exactly those whose calls skip nothing. -/
theorem run_complete_iff (policy : FeeWritePolicy) (cursor : ℕ) (cs : List Call)
    (t : FeeCollector) :
    Run CompleteStep (start policy cursor) cs t ↔ Run NoSkipStep (start policy cursor) cs t := by
  constructor
  · refine fun h => h.mono_of_invariant (I := fun s => s.Started ∧ s.Complete) ?_
      (start_spec policy cursor)
    rintro s c u ⟨hs, hc⟩ ⟨hstep, hu⟩
    obtain ⟨hstarted, hiff⟩ := complete_iff_noSkip hstep hs hc
    exact ⟨⟨hstarted, hu⟩, hstep, hiff.mp hu⟩
  · refine fun h => h.mono_of_invariant (I := fun s => s.Started ∧ s.Complete) ?_
      (start_spec policy cursor)
    rintro s c u ⟨hs, hc⟩ ⟨hstep, hno⟩
    obtain ⟨hstarted, hiff⟩ := complete_iff_noSkip hstep hs hc
    exact ⟨⟨hstarted, hiff.mpr hno⟩, hstep, hiff.mpr hno⟩

/-- **A gap is skipped.** The cursor is at ledger 10 and the latest ledger is 13. Ledger 11 cannot
be fetched, ledger 13 can: the cursor moves past 11 and 12. -/
theorem not_complete :
    ¬ ∀ (policy : FeeWritePolicy) (cursor : ℕ) (cs : List Call) (t : FeeCollector),
      Run Step (start policy cursor) cs t → t.Complete := by
  intro h
  let call : Call :=
    { latest := .ok 13
      dbLatest := none
      fetch := fun seq => if seq = 11 then .error .nodeTimeout else .ok ()
      write := fun _ _ => none }
  have hrun : Run Step (start ⟨3, 256, 5⟩ 10) [call] _ := .single rfl
  exact absurd (h _ _ _ _ hrun 11 (by decide) (by decide)) (by decide)

end FeeCollector

end Core.Fees
