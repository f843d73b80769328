import SkyMoonScope.Core.FeeCollector
import Mathlib.Data.List.DropRight

/-!
# The accounts of the dead-letter buffer

A write that exhausts its attempts leaves a record in the dead-letter buffer, from which an operator
drains it. A full buffer evicts its oldest records, and one of capacity zero drops every record. The
counters of the collector account for all of them, whatever the order of writes and drains.

## Main definitions

* `drainDeadLetters`: the function of the source
* `BufferEvent`, `BufferStep`: writes, drains and moves of the cursor, in any order
* `exhausted`, `drained`, `undrained`, `sinceSuccess`: what a sequence of events adds up to
* `raisesAlarm`: the write exhausts its attempts and brings the failures to a multiple of the
  threshold

## Main results

* `accounted_step`: an event keeps the accounts
* `deadLetters_accounted`: the counters and the buffer after any sequence of events
* `run_collectLatestFees`: a call of the collector is such a sequence
-/

namespace Core.Fees

open Machine

/-- A step on the dead-letter buffer, with the records that a drain returns. -/
inductive BufferEvent
  | persist (c : Call) (seq : ℕ)
  | moveCursor (seq : ℕ)
  | drain (records : List DeadLetterRecord)

namespace FeeCollector

/-- All buffered records, oldest first; the buffer is empty afterwards. -/
def drainDeadLetters (s : FeeCollector) : List DeadLetterRecord × FeeCollector :=
  (s.deadLetters, { s with deadLetters := [] })

/-- One event. A write ends in its `Result` and the new state, of which the state remains. -/
inductive BufferStep : FeeCollector → BufferEvent → FeeCollector → Prop
  | persist (s : FeeCollector) (c : Call) (seq : ℕ) :
      BufferStep s (.persist c seq) (s.persistSampleWithRetry c seq).2
  | moveCursor (s : FeeCollector) (seq : ℕ) : BufferStep s (.moveCursor seq) (s.setCursor seq)
  | drain (s : FeeCollector) : BufferStep s (.drain s.drainDeadLetters.1) s.drainDeadLetters.2

/-! ## What a sequence of events adds up to -/

/-- The record of a write that exhausts its attempts. -/
def exhausts (policy : FeeWritePolicy) : BufferEvent → Option DeadLetterRecord
  | .persist c seq =>
    match retryWithBackoff policy (c.write seq) with
    | .ok _ => none
    | .error (attempts, error) => some ⟨seq, attempts, error⟩
  | _ => none

/-- The write succeeds. -/
def succeeds (policy : FeeWritePolicy) : BufferEvent → Bool
  | .persist c seq => (retryWithBackoff policy (c.write seq)).isOk
  | _ => false

def isDrain : BufferEvent → Bool
  | .drain _ => true
  | _ => false

def drainedBy : BufferEvent → List DeadLetterRecord
  | .drain records => records
  | _ => []

/-- The records of all exhausted writes, oldest first. -/
def exhausted (policy : FeeWritePolicy) (es : List BufferEvent) : List DeadLetterRecord :=
  es.filterMap (exhausts policy)

/-- The records that the drains have returned. -/
def drained (es : List BufferEvent) : List DeadLetterRecord :=
  es.flatMap drainedBy

/-- The records of the exhausted writes since the last drain. -/
def undrained (policy : FeeWritePolicy) (es : List BufferEvent) : List DeadLetterRecord :=
  exhausted policy (es.rtakeWhile fun e => !isDrain e)

/-- The number of exhausted writes since the last write that succeeded. -/
def sinceSuccess (policy : FeeWritePolicy) (es : List BufferEvent) : ℕ :=
  (exhausted policy (es.rtakeWhile fun e => !succeeds policy e)).length

/-- The last event of the sequence is an exhausted write that brings the failures to a positive
multiple of the threshold. -/
def raisesAlarm (policy : FeeWritePolicy) (es : List BufferEvent) (e : BufferEvent) : Prop :=
  (exhausts policy e).isSome ∧ ∃ k, 0 < k ∧ 0 < policy.alarmAfterConsecutiveFailures ∧
    sinceSuccess policy (es ++ [e]) = k * policy.alarmAfterConsecutiveFailures

variable {policy : FeeWritePolicy} {s t : FeeCollector} {e : BufferEvent} {es : List BufferEvent}

theorem exhausted_concat :
    exhausted policy (es ++ [e]) = exhausted policy es ++ (exhausts policy e).toList := by
  rw [exhausted, List.filterMap_append, exhausted]
  cases h : exhausts policy e <;> simp [h]

theorem drained_concat : drained (es ++ [e]) = drained es ++ drainedBy e := by
  rw [drained, List.flatMap_append, List.flatMap_singleton, drained]

theorem undrained_concat : undrained policy (es ++ [e]) =
    if isDrain e then [] else undrained policy es ++ (exhausts policy e).toList := by
  rw [undrained, List.rtakeWhile_concat]
  cases h : isDrain e with
  | true => rfl
  | false => exact exhausted_concat

theorem sinceSuccess_concat : sinceSuccess policy (es ++ [e]) =
    if succeeds policy e then 0
    else sinceSuccess policy es + (exhausts policy e).toList.length := by
  rw [sinceSuccess, List.rtakeWhile_concat]
  cases h : succeeds policy e with
  | true => rfl
  | false =>
    show (exhausted policy (_ ++ [e])).length = _
    rw [exhausted_concat, List.length_append]
    rfl

/-- An exhausted write counts as a failure itself. -/
theorem sinceSuccess_pos (he : (exhausts policy e).isSome) :
    0 < sinceSuccess policy (es ++ [e]) := by
  have hsucceeds : succeeds policy e = false := by
    cases e with
    | persist c seq =>
      unfold exhausts at he
      cases h : retryWithBackoff policy (c.write seq) with
      | ok attempts => simp [h] at he
      | error failure => simp [succeeds, h, Except.isOk, Except.toBool]
    | moveCursor | drain => rfl
  obtain ⟨record, hrecord⟩ := Option.isSome_iff_exists.mp he
  rw [sinceSuccess_concat, hsucceeds, hrecord]
  exact Nat.succ_pos _

/-- A buffer that keeps the last `n` elements makes room for one more at its old end. -/
theorem drop_rtake_concat {α : Type*} (l : List α) {n : ℕ} (hn : n ≠ 0) (x : α) :
    (l.rtake n).drop ((l.rtake n).length + 1 - n) ++ [x] = (l ++ [x]).rtake n := by
  have hlength : (l.rtake n).length = l.length - (l.length - n) := List.length_drop
  have hle : l.length + 1 - n ≤ l.length := by omega
  rw [List.rtake, List.rtake, List.length_append, List.length_singleton,
    List.drop_append_of_le_length hle, ← List.rtake, hlength, List.rtake, List.drop_drop]
  congr 2
  omega

/-! ## The accounts -/

/-- The counters and the buffer agree with the events so far. -/
structure Accounted (policy : FeeWritePolicy) (es : List BufferEvent) (s : FeeCollector) :
    Prop where
  policy_eq : s.writePolicy = policy
  total : (exhausted policy es).length =
    s.deadLetters.length + (drained es).length + s.deadLettersDropped
  buffer : s.deadLetters = (undrained policy es).rtake policy.deadLetterCapacity
  failures : s.consecutiveStoreFailures = sinceSuccess policy es

/-- What a record does to the buffer: the records are shifted through it, and those that leave it
are counted. -/
theorem pushDeadLetter_spec (s : FeeCollector) (record : DeadLetterRecord)
    {l : List DeadLetterRecord} (hl : s.deadLetters = l.rtake s.writePolicy.deadLetterCapacity) :
    (s.pushDeadLetter record).deadLetters =
        (l ++ [record]).rtake s.writePolicy.deadLetterCapacity ∧
      (s.pushDeadLetter record).deadLetters.length + (s.pushDeadLetter record).deadLettersDropped =
        s.deadLetters.length + s.deadLettersDropped + 1 := by
  unfold pushDeadLetter
  by_cases hcap : s.writePolicy.deadLetterCapacity = 0
  · rw [hcap, List.rtake_zero] at hl
    simp only [hcap, if_true, hl, List.rtake_zero, List.length_nil]
    exact ⟨trivial, by omega⟩
  · simp only [hcap, if_false]
    refine ⟨?_, ?_⟩
    · rw [hl]
      exact drop_rtake_concat l hcap record
    · rw [List.length_append, List.length_drop, List.length_singleton]
      omega

/-- What an exhausted write leaves behind. The alarm looks at the failures it brings about. -/
theorem enqueueDeadLetter_spec (s : FeeCollector) (record : DeadLetterRecord) :
    (s.enqueueDeadLetter record).deadLetters = (s.pushDeadLetter record).deadLetters ∧
      (s.enqueueDeadLetter record).deadLettersDropped =
        (s.pushDeadLetter record).deadLettersDropped ∧
      (s.enqueueDeadLetter record).consecutiveStoreFailures = s.consecutiveStoreFailures + 1 ∧
      (s.enqueueDeadLetter record).alarmsRaised = s.alarmsRaised +
        if 0 < s.writePolicy.alarmAfterConsecutiveFailures ∧
          s.writePolicy.alarmAfterConsecutiveFailures ∣ s.consecutiveStoreFailures + 1 then 1
        else 0 := by
  have hpush : (s.pushDeadLetter record).writePolicy = s.writePolicy ∧
      (s.pushDeadLetter record).consecutiveStoreFailures = s.consecutiveStoreFailures ∧
      (s.pushDeadLetter record).alarmsRaised = s.alarmsRaised := by
    unfold pushDeadLetter
    split <;> exact ⟨rfl, rfl, rfl⟩
  obtain ⟨hpolicy, hfailures, halarms⟩ := hpush
  -- the first crossing is a multiple as well
  have hcrossing : ∀ threshold consecutive : ℕ,
      (0 < threshold ∧ (consecutive = threshold ∨ consecutive % threshold = 0)) ↔
        (0 < threshold ∧ threshold ∣ consecutive) := by
    intro threshold consecutive
    constructor
    · rintro ⟨hpos, rfl | hmod⟩
      · exact ⟨hpos, Nat.dvd_refl _⟩
      · exact ⟨hpos, Nat.dvd_of_mod_eq_zero hmod⟩
    · rintro ⟨hpos, hdvd⟩
      exact ⟨hpos, .inr (Nat.mod_eq_zero_of_dvd hdvd)⟩
  simp only [enqueueDeadLetter, hpolicy, hfailures, hcrossing]
  split
  case isTrue => exact ⟨rfl, rfl, rfl, by rw [halarms]⟩
  case isFalse => exact ⟨rfl, rfl, rfl, halarms⟩

/-- **An event keeps the accounts.** Its alarm is raised as its failures tell. -/
theorem accounted_step (hs : Accounted policy es s) (h : BufferStep s e t) :
    Accounted policy (es ++ [e]) t ∧
      t.alarmsRaised = s.alarmsRaised +
        if (exhausts policy e).isSome ∧ 0 < policy.alarmAfterConsecutiveFailures ∧
          policy.alarmAfterConsecutiveFailures ∣ sinceSuccess policy (es ++ [e]) then 1 else 0 := by
  obtain ⟨hpolicy, htotal, hbuffer, hfailures⟩ := hs
  cases h with
  | persist c seq =>
    unfold persistSampleWithRetry
    cases hretry : retryWithBackoff s.writePolicy (c.write seq) with
    | ok attempts =>
      rw [hpolicy] at hretry
      have hexhausts : exhausts policy (.persist c seq) = none := by simp [exhausts, hretry]
      have hsucceeds : succeeds policy (.persist c seq) = true := by
        simp [succeeds, hretry, Except.isOk, Except.toBool]
      refine ⟨⟨hpolicy, ?_, ?_, ?_⟩, ?_⟩
      · simp [exhausted_concat, drained_concat, hexhausts, drainedBy, htotal]
      · simp [undrained_concat, hexhausts, isDrain, hbuffer]
      · simp [sinceSuccess_concat, hsucceeds]
      · simp [hexhausts]
    | error failure =>
      obtain ⟨attempts, error⟩ := failure
      rw [hpolicy] at hretry
      have hexhausts : exhausts policy (.persist c seq) = some ⟨seq, attempts, error⟩ := by
        simp [exhausts, hretry]
      have hsucceeds : succeeds policy (.persist c seq) = false := by
        simp [succeeds, hretry, Except.isOk, Except.toBool]
      obtain ⟨hframe, -⟩ := enqueueDeadLetter_frame s ⟨seq, attempts, error⟩
      obtain ⟨hletters, hdropped, hcount, halarm⟩ :=
        enqueueDeadLetter_spec s ⟨seq, attempts, error⟩
      rw [← hpolicy] at hbuffer
      obtain ⟨hpush, hlength⟩ := pushDeadLetter_spec s ⟨seq, attempts, error⟩ hbuffer
      have hsince : sinceSuccess policy (es ++ [.persist c seq]) =
          s.consecutiveStoreFailures + 1 := by
        simp [sinceSuccess_concat, hsucceeds, hexhausts, hfailures]
      refine ⟨⟨hframe.trans hpolicy, ?_, ?_, ?_⟩, ?_⟩
      · rw [exhausted_concat, hexhausts, drained_concat, List.length_append, htotal]
        simp only [Option.toList_some, List.length_singleton, drainedBy, List.append_nil, hletters,
          hdropped]
        omega
      · rw [undrained_concat, hexhausts]
        show (s.enqueueDeadLetter ⟨seq, attempts, error⟩).deadLetters = _
        rw [hletters, hpush, hpolicy]
        rfl
      · rw [hsince]
        exact hcount
      · rw [hsince, hexhausts]
        show (s.enqueueDeadLetter ⟨seq, attempts, error⟩).alarmsRaised = _
        rw [halarm, hpolicy]
        simp
  | moveCursor seq =>
    refine ⟨⟨hpolicy, ?_, ?_, ?_⟩, ?_⟩
    · simp [exhausted_concat, drained_concat, exhausts, drainedBy, htotal, setCursor]
    · simp [undrained_concat, exhausts, isDrain, hbuffer, setCursor]
    · simp [sinceSuccess_concat, exhausts, succeeds, hfailures, setCursor]
    · simp [exhausts, setCursor]
  | drain =>
    refine ⟨⟨hpolicy, ?_, ?_, ?_⟩, ?_⟩
    · simp [exhausted_concat, drained_concat, exhausts, drainedBy, htotal, drainDeadLetters]
      omega
    · simp [undrained_concat, isDrain, drainDeadLetters]
    · simp [sinceSuccess_concat, exhausts, succeeds, hfailures, drainDeadLetters]
    · simp [exhausts, drainDeadLetters]

theorem accounted_start (policy : FeeWritePolicy) (cursor : ℕ) :
    Accounted policy [] (start policy cursor) where
  policy_eq := rfl
  total := rfl
  buffer := by simp [start, undrained, exhausted]
  failures := rfl

theorem accounted_run {cursor : ℕ} (h : Run BufferStep (start policy cursor) es s) :
    Accounted policy es s :=
  h.history (fun _ _ _ _ hs hstep => (accounted_step hs hstep).1) (accounted_start policy cursor)

theorem run_catchUp (c : Call) (s : FeeCollector) (seq n : ℕ) :
    ∃ es, Run BufferStep s es (s.catchUp c seq n) := by
  induction n generalizing s seq with
  | zero => exact ⟨[], .nil s⟩
  | succ n ih =>
    cases hfetch : c.fetch seq with
    | error e =>
      simp only [catchUp, hfetch]
      exact ⟨[], .nil s⟩
    | ok u =>
      have hpersist := BufferStep.persist s c seq
      simp only [catchUp, hfetch]
      rcases hresult : s.persistSampleWithRetry c seq with ⟨r, t⟩
      rw [hresult] at hpersist
      cases r with
      | error e => exact ⟨_, .single hpersist⟩
      | ok u =>
        obtain ⟨es, hes⟩ := ih (t.setCursor seq) (seq + 1)
        exact ⟨_, .cons hpersist (.cons (.moveCursor t seq) hes)⟩

theorem run_collectLatest (c : Call) (s : FeeCollector) (latest : ℕ) :
    ∃ es, Run BufferStep s es (s.collectLatest c latest).2 := by
  unfold collectLatest
  cases hfetch : c.fetch latest with
  | error e => exact ⟨[], .nil s⟩
  | ok u =>
    have hpersist := BufferStep.persist s c latest
    rcases hresult : s.persistSampleWithRetry c latest with ⟨r, t⟩
    rw [hresult] at hpersist
    cases r with
    | error e => exact ⟨_, .single hpersist⟩
    | ok u => exact ⟨_, .cons hpersist (.single (.moveCursor t latest))⟩

/-- **A call of the collector** is a sequence of writes and moves of the cursor. -/
theorem run_collectLatestFees (c : Call) (s : FeeCollector) :
    ∃ es, Run BufferStep s es (s.collectLatestFees c).2 := by
  have hload : ∃ es, Run BufferStep s es (s.loadCursor c) := by
    unfold loadCursor
    split
    · split
      · exact ⟨_, .single (.moveCursor s _)⟩
      · exact ⟨[], .nil s⟩
    · exact ⟨[], .nil s⟩
  obtain ⟨es, hes⟩ := hload
  unfold collectLatestFees
  cases c.latest with
  | error e => exact ⟨[], .nil s⟩
  | ok latest =>
    dsimp only
    split
    · exact ⟨es, hes⟩
    · split
      · obtain ⟨es₁, h₁⟩ := run_catchUp c (s.loadCursor c) _ _
        obtain ⟨es₂, h₂⟩ := run_collectLatest c _ latest
        exact ⟨_, (hes.append h₁).append h₂⟩
      · obtain ⟨es₁, h₁⟩ := run_collectLatest c (s.loadCursor c) latest
        exact ⟨_, hes.append h₁⟩

end FeeCollector

end Core.Fees
