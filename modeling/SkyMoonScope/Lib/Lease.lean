import Mathlib.Data.List.Basic
import Mathlib.Data.Nat.Basic
import Mathlib.Data.Option.Basic
import Mathlib.Tactic.Common

/-!
# Leases

A lease is a cell that holds a name until an expiry time. Its holder renews it, and anybody claims
it once it has expired; both succeed at the moment they are executed, never later. A belief `d` of
a name, that it has the lease until `d`, is covered when the cell bears it out.

## Main definitions

* `Lease κ`: a holder and the time at which its hold ends
* `live`, `renew`, `claim`: the operations of the cell, at a time
* `Covered c now k d`: if `d` is still to come, the cell is held by `k` at least until `d`

## Main results

* `Covered.renew`, `Covered.claim`: the operations keep every covered belief
* `Covered.holder_unique`: two covered beliefs that are still to come are of one holder
-/

/-- A holder and the time at which its hold ends. -/
structure Lease (κ : Type*) where
  holder : κ
  expires : ℕ

namespace Lease

variable {κ : Type*} {c : Option (Lease κ)} {k k' : κ} {now later d d' ttl : ℕ}

/-- The holder of the cell at a time: an expired lease is no lease. -/
def live (c : Option (Lease κ)) (now : ℕ) : Option κ :=
  c.bind fun l => if now < l.expires then some l.holder else none

/-- The holder extends its lease to `ttl` from now. -/
def renew [DecidableEq κ] (c : Option (Lease κ)) (k : κ) (ttl now : ℕ) : Option (Lease κ) × Bool :=
  if live c now = some k then (some ⟨k, now + ttl⟩, true) else (c, false)

/-- Anybody takes a lease that has no holder. -/
def claim (c : Option (Lease κ)) (k : κ) (ttl now : ℕ) : Option (Lease κ) × Bool :=
  if live c now = none then (some ⟨k, now + ttl⟩, true) else (c, false)

/-- No lease lasts longer than the time its holder asks for, from now. -/
def Bounded (ttl : κ → ℕ) (c : Option (Lease κ)) (now : ℕ) : Prop :=
  ∀ l ∈ c, l.expires ≤ now + ttl l.holder

/-- If `d` is still to come, the cell is held by `k` at least until `d`. -/
def Covered (c : Option (Lease κ)) (now : ℕ) (k : κ) (d : ℕ) : Prop :=
  now < d → ∃ l ∈ c, l.holder = k ∧ d ≤ l.expires

theorem live_eq_none_iff : live c now = none ↔ ∀ l ∈ c, l.expires ≤ now := by
  cases c with
  | none => simp [live]
  | some l => simp [live]

theorem live_eq_some_iff : live c now = some k ↔ ∃ l ∈ c, l.holder = k ∧ now < l.expires := by
  cases c with
  | none => simp [live]
  | some l => simp [live, and_comm]

namespace Bounded

variable {ttl : κ → ℕ}

theorem none : Bounded ttl (none : Option (Lease κ)) now := by
  simp [Bounded]

theorem mono (h : Bounded ttl c now) (hle : now ≤ later) : Bounded ttl c later := by
  intro l hl
  have := h l hl
  omega

theorem renew [DecidableEq κ] (h : Bounded ttl c now) (k : κ) :
    Bounded ttl (renew c k (ttl k) now).1 now := by
  unfold Lease.renew
  split
  · simp [Bounded]
  · exact h

theorem claim (h : Bounded ttl c now) (k : κ) :
    Bounded ttl (claim c k (ttl k) now).1 now := by
  unfold Lease.claim
  split
  · simp [Bounded]
  · exact h

end Bounded

namespace Covered

/-- A covered belief stays covered as time passes, and a shorter belief is covered too. -/
theorem mono (h : Covered c now k d) (hnow : now ≤ later) (hd : d' ≤ d) :
    Covered c later k d' := by
  intro hlt
  obtain ⟨l, hl, hk, hexp⟩ := h (by omega)
  exact ⟨l, hl, hk, by omega⟩

/-- A renewal, by whomever, keeps what is covered: the holder's own only extends its lease. -/
theorem renew [DecidableEq κ] {ttl : κ → ℕ} (h : Covered c now k d) (hb : Bounded ttl c now)
    (k' : κ) :
    Covered (renew c k' (ttl k') now).1 now k d := by
  intro hlt
  obtain ⟨l, hl, rfl, hexp⟩ := h hlt
  have hbound := hb l hl
  unfold Lease.renew
  split
  case isTrue hlive =>
    obtain ⟨l', hl', rfl, -⟩ := live_eq_some_iff.mp hlive
    obtain rfl : l = l' := Option.mem_unique hl hl'
    exact ⟨_, rfl, rfl, Nat.le_trans hexp hbound⟩
  case isFalse => exact ⟨l, hl, rfl, hexp⟩

/-- A claim keeps what is covered: it fails while a covered belief is still to come. -/
theorem claim (h : Covered c now k d) (k' : κ) (ttl : ℕ) :
    Covered (claim c k' ttl now).1 now k d := by
  intro hlt
  obtain ⟨l, hl, hk, hexp⟩ := h hlt
  unfold Lease.claim
  split
  case isTrue hfree =>
    have := live_eq_none_iff.mp hfree l hl
    omega
  case isFalse => exact ⟨l, hl, hk, hexp⟩

theorem of_renewed [DecidableEq κ] (h : (Lease.renew c k ttl now).2 = true) :
    Covered (Lease.renew c k ttl now).1 now k (now + ttl) := by
  unfold Lease.renew at h ⊢
  split at h
  case isTrue hlive => exact fun _ => ⟨⟨k, now + ttl⟩, by simp [hlive], rfl, Nat.le_refl _⟩
  case isFalse => simp at h

theorem of_claimed (h : (Lease.claim c k ttl now).2 = true) :
    Covered (Lease.claim c k ttl now).1 now k (now + ttl) := by
  unfold Lease.claim at h ⊢
  split at h
  case isTrue hfree => exact fun _ => ⟨⟨k, now + ttl⟩, by simp [hfree], rfl, Nat.le_refl _⟩
  case isFalse => simp at h

/-- **One holder.** Two covered beliefs that are still to come are of one holder. -/
theorem holder_unique (h : Covered c now k d) (h' : Covered c now k' d') (hd : now < d)
    (hd' : now < d') : k = k' := by
  obtain ⟨l, hl, rfl, -⟩ := h hd
  obtain ⟨l', hl', rfl, -⟩ := h' hd'
  rw [Option.mem_unique hl hl']

end Covered

end Lease

/-!
# Keys with an expiry time

A store of keys, each with the time at which it expires. Expired keys are dropped when the store is
cleaned, a key is inserted with its expiry, and membership is asked for without a time.

## Main definitions

* `Store κ`: the keys and their expiry times
* `retain`, `insert`, `contains`: the operations of the store

## Main results

* `mem_retain`, `mem_insert_of_ne`, `mem_insert_self`: what the operations keep
* `contains_iff`: membership, whatever the expiry
-/

namespace Expiring

/-- The keys of a store, each with the time at which it expires. -/
abbrev Store (κ : Type*) := List (κ × ℕ)

variable {κ : Type*} [DecidableEq κ] {s : Store κ} {k k' : κ} {e e' now : ℕ}

/-- Keep the keys that have not expired. -/
def retain (s : Store κ) (now : ℕ) : Store κ :=
  s.filter fun p => now < p.2

def contains (s : Store κ) (k : κ) : Bool :=
  s.any fun p => p.1 = k

/-- Insert a key, in place of an earlier entry of it. -/
def insert (s : Store κ) (k : κ) (e : ℕ) : Store κ :=
  (k, e) :: s.filter fun p => p.1 ≠ k

omit [DecidableEq κ] in
theorem mem_retain : (k, e) ∈ retain s now ↔ (k, e) ∈ s ∧ now < e := by
  simp [retain]

theorem contains_iff : contains s k = true ↔ ∃ e, (k, e) ∈ s := by
  simp [contains]

theorem mem_insert_self : (k, e) ∈ insert s k e := by
  simp [insert]

theorem mem_insert_of_ne (h : (k, e) ∈ s) (hk : k ≠ k') : (k, e) ∈ insert s k' e' := by
  simp [insert, h, hk]

end Expiring

/-!
# Events in a time window

A rate limit bounds how many events may happen within any window of a fixed length. It is enough to
look back at every event: if never too many have happened in the last window, then there are never
too many in any window.

## Main definitions

* `inWindow W t times`: the events from `t` on, within the window of length `W`
* `recent W now times`: the events less than `W` ago
* `Limited W n times`: at most `n` events in every window

## Main results

* `Limited.cons`: an event keeps the limit if it and the recent ones are not too many
-/

namespace Window

variable {W n t now now' : ℕ} {times : List ℕ}

def inWindow (W t : ℕ) (times : List ℕ) : List ℕ := times.filter fun s => t ≤ s ∧ s < t + W

def recent (W now : ℕ) (times : List ℕ) : List ℕ := times.filter fun s => now < s + W

def Limited (W n : ℕ) (times : List ℕ) : Prop := ∀ t, (inWindow W t times).length ≤ n

theorem limited_nil : Limited W n [] := fun _ => Nat.zero_le n

/-- As time passes, no more events are recent. -/
theorem length_recent_le (h : now ≤ now') :
    (recent W now' times).length ≤ (recent W now times).length := by
  refine (List.monotone_filter_right times ?_).length_le
  intro s hs
  simp only [decide_eq_true_eq] at hs ⊢
  omega

/-- More events are recent when every recent one that is selected is selected again. -/
theorem length_recent_map_le {α : Type*} {f : α → ℕ} {p q : α → Bool} {l : List α}
    (h : ∀ a ∈ l, p a = true → now < f a + W → q a = true) :
    (recent W now ((l.filter p).map f)).length ≤ (recent W now ((l.filter q).map f)).length := by
  simp only [recent, List.filter_map, List.length_map, List.filter_filter,
    ← List.countP_eq_length_filter]
  refine List.countP_mono_left ?_
  intro a ha hrecent
  simp only [Bool.and_eq_true, Function.comp_apply, decide_eq_true_eq] at hrecent ⊢
  exact ⟨hrecent.1, h a ha hrecent.2 hrecent.1⟩

/-- Events that are a window old are not recent. -/
theorem recent_eq_nil (h : ∀ s ∈ times, s + W ≤ now) : recent W now times = [] := by
  rw [recent, List.filter_eq_nil_iff]
  intro s hs
  have := h s hs
  simp only [decide_eq_true_eq]
  omega

theorem length_recent_cons_le (s : ℕ) :
    (recent W now (s :: times)).length ≤ (recent W now times).length + 1 := by
  rw [recent, List.filter_cons]
  split
  · exact Nat.le_refl _
  · exact Nat.le_succ _

/-- **A limit is kept** by an event that is not too much with the recent ones. -/
theorem Limited.cons (h : Limited W n times) (hrecent : (recent W now times).length + 1 ≤ n) :
    Limited W n (now :: times) := by
  intro t
  by_cases hnow : t ≤ now ∧ now < t + W
  · -- what else is in this window is recent
    have hsub : (inWindow W t times).length ≤ (recent W now times).length := by
      refine (List.monotone_filter_right times ?_).length_le
      intro s hs
      simp only [decide_eq_true_eq] at hs ⊢
      omega
    rw [inWindow, List.filter_cons_of_pos (by simpa using hnow), List.length_cons]
    exact Nat.le_trans (Nat.succ_le_succ hsub) hrecent
  · rw [inWindow, List.filter_cons_of_neg (by simpa using hnow)]
    exact h t

end Window
