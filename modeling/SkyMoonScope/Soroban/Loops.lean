import SkyMoonScope.Soroban.Contract

/-!
# Loops and the budget of a call

A loop goes round while its condition holds. A round changes what the loop carries along, ends the
loop or fails. The resources of a call last for a number of rounds, and the call traps after that.
Where every round lowers a measure, the loop ends on its own, and how much budget there was beyond
the measure does not show. Where an invariant always leads to one more round, every budget is used
up.

## Main definitions

* `Fault.exhausted`: the fault of a call whose resources are used up
* `Avoids fault x`: the body `x` does not fail with this fault
* `loop goes round budget a`: a loop with a budget
* `NextRound goes round p q`: a round that goes on, with the storages before and after it

## Main results

* `loop_ends`: the result of a loop whose rounds lower a measure
* `loop_exhausted`: a loop that uses up every budget
* `loop_invariant`: what every round keeps, the loop keeps
-/

namespace Soroban

variable {σ ε α β : Type}

/-- The fault of a call whose resources are used up. -/
def Fault.exhausted : Fault ε := .trap "Error(Budget, ExceededLimit)"

/-! ## Faults that a body does not have -/

/-- The body does not fail with this fault. -/
def Avoids (fault : Fault ε) (x : Contract σ ε α) : Prop := ∀ s, x.run s ≠ .error fault

section Avoids

variable {fault other : Fault ε} {x : Contract σ ε α} {f : α → Contract σ ε β}

theorem Avoids.pure (a : α) : Avoids fault (pure a : Contract σ ε α) := nofun

theorem Avoids.get : Avoids fault (get : Contract σ ε σ) := nofun

theorem Avoids.set (s : σ) : Avoids fault (set s : Contract σ ε PUnit) := nofun

theorem Avoids.throw (h : other ≠ fault) : Avoids fault (throw other : Contract σ ε α) := by
  rintro s ⟨⟩
  exact h rfl

theorem Avoids.require {p : Prop} [Decidable p] (h : other ≠ fault) :
    Avoids fault (require p other : Contract σ ε Unit) := by
  unfold Soroban.require
  split
  · exact .pure ()
  · exact .throw h

theorem Avoids.orFault {o : Option α} (h : other ≠ fault) :
    Avoids fault (orFault o other : Contract σ ε α) := by
  cases o with
  | none => exact .throw h
  | some a => exact .pure a

/-- The rest of a body goes on from where a statement has returned. -/
theorem run_bind_of_returns {s t : σ} {a : α} (h : Returns x s a t) :
    (x >>= f).run s = (f a).run t := by
  rw [StateT.run_bind, show x.run s = .ok (a, t) from h]
  rfl

/-- The rest of a body does not matter where a statement has failed. -/
theorem run_bind_of_error {s : σ} (h : x.run s = .error fault) :
    (x >>= f).run s = .error fault := by
  rw [StateT.run_bind, h]
  rfl

/-- From one storage, the rest of a body needs to avoid the fault only after what the statement
returns. -/
theorem run_bind_ne_error {s : σ} (hx : x.run s ≠ .error fault)
    (hf : ∀ a t, Returns x s a t → (f a).run t ≠ .error fault) :
    (x >>= f).run s ≠ .error fault := by
  cases hrun : x.run s with
  | error e =>
    rw [run_bind_of_error hrun]
    rintro ⟨⟩
    exact hx hrun
  | ok p =>
    rw [run_bind_of_returns (t := p.2) hrun]
    exact hf p.1 p.2 hrun

/-- A check of the body has another fault. -/
theorem run_require_bind_ne_error {s : σ} {p : Prop} [Decidable p] {g : Unit → Contract σ ε β}
    (hne : other ≠ fault) (h : (g ()).run s ≠ .error fault) :
    (Soroban.require p other >>= g).run s ≠ .error fault := by
  refine run_bind_ne_error (Avoids.require hne s) fun _ t ht => ?_
  obtain ⟨-, rfl⟩ := returns_require.mp ht
  exact h

theorem Avoids.bind (hx : Avoids fault x) (hf : ∀ a, Avoids fault (f a)) :
    Avoids fault (x >>= f) :=
  fun s => run_bind_ne_error (hx s) fun a t _ => hf a t

theorem Avoids.map {g : α → β} (hx : Avoids fault x) : Avoids fault (g <$> x) := by
  rw [map_eq_pure_bind]
  exact hx.bind fun a => .pure (g a)

/-- A body on a part of the storage, whose errors become others. -/
theorem Avoids.zoom {τ δ : Type} {read : σ → τ} {write : σ → τ → σ} {err : δ → ε}
    {y : Contract τ δ α} (h : ∀ e : Fault δ, e.map err = fault → Avoids e y) :
    Avoids fault (zoom read write err y) := by
  intro s
  show Soroban.zoom read write err y s ≠ _
  unfold Soroban.zoom
  split
  · exact nofun
  next e hrun =>
    intro hfault
    exact h e (Except.error.inj hfault) (read s) hrun

/-- A loop avoids what every round of it avoids. -/
theorem Avoids.foldlM {l : List β} {g : α → β → Contract σ ε α} {a : α}
    (h : ∀ a, ∀ b ∈ l, Avoids fault (g a b)) : Avoids fault (l.foldlM g a) := by
  induction l generalizing a with
  | nil => exact .pure a
  | cons b l ih =>
    rw [List.foldlM_cons]
    refine (h a b List.mem_cons_self).bind fun next => ih fun a' b' hb' => ?_
    exact h a' b' (List.mem_cons_of_mem b hb')

theorem Avoids.forM {l : List β} {g : β → Contract σ ε PUnit}
    (h : ∀ b ∈ l, Avoids fault (g b)) : Avoids fault (l.forM g) := by
  induction l with
  | nil => exact Avoids.pure PUnit.unit
  | cons b l ih =>
    refine (h b List.mem_cons_self).bind fun _ => ih fun b' hb' => ?_
    exact h b' (List.mem_cons_of_mem b hb')

theorem Avoids.ite {p : Prop} [Decidable p] {y : Contract σ ε α} (hx : Avoids fault x)
    (hy : Avoids fault y) : Avoids fault (if p then x else y) := by
  split
  · exact hx
  · exact hy

/-- A loop whose rounds return what they were given, or fail with the fault, does one of the two. -/
theorem returns_or_error_foldlM {l : List β} {g : α → β → Contract σ ε α} {a : α} {s : σ}
    (h : ∀ b ∈ l, Returns (g a b) s a s ∨ (g a b).run s = .error fault) :
    Returns (l.foldlM g a) s a s ∨ (l.foldlM g a).run s = .error fault := by
  induction l with
  | nil => exact .inl rfl
  | cons b l ih =>
    rw [List.foldlM_cons]
    rcases h b List.mem_cons_self with hround | hround
    · rw [Returns, run_bind_of_returns hround]
      exact ih fun b' hb' => h b' (List.mem_cons_of_mem b hb')
    · exact .inr (run_bind_of_error hround)

theorem returns_or_error_forM {l : List β} {g : β → Contract σ ε PUnit} {s : σ}
    (h : ∀ b ∈ l, Returns (g b) s ⟨⟩ s ∨ (g b).run s = .error fault) :
    Returns (l.forM g) s ⟨⟩ s ∨ (l.forM g).run s = .error fault := by
  induction l with
  | nil => exact .inl rfl
  | cons b l ih =>
    rcases h b List.mem_cons_self with hround | hround
    · show Returns (g b >>= fun _ => l.forM g) s ⟨⟩ s ∨ (g b >>= fun _ => l.forM g).run s = _
      rw [Returns, run_bind_of_returns hround]
      exact ih fun b' hb' => h b' (List.mem_cons_of_mem b hb')
    · exact .inr (run_bind_of_error hround)

end Avoids

/-! ## Loops -/

/-- A loop, which goes round while the condition holds and the budget lasts. -/
def loop (goes : α → Prop) [DecidablePred goes] (round : α → Contract σ ε (Option α)) :
    ℕ → α → Contract σ ε α
  | 0, a => do
    require (¬goes a) .exhausted
    pure a
  | budget + 1, a => do
    if goes a then
      match ← round a with
      | some b => loop goes round budget b
      | none => pure a
    else
      pure a

/-- A round that goes on, with what the loop carries along and the storage before and after it. -/
def NextRound (goes : α → Prop) (round : α → Contract σ ε (Option α)) (p q : α × σ) : Prop :=
  goes p.1 ∧ Returns (round p.1) p.2 (some q.1) q.2

section Loop

variable {goes : α → Prop} [DecidablePred goes] {round : α → Contract σ ε (Option α)}
  {budget budget' : ℕ} {a b : α} {s t : σ}

theorem run_loop_of_not (h : ¬goes a) : (loop goes round budget a).run s = .ok (a, s) := by
  cases budget with
  | zero =>
    show (require (¬goes a) .exhausted >>= fun _ => pure a : Contract σ ε α).run s = _
    rw [require, if_pos h]
    rfl
  | succ budget => rw [loop, if_neg h]; rfl

theorem run_loop_zero (h : goes a) : (loop goes round 0 a).run s = .error .exhausted := by
  show (require (¬goes a) .exhausted >>= fun _ => pure a : Contract σ ε α).run s = _
  rw [require, if_neg (not_not.mpr h)]
  rfl

/-- A loop goes round once, and is the rest of the loop from there on. -/
theorem run_loop_succ (h : goes a) :
    (loop goes round (budget + 1) a).run s =
      match (round a).run s with
      | .ok (some b, t) => (loop goes round budget b).run t
      | .ok (none, t) => .ok (a, t)
      | .error fault => .error fault := by
  rw [loop, if_pos h, StateT.run_bind]
  cases hround : (round a).run s with
  | error fault => rfl
  | ok p =>
    rcases p with ⟨_ | b, t⟩
    · rfl
    · rfl

/-- **The result does not depend on the budget**, once this was enough. -/
theorem run_loop_of_le (h : (loop goes round budget a).run s ≠ .error .exhausted)
    (hle : budget ≤ budget') :
    (loop goes round budget' a).run s = (loop goes round budget a).run s := by
  induction budget generalizing budget' a s with
  | zero =>
    by_cases ha : goes a
    · exact absurd (run_loop_zero ha) h
    · rw [run_loop_of_not ha, run_loop_of_not ha]
  | succ budget ih =>
    by_cases ha : goes a
    · obtain ⟨budget', rfl⟩ := Nat.exists_eq_add_of_le' (Nat.one_le_of_lt hle)
      rw [run_loop_succ ha] at h ⊢
      rw [run_loop_succ ha]
      split at h
      -- only the first case goes on, with both budgets lower by one
      next b t hround => exact ih h (Nat.le_of_succ_le_succ hle)
      next => rfl
      next => rfl
    · rw [run_loop_of_not ha, run_loop_of_not ha]

/-- **A loop whose rounds lower a measure** has a result, whatever the budget is beyond the
measure. -/
theorem loop_ends {I : α × σ → Prop} {μ : α × σ → ℕ} (a : α) (s : σ)
    (hround : ∀ a, Avoids .exhausted (round a))
    (hI : ∀ {p q}, I p → NextRound goes round p q → I q ∧ (goes q.1 → μ q < μ p))
    (h : I (a, s)) :
    ∃ result, result ≠ .error .exhausted ∧
      ∀ budget, μ (a, s) < budget → (loop goes round budget a).run s = result := by
  have hne : ∀ budget, μ (a, s) < budget →
      (loop goes round budget a).run s ≠ .error .exhausted := by
    intro budget hlt
    induction budget generalizing a s with
    | zero => exact absurd hlt (Nat.not_lt_zero _)
    | succ budget ih =>
      by_cases ha : goes a
      · rw [run_loop_succ ha]
        split
        next b t hb =>
          obtain ⟨hq, hdrop⟩ := hI h (q := (b, t)) ⟨ha, hb⟩
          -- after the round the measure is lower, or the condition fails
          by_cases hgoes : goes b
          · exact ih b t hq ((hdrop hgoes).trans_le (Nat.le_of_lt_succ hlt))
          · rw [run_loop_of_not hgoes]
            exact nofun
        next => exact nofun
        next fault hfault =>
          rintro ⟨⟩
          -- a round may fail, but not because the budget is used up
          exact hround a s hfault
      · rw [run_loop_of_not ha]
        exact nofun
  have henough := hne (μ (a, s) + 1) (Nat.lt_succ_self _)
  exact ⟨_, henough, fun budget hlt => run_loop_of_le henough hlt⟩

/-- **A loop with an invariant that leads to one more round** uses up every budget. -/
theorem loop_exhausted {I : α × σ → Prop}
    (hI : ∀ {p}, I p → ∃ q, NextRound goes round p q ∧ I q) (h : I (a, s)) (budget : ℕ) :
    (loop goes round budget a).run s = .error .exhausted := by
  induction budget generalizing a s with
  | zero =>
    obtain ⟨q, ⟨hgoes, -⟩, -⟩ := hI h
    exact run_loop_zero hgoes
  | succ budget ih =>
    obtain ⟨q, ⟨hgoes, hreturns⟩, hq⟩ := hI h
    rw [run_loop_succ hgoes]
    rw [Returns] at hreturns
    rw [hreturns]
    exact ih hq

/-- **What every round keeps**, the loop keeps. A round that ends the loop leaves what it carries
along, and may write the storage. -/
theorem loop_invariant {I : α × σ → Prop}
    (hI : ∀ {a s out t}, I (a, s) → goes a → Returns (round a) s out t → I (out.getD a, t))
    (h : Returns (loop goes round budget a) s b t) (hs : I (a, s)) : I (b, t) := by
  rw [Returns] at h
  induction budget generalizing a s with
  | zero =>
    by_cases ha : goes a
    · rw [run_loop_zero ha] at h
      cases h
    · rw [run_loop_of_not ha] at h
      obtain ⟨rfl, rfl⟩ := Prod.mk.inj (Except.ok.inj h)
      exact hs
  | succ budget ih =>
    by_cases ha : goes a
    · rw [run_loop_succ ha] at h
      split at h
      next hround => exact ih h (hI hs ha hround)
      next hround =>
        obtain ⟨rfl, rfl⟩ := Prod.mk.inj (Except.ok.inj h)
        exact hI hs ha hround
      next => cases h
    · rw [run_loop_of_not ha] at h
      obtain ⟨rfl, rfl⟩ := Prod.mk.inj (Except.ok.inj h)
      exact hs

end Loop

end Soroban
