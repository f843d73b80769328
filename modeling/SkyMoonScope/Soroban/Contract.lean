import Mathlib.Data.Finset.Card
import Mathlib.Data.Set.Basic

/-!
# Contract calls

An entry point reads and writes the contract's storage and ends by returning a value, by returning
an error, or by trapping. The host applies the changes of a call only when it returns a value.

## Main definitions

* `Fault ε`: why a call failed
* `Contract σ ε α`: the body of an entry point, over the storage `σ`
* `Returns x s a t`: from the storage `s`, the body `x` returns `a` and leaves the storage `t`
* `invoke x s`: the result of a call, and the storage after it
* `zoom read write err x`: the body `x` on a part of the storage
* `ReadOnly x`: the body `x` leaves the storage as it is
* `Keeps read x`: the body `x` leaves a part of the storage as it is
* `SameAt s x y`: from the storage `s`, the bodies `x` and `y` do the same

## Main results

* `returns_bind` and its companions: what a body that returns has gone through, statement by
  statement
-/

namespace Soroban

variable {σ τ δ ε α β : Type}

/-- Why a call failed: it returned an error, or it trapped. -/
inductive Fault (ε : Type)
  | error (e : ε)
  | trap (reason : String)
deriving DecidableEq

/-- The fault with another error. -/
def Fault.map (f : δ → ε) : Fault δ → Fault ε
  | .error e => .error (f e)
  | .trap reason => .trap reason

/-- The body of an entry point of a contract with storage `σ` and errors `ε`. -/
abbrev Contract (σ ε α : Type) := StateT σ (Except (Fault ε)) α

/-- Continue only if `p` holds. -/
def require (p : Prop) [Decidable p] (fault : Fault ε) : Contract σ ε Unit :=
  if p then pure () else throw fault

/-- The value that is there, or the fault. -/
def orFault (o : Option α) (fault : Fault ε) : Contract σ ε α :=
  match o with
  | some a => pure a
  | none => throw fault

/-- Runs a body on the part of the storage that `read` reads and `write` writes back. Its errors
become errors of the whole by `err`. -/
def zoom (read : σ → τ) (write : σ → τ → σ) (err : δ → ε) (x : Contract τ δ α) :
    Contract σ ε α := fun s =>
  match x.run (read s) with
  | .ok (a, u) => .ok (a, write s u)
  | .error fault => .error (fault.map err)

/-- From the storage `s`, the body returns `a` and leaves the storage `t`. -/
def Returns (x : Contract σ ε α) (s : σ) (a : α) (t : σ) : Prop := x.run s = .ok (a, t)

/-- A call: one that fails leaves the storage as it was. -/
def invoke (x : Contract σ ε α) (s : σ) : Except (Fault ε) α × σ :=
  match x.run s with
  | .ok (a, t) => (.ok a, t)
  | .error fault => (.error fault, s)

section

variable {x : Contract σ ε α} {f : α → Contract σ ε β} {s t : σ} {a b : α} {c : β}
  {fault : Fault ε}

@[simp] theorem returns_pure : Returns (pure a : Contract σ ε α) s b t ↔ a = b ∧ s = t := by
  simp only [Returns, StateT.run_pure]
  simp [pure, Except.pure]

@[simp] theorem returns_bind :
    Returns (x >>= f) s c t ↔ ∃ a u, Returns x s a u ∧ Returns (f a) u c t := by
  simp only [Returns, StateT.run_bind]
  cases x.run s with
  | error e => simp [bind, Except.bind]
  | ok p =>
    obtain ⟨a, u⟩ := p
    simp [bind, Except.bind, and_assoc]

@[simp] theorem returns_map {g : α → β} :
    Returns (g <$> x) s c t ↔ ∃ a, Returns x s a t ∧ g a = c := by
  simp only [map_eq_pure_bind, returns_bind, returns_pure]
  grind

@[simp] theorem not_returns_throw : ¬ Returns (throw fault : Contract σ ε α) s a t := by
  simp [Returns, throw, throwThe, MonadExceptOf.throw, StateT.lift, StateT.run, bind, Except.bind]

@[simp] theorem returns_get {u : σ} : Returns (get : Contract σ ε σ) s u t ↔ s = u ∧ s = t := by
  simp only [Returns, StateT.run_get]
  simp [pure, Except.pure]

@[simp] theorem returns_set {u : σ} {r : PUnit} :
    Returns (set u : Contract σ ε PUnit) s r t ↔ u = t := by
  simp only [Returns, StateT.run_set]
  simp [pure, Except.pure]

@[simp] theorem returns_require {p : Prop} [Decidable p] {r : Unit} :
    Returns (require p fault : Contract σ ε Unit) s r t ↔ p ∧ s = t := by
  unfold require
  split <;> simp_all

@[simp] theorem returns_orFault {o : Option α} :
    Returns (orFault o fault : Contract σ ε α) s a t ↔ o = some a ∧ s = t := by
  cases o <;> simp [orFault]

/-! A statement that leaves the storage as it is, or only writes it, followed by the rest of the
body. With these rules a body that returns is read off without naming the storages in between. -/

/-- A statement that only reads, followed by the rest of the body. -/
theorem returns_bind_of_reads {p : α → Prop} (h : ∀ a u, Returns x s a u ↔ p a ∧ s = u) :
    Returns (x >>= f) s c t ↔ ∃ a, p a ∧ Returns (f a) s c t := by
  simp only [returns_bind, h]
  constructor
  · rintro ⟨a, _, ⟨hp, rfl⟩, hf⟩
    exact ⟨a, hp, hf⟩
  · rintro ⟨a, hp, hf⟩
    exact ⟨a, s, ⟨hp, rfl⟩, hf⟩

/-- A check, followed by the rest of the body. -/
theorem returns_bind_of_checks {x : Contract σ ε Unit} {f : Unit → Contract σ ε β} {p : Prop}
    (h : ∀ r u, Returns x s r u ↔ p ∧ s = u) :
    Returns (x >>= f) s c t ↔ p ∧ Returns (f ()) s c t := by
  rw [returns_bind_of_reads (p := fun _ => p) h]
  exact ⟨fun ⟨_, hp, hf⟩ => ⟨hp, hf⟩, fun ⟨hp, hf⟩ => ⟨(), hp, hf⟩⟩

/-- A statement that checks and then writes, followed by the rest of the body. -/
theorem returns_bind_of_writes {x : Contract σ ε Unit} {f : Unit → Contract σ ε β} {p : Prop}
    {u : σ} (h : ∀ r w, Returns x s r w ↔ p ∧ w = u) :
    Returns (x >>= f) s c t ↔ p ∧ Returns (f ()) u c t := by
  simp only [returns_bind, h]
  constructor
  · rintro ⟨_, _, ⟨hp, rfl⟩, hf⟩
    exact ⟨hp, hf⟩
  · rintro ⟨hp, hf⟩
    exact ⟨(), u, ⟨hp, rfl⟩, hf⟩

theorem returns_get_bind {f : σ → Contract σ ε β} :
    Returns (get >>= f) s c t ↔ Returns (f s) s c t := by
  rw [returns_bind_of_reads fun a u => returns_get]
  simp

theorem returns_set_bind {u : σ} {f : PUnit → Contract σ ε β} :
    Returns (set u >>= f) s c t ↔ Returns (f ⟨⟩) u c t := by
  simp only [returns_bind, returns_set]
  constructor
  · rintro ⟨_, _, rfl, h⟩
    exact h
  · intro h
    exact ⟨_, u, rfl, h⟩

theorem returns_require_bind {p : Prop} [Decidable p] {f : Unit → Contract σ ε β} :
    Returns (require p fault >>= f) s c t ↔ p ∧ Returns (f ()) s c t := by
  rw [returns_bind_of_reads (p := fun _ => p) fun _ u => returns_require]
  constructor
  · rintro ⟨_, hp, h⟩
    exact ⟨hp, h⟩
  · rintro ⟨hp, h⟩
    exact ⟨_, hp, h⟩

theorem returns_orFault_bind {o : Option α} {f : α → Contract σ ε β} :
    Returns (orFault o fault >>= f) s c t ↔ ∃ a, o = some a ∧ Returns (f a) s c t :=
  returns_bind_of_reads fun _ _ => returns_orFault

@[simp] theorem returns_zoom {read : σ → τ} {write : σ → τ → σ} {err : δ → ε}
    {x : Contract τ δ α} :
    Returns (zoom read write err x) s a t ↔ ∃ u, Returns x (read s) a u ∧ write s u = t := by
  simp only [Returns]
  change (zoom read write err x) s = _ ↔ _
  unfold zoom
  cases x.run (read s) with
  | error fault => simp
  | ok p =>
    obtain ⟨b, u⟩ := p
    simp [and_assoc]

/-! A body that only reads is left out in the same way, whatever it computes. -/

/-- A body that leaves the storage as it is. -/
def ReadOnly (x : Contract σ ε α) : Prop := ∀ s a t, Returns x s a t → s = t

theorem ReadOnly.pure (a : α) : ReadOnly (pure a : Contract σ ε α) :=
  fun _ _ _ h => (returns_pure.mp h).2

theorem ReadOnly.get : ReadOnly (get : Contract σ ε σ) :=
  fun _ _ _ h => (returns_get.mp h).2

theorem ReadOnly.require {p : Prop} [Decidable p] :
    ReadOnly (require p fault : Contract σ ε Unit) :=
  fun _ _ _ h => (returns_require.mp h).2

theorem ReadOnly.orFault {o : Option α} : ReadOnly (orFault o fault : Contract σ ε α) :=
  fun _ _ _ h => (returns_orFault.mp h).2

theorem ReadOnly.bind (hx : ReadOnly x) (hf : ∀ a, ReadOnly (f a)) : ReadOnly (x >>= f) := by
  intro s c t h
  obtain ⟨a, u, ha, hc⟩ := returns_bind.mp h
  obtain rfl := hx s a u ha
  exact hf a s c t hc

theorem ReadOnly.ite {p : Prop} [Decidable p] {y : Contract σ ε α} (hx : ReadOnly x)
    (hy : ReadOnly y) : ReadOnly (if p then x else y) := by
  split
  · exact hx
  · exact hy

/-! A body may also leave only a part of the storage as it is. -/

/-- A body that leaves what `read` reads as it is. -/
def Keeps (read : σ → τ) (x : Contract σ ε α) : Prop :=
  ∀ s a t, Returns x s a t → read t = read s

section Keeps

variable {read : σ → τ}

theorem ReadOnly.keeps (hx : ReadOnly x) : Keeps read x :=
  fun s a t h => congrArg read (hx s a t h).symm

theorem Keeps.pure (a : α) : Keeps read (pure a : Contract σ ε α) := (ReadOnly.pure a).keeps

theorem Keeps.bind (hx : Keeps read x) (hf : ∀ a, Keeps read (f a)) : Keeps read (x >>= f) := by
  intro s c t h
  obtain ⟨a, u, ha, hc⟩ := returns_bind.mp h
  exact (hf a u c t hc).trans (hx s a u ha)

theorem Keeps.ite {p : Prop} [Decidable p] {y : Contract σ ε α} (hx : Keeps read x)
    (hy : Keeps read y) : Keeps read (if p then x else y) := by
  split
  · exact hx
  · exact hy

end Keeps

/-- A body that only reads, followed by the rest of the body. -/
theorem returns_bind_of_readOnly (hx : ReadOnly x) :
    Returns (x >>= f) s c t ↔ ∃ a, Returns x s a s ∧ Returns (f a) s c t := by
  rw [returns_bind]
  constructor
  · rintro ⟨a, u, ha, hc⟩
    obtain rfl := hx s a u ha
    exact ⟨a, ha, hc⟩
  · rintro ⟨a, ha, hc⟩
    exact ⟨a, s, ha, hc⟩

/-- A loop whose rounds only read, and return what `g` computes, returns what `g` folds to. -/
theorem eq_foldl_of_returns {f : β → α → Contract σ ε β} {g : β → α → β} {b d : β}
    (hf : ∀ {b a s d t}, Returns (f b a) s d t → d = g b a ∧ s = t) {l : List α}
    (h : Returns (l.foldlM f b) s d t) : d = l.foldl g b ∧ s = t := by
  induction l generalizing b with
  | nil =>
    obtain ⟨rfl, rfl⟩ := returns_pure.mp h
    exact ⟨rfl, rfl⟩
  | cons a l ih =>
    rw [List.foldlM_cons, returns_bind] at h
    obtain ⟨c, u, hc, hrest⟩ := h
    obtain ⟨rfl, rfl⟩ := hf hc
    exact ih hrest

/-! Two bodies that do the same from one storage, where they may differ from others. -/

/-- From the storage `s` the two bodies do the same, also where they fail. -/
def SameAt (s : σ) (x y : Contract σ ε α) : Prop := x.run s = y.run s

theorem SameAt.refl (s : σ) (x : Contract σ ε α) : SameAt s x x := rfl

theorem SameAt.returns {y : Contract σ ε α} (h : SameAt s x y) (hx : Returns x s a t) :
    Returns y s a t := by
  unfold Returns at hx ⊢
  rwa [← h]

/-- The rest of the bodies need to do the same only after what the first part returns. -/
theorem SameAt.bind {y : Contract σ ε α} {g : α → Contract σ ε β} (hx : SameAt s x y)
    (hf : ∀ a t, Returns x s a t → SameAt t (f a) (g a)) : SameAt s (x >>= f) (y >>= g) := by
  unfold SameAt at hx ⊢
  rw [StateT.run_bind, StateT.run_bind, ← hx]
  cases hrun : x.run s with
  | error fault => rfl
  | ok p => exact hf p.1 p.2 hrun

theorem SameAt.ite {p : Prop} [Decidable p] {x' y y' : Contract σ ε α}
    (hx : p → SameAt s x x') (hy : ¬p → SameAt s y y') :
    SameAt s (if p then x else y) (if p then x' else y') := by
  split
  next hp => exact hx hp
  next hp => exact hy hp

theorem SameAt.map {y : Contract σ ε α} {g : α → β} (hx : SameAt s x y) :
    SameAt s (g <$> x) (g <$> y) := by
  rw [map_eq_pure_bind, map_eq_pure_bind]
  exact hx.bind fun a t _ => .refl t _

theorem SameAt.zoom {read : σ → τ} {write : σ → τ → σ} {err : δ → ε} {x y : Contract τ δ α}
    (h : SameAt (read s) x y) : SameAt s (zoom read write err x) (zoom read write err y) := by
  unfold SameAt at h ⊢
  show Soroban.zoom read write err x s = Soroban.zoom read write err y s
  unfold Soroban.zoom
  rw [h]

theorem SameAt.invoke_eq {y : Contract σ ε α} (h : SameAt s x y) : invoke x s = invoke y s := by
  unfold invoke
  rw [h]

theorem invoke_eq_ok : invoke x s = (.ok a, t) ↔ Returns x s a t := by
  unfold invoke Returns
  split <;> simp_all

/-- A call whose result is not a fault has returned. -/
theorem exists_returns_of_isOk (h : (invoke x s).1.isOk = true) :
    ∃ a, Returns x s a (invoke x s).2 := by
  cases hinvoke : invoke x s with
  | mk result t =>
    cases result with
    | ok a => exact ⟨a, invoke_eq_ok.mp hinvoke⟩
    | error fault =>
      rw [hinvoke] at h
      cases h

/-- A call whose result is a value has returned it. -/
theorem exists_returns_of_toOption (h : (invoke x s).1.toOption = some a) :
    ∃ t, Returns x s a t := by
  cases hinvoke : invoke x s with
  | mk result t =>
    rw [hinvoke] at h
    cases result with
    | ok b =>
      obtain rfl := Option.some.inj h
      exact ⟨t, invoke_eq_ok.mp hinvoke⟩
    | error fault => cases h

/-- A call that fails leaves the storage as it was. -/
theorem eq_of_invoke_error (h : invoke x s = (.error fault, t)) : t = s := by
  unfold invoke at h
  split at h <;> simp_all

end

end Soroban

/-!
# Approvals of a call

Contracts that need several signers are called with a list of them, and walk the list: a signer that
stood in it before is skipped, each other one is checked and counts. The walk counts the different
signers, all of which have passed the check.

## Main definitions

* `countDistinct check seen approvers n`: the walk

## Main results

* `returns_countDistinct`: the walk returns the number of the different signers that were not seen
-/

namespace Soroban

variable {σ ε Address : Type} [DecidableEq Address]

/-- Each approver that was not seen before is checked, and counts once. -/
def countDistinct (check : Address → Contract σ ε Unit) :
    List Address → List Address → ℕ → Contract σ ε ℕ
  | _, [], n => pure n
  | seen, approver :: approvers, n =>
    if approver ∈ seen then countDistinct check seen approvers n
    else do
      check approver
      countDistinct check (seen ++ [approver]) approvers (n + 1)

/-- **The walk** returns when all that were not seen before pass the check, and counts the different
ones of them. -/
theorem returns_countDistinct {check : Address → Contract σ ε Unit} {P : Address → Prop}
    (hcheck : ∀ a s r t, Returns (check a) s r t ↔ P a ∧ s = t) {seen approvers : List Address}
    {n m : ℕ} {s t : σ} :
    Returns (countDistinct check seen approvers n) s m t ↔
      (∀ a ∈ approvers, a ∉ seen → P a) ∧
        m = n + (approvers.toFinset \ seen.toFinset).card ∧ s = t := by
  induction approvers generalizing seen n with
  | nil => simp [countDistinct, eq_comm (a := m)]
  | cons approver approvers ih =>
    unfold countDistinct
    split
    next hmem =>
      have hsdiff : (approver :: approvers).toFinset \ seen.toFinset =
          approvers.toFinset \ seen.toFinset := by
        rw [List.toFinset_cons, Finset.insert_sdiff_of_mem _ (List.mem_toFinset.mpr hmem)]
      rw [ih, hsdiff]
      simp [hmem]
    next hmem =>
      -- the approver is one more of those that were not seen
      have hcard : ((approver :: approvers).toFinset \ seen.toFinset).card =
          (approvers.toFinset \ (seen ++ [approver]).toFinset).card + 1 := by
        have hnotMem : approver ∉ approvers.toFinset \ (seen ++ [approver]).toFinset := by simp
        rw [← Finset.card_insert_of_notMem hnotMem]
        congr 1
        ext a
        simp only [Finset.mem_sdiff, Finset.mem_insert, List.mem_toFinset, List.mem_cons,
          List.mem_append, List.not_mem_nil, or_false]
        grind
      rw [returns_bind_of_checks fun r u => hcheck approver s r u, ih, hcard]
      grind

end Soroban
