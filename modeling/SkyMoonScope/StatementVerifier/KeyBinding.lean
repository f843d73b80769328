import SkyMoonScope.StatementVerifier.Registry

/-!
# One key for every hash

The registry refuses another key for a hash that is registered, and the list of hashes follows the
registrations. A removal forgets the key, and a hash that was removed may be registered again under
any key. So a hash keeps one key along a run just when its registrations after a removal repeat a
key that it had before.

## Main definitions

* `KeysListed s`: the list has the registered hashes, each of them once
* `Registered ls hash key`: an accepted call has registered the key for the hash
* `Associated ls hash key`: the key was stored under the hash in some state of the run
* `Repeats ls l`: the call registers a removed hash under a key that it had

## Main results

* `keysListed_step`: every call that returns keeps the list in line with the keys
* `registered_iff_associated`: the keys of a hash are those of its accepted registrations
* `bound_iff_repeats`: the list in every run, and when a hash keeps its key
-/

namespace StatementVerifier

open Soroban Machine Function

variable {Address : Type}

/-- The list has the registered hashes, each of them once, and there is none before the first
call. -/
structure KeysListed (s : State Address) : Prop where
  nodup : s.keyOrder.Nodup
  mem_iff : ∀ hash, hash ∈ s.keyOrder ↔ s.publicKey hash ≠ none
  uninitialized : s.admin = none → s.keyOrder = []

/-- An accepted registration of the key for the hash. -/
def Registers (hash key : BytesN 32) (l : Event Address) : Prop :=
  l.call = .registerVerificationKey hash key ∧ l.result = .ok ()

/-- An accepted removal of the hash. -/
def Removes (hash : BytesN 32) (l : Event Address) : Prop :=
  l.call = .removeVerificationKey hash ∧ l.result = .ok ()

def Registered (ls : List (Event Address)) (hash key : BytesN 32) : Prop :=
  ∃ l ∈ ls, Registers hash key l

/-- The key was stored under the hash in a state that the run has passed. -/
def Associated (ls : List (Event Address)) (hash key : BytesN 32) : Prop :=
  ∃ ks, ks <+: ls ∧ ∃ u, Run (Step entryPoint) (State.initial Address) ks u ∧
    u.publicKey hash = some key

/-- No hash had two keys. -/
def KeyBound (ls : List (Event Address)) : Prop :=
  ∀ hash key key', Associated ls hash key → Associated ls hash key' → key = key'

/-- A call that registers a hash after a removal of it registers a key that the hash had before. -/
def Repeats (ls : List (Event Address)) (l : Event Address) : Prop :=
  ∀ hash key, Registers hash key l → (∃ k ∈ ls, Removes hash k) → Registered ls hash key

/-! ## The list of hashes -/

section Listed

variable {auth : Address → Bool} {call : Call Address} {s t : State Address} {r : Unit}

/-- **Every call that returns** keeps the list in line with the keys. -/
theorem keysListed_step (hs : KeysListed s) (h : Returns (entryPoint auth call) s r t) :
    KeysListed t := by
  cases call with
  | initializeVerifier admin =>
    obtain ⟨hnone, rfl⟩ := returns_initializeVerifier.mp h
    have hempty := hs.uninitialized hnone
    refine ⟨List.nodup_nil, fun hash => ?_, fun hadmin => (by cases hadmin)⟩
    rw [← hs.mem_iff, hempty]
  | registerVerificationKey hash key =>
    rcases returns_registerVerificationKey h with ⟨hadmin, ⟨-, rfl⟩ | ⟨hnone, rfl⟩⟩
    · exact hs
    · have hmem : hash ∉ s.keyOrder := by
        rw [hs.mem_iff, not_not]
        exact hnone
      rw [if_neg hmem]
      refine ⟨?_, fun hash' => ?_, fun hadmin' => absurd hadmin' hadmin⟩
      · rw [← List.concat_eq_append]
        exact hs.nodup.concat hmem
      · rw [List.mem_append, List.mem_singleton, hs.mem_iff]
        by_cases heq : hash' = hash
        · simp [heq]
        · simp [heq]
  | removeVerificationKey hash =>
    obtain ⟨⟨admin, hadmin, -⟩, -, rfl⟩ := returns_removeVerificationKey.mp h
    refine ⟨hs.nodup.filter _, fun hash' => ?_, fun hnone => ?_⟩
    · rw [List.mem_filter, hs.mem_iff, decide_eq_true_eq]
      by_cases heq : hash' = hash
      · simp [heq]
      · simp [heq]
    · cases hadmin.symm.trans hnone

end Listed

/-! ## The keys of a hash -/

section Keys

variable {ls ks : List (Event Address)} {l : Event Address} {s t u : State Address}
  {hash key key' : BytesN 32}

theorem registered_concat :
    Registered (ls ++ [l]) hash key ↔ Registered ls hash key ∨ Registers hash key l := by
  simp only [Registered, List.mem_append, List.mem_singleton, or_and_right, exists_or,
    exists_eq_left]

theorem Registered.mono (h : Registered ks hash key) (hinit : ks <+: ls) :
    Registered ls hash key := by
  obtain ⟨l, hl, hregisters⟩ := h
  exact ⟨l, hinit.subset hl, hregisters⟩

/-- What the storage has from the calls so far: a stored key was registered, and a hash without a
key that was registered was removed. -/
structure Recorded (ls : List (Event Address)) (s : State Address) : Prop where
  registered : ∀ hash key, s.publicKey hash = some key → Registered ls hash key
  removed : ∀ hash key, Registered ls hash key → s.publicKey hash = none →
    ∃ l ∈ ls, Removes hash l

/-- A call that changes no key keeps the record, when it registers only what is stored. -/
theorem Recorded.concat (h : Recorded ls s) (hkeys : t.publicKey = s.publicKey)
    (hl : ∀ hash key, Registers hash key l → s.publicKey hash = some key) :
    Recorded (ls ++ [l]) t where
  registered := by
    intro hash key hkey
    rw [hkeys] at hkey
    exact registered_concat.mpr (.inl (h.registered hash key hkey))
  removed := by
    intro hash key hregistered hnone
    rw [hkeys] at hnone
    rcases registered_concat.mp hregistered with hregistered | hregisters
    · obtain ⟨k, hk, hremoves⟩ := h.removed hash key hregistered hnone
      exact ⟨k, List.mem_append_left [l] hk, hremoves⟩
    · cases hnone.symm.trans (hl hash key hregisters)

variable {auth : Address → Bool} {call : Call Address} {r : Unit}

/-- **Every call that returns** is recorded. -/
theorem recorded_step (hs : Recorded ls s) (h : Returns (entryPoint auth call) s r t) :
    Recorded (ls ++ [⟨auth, call, .ok r⟩]) t := by
  cases call with
  | initializeVerifier admin =>
    obtain ⟨-, rfl⟩ := returns_initializeVerifier.mp h
    exact hs.concat rfl fun hash key hregisters => by cases hregisters.1
  | registerVerificationKey hash key =>
    rcases returns_registerVerificationKey h with ⟨-, ⟨hsome, rfl⟩ | ⟨hnone, rfl⟩⟩
    · refine hs.concat rfl fun hash' key' hregisters => ?_
      obtain ⟨rfl, rfl⟩ := Call.registerVerificationKey.inj hregisters.1
      exact hsome
    · constructor
      · intro hash' key' hkey
        dsimp only at hkey
        rw [registered_concat]
        by_cases heq : hash' = hash
        · subst heq
          rw [update_self] at hkey
          obtain rfl := Option.some.inj hkey
          exact .inr ⟨rfl, rfl⟩
        · rw [update_of_ne heq] at hkey
          exact .inl (hs.registered hash' key' hkey)
      · intro hash' key' hregistered hnone'
        dsimp only at hnone'
        have hne : hash' ≠ hash := by
          rintro rfl
          rw [update_self] at hnone'
          cases hnone'
        rw [update_of_ne hne] at hnone'
        rcases registered_concat.mp hregistered with hregistered | hregisters
        · obtain ⟨k, hk, hremoves⟩ := hs.removed hash' key' hregistered hnone'
          exact ⟨k, List.mem_append_left _ hk, hremoves⟩
        · exact absurd (Call.registerVerificationKey.inj hregisters.1).1.symm hne
  | removeVerificationKey hash =>
    obtain ⟨-, -, rfl⟩ := returns_removeVerificationKey.mp h
    constructor
    · intro hash' key' hkey
      dsimp only at hkey
      have hne : hash' ≠ hash := by
        rintro rfl
        rw [update_self] at hkey
        cases hkey
      rw [update_of_ne hne] at hkey
      exact registered_concat.mpr (.inl (hs.registered hash' key' hkey))
    · intro hash' key' hregistered hnone
      dsimp only at hnone
      by_cases heq : hash' = hash
      · -- the hash whose key has just been removed
        subst heq
        exact ⟨_, List.mem_append_right _ (List.mem_singleton_self _), rfl, rfl⟩
      · rw [update_of_ne heq] at hnone
        rcases registered_concat.mp hregistered with hregistered | hregisters
        · obtain ⟨k, hk, hremoves⟩ := hs.removed hash' key' hregistered hnone
          exact ⟨k, List.mem_append_left _ hk, hremoves⟩
        · cases hregisters.1

theorem recorded_of_run (h : Run (Step entryPoint) (State.initial Address) ls s) :
    Recorded ls s := by
  refine history_of_returns (P := fun _ _ _ => True) (J := Recorded) ?_ ?_
    (run_unconditional h) ?_
  · intro ks auth call u v w hu hreturns _
    exact recorded_step hu hreturns
  · intro ks auth call u fault hu
    exact hu.concat rfl fun hash key hregisters => by cases hregisters.2
  · refine ⟨fun hash key hkey => (by cases hkey), fun hash key hregistered => ?_⟩
    obtain ⟨l, hl, -⟩ := hregistered
    cases hl

/-- After an accepted registration the key is stored under the hash. -/
theorem Registers.stored (h : Registers hash key l) (hl : Step entryPoint s l t) :
    t.publicKey hash = some key := by
  obtain ⟨hcall, hresult⟩ := h
  unfold Step at hl
  rw [hcall, hresult] at hl
  rcases returns_registerVerificationKey (invoke_eq_ok.mp hl) with ⟨-, ⟨hsome, rfl⟩ | ⟨-, rfl⟩⟩
  · exact hsome
  · exact update_self ..

/-- **The keys of a hash** in the states of a run are those of its accepted registrations. -/
theorem registered_iff_associated (h : Run (Step entryPoint) (State.initial Address) ls s) :
    Associated ls hash key ↔ Registered ls hash key := by
  constructor
  · rintro ⟨ks, hinit, u, hu, hkey⟩
    exact ((recorded_of_run hu).registered hash key hkey).mono hinit
  · rintro ⟨l, hl, hregisters⟩
    obtain ⟨ks, ms, rfl⟩ := List.append_of_mem hl
    rw [List.append_cons] at h ⊢
    obtain ⟨u, hu, -⟩ := h.of_append
    obtain ⟨v, -, hlast⟩ := hu.of_append
    obtain ⟨w, hstep, hnil⟩ := hlast.of_cons
    cases hnil
    exact ⟨ks ++ [l], List.prefix_append _ ms, u, hu, hregisters.stored hstep⟩

theorem keyBound_iff (h : Run (Step entryPoint) (State.initial Address) ls s) :
    KeyBound ls ↔
      ∀ hash key key', Registered ls hash key → Registered ls hash key' → key = key' := by
  simp only [KeyBound, registered_iff_associated h]

/-- Two calls that register a hash register one key, when a call after a removal repeats a key. -/
theorem registered_unique (h : Run (Step entryPoint) (State.initial Address) ls s)
    (hrepeats : ∀ ks l, ks ++ [l] <+: ls → Repeats ks l) (hkey : Registered ls hash key)
    (hkey' : Registered ls hash key') : key = key' := by
  -- by induction on the run, its last call taken off
  induction ls using List.reverseRecOn generalizing s key key' with
  | nil =>
    obtain ⟨l, hl, -⟩ := hkey
    cases hl
  | append_singleton ls l ih =>
    obtain ⟨u, hu, hlast⟩ := h.of_append
    obtain ⟨w, hstep, -⟩ := hlast.of_cons
    have ih' : ∀ {key key'}, Registered ls hash key → Registered ls hash key' → key = key' :=
      fun hkey hkey' =>
        ih hu (fun ks k hk => hrepeats ks k (hk.trans (List.prefix_append ls [l]))) hkey hkey'
    have hrecorded := recorded_of_run hu
    -- a registration by the last call against one before it
    have hnew : ∀ {key key'}, Registers hash key l → Registered ls hash key' → key = key' := by
      intro key key' hregisters hregistered
      obtain ⟨hcall, hresult⟩ := hregisters
      have hreturns : Returns (entryPoint l.host l.call) u () w := by
        unfold Step at hstep
        rw [hresult] at hstep
        exact invoke_eq_ok.mp hstep
      rw [hcall] at hreturns
      rcases returns_registerVerificationKey hreturns with ⟨-, ⟨hsome, -⟩ | ⟨hnone, -⟩⟩
      · exact ih' (hrecorded.registered hash key hsome) hregistered
      · -- the hash has no key any more, so it was removed
        have hremoved := hrecorded.removed hash key' hregistered hnone
        exact ih' (hrepeats ls l List.prefix_rfl hash key ⟨hcall, hresult⟩ hremoved) hregistered
    rcases registered_concat.mp hkey with hkey | hkey <;>
      rcases registered_concat.mp hkey' with hkey' | hkey'
    · exact ih' hkey hkey'
    · exact (hnew hkey' hkey).symm
    · exact hnew hkey hkey'
    · exact (Call.registerVerificationKey.inj (hkey.1.symm.trans hkey'.1)).2

/-- An accepted removal finds a key that was registered. -/
theorem Removes.registered (h : Run (Step entryPoint) (State.initial Address) ls s)
    (hremoved : ∃ l ∈ ls, Removes hash l) : ∃ key, Registered ls hash key := by
  obtain ⟨l, hl, hcall, hresult⟩ := hremoved
  obtain ⟨ks, ms, rfl⟩ := List.append_of_mem hl
  obtain ⟨u, hu, hrest⟩ := h.of_append
  obtain ⟨w, hstep, -⟩ := hrest.of_cons
  unfold Step at hstep
  rw [hcall, hresult] at hstep
  obtain ⟨-, hsome, -⟩ := returns_removeVerificationKey.mp (invoke_eq_ok.mp hstep)
  obtain ⟨key, hkey⟩ := Option.ne_none_iff_exists'.mp hsome
  exact ⟨key, ((recorded_of_run hu).registered hash key hkey).mono (List.prefix_append _ _)⟩

end Keys

/-! ## Runs -/

/-- **The registry.** In every run the list has just the registered hashes, each of them once. And
no hash had two keys, just when every registration of a hash after its removal repeats a key that
the hash had before. -/
theorem bound_iff_repeats {ls : List (Event Address)} {s : State Address}
    (h : Run (Step entryPoint) (State.initial Address) ls s) :
    (s.keyOrder.Nodup ∧ ∀ hash, hash ∈ s.keyOrder ↔ s.publicKey hash ≠ none) ∧
      (KeyBound ls ↔ ∀ ks l, ks ++ [l] <+: ls → Repeats ks l) := by
  have hlisted : KeysListed s := by
    refine invariant_of_returns (P := fun _ _ _ => True) (I := KeysListed) ?_
      (run_unconditional h) ⟨List.nodup_nil, fun hash => by simp [State.initial], fun _ => rfl⟩
    intro auth call u v w hu hreturns _
    exact keysListed_step hu hreturns
  refine ⟨⟨hlisted.nodup, hlisted.mem_iff⟩, ?_⟩
  rw [keyBound_iff h]
  constructor
  · rintro hbound ks l ⟨ms, rfl⟩ hash key hregisters hremoved
    obtain ⟨v, hv, -⟩ := h.of_append
    obtain ⟨u, hu, -⟩ := hv.of_append
    obtain ⟨key', hkey'⟩ := Removes.registered hu hremoved
    have hlast : Registered (ks ++ [l] ++ ms) hash key :=
      (registered_concat.mpr (.inr hregisters)).mono (List.prefix_append _ ms)
    have hinit : ks <+: ks ++ [l] ++ ms := by
      rw [List.append_assoc]
      exact List.prefix_append _ _
    obtain rfl := hbound hash key key' hlast (hkey'.mono hinit)
    exact hkey'
  · exact fun hrepeats hash key key' hkey hkey' => registered_unique h hrepeats hkey hkey'

/-- The calls of an admin, with the hash of all ones. -/
def sampleCalls (keys : List (Option UInt8)) : List ((ℕ → Bool) × Call ℕ) :=
  (fun _ => true, .initializeVerifier 1) :: keys.map fun
    | some b => (fun _ => true, .registerVerificationKey (.replicate 32 1) (.replicate 32 b))
    | none => (fun _ => true, .removeVerificationKey (.replicate 32 1))

/-- A hash that is removed and registered again under its key keeps it. -/
theorem bound_sample :
    (execute entryPoint (State.initial ℕ) (sampleCalls [some 5, none, some 5])).2.keyOrder.Nodup ∧
      KeyBound (execute entryPoint (State.initial ℕ) (sampleCalls [some 5, none, some 5])).1 := by
  have hrun := run_execute entryPoint (State.initial ℕ) (sampleCalls [some 5, none, some 5])
  -- all keys that are registered are the same
  have hkey : ∀ {hash key}, Registered
      (execute entryPoint (State.initial ℕ) (sampleCalls [some 5, none, some 5])).1 hash key →
      key = .replicate 32 5 := by
    rintro hash key ⟨l, hl, hcall, -⟩
    have hmem := List.mem_map_of_mem (f := Event.call) hl
    rw [map_call_execute, hcall] at hmem
    have hcalls : hash = .replicate 32 1 ∧ key = .replicate 32 5 := by
      simpa [sampleCalls] using hmem
    exact hcalls.2
  obtain ⟨⟨hnodup, -⟩, hbound⟩ := bound_iff_repeats hrun
  refine ⟨hnodup, hbound.mpr ?_⟩
  rintro ks l ⟨ms, hms⟩ hash key hregisters hremoved
  rw [← hms] at hrun
  obtain ⟨v, hv, -⟩ := hrun.of_append
  obtain ⟨u, hu, -⟩ := hv.of_append
  obtain ⟨key', hkey'⟩ := Removes.registered hu hremoved
  have hlast : Registered (ks ++ [l]) hash key := registered_concat.mpr (.inr hregisters)
  have hfirst : Registered (ks ++ [l]) hash key' := registered_concat.mpr (.inl hkey')
  obtain rfl := hkey (hms ▸ hlast.mono (List.prefix_append _ ms))
  obtain rfl := hkey (hms ▸ hfirst.mono (List.prefix_append _ ms))
  exact hkey'

/-- A hash that is registered again under another key had two keys. -/
theorem key_substituted :
    ¬ ∀ (ls : List (Event ℕ)) (s : State ℕ), Run (Step entryPoint) (State.initial ℕ) ls s →
      KeyBound ls := by
  intro h
  have hbound := h _ _ (run_execute entryPoint (State.initial ℕ)
    (sampleCalls [some 5] ++ (sampleCalls [none, some 6]).tail))
  have hfirst : Associated (execute entryPoint (State.initial ℕ)
      (sampleCalls [some 5] ++ (sampleCalls [none, some 6]).tail)).1
      (.replicate 32 1) (.replicate 32 5) := by
    rw [execute_append]
    exact ⟨_, List.prefix_append _ _, _, run_execute _ _ _, by decide +kernel⟩
  have hlast : Associated (execute entryPoint (State.initial ℕ)
      (sampleCalls [some 5] ++ (sampleCalls [none, some 6]).tail)).1
      (.replicate 32 1) (.replicate 32 6) :=
    ⟨_, List.prefix_rfl, _, run_execute _ _ _, by decide +kernel⟩
  have hne : BytesN.replicate 32 5 ≠ .replicate 32 6 := by decide +kernel
  exact hne (hbound _ _ _ hfirst hlast)

end StatementVerifier
