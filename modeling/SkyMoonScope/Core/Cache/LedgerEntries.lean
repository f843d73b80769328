import Mathlib.Logic.Function.Basic
import SkyMoonScope.Lib.Machine

/-!
# The cache of ledger entries

A level in memory before a level on disk, with any number of calls on both of them. A read that
finds nothing fresh in memory reads the disk, and puts what it finds there in memory; between the
two steps a write may come, and what is put in memory then is not on disk any more. As long as that
does not happen, the levels answer together as one map does.

## Main definitions

* `ContractCache`, `ContractCache.next`: the levels and the calls on them, and a step of one of them
* `answer`: what an entry answers, given the current ledger
* `ContractCache.Current`: what the step puts in memory is what the disk holds, or is about to be
  replaced
* `ContractCache.Inv`: what holds of a key that no write is in progress for

## Main results

* `ContractCache.inv_next`: steps that are current keep the invariant
* `ContractCache.get_eq_answer`: a read returns what the last write answers
* `ContractCache.stale_get`: a read that does not
-/

namespace Core.Cache

open Machine Function

/-- `CacheEntry<Vec<u8>>`. -/
structure Entry where
  data : List UInt8
  ledgerSequence : ℕ
  timestamp : ℕ
  deriving DecidableEq

/-- How entries are written on disk. -/
structure Codec (β : Type) where
  toVec : Entry → β
  fromSlice : β → Option Entry
  fromSlice_toVec : ∀ e, fromSlice (toVec e) = some e

/-- What an entry answers: its data, if it is not older than the current ledger. -/
def answer (o : Option Entry) (currentLedger : ℕ) : Option (List UInt8) :=
  o.bind fun e => if currentLedger ≤ e.ledgerSequence then some e.data else none

/-- A call of `get_ledger_entry`. -/
inductive Get (κ : Type)
  | idle
  | called (key : κ) (currentLedger : ℕ)
  | missed (key : κ) (currentLedger : ℕ)
  | found (key : κ) (entry : Entry)
  | returned (result : Option (List UInt8))

/-- A call of `set_ledger_entry`. -/
inductive Put (κ : Type)
  | idle
  | called (key : κ) (entry : Entry)
  | onDisk (key : κ) (entry : Entry)
  | returned

theorem answer_some_of_le {entry : Entry} {currentLedger : ℕ}
    (h : currentLedger ≤ entry.ledgerSequence) :
    answer (some entry) currentLedger = some entry.data := if_pos h

/-- The two levels and the calls, and for each key the entry of the write that returned last. -/
structure ContractCache (κ β : Type) where
  memory : κ → Option Entry
  disk : κ → Option β
  gets : ℕ → Get κ
  puts : ℕ → Put κ
  last : κ → Option Entry

namespace ContractCache

inductive Event (κ : Type)
  | get (i : ℕ) (key : κ) (currentLedger : ℕ)
  | memoryGet (i : ℕ)
  | diskGet (i : ℕ)
  | backFill (i : ℕ)
  | set (i : ℕ) (key : κ) (entry : Entry)
  | diskInsert (i : ℕ)
  | memoryInsert (i : ℕ)
  | evict (key : κ)

variable {κ β : Type} (C : Codec β)

/-- The entry on disk, when it can be read. -/
def onDisk (s : ContractCache κ β) (key : κ) : Option Entry := (s.disk key).bind C.fromSlice

/-- Nothing is in memory, and no call has begun. -/
def start (disk : κ → Option β) : ContractCache κ β :=
  { memory := fun _ => none
    disk
    gets := fun _ => .idle
    puts := fun _ => .idle
    last := fun key => (disk key).bind C.fromSlice }

/-- How a read goes on from what it finds in memory. -/
def afterMemory (key : κ) (currentLedger : ℕ) : Option Entry → Get κ
  | some e =>
    if currentLedger ≤ e.ledgerSequence then .returned (some e.data) else .missed key currentLedger
  | none => .missed key currentLedger

/-- How a read goes on from what it finds on disk. -/
def afterDisk (key : κ) (currentLedger : ℕ) : Option Entry → Get κ
  | some e => if currentLedger ≤ e.ledgerSequence then .found key e else .returned none
  | none => .returned none

/-! ## Writes in progress -/

/-- The key of a write that has begun and not returned. -/
def putKey : Put κ → Option κ
  | .idle => none
  | .called key _ => some key
  | .onDisk key _ => some key
  | .returned => none

/-- A write for the key has begun and not returned. -/
def InProgress (s : ContractCache κ β) (key : κ) : Prop := ∃ i, putKey (s.puts i) = some key

/-- The entry answers only what the disk answers. -/
def Covered (o : Option Entry) (e : Entry) : Prop :=
  ∀ currentLedger, currentLedger ≤ e.ledgerSequence → answer o currentLedger = some e.data

/-- The levels agree with one another, and with the last write. -/
structure Settled (s : ContractCache κ β) (key : κ) : Prop where
  memory : ∀ m, s.memory key = some m → Covered (s.onDisk C key) m
  last : answer (s.last key) = answer (s.onDisk C key)

/-- Without a write in progress the levels agree. -/
def Inv (s : ContractCache κ β) : Prop := ∀ key, s.InProgress key ∨ s.Settled C key

section

variable {C} {s t : ContractCache κ β} {key : κ} {i : ℕ} {entry : Entry}

theorem inv_start (disk : κ → Option β) : (start C disk).Inv C := by
  intro key
  refine .inr ⟨fun m hm => ?_, rfl⟩
  cases hm

/-- What is settled stays so where the levels do not change. -/
theorem Settled.of_eq (h : s.Settled C key)
    (hm : t.memory key = s.memory key ∨ t.memory key = none)
    (hd : t.disk key = s.disk key) (hl : t.last key = s.last key) : t.Settled C key := by
  have hdisk : t.onDisk C key = s.onDisk C key := by rw [onDisk, onDisk, hd]
  refine ⟨fun m hmem => ?_, ?_⟩
  · rw [hdisk]
    rcases hm with hm | hm
    · exact h.memory m (hm.symm.trans hmem)
    · cases hm.symm.trans hmem
  · rw [hl, hdisk]
    exact h.last

theorem settled_of_covered (hm : s.memory key = some entry)
    (hcovered : Covered (s.onDisk C key) entry)
    (hl : answer (s.last key) = answer (s.onDisk C key)) : s.Settled C key := by
  refine ⟨fun m hmem => ?_, hl⟩
  rw [hm] at hmem
  cases hmem
  exact hcovered

/-- A write of the key is another call than one that is not. -/
theorem InProgress.update_of_ne {p : Put κ} (h : s.InProgress key)
    (hi : putKey (s.puts i) ≠ some key) : ∃ j, putKey (update s.puts i p j) = some key := by
  obtain ⟨j, hj⟩ := h
  have hne : j ≠ i := by
    rintro rfl
    exact hi hj
  exact ⟨j, by rw [Function.update_of_ne hne, hj]⟩

/-- A call that is not for the key does not make a write of it be in progress. -/
theorem inProgress_of_update {p : Put κ} (hp : putKey p ≠ some key)
    (h : ∃ j, putKey (update s.puts i p j) = some key) : s.InProgress key := by
  obtain ⟨j, hj⟩ := h
  rcases eq_or_ne j i with rfl | hne
  · rw [update_self] at hj
    exact absurd hj hp
  · rw [Function.update_of_ne hne] at hj
    exact ⟨j, hj⟩

/-! ## A read on its way -/

/-- How far a read of the key has come, and what it knows. -/
def Reads (C : Codec β) (s : ContractCache κ β) (key : κ) (currentLedger : ℕ) : Get κ → Prop
  | .idle => False
  | .called k l => k = key ∧ l = currentLedger
  | .missed k l => k = key ∧ l = currentLedger
  | .found k entry => k = key ∧ currentLedger ≤ entry.ledgerSequence ∧
    s.onDisk C key = some entry
  | .returned result => result = answer (s.last key) currentLedger

theorem Reads.of_eq {g : Get κ} {currentLedger : ℕ} (h : s.Reads C key currentLedger g)
    (hd : t.disk key = s.disk key) (hl : t.last key = s.last key) :
    t.Reads C key currentLedger g := by
  cases g with
  | found k entry =>
    refine ⟨h.1, h.2.1, ?_⟩
    rw [onDisk, hd]
    exact h.2.2
  | returned result =>
    rw [Reads, hl]
    exact h
  | _ => exact h

/-- A read that finds a fresh entry in memory returns what the last write answers. -/
theorem reads_afterMemory (hs : s.Settled C key) (currentLedger : ℕ) :
    s.Reads C key currentLedger (afterMemory key currentLedger (s.memory key)) := by
  rcases hm : s.memory key with - | m
  · exact ⟨rfl, rfl⟩
  · rw [afterMemory]
    split
    · rename_i hle
      rw [Reads, hs.last, hs.memory m hm currentLedger hle]
    · exact ⟨rfl, rfl⟩

/-- A read that finds no fresh entry on disk returns nothing, as the last write does. -/
theorem reads_afterDisk (hs : s.Settled C key) (currentLedger : ℕ) :
    s.Reads C key currentLedger (afterDisk key currentLedger (s.onDisk C key)) := by
  rcases hd : s.onDisk C key with - | d
  · rw [afterDisk, Reads, hs.last, hd]
    rfl
  · rw [afterDisk]
    split
    · rename_i hle
      exact ⟨rfl, hle, hd⟩
    · rename_i hle
      rw [Reads, hs.last, hd]
      exact (if_neg hle).symm

theorem reads_update {g : Get κ} {j currentLedger : ℕ}
    (h : s.Reads C key currentLedger (s.gets i)) (hg : i = j → s.Reads C key currentLedger g) :
    s.Reads C key currentLedger (update s.gets j g i) := by
  rcases eq_or_ne i j with rfl | hne
  · rw [update_self]
    exact hg rfl
  · rw [Function.update_of_ne hne]
    exact h

end

/-! ## Steps -/

variable [DecidableEq κ]

def next (s : ContractCache κ β) : Event κ → Option (ContractCache κ β)
  | .get i key currentLedger =>
    match s.gets i with
    | .idle => some { s with gets := update s.gets i (.called key currentLedger) }
    | _ => none
  | .memoryGet i =>
    match s.gets i with
    | .called key currentLedger =>
      some { s with gets := update s.gets i (afterMemory key currentLedger (s.memory key)) }
    | _ => none
  | .diskGet i =>
    match s.gets i with
    | .missed key currentLedger =>
      some { s with gets := update s.gets i (afterDisk key currentLedger (s.onDisk C key)) }
    | _ => none
  | .backFill i =>
    match s.gets i with
    | .found key e =>
      some { s with
        memory := update s.memory key (some e)
        gets := update s.gets i (.returned (some e.data)) }
    | _ => none
  | .set i key e =>
    match s.puts i with
    | .idle => some { s with puts := update s.puts i (.called key e) }
    | _ => none
  | .diskInsert i =>
    match s.puts i with
    | .called key e =>
      some { s with
        disk := update s.disk key (some (C.toVec e))
        puts := update s.puts i (.onDisk key e) }
    | _ => none
  | .memoryInsert i =>
    match s.puts i with
    | .onDisk key e =>
      some { s with
        memory := update s.memory key (some e)
        puts := update s.puts i .returned
        last := update s.last key (some e) }
    | _ => none
  | .evict key => some { s with memory := update s.memory key none }

def Step (s : ContractCache κ β) (e : Event κ) (t : ContractCache κ β) : Prop := s.next C e = some t

/-- What the step puts in memory is what the disk holds, or another write of the key is in
progress. -/
def Current (s : ContractCache κ β) : Event κ → Prop
  | .backFill i => ∀ key e, s.gets i = .found key e →
    s.InProgress key ∨ Covered (s.onDisk C key) e
  | .memoryInsert i => ∀ key e, s.puts i = .onDisk key e →
    (∃ j, j ≠ i ∧ putKey (s.puts j) = some key) ∨ answer (s.onDisk C key) = answer (some e)
  | _ => True

/-- A step that is current. -/
def CurrentStep (s : ContractCache κ β) (e : Event κ) (t : ContractCache κ β) : Prop :=
  s.Step C e t ∧ s.Current C e

/-! ## What a step does -/

variable {C} {s t : ContractCache κ β} {e : Event κ} {key : κ} {i : ℕ}

theorem next_get {currentLedger : ℕ} (h : s.next C (.get i key currentLedger) = some t) :
    s.gets i = .idle ∧ t = { s with gets := update s.gets i (.called key currentLedger) } := by
  rw [next] at h
  split at h
  · rename_i hget
    exact ⟨hget, (Option.some.inj h).symm⟩
  · cases h

theorem next_memoryGet (h : s.next C (.memoryGet i) = some t) :
    ∃ key currentLedger, s.gets i = .called key currentLedger ∧
      t = { s with gets := update s.gets i (afterMemory key currentLedger (s.memory key)) } := by
  rw [next] at h
  split at h
  · rename_i key currentLedger hget
    exact ⟨key, currentLedger, hget, (Option.some.inj h).symm⟩
  · cases h

theorem next_diskGet (h : s.next C (.diskGet i) = some t) :
    ∃ key currentLedger, s.gets i = .missed key currentLedger ∧
      t = { s with gets := update s.gets i (afterDisk key currentLedger (s.onDisk C key)) } := by
  rw [next] at h
  split at h
  · rename_i key currentLedger hget
    exact ⟨key, currentLedger, hget, (Option.some.inj h).symm⟩
  · cases h

theorem next_backFill (h : s.next C (.backFill i) = some t) :
    ∃ key entry, s.gets i = .found key entry ∧
      t = { s with
        memory := update s.memory key (some entry)
        gets := update s.gets i (.returned (some entry.data)) } := by
  rw [next] at h
  split at h
  · rename_i key entry hget
    exact ⟨key, entry, hget, (Option.some.inj h).symm⟩
  · cases h

theorem next_set {entry : Entry} (h : s.next C (.set i key entry) = some t) :
    s.puts i = .idle ∧ t = { s with puts := update s.puts i (.called key entry) } := by
  rw [next] at h
  split at h
  · rename_i hput
    exact ⟨hput, (Option.some.inj h).symm⟩
  · cases h

theorem next_diskInsert (h : s.next C (.diskInsert i) = some t) :
    ∃ key entry, s.puts i = .called key entry ∧
      t = { s with
        disk := update s.disk key (some (C.toVec entry))
        puts := update s.puts i (.onDisk key entry) } := by
  rw [next] at h
  split at h
  · rename_i key entry hput
    exact ⟨key, entry, hput, (Option.some.inj h).symm⟩
  · cases h

theorem next_memoryInsert (h : s.next C (.memoryInsert i) = some t) :
    ∃ key entry, s.puts i = .onDisk key entry ∧
      t = { s with
        memory := update s.memory key (some entry)
        puts := update s.puts i .returned
        last := update s.last key (some entry) } := by
  rw [next] at h
  split at h
  · rename_i key entry hput
    exact ⟨key, entry, hput, (Option.some.inj h).symm⟩
  · cases h

theorem next_evict (h : s.next C (.evict key) = some t) :
    t = { s with memory := update s.memory key none } := (Option.some.inj h).symm

/-! ## The invariant -/

/-- **Steps that are current keep the invariant.** -/
theorem inv_next (hs : s.Inv C) (h : s.CurrentStep C e t) : t.Inv C := by
  obtain ⟨hstep, hcurrent⟩ := h
  intro k
  cases e with
  | get i key currentLedger =>
    obtain ⟨-, rfl⟩ := next_get hstep
    exact (hs k).imp id fun hsettled => hsettled.of_eq (.inl rfl) rfl rfl
  | memoryGet i =>
    obtain ⟨key, currentLedger, -, rfl⟩ := next_memoryGet hstep
    exact (hs k).imp id fun hsettled => hsettled.of_eq (.inl rfl) rfl rfl
  | diskGet i =>
    obtain ⟨key, currentLedger, -, rfl⟩ := next_diskGet hstep
    exact (hs k).imp id fun hsettled => hsettled.of_eq (.inl rfl) rfl rfl
  | backFill i =>
    obtain ⟨key, entry, hget, rfl⟩ := next_backFill hstep
    rcases hs k with hprogress | hsettled
    · exact .inl hprogress
    · rcases eq_or_ne k key with rfl | hne
      · -- what is put in memory is what the disk holds
        have hmemory : update s.memory k (some entry) k = some entry := update_self ..
        exact (hcurrent k entry hget).imp id fun hcovered =>
          settled_of_covered hmemory hcovered hsettled.last
      · exact .inr (hsettled.of_eq (.inl (update_of_ne hne ..)) rfl rfl)
  | set i key entry =>
    obtain ⟨hput, rfl⟩ := next_set hstep
    refine (hs k).imp (fun hprogress => hprogress.update_of_ne ?_) fun hsettled =>
      hsettled.of_eq (.inl rfl) rfl rfl
    rw [hput]
    simp [putKey]
  | diskInsert i =>
    obtain ⟨key, entry, hput, rfl⟩ := next_diskInsert hstep
    rcases eq_or_ne k key with rfl | hne
    · have hput' : update s.puts i (.onDisk k entry) i = .onDisk k entry := update_self ..
      exact .inl ⟨i, congrArg putKey hput'⟩
    · refine (hs k).imp (fun hprogress => hprogress.update_of_ne ?_) fun hsettled =>
        hsettled.of_eq (.inl rfl) (update_of_ne hne ..) rfl
      rw [hput, putKey, ne_eq, Option.some.injEq]
      exact hne.symm
  | memoryInsert i =>
    obtain ⟨key, entry, hput, rfl⟩ := next_memoryInsert hstep
    rcases eq_or_ne k key with rfl | hne
    · -- the write returns: another one is in progress, or the disk holds what is put in memory
      rcases hcurrent k entry hput with ⟨j, hne, hj⟩ | hanswer
      · exact .inl ⟨j, (congrArg putKey (update_of_ne hne ..)).trans hj⟩
      · have hmemory : update s.memory k (some entry) k = some entry := update_self ..
        have hlast : update s.last k (some entry) k = some entry := update_self ..
        refine .inr (settled_of_covered hmemory (fun currentLedger hle => ?_) ?_)
        · exact (congrFun hanswer currentLedger).trans (answer_some_of_le hle)
        · exact (congrArg answer hlast).trans hanswer.symm
    · refine (hs k).imp (fun hprogress => hprogress.update_of_ne ?_) fun hsettled =>
        hsettled.of_eq (.inl (update_of_ne hne ..)) rfl (update_of_ne hne ..)
      rw [hput, putKey, ne_eq, Option.some.injEq]
      exact hne.symm
  | evict key =>
    obtain rfl := next_evict hstep
    refine (hs k).imp id fun hsettled => ?_
    rcases eq_or_ne k key with rfl | hne
    · exact hsettled.of_eq (.inr (update_self ..)) rfl rfl
    · exact hsettled.of_eq (.inl (update_of_ne hne ..)) rfl rfl

/-! ## A read while no write is in progress -/

/-- While no write of the key begins, the disk and the last write stay as they are. -/
theorem unchanged_next (hidle : ¬s.InProgress key) (h : s.next C e = some t)
    (hset : ∀ i entry, e ≠ .set i key entry) :
    ¬t.InProgress key ∧ t.disk key = s.disk key ∧ t.last key = s.last key := by
  cases e with
  | get i k currentLedger =>
    obtain ⟨-, rfl⟩ := next_get h
    exact ⟨hidle, rfl, rfl⟩
  | memoryGet i =>
    obtain ⟨k, currentLedger, -, rfl⟩ := next_memoryGet h
    exact ⟨hidle, rfl, rfl⟩
  | diskGet i =>
    obtain ⟨k, currentLedger, -, rfl⟩ := next_diskGet h
    exact ⟨hidle, rfl, rfl⟩
  | backFill i =>
    obtain ⟨k, entry, -, rfl⟩ := next_backFill h
    exact ⟨hidle, rfl, rfl⟩
  | set i k entry =>
    obtain ⟨-, rfl⟩ := next_set h
    have hne : putKey (.called k entry) ≠ some key := by
      rw [putKey, ne_eq, Option.some.injEq]
      rintro rfl
      exact hset i entry rfl
    exact ⟨fun hprogress => hidle (inProgress_of_update hne hprogress), rfl, rfl⟩
  | diskInsert i =>
    obtain ⟨k, entry, hput, rfl⟩ := next_diskInsert h
    -- the call is in progress already, and so it is for another key
    have hne : key ≠ k := by
      rintro rfl
      exact hidle ⟨i, by rw [hput, putKey]⟩
    have hkey : putKey (.onDisk k entry) ≠ some key := by
      rw [putKey, ne_eq, Option.some.injEq]
      exact hne.symm
    exact ⟨fun hprogress => hidle (inProgress_of_update hkey hprogress), update_of_ne hne .., rfl⟩
  | memoryInsert i =>
    obtain ⟨k, entry, hput, rfl⟩ := next_memoryInsert h
    have hne : key ≠ k := by
      rintro rfl
      exact hidle ⟨i, by rw [hput, putKey]⟩
    have hkey : putKey (.returned : Put κ) ≠ some key := by simp [putKey]
    exact ⟨fun hprogress => hidle (inProgress_of_update hkey hprogress), rfl, update_of_ne hne ..⟩
  | evict k =>
    obtain rfl := next_evict h
    exact ⟨hidle, rfl, rfl⟩

/-- A read goes on as long as no write of its key begins. -/
theorem reads_next {currentLedger : ℕ} (hs : s.Settled C key) (hidle : ¬s.InProgress key)
    (hreads : s.Reads C key currentLedger (s.gets i)) (h : s.next C e = some t)
    (hset : ∀ j entry, e ≠ .set j key entry) : t.Reads C key currentLedger (t.gets i) := by
  obtain ⟨-, hdisk, hlast⟩ := unchanged_next hidle h hset
  refine Reads.of_eq ?_ hdisk hlast
  cases e with
  | get j k l =>
    obtain ⟨hget, rfl⟩ := next_get h
    refine reads_update hreads fun hij => ?_
    rw [hij, hget] at hreads
    cases hreads
  | memoryGet j =>
    obtain ⟨k, l, hget, rfl⟩ := next_memoryGet h
    refine reads_update hreads fun hij => ?_
    rw [hij, hget] at hreads
    obtain ⟨rfl, rfl⟩ := hreads
    exact reads_afterMemory hs l
  | diskGet j =>
    obtain ⟨k, l, hget, rfl⟩ := next_diskGet h
    refine reads_update hreads fun hij => ?_
    rw [hij, hget] at hreads
    obtain ⟨rfl, rfl⟩ := hreads
    exact reads_afterDisk hs l
  | backFill j =>
    obtain ⟨k, entry, hget, rfl⟩ := next_backFill h
    refine reads_update hreads fun hij => ?_
    rw [hij, hget] at hreads
    obtain ⟨rfl, hle, hfound⟩ := hreads
    rw [Reads, hs.last, hfound, answer_some_of_le hle]
  | set j k entry =>
    obtain ⟨-, rfl⟩ := next_set h
    exact hreads
  | diskInsert j =>
    obtain ⟨k, entry, -, rfl⟩ := next_diskInsert h
    exact hreads
  | memoryInsert j =>
    obtain ⟨k, entry, -, rfl⟩ := next_memoryInsert h
    exact hreads
  | evict k =>
    obtain rfl := next_evict h
    exact hreads

/-- **A read returns what the last write answers**: one that begins with no write of its key in
progress and ends before another one begins, in a run whose steps are current. -/
theorem get_eq_answer (C : Codec β) (disk : κ → Option β) {s₁ s₂ s₃ : ContractCache κ β}
    {es fs : List (Event κ)} {i : ℕ} {key : κ} {currentLedger : ℕ}
    {result : Option (List UInt8)}
    (hbefore : Run (CurrentStep C) (start C disk) es s₁) (hidle : ¬s₁.InProgress key)
    (hget : s₁.CurrentStep C (.get i key currentLedger) s₂)
    (hrun : Run (CurrentStep C) s₂ fs s₃) (hset : ∀ f ∈ fs, ∀ j entry, f ≠ .set j key entry)
    (hresult : s₃.gets i = .returned result) :
    result = answer (s₁.last key) currentLedger := by
  have hinv := hbefore.invariant (I := Inv C) (fun _ _ _ => inv_next) (inv_start disk)
  have hinv₂ := inv_next hinv hget
  obtain ⟨hidle₂, -, hlast₂⟩ := unchanged_next hidle hget.1 (by simp)
  have hreads₂ : s₂.Reads C key currentLedger (s₂.gets i) := by
    obtain ⟨-, rfl⟩ := next_get hget.1
    simp only [update_self]
    exact ⟨rfl, rfl⟩
  -- the read goes on, and the last write stays what it was
  have hstep : ∀ s f t, (s.Inv C ∧ ¬s.InProgress key ∧ s.last key = s₁.last key ∧
      s.Reads C key currentLedger (s.gets i)) →
      CurrentStep C s f t ∧ (∀ j entry, f ≠ .set j key entry) →
      t.Inv C ∧ ¬t.InProgress key ∧ t.last key = s₁.last key ∧
        t.Reads C key currentLedger (t.gets i) := by
    rintro s f t ⟨hs, hs', hl, hreads⟩ ⟨hstep, hne⟩
    obtain ⟨ht, -, hlast⟩ := unchanged_next hs' hstep.1 hne
    have hsettled := (hs key).resolve_left hs'
    exact ⟨inv_next hs hstep, ht, hlast.trans hl, reads_next hsettled hs' hreads hstep.1 hne⟩
  have hlabels := Run.and_label_iff.mpr ⟨hrun, hset⟩
  obtain ⟨-, -, hlast, hreads⟩ := hlabels.invariant hstep ⟨hinv₂, hidle₂, hlast₂, hreads₂⟩
  rw [hresult, Reads, hlast] at hreads
  exact hreads

/-! ## Two runs -/

/-- Entries are on disk as they are. -/
def plainCodec : Codec Entry := ⟨id, some, fun _ => rfl⟩

def oldEntry : Entry := ⟨[1], 5, 0⟩

def newEntry : Entry := ⟨[2], 6, 1⟩

/-- The old entry is on disk, and another one is written. -/
def afterWrite : List (Event ℕ) := [.set 0 0 newEntry, .diskInsert 0, .memoryInsert 0]

/-- A read finds the old entry on disk, and puts it in memory when the new one is written. -/
def aroundWrite : List (Event ℕ) :=
  [.get 0 0 5, .memoryGet 0, .diskGet 0] ++ afterWrite ++ [.backFill 0]

/-- The only write has returned. -/
theorem not_inProgress {s : ContractCache ℕ Entry} (h : ∀ i, putKey (s.puts i) = none) (key : ℕ) :
    ¬s.InProgress key := by
  rintro ⟨i, hi⟩
  rw [h i] at hi
  cases hi

theorem putKey_update_idle (i j : ℕ) :
    putKey (update (update (update (fun _ => Put.idle) i (.called 0 newEntry)) i
      (.onDisk 0 newEntry)) i (.returned : Put ℕ) j) = none := by
  rcases eq_or_ne j i with rfl | hne
  · rw [update_self, putKey]
  · rw [update_of_ne hne, update_of_ne hne, update_of_ne hne, putKey]

/-- The state that a list of steps leads to, with the old entry on disk before. -/
def stateAfter (es : List (Event ℕ))
    (h : (exec (next plainCodec) (start plainCodec fun _ => some oldEntry) es).isSome) :
    ContractCache ℕ Entry :=
  (exec (next plainCodec) (start plainCodec fun _ => some oldEntry) es).get h

theorem get_eq_answer_afterWrite :
    some [2] = answer ((stateAfter afterWrite rfl).last 0) 6 := by
  have hbefore : Run (CurrentStep plainCodec) (start plainCodec fun _ => some oldEntry) afterWrite
      (stateAfter afterWrite rfl) := by
    refine .cons ⟨rfl, trivial⟩ (.cons ⟨rfl, trivial⟩ (.single ⟨rfl, ?_⟩))
    -- the disk holds what is put in memory
    rintro key entry ⟨⟩
    exact .inr rfl
  have hget : (stateAfter afterWrite rfl).CurrentStep plainCodec (.get 0 0 6)
      (stateAfter (afterWrite ++ [.get 0 0 6]) rfl) := ⟨rfl, trivial⟩
  have hafter : Run (CurrentStep plainCodec) (stateAfter (afterWrite ++ [.get 0 0 6]) rfl)
      [.memoryGet 0] (stateAfter (afterWrite ++ [.get 0 0 6, .memoryGet 0]) rfl) :=
    .single ⟨rfl, trivial⟩
  exact get_eq_answer plainCodec _ hbefore (not_inProgress (putKey_update_idle 0) 0) hget hafter
    (by simp) rfl

/-- **A read that does not return what the last write answers**: the one before it put in memory
what the disk held before the write. -/
theorem stale_get :
    ¬∀ (es fs : List (Event ℕ)) (s₁ s₂ s₃ : ContractCache ℕ Entry) (i key currentLedger : ℕ)
      (result : Option (List UInt8)),
      Run (Step plainCodec) (start plainCodec fun _ => some oldEntry) es s₁ →
      ¬s₁.InProgress key → s₁.Step plainCodec (.get i key currentLedger) s₂ →
      Run (Step plainCodec) s₂ fs s₃ → (∀ f ∈ fs, ∀ j entry, f ≠ .set j key entry) →
      s₃.gets i = .returned result → result = answer (s₁.last key) currentLedger := by
  intro h
  have hbefore : Run (Step plainCodec) (start plainCodec fun _ => some oldEntry) aroundWrite
      (stateAfter aroundWrite rfl) := run_of_exec rfl
  have hafter : Run (Step plainCodec) (stateAfter (aroundWrite ++ [.get 1 0 5]) rfl) [.memoryGet 1]
      (stateAfter (aroundWrite ++ [.get 1 0 5, .memoryGet 1]) rfl) := .single rfl
  have hstale := h aroundWrite [.memoryGet 1] _ _ _ 1 0 5 (some [1]) hbefore
    (not_inProgress (putKey_update_idle 0) 0) rfl hafter (by simp) rfl
  exact absurd hstale (by decide)

end ContractCache

end Core.Cache
