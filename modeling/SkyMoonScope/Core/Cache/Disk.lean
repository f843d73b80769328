import SkyMoonScope.Core.Cache.Results

/-!
# The cache of contract state on disk

An entry records the ledger at which it was written. A read at a ledger too far ahead finds nothing,
and removes the entry. A sweep removes all such entries. Calls come one after another; the process
may be started again in between, and the tree stays.

## Main definitions

* `DiskCacheEntry`, `DiskCodec`: an entry, and how it is written and read
* `DiskCache`, `get`, `set`, `remove`, `evictStale`: the cache of `core/src/cache/disk.rs`
* `DiskCache.Event`, `DiskCache.run`: the calls on the cache, and the cache after them
* `DiskCache.lastSet`: what was last written for a key

## Main results

* `evictStale_spec`: a sweep leaves the entries that can be read and are not stale, and counts the
  others
* `get_eq_lastSet`: sweeps and reads change nothing for later reads
-/

namespace Core.Cache

structure DiskCacheEntry where
  writtenAtLedger : ℕ
  payload : List UInt8
  deriving DecidableEq

/-- The text before the ledger of an entry. -/
def ledgerHead : List UInt8 := ascii "\x7b\"written_at_ledger\":".toList

/-- The text before the bytes of an entry. -/
def payloadHead : List UInt8 := ascii ",\"payload\":[".toList

/-- The text after the bytes of an entry. -/
def payloadTail : List UInt8 := ascii "]\x7d".toList

/-- `serde_json::to_vec` of an entry: the payload is a list of numbers. -/
def toVec (e : DiskCacheEntry) : List UInt8 :=
  ledgerHead ++ ascii (Nat.toDigits 10 e.writtenAtLedger) ++ payloadHead ++
    [44].intercalate (e.payload.map fun b => ascii (Nat.toDigits 10 b.toNat)) ++ payloadTail

/-- How entries are read: as what was written. -/
structure DiskCodec where
  fromSlice : List UInt8 → Option DiskCacheEntry
  fromSlice_toVec : ∀ e, fromSlice (toVec e) = some e

structure DiskCache where
  db : OrderedMap Key (List UInt8)
  maxLedgerAge : ℕ

namespace DiskCache

variable (C : DiskCodec)

/-- Entries from a later ledger are fresh. -/
def isStale (c : DiskCache) (currentLedger writtenAtLedger : ℕ) : Bool :=
  currentLedger - writtenAtLedger > c.maxLedgerAge

/-- An entry that cannot be read, or is stale, is removed. -/
def get (c : DiskCache) (key : Key) (currentLedger : ℕ) : Option (List UInt8) × DiskCache :=
  match c.db.get? key with
  | none => (none, c)
  | some raw =>
    match C.fromSlice raw with
    | none => (none, { c with db := c.db.erase key })
    | some entry =>
      if c.isStale currentLedger entry.writtenAtLedger then
        (none, { c with db := c.db.erase key })
      else (some entry.payload, c)

def set (c : DiskCache) (key : Key) (payload : List UInt8) (currentLedger : ℕ) : DiskCache :=
  { c with db := c.db.insert key (toVec { writtenAtLedger := currentLedger, payload }) }

def remove (c : DiskCache) (key : Key) : DiskCache := { c with db := c.db.erase key }

/-- Whether a sweep leaves an entry. -/
def stays (c : DiskCache) (currentLedger : ℕ) (kv : Key × List UInt8) : Bool :=
  match C.fromSlice kv.2 with
  | some entry => !c.isStale currentLedger entry.writtenAtLedger
  | none => false

/-- One entry of a sweep. -/
def sweepEntry (currentLedger : ℕ) (r : ℕ × DiskCache) (kv : Key × List UInt8) : ℕ × DiskCache :=
  if r.2.stays C currentLedger kv then r else (r.1 + 1, r.2.remove kv.1)

/-- A sweep goes over the entries, and returns how many it has removed. -/
def evictStale (c : DiskCache) (currentLedger : ℕ) : ℕ × DiskCache :=
  c.db.entries.foldl (sweepEntry C currentLedger) (0, c)

/-! ## Sweeps -/

variable {C} {c : DiskCache} {key : Key} {now : ℕ} {p : Key × List UInt8}

/-- The sweep of some of the entries. -/
theorem foldl_sweepEntry {kvs : List (Key × List UInt8)} {r : ℕ × DiskCache}
    (hmem : ∀ p ∈ kvs, p ∈ r.2.db.entries) (hnodup : (kvs.map Prod.fst).Nodup) :
    (kvs.foldl (sweepEntry C now) r).2.maxLedgerAge = r.2.maxLedgerAge ∧
      (∀ p, p ∈ (kvs.foldl (sweepEntry C now) r).2.db.entries ↔
        p ∈ r.2.db.entries ∧ (p ∈ kvs → r.2.stays C now p)) ∧
      (kvs.foldl (sweepEntry C now) r).1 =
        r.1 + (kvs.filter fun p => !r.2.stays C now p).length := by
  induction kvs generalizing r with
  | nil => simp
  | cons kv kvs ih =>
    obtain ⟨hnotMem, hnodup⟩ := List.nodup_cons.mp hnodup
    obtain ⟨hkv, hmem⟩ := List.forall_mem_cons.mp hmem
    rw [List.foldl_cons]
    cases hstays : r.2.stays C now kv with
    | true =>
      have hstep : sweepEntry C now r kv = r := if_pos hstays
      rw [hstep, List.filter_cons_of_neg (by simp [hstays])]
      obtain ⟨hage, hentries, hcount⟩ := ih hmem hnodup
      refine ⟨hage, fun p => (hentries p).trans (and_congr_right fun _ => ?_), hcount⟩
      constructor
      · rintro h hp
        rcases List.mem_cons.mp hp with rfl | hp
        · exact hstays
        · exact h hp
      · exact fun h hp => h (List.mem_cons_of_mem _ hp)
    | false =>
      have hstep : sweepEntry C now r kv = (r.1 + 1, r.2.remove kv.1) :=
        if_neg (by simp [hstays])
      rw [hstep, List.filter_cons_of_pos (by simp [hstays])]
      have hrest : ∀ q ∈ kvs, q ∈ (r.2.remove kv.1).db.entries := by
        intro q hq
        refine OrderedMap.mem_erase.mpr ⟨hmem q hq, fun heq => hnotMem ?_⟩
        rw [← heq]
        exact List.mem_map_of_mem hq
      obtain ⟨hage, hentries, hcount⟩ := @ih (r.1 + 1, r.2.remove kv.1) hrest hnodup
      refine ⟨hage, fun p => (hentries p).trans ?_, hcount.trans ?_⟩
      · rw [remove, OrderedMap.mem_erase, and_assoc]
        refine and_congr_right fun hp => ?_
        constructor
        · rintro ⟨hne, h⟩ hp'
          rcases List.mem_cons.mp hp' with rfl | hp'
          · exact absurd rfl hne
          · exact h hp'
        · intro h
          refine ⟨fun heq => ?_, fun hp' => h (List.mem_cons_of_mem _ hp')⟩
          -- the entry of that key is the one that was removed
          have hsame : p = kv := Prod.ext heq (OrderedMap.eq_of_mem (heq ▸ hp) hkv)
          subst hsame
          rw [h List.mem_cons_self] at hstays
          cases hstays
      · rw [List.length_cons, Nat.add_right_comm, Nat.add_assoc]
        rfl

/-- **A sweep** leaves the entries that can be read and are not stale, and counts the others. -/
theorem evictStale_spec (c : DiskCache) (now : ℕ) :
    (c.evictStale C now).2.maxLedgerAge = c.maxLedgerAge ∧
      (∀ p, p ∈ (c.evictStale C now).2.db.entries ↔ p ∈ c.db.entries ∧ c.stays C now p) ∧
      (c.evictStale C now).1 = (c.db.entries.filter fun p => !c.stays C now p).length := by
  have hnodup : (c.db.entries.map Prod.fst).Nodup :=
    List.pairwise_map.mpr (c.db.sorted.imp fun h => h.ne)
  obtain ⟨hage, hentries, hcount⟩ :=
    @foldl_sweepEntry C now c.db.entries (0, c) (fun _ hp => hp) hnodup
  refine ⟨hage, fun p => (hentries p).trans (and_congr_right fun hp => ?_), ?_⟩
  · exact ⟨fun h => h hp, fun h _ => h⟩
  · rw [evictStale, hcount, Nat.zero_add]

/-! ## Runs -/

/-- A call on the cache, or a start of the process. -/
inductive Event
  | get (key : Key) (currentLedger : ℕ)
  | set (key : Key) (payload : List UInt8) (currentLedger : ℕ)
  | remove (key : Key)
  | evictStale (currentLedger : ℕ)
  | reopen

/-- The tree is all that there is. -/
def openAt (db : OrderedMap Key (List UInt8)) (maxLedgerAge : ℕ) : DiskCache := { db, maxLedgerAge }

variable (C) in
def next (c : DiskCache) : Event → DiskCache
  | .get key currentLedger => (c.get C key currentLedger).2
  | .set key payload currentLedger => c.set key payload currentLedger
  | .remove key => c.remove key
  | .evictStale currentLedger => (c.evictStale C currentLedger).2
  | .reopen => openAt c.db c.maxLedgerAge

variable (C) in
def run (maxLedgerAge : ℕ) (events : List Event) : DiskCache :=
  events.foldl (next C) (openAt .empty maxLedgerAge)

/-- What was last written for a key, if it was not removed after that. -/
def lastSet (key : Key) (events : List Event) : Option DiskCacheEntry :=
  events.foldl (fun last event =>
    match event with
    | .set k payload currentLedger =>
      if k = key then some { writtenAtLedger := currentLedger, payload } else last
    | .remove k => if k = key then none else last
    | _ => last) none

/-- The ledger at which a call looks at entries. -/
def Event.ledger? : Event → Option ℕ
  | .get _ currentLedger => some currentLedger
  | .evictStale currentLedger => some currentLedger
  | _ => none

variable {events : List Event} {event : Event} {maxLedgerAge : ℕ}

theorem run_concat : run C maxLedgerAge (events ++ [event]) =
    (run C maxLedgerAge events).next C event := by
  rw [run, List.foldl_append]
  rfl

/-- The entry of a key is the last one written for it, or that was stale at a ledger at which a call
has looked at entries. -/
structure Holds (C : DiskCodec) (maxLedgerAge : ℕ) (events : List Event) (c : DiskCache) :
    Prop where
  maxLedgerAge_eq : c.maxLedgerAge = maxLedgerAge
  entry : ∀ key, c.db.get? key = (lastSet key events).map toVec ∨ c.db.get? key = none ∧
    ∃ e ledger, lastSet key events = some e ∧ ledger ∈ events.filterMap Event.ledger? ∧
      maxLedgerAge < ledger - e.writtenAtLedger

theorem lastSet_concat_of_look (h : (event.ledger?).isSome) (key : Key) :
    lastSet key (events ++ [event]) = lastSet key events := by
  rw [lastSet, List.foldl_append]
  cases event with
  | get => rfl
  | evictStale => rfl
  | set => cases h
  | remove => cases h
  | reopen => cases h

/-- A look at entries, that leaves of the entry of a key what is not stale. -/
theorem Holds.look {ledger : ℕ} {d : DiskCache} (h : Holds C maxLedgerAge events c)
    (hlook : event.ledger? = some ledger) (hage : d.maxLedgerAge = c.maxLedgerAge)
    (hentry : ∀ key, d.db.get? key = c.db.get? key ∨ d.db.get? key = none ∧
      ∃ e, c.db.get? key = some (toVec e) ∧ c.isStale ledger e.writtenAtLedger) :
    Holds C maxLedgerAge (events ++ [event]) d := by
  refine ⟨hage.trans h.maxLedgerAge_eq, fun key => ?_⟩
  rw [lastSet_concat_of_look (by simp [hlook]), List.filterMap_append]
  rcases h.entry key with hlast | ⟨hnone, e, ledger', hlast, hmem, hold⟩
  · rcases hentry key with hsame | ⟨hgone, e, he, hstale⟩
    · exact .inl (hsame.trans hlast)
    · -- the entry was the last one that was written
      rw [hlast, Option.map_eq_some_iff] at he
      obtain ⟨e', he', hvec⟩ := he
      have hsame := C.fromSlice_toVec e'
      rw [hvec, C.fromSlice_toVec, Option.some.injEq] at hsame
      rw [isStale, h.maxLedgerAge_eq, decide_eq_true_eq] at hstale
      exact .inr ⟨hgone, e, ledger, hsame ▸ he', by simp [hlook], hstale⟩
  · refine .inr ⟨?_, e, ledger', hlast, List.mem_append_left _ hmem, hold⟩
    rcases hentry key with hsame | ⟨hgone, -⟩
    · exact hsame.trans hnone
    · exact hgone

/-- What is on disk can be read. -/
theorem Holds.exists_toVec (h : Holds C maxLedgerAge events c) {raw : List UInt8}
    (hraw : c.db.get? key = some raw) : ∃ e, lastSet key events = some e ∧ raw = toVec e := by
  rcases h.entry key with hlast | ⟨hnone, -⟩
  · rw [hraw, eq_comm, Option.map_eq_some_iff] at hlast
    obtain ⟨e, he, rfl⟩ := hlast
    exact ⟨e, he, rfl⟩
  · rw [hraw] at hnone
    cases hnone

theorem Holds.get (h : Holds C maxLedgerAge events c) (key : Key) (ledger : ℕ) :
    Holds C maxLedgerAge (events ++ [.get key ledger]) (c.get C key ledger).2 := by
  rcases hraw : c.db.get? key with - | raw
  · rw [DiskCache.get, hraw]
    exact h.look rfl rfl fun _ => .inl rfl
  · obtain ⟨e, -, rfl⟩ := h.exists_toVec hraw
    rw [DiskCache.get, hraw]
    dsimp only
    rw [C.fromSlice_toVec]
    dsimp only
    split
    case isFalse => exact h.look rfl rfl fun _ => .inl rfl
    case isTrue hstale =>
      refine h.look rfl rfl fun key' => ?_
      rw [OrderedMap.get?_erase]
      split
      case isTrue heq => exact .inr ⟨rfl, e, heq ▸ hraw, hstale⟩
      case isFalse => exact .inl rfl

theorem Holds.evictStale (h : Holds C maxLedgerAge events c) (ledger : ℕ) :
    Holds C maxLedgerAge (events ++ [.evictStale ledger]) (c.evictStale C ledger).2 := by
  obtain ⟨hage, hentries, -⟩ := evictStale_spec (C := C) c ledger
  refine h.look rfl hage fun key => ?_
  rcases hraw : c.db.get? key with - | raw
  · left
    rw [OrderedMap.get?_eq_none_iff] at hraw ⊢
    exact fun v hv => hraw v ((hentries _).mp hv).1
  · obtain ⟨e, -, rfl⟩ := h.exists_toVec hraw
    have hmem := OrderedMap.get?_eq_some_iff.mp hraw
    have hstays : c.stays C ledger (key, toVec e) = !c.isStale ledger e.writtenAtLedger := by
      rw [stays, C.fromSlice_toVec]
    cases hstale : c.isStale ledger e.writtenAtLedger with
    | false =>
      left
      rw [OrderedMap.get?_eq_some_iff, hentries]
      exact ⟨hmem, by rw [hstays, hstale]; rfl⟩
    | true =>
      right
      refine ⟨?_, e, rfl, hstale⟩
      rw [OrderedMap.get?_eq_none_iff]
      intro v hv
      obtain ⟨hv, hstays'⟩ := (hentries _).mp hv
      rw [OrderedMap.eq_of_mem hv hmem, hstays, hstale] at hstays'
      cases hstays'

/-- A call that looks at no ledger, and writes what it is said to write. -/
theorem Holds.write {d : DiskCache} (h : Holds C maxLedgerAge events c)
    (hage : d.maxLedgerAge = c.maxLedgerAge)
    (hentry : ∀ key, d.db.get? key = (lastSet key (events ++ [event])).map toVec ∨
      d.db.get? key = c.db.get? key ∧ lastSet key (events ++ [event]) = lastSet key events) :
    Holds C maxLedgerAge (events ++ [event]) d := by
  refine ⟨hage.trans h.maxLedgerAge_eq, fun key => ?_⟩
  rcases hentry key with hwritten | ⟨hget, hlast⟩
  · exact .inl hwritten
  · rw [hget, hlast, List.filterMap_append]
    refine (h.entry key).imp_right ?_
    rintro ⟨hnone, e, ledger, hset, hmem, hold⟩
    exact ⟨hnone, e, ledger, hset, List.mem_append_left _ hmem, hold⟩

theorem holds_run (maxLedgerAge : ℕ) (events : List Event) :
    Holds C maxLedgerAge events (run C maxLedgerAge events) := by
  induction events using List.reverseRecOn with
  | nil => exact ⟨rfl, fun _ => .inl rfl⟩
  | append_singleton events event ih =>
    rw [run_concat]
    cases event with
    | get key ledger => exact ih.get key ledger
    | evictStale ledger => exact ih.evictStale ledger
    | reopen => exact ih.write rfl fun key => .inr ⟨rfl, by rw [lastSet, List.foldl_append]; rfl⟩
    | set k payload ledger =>
      refine ih.write rfl fun key => ?_
      rw [next, DiskCache.set, OrderedMap.get?_insert, lastSet, List.foldl_append]
      by_cases heq : key = k
      · rw [if_pos heq]
        exact .inl (by simp [heq])
      · rw [if_neg heq]
        exact .inr ⟨rfl, if_neg (Ne.symm heq)⟩
    | remove k =>
      refine ih.write rfl fun key => ?_
      rw [next, DiskCache.remove, OrderedMap.get?_erase, lastSet, List.foldl_append]
      by_cases heq : key = k
      · rw [if_pos heq]
        exact .inl (by simp [heq])
      · rw [if_neg heq]
        exact .inr ⟨rfl, if_neg (Ne.symm heq)⟩

/-- **Sweeps and reads change nothing for later reads**: a read has what was last written for its
key, unless that is stale by now, whatever was read and swept at earlier ledgers. -/
theorem get_eq_lastSet (C : DiskCodec) (maxLedgerAge : ℕ) {events : List Event} (key : Key)
    {now : ℕ} (hledgers : ∀ ledger ∈ events.filterMap Event.ledger?, ledger ≤ now) :
    ((run C maxLedgerAge events).get C key now).1 =
      ((lastSet key events).filter fun e => now - e.writtenAtLedger ≤ maxLedgerAge).map
        DiskCacheEntry.payload := by
  have hholds := holds_run (C := C) maxLedgerAge events
  rcases hholds.entry key with hlast | ⟨hnone, e, ledger, hlast, hmem, hold⟩
  · rcases hset : lastSet key events with - | e
    · rw [hset, Option.map_none] at hlast
      rw [DiskCache.get, hlast]
      rfl
    · rw [hset, Option.map_some] at hlast
      rw [DiskCache.get, hlast]
      dsimp only
      rw [C.fromSlice_toVec, Option.filter_some]
      dsimp only
      rw [isStale, hholds.maxLedgerAge_eq]
      by_cases hfresh : now - e.writtenAtLedger ≤ maxLedgerAge
      · rw [if_neg (by simp [hfresh]), if_pos (by simp [hfresh])]
        rfl
      · rw [if_pos (by simp [Nat.lt_of_not_le hfresh]), if_neg (by simp [hfresh])]
        rfl
  · -- what was stale at an earlier ledger is stale now
    have hle := hledgers ledger hmem
    have hstale : ¬now - e.writtenAtLedger ≤ maxLedgerAge := by omega
    rw [DiskCache.get, hnone, hlast, Option.filter_some, if_neg (by simp [hstale])]
    rfl

/-! ## A reader -/

section

open SimulationCache (isDigit isDigit_digits number number_digits)

/-- The bytes that the numbers of a text stand for, with commas between the numbers. -/
def bytes (bs : List UInt8) : List UInt8 :=
  ((bs.splitOn 44).filter (· ≠ [])).map fun n => UInt8.ofNat (number n)

theorem bytes_intercalate (payload : List UInt8) :
    bytes ([44].intercalate (payload.map fun b => ascii (Nat.toDigits 10 b.toNat))) = payload := by
  have hnumbers : (payload.map fun b => ascii (Nat.toDigits 10 b.toNat)).map
      (fun n => UInt8.ofNat (number n)) = payload := by
    rw [List.map_map]
    conv_rhs => rw [← List.map_id payload]
    exact List.map_congr_left fun b _ => by simp [number_digits]
  have hfilter : (payload.map fun b => ascii (Nat.toDigits 10 b.toNat)).filter (· ≠ []) =
      payload.map fun b => ascii (Nat.toDigits 10 b.toNat) := by
    rw [List.filter_eq_self]
    intro n hn
    obtain ⟨b, -, rfl⟩ := List.mem_map.mp hn
    simp [ascii, Nat.toDigits_ne_nil]
  rcases payload with - | ⟨b, payload⟩
  · rfl
  · rw [bytes, List.splitOn_intercalate, hfilter, hnumbers]
    · -- no digit is a comma
      intro n hn hcomma
      obtain ⟨b', -, rfl⟩ := List.mem_map.mp hn
      exact absurd (isDigit_digits _ hcomma) (by decide)
    · exact List.cons_ne_nil _ _

/-- Read an entry, if the text is what is written for one. -/
def readVec (bs : List UInt8) : Option DiskCacheEntry :=
  let rest := bs.drop ledgerHead.length
  let after := (rest.dropWhile isDigit).drop payloadHead.length
  let entry : DiskCacheEntry :=
    { writtenAtLedger := number (rest.takeWhile isDigit),
      payload := bytes (after.take (after.length - payloadTail.length)) }
  if toVec entry = bs then some entry else none

theorem readVec_toVec (e : DiskCacheEntry) : readVec (toVec e) = some e := by
  obtain ⟨ledger, payload⟩ := e
  set numbers := [44].intercalate (payload.map fun b => ascii (Nat.toDigits 10 b.toNat))
    with hnumbers
  have htext : toVec ⟨ledger, payload⟩ = ledgerHead ++ (ascii (Nat.toDigits 10 ledger) ++
      (payloadHead ++ (numbers ++ payloadTail))) := by
    simp only [toVec, ← hnumbers, List.append_assoc]
  have hbytes : bytes numbers = payload := bytes_intercalate payload
  -- a comma ends the ledger
  have hcomma : (payloadHead ++ (numbers ++ payloadTail)).takeWhile isDigit = [] ∧
      (payloadHead ++ (numbers ++ payloadTail)).dropWhile isDigit =
        payloadHead ++ (numbers ++ payloadTail) := ⟨rfl, rfl⟩
  have htail : (numbers ++ payloadTail).take
      ((numbers ++ payloadTail).length - payloadTail.length) = numbers := by
    rw [List.length_append, Nat.add_sub_cancel, List.take_left]
  rw [readVec, htext]
  simp only [List.drop_left, List.takeWhile_append_of_pos isDigit_digits,
    List.dropWhile_append_of_pos isDigit_digits, hcomma.1, hcomma.2, htail, List.append_nil,
    number_digits, hbytes, htext, if_pos]

/-- The reader that reads only what was written. -/
def exactCodec : DiskCodec := ⟨readVec, readVec_toVec⟩

end

/-- Written at ledger 1000, read and swept at ledgers 1050 and 1100, and read at ledger 1101: the
second write is the one that is read. -/
theorem get_eq_lastSet_rewritten :
    ((run exactCodec 100 [.set ⟨[1]⟩ [118, 49] 1000, .get ⟨[1]⟩ 1050, .set ⟨[1]⟩ [118, 50] 1060,
      .reopen, .evictStale 1100]).get exactCodec ⟨[1]⟩ 1101).1 = some [118, 50] :=
  get_eq_lastSet exactCodec 100 ⟨[1]⟩ (by decide)

end DiskCache

end Core.Cache
