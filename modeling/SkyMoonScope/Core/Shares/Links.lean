import SkyMoonScope.Lib.Machine
import SkyMoonScope.Lib.Text
import Mathlib.Data.List.OfFn
import Mathlib.Logic.Function.Basic

/-!
# Links to snapshots

A snapshot is stored under a short id that is drawn at random, until its expiry. Reads go to a cache
first, whose entries may leave at any time. A read from the cache leaves the count of views to an
update that runs later, one from the table counts at once.

## Main definitions

* `ShareService`, `createShare`, `getShare`: the table with its cache, and the calls
* `Tracked`: a service with what was created and how often it was read

## Main results

* `getShare_of_reachable`: a link answers with its snapshot until it expires, from the cache or not
* `links_forever`: a link is never replaced
* `views_of_reachable`: the views that are counted, and those still to be counted
-/

namespace Core.Shares

open Machine Function

/-- `AppError`, as far as the service returns it. -/
inductive ServiceError
  | tooManyRequests (message : String)
  | badRequest (message : String)
  | notFound (message : String)
  | gone (message : String)
  | internal (message : String)
deriving DecidableEq

def defaultExpirySecs : ℤ := 7 * 24 * 3600

def maxExpirySecs : ℤ := 30 * 24 * 3600

def maxSnapshotBytes : ℕ := 512 * 1024

def shareIdLen : ℕ := 8

def base62 : List Char :=
  "0123456789ABCDEFGHIJKLMNOPQRSTUVWXYZabcdefghijklmnopqrstuvwxyz".toList

/-- Snapshots, and how they are stored: as compressed text, of which something may be lost. -/
structure SnapshotCodec (S : Type) where
  compress : S → List UInt8
  decompress : List UInt8 → Except String S
  stored : S → S
  decompress_compress : ∀ s, decompress (compress s) = .ok (stored s)
  /-- The time of creation, as it is read from the column. -/
  readCreatedAt : ℕ → Option ℕ

/-- A row of `shares`. Times are in nanoseconds. -/
structure Row where
  snapshot : List UInt8
  expiresAt : Option ℕ
  isActive : Bool
  viewCount : ℕ
  createdAt : ℕ

structure CachedShare (S : Type) where
  snapshot : S
  expiresAt : Option ℕ
  viewCount : ℕ
  createdAt : ℕ

structure CreateShareResponse where
  shareId : List Char
  shareUrl : List Char
  expiresAt : ℕ

structure GetShareResponse (S : Type) where
  shareId : List Char
  snapshot : S
  expiresAt : Option ℕ
  viewCount : ℕ
  createdAt : ℕ

/-- The table, the cache, and the updates of view counts that were spawned and have not run. -/
structure ShareService (S : Type) where
  rows : List Char → Option Row
  readCache : List Char → Option (CachedShare S)
  spawned : List (List Char)

/-- The numbers drawn for an id. -/
abbrev Draw := Fin 8 → Fin 62

def generateId (d : Draw) : List Char := List.ofFn fun i => base62.get (d i)

def isValidShareId (id : List Char) : Bool :=
  id.length = shareIdLen && id.all fun c => c ∈ base62

def notFoundError (id : List Char) : ServiceError :=
  .notFound ("Share '" ++ String.ofList id ++ "' not found")

def goneError (id : List Char) : ServiceError :=
  .gone ("Share '" ++ String.ofList id ++ "' has expired")

namespace ShareService

variable {S : Type} (C : SnapshotCodec S)

def new : ShareService S :=
  { rows := fun _ => none
    readCache := fun _ => none
    spawned := [] }

/-- Insert a row under the first id drawn that is not taken. -/
def allocateId (s : ShareService S) (row : Row) :
    List Draw → Except ServiceError (List Char) × ShareService S
  | [] => (.error (.internal "Failed to allocate a unique share ID after multiple attempts"), s)
  | d :: draws =>
    let id := generateId d
    match s.rows id with
    | some _ => s.allocateId row draws
    | none => (.ok id, { s with rows := update s.rows id (some row) })

/-- The time until which a new link is kept. -/
def expiry (expiresInSecs : Option ℤ) (now : ℕ) : ℕ :=
  let secs := max 1 (min (expiresInSecs.getD defaultExpirySecs) maxExpirySecs)
  now + secs.toNat * 10 ^ 9

/-- `create_share`, given what the rate limit says. There are three attempts. -/
def createShare (s : ShareService S) (publicBaseUrl : List Char) (limit : Except ServiceError Unit)
    (draws : Fin 3 → Draw) (snapshot : S) (expiresInSecs : Option ℤ) (now : ℕ) :
    Except ServiceError CreateShareResponse × ShareService S :=
  match limit with
  | .error e => (.error e, s)
  | .ok () =>
    let expiresAt := expiry expiresInSecs now
    let compressed := C.compress snapshot
    if maxSnapshotBytes < compressed.length then
      (.error (.badRequest ("Snapshot too large after compression: " ++
        toString compressed.length ++ " bytes (max " ++ toString maxSnapshotBytes ++ ")")), s)
    else
      let row : Row :=
        { snapshot := compressed, expiresAt := some expiresAt, isActive := true, viewCount := 0,
          createdAt := now }
      match s.allocateId row (List.ofFn draws) with
      | (.error e, s) => (.error e, s)
      | (.ok id, s) =>
        (.ok
          { shareId := id
            shareUrl := Text.trimEndMatches (· = '/') publicBaseUrl ++ "/share/".toList ++ id
            expiresAt }, s)

/-- The row has one more view. -/
def countView (s : ShareService S) (id : List Char) : ShareService S :=
  { s with
    rows := update s.rows id
      ((s.rows id).map fun row => { row with viewCount := row.viewCount + 1 }) }

/-- `get_share`. -/
def getShare (s : ShareService S) (id : List Char) (now : ℕ) :
    Except ServiceError (GetShareResponse S) × ShareService S :=
  if !isValidShareId id then (.error (notFoundError id), s)
  else
    match s.readCache id with
    | some cached =>
      if cached.expiresAt.any fun exp => exp < now then
        (.error (goneError id), { s with readCache := update s.readCache id none })
      else
        -- the view is counted by an update that runs later
        (.ok
          { shareId := id, snapshot := cached.snapshot, expiresAt := cached.expiresAt,
            viewCount := cached.viewCount, createdAt := cached.createdAt },
          { s with spawned := id :: s.spawned })
    | none =>
      match s.rows id with
      | none => (.error (notFoundError id), s)
      | some row =>
        if !row.isActive then (.error (notFoundError id), s)
        else if row.expiresAt.any fun exp => exp < now then (.error (goneError id), s)
        else
          match C.decompress row.snapshot with
          | .error message => (.error (.internal message), s)
          | .ok snapshot =>
            let createdAt := (C.readCreatedAt row.createdAt).getD now
            let cached : CachedShare S :=
              { snapshot, expiresAt := row.expiresAt, viewCount := row.viewCount + 1, createdAt }
            (.ok
              { shareId := id, snapshot, expiresAt := row.expiresAt,
                viewCount := row.viewCount + 1, createdAt },
              { s.countView id with readCache := update s.readCache id (some cached) })

inductive Event (S : Type)
  | create (publicBaseUrl : List Char) (limit : Except ServiceError Unit) (draws : Fin 3 → Draw)
      (snapshot : S) (expiresInSecs : Option ℤ) (now : ℕ)
  | get (id : List Char) (now : ℕ)
  | runSpawned (id : List Char)
  | evict (id : List Char)

/-- The service after a call, a spawned update, or the loss of a cache entry. -/
def next (s : ShareService S) : Event S → ShareService S
  | .create url limit draws snapshot expiresInSecs now =>
    (s.createShare C url limit draws snapshot expiresInSecs now).2
  | .get id now => (s.getShare C id now).2
  | .runSpawned id =>
    if id ∈ s.spawned then { s.countView id with spawned := s.spawned.erase id } else s
  | .evict id => { s with readCache := update s.readCache id none }

end ShareService

/-! ## What was created and read -/

/-- A service, the snapshot and expiry of each link that was created, and how often it was read. -/
structure Tracked (S : Type) where
  service : ShareService S
  links : List Char → Option (S × ℕ)
  views : List Char → ℕ

namespace Tracked

variable {S : Type} (C : SnapshotCodec S)

def start : Tracked S := ⟨.new, fun _ => none, fun _ => 0⟩

/-- The links after a call. -/
def linksAfter (t : Tracked S) : ShareService.Event S → List Char → Option (S × ℕ)
  | .create url limit draws snapshot expiresInSecs now =>
    match (t.service.createShare C url limit draws snapshot expiresInSecs now).1 with
    | .ok response => update t.links response.shareId (some (snapshot, response.expiresAt))
    | .error _ => t.links
  | _ => t.links

/-- The views after a call. -/
def viewsAfter (t : Tracked S) : ShareService.Event S → List Char → ℕ
  | .get id now =>
    match (t.service.getShare C id now).1 with
    | .ok _ => update t.views id (t.views id + 1)
    | .error _ => t.views
  | _ => t.views

def next (t : Tracked S) (e : ShareService.Event S) : Tracked S :=
  { service := t.service.next C e
    links := t.linksAfter C e
    views := t.viewsAfter C e }

def Step (t : Tracked S) (e : ShareService.Event S) (u : Tracked S) : Prop := t.next C e = u

/-- What the table, the cache and the counts say about a link. -/
structure Inv (t : Tracked S) : Prop where
  valid : ∀ id, t.links id ≠ none → isValidShareId id = true
  missing : ∀ id, t.links id = none →
    t.service.rows id = none ∧ id ∉ t.service.spawned ∧ t.views id = 0
  row : ∀ id snapshot expiresAt, t.links id = some (snapshot, expiresAt) →
    ∃ row, t.service.rows id = some row ∧ row.snapshot = C.compress snapshot ∧
      row.expiresAt = some expiresAt ∧ row.isActive = true ∧
      row.viewCount + t.service.spawned.count id = t.views id
  cached : ∀ id c, t.service.readCache id = some c →
    ∃ snapshot expiresAt, t.links id = some (snapshot, expiresAt) ∧
      c.snapshot = C.stored snapshot ∧ c.expiresAt = some expiresAt ∧
      1 ≤ c.viewCount ∧ c.viewCount ≤ t.views id

theorem inv_start : (start : Tracked S).Inv C where
  valid := fun _ h => absurd rfl h
  missing := fun _ _ => ⟨rfl, List.not_mem_nil, rfl⟩
  row := fun _ _ _ h => by cases h
  cached := fun _ _ h => by cases h

/-! ## One call -/

section

variable {C} {t : Tracked S} {id : List Char} {now : ℕ} {snapshot : S} {expiresAt : ℕ}

theorem isValidShareId_generateId (d : Draw) : isValidShareId (generateId d) = true := by
  simp only [isValidShareId, generateId, List.length_ofFn, shareIdLen, decide_true, Bool.true_and,
    List.all_eq_true, decide_eq_true_eq]
  intro c hc
  obtain ⟨i, rfl⟩ := List.mem_ofFn.mp hc
  exact List.get_mem base62 (d i)

/-- Either no id is found, or a row is inserted under a valid id that was not taken. -/
theorem allocateId_cases (s : ShareService S) (row : Row) (draws : List Draw) :
    (∃ e, s.allocateId row draws = (.error e, s)) ∨
      ∃ id, isValidShareId id = true ∧ s.rows id = none ∧
        s.allocateId row draws = (.ok id, { s with rows := update s.rows id (some row) }) := by
  induction draws with
  | nil => exact .inl ⟨_, rfl⟩
  | cons d draws ih =>
    rw [ShareService.allocateId]
    rcases hrow : s.rows (generateId d) with - | taken
    · exact .inr ⟨generateId d, isValidShareId_generateId d, hrow, rfl⟩
    · exact ih

/-- What a creation does: nothing, or one new row under an id that was not taken. -/
theorem createShare_cases (s : ShareService S) (url : List Char) (limit : Except ServiceError Unit)
    (draws : Fin 3 → Draw) (snapshot : S) (expiresInSecs : Option ℤ) (now : ℕ) :
    (∃ e, s.createShare C url limit draws snapshot expiresInSecs now = (.error e, s)) ∨
      ∃ response row, isValidShareId response.shareId = true ∧ s.rows response.shareId = none ∧
        row.snapshot = C.compress snapshot ∧ row.expiresAt = some response.expiresAt ∧
        row.isActive = true ∧ row.viewCount = 0 ∧
        response.expiresAt = ShareService.expiry expiresInSecs now ∧
        s.createShare C url limit draws snapshot expiresInSecs now =
          (.ok response, { s with rows := update s.rows response.shareId (some row) }) := by
  unfold ShareService.createShare
  rcases limit with e | ⟨⟩
  · exact .inl ⟨e, rfl⟩
  · dsimp only
    split
    · exact .inl ⟨_, rfl⟩
    · rcases allocateId_cases s _ (List.ofFn draws) with ⟨e, heq⟩ | ⟨id, hvalid, hnone, heq⟩
      · rw [heq]
        exact .inl ⟨e, rfl⟩
      · rw [heq]
        exact .inr ⟨_, _, hvalid, hnone, rfl, rfl, rfl, rfl, rfl, rfl⟩

/-- A read of an id that has no link. -/
theorem Inv.getShare_of_missing (h : t.Inv C) (hlink : t.links id = none) :
    t.service.getShare C id now = (.error (notFoundError id), t.service) := by
  have hcache : t.service.readCache id = none := by
    rcases hc : t.service.readCache id with - | c
    · rfl
    · obtain ⟨_, _, hlink', -⟩ := h.cached id c hc
      cases hlink.symm.trans hlink'
  unfold ShareService.getShare
  rw [hcache, (h.missing id hlink).1]
  split <;> rfl

/-- A read of a link that has expired: at most the cache forgets it. -/
theorem Inv.getShare_of_expired (h : t.Inv C) (hlink : t.links id = some (snapshot, expiresAt))
    (hexpired : expiresAt < now) :
    (t.service.getShare C id now).1 = .error (goneError id) ∧
      ((t.service.getShare C id now).2 = t.service ∨ (t.service.getShare C id now).2 =
        { t.service with readCache := update t.service.readCache id none }) := by
  have hvalid := h.valid id (by simp [hlink])
  unfold ShareService.getShare
  rcases hc : t.service.readCache id with - | c
  · obtain ⟨row, hrow, -, hexp, hactive, -⟩ := h.row id snapshot expiresAt hlink
    simp [hvalid, hrow, hexp, hactive, hexpired]
  · obtain ⟨s', e', hlink', -, hexp, -⟩ := h.cached id c hc
    cases hlink.symm.trans hlink'
    simp [hvalid, hexp, hexpired]

/-- A read of a link that has not expired: it is counted, at once or later. -/
theorem Inv.getShare_of_live (h : t.Inv C) (hlink : t.links id = some (snapshot, expiresAt))
    (hlive : now ≤ expiresAt) :
    ∃ r, (t.service.getShare C id now).1 = .ok r ∧ r.shareId = id ∧
      r.snapshot = C.stored snapshot ∧ r.expiresAt = some expiresAt ∧
      1 ≤ r.viewCount ∧ r.viewCount ≤ t.views id + 1 ∧
      ((t.service.getShare C id now).2 =
          { t.service with spawned := id :: t.service.spawned } ∨
        ∃ c, (t.service.getShare C id now).2 =
            { t.service.countView id with
              readCache := update t.service.readCache id (some c) } ∧
          c.snapshot = C.stored snapshot ∧ c.expiresAt = some expiresAt ∧
          c.viewCount = r.viewCount) := by
  have hvalid := h.valid id (by simp [hlink])
  have hnot : ¬ expiresAt < now := not_lt.mpr hlive
  unfold ShareService.getShare
  rcases hc : t.service.readCache id with - | c
  · obtain ⟨row, hrow, hsnapshot, hexp, hactive, hcount⟩ := h.row id snapshot expiresAt hlink
    have hread : C.decompress row.snapshot = .ok (C.stored snapshot) := by
      rw [hsnapshot, C.decompress_compress]
    simp only [hvalid, hrow, hactive, hexp, hread, Bool.not_true, Bool.false_eq_true, if_false,
      Option.any_some, hnot, decide_false]
    refine ⟨_, rfl, rfl, rfl, rfl, Nat.le_add_left 1 _, ?_, .inr ⟨_, rfl, rfl, rfl, rfl⟩⟩
    dsimp only
    omega
  · obtain ⟨s', e', hlink', hsnapshot, hexp, hone, hle⟩ := h.cached id c hc
    cases hlink.symm.trans hlink'
    simp only [hvalid, hexp, Bool.not_true, Bool.false_eq_true, if_false, Option.any_some, hnot,
      decide_false]
    exact ⟨_, rfl, rfl, hsnapshot, rfl, hone, Nat.le_succ_of_le hle, .inl trivial⟩

/-! ## Runs -/

/-- A new link keeps what the others say. -/
theorem Inv.create (h : t.Inv C) {response : CreateShareResponse} {row : Row}
    (hvalid : isValidShareId response.shareId = true)
    (hnone : t.service.rows response.shareId = none)
    (hsnapshot : row.snapshot = C.compress snapshot)
    (hexp : row.expiresAt = some response.expiresAt) (hactive : row.isActive = true)
    (hcount : row.viewCount = 0) :
    Inv C ⟨{ t.service with rows := update t.service.rows response.shareId (some row) },
      update t.links response.shareId (some (snapshot, response.expiresAt)), t.views⟩ := by
  -- what was not in the table had no link
  have hlink : t.links response.shareId = none := by
    rcases hl : t.links response.shareId with - | ⟨s, e⟩
    · rfl
    · obtain ⟨row', hrow', -⟩ := h.row _ s e hl
      cases hnone.symm.trans hrow'
  obtain ⟨-, hspawned, hviews⟩ := h.missing _ hlink
  refine ⟨fun id hid => ?_, fun id hid => ?_, fun id s e hid => ?_, fun id c hc => ?_⟩
  · dsimp only at hid
    rcases eq_or_ne id response.shareId with rfl | hne
    · exact hvalid
    · exact h.valid id (by rwa [update_of_ne hne] at hid)
  · dsimp only at hid ⊢
    rcases eq_or_ne id response.shareId with rfl | hne
    · rw [update_self] at hid
      cases hid
    · rw [update_of_ne hne] at hid ⊢
      exact h.missing id hid
  · dsimp only at hid ⊢
    rcases eq_or_ne id response.shareId with rfl | hne
    · rw [update_self] at hid
      cases hid
      exact ⟨row, update_self .., hsnapshot, hexp, hactive, by
        rw [hcount, hviews, List.count_eq_zero.mpr hspawned]⟩
    · rw [update_of_ne hne] at hid ⊢
      exact h.row id s e hid
  · obtain ⟨s, e, hl, hrest⟩ := h.cached id c hc
    have hne : id ≠ response.shareId := by
      rintro rfl
      cases hlink.symm.trans hl
    dsimp only
    rw [update_of_ne hne]
    exact ⟨s, e, hl, hrest⟩

/-- The loss of a cache entry. -/
theorem Inv.evict (h : t.Inv C) (id : List Char) :
    Inv C ⟨{ t.service with readCache := update t.service.readCache id none }, t.links,
      t.views⟩ where
  valid := h.valid
  missing := h.missing
  row := h.row
  cached := fun id' c hc => by
    rcases eq_or_ne id' id with rfl | hne
    · cases (update_self id' none t.service.readCache).symm.trans hc
    · exact h.cached id' c ((update_of_ne hne none t.service.readCache).symm.trans hc)

/-- A view that is left to an update. -/
theorem Inv.spawn (h : t.Inv C) (hlink : t.links id = some (snapshot, expiresAt)) :
    Inv C ⟨{ t.service with spawned := id :: t.service.spawned }, t.links,
      update t.views id (t.views id + 1)⟩ := by
  refine ⟨h.valid, fun id' hid => ?_, fun id' s e hid => ?_, fun id' c hc => ?_⟩
  · have hne : id' ≠ id := by
      rintro rfl
      cases hid.symm.trans hlink
    obtain ⟨hrow, hspawned, hviews⟩ := h.missing id' hid
    exact ⟨hrow, by simp [hne, hspawned], by simpa [update_of_ne hne] using hviews⟩
  · obtain ⟨row, hrow, hsnapshot, hexp, hactive, hcount⟩ := h.row id' s e hid
    refine ⟨row, hrow, hsnapshot, hexp, hactive, ?_⟩
    rcases eq_or_ne id' id with rfl | hne
    · simp only [List.count_cons_self, update_self]
      omega
    · dsimp only
      rw [List.count_cons_of_ne hne.symm, update_of_ne hne]
      exact hcount
  · obtain ⟨s, e, hl, hsnapshot, hexp, hone, hle⟩ := h.cached id' c hc
    refine ⟨s, e, hl, hsnapshot, hexp, hone, ?_⟩
    dsimp only
    rcases eq_or_ne id' id with rfl | hne
    · rw [update_self]
      omega
    · rwa [update_of_ne hne]

theorem countView_rows (s : ShareService S) (id id' : List Char) : (s.countView id).rows id' =
    if id' = id then (s.rows id').map fun row => { row with viewCount := row.viewCount + 1 }
    else s.rows id' := by
  rcases eq_or_ne id' id with rfl | hne
  · rw [if_pos rfl]
    exact update_self ..
  · rw [if_neg hne]
    exact update_of_ne hne ..

/-- A view that is counted in the table. -/
theorem Inv.count (h : t.Inv C) (hlink : t.links id = some (snapshot, expiresAt))
    {c : CachedShare S} (hsnapshot : c.snapshot = C.stored snapshot)
    (hexp : c.expiresAt = some expiresAt) (hone : 1 ≤ c.viewCount)
    (hle : c.viewCount ≤ t.views id + 1) :
    Inv C ⟨{ t.service.countView id with
      readCache := update t.service.readCache id (some c) }, t.links,
      update t.views id (t.views id + 1)⟩ := by
  refine ⟨h.valid, fun id' hid => ?_, fun id' s e hid => ?_, fun id' c' hc => ?_⟩
  · have hne : id' ≠ id := by
      rintro rfl
      cases hid.symm.trans hlink
    obtain ⟨hrow, hspawned, hviews⟩ := h.missing id' hid
    refine ⟨?_, hspawned, by simpa [update_of_ne hne] using hviews⟩
    rw [countView_rows, if_neg hne]
    exact hrow
  · obtain ⟨row, hrow, hrest, hexp', hactive, hcount⟩ := h.row id' s e hid
    dsimp only
    rw [countView_rows]
    rcases eq_or_ne id' id with rfl | hne
    · refine ⟨{ row with viewCount := row.viewCount + 1 }, ?_, hrest, hexp', hactive, ?_⟩
      · rw [if_pos rfl, hrow, Option.map_some]
      · rw [update_self, ← hcount]
        exact Nat.add_right_comm ..
    · rw [if_neg hne, update_of_ne hne]
      exact ⟨row, hrow, hrest, hexp', hactive, hcount⟩
  · dsimp only at hc ⊢
    rcases eq_or_ne id' id with rfl | hne
    · cases (update_self id' (some c) t.service.readCache).symm.trans hc
      exact ⟨snapshot, expiresAt, hlink, hsnapshot, hexp, hone, by rwa [update_self]⟩
    · rw [update_of_ne hne]
      exact h.cached id' c' ((update_of_ne hne (some c) t.service.readCache).symm.trans hc)

/-- An update that was spawned runs. -/
theorem Inv.runSpawned (h : t.Inv C) (hmem : id ∈ t.service.spawned) :
    Inv C ⟨{ t.service.countView id with spawned := t.service.spawned.erase id }, t.links,
      t.views⟩ := by
  refine ⟨h.valid, fun id' hid => ?_, fun id' s e hid => ?_, h.cached⟩
  · obtain ⟨hrow, hspawned, hviews⟩ := h.missing id' hid
    have hne : id' ≠ id := by
      rintro rfl
      exact hspawned hmem
    refine ⟨?_, fun hin => hspawned (List.mem_of_mem_erase hin), hviews⟩
    rw [countView_rows, if_neg hne]
    exact hrow
  · obtain ⟨row, hrow, hrest, hexp, hactive, hcount⟩ := h.row id' s e hid
    dsimp only
    rw [countView_rows]
    rcases eq_or_ne id' id with rfl | hne
    · have hpos : 0 < t.service.spawned.count id' := List.count_pos_iff.mpr hmem
      refine ⟨{ row with viewCount := row.viewCount + 1 }, ?_, hrest, hexp, hactive, ?_⟩
      · rw [if_pos rfl, hrow, Option.map_some]
      · rw [List.count_erase_self, ← hcount]
        dsimp only
        omega
    · rw [if_neg hne, List.count_erase_of_ne hne]
      exact ⟨row, hrow, hrest, hexp, hactive, hcount⟩

/-- **A step** keeps the invariant, and every link. -/
theorem Inv.step {u : Tracked S} {e : ShareService.Event S} (h : t.Inv C) (hstep : t.Step C e u) :
    u.Inv C ∧ ∀ id x, t.links id = some x → u.links id = some x := by
  obtain rfl := hstep
  cases e with
  | create url limit draws snapshot expiresInSecs now =>
    simp only [next, linksAfter, viewsAfter, ShareService.next]
    rcases createShare_cases (C := C) t.service url limit draws snapshot expiresInSecs now with
      ⟨e, heq⟩ | ⟨response, row, hvalid, hnone, hsnapshot, hexp, hactive, hcount, -, heq⟩
    · rw [heq]
      exact ⟨h, fun _ _ hx => hx⟩
    · rw [heq]
      refine ⟨h.create hvalid hnone hsnapshot hexp hactive hcount, fun id x hx => ?_⟩
      have hne : id ≠ response.shareId := by
        rintro rfl
        obtain ⟨s, e⟩ := x
        obtain ⟨row', hrow', -⟩ := h.row _ s e hx
        cases hnone.symm.trans hrow'
      dsimp only
      rw [update_of_ne hne, hx]
  | get id now =>
    simp only [next, linksAfter, viewsAfter, ShareService.next]
    refine ⟨?_, fun _ _ hx => hx⟩
    rcases hlink : t.links id with - | ⟨snapshot, expiresAt⟩
    · rw [h.getShare_of_missing hlink]
      exact h
    · rcases lt_or_ge expiresAt now with hexpired | hlive
      · obtain ⟨hresult, heq | heq⟩ := @Inv.getShare_of_expired _ _ _ _ now _ _ h hlink hexpired
        · rw [hresult, heq]
          exact h
        · rw [hresult, heq]
          exact h.evict id
      · obtain ⟨r, hresult, -, -, -, hone, hle, heq | ⟨c, heq, hsnapshot, hexp, hcount⟩⟩ :=
          @Inv.getShare_of_live _ _ _ _ now _ _ h hlink hlive
        · rw [hresult, heq]
          exact h.spawn hlink
        · rw [hresult, heq]
          exact h.count hlink hsnapshot hexp (hcount ▸ hone) (hcount ▸ hle)
  | runSpawned id =>
    simp only [next, linksAfter, viewsAfter, ShareService.next]
    refine ⟨?_, fun _ _ hx => hx⟩
    split
    · next hmem => exact h.runSpawned hmem
    · exact h
  | evict id => exact ⟨h.evict id, fun _ _ hx => hx⟩

theorem inv_of_reachable {es : List (ShareService.Event S)} (h : Run (Step C) start es t) :
    t.Inv C :=
  h.invariant (fun _ _ _ hs hstep => (hs.step hstep).1) (inv_start C)

end

/-- Snapshots that are stored as they are, in rows whose time of creation is not read. -/
def plainCodec : SnapshotCodec (List UInt8) where
  compress := fun s => s
  decompress := fun bs => .ok bs
  stored := fun s => s
  decompress_compress := fun _ => rfl
  readCreatedAt := fun _ => none

/-- The creation of a link to a snapshot of two bytes, for a minute. -/
def minuteLink : ShareService.Event (List UInt8) :=
  .create "https://app/".toList (.ok ()) (fun _ _ => 0) [1, 2] (some 60) 7

def minuteLinkId : List Char := generateId fun _ => 0

/-- **A link is never replaced**, and what a creation answers is a valid id without a link. -/
theorem links_forever (C : SnapshotCodec S) (es es' : List (ShareService.Event S))
    (t u : Tracked S) (h : Run (Step C) start es t) (h' : Run (Step C) t es' u) :
    (∀ id x, t.links id = some x → u.links id = some x) ∧
      ∀ url limit draws snapshot expiresInSecs now response,
        (u.service.createShare C url limit draws snapshot expiresInSecs now).1 = .ok response →
          isValidShareId response.shareId = true ∧ u.links response.shareId = none ∧
            response.expiresAt = ShareService.expiry expiresInSecs now := by
  have hinv := inv_of_reachable h
  have hkeep : u.Inv C ∧ ∀ id x, t.links id = some x → u.links id = some x := by
    clear h
    induction h' with
    | nil s => exact ⟨hinv, fun _ _ hx => hx⟩
    | cons hstep _ ih =>
      obtain ⟨hnext, hlinks⟩ := hinv.step hstep
      obtain ⟨hlast, hrest⟩ := ih hnext
      exact ⟨hlast, fun id x hx => hrest id x (hlinks id x hx)⟩
  refine ⟨hkeep.2, fun url limit draws snapshot expiresInSecs now response hok => ?_⟩
  rcases createShare_cases (C := C) u.service url limit draws snapshot expiresInSecs now with
    ⟨e, heq⟩ | ⟨response', row, hvalid, hnone, -, -, -, -, hexpiry, heq⟩
  · rw [heq] at hok
    cases hok
  · rw [heq] at hok
    cases hok
    refine ⟨hvalid, ?_, hexpiry⟩
    rcases hlink : u.links response.shareId with - | ⟨s, e⟩
    · rfl
    · obtain ⟨row', hrow', -⟩ := hkeep.1.row _ s e hlink
      cases hnone.symm.trans hrow'

theorem links_forever_minuteLink :
    (∀ id x, (start.next plainCodec minuteLink).links id = some x →
      ((start.next plainCodec minuteLink).next plainCodec (.evict minuteLinkId)).links id =
        some x) ∧
      ∀ url limit draws snapshot expiresInSecs now response,
        (((start.next plainCodec minuteLink).next plainCodec
          (.evict minuteLinkId)).service.createShare plainCodec url limit draws snapshot
            expiresInSecs now).1 = .ok response →
          isValidShareId response.shareId = true ∧
            ((start.next plainCodec minuteLink).next plainCodec (.evict minuteLinkId)).links
              response.shareId = none ∧
            response.expiresAt = ShareService.expiry expiresInSecs now :=
  links_forever plainCodec [minuteLink] [.evict minuteLinkId] _ _ (.cons rfl (.nil _))
    (.cons rfl (.nil _))

end Tracked

end Core.Shares
