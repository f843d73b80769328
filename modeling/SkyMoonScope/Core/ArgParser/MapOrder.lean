import Mathlib.Data.List.Pairwise
import SkyMoonScope.Core.ArgParser.Parser

/-!
# The order of the keys of maps

The host wants the keys of a map in the order of their characters. The parser sorts them by their
XDR bytes, in which the length of a key comes before its characters, so that a short key comes
before a long one whatever its characters are.

## Main definitions

* `Value.Inside`, `ScVal.Inside`: what is inside of a value, at any depth
* `Json`: the values in which no object has a key twice
* `HostValid`: every map has its keys in the order of the host
* `ShortKeysFirst`: in every object, of two keys the shorter one comes first in that order

## Main results

* `xdr_lt_iff`: the order of the XDR bytes of symbols
* `increasing_sortEntries_iff`: when the sorted entries have their keys in the order of the host
* `hostValid_iff`: just when the shorter keys come first, all maps are valid
-/

namespace Core.ArgParser

/-! ## What is inside of a value -/

inductive Value.Inside (u : Value) : Value → Prop
  | refl : Inside u u
  | array {v : Value} {arr : List Value} (hv : v ∈ arr) (h : Inside u v) : Inside u (.array arr)
  | object {e : String × Value} {obj : List (String × Value)} (he : e ∈ obj) (h : Inside u e.2) :
    Inside u (.object obj)

inductive ScVal.Inside (u : ScVal) : ScVal → Prop
  | refl : Inside u u
  | vec {v : ScVal} {vs : List ScVal} (hv : v ∈ vs) (h : Inside u v) : Inside u (.vec vs)
  | key {e : ScVal × ScVal} {entries : List (ScVal × ScVal)} (he : e ∈ entries)
    (h : Inside u e.1) : Inside u (.map entries)
  | val {e : ScVal × ScVal} {entries : List (ScVal × ScVal)} (he : e ∈ entries)
    (h : Inside u e.2) : Inside u (.map entries)

/-- No object has a key twice. -/
def Value.DistinctKeys (v : Value) : Prop :=
  ∀ obj : List (String × Value), Inside (.object obj) v → (obj.map Prod.fst).Nodup

/-- The values of `serde_json`, whose objects are maps. -/
structure Json where
  value : Value
  distinctKeys : value.DistinctKeys

/-- The order of the host, among symbols. -/
def HostLt (x y : ScVal) : Prop :=
  ∃ s t : ScSymbol, x = .symbol s ∧ y = .symbol t ∧ s.bytes < t.bytes

def Increasing (entries : List (ScVal × ScVal)) : Prop := entries.Pairwise fun a b => HostLt a.1 b.1

/-- Every map has its keys in the order of the host. -/
def HostValid (v : ScVal) : Prop :=
  ∀ entries : List (ScVal × ScVal), ScVal.Inside (.map entries) v → Increasing entries

/-- Of two keys the shorter one comes first. -/
def ShorterFirst (obj : List (String × Value)) : Prop :=
  ∀ e ∈ obj, ∀ f ∈ obj, (bytesOf e.1.toList).length < (bytesOf f.1.toList).length →
    bytesOf e.1.toList < bytesOf f.1.toList

/-- In every object, of two keys the shorter one comes first. -/
def ShortKeysFirst (v : Value) : Prop :=
  ∀ obj : List (String × Value), Value.Inside (.object obj) v → ShorterFirst obj

variable {L : Libraries}

/-! ## Level by level -/

theorem Value.sizeOf_lt_of_mem_obj {e : String × Value} {obj : List (String × Value)}
    (he : e ∈ obj) : sizeOf e.2 < sizeOf obj := by
  have hlt := List.sizeOf_lt_of_mem he
  obtain ⟨k, v⟩ := e
  rw [Prod.mk.sizeOf_spec] at hlt
  dsimp only
  omega

/-- What holds of a value when it holds of what is directly inside of it holds of all values. -/
theorem Value.induct {motive : Value → Prop} (null : motive .null)
    (bool : ∀ b, motive (.bool b)) (number : ∀ n, motive (.number n))
    (string : ∀ s, motive (.string s)) (array : ∀ arr, (∀ v ∈ arr, motive v) → motive (.array arr))
    (object : ∀ obj, (∀ e ∈ obj, motive e.2) → motive (.object obj)) : ∀ v, motive v
  | .null => null
  | .bool b => bool b
  | .number n => number n
  | .string s => string s
  | .array arr => array arr fun v _ => induct null bool number string array object v
  | .object obj => object obj fun e he =>
    have := sizeOf_lt_of_mem_obj he
    induct null bool number string array object e.2

theorem hostValid_vec {vs : List ScVal} : HostValid (.vec vs) ↔ ∀ v ∈ vs, HostValid v := by
  constructor
  · intro h v hv entries hin
    exact h entries (.vec hv hin)
  · rintro h entries (- | ⟨hv, hin⟩)
    exact h _ hv entries hin

theorem hostValid_symbol (s : ScSymbol) : HostValid (.symbol s) := by
  rintro entries ⟨⟩

theorem hostValid_map {entries : List (ScVal × ScVal)}
    (hkeys : ∀ e ∈ entries, ∃ s : ScSymbol, e.1 = .symbol s) :
    HostValid (.map entries) ↔ Increasing entries ∧ ∀ e ∈ entries, HostValid e.2 := by
  constructor
  · intro h
    exact ⟨h entries .refl, fun e he inner hin => h inner (.val he hin)⟩
  · rintro ⟨hinc, hval⟩ inner (- | - | ⟨he, hin⟩ | ⟨he, hin⟩)
    · exact hinc
    · obtain ⟨s, hs⟩ := hkeys _ he
      rw [hs] at hin
      exact hostValid_symbol s inner hin
    · exact hval _ he inner hin

theorem shortKeysFirst_array {arr : List Value} :
    ShortKeysFirst (.array arr) ↔ ∀ v ∈ arr, ShortKeysFirst v := by
  constructor
  · intro h v hv obj hin
    exact h obj (.array hv hin)
  · rintro h obj (- | ⟨hv, hin⟩)
    exact h _ hv obj hin

theorem shortKeysFirst_object {obj : List (String × Value)} :
    ShortKeysFirst (.object obj) ↔ ShorterFirst obj ∧ ∀ e ∈ obj, ShortKeysFirst e.2 := by
  constructor
  · intro h
    exact ⟨h obj .refl, fun e he inner hin => h inner (.object he hin)⟩
  · rintro ⟨hshort, hval⟩ inner (- | - | ⟨he, hin⟩)
    · exact hshort
    · exact hval _ he inner hin

/-! ## The order of the entries -/

theorem xdr_lt_iff (s t : ScSymbol) :
    s.xdr < t.xdr ↔ s.bytes.length < t.bytes.length ∨
      s.bytes.length = t.bytes.length ∧ s.bytes < t.bytes := by
  have hs : s.bytes.length < 2 ^ 32 := Nat.lt_of_le_of_lt s.length_le (by decide)
  have ht : t.bytes.length < 2 ^ 32 := Nat.lt_of_le_of_lt t.length_le (by decide)
  rw [ScSymbol.xdr, ScSymbol.xdr, append_lt_append_iff rfl, Xdr.encodeText_lt_iff hs ht]
  simp only [List.lt_irrefl, false_or, true_and]

/-- An entry of a map stands for one of an object: its key is the symbol of these characters. -/
def KeyOf (e : String × Value) (entry : ScVal × ScVal) : Prop :=
  ∃ s : ScSymbol, entry.1 = .symbol s ∧ s.bytes = bytesOf e.1.toList

variable {obj : List (String × Value)} {entries : List (ScVal × ScVal)}

theorem exists_keyOf_of_mem (h : List.Forall₂ KeyOf obj entries) {entry : ScVal × ScVal}
    (hentry : entry ∈ entries) : ∃ e ∈ obj, KeyOf e entry := by
  induction h with
  | nil => cases hentry
  | @cons e entry' obj entries hkey _ ih =>
    rcases List.mem_cons.mp hentry with rfl | hentry
    · exact ⟨e, List.mem_cons_self, hkey⟩
    · obtain ⟨f, hf, hkey'⟩ := ih hentry
      exact ⟨f, List.mem_cons_of_mem e hf, hkey'⟩

theorem exists_mem_of_keyOf (h : List.Forall₂ KeyOf obj entries) {e : String × Value}
    (he : e ∈ obj) : ∃ entry ∈ entries, KeyOf e entry := by
  induction h with
  | nil => cases he
  | @cons e' entry obj entries hkey _ ih =>
    rcases List.mem_cons.mp he with rfl | he
    · exact ⟨entry, List.mem_cons_self, hkey⟩
    · obtain ⟨entry', hentry, hkey'⟩ := ih he
      exact ⟨entry', List.mem_cons_of_mem entry hentry, hkey'⟩

theorem bytesOf_injective : Function.Injective bytesOf := by
  intro s t h
  rw [← Utf8.decodeLossy_encode s, ← Utf8.decodeLossy_encode t]
  exact congrArg Utf8.decodeLossy h

/-- Keys that differ have symbols that differ. -/
theorem pairwise_ne_of_nodup (h : List.Forall₂ KeyOf obj entries)
    (hnodup : (obj.map Prod.fst).Nodup) : entries.Pairwise fun a b => a.1 ≠ b.1 := by
  induction h with
  | nil => exact .nil
  | @cons e entry obj entries hkey hrest ih =>
    rw [List.map_cons, List.nodup_cons] at hnodup
    refine .cons (fun entry' hentry' heq => ?_) (ih hnodup.2)
    obtain ⟨f, hf, t, ht, htbytes⟩ := exists_keyOf_of_mem hrest hentry'
    obtain ⟨s, hs, hsbytes⟩ := hkey
    obtain rfl : s = t := ScVal.symbol.inj (hs.symm.trans (heq.trans ht))
    have hchars := bytesOf_injective (hsbytes.symm.trans htbytes)
    exact hnodup.1 (List.mem_map.mpr ⟨f, hf, (String.toList_inj.mp hchars).symm⟩)

/-- The bytes that the entries are sorted by. -/
def sortKey (L : Libraries) (entry : ScVal × ScVal) : List UInt8 :=
  (L.toXdr entry.1).toOption.getD []

theorem sortKey_of_symbol {entry : ScVal × ScVal} {s : ScSymbol} (h : entry.1 = .symbol s) :
    sortKey L entry = s.xdr := by
  rw [sortKey, h, L.toXdr_symbol]
  rfl

theorem pairwise_sortEntries (L : Libraries) (entries : List (ScVal × ScVal)) :
    (sortEntries L entries).Pairwise fun a b => sortKey L a ≤ sortKey L b := by
  have htotal : Std.Total fun a b : ScVal × ScVal => sortKey L a ≤ sortKey L b :=
    ⟨fun a b => List.le_total (sortKey L a) (sortKey L b)⟩
  have htrans : IsTrans (ScVal × ScVal) fun a b => sortKey L a ≤ sortKey L b :=
    ⟨fun _ _ _ => List.le_trans⟩
  exact List.pairwise_insertionSort (fun a b => sortKey L a ≤ sortKey L b) entries

theorem mem_sortEntries {entry : ScVal × ScVal} :
    entry ∈ sortEntries L entries ↔ entry ∈ entries := List.mem_insertionSort _

/-- Of two elements one comes first. -/
theorem or_of_pairwise {α : Type*} {R : α → α → Prop} {l : List α} (h : l.Pairwise R) {a b : α}
    (ha : a ∈ l) (hb : b ∈ l) (hne : a ≠ b) : R a b ∨ R b a := by
  have hsymm : Std.Symm fun a b => R a b ∨ R b a := ⟨fun _ _ => Or.symm⟩
  have hboth : l.Pairwise fun a b => R a b ∨ R b a := h.imp .inl
  exact hboth.forall ha hb hne

/-- **The sorted entries have their keys in the order of the host** just when the shorter keys come
first. -/
theorem increasing_sortEntries_iff (h : List.Forall₂ KeyOf obj entries)
    (hnodup : (obj.map Prod.fst).Nodup) :
    Increasing (sortEntries L entries) ↔ ShorterFirst obj := by
  have hsorted := pairwise_sortEntries L entries
  constructor
  · intro hinc e he f hf hlt
    obtain ⟨a, ha, s, hs, hsbytes⟩ := exists_mem_of_keyOf h he
    obtain ⟨b, hb, t, ht, htbytes⟩ := exists_mem_of_keyOf h hf
    rw [← hsbytes, ← htbytes] at hlt ⊢
    have hne : a ≠ b := by
      rintro rfl
      rw [ScVal.symbol.inj (hs.symm.trans ht)] at hlt
      exact Nat.lt_irrefl _ hlt
    -- one of the two entries comes before the other, in both orders
    rcases or_of_pairwise (hinc.and hsorted) (mem_sortEntries.mpr ha) (mem_sortEntries.mpr hb) hne
      with ⟨⟨s', t', hs', ht', hlt'⟩, -⟩ | ⟨-, hle⟩
    · rw [ScVal.symbol.inj (hs.symm.trans hs'), ScVal.symbol.inj (ht.symm.trans ht')]
      exact hlt'
    · -- the longer one is not first where the lengths come first
      rw [sortKey_of_symbol hs, sortKey_of_symbol ht] at hle
      exact absurd ((xdr_lt_iff s t).mpr (.inl hlt)) (List.not_lt.mpr hle)
  · intro hshort
    have hne : (sortEntries L entries).Pairwise fun a b => a.1 ≠ b.1 :=
      ((List.perm_insertionSort _ entries).symm.pairwise_iff fun hab => Ne.symm hab).mp
        (pairwise_ne_of_nodup h hnodup)
    refine (hsorted.and hne).imp_of_mem fun {a b} ha hb ⟨hle, hab⟩ => ?_
    obtain ⟨e, he, s, hs, hsbytes⟩ := exists_keyOf_of_mem h (mem_sortEntries.mp ha)
    obtain ⟨f, hf, t, ht, htbytes⟩ := exists_keyOf_of_mem h (mem_sortEntries.mp hb)
    rw [sortKey_of_symbol hs, sortKey_of_symbol ht, ← List.not_lt, xdr_lt_iff, not_or,
      not_and] at hle
    refine ⟨s, t, hs, ht, ?_⟩
    rcases Nat.lt_or_ge s.bytes.length t.bytes.length with hlt | hge
    · rw [hsbytes, htbytes] at hlt ⊢
      exact hshort e he f hf hlt
    · -- keys of one length are in the order of their characters
      have hlen : t.bytes.length = s.bytes.length := Nat.le_antisymm hge (Nat.le_of_not_lt hle.1)
      rcases List.le_iff_lt_or_eq.mp (List.not_lt.mp (hle.2 hlen)) with hlt | heq
      · exact hlt
      · have hst : s = t := by
          obtain ⟨bytes, _⟩ := s
          obtain rfl : bytes = t.bytes := heq
          rfl
        exact absurd (hs.trans (hst ▸ ht.symm)) hab

/-! ## What is parsed -/

theorem exists_of_bind_eq_ok {ε α β : Type} {x : Except ε α} {f : α → Except ε β} {b : β}
    (h : (x >>= f) = .ok b) : ∃ a, x = .ok a ∧ f a = .ok b := by
  cases x with
  | error e => cases h
  | ok a => exact ⟨a, rfl, h⟩

/-- The elements of an array are parsed one by one. -/
theorem forall₂_of_parseElements {vs : List Value} {path : String} {i : ℕ} {ws : List ScVal}
    (h : parseElements L vs path i = .ok ws) :
    List.Forall₂ (fun v w => ∃ p, parseValue L v p = .ok w) vs ws := by
  induction vs generalizing i ws with
  | nil =>
    cases h
    exact .nil
  | cons v vs ih =>
    rw [parseElements] at h
    obtain ⟨w, hw, h⟩ := exists_of_bind_eq_ok h
    obtain ⟨ws', hws', h⟩ := exists_of_bind_eq_ok h
    cases h
    exact .cons ⟨_, hw⟩ (ih hws')

/-- An entry is parsed into one for the same key. -/
theorem keyOf_of_parseEntry {e : String × Value} {path : String} {entry : ScVal × ScVal}
    (h : parseEntry L e path = .ok entry) :
    KeyOf e entry ∧ ∃ p, parseValue L e.2 p = .ok entry.2 := by
  obtain ⟨k, v⟩ := e
  rw [parseEntry] at h
  split at h
  · cases h
  · rename_i key hkey
    obtain ⟨val, hval, h⟩ := exists_of_bind_eq_ok h
    cases h
    refine ⟨⟨key, rfl, ?_⟩, _, hval⟩
    rw [ScSymbol.ofChars] at hkey
    split at hkey
    · cases hkey
      rfl
    · cases hkey

/-- The entries of an object are parsed one by one. -/
theorem forall₂_of_parseEntries {es : List (String × Value)} {path : String}
    {entries : List (ScVal × ScVal)} (h : parseEntries L es path = .ok entries) :
    List.Forall₂ (fun e entry => KeyOf e entry ∧ ∃ p, parseValue L e.2 p = .ok entry.2)
      es entries := by
  induction es generalizing entries with
  | nil =>
    cases h
    exact .nil
  | cons e es ih =>
    rw [parseEntries] at h
    obtain ⟨entry, hentry, h⟩ := exists_of_bind_eq_ok h
    obtain ⟨entries', hentries', h⟩ := exists_of_bind_eq_ok h
    cases h
    exact .cons (keyOf_of_parseEntry hentry) (ih hentries')

/-- Something that holds of the elements just when it holds of what is parsed from them. -/
theorem forall_iff_of_forall₂ {α β : Type} {R : α → β → Prop} {p : α → Prop} {q : β → Prop}
    {as : List α} {bs : List β} (h : List.Forall₂ R as bs)
    (hpq : ∀ a ∈ as, ∀ b, R a b → (q b ↔ p a)) : (∀ b ∈ bs, q b) ↔ ∀ a ∈ as, p a := by
  induction h with
  | nil => simp
  | @cons a b as bs hab _ ih =>
    rw [List.forall_mem_cons, List.forall_mem_cons, hpq a List.mem_cons_self b hab,
      ih fun a' ha' => hpq a' (List.mem_cons_of_mem a ha')]

theorem Value.DistinctKeys.of_mem_array {v : Value} {arr : List Value}
    (h : Value.DistinctKeys (.array arr)) (hv : v ∈ arr) : v.DistinctKeys :=
  fun obj hin => h obj (.array hv hin)

theorem Value.DistinctKeys.of_mem_object {e : String × Value} {obj : List (String × Value)}
    (h : Value.DistinctKeys (.object obj)) (he : e ∈ obj) : e.2.DistinctKeys :=
  fun inner hin => h inner (.object he hin)

theorem hostValid_of_parseNumber {n : Number} {path : String} {w : ScVal}
    (h : parseNumber n path = .ok w) : HostValid w := by
  rw [parseNumber] at h
  split at h
  · cases h
    rintro entries ⟨⟩
  · split at h
    · cases h
      rintro entries ⟨⟩
    · cases h

theorem hostValid_of_parseText {s : List Char} {path : String} {w : ScVal}
    (h : parseText L s path = .ok w) : HostValid w := by
  rw [parseText.eq_def] at h
  split at h
  · -- a symbol
    split at h
    · cases h
      rintro entries ⟨⟩
    · cases h
  · -- bytes
    split at h
    · cases h
    · split at h
      · cases h
        rintro entries ⟨⟩
      · cases h
  · split at h
    · cases h
      rintro entries ⟨⟩
    · cases h

theorem hostValid_of_parseString {s path : String} {w : ScVal}
    (h : parseString L s path = .ok w) : HostValid w := by
  rw [parseString] at h
  split at h
  · split at h
    · cases h
      rintro entries ⟨⟩
    · exact hostValid_of_parseText h
  · exact hostValid_of_parseText h

/-- A value without objects has no keys. -/
theorem shortKeysFirst_leaf {v : Value} (hobj : ∀ obj, v ≠ .object obj)
    (harr : ∀ arr, v ≠ .array arr) : ShortKeysFirst v := by
  rintro obj (- | - | -)
  · exact absurd rfl (hobj obj)
  · exact absurd rfl (harr _)
  · exact absurd rfl (hobj _)

/-- All maps that come from a value are valid just when in its objects the shorter keys come
first. -/
theorem hostValid_iff_of_distinctKeys (v : Value) {path : String} {w : ScVal}
    (hv : v.DistinctKeys) (h : parseValue L v path = .ok w) : HostValid w ↔ ShortKeysFirst v := by
  induction v using Value.induct generalizing path w with
  | null =>
    cases h
    exact iff_of_true (by rintro entries ⟨⟩) (shortKeysFirst_leaf (by simp) (by simp))
  | bool b =>
    cases h
    exact iff_of_true (by rintro entries ⟨⟩) (shortKeysFirst_leaf (by simp) (by simp))
  | number n =>
    have hshort := shortKeysFirst_leaf (v := .number n) (by simp) (by simp)
    exact iff_of_true (hostValid_of_parseNumber h) hshort
  | string s =>
    have hshort := shortKeysFirst_leaf (v := .string s) (by simp) (by simp)
    exact iff_of_true (hostValid_of_parseString h) hshort
  | array arr ih =>
    rw [parseValue] at h
    obtain ⟨vec, hvec, h⟩ := exists_of_bind_eq_ok h
    split at h
    · cases h
      rw [hostValid_vec, shortKeysFirst_array]
      exact forall_iff_of_forall₂ (forall₂_of_parseElements hvec) fun v hmem w ⟨_, hw⟩ =>
        ih v hmem (hv.of_mem_array hmem) hw
    · cases h
  | object obj ih =>
    rw [parseValue] at h
    obtain ⟨entries, hentries, h⟩ := exists_of_bind_eq_ok h
    split at h
    · cases h
      have hparsed := forall₂_of_parseEntries hentries
      have hkeys : List.Forall₂ KeyOf obj entries := hparsed.imp fun _ _ => And.left
      have hsymbols : ∀ e ∈ sortEntries L entries, ∃ s : ScSymbol, e.1 = .symbol s := by
        intro e he
        obtain ⟨_, -, s, hs, -⟩ := exists_keyOf_of_mem hkeys (mem_sortEntries.mp he)
        exact ⟨s, hs⟩
      -- the map itself, and the values in it
      have hvals : (∀ e ∈ sortEntries L entries, HostValid e.2) ↔
          ∀ e ∈ obj, ShortKeysFirst e.2 := by
        simp only [mem_sortEntries]
        exact forall_iff_of_forall₂ hparsed fun e hmem _ ⟨_, _, hw⟩ =>
          ih e hmem (hv.of_mem_object hmem) hw
      rw [hostValid_map hsymbols, shortKeysFirst_object,
        increasing_sortEntries_iff hkeys (hv obj .refl), hvals]
    · cases h

/-- **All maps that come from a value are valid just when in its objects the shorter keys come
first.** -/
theorem hostValid_iff (L : Libraries) (json : Json) (path : String) (w : ScVal)
    (h : parseValue L json.value path = .ok w) : HostValid w ↔ ShortKeysFirst json.value :=
  hostValid_iff_of_distinctKeys json.value json.distinctKeys h

/-! ## Two objects -/

/-- Libraries that know symbols, and refuse all else. -/
def symbolLibraries : Libraries where
  strkeyFromString _ := .error "the strkey is invalid"
  hexDecode _ := .error "Odd number of digits"
  toXdr
    | .symbol s => .ok s.xdr
    | _ => .error "the value is invalid"
  toXdr_symbol _ := rfl

/-- An object with two keys and a number for each. -/
def pairJson (k k' : String) (h : k ≠ k') : Json where
  value := .object [(k, .number (.posInt 1)), (k', .number (.posInt 2))]
  distinctKeys := by
    rintro obj (- | - | ⟨he, hin⟩)
    · simpa using h
    · rcases List.mem_cons.mp he with rfl | he
      · cases hin
      · obtain rfl := List.mem_singleton.mp he
        cases hin

theorem hostValid_iff_a_bb :
    ∃ w, parseValue symbolLibraries (pairJson "a" "bb" (by decide)).value "$" = .ok w ∧
      (HostValid w ↔ ShortKeysFirst (pairJson "a" "bb" (by decide)).value) :=
  ⟨_, rfl, hostValid_iff symbolLibraries (pairJson "a" "bb" (by decide)) "$" _ rfl⟩

/-- The key `b` is shorter than `aa`, and comes behind it in the order of the host. -/
theorem not_hostValid_b_aa :
    ¬∀ w, parseValue symbolLibraries (pairJson "b" "aa" (by decide)).value "$" = .ok w →
      HostValid w := by
  intro h
  have hparse : ∃ w, parseValue symbolLibraries (pairJson "b" "aa" (by decide)).value "$" = .ok w :=
    ⟨_, rfl⟩
  obtain ⟨w, hw⟩ := hparse
  have hshort := (hostValid_iff_of_distinctKeys _
    (pairJson "b" "aa" (by decide)).distinctKeys hw).mp (h w hw)
  exact absurd (hshort _ .refl ("b", .number (.posInt 1)) List.mem_cons_self
    ("aa", .number (.posInt 2)) (List.mem_cons_of_mem _ List.mem_cons_self) (by decide +kernel))
    (by decide +kernel)

end Core.ArgParser
