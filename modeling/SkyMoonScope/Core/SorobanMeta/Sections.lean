import SkyMoonScope.Core.SorobanMeta.Decoder

/-!
# The sections that the metadata is read from

The decoder ends on every byte string, and nothing it does can stop the program: each length is
checked against the bytes there are before it is used. Of a module whose sections are well formed it
reports the entries of the two kinds of sections it knows, in order, and nothing else.

## Main definitions

* `Section`, `Section.encode`: the well-formed sections, and their bytes
* `payloads`: the payloads of the custom sections of a name
* `Decodes`: the payloads that are made up of entries
* `reportOf`: the report of entries

## Main results

* `exists_decode`: there is a report
* `decode_sections`: the report of well-formed sections
* `decode_faithful`: both of these
-/

namespace Core.SorobanMeta

open Leb128

variable {τ : Type} {debug : τ → String} {metaReader : XdrReader ScMetaEntry}
  {specReader : XdrReader (ScSpecEntry τ)}

/-! ## Bounds -/

variable {bytes tail : List UInt8} {offset v n : ℕ}

/-- An integer is made of bytes that are there. -/
theorem bounds_of_readLeb128U32 (h : readLeb128U32 bytes offset = some (v, n)) :
    v < 2 ^ 32 ∧ 0 < n ∧ offset + n ≤ bytes.length := by
  obtain ⟨bs, hbs, -, hpre, rfl, rfl⟩ := readLeb128U32_eq_some_iff.mp h
  have hle := hpre.length_le
  have hpos := hbs.length_pos
  rw [List.length_drop] at hle
  exact ⟨Nat.mod_lt _ (by decide), hpos, by omega⟩

theorem plainUsize_of_lt {n : ℕ} (h : n < 2 ^ 64) : plainUsize n = .ok n := if_pos h

theorem subUsize_of_le {m n : ℕ} (h : n ≤ m) : subUsize m n = .ok (m - n) := if_pos h

theorem byteAt_of_lt {i : ℕ} (h : i < bytes.length) : byteAt bytes i = .ok bytes[i] := by
  rw [byteAt, List.getElem?_eq_getElem h]

theorem slice_of_le {i j : ℕ} (hij : i ≤ j) (hj : j ≤ bytes.length) :
    slice bytes i j = .ok ((bytes.drop i).take (j - i)) := if_pos ⟨hij, hj⟩

/-! ## What a round does -/

/-- The name of a custom section, when its length is read. -/
theorem readCustomSectionName_of_read (h : bytes.length < 2 ^ 63)
    (hread : readLeb128U32 bytes 0 = some (v, n)) :
    readCustomSectionName bytes = .ok (if bytes.length < n + v then .error (.truncatedSection n)
      else .ok (lossy ((bytes.drop n).take v), n + v)) := by
  obtain ⟨hv, -, hn⟩ := bounds_of_readLeb128U32 hread
  have hfit : n + v < 2 ^ 64 := by omega
  rw [readCustomSectionName, hread]
  simp only [plainUsize_of_lt hfit, Run.ok_bind]
  split
  · rfl
  · rename_i hend
    rw [slice_of_le (Nat.le_add_right n v) (Nat.le_of_not_lt hend), Nat.add_sub_cancel_left]
    rfl

/-- What is done with the section whose id is at the cursor. -/
def visit (debug : τ → String) (metaReader : XdrReader ScMetaEntry)
    (specReader : XdrReader (ScSpecEntry τ)) (id : UInt8) (contents : List UInt8)
    (report : SorobanMetaReport) : Run SorobanMetaReport :=
  if id = 0 then decodeCustomSection debug metaReader specReader contents report else .ok report

/-- A round of the walk, when the size of the section is read. -/
theorem walk_of_read {wasm : List UInt8} {cursor rounds : ℕ} {report : SorobanMetaReport}
    (h : wasm.length < 2 ^ 63) (hcursor : cursor < wasm.length)
    (hread : readLeb128U32 wasm (cursor + 1) = some (v, n))
    (hend : cursor + 1 + n + v ≤ wasm.length) :
    walk debug metaReader specReader wasm (rounds + 1) cursor report =
      (visit debug metaReader specReader wasm[cursor] ((wasm.drop (cursor + 1 + n)).take v)
        report).bind (walk debug metaReader specReader wasm rounds (cursor + 1 + n + v)) := by
  rw [walk, if_pos hcursor, byteAt_of_lt hcursor]
  have hone : cursor + 1 < 2 ^ 64 := by omega
  have hstart : cursor + 1 + n < 2 ^ 64 := by omega
  have hfit : cursor + 1 + n + v < 2 ^ 64 := by omega
  simp only [Run.ok_bind, plainUsize_of_lt hone, hread, plainUsize_of_lt hstart,
    plainUsize_of_lt hfit, if_neg (Nat.not_lt_of_le hend),
    slice_of_le (Nat.le_add_right _ v) hend, Nat.add_sub_cancel_left, visit]
  split <;> rfl

/-! ## There is a report -/

/-- Every entry takes a byte, so that the loop over the entries ends. -/
theorem exists_decodeEntries {α : Type} {reader : XdrReader α} {sectionName : String}
    {dispatch : α → SorobanMetaReport → SorobanMetaReport} {rounds position : ℕ}
    (h : bytes.length - position < rounds) (report : SorobanMetaReport) :
    ∃ r, decodeEntries reader sectionName dispatch bytes rounds position report = .ok r := by
  induction rounds generalizing position report with
  | zero => exact absurd h (Nat.not_lt_zero _)
  | succ rounds ih =>
    rw [decodeEntries]
    split
    · exact ⟨_, rfl⟩
    · split
      · rename_i entry n hread
        have hpos := reader.consumed_pos hread
        exact ih (by omega) _
      · exact ⟨_, rfl⟩

theorem exists_decodeCustomSection (h : bytes.length < 2 ^ 63) (report : SorobanMetaReport) :
    ∃ r, decodeCustomSection debug metaReader specReader bytes report = .ok r := by
  rw [decodeCustomSection]
  rcases hread : readLeb128U32 bytes 0 with - | ⟨nameLen, nameStart⟩
  · rw [readCustomSectionName, hread]
    exact ⟨_, rfl⟩
  · rw [readCustomSectionName_of_read h hread, Run.ok_bind]
    by_cases hend : bytes.length < nameStart + nameLen
    · rw [if_pos hend]
      exact ⟨_, rfl⟩
    · rw [if_neg hend]
      simp only [slice_of_le (Nat.le_of_not_lt hend) (Nat.le_refl _), Run.ok_bind]
      split_ifs
      · exact exists_decodeEntries (Nat.lt_succ_self _) report
      · exact exists_decodeEntries (Nat.lt_succ_self _) report
      · exact ⟨_, rfl⟩

theorem exists_visit (h : bytes.length < 2 ^ 63) (id : UInt8) (report : SorobanMetaReport) :
    ∃ r, visit debug metaReader specReader id bytes report = .ok r := by
  rw [visit]
  split_ifs
  · exact exists_decodeCustomSection h report
  · exact ⟨_, rfl⟩

/-- Every section takes a byte, so that the walk ends. -/
theorem exists_walk {wasm : List UInt8} {rounds cursor : ℕ} (h : wasm.length < 2 ^ 63)
    (hrounds : wasm.length - cursor < rounds) (report : SorobanMetaReport) :
    ∃ r, walk debug metaReader specReader wasm rounds cursor report = .ok r := by
  induction rounds generalizing cursor report with
  | zero => exact absurd hrounds (Nat.not_lt_zero _)
  | succ rounds ih =>
    by_cases hcursor : cursor < wasm.length
    · rcases hread : readLeb128U32 wasm (cursor + 1) with - | ⟨size, lebLen⟩
      · rw [walk, if_pos hcursor, byteAt_of_lt hcursor]
        have hone : cursor + 1 < 2 ^ 64 := by omega
        simp only [Run.ok_bind, plainUsize_of_lt hone, hread]
        exact ⟨_, rfl⟩
      · obtain ⟨hsize, hleb, hle⟩ := bounds_of_readLeb128U32 hread
        by_cases hend : cursor + 1 + lebLen + size ≤ wasm.length
        · -- the section is visited, and the walk goes on behind it
          have hshort : ((wasm.drop (cursor + 1 + lebLen)).take size).length < 2 ^ 63 := by
            rw [List.length_take, List.length_drop]
            omega
          obtain ⟨r, hr⟩ : ∃ r, visit debug metaReader specReader wasm[cursor]
              ((wasm.drop (cursor + 1 + lebLen)).take size) report = .ok r :=
            exists_visit hshort wasm[cursor] report
          rw [walk_of_read h hcursor hread hend, hr]
          exact ih (by omega) r
        · rw [walk, if_pos hcursor, byteAt_of_lt hcursor]
          have hone : cursor + 1 < 2 ^ 64 := by omega
          have hstart : cursor + 1 + lebLen < 2 ^ 64 := by omega
          have hfit : cursor + 1 + lebLen + size < 2 ^ 64 := by omega
          simp only [Run.ok_bind, plainUsize_of_lt hone, hread, plainUsize_of_lt hstart,
            plainUsize_of_lt hfit, if_pos (Nat.lt_of_not_le hend), subUsize_of_le hle]
          exact ⟨_, rfl⟩
    · rw [walk, if_neg hcursor]
      exact ⟨_, rfl⟩

/-- **There is a report**, whatever the bytes are. -/
theorem exists_decode {wasm : List UInt8} (h : wasm.length < 2 ^ 63) :
    ∃ r, decode debug metaReader specReader wasm = .ok r := by
  rw [decode]
  split_ifs
  · exact ⟨_, rfl⟩
  · exact exists_walk h (by omega) _

/-! ## Well-formed sections -/

/-- A custom section: its size and the length of its name are integers of 32 bits. -/
structure CustomSection where
  size : Unsigned 32
  nameLen : Unsigned 32
  name : String
  payload : List UInt8
  nameLen_eq : (Utf8.encode name.toList).length = nameLen.toNat
  size_eq : (nameLen.bytes ++ Utf8.encode name.toList ++ payload).length = size.toNat

/-- A section of another kind. -/
structure OtherSection where
  id : UInt8
  size : Unsigned 32
  contents : List UInt8
  id_ne_zero : id ≠ 0
  size_eq : contents.length = size.toNat

inductive Section
  | custom (c : CustomSection)
  | other (o : OtherSection)

def CustomSection.contents (c : CustomSection) : List UInt8 :=
  c.nameLen.bytes ++ Utf8.encode c.name.toList ++ c.payload

namespace Section

def id : Section → UInt8
  | custom _ => 0
  | other o => o.id

def size : Section → Unsigned 32
  | custom c => c.size
  | other o => o.size

def contents : Section → List UInt8
  | custom c => c.contents
  | other o => o.contents

/-- The bytes of a section. -/
def encode (s : Section) : List UInt8 := s.id :: s.size.bytes ++ s.contents

theorem length_contents (s : Section) : s.contents.length = s.size.toNat := by
  cases s with
  | custom c => exact c.size_eq
  | other o => exact o.size_eq

/-- The payload of a custom section of the name. -/
def payload? (name : String) : Section → Option (List UInt8)
  | custom c => if c.name = name then some c.payload else none
  | other _ => none

end Section

/-- The bytes of a module. The version is not looked at. -/
def encodeModule (version : List UInt8) (sections : List Section) : List UInt8 :=
  wasmMagic ++ version ++ sections.flatMap Section.encode

/-- The payloads of the custom sections of a name. -/
def payloads (name : String) (sections : List Section) : List (List UInt8) :=
  sections.filterMap (Section.payload? name)

/-- The payloads that are made up of entries, one behind the other. -/
inductive Decodes {α : Type} (reader : XdrReader α) : List UInt8 → List α → Prop
  | nil : Decodes reader [] []
  | cons {bs : List UInt8} {a : α} {n : ℕ} {as : List α} (h : reader.readXdr bs = .ok (a, n))
      (t : Decodes reader (bs.drop n) as) : Decodes reader bs (a :: as)

/-! ## The report of entries -/

def ContractMetaEntry.ofXdr : ScMetaEntry → Option ContractMetaEntry
  | .scMetaV0 key val => some ⟨lossy key, lossy val⟩
  | .unknown => none

def unknownWarning : ScMetaEntry → Option String
  | .scMetaV0 _ _ => none
  | .unknown => some "contractmetav0: unknown ScMetaEntry variant"

def SpecFunctionEntry.ofXdr (debug : τ → String) : ScSpecEntry τ → Option SpecFunctionEntry
  | .functionV0 f => some
    { name := lossy f.name
      doc := lossy f.doc
      inputs := f.inputs.map fun a => ⟨lossy a.name, debug a.type⟩
      outputs := f.outputs.map debug }
  | _ => none

def SpecTypeEntry.ofXdr : ScSpecEntry τ → Option SpecTypeEntry
  | .functionV0 _ => none
  | .udtStructV0 s => some ⟨"struct", lossy s.name, lossy s.doc⟩
  | .udtUnionV0 u => some ⟨"union", lossy u.name, lossy u.doc⟩
  | .udtEnumV0 e => some ⟨"enum", lossy e.name, lossy e.doc⟩
  | .udtErrorEnumV0 e => some ⟨"error_enum", lossy e.name, lossy e.doc⟩

/-- The report of entries of both kinds, in order. -/
def reportOf (debug : τ → String) (metas : List ScMetaEntry) (specs : List (ScSpecEntry τ)) :
    SorobanMetaReport where
  contractMeta := metas.filterMap ContractMetaEntry.ofXdr
  specFunctions := specs.filterMap (SpecFunctionEntry.ofXdr debug)
  specTypes := specs.filterMap SpecTypeEntry.ofXdr
  warnings := metas.filterMap unknownWarning
  errors := []

/-- One report behind the other. -/
def SorobanMetaReport.append (r r' : SorobanMetaReport) : SorobanMetaReport where
  contractMeta := r.contractMeta ++ r'.contractMeta
  specFunctions := r.specFunctions ++ r'.specFunctions
  specTypes := r.specTypes ++ r'.specTypes
  warnings := r.warnings ++ r'.warnings
  errors := r.errors ++ r'.errors

variable {metas metas' : List ScMetaEntry} {specs specs' : List (ScSpecEntry τ)}
  {report : SorobanMetaReport}

theorem SorobanMetaReport.append_assoc (r r' r'' : SorobanMetaReport) :
    (r.append r').append r'' = r.append (r'.append r'') := by
  simp only [append, List.append_assoc]

theorem SorobanMetaReport.empty_append (r : SorobanMetaReport) : empty.append r = r := rfl

theorem append_reportOf_nil : report.append (reportOf debug [] []) = report := by
  simp only [SorobanMetaReport.append, reportOf, List.filterMap_nil, List.append_nil]

theorem reportOf_append : reportOf debug (metas ++ metas') (specs ++ specs') =
    (reportOf debug metas specs).append (reportOf debug metas' specs') := by
  simp only [SorobanMetaReport.append, reportOf, List.filterMap_append, List.append_nil]

theorem dispatchMetaEntry_eq (debug : τ → String) (e : ScMetaEntry) :
    dispatchMetaEntry e report = report.append (reportOf debug [e] []) := by
  cases e <;>
    simp [dispatchMetaEntry, SorobanMetaReport.append, reportOf, SorobanMetaReport.pushMeta,
      SorobanMetaReport.warn, ContractMetaEntry.ofXdr, unknownWarning]

theorem dispatchSpecEntry_eq (debug : τ → String) (e : ScSpecEntry τ) :
    dispatchSpecEntry debug e report = report.append (reportOf debug [] [e]) := by
  cases e <;>
    simp [dispatchSpecEntry, SorobanMetaReport.append, reportOf, SorobanMetaReport.pushFunction,
      SorobanMetaReport.pushType, SpecFunctionEntry.ofXdr, SpecTypeEntry.ofXdr]

/-! ## The entries of a payload -/

/-- The entries of a payload are dispatched in order, up to its end. -/
theorem decodeEntries_of_decodes {α : Type} {reader : XdrReader α} {sectionName : String}
    {dispatch : α → SorobanMetaReport → SorobanMetaReport} {entries : List α}
    {rounds position : ℕ} (h : Decodes reader (bytes.drop position) entries)
    (hrounds : bytes.length - position < rounds) (report : SorobanMetaReport) :
    decodeEntries reader sectionName dispatch bytes rounds position report =
      .ok (entries.foldl (fun r e => dispatch e r) report) := by
  induction rounds generalizing position entries report with
  | zero => exact absurd hrounds (Nat.not_lt_zero _)
  | succ rounds ih =>
    rw [decodeEntries]
    generalize hdrop : bytes.drop position = rest at h
    cases h with
    | nil =>
      rw [List.drop_eq_nil_iff] at hdrop
      rw [if_pos hdrop]
      rfl
    | cons hread t =>
      have hpos := reader.consumed_pos hread
      have hle := reader.consumed_le hread
      rw [← hdrop, List.drop_drop] at t
      rw [← hdrop, List.length_drop] at hle
      -- an entry takes bytes, so that the payload is not at its end
      rw [if_neg (by omega), hread]
      exact ih t (by omega) _

theorem decodeEntries_of_decodes_all {α : Type} {reader : XdrReader α} {sectionName : String}
    {dispatch : α → SorobanMetaReport → SorobanMetaReport} {entries : List α}
    (h : Decodes reader bytes entries) (report : SorobanMetaReport) :
    decodeEntries reader sectionName dispatch bytes (bytes.length + 1) 0 report =
      .ok (entries.foldl (fun r e => dispatch e r) report) := by
  have hdrop : Decodes reader (bytes.drop 0) entries := h
  exact decodeEntries_of_decodes hdrop (by omega) report

theorem foldl_dispatchMetaEntry (debug : τ → String) :
    metas.foldl (fun r e => dispatchMetaEntry e r) report =
      report.append (reportOf debug metas []) := by
  induction metas generalizing report with
  | nil => exact append_reportOf_nil.symm
  | cons e metas ih =>
    rw [List.foldl_cons, ih, dispatchMetaEntry_eq debug, SorobanMetaReport.append_assoc,
      ← reportOf_append]
    rfl

theorem foldl_dispatchSpecEntry (debug : τ → String) :
    specs.foldl (fun r e => dispatchSpecEntry debug e r) report =
      report.append (reportOf debug [] specs) := by
  induction specs generalizing report with
  | nil => exact append_reportOf_nil.symm
  | cons e specs ih =>
    rw [List.foldl_cons, ih, dispatchSpecEntry_eq debug, SorobanMetaReport.append_assoc,
      ← reportOf_append]
    rfl

theorem decodeMetaSection_of_decodes (debug : τ → String) (h : Decodes metaReader bytes metas) :
    decodeMetaSection metaReader bytes report = .ok (report.append (reportOf debug metas [])) := by
  rw [decodeMetaSection, decodeEntries_of_decodes_all h,
    foldl_dispatchMetaEntry debug]

theorem decodeSpecSection_of_decodes (h : Decodes specReader bytes specs) :
    decodeSpecSection debug specReader bytes report =
      .ok (report.append (reportOf debug [] specs)) := by
  rw [decodeSpecSection, decodeEntries_of_decodes_all h, foldl_dispatchSpecEntry]

/-! ## The walk over well-formed sections -/

theorem CustomSection.length_lt (c : CustomSection) : c.contents.length < 2 ^ 63 := by
  have hlt := c.size.value_lt
  rw [contents, c.size_eq, Unsigned.toNat]
  omega

/-- The name and the payload of a custom section are told apart. -/
theorem decodeCustomSection_contents (c : CustomSection) :
    decodeCustomSection debug metaReader specReader c.contents report =
      if c.name = sectionContractMeta then decodeMetaSection metaReader c.payload report
      else if c.name = sectionContractSpec then decodeSpecSection debug specReader c.payload report
      else .ok report := by
  have hcontents :
      c.contents.drop 0 = c.nameLen.bytes ++ (Utf8.encode c.name.toList ++ c.payload) :=
    List.append_assoc _ _ _
  have hname : (c.contents.drop c.nameLen.bytes.length).take c.nameLen.toNat =
      Utf8.encode c.name.toList := by
    rw [CustomSection.contents, List.append_assoc, List.drop_left, ← c.nameLen_eq, List.take_left]
  have hstart : (c.nameLen.bytes ++ Utf8.encode c.name.toList).length =
      c.nameLen.bytes.length + c.nameLen.toNat := by
    rw [List.length_append, c.nameLen_eq]
  have hlen : c.contents.length = c.nameLen.bytes.length + c.nameLen.toNat + c.payload.length := by
    rw [CustomSection.contents, List.length_append, hstart]
  have hpayload : (c.contents.drop (c.nameLen.bytes.length + c.nameLen.toNat)).take
      (c.contents.length - (c.nameLen.bytes.length + c.nameLen.toNat)) = c.payload := by
    rw [hlen, Nat.add_sub_cancel_left, CustomSection.contents, ← hstart, List.drop_left,
      List.take_length]
  rw [decodeCustomSection, readCustomSectionName_of_read c.length_lt
    (readLeb128U32_of_drop c.nameLen hcontents), Run.ok_bind, if_neg (by omega), hname, lossy,
    Utf8.decodeLossy_encode, String.ofList_toList]
  have hle : c.nameLen.bytes.length + c.nameLen.toNat ≤ c.contents.length := by omega
  simp only [slice_of_le hle (Nat.le_refl _), Run.ok_bind, hpayload]
  rfl

/-- The section at the cursor is visited, and the walk goes on behind it. -/
theorem walk_section {wasm : List UInt8} {cursor rounds : ℕ} (h : wasm.length < 2 ^ 63)
    (s : Section) (hdrop : wasm.drop cursor = s.encode ++ tail) :
    walk debug metaReader specReader wasm (rounds + 1) cursor report =
      (visit debug metaReader specReader s.id s.contents report).bind
        (walk debug metaReader specReader wasm rounds (cursor + s.encode.length)) := by
  have hcons : wasm.drop cursor = s.id :: (s.size.bytes ++ (s.contents ++ tail)) := by
    rw [hdrop, Section.encode, List.cons_append, List.cons_append, List.append_assoc]
  have hrest := drop_succ_of_drop_cons hcons
  have hlength : wasm.length - cursor = s.encode.length + tail.length := by
    rw [← List.length_drop, hdrop, List.length_append]
  have hencode : s.encode.length = s.size.bytes.length + s.size.toNat + 1 := by
    rw [Section.encode, List.cons_append, List.length_cons, List.length_append, s.length_contents]
  have hcursor : cursor < wasm.length := by omega
  have hid : wasm[cursor] = s.id := by
    have hget := getElem?_of_drop_cons hcons
    rwa [List.getElem?_eq_getElem hcursor, Option.some.injEq] at hget
  have hcontents :
      (wasm.drop (cursor + 1 + s.size.bytes.length)).take s.size.toNat = s.contents := by
    rw [← List.drop_drop, hrest, List.drop_left, ← s.length_contents, List.take_left]
  rw [walk_of_read h hcursor (readLeb128U32_of_drop s.size hrest) (by omega), hid, hcontents,
    hencode]
  congr 2
  omega

theorem payloads_cons (name : String) (s : Section) (sections : List Section) :
    payloads name (s :: sections) = (s.payload? name).toList ++ payloads name sections := by
  rw [payloads, List.filterMap_cons]
  cases s.payload? name <;> rfl

/-- A section leaves the payloads of the others, and its own entries are reported. -/
theorem visit_section (debug : τ → String) (report : SorobanMetaReport) {s : Section}
    {sections : List Section} {ms : List (List ScMetaEntry)} {ss : List (List (ScSpecEntry τ))}
    (hm : List.Forall₂ (Decodes metaReader) (payloads sectionContractMeta (s :: sections)) ms)
    (hs : List.Forall₂ (Decodes specReader) (payloads sectionContractSpec (s :: sections)) ss) :
    ∃ m ms' p ss', ms.flatten = m ++ ms'.flatten ∧ ss.flatten = p ++ ss'.flatten ∧
      List.Forall₂ (Decodes metaReader) (payloads sectionContractMeta sections) ms' ∧
      List.Forall₂ (Decodes specReader) (payloads sectionContractSpec sections) ss' ∧
      visit debug metaReader specReader s.id s.contents report =
        .ok (report.append (reportOf debug m p)) := by
  rw [payloads_cons] at hm hs
  cases s with
  | other o =>
    refine ⟨[], ms, [], ss, rfl, rfl, hm, hs, ?_⟩
    rw [append_reportOf_nil]
    exact if_neg o.id_ne_zero
  | custom c =>
    have hvisit : visit debug metaReader specReader (Section.custom c).id
        (Section.custom c).contents report =
          decodeCustomSection debug metaReader specReader c.contents report := if_pos rfl
    simp only [hvisit, decodeCustomSection_contents]
    simp only [Section.payload?] at hm hs
    by_cases hmeta : c.name = sectionContractMeta
    · have hspec : c.name ≠ sectionContractSpec := by
        rw [hmeta]
        decide
      rw [if_pos hmeta] at hm
      rw [if_neg hspec] at hs
      cases hm with
      | cons hfirst hm =>
        rename_i m ms'
        refine ⟨m, ms', [], ss, rfl, rfl, hm, hs, ?_⟩
        rw [if_pos hmeta, decodeMetaSection_of_decodes debug hfirst]
    · rw [if_neg hmeta] at hm
      by_cases hspec : c.name = sectionContractSpec
      · rw [if_pos hspec] at hs
        cases hs with
        | cons hfirst hs =>
          rename_i p ss'
          refine ⟨[], ms, p, ss', rfl, rfl, hm, hs, ?_⟩
          rw [if_neg hmeta, if_pos hspec, decodeSpecSection_of_decodes hfirst]
      · rw [if_neg hspec] at hs
        refine ⟨[], ms, [], ss, rfl, rfl, hm, hs, ?_⟩
        rw [if_neg hmeta, if_neg hspec, append_reportOf_nil]

/-- The sections ahead are reported in order. -/
theorem walk_sections {wasm : List UInt8} (h : wasm.length < 2 ^ 63) {sections : List Section}
    {cursor rounds : ℕ} {ms : List (List ScMetaEntry)} {ss : List (List (ScSpecEntry τ))}
    (hdrop : wasm.drop cursor = sections.flatMap Section.encode)
    (hrounds : sections.length < rounds)
    (hm : List.Forall₂ (Decodes metaReader) (payloads sectionContractMeta sections) ms)
    (hs : List.Forall₂ (Decodes specReader) (payloads sectionContractSpec sections) ss) :
    walk debug metaReader specReader wasm rounds cursor report =
      .ok (report.append (reportOf debug ms.flatten ss.flatten)) := by
  induction sections generalizing cursor rounds ms ss report with
  | nil =>
    obtain ⟨m, rfl⟩ := Nat.exists_eq_succ_of_ne_zero (Nat.ne_of_gt hrounds)
    cases hm
    cases hs
    rw [walk, if_neg (Nat.not_lt_of_le (List.drop_eq_nil_iff.mp hdrop))]
    exact congrArg Except.ok append_reportOf_nil.symm
  | cons s sections ih =>
    obtain ⟨n, rfl⟩ := Nat.exists_eq_succ_of_ne_zero (Nat.ne_of_gt (Nat.lt_of_le_of_lt
      (Nat.zero_le _) hrounds))
    rw [List.flatMap_cons] at hdrop
    have hrest : wasm.drop (cursor + s.encode.length) = sections.flatMap Section.encode := by
      rw [← List.drop_drop, hdrop, List.drop_left]
    obtain ⟨m, ms', p, ss', hms, hss, hm', hs', hvisit⟩ :=
      visit_section debug report hm hs
    rw [Nat.succ_eq_add_one, walk_section h s hdrop, hvisit]
    -- the entries of the first section, and then those of the others
    calc (walk debug metaReader specReader wasm n (cursor + s.encode.length)
          (report.append (reportOf debug m p)))
        = .ok ((report.append (reportOf debug m p)).append
            (reportOf debug ms'.flatten ss'.flatten)) :=
          ih hrest (Nat.lt_of_succ_lt_succ hrounds) hm' hs'
      _ = .ok (report.append (reportOf debug ms.flatten ss.flatten)) := by
          rw [SorobanMetaReport.append_assoc, ← reportOf_append, hms, hss]

theorem length_le_length_flatMap_encode (sections : List Section) :
    sections.length ≤ (sections.flatMap Section.encode).length := by
  induction sections with
  | nil => exact Nat.le_refl _
  | cons s sections ih =>
    rw [List.flatMap_cons, List.length_append, Section.encode, List.cons_append, List.length_cons,
      List.length_cons]
    omega

/-- **The report of well-formed sections**: their entries in order, and nothing else. -/
theorem decode_sections {version : List UInt8} {sections : List Section}
    {ms : List (List ScMetaEntry)} {ss : List (List (ScSpecEntry τ))}
    (hversion : version.length = 4) (h : (encodeModule version sections).length < 2 ^ 63)
    (hm : List.Forall₂ (Decodes metaReader) (payloads sectionContractMeta sections) ms)
    (hs : List.Forall₂ (Decodes specReader) (payloads sectionContractSpec sections) ss) :
    decode debug metaReader specReader (encodeModule version sections) =
      .ok (reportOf debug ms.flatten ss.flatten) := by
  have hheader : (wasmMagic ++ version).length = 8 := by
    rw [List.length_append, hversion]
    rfl
  have hlength : (encodeModule version sections).length =
      8 + (sections.flatMap Section.encode).length := by
    rw [encodeModule, List.length_append, hheader]
  have hmagic : (encodeModule version sections).take 4 = wasmMagic := by
    rw [encodeModule, List.append_assoc]
    exact List.take_left' rfl
  have hdrop : (encodeModule version sections).drop 8 = sections.flatMap Section.encode := by
    rw [encodeModule, ← hheader, List.drop_left]
  have hsections := length_le_length_flatMap_encode sections
  have hcheck : ¬((encodeModule version sections).length < 8 ∨
      (encodeModule version sections).take 4 ≠ wasmMagic) := by
    rintro (hshort | hother)
    · omega
    · exact hother hmagic
  rw [decode, if_neg hcheck, walk_sections h hdrop (by omega) hm hs,
    SorobanMetaReport.empty_append]

/-- **There is a report whatever the bytes are, and that of well-formed sections is the one of their
entries.** -/
theorem decode_faithful (debug : τ → String) (metaReader : XdrReader ScMetaEntry)
    (specReader : XdrReader (ScSpecEntry τ)) :
    (∀ wasm : List UInt8, wasm.length < 2 ^ 63 →
      ∃ report, decode debug metaReader specReader wasm = .ok report) ∧
    ∀ (version : List UInt8) (sections : List Section) (ms : List (List ScMetaEntry))
      (ss : List (List (ScSpecEntry τ))), version.length = 4 →
      (encodeModule version sections).length < 2 ^ 63 →
      List.Forall₂ (Decodes metaReader) (payloads sectionContractMeta sections) ms →
      List.Forall₂ (Decodes specReader) (payloads sectionContractSpec sections) ss →
      decode debug metaReader specReader (encodeModule version sections) =
        .ok (reportOf debug ms.flatten ss.flatten) :=
  ⟨fun _ => exists_decode, fun _ _ _ _ => decode_sections⟩

/-! ## A module with two metadata sections -/

/-- The XDR bytes of the key `a` with the value `b`. -/
def abBytes : List UInt8 := [0, 0, 0, 0, 0, 0, 0, 1, 0x61, 0, 0, 0, 0, 0, 0, 1, 0x62, 0, 0, 0]

def abEntry : ScMetaEntry := .scMetaV0 [0x61] [0x62]

/-- A reader that knows one entry. -/
def abReader : XdrReader ScMetaEntry where
  readXdr bs := if abBytes <+: bs then .ok (abEntry, abBytes.length) else .error "xdr value invalid"
  consumed_pos h := by
    split at h
    · cases h
      decide
    · cases h
  consumed_le h := by
    split at h
    · rename_i hpre
      cases h
      exact hpre.length_le
    · cases h

/-- A reader that refuses everything. -/
def noReader : XdrReader (ScSpecEntry String) where
  readXdr _ := .error "xdr value invalid"
  consumed_pos h := by cases h
  consumed_le h := by cases h

def abSection : CustomSection where
  size := ⟨[35], by decide, by decide, by decide⟩
  nameLen := ⟨[14], by decide, by decide, by decide⟩
  name := sectionContractMeta
  payload := abBytes
  nameLen_eq := by decide +kernel
  size_eq := by decide +kernel

/-- A section of types, with no type in it. -/
def typeSection : OtherSection where
  id := 1
  size := ⟨[1], by decide, by decide, by decide⟩
  contents := [0]
  id_ne_zero := by decide
  size_eq := by decide

theorem decodes_abBytes : Decodes abReader abBytes [abEntry] := by
  have hread : abReader.readXdr abBytes = .ok (abEntry, abBytes.length) := by
    dsimp only [abReader]
    rw [if_pos (List.prefix_refl abBytes)]
  exact .cons hread .nil

theorem decode_faithful_ab :
    decode id abReader noReader
        (encodeModule [1, 0, 0, 0] [.custom abSection, .other typeSection, .custom abSection]) =
      .ok (reportOf id [abEntry, abEntry] []) :=
  (decode_faithful id abReader noReader).2 [1, 0, 0, 0]
    [.custom abSection, .other typeSection, .custom abSection] [[abEntry], [abEntry]] [] rfl
    (by decide +kernel) (.cons decodes_abBytes (.cons decodes_abBytes .nil)) .nil

end Core.SorobanMeta
