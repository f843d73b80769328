import SkyMoonScope.Core.SorobanMeta.Leb128
import SkyMoonScope.Lib.Bytes

/-!
# The decoder of contract metadata

A module is walked section by section. The entries of its custom sections `contractmetav0` and
`contractspecv0` are added to a report; whatever else it holds is passed over. What would stop the
program is a panic here, and so would be a walk that does not end.

## Main definitions

* `Run`: a result, or a panic
* `XdrReader`: the reader of one XDR entry, which is a library's
* `SorobanMetaReport`: what is found
* `decodeMetaSection`, `decodeSpecSection`, `decode`: the decoder
-/

namespace Core.SorobanMeta

/-! ## Panics -/

inductive Panic
  | overflow
  | outOfBounds
  | diverges
  deriving DecidableEq, Repr

abbrev Run (α : Type) := Except Panic α

theorem Run.ok_bind {α β : Type} (a : α) (f : α → Run β) : ((.ok a : Run α) >>= f) = f a := rfl

/-- A sum of `usize` values. -/
def plainUsize (n : ℕ) : Run ℕ := if n < 2 ^ 64 then .ok n else .error .overflow

/-- A difference of `usize` values. -/
def subUsize (m n : ℕ) : Run ℕ := if n ≤ m then .ok (m - n) else .error .overflow

def byteAt (bytes : List UInt8) (i : ℕ) : Run UInt8 :=
  match bytes[i]? with
  | some b => .ok b
  | none => .error .outOfBounds

/-- `&bytes[i..j]`. -/
def slice (bytes : List UInt8) (i j : ℕ) : Run (List UInt8) :=
  if i ≤ j ∧ j ≤ bytes.length then .ok ((bytes.drop i).take (j - i)) else .error .outOfBounds

/-! ## Entries -/

/-- The reader of an XDR entry from the bytes ahead: the entry and how many bytes it takes, or why
there is none. -/
structure XdrReader (α : Type) where
  readXdr : List UInt8 → Except String (α × ℕ)
  consumed_pos : ∀ {bs a n}, readXdr bs = .ok (a, n) → 0 < n
  consumed_le : ∀ {bs a n}, readXdr bs = .ok (a, n) → n ≤ bs.length

inductive ScMetaEntry
  | scMetaV0 (key val : List UInt8)
  | unknown

structure ScSpecFunctionInput (τ : Type) where
  name : List UInt8
  type : τ

structure ScSpecFunction (τ : Type) where
  doc : List UInt8
  name : List UInt8
  inputs : List (ScSpecFunctionInput τ)
  outputs : List τ

/-- What the decoder reads of a type. -/
structure ScSpecUdt where
  doc : List UInt8
  name : List UInt8

inductive ScSpecEntry (τ : Type)
  | functionV0 (f : ScSpecFunction τ)
  | udtStructV0 (s : ScSpecUdt)
  | udtUnionV0 (u : ScSpecUdt)
  | udtEnumV0 (e : ScSpecUdt)
  | udtErrorEnumV0 (e : ScSpecUdt)

/-! ## The report -/

inductive MetaDecodeError
  | notWasm
  | truncatedSection (offset : ℕ)
  | xdrError (sectionName detail : String)
  deriving DecidableEq, Repr

structure ContractMetaEntry where
  key : String
  value : String
  deriving DecidableEq, Repr

structure SpecFunctionArg where
  name : String
  typeDef : String
  deriving DecidableEq, Repr

structure SpecFunctionEntry where
  name : String
  doc : String
  inputs : List SpecFunctionArg
  outputs : List String
  deriving DecidableEq, Repr

structure SpecTypeEntry where
  kind : String
  name : String
  doc : String
  deriving DecidableEq, Repr

structure SorobanMetaReport where
  contractMeta : List ContractMetaEntry
  specFunctions : List SpecFunctionEntry
  specTypes : List SpecTypeEntry
  warnings : List String
  errors : List MetaDecodeError
  deriving DecidableEq, Repr

namespace SorobanMetaReport

def empty : SorobanMetaReport := ⟨[], [], [], [], []⟩

def pushMeta (e : ContractMetaEntry) (r : SorobanMetaReport) : SorobanMetaReport :=
  { r with contractMeta := r.contractMeta ++ [e] }

def pushFunction (f : SpecFunctionEntry) (r : SorobanMetaReport) : SorobanMetaReport :=
  { r with specFunctions := r.specFunctions ++ [f] }

def pushType (t : SpecTypeEntry) (r : SorobanMetaReport) : SorobanMetaReport :=
  { r with specTypes := r.specTypes ++ [t] }

def warn (w : String) (r : SorobanMetaReport) : SorobanMetaReport :=
  { r with warnings := r.warnings ++ [w] }

def fail (e : MetaDecodeError) (r : SorobanMetaReport) : SorobanMetaReport :=
  { r with errors := r.errors ++ [e] }

end SorobanMetaReport

/-! ## The decoder -/

def sectionContractMeta : String := "contractmetav0"
def sectionContractSpec : String := "contractspecv0"
def wasmMagic : List UInt8 := [0x00, 0x61, 0x73, 0x6D]

/-- `String::from_utf8_lossy`. -/
def lossy (bytes : List UInt8) : String := String.ofList (Utf8.decodeLossy bytes)

/-- The name of a custom section, and where its payload starts. -/
def readCustomSectionName (sectionBytes : List UInt8) :
    Run (Except MetaDecodeError (String × ℕ)) :=
  match readLeb128U32 sectionBytes 0 with
  | none => .ok (.error (.truncatedSection 0))
  | some (nameLen, nameStart) => do
    let nameEnd ← plainUsize (nameStart + nameLen)
    if sectionBytes.length < nameEnd then
      return .error (.truncatedSection nameStart)
    else
      let name ← slice sectionBytes nameStart nameEnd
      return .ok (lossy name, nameEnd)

/-- The loop over the entries of a payload: what is read is dispatched, and an error ends it. -/
def decodeEntries {α : Type} (reader : XdrReader α) (sectionName : String)
    (dispatch : α → SorobanMetaReport → SorobanMetaReport) (payload : List UInt8) :
    ℕ → ℕ → SorobanMetaReport → Run SorobanMetaReport
  | 0, _, _ => .error .diverges
  | rounds + 1, position, report =>
    if payload.length ≤ position then .ok report
    else
      match reader.readXdr (payload.drop position) with
      | .ok (entry, n) =>
        decodeEntries reader sectionName dispatch payload rounds (position + n)
          (dispatch entry report)
      | .error e => .ok (report.fail (.xdrError sectionName e))

def dispatchMetaEntry : ScMetaEntry → SorobanMetaReport → SorobanMetaReport
  | .scMetaV0 key val => .pushMeta ⟨lossy key, lossy val⟩
  | .unknown => .warn "contractmetav0: unknown ScMetaEntry variant"

def decodeMetaSection (reader : XdrReader ScMetaEntry) (payload : List UInt8) :
    SorobanMetaReport → Run SorobanMetaReport :=
  decodeEntries reader sectionContractMeta dispatchMetaEntry payload (payload.length + 1) 0

section

variable {τ : Type} (debug : τ → String)

/-- `debug` is the debug text of a type. -/
def dispatchSpecEntry : ScSpecEntry τ → SorobanMetaReport → SorobanMetaReport
  | .functionV0 f => .pushFunction
    { name := lossy f.name
      doc := lossy f.doc
      inputs := f.inputs.map fun a => ⟨lossy a.name, debug a.type⟩
      outputs := f.outputs.map debug }
  | .udtStructV0 s => .pushType ⟨"struct", lossy s.name, lossy s.doc⟩
  | .udtUnionV0 u => .pushType ⟨"union", lossy u.name, lossy u.doc⟩
  | .udtEnumV0 e => .pushType ⟨"enum", lossy e.name, lossy e.doc⟩
  | .udtErrorEnumV0 e => .pushType ⟨"error_enum", lossy e.name, lossy e.doc⟩

def decodeSpecSection (reader : XdrReader (ScSpecEntry τ)) (payload : List UInt8) :
    SorobanMetaReport → Run SorobanMetaReport :=
  decodeEntries reader sectionContractSpec (dispatchSpecEntry debug) payload (payload.length + 1) 0

variable (metaReader : XdrReader ScMetaEntry) (specReader : XdrReader (ScSpecEntry τ))

/-- What is done with a custom section. -/
def decodeCustomSection (sectionBytes : List UInt8) (report : SorobanMetaReport) :
    Run SorobanMetaReport := do
  match ← readCustomSectionName sectionBytes with
  | .error e => return report.fail e
  | .ok (name, payloadStart) =>
    let payload ← slice sectionBytes payloadStart sectionBytes.length
    if name = sectionContractMeta then decodeMetaSection metaReader payload report
    else if name = sectionContractSpec then decodeSpecSection debug specReader payload report
    else return report

/-- The section walk. -/
def walk (wasm : List UInt8) : ℕ → ℕ → SorobanMetaReport → Run SorobanMetaReport
  | 0, _, _ => .error .diverges
  | rounds + 1, cursor, report =>
    if cursor < wasm.length then do
      let sectionId ← byteAt wasm cursor
      let cursor ← plainUsize (cursor + 1)
      match readLeb128U32 wasm cursor with
      | none =>
        return report.warn s!"truncated LEB128 at offset {cursor}; stopping section walk"
      | some (sectionSize, lebLen) =>
        let cursor ← plainUsize (cursor + lebLen)
        let sectionEnd ← plainUsize (cursor + sectionSize)
        if wasm.length < sectionEnd then
          let remain ← subUsize wasm.length cursor
          return report.warn (s!"section at offset {cursor} claims {sectionSize} bytes but only "
            ++ s!"{remain} remain; stopping")
        else if sectionId = 0 then
          let sectionBytes ← slice wasm cursor sectionEnd
          let report ← decodeCustomSection debug metaReader specReader sectionBytes report
          walk wasm rounds sectionEnd report
        else walk wasm rounds sectionEnd report
    else return report

/-- `SorobanMetaDecoder::decode`. -/
def decode (wasm : List UInt8) : Run SorobanMetaReport :=
  if wasm.length < 8 ∨ wasm.take 4 ≠ wasmMagic then .ok (SorobanMetaReport.empty.fail .notWasm)
  else walk debug metaReader specReader wasm (wasm.length + 1) 8 .empty

end

end Core.SorobanMeta
