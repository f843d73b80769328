import Mathlib.Data.List.Sort
import SkyMoonScope.Lib.Bytes
import SkyMoonScope.Lib.Xdr

/-!
# The parser of contract arguments

A JSON value becomes a value of the contract host. The entries of an object become those of a map,
which are sorted by the XDR bytes of their keys.

## Main definitions

* `Value`, `ScVal`: JSON values, and those of the host
* `Libraries`: what the parser has from libraries
* `parseValue`: the parser
-/

namespace Core.ArgParser

/-! ## JSON values -/

/-- `serde_json::Number`. A number that is no integer is known by its text. -/
inductive Number
  | posInt (n : UInt64)
  | negInt (n : Int64)
  | float (text : String)

/-- `serde_json::Value`. -/
inductive Value
  | null
  | bool (b : Bool)
  | number (n : Number)
  | string (s : String)
  | array (arr : List Value)
  | object (obj : List (String × Value))

namespace Number

def asI64 : Number → Option Int64
  | posInt n => if n.toNat < 2 ^ 63 then some (Int64.ofNat n.toNat) else none
  | negInt n => some n
  | float _ => none

def asU64 : Number → Option UInt64
  | posInt n => some n
  | _ => none

def text : Number → String
  | posInt n => toString n
  | negInt n => toString n
  | float text => text

end Number

/-! ## Values of the host -/

inductive ScAddress
  | account (ed25519 : List UInt8)
  | contract (hash : List UInt8)

structure ScSymbol where
  bytes : List UInt8
  length_le : bytes.length ≤ 32

/-- The keys of a map are values, too. -/
inductive ScVal
  | void
  | bool (b : Bool)
  | i64 (n : Int64)
  | u64 (n : UInt64)
  | address (a : ScAddress)
  | symbol (s : ScSymbol)
  | bytes (bs : List UInt8)
  | string (s : List UInt8)
  | vec (vs : List ScVal)
  | map (entries : List (ScVal × ScVal))

def bytesOf (s : List Char) : List UInt8 := Utf8.encode s

def ScSymbol.ofChars (s : List Char) : Option ScSymbol :=
  if h : (bytesOf s).length ≤ 32 then some ⟨bytesOf s, h⟩ else none

/-! ## Libraries -/

inductive Strkey
  | contract (hash : List UInt8)
  | publicKeyEd25519 (key : List UInt8)
  | other

/-- The XDR bytes of a symbol: the discriminant, and the text. -/
def ScSymbol.xdr (s : ScSymbol) : List UInt8 := beBytes 4 15 ++ Xdr.encodeText s.bytes

structure Libraries where
  /-- `Strkey::from_string` -/
  strkeyFromString : String → Except String Strkey
  /-- `hex::decode` -/
  hexDecode : List Char → Except String (List UInt8)
  /-- `ScVal::to_xdr` -/
  toXdr : ScVal → Except String (List UInt8)
  toXdr_symbol : ∀ s : ScSymbol, toXdr (.symbol s) = .ok s.xdr

/-! ## The parser -/

inductive ParserError
  | invalidType (location expected found : String)
  | invalidSymbol (location details : String)
  | invalidHex (location details : String)
  deriving DecidableEq, Repr

variable (L : Libraries)

def parseAddress (address : String) : Except String ScAddress :=
  match L.strkeyFromString address with
  | .error e => .error e
  | .ok (.contract hash) => .ok (.contract hash)
  | .ok (.publicKeyEd25519 key) => .ok (.account key)
  | .ok .other => .error "Unsupported address type"

def parseNumber (n : Number) (path : String) : Except ParserError ScVal :=
  match n.asI64 with
  | some i => .ok (.i64 i)
  | none =>
    match n.asU64 with
    | some u => .ok (.u64 u)
    | none => .error (.invalidType path "integer" s!"number {n.text}")

/-- A string that is no address: a symbol, bytes or a string. -/
def parseText (s : List Char) (path : String) : Except ParserError ScVal :=
  match s with
  | ':' :: symStr =>
    match ScSymbol.ofChars symStr with
    | some sym => .ok (.symbol sym)
    | none => .error (.invalidSymbol path "Symbol must be 1-32 characters")
  | '0' :: 'x' :: hexStr =>
    match L.hexDecode hexStr with
    | .error e => .error (.invalidHex path e)
    | .ok bytes =>
      if bytes.length < 2 ^ 32 then .ok (.bytes bytes)
      else .error (.invalidHex path "Bytes exceed maximum allowed size")
  | s =>
    if (bytesOf s).length < 2 ^ 32 then .ok (.string (bytesOf s))
    else .error (.invalidType path "shorter string" "string length exceeds limit")

def parseString (s : String) (path : String) : Except ParserError ScVal :=
  if (s.toList.head? = some 'G' ∨ s.toList.head? = some 'C') ∧ (bytesOf s.toList).length = 56 then
    match parseAddress L s with
    | .ok addr => .ok (.address addr)
    | .error _ => parseText L s.toList path
  else parseText L s.toList path

/-- The entries of a map, sorted by the XDR bytes of their keys. -/
def sortEntries (entries : List (ScVal × ScVal)) : List (ScVal × ScVal) :=
  entries.insertionSort fun a b => (L.toXdr a.1).toOption.getD [] ≤ (L.toXdr b.1).toOption.getD []

mutual

def parseValue : Value → String → Except ParserError ScVal
  | .null, _ => .ok .void
  | .bool b, _ => .ok (.bool b)
  | .number n, path => parseNumber n path
  | .string s, path => parseString L s path
  | .array arr, path => do
    let vec ← parseElements arr path 0
    if vec.length < 2 ^ 32 then return .vec vec
    else .error (.invalidType path "shorter vector" "vector size exceeds limit")
  | .object obj, path => do
    let entries ← parseEntries obj path
    if (sortEntries L entries).length < 2 ^ 32 then return .map (sortEntries L entries)
    else .error (.invalidType path "smaller map" "map size exceeds limit")

/-- The loop over the elements of an array; the next one is at index `i`. -/
def parseElements : List Value → String → ℕ → Except ParserError (List ScVal)
  | [], _, _ => .ok []
  | v :: vs, path, i => do
    let w ← parseValue v s!"{path}[{i}]"
    let ws ← parseElements vs path (i + 1)
    return w :: ws

/-- The loop over the entries of an object. -/
def parseEntries : List (String × Value) → String → Except ParserError (List (ScVal × ScVal))
  | [], _ => .ok []
  | e :: es, path => do
    let entry ← parseEntry e path
    let entries ← parseEntries es path
    return entry :: entries

def parseEntry : String × Value → String → Except ParserError (ScVal × ScVal)
  | (k, v), path =>
    match ScSymbol.ofChars k.toList with
    | none => .error (.invalidSymbol s!"{path}.{k}" "Key name too long for symbol")
    | some key => do
      let val ← parseValue v s!"{path}.{k}"
      return (.symbol key, val)

end

end Core.ArgParser
