import Mathlib.Data.Set.Function
import SkyMoonScope.Lib.Text
import SkyMoonScope.Lib.JsonText
import SkyMoonScope.Lib.Sha256
import SkyMoonScope.Lib.Bytes

/-!
# The keys of simulation results

The result of a simulation is kept under the hash of a text: the contract id, the function name, the
arguments as a JSON list and, in one of the two kinds of keys, the network, with nothing between
them. Where the list begins and ends can be told in a text without a network, but not where the
contract id ends.

## Main definitions

* `Request`: what is simulated
* `generateKey`, `generateKeyWithNetwork`: the keys
* `Moves x y`: the function name of `x` begins with what the contract id of `y` has more
* `ArgsMove x y`: the function name of `y` goes on with what the arguments of `x` begin with

## Main results

* `text_eq_iff`, `networkText_eq_iff`: the requests with the same text
* `keys_faithful_iff`: when requests with the same key are the same
* `not_faithful_a_bc`: two requests with the same key
-/

namespace Core.Cache

open JsonText

structure Request where
  contractId : List Char
  functionName : List Char
  args : List (List Char)
  network : List Char
  deriving DecidableEq

/-- `hex::encode(Sha256::digest(input.as_bytes()))`. -/
def hashText (sha256 : List UInt8 → BytesN 32) (input : List Char) : List Char :=
  Hex.encode (sha256 (Utf8.encode input)).toList

def keyText (E : Escaping) (contractId functionName : List Char) (args : List (List Char)) :
    List Char := contractId ++ functionName ++ arrayText E args

/-- The list of arguments is always written, so that the text for one that is not is left out. -/
def generateKey (sha256 : List UInt8 → BytesN 32) (E : Escaping)
    (contractId functionName : List Char) (args : List (List Char)) : List Char :=
  hashText sha256 (keyText E contractId functionName args)

def networkKeyText (E : Escaping) (contractId functionName : List Char)
    (args : List (List Char)) (network : List Char) : List Char :=
  contractId ++ functionName ++ arrayText E args ++ network

def generateKeyWithNetwork (sha256 : List UInt8 → BytesN 32) (E : Escaping)
    (contractId functionName : List Char) (args : List (List Char)) (network : List Char) :
    List Char :=
  hashText sha256 (networkKeyText E contractId functionName args network)

namespace Request

variable (sha256 : List UInt8 → BytesN 32) (E : Escaping)

def text (x : Request) : List Char := keyText E x.contractId x.functionName x.args

def networkText (x : Request) : List Char :=
  networkKeyText E x.contractId x.functionName x.args x.network

def key (x : Request) : List Char := generateKey sha256 E x.contractId x.functionName x.args

def networkKey (x : Request) : List Char :=
  generateKeyWithNetwork sha256 E x.contractId x.functionName x.args x.network

/-- The function name begins with what the other contract id has more. -/
def Moves (x y : Request) : Prop :=
  ∃ w ≠ [], y.contractId = x.contractId ++ w ∧ x.functionName = w ++ y.functionName

/-- The other function name goes on with what the arguments begin with. -/
def ArgsMove (x y : Request) : Prop :=
  ∃ w ≠ [], y.contractId ++ y.functionName = x.contractId ++ x.functionName ++ w ∧
    arrayText E x.args ++ x.network = w ++ (arrayText E y.args ++ y.network)

/-- The strings that are hashed for two requests. -/
def hashed (x y : Request) : Set (List UInt8) :=
  {s | s ∈ [x.text E, y.text E, x.networkText E, y.networkText E].map Utf8.encode}

end Request

open Request

variable {sha256 : List UInt8 → BytesN 32} {E : Escaping} {x y : Request}

/-! ## Texts -/

theorem encode_injective : Function.Injective Utf8.encode := by
  intro s t h
  rw [← Utf8.decodeLossy_encode s, ← Utf8.decodeLossy_encode t, h]

theorem hexEncode_injective : Function.Injective Hex.encode := by
  intro s t h
  exact Option.some.inj ((Hex.decode_encode s).symm.trans ((congrArg Hex.decode h).trans
    (Hex.decode_encode t)))

/-- Hashes are those of the texts, where SHA-256 tells these apart. -/
theorem hashText_eq_iff {s t : List Char} {S : Set (List UInt8)} (hsha : Set.InjOn sha256 S)
    (hs : Utf8.encode s ∈ S) (ht : Utf8.encode t ∈ S) :
    hashText sha256 s = hashText sha256 t ↔ s = t := by
  constructor
  · intro h
    exact encode_injective (hsha hs ht (BytesN.ext (hexEncode_injective h)))
  · rintro rfl
    rfl

/-- Two names are joined to the same text in different ways just when a part moves. -/
theorem join_eq_iff :
    x.contractId ++ x.functionName = y.contractId ++ y.functionName ↔
      (x.contractId = y.contractId ∧ x.functionName = y.functionName) ∨ Moves x y ∨ Moves y x := by
  rw [List.append_eq_append_iff]
  constructor
  · rintro (⟨w, hid, hname⟩ | ⟨w, hid, hname⟩)
    · rcases eq_or_ne w [] with rfl | hw
      · exact .inl ⟨by rw [hid, List.append_nil], hname⟩
      · exact .inr (.inl ⟨w, hw, hid, hname⟩)
    · rcases eq_or_ne w [] with rfl | hw
      · exact .inl ⟨by rw [hid, List.append_nil], hname.symm⟩
      · exact .inr (.inr ⟨w, hw, hid, hname⟩)
  · rintro (⟨hid, hname⟩ | ⟨w, -, hid, hname⟩ | ⟨w, -, hid, hname⟩)
    · exact .inl ⟨[], by rw [hid, List.append_nil], hname⟩
    · exact .inl ⟨w, hid, hname⟩
    · exact .inr ⟨w, hid, hname⟩

/-- Requests with the same text have the same arguments, and the same names joined. -/
theorem text_eq_iff :
    x.text E = y.text E ↔
      x.contractId ++ x.functionName = y.contractId ++ y.functionName ∧ x.args = y.args := by
  constructor
  · exact append_arrayText_inj
  · rintro ⟨hjoin, hargs⟩
    rw [text, text, keyText, keyText, hjoin, hargs]

/-- Requests with the same text and network have the same names joined, or a part of the arguments
moves. -/
theorem networkText_eq_iff :
    x.networkText E = y.networkText E ↔
      (x.contractId ++ x.functionName = y.contractId ++ y.functionName ∧ x.args = y.args ∧
        x.network = y.network) ∨ ArgsMove E x y ∨ ArgsMove E y x := by
  rw [networkText, networkText, networkKeyText, networkKeyText, List.append_assoc,
    List.append_assoc (y.contractId ++ y.functionName), List.append_eq_append_iff]
  constructor
  · rintro (⟨w, hjoin, hrest⟩ | ⟨w, hjoin, hrest⟩)
    · rcases eq_or_ne w [] with rfl | hw
      · rw [List.append_nil] at hjoin
        exact .inl ⟨hjoin.symm, arrayText_append_inj hrest⟩
      · exact .inr (.inl ⟨w, hw, hjoin, hrest⟩)
    · rcases eq_or_ne w [] with rfl | hw
      · rw [List.append_nil] at hjoin
        exact .inl ⟨hjoin, arrayText_append_inj hrest.symm⟩
      · exact .inr (.inr ⟨w, hw, hjoin, hrest⟩)
  · rintro (⟨hjoin, hargs, hnetwork⟩ | ⟨w, -, hjoin, hrest⟩ | ⟨w, -, hjoin, hrest⟩)
    · exact .inl ⟨[], by rw [hjoin, List.append_nil], by rw [hargs, hnetwork, List.nil_append]⟩
    · exact .inl ⟨w, hjoin, hrest⟩
    · exact .inr ⟨w, hjoin, hrest⟩

/-! ## Keys -/

theorem contractId_ne_of_moves (h : Moves x y) : x.contractId ≠ y.contractId := by
  obtain ⟨w, hw, hid, -⟩ := h
  rw [hid]
  intro heq
  exact hw (List.append_cancel_left ((List.append_nil _).trans heq)).symm

theorem ne_of_argsMove (h : ArgsMove E x y) : x ≠ y := by
  obtain ⟨w, hw, hjoin, -⟩ := h
  rintro rfl
  exact hw (List.append_cancel_left ((List.append_nil _).trans hjoin)).symm

/-- **Requests with the same key are the same** just when no part of one name moves to the other,
and, where the network is part of the key, no part of the arguments moves either. -/
theorem keys_faithful_iff (sha256 : List UInt8 → BytesN 32) (E : Escaping) (x y : Request)
    (hsha : Set.InjOn sha256 (hashed E x y)) :
    ((x.key sha256 E = y.key sha256 E →
        x.contractId = y.contractId ∧ x.functionName = y.functionName ∧ x.args = y.args) ↔
      ¬(x.args = y.args ∧ (Moves x y ∨ Moves y x))) ∧
    ((x.networkKey sha256 E = y.networkKey sha256 E → x = y) ↔
      ¬(x.args = y.args ∧ x.network = y.network ∧ (Moves x y ∨ Moves y x)) ∧
        ¬ArgsMove E x y ∧ ¬ArgsMove E y x) := by
  have hx : Utf8.encode (x.text E) ∈ hashed E x y := by simp [hashed]
  have hy : Utf8.encode (y.text E) ∈ hashed E x y := by simp [hashed]
  have hkey : x.key sha256 E = y.key sha256 E ↔ x.text E = y.text E := hashText_eq_iff hsha hx hy
  have hx' : Utf8.encode (x.networkText E) ∈ hashed E x y := by simp [hashed]
  have hy' : Utf8.encode (y.networkText E) ∈ hashed E x y := by simp [hashed]
  have hnetwork : x.networkKey sha256 E = y.networkKey sha256 E ↔
      x.networkText E = y.networkText E :=
    hashText_eq_iff hsha hx' hy'
  constructor
  · rw [hkey, text_eq_iff, join_eq_iff]
    constructor
    · rintro h ⟨hargs, hmoves⟩
      have hid := (h ⟨.inr hmoves, hargs⟩).1
      rcases hmoves with hmoves | hmoves
      · exact contractId_ne_of_moves hmoves hid
      · exact contractId_ne_of_moves hmoves hid.symm
    · rintro h ⟨⟨hid, hname⟩ | hmoves, hargs⟩
      · exact ⟨hid, hname, hargs⟩
      · exact absurd ⟨hargs, hmoves⟩ h
  · rw [hnetwork, networkText_eq_iff, join_eq_iff]
    constructor
    · intro h
      refine ⟨?_, fun hmove => ne_of_argsMove hmove (h (.inr (.inl hmove))),
        fun hmove => ne_of_argsMove hmove (h (.inr (.inr hmove))).symm⟩
      rintro ⟨hargs, hnet, hmoves⟩
      obtain rfl := h (.inl ⟨.inr hmoves, hargs, hnet⟩)
      rcases hmoves with hmoves | hmoves
      · exact contractId_ne_of_moves hmoves rfl
      · exact contractId_ne_of_moves hmoves rfl
    · rintro ⟨hnames, hxy, hyx⟩ (⟨⟨hid, hname⟩ | hmoves, hargs, hnet⟩ | hmove | hmove)
      · obtain ⟨id, name, args, network⟩ := x
        obtain rfl : id = y.contractId := hid
        obtain rfl : name = y.functionName := hname
        obtain rfl : args = y.args := hargs
        obtain rfl : network = y.network := hnet
        rfl
      · exact absurd ⟨hargs, hnet, hmoves⟩ hnames
      · exact absurd hmove hxy
      · exact absurd hmove hyx

/-! ## Two requests -/

/-- Quotes and backslashes are behind a backslash, and all else stands for itself. -/
def slashEscaping : Escaping where
  escape c := if c = quote ∨ c = backslash then [backslash, c] else [c]
  plain_or_escaped c := by
    split
    · exact .inr ⟨c, [], rfl, List.not_mem_nil, List.not_mem_nil⟩
    · rename_i hc
      rw [not_or] at hc
      exact .inl ⟨rfl, hc⟩
  escape_append_inj {c d s t} h := by
    have hb : backslash = quote ∨ backslash = backslash := .inr rfl
    by_cases hc : c = quote ∨ c = backslash
    · by_cases hd : d = quote ∨ d = backslash
      · rw [if_pos hc, if_pos hd] at h
        exact ⟨(List.cons.inj (List.cons.inj h).2).1, (List.cons.inj (List.cons.inj h).2).2⟩
      · rw [if_pos hc, if_neg hd] at h
        exact absurd ((List.cons.inj h).1 ▸ hb) hd
    · by_cases hd : d = quote ∨ d = backslash
      · rw [if_neg hc, if_pos hd] at h
        exact absurd ((List.cons.inj h).1 ▸ hb) hc
      · rw [if_neg hc, if_neg hd] at h
        exact ⟨(List.cons.inj h).1, (List.cons.inj h).2⟩

/-- The contract `a` and its function `bc`. -/
def requestABc : Request := ⟨['a'], ['b', 'c'], [], []⟩

/-- The contract `ab` and its function `c`. -/
def requestAbC : Request := ⟨['a', 'b'], ['c'], [], []⟩

theorem keys_faithful_iff_a_bc :
    ((requestABc.key Sha256.hash slashEscaping = requestAbC.key Sha256.hash slashEscaping →
        requestABc.contractId = requestAbC.contractId ∧
          requestABc.functionName = requestAbC.functionName ∧ requestABc.args = requestAbC.args) ↔
      ¬(requestABc.args = requestAbC.args ∧
        (Moves requestABc requestAbC ∨ Moves requestAbC requestABc))) ∧
    ((requestABc.networkKey Sha256.hash slashEscaping =
        requestAbC.networkKey Sha256.hash slashEscaping → requestABc = requestAbC) ↔
      ¬(requestABc.args = requestAbC.args ∧ requestABc.network = requestAbC.network ∧
          (Moves requestABc requestAbC ∨ Moves requestAbC requestABc)) ∧
        ¬ArgsMove slashEscaping requestABc requestAbC ∧
        ¬ArgsMove slashEscaping requestAbC requestABc) := by
  refine keys_faithful_iff Sha256.hash slashEscaping requestABc requestAbC ?_
  -- it is the same text that is hashed in all four cases
  have hone : ∀ s ∈ hashed slashEscaping requestABc requestAbC,
      s = Utf8.encode (requestABc.text slashEscaping) := by
    intro s hs
    obtain ⟨t, ht, rfl⟩ := List.mem_map.mp hs
    simp only [List.mem_cons, List.not_mem_nil, or_false] at ht
    rcases ht with rfl | rfl | rfl | rfl <;> rfl
  intro s hs t ht _
  rw [hone s hs, hone t ht]

/-- The contract `a` with the function `bc` has the key of the contract `ab` with the function
`c`. -/
theorem not_faithful_a_bc :
    ¬(requestABc.key Sha256.hash slashEscaping = requestAbC.key Sha256.hash slashEscaping →
      requestABc.contractId = requestAbC.contractId) := by
  intro h
  have htext : requestABc.text slashEscaping = requestAbC.text slashEscaping := rfl
  exact absurd (h (congrArg (hashText Sha256.hash) htext)) (by decide)

end Core.Cache
