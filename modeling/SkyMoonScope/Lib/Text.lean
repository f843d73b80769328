import Mathlib.Data.Int.Notation
import Mathlib.Data.List.Basic
import Mathlib.Data.UInt
import Mathlib.Tactic.IntervalCases

/-!
# Functions on text

The functions of Rust's `str` that the program uses, on the list of characters of a string.

## Main definitions

* `parseUnsigned bound`: a decimal number below `bound`, with at most one plus sign before it
* `parseSigned bound`: the same, or a negative number that is not below `-bound`
* `stripPrefix`, `trim`, `trimEndMatches`, `splitWhitespace`: parts of a text

## Main results

* `getLast?_splitWhitespace_append`: the last word of a text is the last word of what follows a
  blank, if there is one
* `parseUnsigned_eq_none`: a text with a letter is no number
* `append_cons_inj`, `toDigits_append_cons_inj`: where a text, or a number in it, ends
-/

namespace Text

/-- The characters with the Unicode property `White_Space`. -/
def isWhitespace (c : Char) : Bool :=
  (9 ≤ c.toNat && c.toNat ≤ 13) || (0x2000 ≤ c.toNat && c.toNat ≤ 0x200a) ||
    c.toNat ∈ [0x20, 0x85, 0xa0, 0x1680, 0x2028, 0x2029, 0x202f, 0x205f, 0x3000]

/-- The number that digits stand for, while it is below `bound`. -/
def parseDigits (bound : ℕ) (ds : List Char) : Option ℕ :=
  ds.foldlM (fun acc d =>
    if d.isDigit ∧ acc * 10 + (d.toNat - 48) < bound then some (acc * 10 + (d.toNat - 48))
    else none) 0

/-- `str::parse` of an unsigned integer type with the values below `bound`. -/
def parseUnsigned (bound : ℕ) : List Char → Option ℕ
  | [] => none
  | ['+'] => none
  | '+' :: ds => parseDigits bound ds
  | ds => parseDigits bound ds

/-- `str::parse` of a signed integer type with the values from `-bound` on and below `bound`. -/
def parseSigned (bound : ℕ) : List Char → Option ℤ
  | ['-'] => none
  | '-' :: ds => (parseDigits (bound + 1) ds).map fun n => -(n : ℤ)
  | s => (parseUnsigned bound s).map fun n => (n : ℤ)

/-- `str::strip_prefix`. -/
def stripPrefix (p s : List Char) : Option (List Char) :=
  if p.isPrefixOf s then some (s.drop p.length) else none

theorem stripPrefix_append (p s : List Char) : stripPrefix p (p ++ s) = some s := by
  simp [stripPrefix]

/-- Two texts that go on alike are cut at the same place, if up to there every character has the
property `p` that the one there does not have. -/
theorem append_cons_inj {p : Char → Prop} {x₁ x₂ z₁ z₂ : List Char} {a₁ a₂ : Char}
    (h₁ : ∀ c ∈ x₁, p c) (h₂ : ∀ c ∈ x₂, p c) (ha₁ : ¬p a₁) (ha₂ : ¬p a₂)
    (h : x₁ ++ a₁ :: z₁ = x₂ ++ a₂ :: z₂) : x₁ = x₂ ∧ a₁ = a₂ ∧ z₁ = z₂ := by
  induction x₁ generalizing x₂ with
  | nil =>
    cases x₂ with
    | nil => simpa using h
    | cons c x₂ =>
      rw [List.nil_append, List.cons_append, List.cons.injEq] at h
      exact absurd (h.1 ▸ h₂ c List.mem_cons_self) ha₁
  | cons c x₁ ih =>
    cases x₂ with
    | nil =>
      rw [List.nil_append, List.cons_append, List.cons.injEq] at h
      exact absurd (h.1 ▸ h₁ c List.mem_cons_self) ha₂
    | cons d x₂ =>
      rw [List.cons_append, List.cons_append, List.cons.injEq] at h
      obtain ⟨rfl, h⟩ := h
      obtain ⟨rfl, hz⟩ := ih (fun c hc => h₁ c (List.mem_cons_of_mem _ hc))
        (fun c hc => h₂ c (List.mem_cons_of_mem _ hc)) h
      exact ⟨rfl, hz⟩

/-- The digits of a number end where another character stands. -/
theorem toDigits_append_cons_inj {m n : ℕ} {x y : List Char} {c d : Char}
    (hc : c.isDigit = false) (hd : d.isDigit = false)
    (h : Nat.toDigits 10 m ++ c :: x = Nat.toDigits 10 n ++ d :: y) : m = n ∧ c = d ∧ x = y := by
  have hdigits : ∀ k, ∀ e ∈ Nat.toDigits 10 k, e.isDigit = true := fun k e he =>
    Nat.isDigit_of_mem_toDigits (by decide) (by decide) he
  obtain ⟨heq, hrest⟩ := append_cons_inj (hdigits m) (hdigits n) (by simp [hc]) (by simp [hd]) h
  refine ⟨?_, hrest⟩
  rw [← Nat.ofDigitChars_ten_toDigits (n := m), heq, Nat.ofDigitChars_ten_toDigits]

def trimEndMatches (p : Char → Bool) (s : List Char) : List Char :=
  (s.reverse.dropWhile p).reverse

def trim (s : List Char) : List Char :=
  trimEndMatches isWhitespace (s.dropWhile isWhitespace)

/-- The words of a text. -/
def splitWhitespace (s : List Char) : List (List Char) :=
  (s.splitOnP isWhitespace).filter fun w => w ≠ []

theorem splitWhitespace_append_cons (s t : List Char) {c : Char} (hc : isWhitespace c = true) :
    splitWhitespace (s ++ c :: t) = splitWhitespace s ++ splitWhitespace t := by
  rw [splitWhitespace, List.splitOnP_append_cons s t hc, List.filter_append]
  rfl

/-- **The last word** is the last one after a blank, if there is a word after it. -/
theorem getLast?_splitWhitespace_append (s : List Char) {t w : List Char} {c : Char}
    (hc : isWhitespace c = true) (hw : (splitWhitespace t).getLast? = some w) :
    (splitWhitespace (s ++ c :: t)).getLast? = some w := by
  rw [splitWhitespace_append_cons s t hc, List.getLast?_append, hw]
  rfl

theorem parseDigits_eq_none {bound : ℕ} {ds : List Char} (h : ∃ d ∈ ds, d.isDigit = false) :
    parseDigits bound ds = none := by
  unfold parseDigits
  generalize 0 = acc
  induction ds generalizing acc with
  | nil => simp at h
  | cons d ds ih =>
    rw [List.foldlM_cons]
    split
    case isTrue hd =>
      obtain ⟨d', hd', hnot⟩ := h
      rcases List.mem_cons.mp hd' with rfl | hd'
      · simp [hd.1] at hnot
      · exact ih ⟨d', hd', hnot⟩ _
    case isFalse => rfl

/-- A text with a letter is no number. -/
theorem parseUnsigned_eq_none {bound : ℕ} {s : List Char}
    (h : ∃ d ∈ s, d.isDigit = false ∧ d ≠ '+') : parseUnsigned bound s = none := by
  obtain ⟨d, hd, hdigit, hplus⟩ := h
  unfold parseUnsigned
  split
  · rfl
  · rfl
  · rcases List.mem_cons.mp hd with rfl | hd
    · exact absurd rfl hplus
    · exact parseDigits_eq_none ⟨d, hd, hdigit⟩
  · exact parseDigits_eq_none ⟨d, hd, hdigit⟩

example : splitWhitespace "HTTP  error: 503 ".toList =
    ["HTTP".toList, "error:".toList, "503".toList] := by decide

example : parseUnsigned (2 ^ 16) "+65535".toList = some 65535 ∧
    parseUnsigned (2 ^ 16) "65536".toList = none := by decide

example : parseSigned (2 ^ 7) "-128".toList = some (-128) ∧
    parseSigned (2 ^ 7) "128".toList = none := by decide

end Text

/-!
# Hexadecimal text

Bytes are written as two digits each, in lower case. Text is read in either case, so that several
texts stand for the same bytes.

## Main definitions

* `Hex.encode`: bytes as lower-case text
* `Hex.decode`: the bytes of a text in upper or lower case, if it is one

## Main results

* `decode_encode`: what is written is read back
* `decode_map_toUpper`: the case of the text does not matter
-/

namespace Hex

/-- The digit of a number below sixteen. -/
def digit (n : ℕ) : Char :=
  if n < 10 then Char.ofNat (48 + n) else Char.ofNat (87 + n)

/-- The number a digit stands for, in either case. -/
def value (c : Char) : Option ℕ :=
  if '0' ≤ c ∧ c ≤ '9' then some (c.toNat - 48)
  else if 'a' ≤ c ∧ c ≤ 'f' then some (c.toNat - 87)
  else if 'A' ≤ c ∧ c ≤ 'F' then some (c.toNat - 55)
  else none

def encode : List UInt8 → List Char
  | [] => []
  | b :: bs => digit (b.toNat / 16) :: digit (b.toNat % 16) :: encode bs

/-- Text of odd length, or with another character, stands for nothing. -/
def decode : List Char → Option (List UInt8)
  | [] => some []
  | [_] => none
  | c :: d :: cs => do
    let x ← value c
    let y ← value d
    let bs ← decode cs
    return UInt8.ofNat (16 * x + y) :: bs

theorem value_digit {n : ℕ} (h : n < 16) : value (digit n) = some n := by
  interval_cases n <;> rfl

/-- What is written is read back. -/
theorem decode_encode (bs : List UInt8) : decode (encode bs) = some bs := by
  induction bs with
  | nil => rfl
  | cons b bs ih =>
    have hb := b.toNat_lt
    have hbyte : UInt8.ofNat (16 * (b.toNat / 16) + b.toNat % 16) = b := by
      rw [Nat.div_add_mod, UInt8.ofNat_toNat]
    have hhigh := value_digit (show b.toNat / 16 < 16 by omega)
    have hlow := value_digit (show b.toNat % 16 < 16 by omega)
    rw [encode, decode, hhigh, hlow, ih]
    exact congrArg (fun x => some (x :: bs)) hbyte

/-- A digit is a character of one of three ranges. -/
theorem toNat_of_value {c : Char} {n : ℕ} (h : value c = some n) :
    48 ≤ c.toNat ∧ c.toNat ≤ 57 ∨ 97 ≤ c.toNat ∧ c.toNat ≤ 102 ∨
      65 ≤ c.toNat ∧ c.toNat ≤ 70 := by
  unfold value at h
  split at h
  case isTrue hc => exact .inl hc
  case isFalse =>
    split at h
    case isTrue hc => exact .inr (.inl hc)
    case isFalse =>
      split at h
      case isTrue hc => exact .inr (.inr hc)
      case isFalse => simp at h

theorem value_toUpper {c : Char} {n : ℕ} (h : value c = some n) : value c.toUpper = some n := by
  have hrange := toNat_of_value h
  rw [← h]
  obtain ⟨m, hm⟩ : ∃ m, m = c.toNat := ⟨_, rfl⟩
  obtain rfl : c = Char.ofNat m := by rw [hm, Char.ofNat_toNat]
  rw [← hm] at hrange
  rcases hrange with ⟨hlo, hhi⟩ | ⟨hlo, hhi⟩ | ⟨hlo, hhi⟩ <;> interval_cases m <;> rfl

/-- The case of the text does not matter. -/
theorem decode_map_toUpper {cs : List Char} {bs : List UInt8} (h : decode cs = some bs) :
    decode (cs.map Char.toUpper) = some bs := by
  fun_induction decode cs generalizing bs with
  | case1 => exact h
  | case2 => simp at h
  | case3 c d cs ih =>
    obtain ⟨x, hx, y, hy, bs', hbs, rfl⟩ :
        ∃ x, value c = some x ∧ ∃ y, value d = some y ∧ ∃ bs', decode cs = some bs' ∧
          UInt8.ofNat (16 * x + y) :: bs' = bs := by
      simpa [Option.bind_eq_some_iff] using h
    rw [List.map_cons, List.map_cons, decode, value_toUpper hx, value_toUpper hy, ih hbs]
    rfl

end Hex
