import Mathlib.Data.List.Infix

/-!
# JSON texts of lists of strings

A string is written between quotes. A character that is no quote and no backslash may stand for
itself, and what begins with a backslash stands for another one; nothing else is asked of how
characters are escaped than that they can be read back.

## Main definitions

* `JsonText.Escaping`: how the characters of a string are written
* `JsonText.arrayText`: the text of a list of strings

## Main results

* `arrayText_append_inj`: no text of a list is the beginning of another one
* `append_arrayText_inj`: no text of a list is the end of another one
-/

namespace JsonText

def quote : Char := Char.ofNat 34

def backslash : Char := Char.ofNat 92

/-- How the characters of a string are written. -/
structure Escaping where
  escape : Char → List Char
  plain_or_escaped : ∀ c, escape c = [c] ∧ c ≠ quote ∧ c ≠ backslash ∨
    ∃ d rest, escape c = backslash :: d :: rest ∧ quote ∉ rest ∧ backslash ∉ rest
  escape_append_inj : ∀ {c d s t}, escape c ++ s = escape d ++ t → c = d ∧ s = t

variable (E : Escaping)

def contents (s : List Char) : List Char := s.flatMap E.escape

def quoted (s : List Char) : List Char := quote :: (contents E s ++ [quote])

/-- What follows the first string of a list. -/
def tailText : List (List Char) → List Char
  | [] => [']']
  | s :: ss => ',' :: (quoted E s ++ tailText ss)

def arrayText : List (List Char) → List Char
  | [] => ['[', ']']
  | s :: ss => '[' :: (quoted E s ++ tailText E ss)

variable {E} {s t x y : List Char} {ss ts : List (List Char)}

/-! ## Beginnings -/

theorem escape_ne_quote (c : Char) : ∀ x y, E.escape c ++ x ≠ quote :: y := by
  intro x y h
  rcases E.plain_or_escaped c with ⟨hc, hne, -⟩ | ⟨d, rest, hc, -, -⟩
  · rw [hc] at h
    exact hne (List.cons.inj h).1
  · rw [hc] at h
    exact absurd (List.cons.inj h).1 (by decide)

theorem contents_append_inj (h : contents E s ++ quote :: x = contents E t ++ quote :: y) :
    s = t ∧ x = y := by
  induction s generalizing t with
  | nil =>
    cases t with
    | nil => exact ⟨rfl, (List.cons.inj h).2⟩
    | cons d t =>
      rw [contents, contents, List.flatMap_cons, List.append_assoc] at h
      exact absurd h.symm (escape_ne_quote d _ _)
  | cons c s ih =>
    rw [contents, List.flatMap_cons, List.append_assoc] at h
    cases t with
    | nil => exact absurd h (escape_ne_quote c _ _)
    | cons d t =>
      rw [contents, List.flatMap_cons, List.append_assoc] at h
      obtain ⟨rfl, hrest⟩ := E.escape_append_inj h
      obtain ⟨rfl, hxy⟩ := ih hrest
      exact ⟨rfl, hxy⟩

theorem quoted_append_inj (h : quoted E s ++ x = quoted E t ++ y) : s = t ∧ x = y := by
  simp only [quoted, List.cons_append, List.append_assoc, List.nil_append] at h
  exact contents_append_inj (List.cons.inj h).2

theorem tailText_append_inj (h : tailText E ss ++ x = tailText E ts ++ y) : ss = ts ∧ x = y := by
  induction ss generalizing ts with
  | nil =>
    cases ts with
    | nil => exact ⟨rfl, (List.cons.inj h).2⟩
    | cons t ts => exact absurd (List.cons.inj h).1 (by decide)
  | cons s ss ih =>
    cases ts with
    | nil => exact absurd (List.cons.inj h).1 (by decide)
    | cons t ts =>
      rw [tailText, tailText, List.cons_append, List.cons_append, List.append_assoc,
        List.append_assoc] at h
      obtain ⟨rfl, hrest⟩ := quoted_append_inj (List.cons.inj h).2
      obtain ⟨rfl, hxy⟩ := ih hrest
      exact ⟨rfl, hxy⟩

/-- **No text of a list is the beginning of another one.** -/
theorem arrayText_append_inj (h : arrayText E ss ++ x = arrayText E ts ++ y) :
    ss = ts ∧ x = y := by
  cases ss with
  | nil =>
    cases ts with
    | nil => exact ⟨rfl, List.append_cancel_left h⟩
    | cons t ts => exact absurd (List.cons.inj (List.cons.inj h).2).1 (by decide)
  | cons s ss =>
    cases ts with
    | nil => exact absurd (List.cons.inj (List.cons.inj h).2).1 (by decide)
    | cons t ts =>
      rw [arrayText, arrayText, List.cons_append, List.cons_append, List.append_assoc,
        List.append_assoc] at h
      obtain ⟨rfl, hrest⟩ := quoted_append_inj (List.cons.inj h).2
      obtain ⟨rfl, hxy⟩ := tailText_append_inj hrest
      exact ⟨rfl, hxy⟩

theorem arrayText_injective : Function.Injective (arrayText E) := by
  intro ss ts h
  exact (arrayText_append_inj (x := []) (y := []) (by rw [h])).1

/-! ## Ends -/

/-- Whether the number of quotes that are not escaped is odd; `escaped` says that the character
before the text is a backslash that escapes the next one. -/
def oddQuotes (escaped : Bool) : List Char → Bool
  | [] => false
  | c :: cs =>
    if escaped then oddQuotes false cs
    else if c = backslash then oddQuotes true cs
    else if c = quote then !oddQuotes false cs
    else oddQuotes false cs

theorem oddQuotes_cons_of_ne {c : Char} (hq : c ≠ quote) (hb : c ≠ backslash) (x : List Char) :
    oddQuotes false (c :: x) = oddQuotes false x := by
  simp only [oddQuotes, Bool.false_eq_true, if_false, if_neg hq, if_neg hb]

/-- Characters that are no quotes and no backslashes do not count. -/
theorem oddQuotes_append_of_notMem (hq : quote ∉ s) (hb : backslash ∉ s) (x : List Char) :
    oddQuotes false (s ++ x) = oddQuotes false x := by
  induction s with
  | nil => rfl
  | cons c s ih =>
    rw [List.mem_cons, not_or] at hq hb
    rw [List.cons_append, oddQuotes_cons_of_ne (Ne.symm hq.1) (Ne.symm hb.1), ih hq.2 hb.2]

theorem oddQuotes_escape (c : Char) (x : List Char) :
    oddQuotes false (E.escape c ++ x) = oddQuotes false x := by
  rcases E.plain_or_escaped c with ⟨hc, hq, hb⟩ | ⟨d, rest, hc, hq, hb⟩
  · rw [hc, List.singleton_append, oddQuotes_cons_of_ne hq hb]
  · rw [hc, List.cons_append, List.cons_append]
    exact oddQuotes_append_of_notMem hq hb x

theorem oddQuotes_contents (s x : List Char) :
    oddQuotes false (contents E s ++ x) = oddQuotes false x := by
  induction s with
  | nil => rfl
  | cons c s ih =>
    rw [contents, List.flatMap_cons, List.append_assoc, oddQuotes_escape]
    exact ih

theorem oddQuotes_quote (x : List Char) : oddQuotes false (quote :: x) = !oddQuotes false x := rfl

theorem oddQuotes_quoted (s x : List Char) :
    oddQuotes false (quoted E s ++ x) = oddQuotes false x := by
  rw [quoted, List.cons_append, oddQuotes_quote, List.append_assoc, oddQuotes_contents,
    List.singleton_append, oddQuotes_quote, Bool.not_not]

/-- The quotes of a list come in pairs. -/
theorem oddQuotes_tailText (ss : List (List Char)) : oddQuotes false (tailText E ss) = false := by
  induction ss with
  | nil => rfl
  | cons s ss ih =>
    rw [tailText, oddQuotes_cons_of_ne (by decide) (by decide), oddQuotes_quoted, ih]

theorem oddQuotes_arrayText (ss : List (List Char)) : oddQuotes false (arrayText E ss) = false := by
  cases ss with
  | nil => rfl
  | cons s ss =>
    rw [arrayText, oddQuotes_cons_of_ne (by decide) (by decide), oddQuotes_quoted,
      oddQuotes_tailText]

/-- The ends of a text are those of its second part, and those of its first with all of the
second. -/
theorem suffix_append_cases {α : Type*} {u a b : List α} (h : u <:+ a ++ b) :
    u <:+ b ∨ ∃ v, v <:+ a ∧ v ≠ [] ∧ u = v ++ b := by
  obtain ⟨p, h⟩ := h
  rcases List.append_eq_append_iff.mp h with ⟨w, ha, hu⟩ | ⟨w, -, hb⟩
  · rcases eq_or_ne w [] with rfl | hw
    · exact .inl ⟨[], hu⟩
    · exact .inr ⟨w, ⟨p, ha.symm⟩, hw, hu⟩
  · exact .inl ⟨w, hb.symm⟩

/-- A bracket in what a character is written as is the character itself, or behind a backslash. -/
theorem notMem_of_suffix_escape {c : Char} {w : List Char} (h : '[' :: w <:+ E.escape c) :
    quote ∉ w ∧ backslash ∉ w := by
  rcases E.plain_or_escaped c with ⟨hc, -, -⟩ | ⟨d, rest, hc, hq, hb⟩
  · have hle := h.length_le
    rw [hc, List.length_cons, List.length_singleton] at hle
    obtain rfl := List.length_eq_zero_iff.mp (Nat.le_zero.mp (Nat.le_of_succ_le_succ hle))
    exact ⟨List.not_mem_nil, List.not_mem_nil⟩
  · rw [hc, List.suffix_cons_iff, List.suffix_cons_iff] at h
    rcases h with h | h | h
    · exact absurd (List.cons.inj h).1 (by decide)
    · rw [(List.cons.inj h).2]
      exact ⟨hq, hb⟩
    · exact ⟨fun hw => hq (h.mem (List.mem_cons_of_mem _ hw)),
        fun hw => hb (h.mem (List.mem_cons_of_mem _ hw))⟩

/-- What begins with a bracket within the characters of a string has as many quotes as what
follows these. -/
theorem oddQuotes_of_suffix_contents {v : List Char} (h : '[' :: v <:+ contents E s)
    (x : List Char) : oddQuotes false ('[' :: v ++ x) = oddQuotes false x := by
  rw [List.cons_append, oddQuotes_cons_of_ne (by decide) (by decide)]
  induction s with
  | nil => exact absurd (List.suffix_nil.mp h) (List.cons_ne_nil _ _)
  | cons c s ih =>
    rw [contents, List.flatMap_cons] at h
    rcases suffix_append_cases h with h | ⟨w, hw, hne, heq⟩
    · exact ih h
    · obtain ⟨b, w, rfl⟩ := List.exists_cons_of_ne_nil hne
      obtain rfl := (List.cons.inj heq).1
      have hv : v = w ++ List.flatMap E.escape s := (List.cons.inj heq).2
      obtain ⟨hq, hb⟩ := notMem_of_suffix_escape hw
      rw [hv, List.append_assoc, oddQuotes_append_of_notMem hq hb]
      exact oddQuotes_contents s x

/-- What begins with a bracket within a string of a list has a quote too many. -/
theorem oddQuotes_of_suffix_quoted {u : List Char} {v : List Char}
    (h : '[' :: v <:+ quoted E s ++ u) (hu : ¬ '[' :: v <:+ u) :
    oddQuotes false ('[' :: v) = !oddQuotes false u := by
  rw [quoted, List.cons_append, List.suffix_cons_iff, List.append_assoc] at h
  rcases h with h | h
  · exact absurd (List.cons.inj h).1 (by decide)
  · rcases suffix_append_cases h with h | ⟨w, hw, hne, heq⟩
    · -- the closing quote is no bracket
      rw [List.singleton_append, List.suffix_cons_iff] at h
      rcases h with h | h
      · exact absurd (List.cons.inj h).1 (by decide)
      · exact absurd h hu
    · obtain ⟨b, w, rfl⟩ := List.exists_cons_of_ne_nil hne
      obtain rfl := (List.cons.inj heq).1
      rw [heq, oddQuotes_of_suffix_contents hw, List.singleton_append, oddQuotes_quote]

theorem oddQuotes_of_suffix_tailText {v : List Char} (h : '[' :: v <:+ tailText E ss) :
    oddQuotes false ('[' :: v) = true := by
  induction ss with
  | nil =>
    rw [tailText, List.suffix_cons_iff, List.suffix_nil] at h
    rcases h with h | h
    · exact absurd (List.cons.inj h).1 (by decide)
    · exact absurd h (List.cons_ne_nil _ _)
  | cons s ss ih =>
    rw [tailText, List.suffix_cons_iff] at h
    rcases h with h | h
    · exact absurd (List.cons.inj h).1 (by decide)
    · by_cases htail : '[' :: v <:+ tailText E ss
      · exact ih htail
      · rw [oddQuotes_of_suffix_quoted h htail, oddQuotes_tailText]
        rfl

/-- Only as a whole, a text of a list ends with one. -/
theorem eq_nil_of_arrayText_eq_append {w : List Char} (h : arrayText E ss = w ++ arrayText E ts) :
    w = [] := by
  have heven := oddQuotes_arrayText (E := E) ts
  obtain ⟨v, hv⟩ : ∃ v, arrayText E ts = '[' :: v := by
    cases ts with
    | nil => exact ⟨_, rfl⟩
    | cons t ts => exact ⟨_, rfl⟩
  rw [hv] at h heven
  cases w with
  | nil => rfl
  | cons b w =>
    have hodd : oddQuotes false ('[' :: v) = true := by
      cases ss with
      | nil =>
        -- the text of no strings has one bracket
        have hsuffix : '[' :: v <:+ [']'] := ⟨w, ((List.cons.inj h).2).symm⟩
        rw [List.suffix_cons_iff, List.suffix_nil] at hsuffix
        rcases hsuffix with hsuffix | hsuffix
        · exact absurd (List.cons.inj hsuffix).1 (by decide)
        · exact absurd hsuffix (List.cons_ne_nil _ _)
      | cons s ss =>
        have hsuffix : '[' :: v <:+ quoted E s ++ tailText E ss := ⟨w, ((List.cons.inj h).2).symm⟩
        by_cases htail : '[' :: v <:+ tailText E ss
        · exact oddQuotes_of_suffix_tailText htail
        · rw [oddQuotes_of_suffix_quoted hsuffix htail, oddQuotes_tailText]
          rfl
    rw [hodd] at heven
    cases heven

/-- **No text of a list is the end of another one.** -/
theorem append_arrayText_inj (h : x ++ arrayText E ss = y ++ arrayText E ts) :
    x = y ∧ ss = ts := by
  rcases List.append_eq_append_iff.mp h with ⟨w, hy, hs⟩ | ⟨w, hx, ht⟩
  · obtain rfl := eq_nil_of_arrayText_eq_append hs
    exact ⟨by rw [hy, List.append_nil], arrayText_injective hs⟩
  · obtain rfl := eq_nil_of_arrayText_eq_append ht
    exact ⟨by rw [hx, List.append_nil], (arrayText_injective ht).symm⟩

end JsonText
