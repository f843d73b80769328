import SkyMoonScope.Core.Simulation.Instrumenter.Output

/-!
# The order of the sections of instrumented modules

Where a module has no global or export section, the pass writes one when it comes to a section that
must stand after it: the export section, the code section, or the end. Between exports and code
there is a gap: after a start, element or data count section it is too late for exports.

## Main definitions

* `Placed`: what is written for sections stands in its place

## Main results

* `placed_reencode`: sections that were missing are written in their places
* `not_ordered_reencode`: but not after the gap
* `ordered_output_iff`: when the instrumented module is in order
-/

namespace Core.Simulation.WasmInstrumenter

open Wasm

variable {S : Signature}

section Order

variable {md : Metadata} {n k : ℕ} {e : Encoder} {s : Section S} {l : List (Section S)}

theorem ordered_cons_iff : Ordered (s :: l) ↔ (∀ r ∈ s.rank, Above r l) ∧ Ordered l := by
  constructor
  · exact fun h => ⟨fun r hr => h.above hr, h.tail⟩
  · rintro ⟨habove, h⟩
    cases hs : s.rank with
    | none => simpa only [Ordered, List.filterMap_cons, hs] using h
    | some r =>
      rw [Ordered, List.filterMap_cons, hs]
      refine List.pairwise_cons.mpr ⟨fun r' hr' => ?_, h⟩
      obtain ⟨s', hs', hr'⟩ := List.mem_filterMap.mp hr'
      exact habove r hs s' hs' r' hr'

theorem above_cons_iff : Above k (s :: l) ↔ (∀ r ∈ s.rank, k < r) ∧ Above k l := by
  simp [Above]

/-- The code section is not the first of these sections, when another kind comes first. -/
theorem exists_code_of_cons (hs : s.rank ≠ some 12) (h : ∃ s' ∈ s :: l, s'.rank = some 12) :
    ∃ s' ∈ l, s'.rank = some 12 := by
  obtain ⟨s', hs', hr⟩ := h
  rcases List.mem_cons.mp hs' with rfl | hs'
  · exact absurd hr hs
  · exact ⟨s', hs', hr⟩

/-- Once nothing is missing any more, the sections keep their places. -/
theorem rank_reencode (hg : e.sawGlobalSection = true) (he : e.sawExportSection = true)
    (hc : e.sawCodeSection = true ∨ ∃ s ∈ l, s.rank = some 12) :
    (reencode md n e l).filterMap (·.rank) = l.filterMap (·.rank) := by
  induction l generalizing e with
  | nil =>
    obtain hc : e.sawCodeSection = true := by simpa using hc
    simp [reencode, Encoder.finish, Encoder.injectGlobals, Encoder.injectExports, hg, he, hc]
  | cons s l ih =>
    have hg' : (e.addSection md n s).2.sawGlobalSection = true := by
      cases s <;> simp [Encoder.addSection, hg]
    have he' : (e.addSection md n s).2.sawExportSection = true := by
      cases s <;> simp [Encoder.addSection, he]
    have hc' : (e.addSection md n s).2.sawCodeSection = true ∨ ∃ s ∈ l, s.rank = some 12 := by
      by_cases hs : s.rank = some 12
      · obtain ⟨bs, rfl⟩ := Section.eq_codes_of_rank hs
        exact .inl rfl
      · exact hc.imp (fun h => by cases s <;> simp [Encoder.addSection, h])
          (exists_code_of_cons hs)
    rw [reencode, List.filterMap_append, ih hg' he' hc']
    cases s <;>
      simp [Encoder.addSection, Encoder.injectGlobals, Encoder.injectExports, hg, he,
        Section.rank]

/-- Without functions nothing is missing. -/
theorem rank_reencode_zero : (reencode md 0 e l).filterMap (·.rank) = l.filterMap (·.rank) := by
  induction l generalizing e with
  | nil => simp [reencode, Encoder.finish, Encoder.injectGlobals, Encoder.injectExports]
  | cons s l ih =>
    rw [reencode, List.filterMap_append, ih]
    cases s <;>
      simp [Encoder.addSection, Encoder.injectGlobals, Encoder.injectExports, Section.rank]

theorem above_iff_of_rank {l' : List (Section S)}
    (h : l'.filterMap (·.rank) = l.filterMap (·.rank)) : Above k l' ↔ Above k l := by
  have hiff (l : List (Section S)) : Above k l ↔ ∀ r ∈ l.filterMap (·.rank), k < r := by
    simp only [Above, List.mem_filterMap, Option.mem_def]
    exact ⟨fun h r ⟨s, hs, hr⟩ => h s hs r hr, fun h s hs r hr => h r ⟨s, hs, hr⟩⟩
  rw [hiff, hiff, h]

/-- What was missing comes from here on: nothing before this place is written any more. -/
def Encoder.bound (e : Encoder) : ℕ := if e.sawGlobalSection then 8 else 7

/-- The sections `l'` are written for `l`, in order, and before `b` none that `l` does not have. -/
def Placed (b : ℕ) (l l' : List (Section S)) : Prop :=
  Ordered l' ∧ ∀ k, Above k l → k < b → Above k l'

theorem Placed.cons {s' : Section S} {b b' : ℕ} {l' : List (Section S)} (h : Placed b' l l')
    (hrank : s'.rank = s.rank) (hl : Ordered (s :: l)) (hr : ∀ r ∈ s.rank, r < b')
    (hb : b ≤ b') : Placed b (s :: l) (s' :: l') := by
  constructor
  · rw [ordered_cons_iff, hrank]
    exact ⟨fun r hs => h.2 r (hl.above hs) (hr r hs), h.1⟩
  · intro k hk hkb
    rw [above_cons_iff, hrank]
    rw [above_cons_iff] at hk
    exact ⟨hk.1, h.2 k hk.2 (Nat.lt_of_lt_of_le hkb hb)⟩

/-- Sections that keep their places may follow any other section. -/
theorem Placed.of_rank {b : ℕ} {l' : List (Section S)}
    (h : l'.filterMap (·.rank) = l.filterMap (·.rank)) (hl : Ordered l) : Placed b l l' :=
  ⟨by rw [Ordered, h]; exact hl, fun _ hk _ => (above_iff_of_rank h).mpr hk⟩

/-- A section that was missing is written before the others. -/
theorem Placed.insert {b b' : ℕ} {l' : List (Section S)} (h : Placed b' l l') (s' : Section S)
    (hrank : s'.rank = some b) (hl : Above b l) (hb : b < b') : Placed b l (s' :: l') := by
  constructor
  · rw [ordered_cons_iff]
    refine ⟨fun r hr => ?_, h.1⟩
    obtain rfl : b = r := by simpa [hrank] using hr
    exact h.2 b hl hb
  · intro k hk hkb
    rw [above_cons_iff]
    refine ⟨fun r hr => ?_, h.2 k hk (Nat.lt_trans hkb hb)⟩
    obtain rfl : b = r := by simpa [hrank] using hr
    exact hkb

/-- What is written for missing sections stands in its place, if no start, element or data count
section has been written before it. -/
theorem placed_reencode (he : e.sawExportSection = false) (hn : 0 < n) (hl : Ordered l)
    (hc : ∃ s ∈ l, s.rank = some 12)
    (hgap : (∃ s ∈ l, s.rank = some 8) ∨ ∀ s ∈ l, ∀ r ∈ s.rank, r ≤ 8 ∨ 12 ≤ r) :
    Placed e.bound l (reencode md n e l) := by
  induction l generalizing e with
  | nil => simp at hc
  | cons s l ih =>
    have hgap' (hs : s.rank ≠ some 8) :
        (∃ s ∈ l, s.rank = some 8) ∨ ∀ s ∈ l, ∀ r ∈ s.rank, r ≤ 8 ∨ 12 ≤ r := by
      refine hgap.imp (fun ⟨s', hs', hr⟩ => ?_) fun h s' hs' => h s' (List.mem_cons_of_mem _ hs')
      rcases List.mem_cons.mp hs' with rfl | hs'
      · exact absurd hr hs
      · exact ⟨s', hs', hr⟩
    have hbound : e.bound ≤ 8 := by unfold Encoder.bound; split <;> omega
    have hbound' : 7 ≤ e.bound := by unfold Encoder.bound; split <;> omega
    have hearly (s' : Section S) (e' : Encoder) (he' : e'.sawExportSection = false)
        (hb : e'.bound = e.bound) (hr : ∀ r ∈ s.rank, r < 7) (hrank : s'.rank = s.rank) :
        Placed e.bound (s :: l) (s' :: reencode md n e' l) := by
      have hne {k : ℕ} (hk : 7 ≤ k) : s.rank ≠ some k := fun h =>
        absurd (hr k h) (Nat.not_lt.mpr hk)
      have hrest := ih he' hl.tail (exists_code_of_cons (hne (by omega)) hc)
        (hgap' (hne (by omega)))
      exact hrest.cons hrank hl (fun r h => hb ▸ Nat.lt_of_lt_of_le (hr r h) hbound') hb.ge
    cases s with
    | globals gs =>
      have hrest := ih (e := { e with sawGlobalSection := true }) he hl.tail
        (exists_code_of_cons (by simp [Section.rank]) hc) (hgap' (by simp [Section.rank]))
      exact hrest.cons rfl hl (by simp [Section.rank, Encoder.bound]) hbound
    | exports es =>
      have hrest : Placed 13 l (reencode md n (e.addSection md n (.exports es)).2 l) :=
        .of_rank (rank_reencode (by simp [Encoder.addSection, hn]) rfl
          (.inr (exists_code_of_cons (by simp [Section.rank]) hc))) hl.tail
      have hexports : Placed 8 (.exports es :: l)
          (.exports (es ++ counterExports e.totalFuncCount n) ::
            reencode md n (e.addSection md n (.exports es)).2 l) :=
        hrest.cons rfl hl (by simp [Section.rank]) (by omega)
      have habove : Above 7 (Section.exports es :: l) :=
        above_cons_iff.mpr ⟨by simp [Section.rank], (hl.above (k := 8) rfl).mono (by omega)⟩
      rw [reencode]
      cases hg : e.sawGlobalSection with
      | true =>
        simpa [Encoder.addSection, Encoder.injectGlobals, Encoder.bound, hg] using hexports
      | false =>
        have hglobals := hexports.insert (.globals (counterGlobals n)) rfl habove (by omega)
        simpa [Encoder.addSection, Encoder.injectGlobals, Encoder.bound, hg, hn] using hglobals
    | codes bs =>
      have hrest : Placed 13 l (reencode md n (e.addSection md n (.codes bs)).2 l) :=
        .of_rank (rank_reencode (by simp [Encoder.addSection, hn])
          (by simp [Encoder.addSection, hn]) (.inl rfl)) hl.tail
      have hcodes (bs' : List (Wasm.Body S)) : Placed 12 (.codes bs :: l)
          (.codes bs' :: reencode md n (e.addSection md n (.codes bs)).2 l) :=
        hrest.cons rfl hl (by simp [Section.rank]) (by omega)
      have habove : Above 8 (Section.codes bs :: l) :=
        above_cons_iff.mpr ⟨by simp [Section.rank], (hl.above (k := 12) rfl).mono (by omega)⟩
      have hexports (bs' : List (Wasm.Body S)) := (hcodes bs').insert
        (.exports (counterExports e.totalFuncCount n)) rfl habove (by omega)
      rw [reencode]
      cases hg : e.sawGlobalSection with
      | true =>
        simpa [Encoder.addSection, Encoder.injectGlobals, Encoder.injectExports, Encoder.bound,
          hg, he, hn] using hexports _
      | false =>
        have hglobals (bs' : List (Wasm.Body S)) := (hexports bs').insert
          (.globals (counterGlobals n)) rfl (habove.mono (by omega)) (by omega)
        simpa [Encoder.addSection, Encoder.injectGlobals, Encoder.injectExports, Encoder.bound,
          hg, he, hn] using hglobals _
    | other id x =>
      have hrank : (Section.other id x : Section S).rank ≠ some 8 ∧
          (Section.other id x : Section S).rank ≠ some 12 := by
        cases id <;> simp [Section.rank, SectionId.rank]
      have habove : Above id.rank l := hl.above rfl
      refine hearly _ e he rfl (fun r hr => ?_) rfl
      obtain rfl : id.rank = r := by simpa [Section.rank] using hr
      -- the code section is still to come, and so is an export section after a gap
      obtain ⟨s₁, hs₁, hr₁⟩ := exists_code_of_cons hrank.2 hc
      have hcode : id.rank < 12 := habove s₁ hs₁ 12 hr₁
      have hsmall : id.rank < 8 ∨ id.rank ≤ 8 ∨ 12 ≤ id.rank := by
        rcases hgap with ⟨s₂, hs₂, hr₂⟩ | hgap
        · rcases List.mem_cons.mp hs₂ with rfl | hs₂
          · exact absurd hr₂ hrank.1
          · exact .inl (habove s₂ hs₂ 8 hr₂)
        · exact .inr (hgap _ List.mem_cons_self _ rfl)
      cases id <;> simp [SectionId.rank] at hcode hsmall ⊢
    | types ts =>
      exact hearly _ { e with sawTypeSection := true } he rfl (by simp [Section.rank]) rfl
    | imports is => exact hearly _ e he rfl (by simp [Section.rank]) rfl
    | functions fs =>
      exact hearly _ { e with totalFuncCount := md.importFuncCount + fs.length } he rfl
        (by simp [Section.rank]) rfl
    | custom name x => exact hearly _ e he rfl (by simp [Section.rank]) rfl

theorem ordered_of_append {l' : List (Section S)} (h : Ordered (l' ++ l)) : Ordered l := by
  induction l' with
  | nil => exact h
  | cons s l' ih => exact ih h.tail

theorem counterExports_ne_nil {total : ℕ} (hn : 0 < n) :
    (counterExports total n : List (Export S)) ≠ [] := by
  simpa [counterExports] using Nat.ne_of_gt hn

theorem exists_other_of_rank (hk : k ∈ s.rank) (h8 : 8 < k) (h12 : k < 12) :
    ∃ id x, s = .other id x := by
  cases s with
  | other id x => exact ⟨id, x, rfl⟩
  | custom name x => nomatch hk
  | _ =>
    cases hk
    omega

/-- After a start, element or data count section it is too late for exports. -/
theorem not_ordered_reencode (he : e.sawExportSection = false) (hn : 0 < n) (hl : Ordered l)
    (h8 : ∀ s ∈ l, s.rank ≠ some 8) (hgap : ∃ s ∈ l, ∃ r ∈ s.rank, 8 < r ∧ r < 12) :
    ¬ Ordered (reencode md n e l) := by
  induction l generalizing e with
  | nil => simp at hgap
  | cons s l ih =>
    intro hord
    rw [reencode] at hord
    by_cases hs : ∃ r ∈ s.rank, 8 < r ∧ r < 12
    · obtain ⟨r, hr, h8r, hr12⟩ := hs
      obtain ⟨id, x, rfl⟩ := exists_other_of_rank hr h8r hr12
      have habove : Above r l := hl.above hr
      have hexports : (reencode md n e l).flatMap (·.exportsOf) = _ :=
        exports_reencode_of_above he hn hl.tail (habove.mono (by omega))
      have hlate : Above r (reencode md n e l) := Ordered.above hord hr
      rw [exportsOf_eq_nil (hlate.mono (by omega))] at hexports
      exact counterExports_ne_nil hn (List.append_eq_nil_iff.mp hexports.symm).2
    · have hgap' : ∃ s ∈ l, ∃ r ∈ s.rank, 8 < r ∧ r < 12 := by
        obtain ⟨s', hs', hr⟩ := hgap
        rcases List.mem_cons.mp hs' with rfl | hs'
        · exact absurd hr hs
        · exact ⟨s', hs', hr⟩
      refine ih ?_ hl.tail (fun s' hs' => h8 s' (List.mem_cons_of_mem _ hs')) hgap'
        (ordered_of_append hord)
      cases s with
      | exports es => exact absurd rfl (h8 _ List.mem_cons_self)
      | codes bs =>
        obtain ⟨s', hs', r, hr, -, hr12⟩ := hgap'
        have := hl.above (k := 12) rfl s' hs' r hr
        omega
      | _ => exact he

end Order

/-- A code section, or nothing that needs one. -/
theorem exists_code {m : Module S} (hcodes : m.codes.length = m.functions.length)
    (hn : 0 < m.functions.length) : ∃ s ∈ m.sections, s.rank = some 12 := by
  by_contra hnone
  have hnil : m.codes = [] :=
    contents_eq_nil (fun _ => Section.codesOf_eq_nil) fun s hs hr => hnone ⟨s, hs, hr⟩
  rw [hnil] at hcodes
  exact Nat.ne_of_lt hn hcodes

/-- **The instrumented module is in order** unless the exports of the wrappers come too late. -/
theorem ordered_output_iff {m : Module S} (hm : Ordered m.sections)
    (hcodes : m.codes.length = m.functions.length) :
    Ordered (output m).sections ↔ m.functions = [] ∨ (∃ s ∈ m.sections, s.rank = some 8) ∨
      ∀ s ∈ m.sections, ∀ r ∈ s.rank, r ≤ 8 ∨ 12 ≤ r := by
  rcases Nat.eq_zero_or_pos m.functions.length with hn | hn
  · refine iff_of_true ?_ (.inl (List.length_eq_zero_iff.mp hn))
    rw [output, hn, Ordered, rank_reencode_zero]
    exact hm
  · constructor
    · intro hord
      refine .inr (or_iff_not_imp_left.mpr fun h8 s hs r hr => ?_)
      by_contra hgap
      have hnot : ¬ Ordered (output m).sections :=
        not_ordered_reencode rfl hn hm (fun s hs h => h8 ⟨s, hs, h⟩) ⟨s, hs, r, hr, by omega⟩
      exact hnot hord
    · rintro (hnil | hgap)
      · simp [hnil] at hn
      · exact (placed_reencode rfl hn hm (exists_code hcodes hn) hgap).1

end Core.Simulation.WasmInstrumenter
