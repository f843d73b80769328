import SkyMoonScope.Core.Simulation.Instrumenter

/-!
# Instrumented modules

A module in order has at most one section of each kind. The second pass writes the contents of each
again, and once what instrumentation adds: types, functions and globals after those of the module,
the exports of the wrappers and their bodies.

## Main definitions

* `metadata`: what the first pass collects of a module in order
* `output`: the instrumented module

## Main results

* `collect_eq_ok`: what the first pass collects
* `types_reencode`, `functions_reencode`, …: the contents of what the second pass writes
* `instrument_eq_ok_iff`: what instrumentation returns, and when
* `types_output`, `functions_output`, …: the contents of the instrumented module
-/

namespace Core.Simulation

open Wasm (Signature FuncType TypeDef Instr Global Import Export Section Module)

variable {S : Signature}

namespace WasmInstrumenter

/-! ## What the first pass collects -/

section Collected

open Wasm (Ordered Above contents_eq_nil)

variable {readerError : TypeDef S → String} {md md' : Metadata} {l : List (Section S)}

/-- The number of results of a function type. -/
def returnCount : TypeDef S → ℕ
  | .func t => t.results.length
  | .gc _ => 0

theorem mapM_typeReturn {ts : List (TypeDef S)} (h : ∀ t ∈ ts, ∃ f, t = .func f) :
    ts.mapM (typeReturn readerError) = .ok (ts.map returnCount) := by
  induction ts with
  | nil => rfl
  | cons t ts ih =>
    obtain ⟨f, rfl⟩ := h t List.mem_cons_self
    rw [List.mapM_cons, ih fun t ht => h t (List.mem_cons_of_mem _ ht)]
    rfl

/-- The reader of the types gives up on any other type. -/
theorem exists_func_of_mapM {ts : List (TypeDef S)} {returns : List ℕ}
    (h : ts.mapM (typeReturn readerError) = .ok returns) : ∀ t ∈ ts, ∃ f, t = .func f := by
  induction ts generalizing returns with
  | nil => simp
  | cons t ts ih =>
    rw [List.mapM_cons] at h
    cases t with
    | gc members => nomatch h
    | func f =>
      cases hts : ts.mapM (typeReturn readerError) with
      | error err =>
        rw [hts] at h
        nomatch h
      | ok returns' =>
        intro t ht
        rcases List.mem_cons.mp ht with rfl | ht
        · exact ⟨f, rfl⟩
        · exact ih hts t ht

theorem typesOf_eq_nil (hl : Above 1 l) : l.flatMap (·.typesOf) = [] :=
  contents_eq_nil (fun _ => Section.typesOf_eq_nil) hl.rank_ne

theorem any_rank_eq_false_iff {k : ℕ} :
    l.any (fun s => s.rank = some k) = false ↔ ∀ s ∈ l, s.rank ≠ some k := by
  simp

/-- **What the first pass collects**, when all types are function types. -/
theorem collect_eq_ok (hl : Ordered l) (hfunc : ∀ t ∈ l.flatMap (·.typesOf), ∃ f, t = .func f) :
    collect readerError md l = .ok
      { existingGlobalCount := md.existingGlobalCount +
          (((l.flatMap (·.importsOf)).filterMap Module.importedGlobal).length +
            (l.flatMap (·.globalsOf)).length)
        importFuncCount := md.importFuncCount +
          ((l.flatMap (·.importsOf)).filterMap Module.importedFunc).length
        existingTypeCount :=
          if l.any (fun s => s.rank = some 1) then (l.flatMap (·.typesOf)).length
          else md.existingTypeCount
        funcTypeIndices := md.funcTypeIndices ++ l.flatMap (·.functionsOf)
        typeReturns := md.typeReturns ++ (l.flatMap (·.typesOf)).map returnCount } := by
  induction l generalizing md with
  | nil => simp [collect, pure, Except.pure]
  | cons s l ih =>
    have hfunc' : ∀ t ∈ l.flatMap (·.typesOf), ∃ f, t = .func f := fun t ht =>
      hfunc t (by rw [List.flatMap_cons]; exact List.mem_append_right _ ht)
    have hcollect {u : Metadata} (hu : md.addSection readerError s = .ok u) :
        collect readerError md (s :: l) = collect readerError u l := by
      rw [collect, List.foldlM_cons, hu]
      rfl
    cases s with
    | types ts =>
      have habove : Above 1 l := hl.above rfl
      have hts : ∀ t ∈ ts, ∃ f, t = .func f := fun t ht =>
        hfunc t (by rw [List.flatMap_cons]; exact List.mem_append_left _ ht)
      rw [hcollect (by rw [Metadata.addSection, mapM_typeReturn hts]; rfl), ih hl.tail hfunc',
        any_rank_eq_false_iff.mpr habove.rank_ne]
      simp only [List.flatMap_cons, typesOf_eq_nil habove]
      simp [Section.typesOf, Section.importsOf, Section.globalsOf, Section.functionsOf,
        Section.rank]
    | other id x =>
      have hid : id.rank ≠ 1 := by cases id <;> simp [Wasm.SectionId.rank]
      rw [hcollect rfl, ih hl.tail hfunc']
      simp [Section.typesOf, Section.importsOf, Section.globalsOf, Section.functionsOf,
        Section.rank, hid]
    | _ =>
      rw [hcollect rfl, ih hl.tail hfunc']
      simp [Section.typesOf, Section.importsOf, Section.globalsOf, Section.functionsOf,
        Section.rank, Nat.add_assoc, Nat.add_left_comm, Nat.add_comm]

theorem exists_func_of_collect (h : collect readerError md l = .ok md') :
    ∀ t ∈ l.flatMap (·.typesOf), ∃ f, t = .func f := by
  induction l generalizing md with
  | nil => simp
  | cons s l ih =>
    rw [collect, List.foldlM_cons] at h
    cases hs : md.addSection readerError s with
    | error err =>
      rw [hs] at h
      nomatch h
    | ok u =>
      rw [hs] at h
      have hu : collect readerError u l = .ok md' := h
      have hrest := ih hu
      intro t ht
      rw [List.flatMap_cons, List.mem_append] at ht
      refine ht.elim (fun ht => ?_) (hrest t)
      cases s with
      | types ts =>
        cases hts : ts.mapM (typeReturn readerError) with
        | error err =>
          rw [Metadata.addSection, hts] at hs
          nomatch hs
        | ok returns => exact exists_func_of_mapM hts t ht
      | _ => exact absurd ht List.not_mem_nil

theorem functionsOf_eq_nil (hl : Above 3 l) : l.flatMap (·.functionsOf) = [] :=
  contents_eq_nil (fun _ => Section.functionsOf_eq_nil) hl.rank_ne

theorem definedFuncCount_foldl_addExport {names : Names} {es : List (Export S)} :
    (es.foldl Names.addExport names).definedFuncCount = names.definedFuncCount := by
  induction es generalizing names with
  | nil => rfl
  | cons e es ih =>
    rw [List.foldl_cons, ih, Names.addExport]
    split <;> rfl

theorem definedFuncCount_foldl {names : Names} (hl : Ordered l) :
    (l.foldl Names.addSection names).definedFuncCount =
      if l.any (fun s => s.rank = some 3) then (l.flatMap (·.functionsOf)).length
      else names.definedFuncCount := by
  induction l generalizing names with
  | nil => rfl
  | cons s l ih =>
    rw [List.foldl_cons, ih hl.tail]
    cases s with
    | functions fs =>
      have habove : Above 3 l := hl.above rfl
      rw [any_rank_eq_false_iff.mpr habove.rank_ne, List.flatMap_cons, functionsOf_eq_nil habove]
      simp [Names.addSection, Section.functionsOf, Section.rank]
    | other id x =>
      have hid : id.rank ≠ 3 := by cases id <;> simp [Wasm.SectionId.rank]
      simp [Names.addSection, Section.functionsOf, Section.rank, hid]
    | _ =>
      simp [Names.addSection, Section.functionsOf, Section.rank,
        definedFuncCount_foldl_addExport]

/-- The instrumenter has a name for every defined function. -/
theorem length_funcNames {m : Module S} (hm : Ordered m.sections) :
    (new m).funcNames.length = m.functions.length := by
  rw [new, List.length_map, List.length_range, definedFuncCount_foldl hm]
  split
  case isTrue => rfl
  case isFalse hany =>
    -- without a function section there are no functions
    have hnot := any_rank_eq_false_iff.mp (Bool.eq_false_of_not_eq_true hany)
    have hnil : m.functions = [] := contents_eq_nil (fun _ => Section.functionsOf_eq_nil) hnot
    rw [hnil]
    rfl

end Collected

/-! ## What the second pass writes -/

section Contents

open Wasm (Ordered Above contents_eq_nil)

variable {md : Metadata} {n : ℕ} {e : Encoder} {l : List (Section S)}

variable {β : Type*} {content content' : Section S → List β}

theorem flatMap_injectGlobals (content : Section S → List β) :
    (e.injectGlobals n).flatMap content =
      if !e.sawGlobalSection && decide (0 < n) then content (.globals (counterGlobals n))
      else [] := by
  rw [Encoder.injectGlobals, apply_ite (List.flatMap content), List.flatMap_singleton]
  rfl

theorem flatMap_injectExports (content : Section S → List β) :
    (e.injectExports n).flatMap content =
      if !e.sawExportSection && decide (0 < n) then
        content (.exports (counterExports e.totalFuncCount n))
      else [] := by
  rw [Encoder.injectExports, apply_ite (List.flatMap content), List.flatMap_singleton]
  rfl

theorem flatMap_finish (content : Section S → List β) :
    (e.finish md n).flatMap content =
      (e.injectGlobals n).flatMap content ++ (e.injectExports n).flatMap content ++
        if !e.sawCodeSection && decide (0 < n) then content (.codes (wrapperBodies md n))
        else [] := by
  rw [Encoder.finish, List.flatMap_append, List.flatMap_append, apply_ite (List.flatMap content),
    List.flatMap_singleton]
  rfl

/-- Contents that only the section itself decides. -/
theorem flatMap_reencode
    (hfinish : ∀ e, (Encoder.finish md n e).flatMap content = [])
    (hadd : ∀ e s, (Encoder.addSection md n e s).1.flatMap content = content' s) :
    (reencode md n e l).flatMap content = l.flatMap content' := by
  induction l generalizing e with
  | nil => exact hfinish e
  | cons s l ih => rw [reencode, List.flatMap_append, hadd, ih, List.flatMap_cons]

/-- What has been written is not written again, once the sections of its place are past. -/
theorem flatMap_reencode_eq_nil {k : ℕ} {saw : Encoder → Bool}
    (hfinish : ∀ e, saw e = true → (Encoder.finish md n e).flatMap content = [])
    (hadd : ∀ e s, saw e = true → s.rank ≠ some k →
      (Encoder.addSection md n e s).1.flatMap content = [])
    (hsaw : ∀ e (s : Section S), saw e = true → saw (Encoder.addSection md n e s).2 = true)
    (he : saw e = true) (hl : Above k l) : (reencode md n e l).flatMap content = [] := by
  induction l generalizing e with
  | nil => exact hfinish e he
  | cons s l ih =>
    have hs : s.rank ≠ some k := hl.rank_ne s List.mem_cons_self
    rw [reencode, List.flatMap_append, hadd e s he hs, List.nil_append]
    exact ih (hsaw e s he) hl.tail

theorem imports_reencode :
    (reencode md n e l).flatMap (·.importsOf) = l.flatMap (·.importsOf) := by
  apply flatMap_reencode
  · intro e
    simp [flatMap_finish, flatMap_injectGlobals, flatMap_injectExports, Section.importsOf]
  · intro e s
    cases s <;> simp [Encoder.addSection, flatMap_injectGlobals, flatMap_injectExports,
      Section.importsOf]

theorem others_reencode :
    (reencode md n e l).flatMap (·.othersOf) = l.flatMap (·.othersOf) := by
  apply flatMap_reencode
  · intro e
    simp [flatMap_finish, flatMap_injectGlobals, flatMap_injectExports, Section.othersOf]
  · intro e s
    cases s <;> simp [Encoder.addSection, flatMap_injectGlobals, flatMap_injectExports,
      Section.othersOf]

/-- What is appended to every section of one place is appended once to their contents, since there
is at most one such section. -/
theorem flatMap_append_of_ordered {k : ℕ} {extra : List β} (hl : Ordered l)
    (hat : ∀ s : Section S, s.rank = some k → content' s = content s ++ extra)
    (hnot : ∀ s : Section S, s.rank ≠ some k → content s = [] ∧ content' s = []) :
    l.flatMap content' =
      l.flatMap content ++ if l.any (fun s => s.rank = some k) then extra else [] := by
  induction l with
  | nil => rfl
  | cons s l ih =>
    by_cases hs : s.rank = some k
    · -- no other section has this place
      have habove : Above k l := hl.above hs
      have hrest : l.flatMap content = [] :=
        contents_eq_nil (fun s' h => (hnot s' h).1) habove.rank_ne
      have hrest' : l.flatMap content' = [] :=
        contents_eq_nil (fun s' h => (hnot s' h).2) habove.rank_ne
      simp [hrest, hrest', hat s hs, hs]
    · rw [List.flatMap_cons, List.flatMap_cons, (hnot s hs).1, (hnot s hs).2, List.nil_append,
        List.nil_append, ih hl.tail, List.any_cons]
      simp [hs]

/-- The types written for a section. -/
def writtenTypes : Section S → List (TypeDef S)
  | .types ts => ts ++ [.func wrapperType]
  | _ => []

theorem types_reencode (hl : Ordered l) :
    (reencode md n e l).flatMap (·.typesOf) =
      l.flatMap (·.typesOf) ++
        if l.any (fun s => s.rank = some 1) then [.func wrapperType] else [] := by
  have hadd (e : Encoder) (s : Section S) :
      (e.addSection md n s).1.flatMap (·.typesOf) = writtenTypes s := by
    cases s <;> simp [Encoder.addSection, flatMap_injectGlobals, flatMap_injectExports,
      Section.typesOf, writtenTypes]
  rw [flatMap_reencode (fun e => ?_) hadd]
  · apply flatMap_append_of_ordered hl
    · intro s hs
      obtain ⟨ts, rfl⟩ := Section.eq_types_of_rank hs
      rfl
    · intro s hs
      cases s with
      | types ts => exact absurd rfl hs
      | _ => exact ⟨rfl, rfl⟩
  · simp [flatMap_finish, flatMap_injectGlobals, flatMap_injectExports, Section.typesOf]

/-- The functions written for a section. -/
def writtenFunctions (md : Metadata) (n : ℕ) : Section S → List ℕ
  | .functions fs => fs ++ List.replicate n md.existingTypeCount
  | _ => []

theorem functions_reencode (hl : Ordered l) :
    (reencode md n e l).flatMap (·.functionsOf) =
      l.flatMap (·.functionsOf) ++
        if l.any (fun s => s.rank = some 3) then List.replicate n md.existingTypeCount
        else [] := by
  have hadd (e : Encoder) (s : Section S) :
      (e.addSection md n s).1.flatMap (·.functionsOf) = writtenFunctions md n s := by
    cases s <;> simp [Encoder.addSection, flatMap_injectGlobals, flatMap_injectExports,
      Section.functionsOf, writtenFunctions]
  rw [flatMap_reencode (fun e => ?_) hadd]
  · apply flatMap_append_of_ordered hl
    · intro s hs
      obtain ⟨fs, rfl⟩ := Section.eq_functions_of_rank hs
      rfl
    · intro s hs
      cases s with
      | functions fs => exact absurd rfl hs
      | _ => exact ⟨rfl, rfl⟩
  · simp [flatMap_finish, flatMap_injectGlobals, flatMap_injectExports, Section.functionsOf]

theorem globalsOf_eq_nil (hl : Above 7 l) : l.flatMap (·.globalsOf) = [] :=
  contents_eq_nil (fun _ => Section.globalsOf_eq_nil) hl.rank_ne

theorem exportsOf_eq_nil (hl : Above 8 l) : l.flatMap (·.exportsOf) = [] :=
  contents_eq_nil (fun _ => Section.exportsOf_eq_nil) hl.rank_ne

/-- No counters are written again. -/
theorem globals_reencode_of_saw (he : e.sawGlobalSection = true) (hl : Above 7 l) :
    (reencode md n e l).flatMap (·.globalsOf) = [] := by
  apply flatMap_reencode_eq_nil ?_ ?_ ?_ he hl
  · intro e he
    simp [flatMap_finish, flatMap_injectGlobals, flatMap_injectExports, Section.globalsOf, he]
  · intro e s he hs
    cases s with
    | globals gs => exact absurd rfl hs
    | _ =>
      simp [Encoder.addSection, flatMap_injectGlobals, flatMap_injectExports, Section.globalsOf,
        he]
  · intro e s he
    cases s <;> simp [Encoder.addSection, he]

/-- The counters are written once: with the globals of the module, or where the pass sees that
there are none. -/
theorem globals_reencode (he : e.sawGlobalSection = false) (hl : Ordered l) :
    (reencode md n e l).flatMap (·.globalsOf) =
      l.flatMap (·.globalsOf) ++ counterGlobals n := by
  rcases Nat.eq_zero_or_pos n with rfl | hn
  · -- there are no counters
    have hadd (e : Encoder) (s : Section S) :
        (e.addSection md 0 s).1.flatMap (·.globalsOf) = s.globalsOf := by
      cases s <;> simp [Encoder.addSection, flatMap_injectGlobals, flatMap_injectExports,
        Section.globalsOf, counterGlobals]
    rw [flatMap_reencode (fun e => ?_) hadd]
    · simp [counterGlobals]
    · simp [flatMap_finish, flatMap_injectGlobals, flatMap_injectExports]
  induction l generalizing e with
  | nil =>
    simp [reencode, flatMap_finish, flatMap_injectGlobals, flatMap_injectExports,
      Section.globalsOf, he, hn]
  | cons s l ih =>
    rw [reencode, List.flatMap_append, List.flatMap_cons]
    cases s with
    | globals gs =>
      have habove : Above 7 l := hl.above rfl
      rw [globals_reencode_of_saw rfl habove, globalsOf_eq_nil habove]
      simp [Encoder.addSection, Section.globalsOf]
    | exports es =>
      have habove : Above 7 l := (hl.above (k := 8) rfl).mono (by omega)
      rw [globals_reencode_of_saw (by simp [Encoder.addSection, hn]) habove,
        globalsOf_eq_nil habove]
      simp [Encoder.addSection, flatMap_injectGlobals, Section.globalsOf, he, hn]
    | codes bs =>
      have habove : Above 7 l := (hl.above (k := 12) rfl).mono (by omega)
      rw [globals_reencode_of_saw (by simp [Encoder.addSection, hn]) habove,
        globalsOf_eq_nil habove]
      simp [Encoder.addSection, flatMap_injectGlobals, flatMap_injectExports, Section.globalsOf,
        he, hn]
    | _ =>
      rw [ih (by simpa [Encoder.addSection] using he) hl.tail]
      simp [Encoder.addSection, Section.globalsOf]

/-- No exports are written again. -/
theorem exports_reencode_of_saw (he : e.sawExportSection = true) (hl : Above 8 l) :
    (reencode md n e l).flatMap (·.exportsOf) = [] := by
  apply flatMap_reencode_eq_nil ?_ ?_ ?_ he hl
  · intro e he
    simp [flatMap_finish, flatMap_injectGlobals, flatMap_injectExports, Section.exportsOf, he]
  · intro e s he hs
    cases s with
    | exports es => exact absurd rfl hs
    | _ =>
      simp [Encoder.addSection, flatMap_injectGlobals, flatMap_injectExports, Section.exportsOf,
        he]
  · intro e s he
    cases s <;> simp [Encoder.addSection, he]

/-- After the function section the number of functions is known. -/
theorem exports_reencode_of_above (he : e.sawExportSection = false) (hn : 0 < n)
    (hl : Ordered l) (h3 : Above 3 l) :
    (reencode md n e l).flatMap (·.exportsOf) =
      l.flatMap (·.exportsOf) ++ counterExports e.totalFuncCount n := by
  induction l generalizing e with
  | nil =>
    simp [reencode, flatMap_finish, flatMap_injectGlobals, flatMap_injectExports,
      Section.exportsOf, he, hn]
  | cons s l ih =>
    rw [reencode, List.flatMap_append, List.flatMap_cons]
    cases s with
    | functions fs => exact absurd (h3 _ List.mem_cons_self 3 rfl) (Nat.lt_irrefl 3)
    | exports es =>
      have habove : Above 8 l := hl.above rfl
      rw [exports_reencode_of_saw rfl habove, exportsOf_eq_nil habove]
      simp [Encoder.addSection, flatMap_injectGlobals, Section.exportsOf]
    | codes bs =>
      have habove : Above 8 l := (hl.above (k := 12) rfl).mono (by omega)
      rw [exports_reencode_of_saw (by simp [Encoder.addSection, hn]) habove,
        exportsOf_eq_nil habove]
      simp [Encoder.addSection, flatMap_injectGlobals, flatMap_injectExports, Section.exportsOf,
        he, hn]
    | _ =>
      rw [ih (by simpa [Encoder.addSection] using he) hl.tail h3.tail]
      simp [Encoder.addSection, Section.exportsOf]

/-- The exports of the wrappers are written once, with the indices after all functions. -/
theorem exports_reencode (he : e.sawExportSection = false) (hl : Ordered l)
    (hn : n = (l.flatMap (·.functionsOf)).length) :
    (reencode md n e l).flatMap (·.exportsOf) =
      l.flatMap (·.exportsOf) ++ counterExports (md.importFuncCount + n) n := by
  rcases Nat.eq_zero_or_pos n with rfl | hpos
  · -- there are no wrappers
    have hadd (e : Encoder) (s : Section S) :
        (e.addSection md 0 s).1.flatMap (·.exportsOf) = s.exportsOf := by
      cases s <;> simp [Encoder.addSection, flatMap_injectGlobals, flatMap_injectExports,
        Section.exportsOf, counterExports]
    rw [flatMap_reencode (fun e => ?_) hadd]
    · simp [counterExports]
    · simp [flatMap_finish, flatMap_injectGlobals, flatMap_injectExports]
  induction l generalizing e with
  | nil => exact absurd hn (Nat.ne_of_gt hpos)
  | cons s l ih =>
    -- the function section comes first among the sections that matter
    have hlate (hs : Above 3 (s :: l)) : False := by
      rw [functionsOf_eq_nil hs] at hn
      exact Nat.ne_of_gt hpos hn
    have hlater (k : ℕ) (hk : 3 < k) (hs : s.rank = some k) : False := by
      refine hlate fun s' hs' r hr => ?_
      rcases List.mem_cons.mp hs' with rfl | hs'
      · obtain rfl : k = r := by simpa [hs] using hr
        exact hk
      · exact Nat.lt_trans hk (hl.above hs s' hs' r hr)
    cases s with
    | functions fs =>
      have habove : Above 3 l := hl.above rfl
      obtain rfl : n = fs.length := by
        rw [List.flatMap_cons, functionsOf_eq_nil habove, List.append_nil] at hn
        exact hn
      rw [reencode, List.flatMap_append, List.flatMap_cons,
        exports_reencode_of_above (by simpa [Encoder.addSection] using he) hpos hl.tail habove]
      simp [Encoder.addSection, Section.exportsOf]
    | globals gs => exact (hlater 7 (by omega) rfl).elim
    | exports es => exact (hlater 8 (by omega) rfl).elim
    | codes bs => exact (hlater 12 (by omega) rfl).elim
    | other id x =>
      exact (hlater id.rank (by cases id <;> simp [Wasm.SectionId.rank]) rfl).elim
    | _ =>
      rw [reencode, List.flatMap_append, List.flatMap_cons,
        ih (by simpa [Encoder.addSection] using he) hl.tail
          (by simpa [Section.functionsOf] using hn)]
      simp [Encoder.addSection, Section.exportsOf]

/-- No bodies are written again. -/
theorem codes_reencode_of_saw (he : e.sawCodeSection = true) (hl : Above 12 l) :
    (reencode md n e l).flatMap (·.codesOf) = [] := by
  apply flatMap_reencode_eq_nil ?_ ?_ ?_ he hl
  · intro e he
    simp [flatMap_finish, flatMap_injectGlobals, flatMap_injectExports, Section.codesOf, he]
  · intro e s he hs
    cases s with
    | codes bs => exact absurd rfl hs
    | _ => simp [Encoder.addSection, flatMap_injectGlobals, Section.codesOf]
  · intro e s he
    cases s <;> simp [Encoder.addSection, he]

/-- Every body increments its counter, and the wrappers follow. -/
theorem codes_reencode (he : e.sawCodeSection = false) (hl : Ordered l) :
    (reencode md n e l).flatMap (·.codesOf) =
      (l.flatMap (·.codesOf)).mapIdx (fun i b =>
        instrumentBody (md.existingGlobalCount + (e.definedFuncIdx + i)) b) ++
        wrapperBodies md n := by
  induction l generalizing e with
  | nil =>
    rcases Nat.eq_zero_or_pos n with rfl | hn
    · simp [reencode, flatMap_finish, flatMap_injectGlobals, flatMap_injectExports,
        wrapperBodies]
    · simp [reencode, flatMap_finish, flatMap_injectGlobals, flatMap_injectExports,
        Section.codesOf, he, hn]
  | cons s l ih =>
    rw [reencode, List.flatMap_append, List.flatMap_cons]
    cases s with
    | codes bs =>
      have habove : Above 12 l := hl.above rfl
      have hnil : l.flatMap (·.codesOf) = [] :=
        contents_eq_nil (fun _ => Section.codesOf_eq_nil) habove.rank_ne
      rw [codes_reencode_of_saw rfl habove, hnil]
      simp [Encoder.addSection, flatMap_injectGlobals, flatMap_injectExports, Section.codesOf]
    | _ =>
      rw [ih (by simpa [Encoder.addSection] using he) hl.tail]
      simp [Encoder.addSection, flatMap_injectGlobals, Section.codesOf]

end Contents

/-! ## What instrumentation returns -/

section Output

open Wasm (Ordered contents_eq_nil)

variable {readerError : TypeDef S → String} {m m' : Module S}

/-- What the first pass collects of a module in order. -/
def metadata (m : Module S) : Metadata where
  existingGlobalCount := m.globalTypes.length
  importFuncCount := m.importedFuncs.length
  existingTypeCount := m.types.length
  funcTypeIndices := m.functions
  typeReturns := m.types.map returnCount

/-- The instrumented module, for a module in order that has function types only. -/
def output (m : Module S) : Module S :=
  ⟨reencode (metadata m) m.functions.length
    ⟨0, m.importedFuncs.length, false, false, false, false⟩ m.sections⟩

theorem collect_eq_metadata (hm : Ordered m.sections) (hfunc : ∀ t ∈ m.types, ∃ f, t = .func f) :
    collect readerError ⟨0, 0, 0, [], []⟩ m.sections = .ok (metadata m) := by
  have hcount : (if m.sections.any (fun s => s.rank = some 1) then
      (m.sections.flatMap (·.typesOf)).length else 0) = m.types.length := by
    split
    case isTrue => rfl
    case isFalse hany =>
      -- without a type section there are no types
      have hnot := any_rank_eq_false_iff.mp (Bool.eq_false_of_not_eq_true hany)
      have hnil : m.types = [] := contents_eq_nil (fun _ => Section.typesOf_eq_nil) hnot
      rw [hnil]
      rfl
  rw [collect_eq_ok hm hfunc, hcount]
  simp [metadata, Module.globalTypes, Module.importedGlobals, Module.importedFuncs,
    Module.imports, Module.globals, Module.functions, Module.types]

/-- **What instrumentation returns**: the output, unless the reader of the types gives up. -/
theorem instrument_eq_ok_iff (hm : Ordered m.sections) :
    instrument readerError (new m) m = .ok m' ↔
      (∀ t ∈ m.types, ∃ f, t = .func f) ∧ output m = m' := by
  have hout {md : Metadata} (hmd : collect readerError ⟨0, 0, 0, [], []⟩ m.sections = .ok md) :
      instrument readerError (new m) m =
        .ok ⟨reencode md m.functions.length
          ⟨0, md.importFuncCount, false, false, false, false⟩ m.sections⟩ := by
    rw [instrument, hmd, length_funcNames hm]
    rfl
  constructor
  · intro h
    cases hmd : collect readerError ⟨0, 0, 0, [], []⟩ m.sections with
    | error err =>
      rw [instrument, hmd] at h
      nomatch h
    | ok md =>
      have hfunc : ∀ t ∈ m.types, ∃ f, t = .func f := exists_func_of_collect hmd
      rw [hout (collect_eq_metadata hm hfunc)] at h
      exact ⟨hfunc, Except.ok.inj h⟩
  · rintro ⟨hfunc, rfl⟩
    exact hout (collect_eq_metadata hm hfunc)

theorem types_output (hm : Ordered m.sections) :
    (output m).types =
      m.types ++ if m.sections.any (fun s => s.rank = some 1) then [.func wrapperType] else [] :=
  types_reencode hm

theorem imports_output : (output m).imports = m.imports := imports_reencode

theorem others_output : (output m).others = m.others := others_reencode

theorem functions_output (hm : Ordered m.sections) :
    (output m).functions =
      m.functions ++ List.replicate m.functions.length m.types.length := by
  rw [Module.functions, output, functions_reencode hm]
  split
  case isTrue => rfl
  case isFalse hany =>
    -- without a function section there are no functions
    have hnot := any_rank_eq_false_iff.mp (Bool.eq_false_of_not_eq_true hany)
    have hnil : m.functions = [] := contents_eq_nil (fun _ => Section.functionsOf_eq_nil) hnot
    rw [hnil, List.append_nil]
    exact hnil

theorem globals_output (hm : Ordered m.sections) :
    (output m).globals = m.globals ++ counterGlobals m.functions.length :=
  globals_reencode rfl hm

theorem exports_output (hm : Ordered m.sections) :
    (output m).exports =
      m.exports ++ counterExports (m.importedFuncs.length + m.functions.length)
        m.functions.length :=
  exports_reencode rfl hm rfl

theorem codes_output (hm : Ordered m.sections) :
    (output m).codes =
      m.codes.mapIdx (fun i b => instrumentBody (m.globalTypes.length + i) b) ++
        wrapperBodies (metadata m) m.functions.length := by
  rw [Module.codes, output, codes_reencode rfl hm]
  simp [metadata, Module.codes]

end Output

end WasmInstrumenter

end Core.Simulation
