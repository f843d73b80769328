import SkyMoonScope.Core.Simulation.Instrumenter.Order
import SkyMoonScope.Lib.Wasm.Validation

/-!
# Valid instrumented modules

The instrumented module has the sections of the original one, and more of each kind after what was
there, so that every index keeps its meaning. It is valid unless a wrapper is not, its exports come
too late or have a name that is taken, or there are too many of them.

## Main definitions

* `Instrumentable`: the modules that can be instrumented

## Main results

* `bodyValid_wrapperBody_iff`: when a wrapper is valid
* `context_extends`: every index of the original module means the same
* `valid_output_iff`: the instrumented module is valid exactly when the original is instrumentable
-/

namespace Core.Simulation.WasmInstrumenter

open Wasm

variable {S : Signature}

/-! ## Names -/

theorem countName_injective {i j : ℕ} (h : countName i = countName j) : i = j := by
  have hrepr : i.repr = j.repr := (String.append_right_inj _).mp h
  calc
    i = Nat.ofDigitChars 10 i.repr.toList 0 := by
      rw [Nat.toList_repr, Nat.ofDigitChars_ten_toDigits]
    _ = Nat.ofDigitChars 10 j.repr.toList 0 := by rw [hrepr]
    _ = j := by rw [Nat.toList_repr, Nat.ofDigitChars_ten_toDigits]

/-! ## Bodies -/

section Bodies

variable {L : Language S} {C : Context S} {t : FuncType S} {b : Wasm.Body S} {g i : ℕ}

/-- Counting leaves the stack as it is. -/
theorem foldlM_countInstrs {locals : List (ValType S)}
    (hg : C.globals[g]? = some ⟨.i64, true⟩) :
    (countInstrs g).foldlM (L.step C locals) (L.start t) = some (L.start t) := by
  simp [countInstrs, Language.step, Language.start, hg, VState.push, Language.binary,
    Language.popAll, Language.popExpect, VState.pop, Language.sub]

theorem bodyValid_instrumentBody_iff (hg : C.globals[g]? = some ⟨.i64, true⟩) :
    BodyValid L C t (instrumentBody g b) ↔ BodyValid L C t b := by
  rw [BodyValid, BodyValid, instrumentBody, List.foldlM_append, foldlM_countInstrs hg]
  rfl

theorem foldlM_drop {c : Ctrl S} (hc : c.height = 0) {locals : List (ValType S)}
    {vals : List (Option (ValType S))} :
    (List.replicate vals.length (Instr.drop : Instr S)).foldlM (L.step C locals) ⟨vals, [c]⟩ =
      some ⟨[], [c]⟩ := by
  induction vals with
  | nil => rfl
  | cons v vals ih =>
    rw [List.length_cons, List.replicate_succ, List.foldlM_cons]
    simpa [Language.step, VState.pop, hc] using ih

/-- Nothing can be taken from the stack at the start of a body. -/
theorem eq_nil_of_popAll_start {types : List (TypeDef S)} {ts : List (ValType S)}
    {s : VState S} (h : L.popAll types (L.start t) ts = some s) : ts = [] := by
  cases hr : ts.reverse with
  | nil => exact List.reverse_eq_nil_iff.mp hr
  | cons a as =>
    simp [Language.popAll, hr, List.foldlM_cons, Language.popExpect, VState.pop,
      Language.start] at h

/-- **A wrapper is valid exactly when its function takes no parameters**: it has none to give. -/
theorem bodyValid_wrapperBody_iff {md : Metadata}
    (hcall : C.typeOf (md.importFuncCount + i) = some t)
    (hg : C.globals[md.existingGlobalCount + i]? = some ⟨.i64, true⟩)
    (hret : md.retCount i = t.results.length) :
    BodyValid L C wrapperType (md.wrapperBody i) ↔ t.params = [] := by
  constructor
  · rintro ⟨-, s, hs, -⟩
    rw [Metadata.wrapperBody, List.cons_append, List.foldlM_cons] at hs
    obtain ⟨u, hu, -⟩ := Option.bind_eq_some_iff.mp hs
    have hcons : (L.start wrapperType).ctrls = [⟨L.entry, [.i64], 0, false⟩] := rfl
    simp only [Language.step, hcons, hcall] at hu
    obtain ⟨v, hv, -⟩ := Option.map_eq_some_iff.mp hu
    exact eq_nil_of_popAll_start hv
  · intro hparams
    refine ⟨by simp [Metadata.wrapperBody], ⟨[some .i64], []⟩, ?_, rfl⟩
    generalize wrapperType.params ++ (md.wrapperBody i).localTypes = locals
    -- after the call and the drops the stack is empty again
    have hcalled : L.step C locals (L.start wrapperType) (.call (md.importFuncCount + i)) =
        some ⟨t.results.reverse.map some, [⟨L.entry, [.i64], 0, false⟩]⟩ := by
      simp [Language.step, Language.start, hcall, hparams, Language.popAll, VState.pushAll,
        wrapperType]
    have hdropped : (List.replicate (md.retCount i) (Instr.drop : Instr S)).foldlM
        (L.step C locals) ⟨t.results.reverse.map some, [⟨L.entry, [.i64], 0, false⟩]⟩ =
        some ⟨[], [⟨L.entry, [.i64], 0, false⟩]⟩ := by
      have hlen : md.retCount i = (t.results.reverse.map some).length := by simp [hret]
      rw [hlen]
      exact foldlM_drop rfl
    rw [Metadata.wrapperBody, List.cons_append, List.foldlM_cons, hcalled, Option.bind_eq_bind,
      Option.bind_some, List.foldlM_append, hdropped, Option.bind_eq_bind, Option.bind_some]
    simp [Language.step, hg, VState.push, VState.pushAll, Language.binary, Language.popAll,
      Language.popExpect, VState.pop, Language.sub]

end Bodies

/-! ## Contexts -/

section Contexts

variable {m : Module S}

theorem importedFuncs_output : (output m).importedFuncs = m.importedFuncs := by
  rw [Module.importedFuncs, imports_output]
  rfl

theorem importedGlobals_output : (output m).importedGlobals = m.importedGlobals := by
  rw [Module.importedGlobals, imports_output]
  rfl

theorem funcs_output (hm : Ordered m.sections) :
    (output m).funcs = m.funcs ++ List.replicate m.functions.length m.types.length := by
  rw [Module.funcs, importedFuncs_output, functions_output hm, ← List.append_assoc]
  rfl

theorem globalTypes_output (hm : Ordered m.sections) :
    (output m).globalTypes = m.globalTypes ++ List.replicate m.functions.length ⟨.i64, true⟩ := by
  rw [Module.globalTypes, importedGlobals_output, globals_output hm, List.map_append,
    ← List.append_assoc, counterGlobals, List.map_replicate]
  rfl

/-- **Every index of the original module means the same.** -/
theorem context_extends (hm : Ordered m.sections) : m.context.Extends (output m).context where
  types := by
    rw [Module.context, Module.context, types_output hm]
    exact List.prefix_append _ _
  imports := imports_output.symm
  funcs := by
    rw [Module.context, Module.context, funcs_output hm]
    exact List.prefix_append _ _
  globals := by
    rw [Module.context, Module.context, globalTypes_output hm]
    exact List.prefix_append _ _
  inits := by
    rw [Module.context, Module.context, globals_output hm, List.map_append]
    exact List.prefix_append _ _
  exports := by
    rw [Module.context, Module.context, exports_output hm]
    exact List.prefix_append _ _
  others := others_output.symm

theorem types_eq_nil (hany : m.sections.any (fun s => s.rank = some 1) = false) :
    m.types = [] :=
  contents_eq_nil (fun _ => Section.typesOf_eq_nil) (any_rank_eq_false_iff.mp hany)

/-- Where there are functions, there is a type section, and the type of the wrappers is the next. -/
theorem types_output_of_pos (hm : Ordered m.sections) (hn : 0 < m.functions.length)
    (hfunctions : ∀ f ∈ m.functions, (typeAt m.types f).isSome) :
    (output m).types = m.types ++ [.func wrapperType] := by
  have hany : m.sections.any (fun s => s.rank = some 1) = true := by
    by_contra hnone
    have hnil := types_eq_nil (Bool.eq_false_of_not_eq_true hnone)
    have hsome := hfunctions _ (List.getElem_mem hn)
    simp [hnil, typeAt] at hsome
  rw [types_output hm, if_pos hany]

theorem typeAt_output (hm : Ordered m.sections) (hn : 0 < m.functions.length)
    (hfunctions : ∀ f ∈ m.functions, (typeAt m.types f).isSome)
    (hfunc : ∀ t ∈ m.types, ∃ f, t = .func f) :
    typeAt (output m).types m.types.length = some wrapperType := by
  rw [types_output_of_pos hm hn hfunctions, typeAt_eq_some_iff, List.getElem?_concat_length]
  intro t ht
  rcases List.mem_append.mp ht with ht | ht
  · exact hfunc t ht
  · exact ⟨wrapperType, List.mem_singleton.mp ht⟩

/-- The type of a defined function. -/
theorem typeOf_defined {i f : ℕ} {t : FuncType S} (hf : m.functions[i]? = some f)
    (ht : typeAt m.types f = some t) :
    m.context.typeOf (m.importedFuncs.length + i) = some t := by
  have hfuncs : m.funcs[m.importedFuncs.length + i]? = some f := by
    rw [Module.funcs, List.getElem?_append_right (Nat.le_add_right _ _), Nat.add_sub_cancel_left,
      hf]
  exact Option.bind_eq_some_iff.mpr ⟨f, hfuncs, ht⟩

/-- The global of a counter. -/
theorem globals_counter (hm : Ordered m.sections) {i : ℕ} (hi : i < m.functions.length) :
    (output m).context.globals[m.globalTypes.length + i]? = some ⟨.i64, true⟩ := by
  rw [Module.context, globalTypes_output hm,
    List.getElem?_append_right (Nat.le_add_right _ _), Nat.add_sub_cancel_left,
    List.getElem?_replicate, if_pos hi]

theorem retCount_metadata (hfunc : ∀ t ∈ m.types, ∃ f, t = .func f) {i f : ℕ} {t : FuncType S}
    (hf : m.functions[i]? = some f) (ht : typeAt m.types f = some t) :
    (metadata m).retCount i = t.results.length := by
  rw [typeAt_eq_some_iff hfunc] at ht
  simp [Metadata.retCount, metadata, hf, ht, returnCount]

end Contexts

/-! ## Validity -/

/-- The modules that can be instrumented: only function types, no parameters of defined functions,
no export with the name of a wrapper, no start, element or data count section unless there is an
export section, and room for one more type and, for each defined function, one more function, global
and export. -/
structure Instrumentable (m : Module S) : Prop where
  types : ∀ t ∈ m.types, ∃ f, t = .func f
  params : ∀ f ∈ m.functions, ∀ t, typeAt m.types f = some t → t.params = []
  names : ∀ i < m.functions.length, ∀ e ∈ m.exports, e.name ≠ countName i
  order : m.functions = [] ∨ (∃ es, .exports es ∈ m.sections) ∨
    ∀ id x, .other id x ∈ m.sections → id ≠ .start ∧ id ≠ .element ∧ id ≠ .dataCount
  sizeTypes : m.types.length + 1 < 2 ^ 32
  sizeFuncs : m.funcs.length + m.functions.length < 2 ^ 32
  sizeGlobals : m.globalTypes.length + m.functions.length < 2 ^ 32
  sizeExports : m.exports.length + m.functions.length < 2 ^ 32

theorem order_iff {l : List (Section S)} :
    ((∃ s ∈ l, s.rank = some 8) ∨ ∀ s ∈ l, ∀ r ∈ s.rank, r ≤ 8 ∨ 12 ≤ r) ↔
      (∃ es, .exports es ∈ l) ∨
        ∀ id x, .other id x ∈ l → id ≠ .start ∧ id ≠ .element ∧ id ≠ .dataCount := by
  refine or_congr ⟨?_, fun ⟨es, hes⟩ => ⟨_, hes, rfl⟩⟩ ⟨fun h id x hx => ?_, fun h s hs r hr => ?_⟩
  · rintro ⟨s, hs, hr⟩
    obtain ⟨es, rfl⟩ := Section.eq_exports_of_rank hr
    exact ⟨es, hs⟩
  · have hid := h _ hx id.rank rfl
    cases id <;> simp [SectionId.rank] at hid ⊢
  · by_contra hgap
    obtain ⟨id, x, rfl⟩ := exists_other_of_rank hr (by omega) (by omega)
    obtain rfl : id.rank = r := by simpa [Section.rank] using hr
    have hid := h id x hs
    cases id <;> simp [SectionId.rank] at hid hgap

section Validity

variable {L : Language S} {m : Module S}

theorem names_output (hm : Ordered m.sections) :
    (output m).exports.map (·.name) =
      m.exports.map (·.name) ++ (List.range m.functions.length).map countName := by
  rw [exports_output hm, List.map_append, counterExports, List.map_map]
  rfl

theorem nodup_names_iff (hm : Ordered m.sections) (hnames : (m.exports.map (·.name)).Nodup) :
    ((output m).exports.map (·.name)).Nodup ↔
      ∀ i < m.functions.length, ∀ e ∈ m.exports, e.name ≠ countName i := by
  have hcounts : ((List.range m.functions.length).map countName).Nodup :=
    List.nodup_range.map fun _ _ => countName_injective
  rw [names_output hm, List.nodup_append]
  simp only [hnames, hcounts, true_and, List.mem_map, List.mem_range]
  constructor
  · exact fun h i hi e he => h _ ⟨e, he, rfl⟩ _ ⟨i, hi, rfl⟩
  · rintro h _ ⟨e, he, rfl⟩ _ ⟨i, hi, rfl⟩
    exact h i hi e he

/-- The wrapper of a defined function is valid exactly when the function takes no parameters. -/
theorem bodyValid_wrapper_iff (hv : Valid L m) (hfunc : ∀ t ∈ m.types, ∃ f, t = .func f)
    {i f : ℕ} {t : FuncType S} (hf : m.functions[i]? = some f)
    (ht : typeAt m.types f = some t) :
    BodyValid L (output m).context wrapperType ((metadata m).wrapperBody i) ↔ t.params = [] :=
  bodyValid_wrapperBody_iff
    ((context_extends hv.ordered).typeOf (typeOf_defined hf ht))
    (globals_counter hv.ordered (List.getElem?_eq_some_iff.mp hf).1)
    (retCount_metadata hfunc hf ht)

theorem functions_output_wrapper (hm : Ordered m.sections) {i : ℕ}
    (hi : i < m.functions.length) :
    (output m).functions[m.functions.length + i]? = some m.types.length := by
  rw [functions_output hm, List.getElem?_append_right (Nat.le_add_right _ _),
    Nat.add_sub_cancel_left, List.getElem?_replicate, if_pos hi]

theorem codes_output_wrapper (hm : Ordered m.sections)
    (hcodes : m.codes.length = m.functions.length) {i : ℕ} (hi : i < m.functions.length) :
    (output m).codes[m.functions.length + i]? = some ((metadata m).wrapperBody i) := by
  have hlen : (m.codes.mapIdx fun i b => instrumentBody (m.globalTypes.length + i) b).length =
      m.functions.length := by rw [List.length_mapIdx, hcodes]
  rw [codes_output hm, ← hlen, List.getElem?_append_right (Nat.le_add_right _ _),
    Nat.add_sub_cancel_left, hlen, wrapperBodies, List.getElem?_map, List.getElem?_range hi]
  rfl

/-- What a valid instrumented module says of the original. -/
theorem instrumentable_of_valid (hv : Valid L m) (hfunc : ∀ t ∈ m.types, ∃ f, t = .func f)
    (hout : Valid L (output m)) : Instrumentable m where
  types := hfunc
  params := by
    intro f hf t ht
    obtain ⟨i, hi, rfl⟩ := List.getElem_of_mem hf
    refine (bodyValid_wrapper_iff hv hfunc (List.getElem?_eq_getElem hi) ht).mp ?_
    exact hout.bodies _ _ _ _ (functions_output_wrapper hv.ordered hi)
      (typeAt_output hv.ordered (Nat.zero_lt_of_lt hi) hv.functions hfunc)
      (codes_output_wrapper hv.ordered hv.length_codes hi)
  names := (nodup_names_iff hv.ordered hv.names).mp hout.names
  order := by
    rw [← order_iff]
    exact (ordered_output_iff hv.ordered hv.length_codes).mp hout.ordered
  sizeTypes := by
    have hsize := hout.sized.types
    rw [types_output hv.ordered, List.length_append] at hsize
    cases hany : m.sections.any (fun s => s.rank = some 1) with
    | true => simpa [hany] using hsize
    | false =>
      rw [types_eq_nil hany]
      norm_num
  sizeFuncs := by simpa [funcs_output hv.ordered] using hout.sized.funcs
  sizeGlobals := by simpa [globalTypes_output hv.ordered] using hout.sized.globals
  sizeExports := by simpa [exports_output hv.ordered, counterExports] using hout.sized.exports

/-- What is at an index of a list that has been extended. -/
theorem getElem?_append_cases {α : Type*} {l₁ l₂ : List α} {i : ℕ} {a : α}
    (h : (l₁ ++ l₂)[i]? = some a) :
    l₁[i]? = some a ∨ ∃ j, i = l₁.length + j ∧ l₂[j]? = some a := by
  rcases Nat.lt_or_ge i l₁.length with hi | hi
  · exact .inl (by rwa [List.getElem?_append_left hi] at h)
  · rw [List.getElem?_append_right hi] at h
    exact .inr ⟨i - l₁.length, by omega, h⟩

/-- Every type of the output is valid: the wrappers' type mentions no other. -/
theorem types_valid (hv : Valid L m) (i : ℕ) (t : TypeDef S)
    (ht : (output m).types[i]? = some t) :
    TypeDefValid L ((output m).types.take (i + 1)) t := by
  rw [types_output hv.ordered] at ht ⊢
  rcases getElem?_append_cases ht with hold | ⟨j, rfl, hnew⟩
  · rw [List.take_append_of_le_length (List.getElem?_eq_some_iff.mp hold).1]
    exact hv.types i t hold
  · obtain rfl : t = .func wrapperType := by
      have hmem := List.mem_of_getElem? hnew
      split at hmem
      case isTrue => exact List.mem_singleton.mp hmem
      case isFalse => nomatch hmem
    simp [TypeDefValid, wrapperType, Language.ValTypeValid]

/-- The bodies of the output are valid: those of the original still are, and so are the wrappers of
functions without parameters. -/
theorem bodies_valid (hL : L.Lawful) (hv : Valid L m) (hm : Instrumentable m) (i f : ℕ)
    (t : FuncType S) (b : Wasm.Body S) (hf : (output m).functions[i]? = some f)
    (ht : typeAt (output m).types f = some t) (hb : (output m).codes[i]? = some b) :
    BodyValid L (output m).context t b := by
  have hord := hv.ordered
  rw [functions_output hord] at hf
  rcases getElem?_append_cases hf with hold | ⟨j, rfl, hnew⟩
  · -- a function of the original module
    have hi : i < m.functions.length := (List.getElem?_eq_some_iff.mp hold).1
    obtain ⟨t₀, ht₀⟩ := Option.isSome_iff_exists.mp (hv.functions f (List.mem_of_getElem? hold))
    obtain rfl : t₀ = t := Option.some.inj
      ((typeAt_mono (context_extends hord).types ht₀).symm.trans ht)
    have hlen : i < (m.codes.mapIdx fun i b =>
        instrumentBody (m.globalTypes.length + i) b).length := by
      rw [List.length_mapIdx, hv.length_codes]
      exact hi
    rw [codes_output hord, List.getElem?_append_left hlen, List.getElem?_mapIdx] at hb
    obtain ⟨b₀, hb₀, rfl⟩ := Option.map_eq_some_iff.mp hb
    rw [bodyValid_instrumentBody_iff (globals_counter hord hi)]
    exact hL.bodyValid_mono (context_extends hord) (hv.bodies i f t₀ b₀ hold ht₀ hb₀)
  · -- a wrapper
    rw [List.getElem?_replicate] at hnew
    obtain ⟨hj, rfl⟩ : j < m.functions.length ∧ m.types.length = f := by simpa using hnew
    rw [typeAt_output hord (Nat.zero_lt_of_lt hj) hv.functions hm.types] at ht
    rw [codes_output_wrapper hord hv.length_codes hj] at hb
    obtain rfl := Option.some.inj ht
    obtain rfl := Option.some.inj hb
    have hfj : m.functions[j]? = some m.functions[j] := List.getElem?_eq_getElem hj
    have hmem : m.functions[j] ∈ m.functions := List.getElem_mem hj
    obtain ⟨t, ht⟩ := Option.isSome_iff_exists.mp (hv.functions _ hmem)
    exact (bodyValid_wrapper_iff hv hm.types hfj ht).mpr (hm.params _ hmem t ht)

theorem globalContext_extends (hm : Ordered m.sections) {i : ℕ} (hi : i < m.globals.length) :
    (m.globalContext i).Extends ((output m).globalContext i) := by
  have hlen : m.importedGlobals.length + i ≤ m.globalTypes.length := by
    rw [Module.globalTypes, List.length_append, List.length_map]
    omega
  refine { context_extends hm with globals := ?_, inits := ?_ }
  · show m.globalTypes.take _ <+: (output m).globalTypes.take _
    refine ⟨[], ?_⟩
    rw [List.append_nil, importedGlobals_output, globalTypes_output hm,
      List.take_append_of_le_length hlen]
  · show (m.globals.take i).map _ <+: ((output m).globals.take i).map _
    refine ⟨[], ?_⟩
    rw [List.append_nil, globals_output hm, List.take_append_of_le_length (Nat.le_of_lt hi)]

theorem globals_valid (hL : L.Lawful) (hv : Valid L m) (i : ℕ) (g : Global S)
    (hg : (output m).globals[i]? = some g) :
    GlobalValid L ((output m).globalContext i) g := by
  rw [globals_output hv.ordered] at hg
  rcases getElem?_append_cases hg with hold | ⟨j, rfl, hnew⟩
  · exact hL.globalValid_mono
      (globalContext_extends hv.ordered (List.getElem?_eq_some_iff.mp hold).1)
      (hv.globals i g hold)
  · obtain rfl : g = counterGlobal := List.eq_of_mem_replicate (List.mem_of_getElem? hnew)
    exact ⟨trivial, rfl⟩

theorem exports_valid (hL : L.Lawful) (hv : Valid L m) (e : Export S)
    (he : e ∈ (output m).exports) : ExportValid L (output m).context e := by
  rw [exports_output hv.ordered, List.mem_append] at he
  rcases he with he | he
  · exact hL.exportValid_mono (context_extends hv.ordered) (hv.exports e he)
  · obtain ⟨i, hi, rfl⟩ := List.mem_map.mp he
    have hi : i < m.functions.length := List.mem_range.mp hi
    show m.importedFuncs.length + m.functions.length + i < (output m).funcs.length
    rw [funcs_output hv.ordered, List.length_append, List.length_replicate, Module.funcs,
      List.length_append]
    omega

/-- **An instrumentable module is instrumented to a valid one.** -/
theorem valid_of_instrumentable (hL : L.Lawful) (hv : Valid L m) (hm : Instrumentable m) :
    Valid L (output m) where
  ordered := (ordered_output_iff hv.ordered hv.length_codes).mpr
    (hm.order.imp_right order_iff.mpr)
  types := types_valid hv
  imports := by
    intro i hi
    rw [imports_output] at hi
    exact hL.importValid_mono (context_extends hv.ordered) (hv.imports i hi)
  functions := by
    intro f hf
    rw [functions_output hv.ordered, List.mem_append] at hf
    rcases hf with hf | hf
    · obtain ⟨t, ht⟩ := Option.isSome_iff_exists.mp (hv.functions f hf)
      exact Option.isSome_iff_exists.mpr
        ⟨t, typeAt_mono (context_extends hv.ordered).types ht⟩
    · obtain ⟨hne, rfl⟩ := List.mem_replicate.mp hf
      exact Option.isSome_iff_exists.mpr ⟨_, typeAt_output hv.ordered
        (Nat.pos_of_ne_zero hne) hv.functions hm.types⟩
  length_codes := by
    rw [codes_output hv.ordered, functions_output hv.ordered]
    simp [wrapperBodies, hv.length_codes]
  bodies := bodies_valid hL hv hm
  globals := globals_valid hL hv
  exports := exports_valid hL hv
  names := (nodup_names_iff hv.ordered hv.names).mpr hm.names
  others := by
    intro o ho
    rw [others_output] at ho
    exact hL.otherValid (context_extends hv.ordered) _ _ (hv.others o ho)
  sized := {
    types := by
      refine Nat.lt_of_le_of_lt ?_ hm.sizeTypes
      rw [types_output hv.ordered, List.length_append]
      split <;> simp
    funcs := by simpa [funcs_output hv.ordered] using hm.sizeFuncs
    globals := by simpa [globalTypes_output hv.ordered] using hm.sizeGlobals
    exports := by simpa [exports_output hv.ordered, counterExports] using hm.sizeExports }

/-- **The instrumented module is valid exactly when the original is instrumentable.** -/
theorem valid_output_iff (hL : L.Lawful) (hv : Valid L m) :
    (∀ t ∈ m.types, ∃ f, t = .func f) ∧ Valid L (output m) ↔ Instrumentable m :=
  ⟨fun h => instrumentable_of_valid hv h.1 h.2,
    fun h => ⟨h.types, valid_of_instrumentable hL hv h⟩⟩

end Validity

end Core.Simulation.WasmInstrumenter
