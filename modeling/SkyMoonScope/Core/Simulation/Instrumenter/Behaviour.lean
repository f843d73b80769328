import SkyMoonScope.Core.Simulation.Instrumenter.Validity
import SkyMoonScope.Lib.Wasm.Execution

/-!
# Running instrumented modules

An instrumented module does what the original does, with the counters as more globals: where the
original enters a function, the instrumented module increments a counter first. The code outside of
the module, which holds the exports of the original, cannot tell the two apart.

## Main definitions

* `counted`: a state with counters

## Main results

* `simulates`: the instrumented module simulates the original
* `Preserves`: what instrumentation is to preserve
* `preserves_iff`: instrumentation preserves exactly the instrumentable modules
-/

namespace Core.Simulation.WasmInstrumenter

open Wasm Behaviour

variable {S : Signature} {sem : Semantics S} {m : Module S}

/-- A state of the original module, with counters after its globals. -/
def counted (c : Config S) (counts : List (BitVec 64)) : Config S :=
  { c with globals := c.globals ++ counts.map .i64 }

/-- The names that the code outside of the module knows: those of the original exports. -/
def knownNames (m : Module S) : List String := m.exports.map (·.name)

/-! ## Entering functions -/

/-- The activations of the instrumented module, where a counter may have to be incremented before
they are those of the original. -/
inductive Entered (m : Module S) : List (Activation S) → List (Activation S) → Prop
  | same (as : List (Activation S)) : Entered m as as
  | count (f : Frame S) (as : List (Activation S)) {i : ℕ} (hi : i < m.functions.length) :
      Entered m (.wasm f :: as)
        (.wasm { f with code := countInstrs (m.globalTypes.length + i) ++ f.code } :: as)

/-- The states of the two modules while a counter may have to be incremented. -/
structure Enters (m : Module S) (c c' : Config S) : Prop where
  length : c.globals.length = m.globalTypes.length
  globals : ∃ counts : List (BitVec 64), counts.length = m.functions.length ∧
    c'.globals = c.globals ++ counts.map .i64
  rest : c'.rest = c.rest
  activations : Entered m c.activations c'.activations

/-- The states of the two modules between their steps. -/
def Counts (m : Module S) (c c' : Config S) : Prop :=
  c.globals.length = m.globalTypes.length ∧
    ∃ counts : List (BitVec 64), counts.length = m.functions.length ∧ c' = counted c counts

/-- Four instructions increment a counter. -/
theorem run_countInstrs {m' : Module S} {names : List String} {gs : List (Value S)}
    {counts : List (BitVec 64)} {rest : S.Rest} {f : Frame S} {as : List (Activation S)} {i : ℕ}
    (hi : i < counts.length) :
    run (step sem m' names) 4 ⟨gs ++ counts.map .i64, rest,
        .wasm { f with code := countInstrs (gs.length + i) ++ f.code } :: as⟩ =
      .running ⟨gs ++ (counts.set i (counts[i] + 1)).map .i64, rest, .wasm f :: as⟩ := by
  have hget : (gs ++ counts.map (Value.i64 (S := S)))[gs.length + i]? = some (.i64 counts[i]) := by
    rw [List.getElem?_append_right (Nat.le_add_right _ _), Nat.add_sub_cancel_left,
      List.getElem?_map, List.getElem?_eq_getElem hi]
    rfl
  simp only [run, step, countInstrs, List.cons_append, List.nil_append, instrStep, hget,
    Config.resume, Frame.binary, Option.map_some]
  simp [hi]

/-- Where a counter has to be incremented, it is. -/
theorem Enters.counts {names : List String} {c c' : Config S} (h : Enters m c c') :
    ∃ k c'', run (step sem (output m) names) k c' = .running c'' ∧ Counts m c c'' := by
  obtain ⟨gs', rest', as'⟩ := c'
  obtain ⟨hlen, ⟨counts, hcounts, hglobals⟩, hrest, has⟩ := h
  obtain ⟨gs, rest, as⟩ := c
  simp only at hlen hglobals hrest has
  subst hglobals hrest
  cases has with
  | same as => exact ⟨0, _, rfl, hlen, counts, hcounts, rfl⟩
  | count f as hi =>
    rw [← hlen]
    exact ⟨4, _, run_countInstrs (hcounts ▸ hi), hlen, _, by simpa using hcounts, rfl⟩

/-! ## Simulation -/

section Simulation

variable {c : Config S} {counts : List (BitVec 64)} {f : ℕ} {args : List (Value S)}
  {as as' : List (Activation S)} {rest : S.Rest} {names : List String} {name : String}

/-- A step of the instrumented module that matches one of the original, unless this goes wrong. -/
inductive Matches (m : Module S) :
    Step (Config S) (Wasm.Outcome S) → Step (Config S) (Wasm.Outcome S) → Prop
  | running {c c' : Config S} (h : Enters m c c') : Matches m (.running c) (.running c')
  | done (o : Wasm.Outcome S) : Matches m (.done o) (.done o)
  | wrong (r : Step (Config S) (Wasm.Outcome S)) : Matches m .wrong r

/-- The same function is entered, after its counter if it is a function of the module. -/
theorem call_output (hm : Ordered m.sections) (hcodes : m.codes.length = m.functions.length)
    (h : sem.call m f args as = some as') :
    ∃ as'', sem.call (output m) f args as = some as'' ∧ Entered m as' as'' := by
  unfold Semantics.call at h ⊢
  rw [importedFuncs_output]
  by_cases hf : f < m.importedFuncs.length
  · obtain rfl := Option.some.inj ((if_pos hf).symm.trans h)
    exact ⟨_, if_pos hf, .same _⟩
  · rw [if_neg hf] at h
    rw [if_neg hf]
    obtain ⟨b, hb, rfl⟩ := Option.map_eq_some_iff.mp h
    have hlt : f - m.importedFuncs.length < m.codes.length := (List.getElem?_eq_some_iff.mp hb).1
    refine ⟨_, ?_, .count _ as (hcodes ▸ hlt)⟩
    rw [codes_output hm, List.getElem?_append_left (by rwa [List.length_mapIdx]),
      List.getElem?_mapIdx, hb]
    rfl

/-- The exports of the original are found under their names. -/
theorem exported_output (hm : Ordered m.sections) :
    (output m).exported (knownNames m) name = m.exported (knownNames m) name := by
  unfold Module.exported
  by_cases hname : name ∈ knownNames m
  · obtain ⟨e, he, hen⟩ := List.mem_map.mp hname
    have hsome : (m.exports.find? (·.name = name)).isSome := by
      rw [List.find?_isSome]
      exact ⟨e, he, by simpa using hen⟩
    obtain ⟨e', he'⟩ := Option.isSome_iff_exists.mp hsome
    rw [exports_output hm, List.find?_append, he', Option.some_or]
  · rw [if_neg hname, if_neg hname]

theorem Matches.next (hlen : c.globals.length = m.globalTypes.length)
    (hcounts : counts.length = m.functions.length) (as : List (Activation S)) :
    Matches m (.running { c with rest, activations := as })
      (.running { counted c counts with rest, activations := as }) :=
  .running ⟨hlen, ⟨counts, hcounts, rfl⟩, rfl, .same as⟩

theorem Matches.resume (hlen : c.globals.length = m.globalTypes.length)
    (hcounts : counts.length = m.functions.length) {o o' : Option (List (Activation S))}
    (h : ∀ as, o = some as → ∃ as', o' = some as' ∧ Entered m as as') :
    Matches m (c.resume o) ((counted c counts).resume o') := by
  cases o with
  | none => exact .wrong _
  | some as =>
    obtain ⟨as', rfl, has⟩ := h as rfl
    exact .running ⟨hlen, ⟨counts, hcounts, rfl⟩, rfl, has⟩

theorem Matches.resume_same (hlen : c.globals.length = m.globalTypes.length)
    (hcounts : counts.length = m.functions.length) (o : Option (List (Activation S))) :
    Matches m (c.resume o) ((counted c counts).resume o) :=
  .resume hlen hcounts fun as h => ⟨as, h, .same as⟩

theorem Matches.trap (hlen : c.globals.length = m.globalTypes.length)
    (hcounts : counts.length = m.functions.length) (as : List (Activation S)) :
    Matches m (c.trap sem as) ((counted c counts).trap sem as) := by
  unfold Config.trap
  cases sem.unwind as with
  | none => exact .done _
  | some as' => exact .next hlen hcounts as'

theorem getElem?_counted {x : ℕ} {v : Value S} (hx : c.globals[x]? = some v) :
    (counted c counts).globals[x]? = some v := by
  rw [counted, List.getElem?_append_left (List.getElem?_eq_some_iff.mp hx).1, hx]

/-- A global of the original is set in both. -/
theorem Matches.set {x : ℕ} {v : Value S} (hlen : c.globals.length = m.globalTypes.length)
    (hcounts : counts.length = m.functions.length) (as : List (Activation S)) :
    Matches m
      (if x < c.globals.length then
        .running { c with globals := c.globals.set x v, activations := as } else .wrong)
      (if x < (counted c counts).globals.length then
        .running { counted c counts with
          globals := (counted c counts).globals.set x v, activations := as } else .wrong) := by
  split
  case isFalse => exact .wrong _
  case isTrue hx =>
    have hx' : x < (counted c counts).globals.length := by
      rw [counted, List.length_append]
      omega
    rw [if_pos hx']
    refine .running ⟨by rwa [List.length_set], ⟨counts, hcounts, ?_⟩, rfl, .same as⟩
    exact List.set_append_left _ _ hx

theorem hostStep_matches (hm : Ordered m.sections)
    (hcodes : m.codes.length = m.functions.length)
    (hlen : c.globals.length = m.globalTypes.length)
    (hcounts : counts.length = m.functions.length) (h : S.Host) (as : List (Activation S)) :
    Matches m (hostStep sem m (knownNames m) c h as)
      (hostStep sem (output m) (knownNames m) (counted c counts) h as) := by
  unfold hostStep
  have hrest : (counted c counts).rest = c.rest := rfl
  rw [hrest]
  cases sem.act h c.rest with
  | next h rest => exact .next hlen hcounts _
  | call name args h =>
    simp only [exported_output hm]
    cases m.exported (knownNames m) name with
    | none => exact .resume_same hlen hcounts _
    | some d =>
      cases d with
      | func f => exact .resume hlen hcounts fun _ => call_output hm hcodes
      | global i => exact .resume_same hlen hcounts _
      | other x => exact .resume_same hlen hcounts _
  | invoke f args h => exact .resume hlen hcounts fun _ => call_output hm hcodes
  | getGlobal name h =>
    simp only [exported_output hm]
    cases m.exported (knownNames m) name with
    | none => exact .resume_same hlen hcounts _
    | some d =>
      cases d with
      | func f => exact .resume_same hlen hcounts _
      | global i =>
        cases hx : c.globals[i]? with
        | none =>
          simp only [hx]
          exact .wrong _
        | some v =>
          simp only [hx, getElem?_counted hx]
          exact .resume_same hlen hcounts _
      | other x => exact .resume_same hlen hcounts _
  | setGlobal name v h =>
    simp only [exported_output hm]
    cases m.exported (knownNames m) name with
    | none => exact .resume_same hlen hcounts _
    | some d =>
      cases d with
      | func f => exact .resume_same hlen hcounts _
      | global i => exact .set hlen hcounts _
      | other x => exact .resume_same hlen hcounts _
  | ret vs =>
    cases as with
    | nil => exact .done _
    | cons a as => exact .resume_same hlen hcounts _
  | trap => exact .trap hlen hcounts as

theorem instrStep_matches (hm : Ordered m.sections)
    (hcodes : m.codes.length = m.functions.length)
    (hlen : c.globals.length = m.globalTypes.length)
    (hcounts : counts.length = m.functions.length) (f : Frame S) (as : List (Activation S))
    (i : Instr S) :
    Matches m (instrStep sem m c f as i)
      (instrStep sem (output m) (counted c counts) f as i) := by
  unfold instrStep
  cases i with
  | globalGet x =>
    cases hx : c.globals[x]? with
    | none =>
      simp only [hx]
      exact .wrong _
    | some v =>
      simp only [hx, getElem?_counted hx]
      exact .resume_same hlen hcounts _
  | globalSet x =>
    cases f.stack with
    | nil => exact .wrong _
    | cons v stack => exact .set hlen hcounts _
  | i64Const a => exact .resume_same hlen hcounts _
  | i64Add => exact .resume_same hlen hcounts _
  | i64Shl => exact .resume_same hlen hcounts _
  | i64Or => exact .resume_same hlen hcounts _
  | drop =>
    cases f.stack with
    | nil => exact .wrong _
    | cons v stack => exact .resume_same hlen hcounts _
  | call i =>
    cases ht : m.context.typeOf i with
    | none =>
      simp only [ht]
      exact .wrong _
    | some t =>
      simp only [ht, (context_extends hm).typeOf ht]
      split
      · exact .resume hlen hcounts fun _ => call_output hm hcodes
      · exact .wrong _
  | endBlock =>
    cases f.labels with
    | nil => exact .resume_same hlen hcounts _
    | cons l labels => exact .resume_same hlen hcounts _
  | op o =>
    have hrest : (counted c counts).rest = c.rest := rfl
    simp only [hrest]
    cases sem.exec o f as c.rest with
    | next as rest => exact .next hlen hcounts as
    | call i args as rest =>
      exact .resume (c := { c with rest }) hlen hcounts fun _ => call_output hm hcodes
    | trap rest => exact .trap (c := { c with rest }) hlen hcounts as

/-- Every step matches. -/
theorem step_matches (hm : Ordered m.sections) (hcodes : m.codes.length = m.functions.length)
    (hlen : c.globals.length = m.globalTypes.length)
    (hcounts : counts.length = m.functions.length) :
    Matches m (step sem m (knownNames m) c)
      (step sem (output m) (knownNames m) (counted c counts)) := by
  unfold step
  have has : (counted c counts).activations = c.activations := rfl
  rw [has]
  cases c.activations with
  | nil => exact .wrong _
  | cons a as =>
    cases a with
    | host h => exact hostStep_matches hm hcodes hlen hcounts h as
    | wasm f =>
      obtain ⟨code, stack, locals, labels⟩ := f
      cases code with
      | nil => exact .wrong _
      | cons i code => exact instrStep_matches hm hcodes hlen hcounts _ as i

/-- **The instrumented module simulates the original.** -/
theorem simulates (sem : Semantics S) (hm : Ordered m.sections)
    (hcodes : m.codes.length = m.functions.length) :
    Simulates (step sem m (knownNames m)) (step sem (output m) (knownNames m)) (Counts m) where
  running := by
    rintro c c' c₁ ⟨hlen, counts, hcounts, rfl⟩ hstep
    have hmatch : Matches m (step sem m (knownNames m) c) _ :=
      step_matches hm hcodes hlen hcounts
    rw [hstep] at hmatch
    generalize hstep' : step sem (output m) (knownNames m) (counted c counts) = r at hmatch
    cases hmatch with
    | running h =>
      obtain ⟨k, c'', hrun, hc''⟩ := h.counts
      exact ⟨k, c'', by rw [run_succ_of_running hstep', hrun], hc''⟩
  done := by
    rintro c c' o ⟨hlen, counts, hcounts, rfl⟩ hstep
    have hmatch : Matches m (step sem m (knownNames m) c) _ :=
      step_matches hm hcodes hlen hcounts
    rw [hstep] at hmatch
    generalize step sem (output m) (knownNames m) (counted c counts) = r at hmatch ⊢
    cases hmatch with
    | done => rfl

end Simulation

/-! ## New instances -/

theorem initGlobals_counterGlobals {vs : List (Value S)} {n : ℕ} :
    sem.initGlobals vs (counterGlobals n) = vs ++ (List.replicate n 0).map .i64 := by
  induction n generalizing vs with
  | zero => exact (List.append_nil vs).symm
  | succ n ih =>
    calc
      sem.initGlobals vs (counterGlobals (n + 1))
          = sem.initGlobals (vs ++ [.i64 0]) (counterGlobals n) := rfl
      _ = (vs ++ [.i64 0]) ++ (List.replicate n 0).map .i64 := ih
      _ = vs ++ (List.replicate (n + 1) 0).map .i64 := by simp [List.replicate_succ]

/-- A new instance has all counters at 0. -/
theorem initial_counts (hm : Ordered m.sections) {imported : List (Value S)} {rest : S.Rest}
    {embedder : S.Host} (himported : imported.length = m.importedGlobals.length) :
    Counts m (.initial sem m imported rest embedder)
      (.initial sem (output m) imported rest embedder) := by
  refine ⟨?_, List.replicate m.functions.length 0, List.length_replicate, ?_⟩
  · show (sem.initGlobals imported m.globals).length = m.globalTypes.length
    rw [Semantics.length_initGlobals, himported, Module.globalTypes, List.length_append,
      List.length_map]
  · rw [Config.initial, Config.initial, globals_output hm, Semantics.initGlobals_append,
      initGlobals_counterGlobals]
    rfl

/-! ## What instrumentation preserves -/

/-- Whatever the code around the modules does with the exports of the first, the outcome is the
same; valid modules do not go wrong. -/
def SameBehaviour (m m' : Module S) : Prop :=
  ∀ (sem : Semantics S) (imported : List (Value S)) (rest : S.Rest) (embedder : S.Host),
    imported.length = m.importedGlobals.length →
    ¬ GoesWrong (step sem m (knownNames m)) (.initial sem m imported rest embedder) →
    ∀ o, Reaches (step sem m (knownNames m)) (.initial sem m imported rest embedder) o ↔
      Reaches (step sem m' (knownNames m)) (.initial sem m' imported rest embedder) o

/-- The export for the defined function `i`: a function that first calls it, and has its parameters
and the result `i64`. -/
def WrapperExported (m m' : Module S) (i : ℕ) : Prop :=
  ∃ w b t, ⟨countName i, .func (m'.importedFuncs.length + w)⟩ ∈ m'.exports ∧
    m'.codes[w]? = some b ∧
    b.code.head? = some (.call (m.importedFuncs.length + i)) ∧
    m.context.typeOf (m.importedFuncs.length + i) = some t ∧
    m'.context.typeOf (m'.importedFuncs.length + w) = some ⟨t.params, [.i64]⟩

/-- What instrumentation is to preserve, and to add. -/
structure Preserves (L : Language S) (m m' : Module S) : Prop where
  valid : Valid L m'
  indices : m.context.Extends m'.context
  exports : ∀ e ∈ m.exports, e ∈ m'.exports ∧
    ∃ t, m.context.externType e.desc = some t ∧ m'.context.externType e.desc = some t
  behaviour : SameBehaviour m m'
  wrappers : ∀ i < m.functions.length, WrapperExported m m' i

theorem sameBehaviour_output (hm : Ordered m.sections)
    (hcodes : m.codes.length = m.functions.length) : SameBehaviour m (output m) :=
  fun sem _ _ _ himported hwrong _ =>
    (simulates sem hm hcodes).reaches_iff (initial_counts hm himported) hwrong

theorem wrapperExported_output {L : Language S} (hv : Valid L m) (hm : Instrumentable m) {i : ℕ}
    (hi : i < m.functions.length) : WrapperExported m (output m) i := by
  have hfi : m.functions[i]? = some m.functions[i] := List.getElem?_eq_getElem hi
  have hmem : m.functions[i] ∈ m.functions := List.getElem_mem hi
  obtain ⟨t, ht⟩ := Option.isSome_iff_exists.mp (hv.functions _ hmem)
  refine ⟨m.functions.length + i, (metadata m).wrapperBody i, t, ?_,
    codes_output_wrapper hv.ordered hv.length_codes hi, rfl, typeOf_defined hfi ht, ?_⟩
  · rw [exports_output hv.ordered, importedFuncs_output, ← Nat.add_assoc]
    exact List.mem_append_right _ (List.mem_map.mpr ⟨i, List.mem_range.mpr hi, rfl⟩)
  · rw [hm.params _ hmem t ht]
    exact typeOf_defined (functions_output_wrapper hv.ordered hi)
      (typeAt_output hv.ordered (Nat.zero_lt_of_lt hi) hv.functions hm.types)

theorem preserves_output {L : Language S} (hL : L.Lawful) (hv : Valid L m)
    (hm : Instrumentable m) : Preserves L m (output m) where
  valid := valid_of_instrumentable hL hv hm
  indices := context_extends hv.ordered
  exports := by
    intro e he
    obtain ⟨t, ht⟩ := hv.exists_externType he
    refine ⟨?_, t, ht, (context_extends hv.ordered).externType ht⟩
    rw [exports_output hv.ordered]
    exact List.mem_append_left _ he
  behaviour := sameBehaviour_output hv.ordered hv.length_codes
  wrappers _ hi := wrapperExported_output hv hm hi

/-- What is returned for a module that is not instrumentable is not valid, or there is an error. -/
theorem instrumentable_of_instrument {L : Language S} {readerError : TypeDef S → String}
    {m' : Module S} (hv : Valid L m) (h : instrument readerError (new m) m = .ok m')
    (hvalid : Valid L m') : Instrumentable m := by
  obtain ⟨hfunc, rfl⟩ := (instrument_eq_ok_iff hv.ordered).mp h
  exact instrumentable_of_valid hv hfunc hvalid

/-- **Instrumentation preserves exactly the instrumentable modules.** -/
theorem preserves_iff {L : Language S} (hL : L.Lawful) (readerError : TypeDef S → String)
    {m : Module S} (hv : Valid L m) :
    (∃ m', instrument readerError (new m) m = .ok m' ∧ Preserves L m m') ↔ Instrumentable m := by
  constructor
  · rintro ⟨m', h, hpres⟩
    exact instrumentable_of_instrument hv h hpres.valid
  · intro hm
    exact ⟨output m, (instrument_eq_ok_iff hv.ordered).mpr ⟨hm.types, rfl⟩,
      preserves_output hL hv hm⟩

/-! ## Modules with one function -/

/-- Only the instructions and types that modules are written in here. -/
def plain : Signature := ⟨Empty, Empty, Empty, Unit, Empty, Unit, Unit, Unit⟩

def plainLanguage : Language plain where
  refSub _ r := nomatch r
  refValid _ r := nomatch r
  gcValid _ members := members = []
  importValid _ x := nomatch x
  exportValid _ x := nomatch x
  otherValid _ _ x := nomatch x
  initValid _ _ x := nomatch x
  entry := ()
  opStep _ _ o := nomatch o

theorem plain_lawful : plainLanguage.Lawful where
  refSub _ a := nomatch a
  refValid _ a := nomatch a
  importValid _ x := nomatch x
  exportValid _ x := nomatch x
  otherValid _ _ x := nomatch x
  initValid _ _ x := nomatch x
  opStep _ _ o := nomatch o

/-- A module that exports its only function. -/
def single (t : FuncType plain) (code : List (Instr plain)) : Module plain :=
  ⟨[.types [.func t], .functions [0], .exports [⟨"f", .func 0⟩], .codes [⟨[], code⟩]]⟩

theorem plain_valTypeValid (ts : List (TypeDef plain)) (t : ValType plain) :
    plainLanguage.ValTypeValid ts t := by
  cases t with
  | ref r => exact nomatch r
  | _ => trivial

theorem valid_single {t : FuncType plain} {code : List (Instr plain)}
    (h : BodyValid plainLanguage (single t code).context t ⟨[], code⟩) :
    Valid plainLanguage (single t code) where
  ordered := by simp [Ordered, single, Section.rank]
  types := by
    intro i d hd
    obtain rfl : d = .func t := List.mem_singleton.mp (List.mem_of_getElem? hd)
    exact fun v _ => plain_valTypeValid _ v
  imports := fun i hi => nomatch hi
  functions := by
    intro f hf
    obtain rfl : f = 0 := List.mem_singleton.mp hf
    rfl
  length_codes := rfl
  bodies := by
    intro i f t' b hf ht hb
    obtain rfl : f = 0 := List.mem_singleton.mp (List.mem_of_getElem? hf)
    obtain rfl : b = ⟨[], code⟩ := List.mem_singleton.mp (List.mem_of_getElem? hb)
    obtain rfl : t = t' := Option.some.inj ht
    exact h
  globals := fun i g hg => nomatch hg
  exports := by
    intro e he
    obtain rfl : e = ⟨"f", .func 0⟩ := List.mem_singleton.mp he
    exact Nat.zero_lt_one
  names := List.nodup_singleton "f"
  others := fun o ho => nomatch ho
  sized := {
    types := by simp [single, Module.types, Section.typesOf]
    funcs := by
      simp [single, Module.funcs, Module.importedFuncs, Module.imports, Section.importsOf,
        Module.functions, Section.functionsOf]
    globals := by
      simp [single, Module.globalTypes, Module.importedGlobals, Module.imports,
        Section.importsOf, Module.globals, Section.globalsOf]
    exports := by simp [single, Module.exports, Section.exportsOf] }

/-- A function `() -> i64`. -/
def getter : Module plain := single ⟨[], [.i64]⟩ [.i64Const 1, .endBlock]

/-- A function with a parameter. -/
def setter : Module plain := single ⟨[.i64], []⟩ [.endBlock]

theorem valid_getter : Valid plainLanguage getter := by
  refine valid_single ⟨by simp, ⟨[some .i64], []⟩, ?_, rfl⟩
  simp [Language.step, Language.start, VState.push, VState.pushAll, Language.popAll,
    Language.popExpect, VState.pop, Language.sub]

theorem valid_setter : Valid plainLanguage setter := by
  refine valid_single ⟨by simp, ⟨[], []⟩, ?_, rfl⟩
  simp [Language.step, Language.start, VState.pushAll, Language.popAll]

theorem length_countName (i : ℕ) :
    (countName i).length = "sky_moon_scope_count_".length + (toString i).length :=
  String.length_append _ _

theorem instrumentable_getter : Instrumentable getter where
  types := by
    intro t ht
    obtain rfl := List.mem_singleton.mp ht
    exact ⟨_, rfl⟩
  params := by
    intro f hf t ht
    obtain rfl : f = 0 := List.mem_singleton.mp hf
    obtain rfl := Option.some.inj ht
    rfl
  names := by
    intro i _ e he h
    obtain rfl : e = ⟨"f", .func 0⟩ := List.mem_singleton.mp he
    -- the names of wrappers are longer
    have hlen : "f".length = (countName i).length := congrArg String.length h
    rw [length_countName] at hlen
    have hshort : "f".length < "sky_moon_scope_count_".length := by decide
    omega
  order := .inr (.inl ⟨_, .tail _ (.tail _ (.head _))⟩)
  sizeTypes := by simp [getter, single, Module.types, Section.typesOf]
  sizeFuncs := by
    simp [getter, single, Module.funcs, Module.importedFuncs, Module.imports, Section.importsOf,
      Module.functions, Section.functionsOf]
  sizeGlobals := by
    simp [getter, single, Module.globalTypes, Module.importedGlobals, Module.imports,
      Section.importsOf, Module.globals, Section.globalsOf, Module.functions,
      Section.functionsOf]
  sizeExports := by
    simp [getter, single, Module.exports, Section.exportsOf, Module.functions,
      Section.functionsOf]

theorem preserves_iff_getter :
    ∃ m', instrument (fun _ => "gc proposal not supported") (new getter) getter = .ok m' ∧
      Preserves plainLanguage getter m' :=
  (preserves_iff plain_lawful _ valid_getter).mpr instrumentable_getter

/-- A function with a parameter gets a wrapper that calls it without an argument. -/
theorem not_preserves :
    ¬ ∀ (S : Signature) (L : Language S), L.Lawful → ∀ (readerError : TypeDef S → String)
      (m : Module S), Valid L m →
      ∃ m', instrument readerError (new m) m = .ok m' ∧ Preserves L m m' := by
  intro h
  obtain ⟨m', hm', hpres⟩ := h plain plainLanguage plain_lawful (fun _ => "") setter valid_setter
  have hinst := instrumentable_of_instrument valid_setter hm' hpres.valid
  exact List.cons_ne_nil _ _ (hinst.params 0 (List.mem_singleton.mpr rfl) _ rfl)

end Core.Simulation.WasmInstrumenter
