import Wiring.Generation
import Wiring.Proofs.FailureCodes
import Wiring.Proofs.Linking

/-!
How a run ends. Either there is no plan, and the run fails with what went wrong on the way to it;
or there is one, and then only the two names in the settings can still be refused. A plan holds
what its sources name, so that emission never finds it inconsistent. `Ends` lists these ways, and
what an outcome tells about a run is read off them.
-/
namespace Wiring

open Naming Artifact

/-- The codes of the failures of a phase. -/
def Phase.Reports : Phase → ErrorCode → Prop
  | definition, c => c.isDefinitionError = true ∧ c.InSeries '1'
  | discovery, c => c.isDiscoveryError = true ∧ c.InSeries '2'
  | resolution, c => (c.isResolutionError = true ∧ c.InSeries '3') ∨ c = .e1005
  | emission, c => c = .e9002

/-- The phase in which making the plan fails, and why. The phases before it succeed. -/
def Settings.FailsIn (u : Universe) (s : Settings) : Phase → Failure → Prop
  | .definition, e => Definition.load u s.package s.definition = .error e
  | .discovery, e => ∃ d, Definition.load u s.package s.definition = .ok d ∧
      discover u d.modules = .error e
  | .resolution, e => ∃ d r, Definition.load u s.package s.definition = .ok d ∧
      discover u d.modules = .ok r ∧ resolve u d r = .error e
  | .emission, _ => False

/-- The ways in which a run can end. -/
inductive Settings.Ends (u : Universe) (s : Settings) : Outcome → Prop
  | unplanned {phase : Phase} {e : Failure} (h : s.FailsIn u phase e) :
      Ends u s (.failed phase e.diagnostic none)
  | misnamedModule {p : Plan} (hp : planComponent u s.package s.definition = .ok p)
      (hmodule : isIdentifier s.outputModule = false) :
      Ends u s (.failed .emission (outputModuleDiagnostic s.outputModule) none)
  | misnamedComponent {p : Plan} (hp : planComponent u s.package s.definition = .ok p)
      (hmodule : isIdentifier s.outputModule = true)
      (hcomponent : isIdentifier s.componentType = false) :
      Ends u s (.failed .emission (EmissionError.invalidComponentType s.componentType).diagnostic
        (some p.summary))
  | written {p : Plan} (hp : planComponent u s.package s.definition = .ok p)
      (hmodule : isIdentifier s.outputModule = true)
      (hcomponent : isIdentifier s.componentType = true) :
      Ends u s (.generated (ofPlan u s.componentType p) p.summary)

/-- Either everything succeeds, or there is a single error and nothing is written. -/
def Outcome.Whole (o : Outcome) : Prop :=
  (o.success = true ∧ o.phase? = none ∧ o.diagnostics = [] ∧ o.artifacts.toList ≠ []) ∨
    (o.success = false ∧ o.artifacts.toList = [] ∧ ∃ phase x, o.phase? = some phase ∧
      o.diagnostics = [x] ∧ x.isError = true ∧ phase.Reports x.code)

/-- What an outcome tells about the run with the given settings. -/
structure Outcome.Reports (u : Universe) (s : Settings) (o : Outcome) : Prop where
  whole : o.Whole
  /-- A phase before emission is blamed exactly if the component has no plan. -/
  unplanned : (∃ phase, phase ≠ .emission ∧ o.phase? = some phase) ↔
    ∃ e, planComponent u s.package s.definition = .error e
  failure : ∀ e, planComponent u s.package s.definition = .error e →
    o.diagnostics = [e.diagnostic]
  /-- The phase that is blamed is the one that fails. -/
  phase : ∀ phase, phase ≠ .emission → (o.phase? = some phase ↔ ∃ e, s.FailsIn u phase e)
  emission : o.phase? = some .emission ↔ (∃ p, planComponent u s.package s.definition = .ok p) ∧
    ¬ (isIdentifier s.outputModule = true ∧ isIdentifier s.componentType = true)

/-- The sizes of a plan. -/
structure PlanSummary.Counts (t : PlanSummary) (p : Plan) : Prop where
  targets : t.targets = p.targets.length
  providers : t.providers = p.providers.toList.length
  bindings : t.bindings = p.bindings.toList.length
  factories : t.factories = p.factories.toList.length
  modules : t.modules = p.modules.length

section Plan

variable {u : Universe} {s : Settings}

theorem planComponent_eq_error_iff {e : Failure} :
    planComponent u s.package s.definition = .error e ↔ ∃ phase, s.FailsIn u phase e := by
  constructor
  · intro h
    unfold planComponent at h
    split at h
    · next hload =>
      cases h
      exact ⟨.definition, hload⟩
    · next d hload =>
      split at h
      · next hdiscover =>
        cases h
        exact ⟨.discovery, d, hload, hdiscover⟩
      · next r hdiscover => exact ⟨.resolution, d, r, hload, hdiscover, h⟩
  · rintro ⟨phase, h⟩
    cases phase with
    | definition =>
      have hload : Definition.load u s.package s.definition = .error e := h
      simp [planComponent, hload]
    | discovery =>
      obtain ⟨d, hload, hdiscover⟩ := h
      simp [planComponent, hload, hdiscover]
    | resolution =>
      obtain ⟨d, r, hload, hdiscover, hresolve⟩ := h
      simp [planComponent, hload, hdiscover, hresolve]
    | emission => exact h.elim

theorem Settings.FailsIn.planComponent_eq {phase : Phase} {e : Failure}
    (h : s.FailsIn u phase e) : planComponent u s.package s.definition = .error e :=
  planComponent_eq_error_iff.mpr ⟨phase, h⟩

/-- The phases are tried in order, so that one failure excludes the others. -/
theorem Settings.FailsIn.unique {phase phase' : Phase} {e e' : Failure}
    (h : s.FailsIn u phase e) (h' : s.FailsIn u phase' e') : phase = phase' ∧ e = e' := by
  cases phase <;> cases phase' <;> simp only [FailsIn] at h h' <;> grind

theorem Settings.FailsIn.reports {phase : Phase} {e : Failure} (h : s.FailsIn u phase e) :
    phase.Reports e.code := by
  cases phase with
  | definition =>
    have hcode := Definition.load_failsWith u s.package s.definition e h
    exact ⟨hcode, ErrorCode.isDefinitionError_iff.mp hcode⟩
  | discovery =>
    obtain ⟨d, -, hdiscover⟩ := h
    have hcode := discover_failsWith u d.modules e hdiscover
    exact ⟨hcode, ErrorCode.isDiscoveryError_iff.mp hcode⟩
  | resolution =>
    obtain ⟨d, r, -, -, hresolve⟩ := h
    rcases resolve_failsWith u d r e hresolve with hcode | hcode
    · exact .inl ⟨hcode, ErrorCode.isResolutionError_iff.mp hcode⟩
    · exact .inr hcode
  | emission => exact h.elim

theorem Settings.FailsIn.ne_emission {phase : Phase} {e : Failure} (h : s.FailsIn u phase e) :
    phase ≠ .emission := by
  rintro rfl
  exact h.elim

/-- A plan holds what its sources name. -/
theorem planComponent_holds {package name : String} {p : Plan}
    (h : planComponent u package name = .ok p) : ∀ x ∈ p.sources, p.holds x = true := by
  obtain ⟨d, r, -, -, hresolve⟩ := planComponent_eq_ok_iff.mp h
  obtain ⟨hwire, -⟩ := resolve_eq_ok_iff.mp hresolve
  obtain ⟨w, xs, rfl, hcomplete⟩ := wirePlan_complete hwire
  exact fun x hx => hcomplete.holds hx

theorem emitPlan_ends {p : Plan} (hp : planComponent u s.package s.definition = .ok p) :
    s.Ends u (emitPlan u s p) := by
  cases hmodule : isIdentifier s.outputModule with
  | false => simpa [emitPlan, hmodule] using Settings.Ends.misnamedModule hp hmodule
  | true =>
    cases hcomponent : isIdentifier s.componentType with
    | false =>
      simpa [emitPlan, hmodule, emit, hcomponent] using
        Settings.Ends.misnamedComponent hp hmodule hcomponent
    | true =>
      have hemit := emit_of_holds (u := u) hcomponent (planComponent_holds hp)
      simpa [emitPlan, hmodule, hemit] using Settings.Ends.written hp hmodule hcomponent

/-- Every run ends in one of the listed ways. -/
theorem generate_ends (u : Universe) (s : Settings) : s.Ends u (generate u s) := by
  unfold generate planInPhases
  cases hload : Definition.load u s.package s.definition with
  | error e =>
    have hfails : s.FailsIn u .definition e := hload
    exact .unplanned hfails
  | ok d =>
    cases hdiscover : discover u d.modules with
    | error e =>
      have hfails : s.FailsIn u .discovery e := ⟨d, hload, hdiscover⟩
      simpa [hdiscover] using .unplanned hfails
    | ok r =>
      cases hresolve : resolve u d r with
      | error e =>
        have hfails : s.FailsIn u .resolution e := ⟨d, r, hload, hdiscover, hresolve⟩
        simpa [hdiscover, hresolve] using .unplanned hfails
      | ok p =>
        have hplan := planComponent_eq_ok_iff.mpr ⟨d, r, hload, hdiscover, hresolve⟩
        simpa [hdiscover, hresolve] using emitPlan_ends hplan

/-- What is written is the plan of the component. -/
theorem generate_eq_generated_iff {arts : Table Artifact} {t : PlanSummary} :
    generate u s = .generated arts t ↔
      (isIdentifier s.outputModule = true ∧ isIdentifier s.componentType = true) ∧
        ∃ p, planComponent u s.package s.definition = .ok p ∧
          arts = ofPlan u s.componentType p ∧ t = p.summary := by
  have h := generate_ends u s
  generalize generate u s = o at h
  cases h with
  | unplanned h => simp [h.planComponent_eq]
  | misnamedModule hp hmodule => simp [hmodule]
  | misnamedComponent hp hmodule hcomponent => simp [hcomponent]
  | written hp hmodule hcomponent => simp [hp, hmodule, hcomponent, eq_comm]

end Plan

section Reports

variable {u : Universe} {s : Settings} {o : Outcome}

theorem Settings.FailsIn.outcome_reports {phase : Phase} {e : Failure} (h : s.FailsIn u phase e) :
    Outcome.Reports u s (.failed phase e.diagnostic none) where
  whole := .inr ⟨rfl, rfl, phase, e.diagnostic, rfl, rfl, rfl, h.reports⟩
  unplanned := iff_of_true ⟨phase, h.ne_emission, rfl⟩ ⟨e, h.planComponent_eq⟩
  failure := by
    intro e' he'
    obtain ⟨phase', h'⟩ := planComponent_eq_error_iff.mp he'
    rw [(h.unique h').2]
    rfl
  phase := by
    intro phase' _
    constructor
    · intro heq
      cases heq
      exact ⟨e, h⟩
    · rintro ⟨e', h'⟩
      exact congrArg some (h.unique h').1
  emission := by
    constructor
    · intro heq
      cases heq
      exact h.elim
    · rintro ⟨⟨p, hp⟩, -⟩
      rw [h.planComponent_eq] at hp
      cases hp

/-- Once there is a plan, no phase before emission is blamed. -/
theorem outcome_reports_of_plan {p : Plan}
    (hp : planComponent u s.package s.definition = .ok p) (hwhole : o.Whole)
    (hphase : ∀ phase, phase ≠ .emission → o.phase? ≠ some phase)
    (hemission : o.phase? = some .emission ↔
      ¬ (isIdentifier s.outputModule = true ∧ isIdentifier s.componentType = true)) :
    o.Reports u s where
  whole := hwhole
  unplanned := by
    constructor
    · rintro ⟨phase, hne, heq⟩
      exact absurd heq (hphase phase hne)
    · rintro ⟨e, he⟩
      rw [hp] at he
      cases he
  failure := by
    intro e he
    rw [hp] at he
    cases he
  phase := by
    intro phase hne
    refine iff_of_false (hphase phase hne) ?_
    rintro ⟨e, he⟩
    rw [he.planComponent_eq] at hp
    cases hp
  emission := by
    rw [hemission]
    exact ⟨fun h => ⟨⟨p, hp⟩, h⟩, And.right⟩

end Reports

theorem toList_ofPlan_ne_nil (u : Universe) (component : String) (p : Plan) :
    (ofPlan u component p).toList ≠ [] :=
  List.ne_nil_of_mem (mem_ofPlan_iff.mpr (.inl rfl))

theorem Settings.Ends.reports {u : Universe} {s : Settings} {o : Outcome} (h : s.Ends u o) :
    o.Reports u s := by
  cases h with
  | unplanned h => exact h.outcome_reports
  | misnamedModule hp hmodule =>
    refine outcome_reports_of_plan hp (.inr ⟨rfl, rfl, .emission, _, rfl, rfl, rfl, rfl⟩) ?_ ?_
    · rintro phase hne ⟨⟩
      exact hne rfl
    · simp [Outcome.phase?, hmodule]
  | misnamedComponent hp hmodule hcomponent =>
    refine outcome_reports_of_plan hp (.inr ⟨rfl, rfl, .emission, _, rfl, rfl, rfl, rfl⟩) ?_ ?_
    · rintro phase hne ⟨⟩
      exact hne rfl
    · simp [Outcome.phase?, hcomponent]
  | written hp hmodule hcomponent =>
    refine outcome_reports_of_plan hp (.inl ⟨rfl, rfl, rfl, toList_ofPlan_ne_nil _ _ _⟩) ?_ ?_
    · simp [Outcome.phase?]
    · simp [Outcome.phase?, hmodule, hcomponent]

/-- A run fails in the phase that is at fault, with a single error whose code belongs to this
phase, and without artifacts; or it succeeds and has artifacts. -/
theorem generate_reports (u : Universe) (s : Settings) : (generate u s).Reports u s :=
  (generate_ends u s).reports

section Summary

variable {u : Universe} {s : Settings} {o : Outcome}

theorem PlanSummary.counts_iff {t : PlanSummary} {p : Plan} : t.Counts p ↔ t = p.summary := by
  constructor
  · rintro ⟨htargets, hproviders, hbindings, hfactories, hmodules⟩
    cases t
    simp_all [Plan.summary, Table.size]
  · rintro rfl
    exact ⟨rfl, rfl, rfl, rfl, rfl⟩

theorem Settings.Ends.planned_iff (h : s.Ends u o) :
    (o.phase? = none ∨ o.phase? = some .emission) ↔
      ∃ p, planComponent u s.package s.definition = .ok p := by
  cases h with
  | unplanned h => simp [Outcome.phase?, h.ne_emission, h.planComponent_eq]
  | misnamedModule hp => simp [Outcome.phase?, hp]
  | misnamedComponent hp => simp [Outcome.phase?, hp]
  | written hp => simp [Outcome.phase?, hp]

theorem Settings.Ends.summary_iff (h : s.Ends u o) (t : PlanSummary) :
    o.summary? = some t ↔ isIdentifier s.outputModule = true ∧
      ∃ p, planComponent u s.package s.definition = .ok p ∧ t.Counts p := by
  cases h with
  | unplanned h => simp [Outcome.summary?, h.planComponent_eq]
  | misnamedModule hp hmodule => simp [Outcome.summary?, hmodule]
  | misnamedComponent hp hmodule =>
    simp [Outcome.summary?, hp, hmodule, PlanSummary.counts_iff, eq_comm]
  | written hp hmodule => simp [Outcome.summary?, hp, hmodule, PlanSummary.counts_iff, eq_comm]

end Summary

/-- A run has a plan if it does not fail before emission, and it then tells the sizes of this
plan, however emission ends: unless the module cannot have its name, which drops them. -/
theorem generate_summary (u : Universe) (s : Settings) :
    ((generate u s).phase? = none ∨ (generate u s).phase? = some .emission ↔
      ∃ p, planComponent u s.package s.definition = .ok p) ∧
    ∀ t, (generate u s).summary? = some t ↔ isIdentifier s.outputModule = true ∧
      ∃ p, planComponent u s.package s.definition = .ok p ∧ t.Counts p :=
  ⟨(generate_ends u s).planned_iff, (generate_ends u s).summary_iff⟩

/-- The shop with a component of the given name. -/
def Shop.called (component : String) : Settings where
  package := "shop"
  definition := "Shop"
  componentType := component

theorem Shop.generate_called {component : String} (h : isIdentifier component = true) :
    generate types (called component) = .generated (ofPlan types component plan) plan.summary := by
  have hplan : planComponent types "shop" "Shop" = .ok plan := by decide +kernel
  have hmodule : isIdentifier (called component).outputModule = true := by
    have hdefault : isIdentifier "digen" = true := by decide
    exact hdefault
  exact generate_eq_generated_iff.mpr ⟨⟨hmodule, h⟩, plan, hplan, rfl, rfl⟩

/-- The shop with its artifacts in a module that cannot have this name. -/
def Shop.misnamedModule : Settings where
  package := "shop"
  definition := "Shop"
  outputModule := "di-gen"
  componentType := "Shop"

/-- The shop has a plan, and only emission fails; but the sizes of the plan are not told. -/
theorem misnamedModule_has_no_summary :
    planComponent Shop.types "shop" "Shop" = .ok Shop.plan ∧
      (generate Shop.types Shop.misnamedModule).phase? = some .emission ∧
        (generate Shop.types Shop.misnamedModule).summary? = none := by
  decide +kernel

end Wiring
