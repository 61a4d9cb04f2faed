import Wiring.Resolution

/-!
Which codes a phase reports. Loading a definition, discovering modules and wiring targets are
made of checks that can each fail in one way; `FailsWith P x` says that every failure of `x` has
a code in `P`, and it passes through the ways in which checks are put together. What remains is
one fact for each check.
-/
namespace Wiring

/-- The codes of a series start with the same digit. -/
def ErrorCode.InSeries (digit : Char) (c : ErrorCode) : Prop :=
  ['E', digit] <+: c.text.toList

instance (digit : Char) (c : ErrorCode) : Decidable (c.InSeries digit) :=
  inferInstanceAs (Decidable (_ <+: _))

namespace ErrorCode

variable {c : ErrorCode}

theorem isDefinitionError_iff : c.isDefinitionError = true ↔ c.InSeries '1' := by
  cases c <;> decide

theorem isDiscoveryError_iff : c.isDiscoveryError = true ↔ c.InSeries '2' := by
  cases c <;> decide

theorem isResolutionError_iff : c.isResolutionError = true ↔ c.InSeries '3' := by
  cases c <;> decide

end ErrorCode

/-- If `x` fails, its failure has a code in `P`. -/
def FailsWith {α : Type} (P : ErrorCode → Prop) (x : Except Failure α) : Prop :=
  ∀ e, x = .error e → P e.code

namespace FailsWith

variable {P : ErrorCode → Prop} {α β : Type} {x : Except Failure α}

theorem ok (a : α) : FailsWith P (.ok a) :=
  nofun

theorem error {e : Failure} (h : P e.code) : FailsWith P (.error e : Except Failure α) := by
  intro e' he
  cases he
  exact h

theorem map (f : α → β) (h : FailsWith P x) : FailsWith P (x.map f) := by
  cases x with
  | error e => exact error (h e rfl)
  | ok a => exact ok (f a)

theorem bind {f : α → Except Failure β} (h : FailsWith P x) (hf : ∀ a, FailsWith P (f a)) :
    FailsWith P (x.bind f) := by
  cases x with
  | error e => exact error (h e rfl)
  | ok a => exact hf a

theorem mapM {f : α → Except Failure β} (hf : ∀ a, FailsWith P (f a)) (xs : List α) :
    FailsWith P (xs.mapM f) := by
  induction xs with
  | nil => exact ok []
  | cons a xs ih =>
    rw [List.mapM_cons]
    exact (hf a).bind fun b => ih.bind fun bs => ok (b :: bs)

theorem foldlM {f : β → α → Except Failure β} (hf : ∀ b a, FailsWith P (f b a)) (xs : List α)
    (b : β) : FailsWith P (xs.foldlM f b) := by
  induction xs generalizing b with
  | nil => exact ok b
  | cons a xs ih =>
    rw [List.foldlM_cons]
    exact (hf b a).bind ih

end FailsWith

namespace Definition

/-- What loading a definition reports. -/
abbrev Reported (c : ErrorCode) : Prop :=
  c.isDefinitionError = true

theorem targetOf_failsWith (m : Method) : FailsWith Reported (targetOf m) := by
  unfold targetOf
  split
  · exact .error rfl
  · split
    · exact .error rfl
    · split
      · exact .error rfl
      · exact .ok _

theorem targetsOf_failsWith (d : Decl) : FailsWith Reported (targetsOf d) :=
  .mapM targetOf_failsWith (targetMethods d)

theorem interfaceOf_failsWith (u : Universe) (m : Method) :
    FailsWith Reported (interfaceOf u m) := by
  unfold interfaceOf
  split
  · exact .error rfl
  · split
    · split
      · exact .ok _
      · exact .error rfl
    · exact .error rfl
    · exact .error rfl

theorem modulesOf_failsWith (d : Decl) : FailsWith Reported (modulesOf d) := by
  unfold modulesOf
  split
  · split
    · exact .ok _
    · exact .error rfl
  · exact .error rfl

theorem ownTargets_failsWith (d : Decl) : FailsWith Reported (ownTargets d) := by
  unfold ownTargets
  split
  · next e he => exact .error (targetsOf_failsWith d e he)
  · split
    · exact .error rfl
    · exact .ok _

theorem interfaceTargets_failsWith (u : Universe) (m : Method) :
    FailsWith Reported (interfaceTargets u m) := by
  unfold interfaceTargets
  split
  · next e he => exact .error (interfaceOf_failsWith u m e he)
  · split
    · exact .error rfl
    · next d _ => exact (targetsOf_failsWith d).map _

theorem wantedTargets_failsWith (u : Universe) (d : Decl) :
    FailsWith Reported (wantedTargets u d) := by
  unfold wantedTargets
  split
  · next m _ => exact (interfaceTargets_failsWith u m).map _
  · exact (ownTargets_failsWith d).map _

theorem ofDecl_failsWith (u : Universe) (d : Decl) : FailsWith Reported (ofDecl u d) := by
  unfold ofDecl
  split
  · next e he => exact .error (modulesOf_failsWith d e he)
  · split
    · next e he => exact .error (wantedTargets_failsWith u d e he)
    · split
      · exact .error rfl
      · exact .ok _

theorem load_failsWith (u : Universe) (package name : String) :
    FailsWith Reported (load u package name) := by
  unfold load
  split
  · exact .error rfl
  · next d _ =>
    split
    · exact ofDecl_failsWith u d
    · exact .error rfl

end Definition

namespace Discovery

/-- What the discovery of modules reports. -/
abbrev Reported (c : ErrorCode) : Prop :=
  c.isDiscoveryError = true

variable (u : Universe)

theorem addProvider_failsWith (r : Registry) (p : Provider) :
    FailsWith Reported (r.addProvider p) := by
  unfold Registry.addProvider
  split
  · exact .error rfl
  · exact .ok _

theorem addBinding_failsWith (r : Registry) (b : Binding) :
    FailsWith Reported (r.addBinding b) := by
  unfold Registry.addBinding
  split
  · exact .error rfl
  · exact .ok _

theorem providerOf_failsWith (module : Identity) (m : Method) :
    FailsWith Reported (providerOf u module m) := by
  unfold providerOf
  split
  · exact .ok _
  · exact .error rfl

theorem bindingOf_failsWith (module : Identity) (m : Method) :
    FailsWith Reported (bindingOf u module m) := by
  unfold bindingOf
  split
  · exact .ok _
  · exact .error rfl

theorem registerProvider_failsWith (module : Identity) (r : Registry) (m : Method) :
    FailsWith Reported (registerProvider u module r m) := by
  unfold registerProvider
  split
  · next e he => exact .error (providerOf_failsWith u module m e he)
  · exact addProvider_failsWith r _

theorem registerBinding_failsWith (module : Identity) (r : Registry) (m : Method) :
    FailsWith Reported (registerBinding u module r m) := by
  unfold registerBinding
  split
  · split
    · exact .ok _
    · exact .error rfl
  · split
    · next e he => exact .error (bindingOf_failsWith u module m e he)
    · exact addBinding_failsWith r _

theorem register_failsWith (d : Decl) (r : Registry) : FailsWith Reported (register u d r) := by
  unfold register registerValueModule registerBindingModule
  split
  · exact .foldlM (registerBinding_failsWith u d.identity) _ r
  · split
    · exact .error rfl
    · exact (FailsWith.foldlM (registerProvider_failsWith u d.identity) _ r).map _

theorem moduleOf_failsWith (t : TypeRef) : FailsWith Reported (moduleOf u t) := by
  unfold moduleOf
  split
  · exact .error rfl
  · split
    · exact .error rfl
    · split
      · exact .ok _
      · exact .error rfl

theorem walk_failsWith (worklist : List TypeRef) (seen : List Identity) (r : Registry) :
    FailsWith Reported (walk u worklist seen r) := by
  induction worklist, seen, r using walk.induct u with
  | case1 seen r =>
    rw [walk_nil]
    exact .ok r
  | case2 seen r t rest e hmodule =>
    rw [walk_cons, hmodule]
    exact .error (moduleOf_failsWith u t e hmodule)
  | case3 seen r t rest d hmodule hseen ih =>
    rw [walk_cons, hmodule]
    simpa only [Except.bind, if_pos hseen] using ih
  | case4 seen r t rest d hmodule hseen e hregistered =>
    rw [walk_cons, hmodule]
    simp only [Except.bind, if_neg hseen, hregistered]
    exact .error (register_failsWith u d r e hregistered)
  | case5 seen r t rest d hmodule hseen r₁ hregistered ih =>
    rw [walk_cons, hmodule]
    simpa only [Except.bind, if_neg hseen, hregistered] using ih

end Discovery

theorem discover_failsWith (u : Universe) (modules : List TypeRef) :
    FailsWith Discovery.Reported (discover u modules) :=
  Discovery.walk_failsWith u modules [] .empty

namespace Resolution

/-- What wiring reports. -/
abbrev Reported (c : ErrorCode) : Prop :=
  c.isResolutionError = true

theorem reported_gap (chain : List Identity) (g : Gap) : Reported (g.failure chain).code := by
  cases g <;> rfl

theorem wireAll_failsWith {P : ErrorCode → Prop} {σ : Type}
    {wire : Demand → σ → Except Failure (Source × σ)} (hwire : ∀ d w, FailsWith P (wire d w))
    (ds : List Demand) (w : σ) : FailsWith P (wireAll wire ds w) := by
  induction ds generalizing w with
  | nil => exact .ok _
  | cons d ds ih =>
    unfold wireAll
    split
    · next e he => exact .error (hwire d w e he)
    · next w₁ _ =>
      split
      · next e he => exact .error (ih w₁ e he)
      · exact .ok _

theorem wire_failsWith (c : Catalog) (room : Nat) (path : List Identity) (d : Demand)
    (w : Wired) : FailsWith Reported (wire c room path d w) := by
  induction room generalizing path d w with
  | zero =>
    unfold wire
    split
    · next gap _ => exact .error (reported_gap _ gap)
    · dsimp only
      split
      · exact .ok _
      · split
        · exact .error rfl
        · exact .error rfl
  | succ room ih =>
    unfold wire
    split
    · next gap _ => exact .error (reported_gap _ gap)
    · next s _ =>
      dsimp only
      split
      · exact .ok _
      · split
        · exact .error rfl
        · split
          · next e he =>
            have hall := wireAll_failsWith (ih (s.node.identity :: path)) s.node.demands
              (w.addBinding s.binding)
            exact .error (hall e he)
          · exact .ok _

end Resolution

theorem wirePlan_failsWith (u : Universe) (d : Definition) (r : Registry) :
    FailsWith Resolution.Reported (wirePlan u d r) := by
  unfold wirePlan
  dsimp only
  split
  · next e he =>
    have hall := Resolution.wireAll_failsWith
      (Resolution.wire_failsWith ⟨u, r⟩ (Catalog.nodeCount ⟨u, r⟩) [])
      (d.targets.map Target.demand) {}
    exact .error (hall e he)
  · exact .ok _

/-- A target that cannot fail although its source can is a fault of the definition, which is
found last. -/
theorem resolve_failsWith (u : Universe) (d : Definition) (r : Registry) :
    FailsWith (fun c => Resolution.Reported c ∨ c = .e1005) (resolve u d r) := by
  unfold resolve
  split
  · next e he => exact .error (.inl (wirePlan_failsWith u d r e he))
  · split
    · exact .error (.inr rfl)
    · exact .ok _

end Wiring
