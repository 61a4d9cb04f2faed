import Wiring.Proofs.FailureCodes
import Wiring.Proofs.Fallibility

/-!
The origin of a fallible source. `Finds` is the search for it without a bound on its depth: it
relates a source only to what a search that ends has found. In a plan every search ends, since no
path of dependencies is longer than the plan is large, and `fallibleOrigin` is what it finds: a
provider that can fail by itself exactly if the source is fallible. Targets that cannot fail are
therefore refused exactly if one of them has a fallible source, and the first of these is named.
-/
namespace Wiring

namespace Plan

/-- What the entry of a source says about errors: where they come from if the entry is to blame
itself, and the sources that may hand on others. -/
def origins? (p : Plan) (x : Source) : Option (Option Site × List Source) :=
  p.read? x (fun e => ((Node.provider e.provider).origin?, e.params))
    fun f => (none, f.fields.map Assignment.source)

/-- The search for the origin of `x` ends, and it has found `o`: nothing for a source that cannot
fail or has no entry, the entry itself if it is to blame, or else the first that is found among its
sources. -/
inductive Finds (p : Plan) : Source → Option Site → Prop
  | infallible {x : Source} (hx : x.isFallible = false) : Finds p x none
  | missing {x : Source} (hx : x.isFallible = true) (hentry : p.origins? x = none) :
      Finds p x none
  | own {x : Source} {site : Site} {ys : List Source} (hx : x.isFallible = true)
      (hentry : p.origins? x = some (some site, ys)) : Finds p x (some site)
  | among {x : Source} {ys : List Source} {found : Source → Option Site}
      (hx : x.isFallible = true) (hentry : p.origins? x = some (none, ys))
      (hys : ∀ y ∈ ys, Finds p y (found y)) : Finds p x (ys.findSome? found)

/-- `site` is that of a planned provider that can fail by itself, and fallible sources lead from `x`
to it. -/
inductive Blames (p : Plan) : Source → Site → Prop
  | own {x : Source} {e : PlannedProvider} (hx : x.isFallible = true) (hkind : x.kind = .provider)
      (he : p.providers.find? x.identity = some e) (hfail : e.provider.isFallible = true) :
      Blames p x e.provider.site
  | input {x y : Source} {site : Site} {o : Option Site} {ys : List Source}
      (hx : x.isFallible = true) (hentry : p.origins? x = some (o, ys)) (hy : y ∈ ys)
      (h : Blames p y site) : Blames p x site

/-- The search for the origin of `x` ends, and finds a provider to blame exactly if `x` is
fallible. -/
structure Traced (p : Plan) (x : Source) : Prop where
  finds_iff : ∀ o, p.Finds x o ↔ o = p.fallibleOrigin x
  found_iff : (∃ site, p.fallibleOrigin x = some site) ↔ x.isFallible = true
  blamed : ∀ site, p.fallibleOrigin x = some site → p.Blames x site

/-- The first target that cannot fail although its source can. -/
def firstFault? (p : Plan) : Option WiredTarget :=
  p.targets.find? fun z => !z.target.isFallible && z.source.isFallible

variable {p : Plan} {x : Source}

/-- A search has one outcome. -/
theorem Finds.unique {o o' : Option Site} (h : p.Finds x o) (h' : p.Finds x o') : o = o' := by
  induction h generalizing o' with
  | infallible hx => cases h' <;> simp_all
  | missing hx hentry => cases h' <;> simp_all
  | own hx hentry => cases h' <;> simp_all
  | @among x ys found hx hentry hys ih =>
    cases h' with
    | infallible hx' => simp [hx] at hx'
    | missing _ hentry' => simp [hentry] at hentry'
    | own _ hentry' => simp [hentry] at hentry'
    | @among _ ys' found' _ hentry' hys' =>
      obtain rfl : ys = ys' := by simpa [hentry] using hentry'
      have hfound : ∀ y ∈ ys, found y = found' y := fun y hy => ih y hy (hys' y hy)
      exact findSome?_congr hfound

theorem Finds.blames {o : Option Site} {site : Site} (h : p.Finds x o) (ho : o = some site) :
    p.Blames x site := by
  induction h with
  | infallible hx => cases ho
  | missing hx hentry => cases ho
  | @own x site' ys hx hentry =>
    cases ho
    cases hkind : x.kind with
    | provider =>
      simp only [origins?, read?, hkind] at hentry
      obtain ⟨e, he, hpair⟩ := Option.map_eq_some_iff.mp hentry
      have horigin : (Node.provider e.provider).origin? = some site := congrArg Prod.fst hpair
      simp only [Node.origin?, Option.ite_none_right_eq_some, Option.some.injEq] at horigin
      obtain ⟨hfail, rfl⟩ := horigin
      exact .own hx hkind he hfail
    | factory =>
      simp only [origins?, read?, hkind] at hentry
      obtain ⟨f, -, hpair⟩ := Option.map_eq_some_iff.mp hentry
      cases hpair
  | @among x ys found hx hentry hys ih =>
    obtain ⟨y, hy, hfound⟩ := List.exists_of_findSome?_eq_some ho
    exact .input hx hentry hy (ih y hy hfound)

theorem of_firstFault? {z : WiredTarget} (h : p.firstFault? = some z) :
    z ∈ p.targets ∧ z.target.isFallible = false ∧ z.source.isFallible = true := by
  have hfault := List.find?_some h
  rw [Bool.and_eq_true, Bool.not_eq_true'] at hfault
  exact ⟨List.mem_of_find?_eq_some h, hfault⟩

theorem exists_firstFault? {z : WiredTarget} (hz : z ∈ p.targets)
    (htarget : z.target.isFallible = false) (hsource : z.source.isFallible = true) :
    ∃ z', p.firstFault? = some z' := by
  rw [← Option.isSome_iff_exists, firstFault?, List.find?_isSome]
  exact ⟨z, hz, by simp [htarget, hsource]⟩

/-- The check of the targets names the first fault, provided that its origin is found. -/
theorem fallibleChain?_eq (h : ∀ z ∈ p.targets, p.Traced z.source) :
    p.fallibleChain? = p.firstFault?.bind fun z =>
      (p.fallibleOrigin z.source).map fun site => (z.target.method, site) := by
  unfold fallibleChain? firstFault?
  generalize p.targets = zs at h
  induction zs with
  | nil => rfl
  | cons z zs ih =>
    obtain ⟨hz, hzs⟩ := List.forall_mem_cons.mp h
    rw [List.findSome?_cons, List.find?_cons]
    cases htarget : z.target.isFallible <;> cases hsource : z.source.isFallible
    · simpa using ih hzs
    · obtain ⟨site, hsite⟩ := hz.found_iff.mpr hsource
      simp [hsite]
    · simpa using ih hzs
    · simpa using ih hzs

end Plan

namespace Wired

variable {c : Catalog} {asked : TypeRef → Prop} {d : Definition} {w : Wired} {xs : List Source}

theorem Finished.origins? {s : Supply} {sources : List Source} {f : Bool}
    (h : Finished c asked w s.node sources) :
    (w.plan d xs).origins? (s.source f) = some (s.node.origin?, sources) := by
  rw [Plan.origins?, h.read?]
  obtain ⟨n, o⟩ := s
  cases n with
  | provider q => rfl
  | factory e =>
    simp only [h.map_source]
    rfl

/-- The search ends within as many nodes as a path of dependencies has. -/
theorem Sound.finds {k : Nat} {t : TypeRef} {x : Source} (hw : Sound c asked w)
    (hx : w.Meets c t x) (hk : ∀ s, c.Answers t s → c.Grounded k s.node) :
    (w.plan d xs).Finds x ((w.plan d xs).originWithin k x) := by
  induction k generalizing t x with
  | zero =>
    obtain ⟨s, _, hs, -⟩ := hw.meets hx
    exact (hk s hs).elim
  | succ k ih =>
    obtain ⟨s, sources, hs, hfin, rfl⟩ := hw.meets hx
    cases hflag : s.node.isFallible sources with
    | false =>
      have hnone : (w.plan d xs).originWithin (k + 1) (s.source false) = none := by
        simp [Plan.originWithin, Supply.source]
      rw [hnone]
      exact .infallible rfl
    | true =>
      rw [hfin.originWithin]
      have hentry : (w.plan d xs).origins? (s.source true) = some (s.node.origin?, sources) :=
        hfin.origins?
      cases horigin : s.node.origin? with
      | some site =>
        rw [horigin] at hentry
        exact .own rfl hentry
      | none =>
        rw [horigin] at hentry
        refine .among rfl hentry fun y hy => ?_
        obtain ⟨t', ht', hmet⟩ := exists_of_forall₂_right hfin.met hy
        exact ih hmet fun s' hs' => hk s hs s'.node ⟨t', ht', s'.binding, hs'⟩

namespace Complete

theorem traced (h : w.Complete c d xs) {x : Source} (hx : x ∈ (w.plan d xs).sources) :
    (w.plan d xs).Traced x := by
  obtain ⟨t, -, hmet⟩ := h.source_met hx
  have hends : (w.plan d xs).Finds x ((w.plan d xs).fallibleOrigin x) := by
    refine h.sound.finds hmet fun s hs => ?_
    obtain ⟨s', sources, hs', hfin, -⟩ := h.sound.meets hmet
    cases hs.unique hs'
    exact hfin.grounded
  refine ⟨fun o => ⟨fun ho => ho.unique hends, fun ho => ho ▸ hends⟩, ?_,
    fun site hsite => hends.blames hsite⟩
  rw [← Option.ne_none_iff_exists', ne_eq, h.fallibleOrigin_eq_none_iff hmet, Bool.not_eq_false]

theorem map_target (h : w.Complete c d xs) :
    (w.plan d xs).targets.map WiredTarget.target = d.targets := by
  have htargets := h.targets.imp fun _ _ => And.left
  rw [← List.forall₂_eq_eq_eq, List.forall₂_map_left_iff]
  exact htargets.flip

end Complete

end Wired

theorem wirePlan_traced {u : Universe} {d : Definition} {r : Registry} {p : Plan}
    (h : wirePlan u d r = .ok p) :
    p.targets.map WiredTarget.target = d.targets ∧ ∀ x ∈ p.sources, p.Traced x := by
  obtain ⟨w, xs, rfl, hcomplete⟩ := wirePlan_complete h
  exact ⟨hcomplete.map_target, fun x => hcomplete.traced⟩

theorem wirePlan_targets_traced {u : Universe} {d : Definition} {r : Registry} {p : Plan}
    (h : wirePlan u d r = .ok p) : ∀ z ∈ p.targets, p.Traced z.source :=
  fun z hz => (wirePlan_traced h).2 z.source (Plan.mem_sources_iff.mpr (.inl ⟨z, hz, rfl⟩))

/-- The refused target is the first fault, and what is named with it is its origin. -/
theorem resolve_eq_fallibleChain_iff {u : Universe} {d : Definition} {r : Registry}
    {method : String} {site : Site} : resolve u d r = .error (.fallibleChain method site) ↔
      ∃ p z, wirePlan u d r = .ok p ∧ p.firstFault? = some z ∧ z.target.method = method ∧
        p.fallibleOrigin z.source = some site := by
  rw [resolve_eq_error_iff]
  constructor
  · rintro (hwire | ⟨p, _, _, hwire, hchain, heq⟩)
    · have hcode := wirePlan_failsWith u d r _ hwire
      cases hcode
    · cases heq
      rw [Plan.fallibleChain?_eq (wirePlan_targets_traced hwire)] at hchain
      obtain ⟨z, hz, hnamed⟩ := Option.bind_eq_some_iff.mp hchain
      obtain ⟨site, hsite, heq⟩ := Option.map_eq_some_iff.mp hnamed
      cases heq
      exact ⟨p, z, hwire, hz, rfl, hsite⟩
  · rintro ⟨p, z, hwire, hz, rfl, hsite⟩
    refine .inr ⟨p, _, site, hwire, ?_, rfl⟩
    rw [Plan.fallibleChain?_eq (wirePlan_targets_traced hwire), hz]
    simp [hsite]

/-- In a plan, before its targets are checked and after, the origin of every source is found that
can fail. The check refuses the first target that cannot fail although its source can, if there is
one, and names the origin. -/
theorem resolve_traced (u : Universe) (d : Definition) (r : Registry) :
    (∀ p, wirePlan u d r = .ok p ∨ resolve u d r = .ok p →
      p.targets.map WiredTarget.target = d.targets ∧ ∀ x ∈ p.sources, p.Traced x) ∧
    ((∃ method site, resolve u d r = .error (.fallibleChain method site)) ↔
      ∃ p, wirePlan u d r = .ok p ∧
        ∃ z ∈ p.targets, z.target.isFallible = false ∧ z.source.isFallible = true) ∧
    ∀ method site, resolve u d r = .error (.fallibleChain method site) ↔
      ∃ p z, wirePlan u d r = .ok p ∧ p.firstFault? = some z ∧ z.target.method = method ∧
        p.fallibleOrigin z.source = some site := by
  refine ⟨fun p hp => ?_, ?_, fun method site => resolve_eq_fallibleChain_iff⟩
  · rcases hp with hwire | hresolve
    · exact wirePlan_traced hwire
    · exact wirePlan_traced (resolve_eq_ok_iff.mp hresolve).1
  · simp only [resolve_eq_fallibleChain_iff]
    constructor
    · rintro ⟨_, _, p, z, hwire, hz, -, -⟩
      exact ⟨p, hwire, z, Plan.of_firstFault? hz⟩
    · rintro ⟨p, hwire, z, hz, htarget, hsource⟩
      obtain ⟨z', hfirst⟩ := Plan.exists_firstFault? hz htarget hsource
      obtain ⟨hz', -, hsource'⟩ := Plan.of_firstFault? hfirst
      obtain ⟨site, hsite⟩ := (wirePlan_targets_traced hwire z' hz').found_iff.mpr hsource'
      exact ⟨_, site, p, z', hwire, hfirst, rfl, hsite⟩

namespace Shop

/-- The service by three names: an error may come in place of the first one only. -/
def carelessDefinition : Definition :=
  { definition with
    targets := [serviceTarget,
      { method := "front", type := .pointer (.named service), isFallible := false },
      { method := "back", type := .pointer (.named service), isFallible := false }] }

end Shop

theorem shop_front_refused :
    resolve Shop.types Shop.carelessDefinition Shop.registry =
        .error (.fallibleChain "front" Shop.openDisk.site) ∧
      ∃ p z, wirePlan Shop.types Shop.carelessDefinition Shop.registry = .ok p ∧
        p.firstFault? = some z ∧ z.target.method = "front" ∧
        p.fallibleOrigin z.source = some Shop.openDisk.site ∧ p.Traced z.source := by
  have hrefused : resolve Shop.types Shop.carelessDefinition Shop.registry =
      .error (.fallibleChain "front" Shop.openDisk.site) := by decide +kernel
  obtain ⟨htraced, -, hchain⟩ :=
    resolve_traced Shop.types Shop.carelessDefinition Shop.registry
  obtain ⟨p, z, hwire, hfirst, hmethod, hsite⟩ := (hchain _ _).mp hrefused
  have hsource : z.source ∈ p.sources :=
    Plan.mem_sources_iff.mpr (.inl ⟨z, (Plan.of_firstFault? hfirst).1, rfl⟩)
  exact ⟨hrefused, p, z, hwire, hfirst, hmethod, hsite, (htraced p (.inl hwire)).2 z.source hsource⟩

end Wiring
