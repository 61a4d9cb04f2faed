import Wiring.Proofs.DiscoveredModules
import Wiring.Proofs.Sequences

/-!
Loading and discovery in a larger universe. A declaration is relisted if the module lists of an
interface name the same modules, in any order and any number of times, and nothing else changes. A
universe is embedded in another one that declares its types, possibly relisted, and no further
interfaces. Further structs and sealed types are then met by no reference that counts. What a
definition reaches is the same in both universes, and so is what is registered for it, although
the modules may be taken in another order.
-/
namespace Wiring

open Definition (modulesMethod targetMethod moduleList)

/-- The methods are the same, but a method for modules may list the same modules otherwise. -/
structure Method.Relisted (m n : Method) : Prop where
  name : m.name = n.name
  params : m.params = n.params
  eq_of_ne : m.name ≠ modulesMethod → m = n
  modules : ∀ t, t ∈ moduleList m.results ↔ t ∈ moduleList n.results

/-- The declarations have the same public methods, up to the modules that an interface lists. -/
structure Decl.Relisted (d e : Decl) : Prop where
  identity : d.identity = e.identity
  eq_or_isInterface : d = e ∨ d.isInterface = true ∧ e.isInterface = true
  publicMethods : List.Forall₂ Method.Relisted d.publicMethods e.publicMethods

/-- Everything that `u` declares is declared in `v`, where there are no further interfaces. -/
structure Universe.Embeds (u v : Universe) : Prop where
  lookup : ∀ i d, u.lookup i = some d → ∃ e, v.lookup i = some e ∧ d.Relisted e
  interface : ∀ i, v.declaresInterface i = true → u.declaresInterface i = true

/-- The same types are declared, possibly relisted. -/
def Universe.Relisted (u v : Universe) : Prop :=
  ∀ i, Option.Rel Decl.Relisted (u.lookup i) (v.lookup i)

theorem Method.Relisted.refl (m : Method) : m.Relisted m :=
  ⟨rfl, rfl, fun _ => rfl, fun _ => Iff.rfl⟩

theorem Method.Relisted.symm {m n : Method} (h : m.Relisted n) : n.Relisted m :=
  ⟨h.name.symm, h.params.symm, fun hne => (h.eq_of_ne (h.name ▸ hne)).symm,
    fun t => (h.modules t).symm⟩

namespace Decl.Relisted

variable {d e : Decl}

theorem refl (d : Decl) : d.Relisted d :=
  ⟨rfl, .inl rfl, List.forall₂_same.mpr fun m _ => .refl m⟩

theorem symm (h : d.Relisted e) : e.Relisted d where
  identity := h.identity.symm
  eq_or_isInterface := h.eq_or_isInterface.imp Eq.symm And.symm
  publicMethods := (h.publicMethods.imp fun _ _ => Method.Relisted.symm).flip

theorem isInterface (h : d.Relisted e) : d.isInterface = e.isInterface := by
  rcases h.eq_or_isInterface with rfl | ⟨hd, he⟩
  · rfl
  · rw [hd, he]

/-- Only an interface lists modules. -/
theorem eq_of_isStruct (h : d.Relisted e) (hd : d.isStruct = true) : d = e := by
  rcases h.eq_or_isInterface with rfl | ⟨hinterface, -⟩
  · rfl
  · simp [Discovery.isInterface_of_isStruct hd] at hinterface

theorem filter_name (h : d.Relisted e) (p : String → Bool) :
    List.Forall₂ Method.Relisted (d.publicMethods.filter fun m => p m.name)
      (e.publicMethods.filter fun m => p m.name) :=
  List.rel_filter (fun _ _ hmn => by simp only [hmn.name]) h.publicMethods

theorem rel_method? (h : d.Relisted e) (name : String) :
    Option.Rel Method.Relisted (d.method? name) (e.method? name) := by
  have hhead := rel_getElem? (h.filter_name (decide <| · = name)) 0
  simpa only [method?, ← List.head?_filter, List.head?_eq_getElem?] using hhead

theorem rel_getLast? (h : d.Relisted e) :
    Option.Rel Method.Relisted (d.publicMethods.filter fun m => m.name = modulesMethod).getLast?
      (e.publicMethods.filter fun m => m.name = modulesMethod).getLast? := by
  have hfilter := h.filter_name (decide <| · = modulesMethod)
  rw [List.getLast?_eq_getElem?, List.getLast?_eq_getElem?, ← hfilter.length_eq]
  exact rel_getElem? hfilter _

/-- Methods for modules are no targets. -/
theorem targetMethods_eq (h : d.Relisted e) :
    Definition.targetMethods d = Definition.targetMethods e := by
  have hfilter := h.filter_name fun name => name ≠ modulesMethod ∧ name ≠ targetMethod
  have hne : ∀ m ∈ Definition.targetMethods d, m.name ≠ modulesMethod := by
    intro m hm
    have hname := (List.mem_filter.mp hm).2
    simp only [decide_eq_true_eq] at hname
    exact hname.1
  have heq := (List.forall₂_and_left _ _).mpr ⟨hne, hfilter⟩
  rw [← List.forall₂_eq_eq_eq]
  exact heq.imp fun m n hmn => hmn.2.eq_of_ne hmn.1

end Decl.Relisted

namespace Universe

variable {u v : Universe}

theorem Embeds.refl (u : Universe) : u.Embeds u :=
  ⟨fun _ d hd => ⟨d, hd, .refl d⟩, fun _ => id⟩

theorem Embeds.declaresInterface_eq (h : u.Embeds v) (i : Identity) :
    u.declaresInterface i = v.declaresInterface i := by
  rw [Bool.eq_iff_iff]
  refine ⟨fun hi => ?_, h.interface i⟩
  obtain ⟨d, hd, hinterface⟩ := declaresInterface_iff.mp hi
  obtain ⟨e, he, hrelisted⟩ := h.lookup i d hd
  exact declaresInterface_iff.mpr ⟨e, he, hrelisted.isInterface ▸ hinterface⟩

theorem Embeds.lookup_struct (h : u.Embeds v) {i : Identity} {d : Decl}
    (hd : u.lookup i = some d) (hstruct : d.isStruct = true) : v.lookup i = some d := by
  obtain ⟨e, he, hrelisted⟩ := h.lookup i d hd
  rwa [hrelisted.eq_of_isStruct hstruct]

theorem Embeds.declaresStruct (h : u.Embeds v) {i : Identity} (hi : u.declaresStruct i = true) :
    v.declaresStruct i = true := by
  obtain ⟨d, hd, hstruct⟩ := declaresStruct_iff.mp hi
  exact declaresStruct_iff.mpr ⟨d, h.lookup_struct hd hstruct, hstruct⟩

theorem Relisted.symm (h : u.Relisted v) : v.Relisted u := by
  intro i
  have hi := h i
  generalize u.lookup i = d, v.lookup i = e at hi ⊢
  cases hi with
  | some hi => exact .some hi.symm
  | none => exact .none

theorem Relisted.embeds (h : u.Relisted v) : u.Embeds v where
  lookup := by
    intro i d hd
    have hi := h i
    rw [hd] at hi
    generalize v.lookup i = e at hi
    cases hi with
    | some hi => exact ⟨_, rfl, hi⟩
  interface := by
    intro i hinterface
    obtain ⟨e, he, hinterface⟩ := declaresInterface_iff.mp hinterface
    have hi := h i
    rw [he] at hi
    generalize hd : u.lookup i = d at hi
    cases hi with
    | some hi => exact declaresInterface_iff.mpr ⟨_, hd, hi.isInterface.trans hinterface⟩

/-- A universe is embedded in what it is with a further struct or sealed type. -/
theorem Embeds.of_insert {d : Decl} (hnew : u.lookup d.identity = none)
    (hkind : d.isInterface = false) :
    u.Embeds { u with types := u.types.insert d } where
  lookup := by
    intro i e he
    have hne : d.identity ≠ i := by
      rintro rfl
      simp [hnew] at he
    exact ⟨e, by rw [lookup_insert, if_neg hne, he], .refl e⟩
  interface := by
    intro i hi
    obtain ⟨e, he, hinterface⟩ := declaresInterface_iff.mp hi
    rw [lookup_insert] at he
    split at he
    · cases he
      simp [hkind] at hinterface
    · exact declaresInterface_iff.mpr ⟨e, he, hinterface⟩

/-- A universe is relisted by relisting one of its declarations. -/
theorem Relisted.of_insert {d e : Decl} (hd : u.lookup e.identity = some d)
    (h : d.Relisted e) : u.Relisted { u with types := u.types.insert e } := by
  intro i
  rw [lookup_insert]
  split
  · next hi =>
    rw [← hi, hd]
    exact .some h
  · cases u.lookup i with
    | none => exact .none
    | some f => exact .some (.refl f)

end Universe

section Loading

open Definition

variable {u v : Universe} {d e : Decl}

theorem Decl.Relisted.targetsOf_eq (h : d.Relisted e) : targetsOf d = targetsOf e := by
  rw [targetsOf, targetsOf, h.targetMethods_eq]

theorem Decl.Relisted.modulesOf (h : d.Relisted e) {ms : List TypeRef}
    (hd : Definition.modulesOf d = .ok ms) :
    ∃ ms', Definition.modulesOf e = .ok ms' ∧ ∀ t, t ∈ ms' ↔ t ∈ ms := by
  have hmethod := h.rel_method? modulesMethod
  unfold Definition.modulesOf at hd ⊢
  generalize d.method? modulesMethod = m, e.method? modulesMethod = n at hd hmethod ⊢
  cases hmethod with
  | none => cases hd
  | some hm =>
    dsimp only at hd ⊢
    split at hd
    · next hparams =>
      cases hd
      rw [if_pos (hm.params ▸ hparams)]
      exact ⟨_, rfl, fun t => (hm.modules t).symm⟩
    · cases hd

theorem interfaceOf_of_embeds (h : u.Embeds v) (m : Method) :
    interfaceOf v m = interfaceOf u m := by
  simp [interfaceOf, h.declaresInterface_eq]

theorem interfaceTargets_of_embeds (h : u.Embeds v) {m : Method} {x : List Target × Identity}
    (hx : interfaceTargets u m = .ok x) : interfaceTargets v m = .ok x := by
  unfold interfaceTargets at hx ⊢
  rw [interfaceOf_of_embeds h]
  split at hx
  · cases hx
  · next i hi =>
    split at hx
    · cases hx
    · next d hd =>
      obtain ⟨e, he, hrelisted⟩ := h.lookup i d hd
      simpa only [hi, he, ← hrelisted.targetsOf_eq] using hx

theorem wantedTargets_of_embeds (h : u.Embeds v) (hd : d.Relisted e)
    {x : List Target × Option Identity} (hx : wantedTargets u d = .ok x) :
    wantedTargets v e = .ok x := by
  have hmethod := hd.rel_method? targetMethod
  have hname : ∀ m, d.method? targetMethod = some m → m.name ≠ modulesMethod := by
    intro m hm heq
    have hm := List.find?_some hm
    simp [heq, modulesMethod, targetMethod] at hm
  unfold wantedTargets at hx ⊢
  generalize d.method? targetMethod = m, e.method? targetMethod = n at hx hmethod hname ⊢
  cases hmethod with
  | none => simpa only [ownTargets, ← hd.targetsOf_eq] using hx
  | @some m n hm =>
    obtain rfl := hm.eq_of_ne (hname m rfl)
    dsimp only at hx ⊢
    cases htargets : interfaceTargets u m with
    | error e =>
      rw [htargets] at hx
      cases hx
    | ok y =>
      rw [htargets] at hx
      rw [interfaceTargets_of_embeds h htargets]
      exact hx

/-- A definition is loaded as it is, with the same modules. -/
theorem load_of_embeds (h : u.Embeds v) {package name : String} {d : Definition}
    (hd : load u package name = .ok d) :
    ∃ ms, load v package name = .ok { d with modules := ms } ∧ ∀ t, t ∈ ms ↔ t ∈ d.modules := by
  obtain ⟨f, hf, hinterface, hms, hwanted, htargets, hidentity⟩ := load_eq_ok_iff.mp hd
  obtain ⟨e, he, hrelisted⟩ := h.lookup _ f hf
  obtain ⟨ms, hms', hmem⟩ := hrelisted.modulesOf hms
  refine ⟨ms, load_eq_ok_iff.mpr ⟨e, he, ?_, hms', ?_, htargets, ?_⟩, hmem⟩
  · exact hrelisted.isInterface ▸ hinterface
  · exact wantedTargets_of_embeds h hrelisted hwanted
  · exact hidentity.trans hrelisted.identity

end Loading

namespace Discovery

variable {u v : Universe} {roots roots' : List TypeRef} {t : TypeRef} {d e : Decl} {m : Method}
  {k : Nat} {x : Entry}

theorem Refers.of_embeds (h : u.Embeds v) (ht : Refers u t d) :
    ∃ e, Refers v t e ∧ d.Relisted e := by
  obtain ⟨hd, hkind⟩ := ht
  obtain ⟨e, he, hrelisted⟩ := h.lookup _ d hd
  rw [hrelisted.identity] at he hkind
  refine ⟨e, ⟨he, ?_⟩, hrelisted⟩
  rcases hkind with ⟨ht, hinterface⟩ | ⟨ht, hstruct⟩
  · exact .inl ⟨ht, hrelisted.isInterface ▸ hinterface⟩
  · exact .inr ⟨ht, hrelisted.eq_of_isStruct hstruct ▸ hstruct⟩

/-- More is reachable from more references in a larger universe. -/
theorem Reachable.of_embeds (h : u.Embeds v) (hroots : ∀ t ∈ roots, t ∈ roots')
    (ht : Reachable u roots t) : Reachable v roots' t := by
  induction ht with
  | root ht => exact .root (hroots _ ht)
  | @nested i d m t _ hd hinterface hm ht ih =>
    obtain ⟨e, he, hrelisted⟩ := h.lookup i d hd
    have hlast := hrelisted.rel_getLast?
    rw [hm] at hlast
    generalize hn : List.getLast? _ = n at hlast
    cases hlast with
    | some hmn =>
      exact .nested ih he (hrelisted.isInterface ▸ hinterface) hn ((hmn.modules t).mp ht)

/-- Nothing more is reachable if everything that is reachable in the smaller universe stands for
a module there. -/
theorem Reachable.of_embedded (h : u.Embeds v) (hu : ∀ t, Reachable u roots t → ∃ d, Refers u t d)
    (hroots : ∀ t ∈ roots', t ∈ roots) (ht : Reachable v roots' t) : Reachable u roots t := by
  induction ht with
  | root ht => exact .root (hroots _ ht)
  | @nested i e n t _ he hinterface hn ht ih =>
    obtain ⟨d, hd⟩ := hu _ ih
    obtain ⟨e', he', hrelisted⟩ := hd.of_embeds h
    obtain rfl := Universe.identity_of_lookup he
    obtain rfl : e' = e := he'.unique ⟨he, .inl ⟨rfl, hinterface⟩⟩
    have hlast := hrelisted.rel_getLast?
    rw [hn] at hlast
    generalize hm : List.getLast? _ = m at hlast
    cases hlast with
    | some hmn =>
      have hlookup : u.lookup e'.identity = some d := hrelisted.identity ▸ hd.1
      exact .nested ih hlookup (hrelisted.isInterface.trans hinterface) hm ((hmn.modules t).mpr ht)

theorem Declares.of_embeds (h : u.Embeds v) (hd : d.Relisted e) (hx : Declares u d m x) :
    Declares v e m x := by
  cases hx with
  | provider hstruct hp =>
    obtain rfl := hd.eq_of_isStruct hstruct
    obtain ⟨hresults, hshape, hmodule, hmethod, hparams⟩ := hp
    rw [h.declaresInterface_eq] at hshape
    exact .provider hstruct ⟨hresults, hshape, hmodule, hmethod, hparams⟩
  | binding hinterface hname hb =>
    obtain ⟨hparams, hresults, hbound, himplementation, hmodule, hmethod⟩ := hb
    rw [h.declaresInterface_eq] at hbound
    exact .binding (hd.isInterface ▸ hinterface) hname
      ⟨hparams, hresults, hbound, h.declaresStruct himplementation,
        hmodule.trans hd.identity, hmethod⟩

/-- Methods that list modules declare nothing. -/
theorem Accepted.name_ne (h : Accepted u d) (hm : m ∈ d.publicMethods) (hx : Declares u d m x) :
    m.name ≠ modulesMethod := by
  cases hx with
  | provider hstruct => exact h.struct hstruct m hm
  | binding _ hname => exact hname

theorem Accepted.of_embeds (h : u.Embeds v) (hd : d.Relisted e) (hu : Accepted u d) :
    Accepted v e := by
  have hold : ∀ n ∈ e.publicMethods, ∃ m ∈ d.publicMethods, m.Relisted n := by
    intro n hn
    obtain ⟨k, hk⟩ := List.mem_iff_getElem?.mp hn
    have hrel := rel_getElem? hd.publicMethods k
    rw [hk] at hrel
    generalize hm : d.publicMethods[k]? = m at hrel
    cases hrel with
    | some hmn => exact ⟨_, List.mem_of_getElem? hm, hmn⟩
  refine ⟨fun hstruct n hn hname => ?_, fun hinterface n hn hname => ?_, fun n hn hname => ?_⟩
  · obtain rfl := hd.symm.eq_of_isStruct hstruct
    exact hu.struct hstruct n hn hname
  · obtain ⟨m, hm, hmn⟩ := hold n hn
    rw [← hmn.params]
    exact hu.interface (hd.isInterface.trans hinterface) m hm (hmn.name.trans hname)
  · obtain ⟨m, hm, hmn⟩ := hold n hn
    obtain rfl := hmn.symm.eq_of_ne hname
    exact (hu.declares n hm hname).imp fun _ hx => hx.of_embeds h hd

/-- An accepted module declares the same entries. -/
theorem declaresAt_iff_of_embeds (h : u.Embeds v) (hd : d.Relisted e) (hu : Accepted u d) :
    DeclaresAt v e k x ↔ DeclaresAt u d k x := by
  have hrel := rel_getElem? hd.publicMethods k
  constructor
  · rintro ⟨n, hn, hx⟩
    rw [hn] at hrel
    generalize hm : d.publicMethods[k]? = m at hrel
    cases hrel with
    | some hmn =>
      have hname := (hu.of_embeds h hd).name_ne (List.mem_of_getElem? hn) hx
      rw [← hmn.symm.eq_of_ne hname] at hm
      obtain ⟨y, hy⟩ := hu.declares n (List.mem_of_getElem? hm) hname
      have hsame := (declared?_eq_some_iff.mpr (hy.of_embeds h hd)).symm.trans
        (declared?_eq_some_iff.mpr hx)
      exact ⟨n, hm, Option.some.inj hsame ▸ hy⟩
  · rintro ⟨m, hm, hx⟩
    rw [hm] at hrel
    generalize hn : e.publicMethods[k]? = n at hrel
    cases hrel with
    | some hmn =>
      rw [← hmn.eq_of_ne (hu.name_ne (List.mem_of_getElem? hm) hx)] at hn
      exact ⟨m, hn, hx.of_embeds h hd⟩

theorem ReachableModule.of_embeds (h : u.Embeds v) (hroots : ∀ t ∈ roots, t ∈ roots')
    (hd : ReachableModule u roots d) : ∃ e, ReachableModule v roots' e ∧ d.Relisted e := by
  obtain ⟨t, ht, hrefers⟩ := hd
  obtain ⟨e, he, hrelisted⟩ := hrefers.of_embeds h
  exact ⟨e, ⟨t, ht.of_embeds h hroots, he⟩, hrelisted⟩

theorem ReachableModule.of_embedded (h : u.Embeds v)
    (hu : ∀ t, Reachable u roots t → ∃ d, Refers u t d) (hroots : ∀ t ∈ roots', t ∈ roots)
    (he : ReachableModule v roots' e) : ∃ d, ReachableModule u roots d ∧ d.Relisted e := by
  obtain ⟨t, ht, hrefers⟩ := he
  have hreached := ht.of_embedded h hu hroots
  obtain ⟨d, hd⟩ := hu t hreached
  obtain ⟨e', he', hrelisted⟩ := hd.of_embeds h
  obtain rfl := he'.unique hrefers
  exact ⟨d, ⟨t, hreached, hd⟩, hrelisted⟩

end Discovery

section Discover

open Discovery

variable {u v : Universe} {roots roots' : List TypeRef} {r r' : Registry}

/-- Modules that can be registered together can be so in a larger universe. -/
theorem Discoverable.of_embeds (h : u.Embeds v) (hroots : ∀ t ∈ roots', t ∈ roots)
    (hu : Discoverable u roots) : Discoverable v roots' where
  refers := by
    intro t ht
    obtain ⟨d, hd⟩ := hu.refers t (ht.of_embedded h hu.refers hroots)
    exact (hd.of_embeds h).imp fun _ => And.left
  accepted := by
    intro e he
    obtain ⟨d, hd, hrelisted⟩ := he.of_embedded h hu.refers hroots
    exact (hu.accepted d hd).of_embeds h hrelisted
  distinct := by
    intro e e' k k' x x' he he' hx hx' heq
    obtain ⟨d, hd, hrelisted⟩ := he.of_embedded h hu.refers hroots
    obtain ⟨d', hd', hrelisted'⟩ := he'.of_embedded h hu.refers hroots
    have hdx := (declaresAt_iff_of_embeds h hrelisted (hu.accepted d hd)).mp hx
    have hdx' := (declaresAt_iff_of_embeds h hrelisted' (hu.accepted d' hd')).mp hx'
    obtain ⟨rfl, rfl⟩ := hu.distinct d d' k k' x x' hd hd' hdx hdx' heq
    exact ⟨he.eq_of_identity he' (hrelisted.identity.symm.trans hrelisted'.identity), rfl⟩

section Registered

variable (h : u.Embeds v) (hroots : ∀ t, t ∈ roots' ↔ t ∈ roots) (hu : Discoverable u roots)

include h hroots hu

/-- Reachable modules declare the same entries. -/
theorem Discoverable.declared_iff {x : Entry} :
    (∃ e k, ReachableModule v roots' e ∧ DeclaresAt v e k x) ↔
      ∃ d k, ReachableModule u roots d ∧ DeclaresAt u d k x := by
  constructor
  · rintro ⟨e, k, he, hx⟩
    obtain ⟨d, hd, hrelisted⟩ := he.of_embedded h hu.refers fun t => (hroots t).mp
    exact ⟨d, k, hd, (declaresAt_iff_of_embeds h hrelisted (hu.accepted d hd)).mp hx⟩
  · rintro ⟨d, k, hd, hx⟩
    obtain ⟨e, he, hrelisted⟩ := hd.of_embeds h fun t => (hroots t).mpr
    exact ⟨e, k, he, (declaresAt_iff_of_embeds h hrelisted (hu.accepted d hd)).mpr hx⟩

/-- The same structs are reachable. -/
theorem Discoverable.reachable_struct_iff {d : Decl} (hstruct : d.isStruct = true) :
    ReachableModule v roots' d ↔ ReachableModule u roots d := by
  constructor
  · intro hd
    obtain ⟨e, he, hrelisted⟩ := hd.of_embedded h hu.refers fun t => (hroots t).mp
    exact (hrelisted.symm.eq_of_isStruct hstruct).symm ▸ he
  · intro hd
    obtain ⟨e, he, hrelisted⟩ := hd.of_embeds h fun t => (hroots t).mpr
    exact (hrelisted.eq_of_isStruct hstruct).symm ▸ he

theorem Registry.Discovered.eq_of_embeds (hr : r.Discovered u roots)
    (hr' : r'.Discovered v roots') : r' = r := by
  have hproviders : r'.providers = r.providers := by
    refine Table.ext_find? fun i => Option.ext fun p => ?_
    exact (hr'.provider i p).trans
      ((and_congr_right fun _ => hu.declared_iff h hroots).trans (hr.provider i p).symm)
  have hbindings : r'.bindings = r.bindings := by
    refine Table.ext_find? fun i => Option.ext fun b => ?_
    exact (hr'.binding i b).trans
      ((and_congr_right fun _ => hu.declared_iff h hroots).trans (hr.binding i b).symm)
  have hmodules : r'.valueModules = r.valueModules := by
    refine Table.ext_find? fun i => Option.ext fun x => ?_
    refine (hr'.valueModule i x).trans (Iff.trans ?_ (hr.valueModule i x).symm)
    exact exists_congr fun d => and_congr_left fun hd =>
      hu.reachable_struct_iff h hroots hd.1
  cases r
  cases r'
  simp_all

end Registered

/-- In a larger universe the same registry is discovered, also if the modules are listed in
another order, or several times. -/
theorem discover_of_embeds (h : u.Embeds v) (hroots : ∀ t, t ∈ roots' ↔ t ∈ roots)
    (hr : discover u roots = .ok r) : discover v roots' = .ok r := by
  obtain ⟨ds, hw, hp⟩ := discover_walked hr
  have hu := hw.discoverable hp
  have hv : Discoverable v roots' := hu.of_embeds h fun t => (hroots t).mp
  obtain ⟨r', hr'⟩ := walk_isOk hv rfl .empty .start
  obtain ⟨ds', hw', hp'⟩ := discover_walked hr'
  have heq : r' = r :=
    Registry.Discovered.eq_of_embeds h hroots hu (hw.discovered hp) (hw'.discovered hp')
  exact heq ▸ hr'

end Discover

end Wiring
