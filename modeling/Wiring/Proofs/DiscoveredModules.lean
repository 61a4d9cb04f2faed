import Mathlib.Logic.ExistsUnique
import Wiring.Proofs.PlanClosure
import Wiring.Proofs.Registration

/-!
Discovery registers what the reachable modules declare. A reference is reachable if it is asked
for, or if it is in the module list of a reachable interface. The modules that have been taken
are kept beside the worklist: what they declare is exactly what is registered, and what they
list is covered by them and the worklist. When the worklist is empty they are therefore all the
reachable modules, although a module that comes up again is passed over.
-/
namespace Wiring

namespace Discovery

open Definition (modulesMethod moduleList)

/-- A reference stands for a declared interface by value, or for a declared struct. -/
def Refers (u : Universe) (t : TypeRef) (d : Decl) : Prop :=
  u.lookup d.identity = some d ∧
    (t = .named d.identity ∧ d.isInterface = true ∨
      t = .pointer (.named d.identity) ∧ d.isStruct = true)

/-- What is asked for, and what reachable interfaces list in the last of their public methods
for modules. -/
inductive Reachable (u : Universe) (roots : List TypeRef) : TypeRef → Prop
  | root {t : TypeRef} (ht : t ∈ roots) : Reachable u roots t
  | nested {i : Identity} {d : Decl} {m : Method} {t : TypeRef}
      (hi : Reachable u roots (.named i)) (hd : u.lookup i = some d)
      (hinterface : d.isInterface = true)
      (hm : (d.publicMethods.filter fun m => m.name = modulesMethod).getLast? = some m)
      (ht : t ∈ moduleList m.results) : Reachable u roots t

def ReachableModule (u : Universe) (roots : List TypeRef) (d : Decl) : Prop :=
  ∃ t, Reachable u roots t ∧ Refers u t d

/-- Public method number `k` of `d` declares an entry. -/
def DeclaresAt (u : Universe) (d : Decl) (k : Nat) (e : Entry) : Prop :=
  ∃ m, d.publicMethods[k]? = some m ∧ Declares u d m e

end Discovery

open Discovery

/-- All reachable modules can be registered together. -/
structure Discoverable (u : Universe) (roots : List TypeRef) : Prop where
  refers : ∀ t, Reachable u roots t → ∃ d, Refers u t d
  accepted : ∀ d, ReachableModule u roots d → Accepted u d
  /-- No identity is registered by two methods. -/
  distinct : ∀ d d' k k' e e', ReachableModule u roots d → ReachableModule u roots d' →
    DeclaresAt u d k e → DeclaresAt u d' k' e' → e.identity = e'.identity → d = d' ∧ k = k'

/-- A registry holds what the reachable modules declare, and nothing else. -/
structure Registry.Discovered (u : Universe) (roots : List TypeRef) (r : Registry) : Prop where
  provider : ∀ i p, r.provider? i = some p ↔
    p.provides = i ∧ ∃ d k, ReachableModule u roots d ∧ DeclaresAt u d k (.provider p)
  binding : ∀ i b, r.binding? i = some b ↔
    b.interface = i ∧ ∃ d k, ReachableModule u roots d ∧ DeclaresAt u d k (.binding b)
  /-- Every entry stands for a single method. -/
  once : ∀ e, r.Holds e →
    ∃! x : Decl × Nat, ReachableModule u roots x.1 ∧ DeclaresAt u x.1 x.2 e
  disjoint : ∀ i ∈ r.providers.keys, i ∉ r.bindings.keys
  valueModule : ∀ i x, r.valueModule? i = some x ↔ ∃ d, ReachableModule u roots d ∧
    d.isStruct = true ∧ d.identity = i ∧ x = ⟨i, d.flags.contains .providedModule⟩
  provider_module : ∀ i p, r.provider? i = some p → p.module ∈ r.valueModules.keys
  binding_types : ∀ i b, r.binding? i = some b →
    u.declaresInterface b.interface = true ∧ u.declaresStruct b.implementation = true

namespace Discovery

variable {u : Universe} {roots worklist : List TypeRef} {t : TypeRef} {d d' : Decl}
  {ds : List Decl} {r r' : Registry}

theorem Refers.isModule (h : Refers u t d) : IsModule d := by
  rcases h with ⟨-, ⟨-, hinterface⟩ | ⟨-, hstruct⟩⟩
  · exact .inr hinterface
  · exact .inl hstruct

theorem Refers.unique (h : Refers u t d) (h' : Refers u t d') : d = d' := by
  obtain ⟨hlookup, hd⟩ := h
  obtain ⟨hlookup', hd'⟩ := h'
  have hidentity : d.identity = d'.identity := by
    rcases hd with ⟨rfl, -⟩ | ⟨rfl, -⟩ <;> rcases hd' with ⟨ht, -⟩ | ⟨ht, -⟩ <;> simp_all
  rw [hidentity, hlookup'] at hlookup
  exact (Option.some.inj hlookup).symm

theorem moduleOf_eq_ok_iff : moduleOf u t = .ok d ↔ Refers u t d := by
  constructor
  · intro h
    unfold moduleOf at h
    split at h
    · cases h
    · next i isReference hshape =>
      split at h
      · cases h
      · next d hlookup =>
        split at h
        · next hgiven =>
          cases h
          obtain rfl := Universe.identity_of_lookup hlookup
          refine ⟨hlookup, ?_⟩
          have htype := TypeRef.shape_eq_some_iff.mp hshape
          cases isReference with
          | false => exact .inl ⟨by simpa using htype, by simpa [isGivenAs] using hgiven⟩
          | true => exact .inr ⟨by simpa using htype, by simpa [isGivenAs] using hgiven⟩
        · cases h
  · rintro ⟨hlookup, ⟨rfl, hinterface⟩ | ⟨rfl, hstruct⟩⟩
    · simp [moduleOf, TypeRef.shape, hlookup, isGivenAs, hinterface]
    · simp [moduleOf, TypeRef.shape, hlookup, isGivenAs, hstruct]

theorem ReachableModule.eq_of_identity (h : ReachableModule u roots d)
    (h' : ReachableModule u roots d') (heq : d.identity = d'.identity) : d = d' := by
  obtain ⟨-, -, hlookup, -⟩ := h
  obtain ⟨-, -, hlookup', -⟩ := h'
  rw [heq, hlookup'] at hlookup
  exact (Option.some.inj hlookup).symm

theorem mem_entries_iff_declaresAt {e : Entry} : e ∈ entries u d ↔ ∃ k, DeclaresAt u d k e := by
  rw [mem_entries_iff]
  constructor
  · rintro ⟨m, hm, he⟩
    obtain ⟨k, hk⟩ := List.mem_iff_getElem?.mp hm
    exact ⟨k, m, hk, he⟩
  · rintro ⟨k, m, hk, he⟩
    exact ⟨m, List.mem_of_getElem? hk, he⟩

/-- Distinct identities in the entries of a module, said by the positions of its methods. -/
theorem nodup_entries_iff : ((entries u d).map Entry.identity).Nodup ↔
    ∀ k k' e e', DeclaresAt u d k e → DeclaresAt u d k' e' → e.identity = e'.identity → k = k' := by
  have hpairwise : ((entries u d).map Entry.identity).Nodup ↔ d.publicMethods.Pairwise
      fun m m' => ∀ e, Declares u d m e → ∀ e', Declares u d m' e' → e.identity ≠ e'.identity := by
    rw [List.Nodup, List.pairwise_map, entries, List.pairwise_filterMap]
    simp only [declared?_eq_some_iff]
  rw [hpairwise, List.pairwise_iff_getElem]
  constructor
  · rintro h k k' e e' ⟨m, hm, he⟩ ⟨m', hm', he'⟩ heq
    obtain ⟨hk, rfl⟩ := List.getElem?_eq_some_iff.mp hm
    obtain ⟨hk', rfl⟩ := List.getElem?_eq_some_iff.mp hm'
    rcases Nat.lt_trichotomy k k' with hlt | heq' | hlt
    · exact absurd heq (h k k' hk hk' hlt e he e' he')
    · exact heq'
    · exact absurd heq.symm (h k' k hk' hk hlt e' he' e he)
  · intro h k k' hk hk' hlt e he e' he' heq
    have hsame := h k k' e e' ⟨_, List.getElem?_eq_getElem hk, he⟩
      ⟨_, List.getElem?_eq_getElem hk', he'⟩ heq
    omega

/-- `ds` are the modules that have been taken, and `r` holds what they declare. -/
structure Walked (u : Universe) (roots : List TypeRef) (ds : List Decl) (r : Registry) :
    Prop where
  reached : ∀ d ∈ ds, ReachableModule u roots d
  accepted : ∀ d ∈ ds, Accepted u d
  distinct : ∀ d ∈ ds, ((entries u d).map Entry.identity).Nodup
  apart : ∀ d ∈ ds, ∀ d' ∈ ds, d ≠ d' → ∀ e ∈ entries u d, ∀ e' ∈ entries u d',
    e.identity ≠ e'.identity
  holds : ∀ e, r.Holds e ↔ ∃ d ∈ ds, e ∈ entries u d
  valueModules : ∀ x, x ∈ r.valueModules.toList ↔
    ∃ d ∈ ds, d.isStruct = true ∧ x = ⟨d.identity, d.isProvidedModule⟩

/-- Whatever is asked for or listed by the modules that have been taken is one of them or is
still to be taken. -/
structure Pending (u : Universe) (roots worklist : List TypeRef) (ds : List Decl) : Prop where
  reachable : ∀ t ∈ worklist, Reachable u roots t
  covered : ∀ t, (t ∈ roots ∨ ∃ d ∈ ds, t ∈ nested d) →
    t ∈ worklist ∨ ∃ d ∈ ds, Refers u t d

theorem Walked.empty : Walked u roots [] .empty :=
  ⟨nofun, nofun, nofun, nofun, fun e => by cases e <;> simp [Registry.Holds, Registry.empty],
    fun x => by simp [Registry.empty]⟩

theorem Pending.start : Pending u roots roots [] :=
  ⟨fun _ => .root, by simp⟩

/-- A module that has been taken is passed over. -/
theorem Pending.skip (h : Pending u roots (t :: worklist) ds) (hd : d ∈ ds)
    (ht : Refers u t d) : Pending u roots worklist ds where
  reachable := fun t' ht' => h.reachable t' (List.mem_cons_of_mem t ht')
  covered := by
    intro t' ht'
    rcases h.covered t' ht' with hmem | hdone
    · rcases List.mem_cons.mp hmem with rfl | hmem
      · exact .inr ⟨d, hd, ht⟩
      · exact .inl hmem
    · exact .inr hdone

theorem reachable_of_mem_nested (h : Reachable u roots t) (hd : Refers u t d) {t' : TypeRef}
    (ht' : t' ∈ nested d) : Reachable u roots t' := by
  unfold nested at ht'
  split at ht'
  · next hinterface =>
    split at ht'
    · next m hm =>
      rcases hd with ⟨hlookup, ⟨rfl, -⟩ | ⟨-, hstruct⟩⟩
      · exact .nested h hlookup hinterface hm ht'
      · simp [isInterface_of_isStruct hstruct] at hinterface
    · cases ht'
  · cases ht'

/-- What a module lists takes its place on the worklist. -/
theorem Pending.take (h : Pending u roots (t :: worklist) ds) (ht : Refers u t d) :
    Pending u roots (nested d ++ worklist) (d :: ds) where
  reachable := by
    intro t' ht'
    rcases List.mem_append.mp ht' with hmem | hmem
    · exact reachable_of_mem_nested (h.reachable t List.mem_cons_self) ht hmem
    · exact h.reachable t' (List.mem_cons_of_mem t hmem)
  covered := by
    intro t' ht'
    have hold : t' ∈ nested d ∨ t' ∈ roots ∨ ∃ d' ∈ ds, t' ∈ nested d' := by
      simp only [List.mem_cons, exists_eq_or_imp] at ht'
      tauto
    rcases hold with hmem | hold
    · exact .inl (List.mem_append_left worklist hmem)
    · rcases h.covered t' hold with hmem | ⟨d', hd', hrefers⟩
      · rcases List.mem_cons.mp hmem with rfl | hmem
        · exact .inr ⟨d, List.mem_cons_self, ht⟩
        · exact .inl (List.mem_append_right (nested d) hmem)
      · exact .inr ⟨d', List.mem_cons_of_mem d hd', hrefers⟩

/-- When nothing is left to be taken, the modules that have been taken are the reachable ones. -/
theorem Pending.closed (h : Pending u roots [] ds) (ht : Reachable u roots t) :
    ∃ d ∈ ds, Refers u t d := by
  have hcovered : ∀ t, (t ∈ roots ∨ ∃ d ∈ ds, t ∈ nested d) → ∃ d ∈ ds, Refers u t d :=
    fun t ht => (h.covered t ht).resolve_left List.not_mem_nil
  induction ht with
  | root ht => exact hcovered _ (.inl ht)
  | @nested i d m t _ hd hinterface hm ht ih =>
    obtain ⟨d', hd', hrefers⟩ := ih
    obtain rfl := Universe.identity_of_lookup hd
    obtain rfl : d' = d := hrefers.unique ⟨hd, .inl ⟨rfl, hinterface⟩⟩
    refine hcovered t (.inr ⟨d', hd', ?_⟩)
    simpa [Discovery.nested, hinterface, hm] using ht

/-- Registering a further reachable module keeps what is known of those taken before. -/
theorem Walked.take (h : Walked u roots ds r) (hd : ReachableModule u roots d)
    (hnew : d.identity ∉ ds.map Decl.identity) (hok : register u d r = .ok r') :
    Walked u roots (d :: ds) r' := by
  have hmodule : IsModule d := hd.elim fun _ ht => ht.2.isModule
  obtain ⟨haccepted, r₁, hextends, rfl⟩ := register_extends hmodule hok
  have hfree : ∀ d' ∈ ds, ∀ e ∈ entries u d, ∀ e' ∈ entries u d', e'.identity ≠ e.identity := by
    intro d' hd' e he e' he'
    exact hextends.free e he e' ((h.holds e').mpr ⟨d', hd', he'⟩)
  refine ⟨?_, ?_, ?_, ?_, ?_, ?_⟩
  · exact List.forall_mem_cons.mpr ⟨hd, h.reached⟩
  · exact List.forall_mem_cons.mpr ⟨haccepted, h.accepted⟩
  · exact List.forall_mem_cons.mpr ⟨hextends.distinct, h.distinct⟩
  · intro d₁ hd₁ d₂ hd₂ hne e₁ he₁ e₂ he₂
    rcases List.mem_cons.mp hd₁ with rfl | hold₁ <;> rcases List.mem_cons.mp hd₂ with rfl | hold₂
    · exact absurd rfl hne
    · exact (hfree d₂ hold₂ e₁ he₁ e₂ he₂).symm
    · exact hfree d₁ hold₁ e₂ he₂ e₁ he₁
    · exact h.apart d₁ hold₁ d₂ hold₂ hne e₁ he₁ e₂ he₂
  · intro e
    rw [holds_addModule, hextends.holds, h.holds, List.exists_mem_cons_iff, or_comm]
  · intro x
    have hold : x ∈ r₁.valueModules.toList ↔
        ∃ d' ∈ ds, d'.isStruct = true ∧ x = ⟨d'.identity, d'.isProvidedModule⟩ := by
      rw [hextends.valueModules, h.valueModules]
    rw [List.exists_mem_cons_iff, ← hold]
    rcases hmodule with hstruct | hinterface
    · have hkind := isInterface_of_isStruct hstruct
      have hother : x ∈ r₁.valueModules.toList → key x ≠ d.identity := by
        intro hx heq
        obtain ⟨d', hd', -, rfl⟩ := hold.mp hx
        exact hnew (List.mem_map.mpr ⟨d', hd', heq⟩)
      have hinsert : x ∈ (addModule d r₁).valueModules.toList ↔
          x = ⟨d.identity, d.isProvidedModule⟩ ∨
            x ∈ r₁.valueModules.toList ∧ key x ≠ d.identity := by
        simp only [addModule, hkind, Bool.false_eq_true, if_false]
        exact Table.mem_insert_iff
      rw [hinsert, and_iff_left_of_imp hother]
      simp [hstruct]
    · have hkind : ¬ d.isStruct = true := fun hstruct => by
        simp [isInterface_of_isStruct hstruct] at hinterface
      simp [addModule, hinterface, hkind]

theorem Walked.mem_of_identity (h : Walked u roots ds r) (hd : ReachableModule u roots d)
    (hmem : d.identity ∈ ds.map Decl.identity) : d ∈ ds := by
  obtain ⟨d', hd', heq⟩ := List.mem_map.mp hmem
  exact (h.reached d' hd').eq_of_identity hd heq ▸ hd'

/-- The worklist is taken to its end. -/
theorem walk_walked {seen : List Identity} (hseen : seen = ds.map Decl.identity)
    (hw : Walked u roots ds r) (hp : Pending u roots worklist ds)
    (h : walk u worklist seen r = .ok r') :
    ∃ ds', Walked u roots ds' r' ∧ Pending u roots [] ds' := by
  induction worklist, seen, r using walk.induct u generalizing ds with
  | case1 seen r =>
    rw [walk_nil] at h
    cases h
    exact ⟨ds, hw, hp⟩
  | case2 seen r t rest e hmodule =>
    rw [walk_cons, hmodule] at h
    cases h
  | case3 seen r t rest d hmodule hmem ih =>
    rw [walk_cons, hmodule] at h
    simp only [Except.bind, if_pos hmem] at h
    have ht := moduleOf_eq_ok_iff.mp hmodule
    have hd : d ∈ ds :=
      hw.mem_of_identity ⟨t, hp.reachable t List.mem_cons_self, ht⟩ (hseen ▸ hmem)
    exact ih hseen hw (hp.skip hd ht) h
  | case4 seen r t rest d hmodule hmem e hregistered =>
    rw [walk_cons, hmodule] at h
    simp only [Except.bind, if_neg hmem, hregistered] at h
    cases h
  | case5 seen r t rest d hmodule hmem r₁ hregistered ih =>
    rw [walk_cons, hmodule] at h
    simp only [Except.bind, if_neg hmem, hregistered] at h
    have ht := moduleOf_eq_ok_iff.mp hmodule
    have hd : ReachableModule u roots d := ⟨t, hp.reachable t List.mem_cons_self, ht⟩
    have hw' := hw.take hd (hseen ▸ hmem) hregistered
    exact ih (by rw [hseen, List.map_cons]) hw' (hp.take ht) h

/-- A reachable module that has not been taken can be registered. -/
theorem Walked.register_isOk (h : Walked u roots ds r) (hu : Discoverable u roots)
    (hd : ReachableModule u roots d) (hnew : d.identity ∉ ds.map Decl.identity) :
    ∃ r', register u d r = .ok r' := by
  have hmodule : IsModule d := hd.elim fun _ ht => ht.2.isModule
  have hdistinct : ((entries u d).map Entry.identity).Nodup := by
    refine nodup_entries_iff.mpr fun k k' e e' he he' heq => ?_
    exact (hu.distinct d d k k' e e' hd hd he he' heq).2
  refine Discovery.register_isOk hmodule (hu.accepted d hd) hdistinct fun e he x hx heq => ?_
  obtain ⟨d', hd', hx⟩ := (h.holds x).mp hx
  obtain ⟨k, hk⟩ := mem_entries_iff_declaresAt.mp he
  obtain ⟨k', hk'⟩ := mem_entries_iff_declaresAt.mp hx
  obtain ⟨rfl, -⟩ := hu.distinct d d' k k' e x hd (h.reached d' hd') hk hk' heq.symm
  exact hnew (List.mem_map_of_mem hd')

/-- Modules that can be registered together do not stop the worklist. -/
theorem walk_isOk (hu : Discoverable u roots) {seen : List Identity}
    (hseen : seen = ds.map Decl.identity) (hw : Walked u roots ds r)
    (hp : Pending u roots worklist ds) : ∃ r', walk u worklist seen r = .ok r' := by
  induction worklist, seen, r using walk.induct u generalizing ds with
  | case1 seen r => exact ⟨r, walk_nil u seen r⟩
  | case2 seen r t rest e hmodule =>
    obtain ⟨d, ht⟩ := hu.refers t (hp.reachable t List.mem_cons_self)
    rw [moduleOf_eq_ok_iff.mpr ht] at hmodule
    cases hmodule
  | case3 seen r t rest d hmodule hmem ih =>
    rw [walk_cons, hmodule]
    simp only [Except.bind, if_pos hmem]
    have ht := moduleOf_eq_ok_iff.mp hmodule
    have hd : d ∈ ds :=
      hw.mem_of_identity ⟨t, hp.reachable t List.mem_cons_self, ht⟩ (hseen ▸ hmem)
    exact ih hseen hw (hp.skip hd ht)
  | case4 seen r t rest d hmodule hmem e hregistered =>
    have ht := moduleOf_eq_ok_iff.mp hmodule
    have hd : ReachableModule u roots d := ⟨t, hp.reachable t List.mem_cons_self, ht⟩
    obtain ⟨r₁, hok⟩ := hw.register_isOk hu hd (hseen ▸ hmem)
    rw [hok] at hregistered
    cases hregistered
  | case5 seen r t rest d hmodule hmem r₁ hregistered ih =>
    rw [walk_cons, hmodule]
    simp only [Except.bind, if_neg hmem, hregistered]
    have ht := moduleOf_eq_ok_iff.mp hmodule
    have hd : ReachableModule u roots d := ⟨t, hp.reachable t List.mem_cons_self, ht⟩
    have hw' := hw.take hd (hseen ▸ hmem) hregistered
    exact ih (by rw [hseen, List.map_cons]) hw' (hp.take ht)

/-- At the end of the worklist, `ds` are all the reachable modules. -/
theorem Pending.mem_iff (hw : Walked u roots ds r) (hp : Pending u roots [] ds) :
    ReachableModule u roots d ↔ d ∈ ds := by
  constructor
  · rintro ⟨t, ht, hd⟩
    obtain ⟨d', hd', hrefers⟩ := hp.closed ht
    exact hrefers.unique hd ▸ hd'
  · exact hw.reached d

theorem Walked.discoverable (hw : Walked u roots ds r) (hp : Pending u roots [] ds) :
    Discoverable u roots where
  refers := fun t ht => (hp.closed ht).imp fun _ => And.right
  accepted := fun d hd => hw.accepted d ((hp.mem_iff hw).mp hd)
  distinct := by
    intro d d' k k' e e' hd hd' he he' heq
    have hmem := (hp.mem_iff hw).mp hd
    by_cases hne : d = d'
    · subst hne
      exact ⟨rfl, nodup_entries_iff.mp (hw.distinct d hmem) k k' e e' he he' heq⟩
    · have hapart := hw.apart d hmem d' ((hp.mem_iff hw).mp hd') hne
      exact absurd heq (hapart e (mem_entries_iff_declaresAt.mpr ⟨k, he⟩) e'
        (mem_entries_iff_declaresAt.mpr ⟨k', he'⟩))

/-- What is registered is what a reachable module declares. -/
theorem Walked.holds_iff (hw : Walked u roots ds r) (hp : Pending u roots [] ds) {e : Entry} :
    r.Holds e ↔ ∃ d k, ReachableModule u roots d ∧ DeclaresAt u d k e := by
  simp only [hw.holds, mem_entries_iff_declaresAt, hp.mem_iff hw, exists_and_left]

theorem Walked.valueModule_iff (hw : Walked u roots ds r) (hp : Pending u roots [] ds)
    {x : ValueModule} : x ∈ r.valueModules.toList ↔
      ∃ d, ReachableModule u roots d ∧ d.isStruct = true ∧ x = ⟨d.identity, d.isProvidedModule⟩ := by
  simp only [hw.valueModules, hp.mem_iff hw]

theorem Walked.discovered (hw : Walked u roots ds r) (hp : Pending u roots [] ds) :
    r.Discovered u roots where
  provider := by
    intro i p
    rw [Registry.provider?, Table.find?_eq_some_iff, and_comm]
    exact and_congr_right fun _ => hw.holds_iff hp (e := .provider p)
  binding := by
    intro i b
    rw [Registry.binding?, Table.find?_eq_some_iff, and_comm]
    exact and_congr_right fun _ => hw.holds_iff hp (e := .binding b)
  once := by
    intro e he
    obtain ⟨d, k, hd, hk⟩ := (hw.holds_iff hp).mp he
    refine ⟨(d, k), ⟨hd, hk⟩, ?_⟩
    rintro ⟨d', k'⟩ ⟨hd', hk'⟩
    obtain ⟨rfl, rfl⟩ := (hw.discoverable hp).distinct d d' k k' e e hd hd' hk hk' rfl
    rfl
  disjoint := by
    intro i hprovider hbinding
    obtain ⟨p, hp', rfl⟩ := List.mem_map.mp hprovider
    obtain ⟨b, hb, heq⟩ := List.mem_map.mp hbinding
    obtain ⟨d, k, hd, hk⟩ := (hw.holds_iff hp (e := .provider p)).mp hp'
    obtain ⟨d', k', hd', hk'⟩ := (hw.holds_iff hp (e := .binding b)).mp hb
    obtain ⟨rfl, rfl⟩ := (hw.discoverable hp).distinct d d' k k' _ _ hd hd' hk hk' heq.symm
    obtain ⟨m, hm, hprovides⟩ := hk
    obtain ⟨m', hm', hbinds⟩ := hk'
    cases hprovides with
    | provider hstruct =>
      cases hbinds with
      | binding hinterface => simp [isInterface_of_isStruct hstruct] at hinterface
  valueModule := by
    intro i x
    rw [Registry.valueModule?, Table.find?_eq_some_iff, hw.valueModule_iff hp]
    constructor
    · rintro ⟨⟨d, hd, hstruct, rfl⟩, rfl⟩
      exact ⟨d, hd, hstruct, rfl, rfl⟩
    · rintro ⟨d, hd, hstruct, rfl, rfl⟩
      exact ⟨⟨d, hd, hstruct, rfl⟩, rfl⟩
  provider_module := by
    intro i p hprovider
    obtain ⟨d, k, hd, m, -, hk⟩ :=
      (hw.holds_iff hp (e := .provider p)).mp (Table.mem_of_find? hprovider)
    cases hk with
    | provider hstruct hdeclared =>
      have hmem : ⟨d.identity, d.isProvidedModule⟩ ∈ r.valueModules.toList :=
        (hw.valueModule_iff hp).mpr ⟨d, hd, hstruct, rfl⟩
      exact hdeclared.module ▸ List.mem_map_of_mem hmem
  binding_types := by
    intro i b hbinding
    obtain ⟨d, k, hd, m, -, hk⟩ :=
      (hw.holds_iff hp (e := .binding b)).mp (Table.mem_of_find? hbinding)
    cases hk with
    | binding _ _ hdeclared => exact ⟨hdeclared.interface, hdeclared.implementation⟩

theorem discover_walked {r : Registry} (h : discover u roots = .ok r) :
    ∃ ds, Walked u roots ds r ∧ Pending u roots [] ds :=
  walk_walked rfl .empty .start h

/-- A registry that comes from discovery holds what the reachable modules declare. -/
theorem discover_discovered {r : Registry} (h : discover u roots = .ok r) :
    r.Discovered u roots := by
  obtain ⟨ds, hw, hp⟩ := discover_walked h
  exact hw.discovered hp

end Discovery

/-- Discovery succeeds exactly if the reachable modules can be registered together, and then it
registers what they declare. -/
theorem discover_spec (u : Universe) (roots : List TypeRef) :
    ((∃ r, discover u roots = .ok r) ↔ Discoverable u roots) ∧
      ∀ r, discover u roots = .ok r → r.Discovered u roots := by
  refine ⟨⟨?_, fun hu => ?_⟩, ?_⟩
  · rintro ⟨r, h⟩
    obtain ⟨ds, hw, hp⟩ := discover_walked h
    exact hw.discoverable hp
  · exact walk_isOk hu rfl .empty .start
  · intro r h
    obtain ⟨ds, hw, hp⟩ := discover_walked h
    exact hw.discovered hp

theorem shop_discovered :
    discover Shop.types Shop.definition.modules = .ok Shop.registry ∧
      Discoverable Shop.types Shop.definition.modules ∧
        Shop.registry.Discovered Shop.types Shop.definition.modules := by
  have hok : discover Shop.types Shop.definition.modules = .ok Shop.registry := by decide +kernel
  obtain ⟨hiff, hregistered⟩ := discover_spec Shop.types Shop.definition.modules
  exact ⟨hok, hiff.mp ⟨_, hok⟩, hregistered _ hok⟩

end Wiring
