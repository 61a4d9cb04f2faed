import Wiring.Proofs.DiscoveredModules

/-!
Discovery as a recursion. `traverse` takes the modules of a list from left to right, and all that a
module lists before the next reference; it keeps the modules in the order in which it takes them.
The worklist does the same, step by step: what `traverse` does with some references, the worklist
does with them at its front (`walk_append`). Both therefore end alike, also in the first failure.
What has been registered is at any time what the modules taken so far declare, in their order, so
that an identity that is refused names the earlier and the later of two registrations.
-/
namespace Wiring

def Entry.site : Entry → Site
  | provider p => p.site
  | binding b => b.site

namespace Registry

/-- The entries of `r` are `es`, and no two of them share an identity. -/
structure Records (r : Registry) (es : List Entry) : Prop where
  distinct : (es.map Entry.identity).Nodup
  holds : ∀ e, r.Holds e ↔ e ∈ es

variable {r r' : Registry} {es es' : List Entry}

theorem Records.append (h : r.Records es) (hextends : r.Extends r' es') :
    r'.Records (es ++ es') where
  distinct := by
    rw [List.map_append, List.nodup_append]
    refine ⟨h.distinct, hextends.distinct, fun i hi j hj heq => ?_⟩
    obtain ⟨e, he, rfl⟩ := List.mem_map.mp hi
    obtain ⟨e', he', rfl⟩ := List.mem_map.mp hj
    exact hextends.free e' he' e ((h.holds e).mpr he) heq
  holds := by
    intro e
    rw [hextends.holds, h.holds, List.mem_append]

theorem exists_of_siteOf? {i : Identity} {site : Site} (h : r.siteOf? i = some site) :
    ∃ e, r.Holds e ∧ e.identity = i ∧ e.site = site := by
  unfold siteOf? at h
  split at h
  · next p hp =>
    cases h
    exact ⟨.provider p, Table.mem_of_find? hp, Table.key_of_find? hp, rfl⟩
  · obtain ⟨b, hb, rfl⟩ := Option.map_eq_some_iff.mp h
    exact ⟨.binding b, Table.mem_of_find? hb, Table.key_of_find? hb, rfl⟩

/-- An entry is refused because another one has its identity. -/
theorem exists_of_add_eq_error {y : Entry} {e : Failure} (h : r.add y = .error e) :
    ∃ x, r.Holds x ∧ x.identity = y.identity ∧
      e = .duplicateRegistration y.identity x.site y.site := by
  have hsite : ∃ site, r.siteOf? y.identity = some site ∧
      e = .duplicateRegistration y.identity site y.site := by
    cases y with
    | provider p =>
      simp only [add, addProvider] at h
      split at h
      · next site hsite =>
        cases h
        exact ⟨site, hsite, rfl⟩
      · cases h
    | binding b =>
      simp only [add, addBinding] at h
      split at h
      · next site hsite =>
        cases h
        exact ⟨site, hsite, rfl⟩
      · cases h
  obtain ⟨site, hsite, rfl⟩ := hsite
  obtain ⟨x, hx, hidentity, rfl⟩ := exists_of_siteOf? hsite
  exact ⟨x, hx, hidentity, rfl⟩

end Registry

namespace Discovery

/-- How far a traversal has come: the modules that it has taken, in order, and what they have
registered. -/
structure Progress where
  taken : List Decl
  registry : Registry

/-- Where a traversal has stopped: the modules that it has taken, in order, and what it has failed
on. A module that cannot be registered is the last of them. -/
structure Halt where
  taken : List Decl
  failure : Failure

namespace Progress

/-- Before anything is taken. -/
def start : Progress :=
  ⟨[], .empty⟩

/-- The identities that the worklist has seen, the last one first. -/
def seen (s : Progress) : List Identity :=
  (s.taken.map Decl.identity).reverse

/-- Take a module after those that have been taken; `r` holds what it registers, too. -/
def take (s : Progress) (d : Decl) (r : Registry) : Progress :=
  ⟨s.taken ++ [d], r⟩

@[simp] theorem seen_take (s : Progress) (d : Decl) (r : Registry) :
    (s.take d r).seen = d.identity :: s.seen := by
  simp [take, seen]

end Progress

theorem pending_le_of_suffix {seen seen' : List Identity} (h : seen <:+ seen') (ds : List Decl) :
    pending seen' ds ≤ pending seen ds := by
  obtain ⟨new, rfl⟩ := h
  induction new with
  | nil => exact Nat.le_refl _
  | cons i new ih => exact Nat.le_trans (pending_cons_le i (new ++ seen) ds) ih

/-- Take the modules behind `ts` from left to right. A module that has been taken before is passed
over. The methods of any other are registered, and then all modules that it lists are taken before
the next reference is looked at. -/
def visit (u : Universe) (ts : List TypeRef) (s : Progress) :
    Except Halt {s' : Progress // s.seen <:+ s'.seen} :=
  match ts with
  | [] => .ok ⟨s, List.suffix_rfl⟩
  | t :: rest =>
    match _hmodule : moduleOf u t with
    | .error e => .error ⟨s.taken, e⟩
    | .ok d =>
      if _hseen : d.identity ∈ s.seen then visit u rest s
      else
        match register u d s.registry with
        | .error e => .error ⟨s.taken ++ [d], e⟩
        | .ok r =>
          match visit u (nested d) (s.take d r) with
          | .error h => .error h
          | .ok ⟨s₁, h₁⟩ =>
            (visit u rest s₁).map fun ⟨s₂, h₂⟩ =>
              ⟨s₂, ((List.suffix_cons d.identity s.seen).trans (s.seen_take d r ▸ h₁)).trans h₂⟩
termination_by ts.length + pending s.seen u.decls
decreasing_by
  · simp
  · have hroom := pending_cons_add_le (mem_decls_of_moduleOf _hmodule) _hseen
    rw [Progress.seen_take, List.length_cons]
    omega
  · have hroom := pending_le_of_suffix h₁ u.decls
    have hcons := pending_cons_le d.identity s.seen u.decls
    rw [Progress.seen_take] at hroom
    rw [List.length_cons]
    omega

/-- The depth-first traversal of a list of references. -/
def traverse (u : Universe) (ts : List TypeRef) (s : Progress) : Except Halt Progress :=
  (visit u ts s).map Subtype.val

section Traversal

variable {u : Universe} {t : TypeRef} {ts : List TypeRef} {s : Progress}

@[simp] theorem traverse_nil : traverse u [] s = .ok s := by
  simp [traverse, visit, Except.map]

theorem traverse_cons : traverse u (t :: ts) s =
    ((moduleOf u t).mapError (Halt.mk s.taken)).bind fun d =>
      if d.identity ∈ s.seen then traverse u ts s
      else ((register u d s.registry).mapError (Halt.mk (s.taken ++ [d]))).bind fun r =>
        (traverse u (nested d) (s.take d r)).bind (traverse u ts) := by
  rw [traverse, visit]
  split
  · next e hmodule => simp [hmodule, Except.mapError, Except.bind, Except.map]
  · next d hmodule =>
    split
    · next hseen => simp [hmodule, hseen, Except.mapError, Except.bind, traverse]
    · next hnew =>
      split
      · next e hregister =>
        simp [hmodule, hnew, hregister, Except.mapError, Except.bind, Except.map]
      · next r hregister =>
        simp only [hmodule, hnew, hregister, traverse, Except.mapError, Except.bind, if_false]
        split
        · next h hnested => simp [hnested, Except.map]
        · next s₁ h₁ hnested =>
          simp only [hnested, Except.map]
          cases visit u ts s₁ <;> rfl

/-- Induction along a traversal. What is shown of a module that is taken may rest on the traversal
of what it lists, and on that of the references after it. -/
theorem traverse_induction {motive : List TypeRef → Progress → Prop}
    (nil : ∀ s, motive [] s)
    (refused : ∀ s t ts e, moduleOf u t = .error e → motive (t :: ts) s)
    (seen : ∀ s t ts d, moduleOf u t = .ok d → d.identity ∈ s.seen →
      motive ts s → motive (t :: ts) s)
    (unregistered : ∀ s t ts d e, moduleOf u t = .ok d →
      d.identity ∉ s.seen → register u d s.registry = .error e →
      motive (t :: ts) s)
    (taken : ∀ s t ts d r, moduleOf u t = .ok d → d.identity ∉ s.seen →
      register u d s.registry = .ok r → motive (nested d) (s.take d r) →
      (∀ s₁, traverse u (nested d) (s.take d r) = .ok s₁ → motive ts s₁) →
      motive (t :: ts) s)
    (ts : List TypeRef) (s : Progress) : motive ts s := by
  induction ts, s using visit.induct u with
  | case1 s => exact nil s
  | case2 s t ts e hmodule => exact refused s t ts e hmodule
  | case3 s t ts d hmodule hseen ih => exact seen s t ts d hmodule hseen ih
  | case4 s t ts d hmodule hnew e hregister =>
    exact unregistered s t ts d e hmodule hnew hregister
  | case5 s t ts d hmodule hnew r hregister h hnested ih =>
    refine taken s t ts d r hmodule hnew hregister ih fun s₁ hs₁ => ?_
    rw [traverse, hnested] at hs₁
    cases hs₁
  | case6 s t ts d hmodule hnew r hregister s₁ h₁ hnested ih ih' =>
    refine taken s t ts d r hmodule hnew hregister ih fun s₂ hs₂ => ?_
    rw [traverse, hnested] at hs₂
    cases hs₂
    exact ih'

/-- The worklist does with the references at its front what the traversal does with them. -/
theorem walk_append (ts rest : List TypeRef) (s : Progress) :
    walk u (ts ++ rest) s.seen s.registry =
      ((traverse u ts s).mapError Halt.failure).bind fun s' =>
        walk u rest s'.seen s'.registry := by
  induction ts, s using traverse_induction (u := u) generalizing rest with
  | nil s => simp [Except.mapError, Except.bind]
  | refused s t ts e hmodule =>
    rw [List.cons_append, walk_cons, traverse_cons, hmodule]
    rfl
  | seen s t ts d hmodule hseen ih =>
    rw [List.cons_append, walk_cons, traverse_cons, hmodule]
    simp only [Except.mapError, Except.bind, if_pos hseen]
    exact ih rest
  | unregistered s t ts d e hmodule hnew hregister =>
    rw [List.cons_append, walk_cons, traverse_cons, hmodule]
    simp only [Except.mapError, Except.bind, if_neg hnew, hregister]
  | taken s t ts d r hmodule hnew hregister ih ih' =>
    have hnested := ih (ts ++ rest)
    rw [Progress.seen_take] at hnested
    rw [List.cons_append, walk_cons, traverse_cons, hmodule]
    simp only [Except.mapError, Except.bind, if_neg hnew, hregister]
    refine hnested.trans ?_
    cases hs₁ : traverse u (nested d) (s.take d r) with
    | error h => rfl
    | ok s₁ => exact ih' s₁ hs₁ rest

end Traversal

/-- The entries that modules declare, in the order of the modules and of their methods. -/
def registrations (u : Universe) (ds : List Decl) : List Entry :=
  ds.flatMap (entries u)

/-- What is registered before public method number `k` of `d`, which is taken after `ds`. -/
def earlier (u : Universe) (ds : List Decl) (d : Decl) (k : Nat) : List Entry :=
  registrations u ds ++ (d.publicMethods.take k).filterMap (declared? u d)

/-- Public method number `k` of `d` declares `y`, and what is registered before it has distinct
identities, one of which is that of `y`: it belongs to `x`. -/
structure Clash (u : Universe) (ds : List Decl) (d : Decl) (k : Nat) (x y : Entry) : Prop where
  first : x ∈ earlier u ds d k
  second : DeclaresAt u d k y
  identity : x.identity = y.identity
  distinct : ((earlier u ds d k).map Entry.identity).Nodup

/-- A registry holds what the modules taken before it declare; and what is said to be registered
twice is so. -/
def Faithful (u : Universe) : Except Halt Progress → Prop
  | .ok s => s.registry.Records (registrations u s.taken)
  | .error h => ∀ i first second, h.failure = .duplicateRegistration i first second →
    ∃ ds d k x y, h.taken = ds ++ [d] ∧ Clash u ds d k x y ∧ i = y.identity ∧ first = x.site ∧
      second = y.site

section Registrations

variable {u : Universe} {ds : List Decl} {d : Decl} {m : Method} {r r' : Registry} {i : Identity}
  {first second : Site}

theorem moduleOf_ne_duplicate {t : TypeRef} :
    moduleOf u t ≠ .error (.duplicateRegistration i first second) := by
  unfold moduleOf
  split
  · simp
  · split
    · simp
    · split <;> simp

/-- A method is refused as a second registration only when its entry is. -/
theorem add_of_registerMethod (hd : IsModule d)
    (h : registerMethod u d r m = .error (.duplicateRegistration i first second)) :
    ∃ y, Declares u d m y ∧ r.add y = .error (.duplicateRegistration i first second) := by
  rcases hd with hstruct | hinterface
  · have hkind := isInterface_of_isStruct hstruct
    simp only [registerMethod, hkind, Bool.false_eq_true, if_false, registerProvider,
      providerOf] at h
    cases hcheck : checkProvider u d.identity m with
    | error flaw => simp [hcheck] at h
    | ok p =>
      rw [hcheck] at h
      exact ⟨.provider p, .provider hstruct (checkProvider_eq_ok_iff.mp hcheck), h⟩
  · simp only [registerMethod, hinterface, if_true, registerBinding, bindingOf] at h
    split at h
    · split at h <;> cases h
    · next hname =>
      cases hcheck : checkBinding u d.identity m with
      | error flaw => simp [hcheck] at h
      | ok b =>
        rw [hcheck] at h
        exact ⟨.binding b, .binding hinterface hname (checkBinding_eq_ok_iff.mp hcheck), h⟩

theorem foldlM_of_register (h : register u d r = .error (.duplicateRegistration i first second)) :
    d.publicMethods.foldlM (registerMethod u d) r =
      .error (.duplicateRegistration i first second) := by
  unfold register at h
  unfold registerMethod
  split at h
  · next hinterface => simpa [hinterface, registerBindingModule] using h
  · next hkind =>
    unfold registerValueModule at h
    split at h
    · cases h
    · rw [if_neg hkind]
      cases hfold : d.publicMethods.foldlM (registerProvider u d.identity) r with
      | error e =>
        rw [hfold] at h
        cases h
        rfl
      | ok r₁ =>
        rw [hfold] at h
        cases h

/-- Where a module that is taken after `ds` registers an identity for the second time. -/
theorem clash_of_register (hr : r.Records (registrations u ds)) (hd : IsModule d)
    (h : register u d r = .error (.duplicateRegistration i first second)) :
    ∃ k x y, Clash u ds d k x y ∧ i = y.identity ∧ first = x.site ∧ second = y.site := by
  obtain ⟨k, m, r₁, hm, htake, hfail⟩ := foldlM_eq_error (foldlM_of_register h)
  obtain ⟨-, hextends⟩ := foldlM_registerMethod hd htake
  have hrecords : r₁.Records (earlier u ds d k) := hr.append hextends
  obtain ⟨y, hy, hadd⟩ := add_of_registerMethod hd hfail
  obtain ⟨x, hx, hidentity, heq⟩ := Registry.exists_of_add_eq_error hadd
  cases heq
  exact ⟨k, x, y, ⟨(hrecords.holds x).mp hx, ⟨m, hm, hy⟩, hidentity, hrecords.distinct⟩, rfl, rfl,
    rfl⟩

theorem records_of_register (hr : r.Records (registrations u ds)) (hd : IsModule d)
    (h : register u d r = .ok r') : r'.Records (registrations u (ds ++ [d])) := by
  obtain ⟨-, r₁, hextends, rfl⟩ := register_extends hd h
  have hrecords := hr.append hextends
  have hentries : registrations u (ds ++ [d]) = registrations u ds ++ entries u d := by
    simp [registrations]
  rw [hentries]
  exact ⟨hrecords.distinct, fun e => holds_addModule.trans (hrecords.holds e)⟩

/-- A traversal goes on from what the modules before it have registered. -/
theorem traverse_faithful (ts : List TypeRef) {s : Progress}
    (hs : s.registry.Records (registrations u s.taken)) : Faithful u (traverse u ts s) := by
  induction ts, s using traverse_induction (u := u) with
  | nil s =>
    rw [traverse_nil]
    exact hs
  | refused s t ts e hmodule =>
    rw [traverse_cons, hmodule]
    rintro i first second rfl
    exact absurd hmodule moduleOf_ne_duplicate
  | seen s t ts d hmodule hseen ih =>
    rw [traverse_cons, hmodule]
    simp only [Except.mapError, Except.bind, if_pos hseen]
    exact ih hs
  | unregistered s t ts d e hmodule hnew hregister =>
    rw [traverse_cons, hmodule]
    simp only [Except.mapError, Except.bind, if_neg hnew, hregister]
    rintro i first second rfl
    have hd := (moduleOf_eq_ok_iff.mp hmodule).isModule
    obtain ⟨k, x, y, hclash⟩ := clash_of_register hs hd hregister
    exact ⟨s.taken, d, k, x, y, rfl, hclash⟩
  | taken s t ts d r hmodule hnew hregister ih ih' =>
    rw [traverse_cons, hmodule]
    simp only [Except.mapError, Except.bind, if_neg hnew, hregister]
    have hd := (moduleOf_eq_ok_iff.mp hmodule).isModule
    have hnested := ih (records_of_register hs hd hregister)
    cases hs₁ : traverse u (nested d) (s.take d r) with
    | error h =>
      rw [hs₁] at hnested
      exact hnested
    | ok s₁ =>
      rw [hs₁] at hnested
      exact ih' s₁ hs₁ hnested

end Registrations

theorem Progress.start_records (u : Universe) :
    start.registry.Records (registrations u start.taken) :=
  ⟨.nil, fun e => by cases e <;> simp [start, Registry.Holds, Registry.empty, registrations]⟩

theorem discover_eq_traverse (u : Universe) (roots : List TypeRef) : discover u roots =
    ((traverse u roots .start).mapError Halt.failure).map Progress.registry := by
  have hwalk := walk_append (u := u) roots [] .start
  simp only [List.append_nil, walk_nil] at hwalk
  refine hwalk.trans ?_
  cases traverse u roots .start <;> rfl

end Discovery

open Discovery

/-- Discovery is the depth-first traversal of the modules: it ends with the same registry, or with
the same failure. Of an identity that is registered twice it names the two registrations, the
earlier one first. -/
theorem discover_depthFirst (u : Universe) (roots : List TypeRef) :
    discover u roots =
        ((traverse u roots .start).mapError Halt.failure).map Progress.registry ∧
      ∀ i first second, discover u roots = .error (.duplicateRegistration i first second) →
        ∃ ds d k x y,
          traverse u roots .start =
            .error ⟨ds ++ [d], .duplicateRegistration i first second⟩ ∧
          Clash u ds d k x y ∧ i = y.identity ∧ first = x.site ∧ second = y.site := by
  refine ⟨discover_eq_traverse u roots, fun i first second h => ?_⟩
  have hfaithful := traverse_faithful roots (Progress.start_records u)
  rw [discover_eq_traverse] at h
  cases htraverse : traverse u roots .start with
  | ok s =>
    rw [htraverse] at h
    cases h
  | error halt =>
    rw [htraverse] at h hfaithful
    obtain ⟨taken, failure⟩ := halt
    obtain rfl : failure = .duplicateRegistration i first second := Except.error.inj h
    obtain ⟨ds, d, k, x, y, rfl, hclash⟩ := hfaithful i first second rfl
    exact ⟨ds, d, k, x, y, rfl, hclash⟩

namespace Shop

def outer : Identity := ⟨"shop", "Outer"⟩

def inner : Identity := ⟨"shop", "Inner"⟩

def late : Identity := ⟨"shop", "Late"⟩

def storeBinding : Method :=
  { name := "store", params := [{ name := "disk", type := .pointer (.named disk) }],
    results := [.named store] }

/-- Two binding modules that list each other, and one that binds what they bind. -/
def typesWithLists : Universe where
  types := .ofList
    [.ofInterface store [],
      .ofStruct disk [],
      .ofInterface outer [{ name := "modules", results := [.named inner] }],
      .ofInterface inner [{ name := "modules", results := [.named outer] }, storeBinding],
      .ofInterface late [storeBinding]]

end Shop

/-- The inner module comes before the one that stands after the outer one. -/
theorem shop_store_bound_twice :
    discover Shop.typesWithLists [.named Shop.outer, .named Shop.late] =
        .error (.duplicateRegistration Shop.store ⟨Shop.inner, "store"⟩ ⟨Shop.late, "store"⟩) ∧
      ∃ ds d k x y, Clash Shop.typesWithLists ds d k x y ∧ Shop.store = y.identity ∧
        ⟨Shop.inner, "store"⟩ = x.site ∧ ⟨Shop.late, "store"⟩ = y.site := by
  have hdiscover : discover Shop.typesWithLists [.named Shop.outer, .named Shop.late] =
      .error (.duplicateRegistration Shop.store ⟨Shop.inner, "store"⟩ ⟨Shop.late, "store"⟩) := by
    decide +kernel
  obtain ⟨-, hduplicate⟩ :=
    discover_depthFirst Shop.typesWithLists [.named Shop.outer, .named Shop.late]
  obtain ⟨ds, d, k, x, y, -, hclash⟩ := hduplicate _ _ _ hdiscover
  exact ⟨hdiscover, ds, d, k, x, y, hclash⟩

end Wiring
