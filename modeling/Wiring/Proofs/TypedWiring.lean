import Wiring.Proofs.Calls
import Wiring.Proofs.PlanClosure
import Wiring.Proofs.RegistryShape

/-!
Wiring is type-correct. Every edge of a plan joins a requested type to a source that produces a
value of this type, directly or after a cast from a reference to a struct to an interface that
the struct is bound to. No request is for a reference to an interface, so that no type is
spelled with one box inside another.
-/
namespace Wiring

/-- A type that the component asks for, and the source that is wired to it. -/
inductive Plan.Edge (u : Universe) (p : Plan) : TypeRef → Source → Prop
  | target {z : WiredTarget} (hz : z ∈ p.targets) : Edge u p z.target.type z.source
  | param {e : PlannedProvider} {k : Nat} {q : Param} {x : Source}
      (he : e ∈ p.providers.toList) (hq : e.provider.params[k]? = some q)
      (hx : e.params[k]? = some x) : Edge u p q.type x
  | field {f : Factory} {d : Decl} {k : Nat} {g : Field} {a : Assignment}
      (hf : f ∈ p.factories.toList) (hd : u.lookup f.identity = some d)
      (hg : d.injectedFields[k]? = some g) (ha : f.fields[k]? = some a) :
      Edge u p g.type a.source

/-- The type of the value that a source produces, before it is cast. -/
def Plan.valueType? (p : Plan) (x : Source) : Option TypeRef :=
  p.read? x (fun e => e.provider.result) fun f => .pointer (.named f.identity)

theorem Plan.routine?_callee (u : Universe) (component : String) (p : Plan) (x : Source) :
    p.routine? u component x.callee =
      p.read? x (Routine.wrapper u) (Routine.factory component) := by
  unfold Source.callee read?
  cases x.kind <;> rfl

/-- The source `x` is fit for a request of `t`. -/
structure Plan.Fits (u : Universe) (p : Plan) (t : TypeRef) (x : Source) : Prop where
  provided : x.cast = none → x.kind = .provider →
    ∃ e, p.providers.find? x.identity = some e ∧ t = e.provider.result
  built : x.cast = none → x.kind = .factory → t = .pointer (.named x.identity) ∧
    ∃ d, u.lookup x.identity = some d ∧ d.isStruct = true ∧ d.flags.contains .inject = true
  cast : ∀ i, x.cast = some i → t = .named i ∧ u.declaresInterface i = true ∧
    p.valueType? x = some (.pointer (.named x.identity)) ∧ u.declaresStruct x.identity = true
  /-- The routine that is called is declared to return the type of the value. -/
  declared : ∃ t', p.valueType? x = some t' ∧ (x.cast = none → t' = t) ∧
    ∀ component, ∃ r, p.routine? u component x.callee = some r ∧ r.result = t'.pieces u
  no_reference : ∀ i, t = .pointer (.named i) → u.declaresInterface i = false
  no_double_box : ¬ [.text "Box<", .text "Box<dyn "] <:+: t.pieces u

theorem Wired.Complete.edge_met {c : Catalog} {d : Definition} {w : Wired} {xs : List Source}
    (h : w.Complete c d xs) {t : TypeRef} {x : Source}
    (hedge : (w.plan d xs).Edge c.types t x) : w.Meets c t x := by
  cases hedge with
  | target hz =>
    obtain ⟨t, -, rfl, hmet⟩ := exists_of_forall₂_right h.targets hz
    exact hmet
  | @param e k q x he hq hx =>
    have hfin := h.sound.of_mem_providers he
    exact getElem?_of_forall₂ (List.forall₂_map_left_iff.mp hfin.met) hq hx
  | @field f e k g a hf he hg ha =>
    obtain ⟨e', hid, hreached, hfields⟩ := h.fields hf
    obtain ⟨-, he', -⟩ := hreached.hasNode.factory
    rw [hid, he] at he'
    cases he'
    exact (getElem?_of_forall₂ hfields hg ha).2

namespace Universe

variable {u : Universe} {i : Identity}

theorem declaresInterface_of_struct (h : u.declaresStruct i = true) :
    u.declaresInterface i = false := by
  unfold declaresStruct at h
  unfold declaresInterface
  cases hd : u.lookup i with
  | none => rfl
  | some d =>
    rw [hd] at h
    cases hk : d.kind <;> simp_all [Decl.isStruct, Decl.isInterface]

theorem declaresStruct_of_injectable {d : Decl} (hd : u.lookup i = some d)
    (h : d.isInjectable = true) : u.declaresStruct i = true := by
  simp only [Decl.isInjectable, Bool.and_eq_true] at h
  exact declaresStruct_iff.mpr ⟨d, hd, h.1⟩

end Universe

theorem TypeRef.pieces_pointer_struct {u : Universe} {i : Identity}
    (h : u.declaresInterface i = false) :
    (pointer (named i)).pieces u = [.text "Box<", .typeName i, .text ">"] := by
  simp [pieces, h]

/-- Two boxes meet only around an interface. -/
theorem TypeRef.no_double_box {u : Universe} {t : TypeRef} {s : Shape}
    (hs : t.shape = some s)
    (h : ∀ i, t = .pointer (.named i) → u.declaresInterface i = false) :
    ¬ [.text "Box<", .text "Box<dyn "] <:+: t.pieces u := by
  rw [shape_eq_some_iff] at hs
  obtain ⟨i, isReference⟩ := s
  cases isReference with
  | false =>
    subst hs
    by_cases hi : u.declaresInterface i = true <;>
      simp [pieces, hi, List.infix_cons_iff]
  | true =>
    have hpieces := pieces_pointer_struct (h i hs)
    subst hs
    simp [hpieces, List.infix_cons_iff]

/-- The type of the values of a node. -/
def Node.valueType : Node → TypeRef
  | provider p => p.result
  | factory d => .pointer (.named d.identity)

namespace Catalog

variable {c : Catalog} {s : Shape} {n : Node} {t : TypeRef}

/-- A node has values of the shape that it is found by. -/
theorem Direct.shape_valueType (hr : c.registry.Shaped c.types) (h : c.Direct s n) :
    n.valueType.shape = some s := by
  obtain ⟨i, isReference⟩ := s
  cases h with
  | @provider p hp href =>
    have hid : p.provides = i := Table.key_of_find? hp
    have hreference : p.isReference = isReference := href
    have hshape := (hr.provider p (Table.mem_of_find? hp)).shape
    rwa [hid, hreference] at hshape
  | @factory d _ _ hd _ href =>
    have hid : d.identity = i := Universe.identity_of_lookup hd
    have hreference : isReference = true := href
    simp [Node.valueType, TypeRef.shape, hid, hreference]

theorem Direct.interface_eq_false (hr : c.registry.Shaped c.types) (h : c.Direct s n)
    (href : s.isReference = true) : c.types.declaresInterface s.identity = false := by
  cases h with
  | @provider p hp hreference =>
    have hid : p.provides = s.identity := Table.key_of_find? hp
    rw [← hid]
    exact (hr.provider p (Table.mem_of_find? hp)).interface (hreference.trans href)
  | factory _ _ hd hinject _ =>
    exact Universe.declaresInterface_of_struct (Universe.declaresStruct_of_injectable hd hinject)

/-- What is not cast has the requested type. -/
theorem Answers.valueType_eq (hr : c.registry.Shaped c.types) (h : c.Answers t ⟨n, none⟩) :
    n.valueType = t := by
  cases h with
  | direct ht hn =>
    have hvalue := hn.shape_valueType hr
    rw [TypeRef.shape_eq_some_iff] at ht hvalue
    rw [ht, hvalue]

/-- What is cast is a reference to a struct, requested as an interface. -/
theorem Answers.cast {b : Binding} (hr : c.registry.Shaped c.types)
    (h : c.Answers t ⟨n, some b⟩) :
    t = .named b.interface ∧ c.types.declaresInterface b.interface = true ∧
      n.valueType = .pointer (.named n.identity) ∧
        c.types.declaresStruct n.identity = true := by
  obtain ⟨ht, hb, hid⟩ := h.of_binding
  have hshaped := hr.binding b (Table.mem_of_find? hb)
  have hstruct : c.types.declaresStruct n.identity = true := hid ▸ hshaped.implementation
  refine ⟨ht, hshaped.interface, ?_, hstruct⟩
  cases h with
  | bound _ _ hn =>
    have hvalue := hn.shape_valueType hr
    rw [TypeRef.shape_eq_some_iff] at hvalue
    simpa [hid] using hvalue

theorem Answers.no_reference {s : Supply} (hr : c.registry.Shaped c.types)
    (h : c.Answers t s) (i : Identity) (ht : t = .pointer (.named i)) :
    c.types.declaresInterface i = false := by
  subst ht
  cases h with
  | direct hs hn =>
    cases hs
    exact hn.interface_eq_false hr rfl

theorem Answers.exists_shape {s : Supply} (h : c.Answers t s) : ∃ a, t.shape = some a := by
  cases h with
  | direct ht _ => exact ⟨_, ht⟩
  | bound _ _ _ => exact ⟨_, rfl⟩

end Catalog

namespace Wired

variable {c : Catalog} {asked : TypeRef → Prop} {w : Wired} {d : Definition}
  {xs sources : List Source} {s : Supply} {f : Bool}

theorem Finished.valueType? (h : Finished c asked w s.node sources) :
    (w.plan d xs).valueType? (s.source f) = some s.node.valueType := by
  rw [Plan.valueType?, h.read?]
  cases s.node <;> rfl

/-- The routine of a finished node is declared to return values of the node. -/
theorem Finished.routine? (h : Finished c asked w s.node sources) (component : String) :
    ∃ r, (w.plan d xs).routine? c.types component (s.source f).callee = some r ∧
      r.result = s.node.valueType.pieces c.types := by
  have hnode := h.hasNode
  rw [Plan.routine?_callee, h.read?]
  cases hn : s.node with
  | provider q => exact ⟨_, rfl, rfl⟩
  | factory e =>
    rw [hn] at hnode
    obtain ⟨-, he, hinject⟩ := hnode.factory
    have hstruct := Universe.declaresStruct_of_injectable he hinject
    refine ⟨_, rfl, ?_⟩
    rw [Routine.factory_result, Node.valueType,
      TypeRef.pieces_pointer_struct (Universe.declaresInterface_of_struct hstruct)]
    rfl

/-- Every source that meets a request is fit for it. -/
theorem Complete.fits {t : TypeRef} {x : Source} (h : w.Complete c d xs)
    (hr : c.registry.Shaped c.types) (hx : w.Meets c t x) : (w.plan d xs).Fits c.types t x := by
  obtain ⟨s, sources, hs, hfin, rfl⟩ := h.sound.meets hx
  obtain ⟨a, ha⟩ := hs.exists_shape
  have hreference := hs.no_reference hr
  have hvalue : ∀ f, (w.plan d xs).valueType? (s.source f) = some s.node.valueType :=
    fun _ => hfin.valueType?
  have hroutine : ∀ component, ∃ r, (w.plan d xs).routine? c.types component
      (s.source (s.node.isFallible sources)).callee = some r ∧
        r.result = s.node.valueType.pieces c.types := hfin.routine?
  obtain ⟨n, o⟩ := s
  have hdirect : Option.map Binding.interface o = none → n.valueType = t := by
    intro ho
    rw [Option.map_eq_none_iff] at ho
    subst ho
    exact hs.valueType_eq hr
  refine ⟨fun ho hkind => ?_, fun ho hkind => ?_, fun i hi => ?_, ?_, hreference,
    TypeRef.no_double_box ha hreference⟩
  · cases n with
    | provider p => exact ⟨_, hfin.holds, (hdirect ho).symm⟩
    | factory e => cases hkind
  · cases n with
    | provider p => cases hkind
    | factory e =>
      obtain ⟨-, he, hinject⟩ := hfin.hasNode.factory
      have hflags : e.isStruct = true ∧ e.flags.contains .inject = true := by
        simpa [Decl.isInjectable] using hinject
      exact ⟨(hdirect ho).symm, e, he, hflags⟩
  · obtain ⟨b, rfl, hb⟩ := Option.map_eq_some_iff.mp hi
    subst hb
    obtain ⟨ht, hinterface, hstruct, hdeclared⟩ := hs.cast hr
    exact ⟨ht, hinterface, (hvalue _).trans (congrArg some hstruct), hdeclared⟩
  · exact ⟨n.valueType, hvalue _, hdirect, hroutine⟩

end Wired

theorem planComponent_eq_ok_iff {u : Universe} {package name : String} {p : Plan} :
    planComponent u package name = .ok p ↔ ∃ d r, Definition.load u package name = .ok d ∧
      discover u d.modules = .ok r ∧ resolve u d r = .ok p := by
  unfold planComponent
  cases Definition.load u package name with
  | error e => simp
  | ok d =>
    cases hr : discover u d.modules with
    | error e => simp [hr]
    | ok r => simp [hr]

/-- In the plan of a component every source is fit for the request that it is wired to. -/
theorem planComponent_fits {u : Universe} {package name : String} {p : Plan} {t : TypeRef}
    {x : Source} (h : planComponent u package name = .ok p) (hedge : p.Edge u t x) :
    p.Fits u t x := by
  obtain ⟨d, r, -, hdiscover, hresolve⟩ := planComponent_eq_ok_iff.mp h
  obtain ⟨hwire, -⟩ := resolve_eq_ok_iff.mp hresolve
  obtain ⟨w, xs, rfl, hcomplete⟩ := wirePlan_complete hwire
  exact hcomplete.fits (discover_shaped hdiscover) (hcomplete.edge_met hedge)

theorem shop_fits : planComponent Shop.types "shop" "Shop" = .ok Shop.plan ∧
    Shop.plan.Edge Shop.types (.named Shop.store) Shop.storeSource ∧
      Shop.plan.Fits Shop.types (.named Shop.store) Shop.storeSource := by
  have hplan : planComponent Shop.types "shop" "Shop" = .ok Shop.plan := by decide +kernel
  have hedge : Shop.plan.Edge Shop.types (.named Shop.store) Shop.storeSource :=
    .field (f := ⟨Shop.service, [⟨"store", Shop.storeSource⟩], true⟩)
      (g := { name := "store", type := .named Shop.store })
      (a := ⟨"store", Shop.storeSource⟩) (k := 0) (by decide +kernel) rfl rfl rfl
  exact ⟨hplan, hedge, planComponent_fits hplan hedge⟩

end Wiring
