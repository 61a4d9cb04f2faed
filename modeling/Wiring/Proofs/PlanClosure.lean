import Wiring.Proofs.FinishedNodes

/-!
A plan is the closure of its targets. It holds exactly the nodes that the targets need, each
with one source for each of its requests, and exactly the bindings that its sources are cast
by. `sourceWithin` finds the source of a type without remembering what has been wired; the
sources of a plan are the same.
-/
namespace Wiring

open Relation

/-- The source of a demand, found anew for every node, at most `room` nodes deep. -/
def Catalog.sourceWithin (c : Catalog) : Nat → Demand → Option Source
  | 0, _ => none
  | room + 1, d =>
    match c.supply d with
    | .error _ => none
    | .ok s =>
      (s.node.demands.mapM (c.sourceWithin room)).map fun sources =>
        s.source (s.node.isFallible sources)

/-- `x` is what answers `t` on its own: its node, its binding, and whether it can fail. -/
structure Catalog.IsSource (c : Catalog) (room : Nat) (t : TypeRef) (x : Source) : Prop where
  answered : ∃ s, c.Answers t s ∧ x.kind = s.node.kind ∧ x.identity = s.node.identity ∧
    x.cast = s.binding.map Binding.interface
  anew : ∀ q, c.sourceWithin room ⟨t, q⟩ = some x

/-- What is read off the entry that a source names. -/
def Plan.read? {α : Type} (p : Plan) (x : Source) (ofProvider : PlannedProvider → α)
    (ofFactory : Factory → α) : Option α :=
  match x.kind with
  | .provider => (p.providers.find? x.identity).map ofProvider
  | .factory => (p.factories.find? x.identity).map ofFactory

theorem Plan.mem_sources_iff {p : Plan} {x : Source} : x ∈ p.sources ↔
    (∃ z ∈ p.targets, z.source = x) ∨ (∃ e ∈ p.providers.toList, x ∈ e.params) ∨
      ∃ f ∈ p.factories.toList, ∃ a ∈ f.fields, a.source = x := by
  simp only [sources, List.mem_append, List.mem_map, List.mem_flatMap, or_assoc]

/-- The number of nodes of a plan. -/
def Plan.nodeCount (p : Plan) : Nat :=
  p.providers.size + p.factories.size

/-- `p` is the closure of the targets of `d`. -/
structure Plan.IsClosure (c : Catalog) (d : Definition) (p : Plan) : Prop where
  definition : p.definition = d
  targets : List.Forall₂ (fun t x => x.target = t ∧ c.IsSource p.nodeCount t.type x.source)
    d.targets p.targets
  provider_keys : ∀ i, i ∈ p.providers.keys ↔
    ∃ q, q.provides = i ∧ c.Reached d.requests (.provider q)
  factory_keys : ∀ i, i ∈ p.factories.keys ↔
    ∃ e, e.identity = i ∧ c.Reached d.requests (.factory e)
  disjoint : ∀ i, i ∈ p.providers.keys → i ∉ p.factories.keys
  params : ∀ e ∈ p.providers.toList, c.Reached d.requests (.provider e.provider) ∧
    List.Forall₂ (fun q x => c.IsSource p.nodeCount q.type x) e.provider.params e.params
  fields : ∀ f ∈ p.factories.toList, ∃ e, e.identity = f.identity ∧
    c.Reached d.requests (.factory e) ∧
    List.Forall₂ (fun g a => a.field = g.name ∧ c.IsSource p.nodeCount g.type a.source)
      e.injectedFields f.fields
  binding_keys : ∀ i, i ∈ p.bindings.keys ↔ ∃ x ∈ p.sources, x.cast = some i
  bindings : ∀ x ∈ p.sources, ∀ i, x.cast = some i → ∃ b, p.bindings.find? i = some b ∧
    c.registry.binding? i = some b ∧ b.implementation = x.identity

namespace Wired

variable {c : Catalog} {asked : TypeRef → Prop} {w : Wired}

/-- A source of a finished node names the entry of the node. -/
theorem Finished.read? {α : Type} {d : Definition} {s : Supply} {xs sources : List Source}
    {f : Bool} (ofProvider : PlannedProvider → α) (ofFactory : Factory → α)
    (h : Finished c asked w s.node sources) :
    (w.plan d xs).read? (s.source f) ofProvider ofFactory = some (match s.node with
      | .provider q => ofProvider ⟨q, sources, (Node.provider q).isFallible sources⟩
      | .factory e => ofFactory (.ofSources e sources)) := by
  obtain ⟨n, o⟩ := s
  cases n with
  | provider q =>
    have hentry : w.providers.find? q.provides = some _ := h.holds
    simp [Plan.read?, Supply.source, Node.kind, Node.identity, plan, hentry]
  | factory e =>
    have hentry : w.factories.find? e.identity = some _ := h.holds
    simp [Plan.read?, Supply.source, Node.kind, Node.identity, plan, hentry]

/-- Finding a source anew gives what the finished nodes give. -/
theorem Sound.sourceWithin {k : Nat} {t : TypeRef} {x : Source} {q : Requirement}
    (hw : Sound c asked w) (hx : w.Meets c t x)
    (hk : ∀ s, c.Answers t s → c.Grounded k s.node) : c.sourceWithin k ⟨t, q⟩ = some x := by
  induction k generalizing t x q with
  | zero =>
    obtain ⟨s, _, hs, -⟩ := hw.meets hx
    exact (hk s hs).elim
  | succ k ih =>
    obtain ⟨s, sources, hs, hfin, rfl⟩ := hw.meets hx
    have hsources : s.node.demands.mapM (c.sourceWithin k) = some sources := by
      apply mapM_eq_some_iff.mpr
      have hmet := hfin.met
      rw [← Node.map_type_demands] at hmet
      refine ((List.forall₂_and_left _ _).mpr
        ⟨fun _ => Node.type_mem_requests, List.forall₂_map_left_iff.mp hmet⟩).imp ?_
      rintro ⟨t', q'⟩ y ⟨ht', hy⟩
      exact ih hy fun s' hs' => hk s hs s'.node ⟨t', ht', s'.binding, hs'⟩
    have hsupply : c.supply ⟨t, q⟩ = .ok s := Catalog.supply_eq_ok_iff.mpr hs
    simp [Catalog.sourceWithin, hsupply, hsources]

theorem Sound.isSource {t : TypeRef} {x : Source} (hw : Sound c asked w)
    (hx : w.Meets c t x) : c.IsSource w.size t x := by
  obtain ⟨s, sources, hs, hfin, hsource⟩ := hw.meets hx
  refine ⟨⟨s, hs, ?_⟩, fun q => hw.sourceWithin hx fun s' hs' => ?_⟩
  · subst hsource
    exact ⟨rfl, rfl, rfl⟩
  · cases hs.unique hs'
    exact hfin.grounded

namespace Complete

variable {d : Definition} {xs : List Source}

theorem targets (h : w.Complete c d xs) :
    List.Forall₂ (fun t x => x.target = t ∧ w.Meets c t.type x.source)
      d.targets (w.plan d xs).targets := by
  refine (forall₂_zipWith WiredTarget.mk h.met).imp ?_
  rintro t _ ⟨x, rfl, hx⟩
  exact ⟨rfl, hx⟩

theorem fields (h : w.Complete c d xs) {f : Factory} (hf : f ∈ w.factories.toList) :
    ∃ e, e.identity = f.identity ∧ c.Reached d.requests (.factory e) ∧
      List.Forall₂ (fun g a => a.field = g.name ∧ w.Meets c g.type a.source)
        e.injectedFields f.fields := by
  obtain ⟨e, sources, hfin, rfl⟩ := h.sound.of_mem_factories hf
  refine ⟨e, rfl, hfin.reached, ?_⟩
  refine (forall₂_zipWith (fun g x => Assignment.mk g.name x) hfin.met).imp ?_
  rintro g _ ⟨x, rfl, hx⟩
  exact ⟨rfl, hx⟩

/-- Every source of the plan meets a type that is asked for. -/
theorem source_met (h : w.Complete c d xs) {x : Source} (hx : x ∈ (w.plan d xs).sources) :
    ∃ t, c.Asked d.requests t ∧ w.Meets c t x := by
  rcases Plan.mem_sources_iff.mp hx with ⟨z, hz, rfl⟩ | ⟨e, he, hx⟩ | ⟨f, hf, a, ha, rfl⟩
  · obtain ⟨t, ht, -, hmet⟩ := exists_of_forall₂_right h.targets hz
    exact ⟨t.type, .root (List.mem_map_of_mem ht), hmet⟩
  · have hfin := h.sound.of_mem_providers he
    obtain ⟨t, b, ht, hn⟩ := hfin.reached
    obtain ⟨t', ht', hmet⟩ := exists_of_forall₂_right hfin.met hx
    exact ⟨t', .request ht hn ht', hmet⟩
  · obtain ⟨e, -, ⟨t, b, ht, hn⟩, hfields⟩ := h.fields hf
    obtain ⟨g, hg, -, hmet⟩ := exists_of_forall₂_right hfields ha
    exact ⟨g.type, .request ht hn (List.mem_map_of_mem hg), hmet⟩

/-- The sources of a finished node are sources of the plan. -/
theorem mem_sources {n : Node} {sources : List Source} {x : Source}
    (hn : Finished c asked w n sources) (hx : x ∈ sources) : x ∈ (w.plan d xs).sources := by
  rw [Plan.mem_sources_iff]
  cases n with
  | provider p =>
    have hentry := Table.mem_of_find? hn.holds
    exact .inr (.inl ⟨_, hentry, hx⟩)
  | factory e =>
    have hentry := Table.mem_of_find? hn.holds
    refine .inr (.inr ⟨_, hentry, ?_⟩)
    rwa [← List.mem_map, hn.map_source]

/-- Every type that is asked for is met by a source of the plan. -/
theorem asked_source (h : w.Complete c d xs) {t : TypeRef} (ht : c.Asked d.requests t) :
    ∃ x ∈ (w.plan d xs).sources, w.Meets c t x := by
  cases ht with
  | root ht =>
    obtain ⟨t', ht', rfl⟩ := List.mem_map.mp ht
    obtain ⟨z, hz, -, hmet⟩ := exists_of_forall₂ h.targets ht'
    exact ⟨z.source, Plan.mem_sources_iff.mpr (.inl ⟨z, hz, rfl⟩), hmet⟩
  | @request t' _ s ht' hs ht =>
    obtain ⟨sources, hfin⟩ := h.reached_finished ⟨t', s.binding, ht', hs⟩
    obtain ⟨x, hx, hmet⟩ := exists_of_forall₂ hfin.met ht
    exact ⟨x, mem_sources hfin hx, hmet⟩

theorem mem_provider_keys (h : w.Complete c d xs) (i : Identity) :
    i ∈ w.providers.keys ↔ ∃ q, q.provides = i ∧ c.Reached d.requests (.provider q) := by
  rw [Table.mem_keys_iff]
  constructor
  · intro hkey
    obtain ⟨e, he⟩ := hkey
    obtain ⟨hi, hfin⟩ := h.sound.provider he
    exact ⟨e.provider, hi, hfin.reached⟩
  · intro hneeded
    obtain ⟨q, rfl, hq⟩ := hneeded
    obtain ⟨sources, hfin⟩ := h.reached_finished hq
    exact ⟨_, hfin.holds⟩

theorem mem_factory_keys (h : w.Complete c d xs) (i : Identity) :
    i ∈ w.factories.keys ↔ ∃ e, e.identity = i ∧ c.Reached d.requests (.factory e) := by
  rw [Table.mem_keys_iff]
  constructor
  · intro hkey
    obtain ⟨f, hf⟩ := hkey
    obtain ⟨e, sources, hi, hfin⟩ := h.sound.factory hf
    exact ⟨e, hi, hfin.reached⟩
  · intro hneeded
    obtain ⟨e, rfl, he⟩ := hneeded
    obtain ⟨sources, hfin⟩ := h.reached_finished he
    exact ⟨_, hfin.holds⟩

/-- A source that is cast has passed through the binding of the interface. -/
theorem binding_of_cast (h : w.Complete c d xs) {x : Source} {i : Identity}
    (hx : x ∈ (w.plan d xs).sources) (hcast : x.cast = some i) :
    ∃ b, w.bindings.find? i = some b ∧ c.registry.binding? i = some b ∧
      b.implementation = x.identity := by
  obtain ⟨t, -, ⟨n, o⟩, f, hs, -, rfl, hnoted⟩ := h.source_met hx
  cases o with
  | none => cases hcast
  | some b =>
    obtain rfl : b.interface = i := Option.some.inj hcast
    obtain ⟨-, hb, hid⟩ := hs.of_binding
    obtain ⟨b', hb'⟩ := Option.isSome_iff_exists.mp (hnoted b rfl)
    obtain ⟨hi, t', n', -, hs'⟩ := h.sound.binding hb'
    obtain ⟨-, hreg, -⟩ := hs'.of_binding
    rw [hi, hb] at hreg
    cases hreg
    exact ⟨b, hb', hb, hid.symm⟩

theorem mem_binding_keys (h : w.Complete c d xs) (i : Identity) :
    i ∈ w.bindings.keys ↔ ∃ x ∈ (w.plan d xs).sources, x.cast = some i := by
  rw [Table.mem_keys_iff]
  constructor
  · intro hkey
    obtain ⟨b, hb⟩ := hkey
    obtain ⟨rfl, t, n, ht, hs⟩ := h.sound.binding hb
    obtain ⟨x, hx, s, f, hs', -, rfl, -⟩ := h.asked_source ht
    cases hs.unique hs'
    exact ⟨_, hx, rfl⟩
  · intro hused
    obtain ⟨x, hx, hcast⟩ := hused
    obtain ⟨b, hb, -⟩ := h.binding_of_cast hx hcast
    exact ⟨b, hb⟩

theorem isClosure (h : w.Complete c d xs) : (w.plan d xs).IsClosure c d where
  definition := rfl
  targets := h.targets.imp fun _ _ => And.imp_right h.sound.isSource
  provider_keys := h.mem_provider_keys
  factory_keys := h.mem_factory_keys
  disjoint := by
    intro i hp hf
    obtain ⟨q, rfl, hq⟩ := (h.mem_provider_keys i).mp hp
    obtain ⟨e, he, hfactory⟩ := (h.mem_factory_keys _).mp hf
    cases hq.hasNode.eq_of_identity hfactory.hasNode he.symm
  params := by
    intro e he
    have hfin := h.sound.of_mem_providers he
    refine ⟨hfin.reached, ?_⟩
    exact List.forall₂_map_left_iff.mp (hfin.met.imp fun _ _ => h.sound.isSource)
  fields := by
    intro f hf
    obtain ⟨e, hid, hreached, hfields⟩ := h.fields hf
    exact ⟨e, hid, hreached, hfields.imp fun _ _ => And.imp_right h.sound.isSource⟩
  binding_keys := h.mem_binding_keys
  bindings := fun _ hx _ hcast => h.binding_of_cast hx hcast

end Complete

end Wired

theorem resolve_eq_ok_iff {u : Universe} {d : Definition} {r : Registry} {p : Plan} :
    resolve u d r = .ok p ↔ wirePlan u d r = .ok p ∧ p.fallibleChain? = none := by
  unfold resolve
  cases hw : wirePlan u d r with
  | error e => simp
  | ok p' =>
    cases hf : p'.fallibleChain? with
    | none => grind
    | some chain => grind

/-- A target that cannot fail although its source can is found last. -/
theorem resolve_eq_error_iff {u : Universe} {d : Definition} {r : Registry} {e : Failure} :
    resolve u d r = .error e ↔ wirePlan u d r = .error e ∨
      ∃ p method site, wirePlan u d r = .ok p ∧ p.fallibleChain? = some (method, site) ∧
        e = .fallibleChain method site := by
  unfold resolve
  cases wirePlan u d r with
  | error e' => simp
  | ok p =>
    cases hchain : p.fallibleChain? with
    | none => grind
    | some chain => grind

/-! A shop with one service, which is built around a store. The store is bound to a disk, and
opening the disk may fail. -/
namespace Shop

def service : Identity := ⟨"shop", "Service"⟩

def store : Identity := ⟨"shop", "Store"⟩

def disk : Identity := ⟨"shop", "Disk"⟩

def values : Identity := ⟨"shop", "Values"⟩

def bindings : Identity := ⟨"shop", "Bindings"⟩

def shop : Identity := ⟨"shop", "Shop"⟩

def types : Universe where
  types := .ofList
    [(Decl.ofStruct service [{ name := "store", type := .named store }]).withFlags .inject,
      .ofInterface store [],
      .ofStruct disk [],
      (Decl.ofStruct values []).withMethod
        { name := "open_disk", results := [.pointer (.named disk), .error] },
      .ofInterface bindings
        [{ name := "store", params := [{ name := "disk", type := .pointer (.named disk) }],
           results := [.named store] }],
      .ofInterface shop
        [{ name := "modules", results := [.pointer (.named values), .named bindings] },
          { name := "service", results := [.pointer (.named service), .error] }]]

def openDisk : Provider where
  provides := disk
  module := values
  method := "open_disk"
  params := []
  result := .pointer (.named disk)
  isFallible := true

def storeOnDisk : Binding where
  interface := store
  implementation := disk
  module := bindings
  method := "store"

def serviceTarget : Target where
  method := "service"
  type := .pointer (.named service)
  isFallible := true

def definition : Definition where
  identity := shop
  modules := [.pointer (.named values), .named bindings]
  targets := [serviceTarget]
  componentInterface := none

def registry : Registry where
  providers := .ofList [openDisk]
  bindings := .ofList [storeOnDisk]
  valueModules := .ofList [⟨values, false⟩]

/-- The disk as the store of the service. -/
def storeSource : Source where
  kind := .provider
  identity := disk
  cast := some store
  isFallible := true

def plan : Plan where
  definition := definition
  modules := [⟨values, false⟩]
  providers := .ofList [⟨openDisk, [], true⟩]
  bindings := .ofList [storeOnDisk]
  factories := .ofList [⟨service, [⟨"store", storeSource⟩], true⟩]
  targets := [⟨serviceTarget, ⟨.factory, service, none, true⟩⟩]

/-! The shop with goods, which come from a warehouse with a path of its own. Prices are made in the
component, and the stock is handed in from outside. -/

def goods : Identity := ⟨"warehouse", "Goods"⟩

def price : Identity := ⟨"warehouse", "Price"⟩

def prices : Identity := ⟨"warehouse", "Prices"⟩

def stock : Identity := ⟨"warehouse", "Stock"⟩

def pricing : Provider where
  provides := price
  module := prices
  method := "price"
  params := []
  result := .pointer (.named price)
  isFallible := false

def stocking : Provider where
  provides := goods
  module := stock
  method := "goods"
  params := [{ name := "disk", type := .pointer (.named disk) },
    { name := "price", type := .pointer (.named price) }]
  result := .pointer (.named goods)
  isFallible := false

def stockedModules : List TypeRef :=
  [.pointer (.named stock), .named bindings, .pointer (.named prices), .pointer (.named values)]

def stockedTypes : Universe where
  types := [Decl.ofStruct goods [], .ofStruct price [],
      (Decl.ofStruct prices []).withMethod
        { name := "price", results := [.pointer (.named price)] },
      ((Decl.ofStruct stock []).withFlags .providedModule).withMethod
        { name := "goods", params := stocking.params, results := [.pointer (.named goods)] },
      .ofInterface shop
        [{ name := "modules", results := stockedModules },
          { name := "goods", results := [.pointer (.named goods), .error] },
          { name := "service", results := [.pointer (.named service), .error] }]].foldl
    Table.insert types.types

def goodsTarget : Target where
  method := "goods"
  type := .pointer (.named goods)
  isFallible := true

/-- What goods are made from: the disk, and their price. -/
def goodsParams : List Source :=
  [⟨.provider, disk, none, true⟩, ⟨.provider, price, none, false⟩]

def stockedPlan : Plan where
  definition := ⟨shop, stockedModules, [goodsTarget, serviceTarget], none⟩
  modules := [⟨values, false⟩, ⟨prices, false⟩, ⟨stock, true⟩]
  providers := .ofList
    [⟨openDisk, [], true⟩, ⟨pricing, [], false⟩, ⟨stocking, goodsParams, true⟩]
  bindings := .ofList [storeOnDisk]
  factories := .ofList [⟨service, [⟨"store", storeSource⟩], true⟩]
  targets := [⟨goodsTarget, ⟨.provider, goods, none, true⟩⟩,
    ⟨serviceTarget, ⟨.factory, service, none, true⟩⟩]

end Shop

/-- A resolved plan is the closure of the targets, and remembering finished nodes has not
changed any source. -/
theorem resolve_isClosure {u : Universe} {d : Definition} {r : Registry} {p : Plan}
    (h : resolve u d r = .ok p) : p.IsClosure ⟨u, r⟩ d := by
  obtain ⟨hwire, -⟩ := resolve_eq_ok_iff.mp h
  obtain ⟨w, xs, rfl, hcomplete⟩ := wirePlan_complete hwire
  exact hcomplete.isClosure

theorem shop_isClosure : resolve Shop.types Shop.definition Shop.registry = .ok Shop.plan ∧
    Shop.plan.IsClosure ⟨Shop.types, Shop.registry⟩ Shop.definition :=
  ⟨by decide +kernel, resolve_isClosure (by decide +kernel)⟩

end Wiring
