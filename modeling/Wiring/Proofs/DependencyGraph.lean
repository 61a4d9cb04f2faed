import Mathlib.Logic.Relation
import Wiring.Resolution

/-!
The dependency graph of a catalog. A requested type is answered by at most one node: the
provider of its type, the node behind the binding of its type, or the struct itself. A node
depends on the nodes that answer its requests. `supply_eq_ok_iff` says that demands are met
by exactly this relation, so that the graph can be spoken of without the resolver.
-/
namespace Wiring

open Relation

/-- The types that a node asks for: those of the parameters of a provider, or those of the
injected fields of a struct. -/
def Node.requests : Node → List TypeRef
  | provider p => p.params.map Param.type
  | factory d => d.injectedFields.map Field.type

theorem Node.map_type_demands (n : Node) : n.demands.map Demand.type = n.requests := by
  cases n <;> simp [demands, requests]

theorem Node.type_mem_requests {n : Node} {d : Demand} (h : d ∈ n.demands) :
    d.type ∈ n.requests := by
  rw [← map_type_demands]
  exact List.mem_map_of_mem h

namespace Catalog

/-- The node of a shape when no binding is followed. -/
inductive Direct (c : Catalog) : Shape → Node → Prop
  | provider {s : Shape} {p : Provider}
      (hp : c.registry.provider? s.identity = some p) (href : p.isReference = s.isReference) :
      Direct c s (.provider p)
  | factory {s : Shape} {d : Decl}
      (hp : c.registry.provider? s.identity = none)
      (hb : c.registry.binding? s.identity = none)
      (hd : c.types.lookup s.identity = some d) (hinject : d.isInjectable = true)
      (href : s.isReference = true) : Direct c s (.factory d)

/-- The node that answers a requested type, and the binding that leads to it. A binding
answers for a type that is requested by value and not provided; it passes on a request for a
reference to its implementation, which no further binding answers. -/
inductive Answers (c : Catalog) : TypeRef → Supply → Prop
  | direct {t : TypeRef} {s : Shape} {n : Node}
      (ht : t.shape = some s) (hn : c.Direct s n) : Answers c t ⟨n, none⟩
  | bound {i : Identity} {b : Binding} {n : Node}
      (hp : c.registry.provider? i = none) (hb : c.registry.binding? i = some b)
      (hn : c.Direct ⟨b.implementation, true⟩ n) : Answers c (.named i) ⟨n, some b⟩

variable {c : Catalog}

theorem answer_eq_node_iff {s : Shape} {n : Node} : c.answer s = .node n ↔ c.Direct s n := by
  constructor
  · intro h
    unfold answer at h
    split at h
    · next p hp =>
      split at h
      · next href =>
        cases h
        exact .provider hp href
      · cases h
    · next hp =>
      split at h
      · split at h <;> cases h
      · next hb =>
        split at h
        · next d hd =>
          split at h
          · next hinject =>
            split at h
            · next href =>
              cases h
              exact .factory hp hb hd hinject href
            · cases h
          · cases h
        · cases h
  · intro h
    cases h with
    | provider hp href => simp [answer, hp, href]
    | factory hp hb hd hinject href => simp [answer, hp, hb, hd, hinject, href]

theorem answer_eq_binding_iff {s : Shape} {b : Binding} :
    c.answer s = .binding b ↔
      s.isReference = false ∧ c.registry.provider? s.identity = none ∧
        c.registry.binding? s.identity = some b := by
  constructor
  · intro h
    unfold answer at h
    split at h
    · split at h <;> cases h
    · next hp =>
      split at h
      · next hb =>
        split at h
        · cases h
        · next href =>
          cases h
          exact ⟨by simpa using href, hp, hb⟩
      · split at h
        · split at h
          · split at h <;> cases h
          · cases h
        · cases h
  · intro hbound
    obtain ⟨href, hp, hb⟩ := hbound
    simp [answer, href, hp, hb]

theorem supplyBound_eq_ok_iff {b : Binding} {s : Supply} :
    c.supplyBound b = .ok s ↔ c.Direct ⟨b.implementation, true⟩ s.node ∧ s.binding = some b := by
  unfold supplyBound
  split
  · next n hn =>
    constructor
    · intro h
      cases h
      exact ⟨answer_eq_node_iff.mp hn, rfl⟩
    · intro hdirect
      obtain ⟨hs, hb⟩ := hdirect
      have hnode : n = s.node := by
        have h := answer_eq_node_iff.mpr hs
        rw [hn] at h
        exact Answer.node.inj h
      cases s
      subst hnode hb
      rfl
  all_goals
    next hn =>
    constructor
    · intro h
      cases h
    · intro hdirect
      obtain ⟨hs, -⟩ := hdirect
      rw [answer_eq_node_iff.mpr hs] at hn
      cases hn

/-- A demand is met by exactly the node that answers its type. -/
theorem supply_eq_ok_iff {d : Demand} {s : Supply} :
    c.supply d = .ok s ↔ c.Answers d.type s := by
  constructor
  · intro h
    unfold supply at h
    split at h
    · cases h
    · next shape hshape =>
      split at h
      · next hn =>
        cases h
        exact .direct hshape (answer_eq_node_iff.mp hn)
      · next b hb =>
        obtain ⟨href, hp, hbinding⟩ := answer_eq_binding_iff.mp hb
        obtain ⟨hn, hs⟩ := supplyBound_eq_ok_iff.mp h
        have htype : d.type = .named shape.identity := by
          simpa [href] using TypeRef.shape_eq_some_iff.mp hshape
        cases s
        subst hs
        rw [htype]
        exact .bound hp hbinding hn
      · cases h
      · cases h
  · intro h
    generalize htype : d.type = t at h
    cases h with
    | direct ht hn => simp [supply, htype, ht, answer_eq_node_iff.mpr hn]
    | @bound i b n hp hb hn =>
      have hanswer : c.answer ⟨i, false⟩ = .binding b :=
        answer_eq_binding_iff.mpr ⟨rfl, hp, hb⟩
      have hbound : c.supplyBound b = .ok ⟨n, some b⟩ := supplyBound_eq_ok_iff.mpr ⟨hn, rfl⟩
      simp [supply, htype, TypeRef.shape, hanswer, hbound]

theorem Direct.identity_eq {s : Shape} {n : Node} (h : c.Direct s n) :
    n.identity = s.identity := by
  cases h with
  | provider hp _ => exact Table.key_of_find? hp
  | factory _ _ hd _ _ => exact Universe.identity_of_lookup hd

/-- A node of the graph, whoever asks for it. -/
def HasNode (c : Catalog) (n : Node) : Prop :=
  ∃ s, c.Direct s n

/-- Nodes are told apart by their identities. -/
theorem HasNode.eq_of_identity {n m : Node} (hn : c.HasNode n) (hm : c.HasNode m)
    (h : n.identity = m.identity) : n = m := by
  obtain ⟨s, hs⟩ := hn
  obtain ⟨s', hs'⟩ := hm
  have hi : s.identity = s'.identity := hs.identity_eq.symm.trans (h.trans hs'.identity_eq)
  cases hs with
  | provider hp _ =>
    rw [hi] at hp
    cases hs' with
    | provider hp' _ => exact congrArg Node.provider (Option.some.inj (hp.symm.trans hp'))
    | factory hp' _ _ _ _ => cases hp.symm.trans hp'
  | factory hp _ hd _ _ =>
    rw [hi] at hp hd
    cases hs' with
    | provider hp' _ => cases hp.symm.trans hp'
    | factory _ _ hd' _ _ => exact congrArg Node.factory (Option.some.inj (hd.symm.trans hd'))

theorem HasNode.provider {p : Provider} (h : c.HasNode (.provider p)) :
    c.registry.provider? p.provides = some p := by
  obtain ⟨s, hs⟩ := h
  have hi : p.provides = s.identity := hs.identity_eq
  cases hs with
  | provider hp _ => rwa [hi]

theorem HasNode.factory {d : Decl} (h : c.HasNode (.factory d)) :
    c.registry.provider? d.identity = none ∧ c.types.lookup d.identity = some d ∧
      d.isInjectable = true := by
  obtain ⟨s, hs⟩ := h
  have hi : d.identity = s.identity := hs.identity_eq
  cases hs with
  | factory hp _ hd hinject _ => exact ⟨by rwa [hi], by rwa [hi], hinject⟩

theorem Answers.hasNode {t : TypeRef} {s : Supply} (h : c.Answers t s) : c.HasNode s.node := by
  cases h with
  | direct _ hn => exact ⟨_, hn⟩
  | bound _ _ hn => exact ⟨_, hn⟩

theorem Answers.unique {t : TypeRef} {s s' : Supply} (h : c.Answers t s) (h' : c.Answers t s') :
    s = s' := by
  have hs := supply_eq_ok_iff (d := ⟨t, .target ""⟩).mpr h
  rw [supply_eq_ok_iff.mpr h'] at hs
  exact (Except.ok.inj hs).symm

/-- What a binding leads to, and from where. -/
theorem Answers.of_binding {t : TypeRef} {n : Node} {b : Binding}
    (h : c.Answers t ⟨n, some b⟩) :
    t = .named b.interface ∧ c.registry.binding? b.interface = some b ∧
      n.identity = b.implementation := by
  cases h with
  | bound _ hb hn =>
    have hi : b.interface = _ := Table.key_of_find? hb
    exact ⟨by rw [hi], by rwa [hi], hn.identity_eq⟩

/-- `n` asks for a type that `m` answers. -/
def Depends (c : Catalog) (n m : Node) : Prop :=
  ∃ t ∈ n.requests, ∃ b, c.Answers t ⟨m, b⟩

/-- The types that are asked for when the types in `roots` are. -/
inductive Asked (c : Catalog) (roots : List TypeRef) : TypeRef → Prop
  | root {t : TypeRef} (ht : t ∈ roots) : Asked c roots t
  | request {t t' : TypeRef} {s : Supply}
      (h : Asked c roots t) (hs : c.Answers t s) (ht : t' ∈ s.node.requests) : Asked c roots t'

/-- The nodes that are needed when the types in `roots` are asked for. -/
def Reached (c : Catalog) (roots : List TypeRef) (n : Node) : Prop :=
  ∃ t b, c.Asked roots t ∧ c.Answers t ⟨n, b⟩

theorem Asked.mono {roots roots' : List TypeRef} {t : TypeRef} (h : c.Asked roots t)
    (hroots : ∀ t ∈ roots, t ∈ roots') : c.Asked roots' t := by
  induction h with
  | root ht => exact .root (hroots _ ht)
  | request _ hs ht ih => exact .request ih hs ht

theorem Reached.mono {roots roots' : List TypeRef} {n : Node} (h : c.Reached roots n)
    (hroots : ∀ t ∈ roots, t ∈ roots') : c.Reached roots' n := by
  obtain ⟨t, b, ht, hn⟩ := h
  exact ⟨t, b, ht.mono hroots, hn⟩

theorem Reached.depends {roots : List TypeRef} {n m : Node} (h : c.Reached roots n)
    (hd : c.Depends n m) : c.Reached roots m := by
  obtain ⟨t, b, ht, hn⟩ := h
  obtain ⟨t', ht', b', hm⟩ := hd
  exact ⟨t', b', .request ht hn ht', hm⟩

theorem Reached.trans {roots : List TypeRef} {n m : Node} (h : c.Reached roots n)
    (hd : ReflTransGen c.Depends n m) : c.Reached roots m := by
  induction hd with
  | refl => exact h
  | tail _ hd ih => exact ih.depends hd

theorem Reached.hasNode {roots : List TypeRef} {n : Node} (h : c.Reached roots n) :
    c.HasNode n := by
  obtain ⟨_, _, _, hn⟩ := h
  exact hn.hasNode

/-- A path of dependencies that starts at the node has at most `k` nodes. -/
def Grounded (c : Catalog) : Nat → Node → Prop
  | 0, _ => False
  | k + 1, n => ∀ m, c.Depends n m → c.Grounded k m

theorem Grounded.succ {k : Nat} {n : Node} (h : c.Grounded k n) : c.Grounded (k + 1) n := by
  induction k generalizing n with
  | zero => exact h.elim
  | succ k ih => exact fun m hm => ih (h m hm)

theorem Grounded.mono {k l : Nat} {n : Node} (h : c.Grounded k n) (hkl : k ≤ l) :
    c.Grounded l n := by
  induction hkl with
  | refl => exact h
  | step _ ih => exact ih.succ

/-- A grounded node is on no cycle. -/
theorem Grounded.not_cyclic {k : Nat} {n : Node} (h : c.Grounded k n) :
    ¬ TransGen c.Depends n n := by
  induction k generalizing n with
  | zero => exact h.elim
  | succ k ih =>
    intro hcycle
    obtain ⟨m, hnm, hmn⟩ := TransGen.head'_iff.mp hcycle
    exact ih (h m hnm) (TransGen.tail' hmn hnm)

end Catalog

end Wiring
