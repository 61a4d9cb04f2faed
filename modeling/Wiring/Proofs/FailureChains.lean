import Mathlib.Data.List.Chain
import Mathlib.Data.List.Nodup
import Wiring.Proofs.Solvability

/-!
The chains in the failures of wiring. Whatever is asked for is asked for by a target or by the
innermost of the nodes that are being built, each of which answers a demand of the one around it
(`Pursued`). Wiring fails at such a demand only, with the nodes that are being built at that moment
(`wire_eq_error`). A reported cycle therefore is one, and a target needs it; an unresolved type is
a dead end, to which the chain leads from a target and which its last node asks for.
-/
namespace Wiring

open Relation Resolution

namespace Catalog

/-- The nodes `ns` are being built, innermost first, when `q` is asked for. -/
inductive Pursued (c : Catalog) (targets : List Demand) : List Node → Demand → Prop
  | target {q : Demand} (hq : q ∈ targets) : Pursued c targets [] q
  | inner {ns : List Node} {q q' : Demand} {s : Supply} (h : Pursued c targets ns q)
      (hs : c.Answers q.type s) (hfresh : s.node.identity ∉ ns.map Node.identity)
      (hq' : q' ∈ s.node.demands) : Pursued c targets (s.node :: ns) q'

/-- What fails when `q` is asked for while the nodes `ns` are being built: nothing answers it, or
one of these nodes does. -/
inductive FailsAt (c : Catalog) (ns : List Node) (q : Demand) : Failure → Prop
  | gap {g : Gap} (hg : c.supply q = .error g) :
      FailsAt c ns q (g.failure (ns.map Node.identity).reverse)
  | cycle {s : Supply} (hs : c.Answers q.type s) (hmem : s.node ∈ ns) :
      FailsAt c ns q (.cyclic (cycle (ns.map Node.identity) s.node.identity))

/-- The nodes of a chain depend on one another in turn, and it leads back to the first, which a
target needs. -/
structure IsCycle (c : Catalog) (d : Definition) (chain : List Identity) : Prop where
  two_le_length : 2 ≤ chain.length
  closed : chain.head? = chain.getLast?
  simple : chain.dropLast.Nodup
  path : ∃ ns : List Node, ns.map Node.identity = chain ∧ (∀ n ∈ ns, c.HasNode n) ∧
    ns.IsChain c.Depends ∧ ∃ n ∈ ns.head?, ∃ t ∈ d.targets, c.Reached [t.type] n

/-- What asks for types: the innermost node that is being built, or else the targets. -/
def requestsOf (d : Definition) : Option Node → List TypeRef
  | none => d.requests
  | some n => n.requests

/-- A requirement says what asks for `t` inside a node, or among the targets of `d`. -/
inductive RequiredBy (c : Catalog) (d : Definition) (t : TypeRef) : Option Node → Requirement → Prop
  | target {z : Target} (hz : z ∈ d.targets) (ht : z.type = t) :
      RequiredBy c d t none (.target z.method)
  | field {e : Decl} {f : Field} (hf : f ∈ e.injectedFields) (ht : f.type = t) :
      RequiredBy c d t (some (.factory e)) (.field e.identity f.name)
  | parameter {p : Provider} {x : Param} (hx : x ∈ p.params) (ht : x.type = t) :
      RequiredBy c d t (some (.provider p)) (.parameter p.site x.name)
  | binding {o : Option Node} {i : Identity} {b : Binding} (hb : c.registry.binding? i = some b)
      (hrequest : .named i ∈ requestsOf d o) (ht : t = .pointer (.named b.implementation)) :
      RequiredBy c d t o (.binding i)

/-- Nothing answers `t`, and `chain` leads from a target to what requires it. -/
structure IsDeadEnd (c : Catalog) (d : Definition) (t : TypeRef) (q : Requirement)
    (chain : List Identity) : Prop where
  unanswered : ∃ s, t.shape = some s ∧ c.registry.provider? s.identity = none ∧
    c.registry.binding? s.identity = none ∧
    ∀ e, c.types.lookup s.identity = some e → e.isInjectable = false
  simple : chain.Nodup
  path : ∃ ns : List Node, ns.map Node.identity = chain ∧ (∀ n ∈ ns, c.HasNode n) ∧
    ns.IsChain c.Depends ∧
    (∀ n ∈ ns.head?, ∃ z ∈ d.targets, ∃ b, c.Answers z.type ⟨n, b⟩) ∧
    c.RequiredBy d t ns.getLast? q

namespace Pursued

variable {c : Catalog} {targets : List Demand} {ns : List Node} {q : Demand}

theorem waiting (h : c.Pursued targets ns q) : c.Waiting (ns.map Node.identity) q.type := by
  induction h with
  | target hq => exact waiting_nil
  | inner h hs hfresh hq' ih => exact ih.push hs hfresh (Node.type_mem_requests hq')

theorem hasNode (h : c.Pursued targets ns q) : ∀ n ∈ ns, c.HasNode n := by
  induction h with
  | target hq => exact nofun
  | inner h hs hfresh hq' ih => exact List.forall_mem_cons.mpr ⟨hs.hasNode, ih⟩

/-- The innermost node asks for what is asked for. -/
theorem mem_demands {n : Node} (h : c.Pursued targets ns q) (hn : n ∈ ns.head?) :
    q ∈ n.demands := by
  cases h with
  | target hq => cases hn
  | inner h hs hfresh hq' =>
    cases hn
    exact hq'

theorem depends {n : Node} {s : Supply} (h : c.Pursued targets ns q) (hs : c.Answers q.type s)
    (hn : n ∈ ns.head?) : c.Depends n s.node :=
  ⟨q.type, Node.type_mem_requests (h.mem_demands hn), s.binding, hs⟩

theorem isChain (h : c.Pursued targets ns q) : ns.IsChain fun n m => c.Depends m n := by
  induction h with
  | target hq => exact .nil
  | inner h hs hfresh hq' ih => exact List.isChain_cons.mpr ⟨fun n hn => h.depends hs hn, ih⟩

/-- A single target needs all nodes that are being built. -/
theorem exists_target (h : c.Pursued targets ns q) :
    ∃ z ∈ targets, c.Asked [z.type] q.type ∧ ∀ n ∈ ns, c.Reached [z.type] n := by
  induction h with
  | @target q hq => exact ⟨q, hq, .root List.mem_cons_self, nofun⟩
  | @inner ns q q' s h hs hfresh hq' ih =>
    obtain ⟨z, hz, hasked, hreached⟩ := ih
    refine ⟨z, hz, .request hasked hs (Node.type_mem_requests hq'), ?_⟩
    exact List.forall_mem_cons.mpr ⟨⟨q.type, s.binding, hasked, hs⟩, hreached⟩

/-- The outermost node answers a target. -/
theorem outermost {n : Node} (h : c.Pursued targets ns q) (hn : n ∈ ns.getLast?) :
    ∃ z ∈ targets, ∃ b, c.Answers z.type ⟨n, b⟩ := by
  induction h with
  | target hq => cases hn
  | @inner ns q q' s h hs hfresh hq' ih =>
    cases ns with
    | nil =>
      cases h with
      | target hq =>
        cases hn
        exact ⟨q, hq, s.binding, hs⟩
    | cons m ns => exact ih (by simpa using hn)

theorem mem_of_identity {s : Supply} (h : c.Pursued targets ns q) (hs : c.Answers q.type s)
    (hpath : s.node.identity ∈ ns.map Node.identity) : s.node ∈ ns := by
  obtain ⟨n, hn, hidentity⟩ := List.mem_map.mp hpath
  exact (h.hasNode n hn).eq_of_identity hs.hasNode hidentity ▸ hn

/-- Without room for a further node, the node that answers is being built. -/
theorem mem_of_full {s : Supply} (h : c.Pursued targets ns q) (hs : c.Answers q.type s)
    (hfull : c.nodeCount ≤ ns.length) : s.node ∈ ns := by
  refine h.mem_of_identity hs (by_contra fun hfresh => ?_)
  have hlt := h.waiting.length_lt hs hfresh
  rw [List.length_map] at hlt
  omega

end Pursued

end Catalog

namespace Resolution

variable {c : Catalog} {path : List Identity}

/-- What a failing call of `wire` does: nothing answers its demand, it closes a cycle or has no room
left, or the demands of a new node are not all met. -/
theorem wire_error_cases {room : Nat} {q : Demand} {w : Wired} {e : Failure}
    (h : wire c room path q w = .error e) :
    (∃ g, c.supply q = .error g ∧ e = g.failure path.reverse) ∨
      ∃ s, c.Answers q.type s ∧
        ((s.node.identity ∈ path ∨ room = 0) ∧ e = .cyclic (cycle path s.node.identity) ∨
          ∃ room' w', room = room' + 1 ∧ s.node.identity ∉ path ∧
            wireAll (wire c room' (s.node.identity :: path)) s.node.demands w' = .error e) := by
  unfold wire at h
  split at h
  · next g hg =>
    cases h
    exact .inl ⟨g, hg, rfl⟩
  · next s hs =>
    refine .inr ⟨s, Catalog.supply_eq_ok_iff.mp hs, ?_⟩
    dsimp only at h
    split at h
    · cases h
    · split at h
      · next hpath =>
        cases h
        exact .inl ⟨.inl hpath, rfl⟩
      · next hpath =>
        split at h
        · cases h
          exact .inl ⟨.inr rfl, rfl⟩
        · next room' =>
          split at h
          · next e' hall =>
            cases h
            exact .inr ⟨room', _, rfl, hpath, hall⟩
          · cases h

theorem wireAll_eq_error {σ ε : Type} {wire : Demand → σ → Except ε (Source × σ)}
    {qs : List Demand} {w : σ} {e : ε} (h : wireAll wire qs w = .error e) :
    ∃ q ∈ qs, ∃ w', wire q w' = .error e := by
  induction qs generalizing w with
  | nil => cases h
  | cons q qs ih =>
    unfold wireAll at h
    split at h
    · next e' hq =>
      cases h
      exact ⟨q, List.mem_cons_self, w, hq⟩
    · split at h
      · next hqs =>
        cases h
        obtain ⟨q', hq', w', hfail⟩ := ih hqs
        exact ⟨q', List.mem_cons_of_mem q hq', w', hfail⟩
      · cases h

/-- Wiring fails at a demand that is asked for at that moment. -/
theorem wire_eq_error {targets : List Demand} {ns : List Node} {room : Nat} {q : Demand}
    {w : Wired} {e : Failure} (hq : c.Pursued targets ns q)
    (hroom : c.nodeCount ≤ room + ns.length)
    (h : wire c room (ns.map Node.identity) q w = .error e) :
    ∃ ns' q', c.Pursued targets ns' q' ∧ c.FailsAt ns' q' e := by
  induction room generalizing ns q w with
  | zero =>
    obtain ⟨g, hg, rfl⟩ | ⟨s, hs, ⟨-, rfl⟩ | ⟨room', _, hroom', _⟩⟩ := wire_error_cases h
    · exact ⟨ns, q, hq, .gap hg⟩
    · exact ⟨ns, q, hq, .cycle hs (hq.mem_of_full hs (by omega))⟩
    · cases hroom'
  | succ room ih =>
    obtain ⟨g, hg, rfl⟩ | ⟨s, hs, ⟨hpath, rfl⟩ | ⟨room', w', hroom', hfresh, hall⟩⟩ :=
      wire_error_cases h
    · exact ⟨ns, q, hq, .gap hg⟩
    · have hmem := hpath.resolve_right (Nat.succ_ne_zero room)
      exact ⟨ns, q, hq, .cycle hs (hq.mem_of_identity hs hmem)⟩
    · cases hroom'
      obtain ⟨q', hq', w'', hfail⟩ := wireAll_eq_error hall
      have hlength : c.nodeCount ≤ room + (s.node :: ns).length := by
        rw [List.length_cons]
        omega
      exact ih (hq.inner hs hfresh hq') hlength hfail

end Resolution

/-- Where resolution fails, unless it fails on a target that cannot fail. -/
theorem wirePlan_eq_error {u : Universe} {d : Definition} {r : Registry} {e : Failure}
    (h : wirePlan u d r = .error e) :
    ∃ ns q, Catalog.Pursued ⟨u, r⟩ (d.targets.map Target.demand) ns q ∧
      Catalog.FailsAt ⟨u, r⟩ ns q e := by
  unfold wirePlan at h
  dsimp only at h
  split at h
  · next e' hall =>
    cases h
    obtain ⟨q, hq, w, hfail⟩ := wireAll_eq_error hall
    exact wire_eq_error (.target hq) (Nat.le_refl _) hfail
  · cases h

namespace Catalog

variable {c : Catalog} {d : Definition} {ns : List Node} {q : Demand}

/-- The nodes of a cycle, from the one that is asked for again to the innermost. -/
theorem cycle_eq {inner outer : List Node} {n : Node}
    (hnodup : ((inner ++ n :: outer).map Node.identity).Nodup) :
    cycle ((inner ++ n :: outer).map Node.identity) n.identity =
      (n :: inner.reverse ++ [n]).map Node.identity := by
  have hinner : ∀ i ∈ inner.map Node.identity, decide (i ≠ n.identity) = true := by
    intro i hi
    rw [List.map_append, List.map_cons] at hnodup
    have hne := (List.nodup_append.mp hnodup).2.2 i hi n.identity List.mem_cons_self
    simpa using hne
  have htake : ((inner ++ n :: outer).map Node.identity).takeWhile (· ≠ n.identity) =
      inner.map Node.identity := by
    rw [List.map_append, List.map_cons, List.takeWhile_append_of_pos hinner,
      List.takeWhile_cons_of_neg (by simp), List.append_nil]
  rw [cycle, htake]
  simp

/-- From a node that is being built the dependencies lead to the innermost one. -/
theorem Pursued.isChain_reverse {targets : List Demand} {inner outer : List Node} {n : Node}
    (h : c.Pursued targets (inner ++ n :: outer) q) : (n :: inner.reverse).IsChain c.Depends := by
  have hfront : inner ++ [n] <+: inner ++ n :: outer := ⟨outer, by simp⟩
  have hreverse : n :: inner.reverse = (inner ++ [n]).reverse := by simp
  rw [hreverse, List.isChain_reverse]
  exact h.isChain.prefix hfront

theorem FailsAt.isCycle {chain : List Identity}
    (hq : c.Pursued (d.targets.map Target.demand) ns q) (h : c.FailsAt ns q (.cyclic chain)) :
    c.IsCycle d chain := by
  generalize he : Failure.cyclic chain = e at h
  cases h with
  | @gap g hg => cases g <;> cases he
  | @cycle s hs hmem =>
    obtain rfl : chain = _ := Failure.cyclic.inj he
    obtain ⟨inner, outer, rfl⟩ := List.append_of_mem hmem
    have hnodup := hq.waiting.nodup
    rw [cycle_eq hnodup]
    have hlast : ∀ m ∈ (s.node :: inner.reverse).getLast?, c.Depends m s.node := by
      intro m hm
      refine hq.depends hs ?_
      rw [← List.reverse_concat, List.getLast?_reverse] at hm
      cases inner <;> simpa using hm
    obtain ⟨z, hz, -, hreached⟩ := hq.exists_target
    obtain ⟨t, ht, rfl⟩ := List.mem_map.mp hz
    refine ⟨by simp, ?_, ?_, s.node :: inner.reverse ++ [s.node], rfl, ?_, ?_, s.node, rfl, t, ht,
      hreached s.node hmem⟩
    · rw [List.map_append, List.map_singleton, List.getLast?_concat]
      rfl
    · have hpath : ((s.node :: inner.reverse ++ [s.node]).map Node.identity).dropLast =
          ((inner ++ [s.node]).map Node.identity).reverse := by
        rw [← List.map_dropLast, List.dropLast_concat]
        simp
      have hfront : inner ++ [s.node] <+: inner ++ s.node :: outer := ⟨outer, by simp⟩
      rw [hpath, List.nodup_reverse]
      exact hnodup.sublist (hfront.sublist.map Node.identity)
    · intro n hn
      refine hq.hasNode n ?_
      simp only [List.cons_append, List.mem_cons, List.mem_append, List.mem_reverse] at hn ⊢
      tauto
    · refine hq.isChain_reverse.append (.singleton _) fun m hm n hn => ?_
      cases hn
      exact hlast m hm

theorem answer_eq_nothing {s : Shape} (h : c.answer s = .nothing) :
    c.registry.provider? s.identity = none ∧ c.registry.binding? s.identity = none ∧
      ∀ e, c.types.lookup s.identity = some e → e.isInjectable = false := by
  unfold answer at h
  split at h
  · split at h <;> cases h
  · next hp =>
    split at h
    · split at h <;> cases h
    · next hb =>
      split at h
      · next e he =>
        split at h
        · split at h <;> cases h
        · next hinject =>
          refine ⟨hp, hb, fun e' he' => ?_⟩
          cases he.symm.trans he'
          exact Bool.eq_false_iff.mpr hinject
      · next he => exact ⟨hp, hb, fun e' he' => by cases he.symm.trans he'⟩

/-- Nothing answers the demand, or what a binding makes of it. -/
theorem supply_eq_nothing {q' : Demand} (h : c.supply q = .error (.nothing q')) :
    (∃ s, q'.type.shape = some s ∧ c.answer s = .nothing) ∧
      (q' = q ∨ ∃ b, q.type = .named b.interface ∧
        c.registry.binding? b.interface = some b ∧ q' = b.demand) := by
  unfold supply at h
  split at h
  · cases h
  · next s hs =>
    split at h
    · cases h
    · next b hb =>
      obtain ⟨href, -, hbinding⟩ := answer_eq_binding_iff.mp hb
      have htype : q.type = .named s.identity := by
        simpa [href] using TypeRef.shape_eq_some_iff.mp hs
      have hkey : b.interface = s.identity := Table.key_of_find? hbinding
      rw [← hkey] at htype hbinding
      unfold supplyBound at h
      split at h
      · cases h
      · cases h
      · next b' hb' => exact absurd hb' (c.answer_reference_ne_binding b.implementation b')
      · next hnothing =>
        cases h
        exact ⟨⟨⟨b.implementation, true⟩, rfl, hnothing⟩, .inr ⟨b, htype, hbinding, rfl⟩⟩
    · cases h
    · next hnothing =>
      cases h
      exact ⟨⟨s, hs, hnothing⟩, .inl rfl⟩

/-- What is asked for is among the requests of what asks for it. -/
theorem Pursued.mem_requestsOf (h : c.Pursued (d.targets.map Target.demand) ns q) :
    q.type ∈ requestsOf d ns.head? := by
  cases h with
  | target hq =>
    obtain ⟨z, hz, rfl⟩ := List.mem_map.mp hq
    exact List.mem_map_of_mem hz
  | inner h hs hfresh hq' => exact Node.type_mem_requests hq'

theorem Pursued.requiredBy (h : c.Pursued (d.targets.map Target.demand) ns q) :
    c.RequiredBy d q.type ns.head? q.requirement := by
  cases h with
  | target hq =>
    obtain ⟨z, hz, rfl⟩ := List.mem_map.mp hq
    exact .target hz rfl
  | @inner ns q₀ q' s h hs hfresh hq' =>
    cases hn : s.node with
    | provider p =>
      rw [hn] at hq'
      obtain ⟨x, hx, rfl⟩ := List.mem_map.mp hq'
      exact .parameter hx rfl
    | factory e =>
      rw [hn] at hq'
      obtain ⟨f, hf, rfl⟩ := List.mem_map.mp hq'
      exact .field hf rfl

theorem FailsAt.isDeadEnd {t : TypeRef} {required : Requirement} {chain : List Identity}
    (hq : c.Pursued (d.targets.map Target.demand) ns q)
    (h : c.FailsAt ns q (.unresolved t required chain)) : c.IsDeadEnd d t required chain := by
  generalize he : Failure.unresolved t required chain = e at h
  cases h with
  | cycle hs hmem => cases he
  | @gap g hg =>
    cases g with
    | shape q' => cases he
    | mismatch q' provided => cases he
    | nothing q' =>
      cases he
      obtain ⟨⟨s, hs, hnothing⟩, hstep⟩ := supply_eq_nothing hg
      refine ⟨⟨s, hs, answer_eq_nothing hnothing⟩, List.nodup_reverse.mpr hq.waiting.nodup,
        ns.reverse, List.map_reverse, fun n hn => hq.hasNode n (List.mem_reverse.mp hn),
        List.isChain_reverse.mpr hq.isChain, fun n hn => ?_, ?_⟩
      · rw [List.head?_reverse] at hn
        obtain ⟨q₀, hq₀, b, hb⟩ := hq.outermost hn
        obtain ⟨z, hz, rfl⟩ := List.mem_map.mp hq₀
        exact ⟨z, hz, b, hb⟩
      · rw [List.getLast?_reverse]
        rcases hstep with rfl | ⟨b, htype, hbinding, rfl⟩
        · exact hq.requiredBy
        · exact .binding hbinding (htype ▸ hq.mem_requestsOf) rfl

end Catalog

/-! A desk that is built around a clerk, whose ledger is bound to a book. Opening the book takes a
parameter: if it is the clerk, there is a cycle; ink would be taken from a pen, which nothing
builds. -/
namespace Shop

def desk : Identity := ⟨"shop", "Desk"⟩

def clerk : Identity := ⟨"shop", "Clerk"⟩

def ledger : Identity := ⟨"shop", "Ledger"⟩

def book : Identity := ⟨"shop", "Book"⟩

def ink : Identity := ⟨"shop", "Ink"⟩

def pen : Identity := ⟨"shop", "Pen"⟩

def deskTypes : Universe where
  types := .ofList
    [(Decl.ofStruct desk [{ name := "clerk", type := .pointer (.named clerk) }]).withFlags .inject,
      (Decl.ofStruct clerk [{ name := "ledger", type := .named ledger }]).withFlags .inject,
      .ofInterface ledger [],
      .ofStruct book [],
      .ofInterface ink [],
      .ofStruct pen []]

def openBook (param : Param) : Provider where
  provides := book
  module := values
  method := "open_book"
  params := [param]
  result := .pointer (.named book)
  isFallible := false

def deskRegistry (param : Param) : Registry where
  providers := .ofList [openBook param]
  bindings := .ofList
    [{ interface := ledger, implementation := book, module := bindings, method := "ledger" },
      { interface := ink, implementation := pen, module := bindings, method := "ink" }]
  valueModules := .ofList [⟨values, false⟩]

def deskDefinition : Definition where
  identity := shop
  modules := []
  targets := [{ method := "desk", type := .pointer (.named desk), isFallible := false }]
  componentInterface := none

end Shop

/-- A reported cycle is one, and a target needs it. -/
theorem resolve_isCycle {u : Universe} {d : Definition} {r : Registry} {chain : List Identity}
    (h : resolve u d r = .error (.cyclic chain)) : Catalog.IsCycle ⟨u, r⟩ d chain := by
  rcases resolve_eq_error_iff.mp h with hwire | ⟨_, _, _, -, -, he⟩
  · obtain ⟨ns, q, hq, hfails⟩ := wirePlan_eq_error hwire
    exact hfails.isCycle hq
  · cases he

theorem shop_clerk_needs_itself :
    let r := Shop.deskRegistry { name := "clerk", type := .pointer (.named Shop.clerk) }
    let chain := [Shop.clerk, Shop.book, Shop.clerk]
    resolve Shop.deskTypes Shop.deskDefinition r = .error (.cyclic chain) ∧
      Catalog.IsCycle ⟨Shop.deskTypes, r⟩ Shop.deskDefinition chain :=
  ⟨by decide +kernel, resolve_isCycle (by decide +kernel)⟩

/-- An unresolved type is a dead end, and the chain leads to it. -/
theorem resolve_isDeadEnd {u : Universe} {d : Definition} {r : Registry} {t : TypeRef}
    {required : Requirement} {chain : List Identity}
    (h : resolve u d r = .error (.unresolved t required chain)) :
    Catalog.IsDeadEnd ⟨u, r⟩ d t required chain := by
  rcases resolve_eq_error_iff.mp h with hwire | ⟨_, _, _, -, -, he⟩
  · obtain ⟨ns, q, hq, hfails⟩ := wirePlan_eq_error hwire
    exact hfails.isDeadEnd hq
  · cases he

theorem shop_pen_is_missing :
    let r := Shop.deskRegistry { name := "ink", type := .named Shop.ink }
    let chain := [Shop.desk, Shop.clerk, Shop.book]
    resolve Shop.deskTypes Shop.deskDefinition r =
        .error (.unresolved (.pointer (.named Shop.pen)) (.binding Shop.ink) chain) ∧
      Catalog.IsDeadEnd ⟨Shop.deskTypes, r⟩ Shop.deskDefinition (.pointer (.named Shop.pen))
        (.binding Shop.ink) chain :=
  ⟨by decide +kernel, resolve_isDeadEnd (by decide +kernel)⟩

end Wiring
