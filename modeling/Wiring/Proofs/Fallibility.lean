import Wiring.Proofs.PlanClosure

/-!
Fallibility in a plan. A node may fail if it is a provider that can fail by itself, or depends
on one. The flag of every source says whether its node may fail, and wherever the flag is set
a provider that is to blame is found. A resolved plan therefore has no target that cannot fail
and a source that may.
-/
namespace Wiring

open Relation

/-- `n` is, or depends on, a provider that can fail by itself. -/
def Catalog.MayFail (c : Catalog) (n : Node) : Prop :=
  ∃ q, ReflTransGen c.Depends n (.provider q) ∧ q.isFallible = true

theorem Catalog.mayFail_iff {c : Catalog} {n : Node} :
    c.MayFail n ↔ n.canFail = true ∨ ∃ m, c.Depends n m ∧ c.MayFail m := by
  constructor
  · intro hmay
    obtain ⟨q, hq, hfail⟩ := hmay
    rcases ReflTransGen.cases_head hq with rfl | ⟨m, hnm, hmq⟩
    · exact .inl hfail
    · exact .inr ⟨m, hnm, q, hmq, hfail⟩
  · intro hmay
    rcases hmay with hfail | ⟨m, hnm, q, hmq, hfail⟩
    · cases n with
      | provider q => exact ⟨q, .refl, hfail⟩
      | factory d => cases hfail
    · exact ⟨q, .head hnm hmq, hfail⟩

/-- Where the errors of a node come from that its sources do not hand on. -/
def Node.origin? : Node → Option Site
  | provider q => if q.isFallible then some q.site else none
  | factory _ => none

theorem Node.canFail_eq_false {n : Node} (h : n.origin? = none) : n.canFail = false := by
  cases n with
  | provider q => simpa [origin?, canFail] using h
  | factory e => rfl

namespace Wired

variable {c : Catalog} {asked : TypeRef → Prop} {w : Wired}

/-- The flag of a finished node says whether it may fail: by induction along a path of
dependencies, which is no longer than what is wired. -/
theorem Sound.isFallible_iff {n : Node} {sources : List Source} (hw : Sound c asked w)
    (hn : Finished c asked w n sources) : n.isFallible sources = true ↔ c.MayFail n := by
  have hgrounded := hn.grounded
  generalize w.size = k at hgrounded
  induction k generalizing n sources with
  | zero => exact hgrounded.elim
  | succ k ih =>
    have hsource : ∀ t ∈ n.requests, ∀ x, w.Meets c t x →
        ∀ s, c.Answers t s → (x.isFallible = true ↔ c.MayFail s.node) := by
      intro t ht x hx s hs
      obtain ⟨s', sources', hs', hfin, rfl⟩ := hw.meets hx
      cases hs.unique hs'
      exact ih hfin (hgrounded s.node ⟨t, ht, s.binding, hs⟩)
    have hany : sources.any Source.isFallible = true ↔
        ∃ m, c.Depends n m ∧ c.MayFail m := by
      rw [List.any_eq_true]
      constructor
      · intro hsome
        obtain ⟨x, hx, hfail⟩ := hsome
        obtain ⟨t, ht, hmet⟩ := exists_of_forall₂_right hn.met hx
        obtain ⟨s, -, hs, -⟩ := hw.meets hmet
        exact ⟨s.node, ⟨t, ht, s.binding, hs⟩, (hsource t ht x hmet s hs).mp hfail⟩
      · intro hsome
        obtain ⟨m, ⟨t, ht, b, hm⟩, hfail⟩ := hsome
        obtain ⟨x, hx, hmet⟩ := exists_of_forall₂ hn.met ht
        exact ⟨x, hx, (hsource t ht x hmet _ hm).mpr hfail⟩
    rw [Node.isFallible, Bool.or_eq_true, hany, Catalog.mayFail_iff]

/-- The flag of a source says whether the node that answers the request may fail. -/
theorem Sound.source_isFallible_iff {t : TypeRef} {x : Source} {s : Supply}
    (hw : Sound c asked w) (hx : w.Meets c t x) (hs : c.Answers t s) :
    x.isFallible = true ↔ c.MayFail s.node := by
  obtain ⟨s', sources, hs', hfin, rfl⟩ := hw.meets hx
  cases hs.unique hs'
  exact hw.isFallible_iff hfin

/-- The origin of a fallible source is its node, or an origin of what the node asks for. -/
theorem Finished.originWithin {d : Definition} {s : Supply} {xs sources : List Source}
    (h : Finished c asked w s.node sources) (k : Nat) :
    (w.plan d xs).originWithin (k + 1) (s.source true) =
      s.node.origin?.or (sources.findSome? ((w.plan d xs).originWithin k)) := by
  obtain ⟨n, o⟩ := s
  cases n with
  | provider q =>
    have hentry : w.providers.find? q.provides = some _ := h.holds
    by_cases hq : q.isFallible = true
    · simp [Plan.originWithin, Supply.source, Node.kind, Node.identity, Node.origin?, plan,
        hentry, hq]
    · simp [Plan.originWithin, Supply.source, Node.kind, Node.identity, Node.origin?, plan,
        hentry, hq]
  | factory e =>
    have hentry : w.factories.find? e.identity = some _ := h.holds
    simp [Plan.originWithin, Supply.source, Node.kind, Node.identity, Node.origin?, plan, hentry,
      h.map_source]

/-- A fallible source has an origin, which is found within as many nodes as a path of
dependencies has. -/
theorem Sound.exists_origin {d : Definition} {xs : List Source} {k : Nat} {t : TypeRef}
    {x : Source} (hw : Sound c asked w) (hx : w.Meets c t x) (hfail : x.isFallible = true)
    (hk : ∀ s, c.Answers t s → c.Grounded k s.node) :
    ∃ site, (w.plan d xs).originWithin k x = some site := by
  induction k generalizing t x with
  | zero =>
    obtain ⟨s, _, hs, -⟩ := hw.meets hx
    exact (hk s hs).elim
  | succ k ih =>
    obtain ⟨s, sources, hs, hfin, rfl⟩ := hw.meets hx
    have hflag : s.node.isFallible sources = true := hfail
    rw [hflag, hfin.originWithin]
    cases horigin : s.node.origin? with
    | some site => exact ⟨site, rfl⟩
    | none =>
      have hany : sources.any Source.isFallible = true := by
        rw [Node.isFallible, Node.canFail_eq_false horigin, Bool.false_or] at hflag
        exact hflag
      obtain ⟨y, hy, hyfail⟩ := List.any_eq_true.mp hany
      obtain ⟨t', ht', hmet⟩ := exists_of_forall₂_right hfin.met hy
      have hnext : ∃ site, (w.plan d xs).originWithin k y = some site :=
        ih hmet hyfail fun s' hs' => hk s hs s'.node ⟨t', ht', s'.binding, hs'⟩
      obtain ⟨site, hsite⟩ := hnext
      apply Option.isSome_iff_exists.mp
      rw [Option.none_or, List.findSome?_isSome_iff]
      exact ⟨y, hy, by rw [hsite]; rfl⟩

namespace Complete

variable {d : Definition} {xs : List Source}

theorem fallibleOrigin_eq_none_iff (h : w.Complete c d xs) {t : TypeRef} {x : Source}
    (hx : w.Meets c t x) :
    (w.plan d xs).fallibleOrigin x = none ↔ x.isFallible = false := by
  constructor
  · intro hnone
    by_contra hfail
    obtain ⟨s, sources, hs, hfin, -⟩ := h.sound.meets hx
    have hk : ∀ s', c.Answers t s' → c.Grounded w.size s'.node := by
      intro s' hs'
      cases hs.unique hs'
      exact hfin.grounded
    have horigin : ∃ site, (w.plan d xs).originWithin w.size x = some site :=
      h.sound.exists_origin hx (by simpa using hfail) hk
    obtain ⟨site, hsite⟩ := horigin
    have heq : (w.plan d xs).fallibleOrigin x = some site := hsite
    rw [hnone] at heq
    cases heq
  · intro hfail
    unfold Plan.fallibleOrigin
    generalize (w.plan d xs).providers.size + (w.plan d xs).factories.size = k
    cases k <;> simp [Plan.originWithin, hfail]

/-- The check of the targets finds nothing exactly if no target that cannot fail has a
source that may. -/
theorem fallibleChain?_eq_none_iff (h : w.Complete c d xs) :
    (w.plan d xs).fallibleChain? = none ↔
      ∀ z ∈ (w.plan d xs).targets, z.target.isFallible = false → z.source.isFallible = false := by
  unfold Plan.fallibleChain?
  rw [List.findSome?_eq_none_iff]
  refine forall₂_congr fun z hz => ?_
  obtain ⟨t, -, rfl, hmet⟩ := exists_of_forall₂_right h.targets hz
  have horigin := h.fallibleOrigin_eq_none_iff hmet
  cases htarget : z.target.isFallible <;> cases hsource : z.source.isFallible <;>
    simp_all

end Complete

end Wired

end Wiring
