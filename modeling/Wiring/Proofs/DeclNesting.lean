import Wiring.Proofs.JsonText
import Wiring.Proofs.Sequences
import Wiring.Universe.Decoding
import Wiring.Universe.Encoding

/-!
How deep the parts of a declaration are nested. A part may have been written in another way than
its own, in which it is as deep as in its own way or deeper; only the lists of a method may have
been left out. A part that has been read where there was room for it therefore has room there in
its own form.
-/
namespace Wiring

namespace Json

/-- The value of a tree that has room for `n` open arrays and objects. -/
def Settled (n : Nat) (v : Json) : Prop :=
  ∃ d : Draft, d.settle n = .ok v

theorem settled_of_settleItems {n : Nat} {ds : List Draft} {vs : List Json}
    (h : Draft.settleItems n ds = .ok vs) : ∀ v ∈ vs, Settled n v := by
  induction ds generalizing vs with
  | nil =>
    cases h
    nofun
  | cons d ds ih =>
    unfold Draft.settleItems at h
    obtain ⟨v, hv, h⟩ := bind_eq_ok_iff.mp h
    obtain ⟨ws, hws, h⟩ := bind_eq_ok_iff.mp h
    cases h
    exact List.forall_mem_cons.mpr ⟨⟨d, hv⟩, ih hws⟩

theorem settled_of_settleMembers {n : Nat} {ds : List (Quoted × Draft)}
    {ms : List (String × Json)} (h : Draft.settleMembers n ds = .ok ms) :
    ∀ m ∈ ms, Settled n m.2 := by
  induction ds generalizing ms with
  | nil =>
    cases h
    nofun
  | cons d ds ih =>
    obtain ⟨q, d⟩ := d
    unfold Draft.settleMembers at h
    obtain ⟨name, -, h⟩ := bind_eq_ok_iff.mp h
    obtain ⟨v, hv, h⟩ := bind_eq_ok_iff.mp h
    obtain ⟨ws, hws, h⟩ := bind_eq_ok_iff.mp h
    cases h
    exact List.forall_mem_cons.mpr ⟨⟨d, hv⟩, ih hws⟩

/-- What stands in an array or object has one less to open. -/
theorem Settled.inside {n : Nat} {v : Json} (h : Settled n v) :
    match v with
    | .array items => ∃ k, n = k + 1 ∧ ∀ w ∈ items, Settled k w
    | .object members => ∃ k, n = k + 1 ∧ ∀ m ∈ members, Settled k m.2
    | _ => True := by
  obtain ⟨d, hd⟩ := h
  unfold Draft.settle at hd
  split at hd
  · cases hd
    trivial
  · cases hd
    trivial
  · split at hd
    · cases hd
    · cases hd
      trivial
  · obtain ⟨s, -, rfl⟩ := map_eq_ok_iff.mp hd
    trivial
  · split at hd
    · cases hd
    · obtain ⟨vs, hvs, hd⟩ := bind_eq_ok_iff.mp hd
      obtain ⟨_, -, hd⟩ := bind_eq_ok_iff.mp hd
      cases hd
      exact ⟨_, rfl, settled_of_settleItems hvs⟩
  · split at hd
    · cases hd
    · obtain ⟨ms, hms, hd⟩ := bind_eq_ok_iff.mp hd
      obtain ⟨_, -, hd⟩ := bind_eq_ok_iff.mp hd
      cases hd
      exact ⟨_, rfl, settled_of_settleMembers hms⟩
  · cases hd

/-- The values of fields stand in the record. -/
theorem mem_of_fields? {names : List String} {v : Json} {vs : List (Option Json)}
    (h : v.fields? names = some vs) :
    (∃ items, v = .array items ∧ ∀ w, some w ∈ vs → w ∈ items) ∨
      ∃ members, v = .object members ∧ ∀ w, some w ∈ vs → ∃ name, (name, w) ∈ members := by
  unfold fields? at h
  split at h
  · next members =>
    refine .inr ⟨members, rfl, fun w hw => ?_⟩
    obtain ⟨name, -, hname⟩ := exists_of_forall₂_right (mapM_eq_some_iff.mp h) hw
    split at hname
    · cases hname
    · next hvalues =>
      cases hname
      have hmem : w ∈ valuesOf name members := hvalues ▸ List.mem_cons_self
      obtain ⟨m, hm, rfl⟩ := List.mem_map.mp hmem
      exact ⟨m.1, (List.mem_filter.mp hm).1⟩
    · cases hname
  · next items =>
    split at h
    · cases h
      refine .inl ⟨items, rfl, fun w hw => ?_⟩
      simpa using hw
    · cases h
  · cases h

/-- The fields of a record have one less to open. -/
theorem Settled.fields {n : Nat} {names : List String} {v : Json} {vs : List (Option Json)}
    (hv : Settled n v) (h : v.fields? names = some vs) :
    ∃ k, n = k + 1 ∧ ∀ w, some w ∈ vs → Settled k w := by
  rcases mem_of_fields? h with ⟨items, rfl, hmem⟩ | ⟨members, rfl, hmem⟩
  · obtain ⟨k, hk, hin⟩ := hv.inside
    exact ⟨k, hk, fun w hw => hin w (hmem w hw)⟩
  · obtain ⟨k, hk, hin⟩ := hv.inside
    refine ⟨k, hk, fun w hw => ?_⟩
    obtain ⟨name, hname⟩ := hmem w hw
    exact hin _ hname

/-- What is read as a list is written as a list where there is room for one. -/
theorem plain_of_list? {α : Type} {read : Json → Option α} {toJson : α → Json} {n : Nat}
    {field : Option Json} {xs : List α} (h : list? read field = some xs)
    (hfield : ∀ w, field = some w → Settled (n + 1) w)
    (hitem : ∀ w x, read w = some x → Settled n w → Plain n (toJson x)) :
    Plain (n + 1) (.array (xs.map toJson)) := by
  refine .array fun w hw => ?_
  obtain ⟨x, hx, rfl⟩ := List.mem_map.mp hw
  unfold list? at h
  split at h
  · cases h
    cases hx
  · next items =>
    obtain ⟨u, hu, hread⟩ := exists_of_forall₂_right (mapM_eq_some_iff.mp h) hx
    obtain ⟨k, hk, hin⟩ := (hfield _ rfl).inside
    cases hk
    exact hitem u x hread (hin u hu)
  · cases h

end Json
section Nesting

open Json (Plain Settled)

variable {nested : Bool}

theorem Identity.plain_of_ofJson? {n : Nat} {v : Json} {i : Identity}
    (hread : ofJson? v = some i) (h : Settled n v) : Plain n i.toJson := by
  unfold ofJson? at hread
  split at hread
  · next hfields =>
    obtain ⟨k, rfl, -⟩ := h.fields hfields
    exact .object (by simp [Plain.string])
  · cases hread

/-- An object with a single member. -/
theorem Json.Plain.single {n : Nat} {name : String} {v : Json} (h : Plain n v) :
    Plain (n + 1) (.object [(name, v)]) :=
  .object fun _ hm => List.mem_singleton.mp hm ▸ h

-- A form is read from the value inside an object, and most forms read this value at once: the
-- measure counts the form as a step of its own.
mutual

theorem TypeRef.plain_of_ofJson? {n : Nat} {v : Json} {t : TypeRef}
    (hread : ofJson? nested v = some t) (h : Settled n v) : Plain n t.toJson := by
  unfold ofJson? at hread
  split at hread
  · cases hread
    rw [toJson]
    exact .string "error"
  · next form w =>
    obtain ⟨k, rfl, hinside⟩ := h.inside
    exact TypeRef.plain_of_ofForm? hread (hinside _ List.mem_cons_self)
  · cases hread
termination_by (sizeOf v, 0)

/-- The form of a reference is an object around what the reference holds. -/
theorem TypeRef.plain_of_ofForm? {n : Nat} {form : String} {v : Json} {t : TypeRef}
    (hread : ofForm? nested form v = some t) (h : Settled n v) : Plain (n + 1) t.toJson := by
  unfold ofForm? at hread
  split at hread
  · obtain ⟨i, hi, rfl⟩ := Option.map_eq_some_iff.mp hread
    rw [toJson]
    exact (Identity.plain_of_ofJson? hi h).single
  · obtain ⟨t, ht, rfl⟩ := Option.map_eq_some_iff.mp hread
    rw [toJson]
    exact (TypeRef.plain_of_ofJson? ht h).single
  · obtain ⟨t, ht, rfl⟩ := Option.map_eq_some_iff.mp hread
    rw [toJson]
    exact (TypeRef.plain_of_ofJson? ht h).single
  · split at hread
    · next k w =>
      split at hread
      · next k' w' hk hw =>
        cases hread
        obtain ⟨n, rfl, hinside⟩ := h.inside
        obtain ⟨hk', hw'⟩ := List.forall_mem_cons.mp hinside
        have hdomain := TypeRef.plain_of_ofJson? hk hk'
        have hvalue := TypeRef.plain_of_ofJson? hw (hw' w List.mem_cons_self)
        rw [toJson]
        refine Plain.single (.array ?_)
        simpa using ⟨hdomain, hvalue⟩
      · cases hread
    · cases hread
  · split at hread
    · next vs =>
      obtain ⟨ts, hts, rfl⟩ := Option.map_eq_some_iff.mp hread
      obtain ⟨n, rfl, hinside⟩ := h.inside
      rw [toJson]
      exact Plain.single (.array (TypeRef.plain_of_allOfJson? hts hinside))
    · cases hread
  · obtain ⟨name, -, rfl⟩ := Option.map_eq_some_iff.mp hread
    rw [toJson]
    exact Plain.single (.string name)
  · split at hread
    · cases hread
      rw [toJson]
      exact .string "error"
    · cases hread
  · cases hread
termination_by (sizeOf v, 1)

theorem TypeRef.plain_of_allOfJson? {n : Nat} {vs : List Json} {ts : List TypeRef}
    (hread : allOfJson? nested vs = some ts) (h : ∀ v ∈ vs, Settled n v) :
    ∀ w ∈ allToJson ts, Plain n w := by
  unfold allOfJson? at hread
  split at hread
  · cases hread
    rw [allToJson]
    nofun
  · next v vs =>
    split at hread
    · next t ts ht hts =>
      cases hread
      obtain ⟨hv, hvs⟩ := List.forall_mem_cons.mp h
      rw [allToJson]
      exact List.forall_mem_cons.mpr
        ⟨TypeRef.plain_of_ofJson? ht hv, TypeRef.plain_of_allOfJson? hts hvs⟩
    · cases hread
termination_by (sizeOf vs, 0)

end

theorem Param.plain_of_ofJson? {n : Nat} {v : Json} {p : Param}
    (hread : ofJson? nested v = some p) (h : Settled n v) : Plain n p.toJson := by
  unfold ofJson? at hread
  split at hread
  · next name type hfields =>
    obtain ⟨k, rfl, hinside⟩ := h.fields hfields
    obtain ⟨t, ht, heq⟩ := Option.bind_eq_some_iff.mp hread
    cases heq
    have htype : Plain k t.toJson := TypeRef.plain_of_ofJson? ht (hinside type (by simp))
    exact .object (by simp [Plain.string, htype])
  · cases hread

theorem Field.plain_of_ofJson? {n : Nat} {v : Json} {f : Field}
    (hread : ofJson? nested v = some f) (h : Settled n v) : Plain n f.toJson := by
  unfold ofJson? at hread
  split at hread
  · next name type visibility tag hfields =>
    obtain ⟨k, rfl, hinside⟩ := h.fields hfields
    obtain ⟨t, ht, hread⟩ := Option.bind_eq_some_iff.mp hread
    obtain ⟨vis, -, hread⟩ := Option.bind_eq_some_iff.mp hread
    obtain ⟨tag, -, heq⟩ := Option.bind_eq_some_iff.mp hread
    cases heq
    have htype : Plain k t.toJson := TypeRef.plain_of_ofJson? ht (hinside type (by simp))
    exact .object (by simp [Plain.string, htype])
  · cases hread

/-- The lists of a method are written even if they were left out. -/
theorem Method.plain_of_ofJson? {n : Nat} {v : Json} {m : Method}
    (hread : ofJson? nested v = some m) (h : Settled (n + 2) v) : Plain (n + 2) m.toJson := by
  unfold ofJson? at hread
  split at hread
  · next name visibility params results hfields =>
    obtain ⟨k, hk, hinside⟩ := h.fields hfields
    cases hk
    obtain ⟨vis, -, hread⟩ := Option.bind_eq_some_iff.mp hread
    obtain ⟨ps, hps, hread⟩ := Option.bind_eq_some_iff.mp hread
    obtain ⟨rs, hrs, heq⟩ := Option.bind_eq_some_iff.mp hread
    cases heq
    have hparams : Plain (n + 1) (.array (ps.map Param.toJson)) :=
      Json.plain_of_list? hps (fun w hw => hinside w (by simp [hw])) fun _ _ =>
        Param.plain_of_ofJson?
    have hresults : Plain (n + 1) (.array (rs.map TypeRef.toJson)) :=
      Json.plain_of_list? hrs (fun w hw => hinside w (by simp [hw])) fun _ _ =>
        TypeRef.plain_of_ofJson?
    exact .object (by simp [Plain.string, hparams, hresults])
  · cases hread

namespace Decl

/-- The members that tell the kind of a declaration are no deeper than those it was read from. -/
theorem plain_kindMembers {n : Nat} {name : KindName} {members : List (String × Json)}
    {kind : Kind} (hread : kindOf? name members = some kind)
    (h : ∀ m ∈ members, Settled (n + 3) m.2) : ∀ m ∈ kindMembers kind, Plain (n + 3) m.2 := by
  have hvalue : ∀ {names vs}, (Json.object members).fields? names = some vs →
      ∀ w, some w ∈ vs → Settled (n + 3) w := by
    intro names vs hfields w hw
    rcases Json.mem_of_fields? hfields with ⟨items, heq, -⟩ | ⟨_, heq, hmem⟩
    · cases heq
    · cases heq
      obtain ⟨name, hname⟩ := hmem w hw
      exact h _ hname
  have hmethods : ∀ {field ms}, Json.list? (Method.ofJson? true) field = some ms →
      (∀ w, field = some w → Settled (n + 3) w) →
      Plain (n + 3) (.array (ms.map Method.toJson)) :=
    fun hms hfield => Json.plain_of_list? hms hfield fun _ _ => Method.plain_of_ofJson?
  unfold kindOf? at hread
  split at hread
  · split at hread
    · next fs ms hfields =>
      obtain ⟨fs', hfs, hread⟩ := Option.bind_eq_some_iff.mp hread
      obtain ⟨ms', hms, heq⟩ := Option.bind_eq_some_iff.mp hread
      cases heq
      have hfs' : Plain (n + 3) (.array (fs'.map Field.toJson)) :=
        Json.plain_of_list? hfs (fun w hw => hvalue hfields w (by simp [hw])) fun _ _ =>
          Field.plain_of_ofJson?
      have hms' := hmethods hms fun w hw => hvalue hfields w (by simp [hw])
      simp [kindMembers, Plain.string, hfs', hms']
    · cases hread
  · split at hread
    · next ms hfields =>
      obtain ⟨ms', hms, rfl⟩ := Option.map_eq_some_iff.mp hread
      have hms' := hmethods hms fun w hw => hvalue hfields w (by simp [hw])
      simp [kindMembers, Plain.string, hms']
    · cases hread
  · split at hread
    · next ms hfields =>
      obtain ⟨ms', hms, rfl⟩ := Option.map_eq_some_iff.mp hread
      have hms' := hmethods hms fun w hw => hvalue hfields w (by simp [hw])
      simp [kindMembers, Plain.string, hms']
    · cases hread

end Decl

end Nesting

end Wiring
