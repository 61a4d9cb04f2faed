import Wiring.Proofs.ArtifactTable

/-!
What emission reads. Of the universe it reads only which identities are interfaces, since these
are boxed. Of the definition it reads the identity, which the root shows, and the interface that
the component implements, but not the modules. The artifacts other than the component depend on
no more than the identity of the definition and the tables of providers and factories.
-/
namespace Wiring

open Naming Artifact

section Interfaces

variable {u v : Universe}

mutual

theorem TypeRef.pieces_congr (h : ∀ i, u.declaresInterface i = v.declaresInterface i)
    (t : TypeRef) : t.pieces u = t.pieces v := by
  cases t <;> simp [pieces, h, pieces_congr h, itemPieces_congr h]

theorem TypeRef.itemPieces_congr (h : ∀ i, u.declaresInterface i = v.declaresInterface i)
    (ts : List TypeRef) : itemPieces u ts = itemPieces v ts := by
  match ts with
  | [] => rfl
  | [t] => simp [itemPieces, pieces_congr h]
  | t :: t' :: ts => simp [itemPieces, pieces_congr h, itemPieces_congr h]

end

/-- Universes with the same interfaces have the same artifacts. -/
theorem ofPlan_congr (h : ∀ i, u.declaresInterface i = v.declaresInterface i)
    (component : String) (p : Plan) : ofPlan u component p = ofPlan v component p := by
  have haccessor : Routine.accessor u = Routine.accessor v := by
    funext visibility t
    simp [Routine.accessor, TypeRef.pieces_congr h]
  have hwrapper : Routine.wrapper u = Routine.wrapper v := by
    funext e
    simp [Routine.wrapper, TypeRef.pieces_congr h]
  have hprovider : ofProvider u component = ofProvider v component := by
    funext e
    simp [ofProvider, wrapperLines, hwrapper]
  simp [ofPlan, ofItems, ofComponent, componentLines, accessors, haccessor, hprovider]

theorem emit_congr (h : ∀ i, u.declaresInterface i = v.declaresInterface i)
    (component : String) (p : Plan) : emit u component p = emit v component p := by
  simp [emit, ofPlan_congr h]

end Interfaces

/-- The plan of a definition that lists the modules `ms` and is the same otherwise. -/
def Plan.relisted (p : Plan) (ms : List TypeRef) : Plan :=
  { p with definition := { p.definition with modules := ms } }

section Plans

variable (u : Universe) (component : String) {p p' : Plan}

/-- The modules that a definition lists are not written. -/
@[simp] theorem ofPlan_relisted (p : Plan) (ms : List TypeRef) :
    ofPlan u component (p.relisted ms) = ofPlan u component p :=
  rfl

@[simp] theorem emit_relisted (p : Plan) (ms : List TypeRef) :
    emit u component (p.relisted ms) = emit u component p :=
  rfl

/-- All artifacts but the component are those of another plan with the same identity, providers
and factories. -/
theorem find?_ofPlan_congr (hidentity : p.definition.identity = p'.definition.identity)
    (hproviders : p.providers = p'.providers) (hfactories : p.factories = p'.factories)
    {name : String} (hname : name ≠ componentName) :
    (ofPlan u component p).find? name = (ofPlan u component p').find? name := by
  have hitems : ∀ a : Artifact, a.name ≠ componentName →
      (a ∈ items u component p ↔ a ∈ items u component p') := by
    intro a ha
    have hcomponent : ∀ q, a ≠ ofComponent u component q := by
      rintro q rfl
      exact ha rfl
    simp [mem_items_iff, hcomponent, hproviders, hfactories]
  have hkeys : (ofPlan u component p).keys = (ofPlan u component p').keys :=
    Table.keys_ext fun k => by simp [mem_keys_ofPlan_iff, hproviders, hfactories]
  have hroot : root u component p = root u component p' := by
    simp only [root, ← filter_keys_ofPlan, hkeys, hidentity]
  ext a
  rw [Table.find?_eq_some_iff, Table.find?_eq_some_iff, mem_ofPlan_iff, mem_ofPlan_iff, hroot]
  refine and_congr_left fun hkey => or_congr_right (hitems a ?_)
  exact fun heq => hname (hkey.symm.trans heq)

end Plans

end Wiring
