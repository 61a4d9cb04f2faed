import Wiring.Proofs.Sequences
import Wiring.Universe.Decoding
import Wiring.Universe.Encoding

/-!
The parts of a declaration as JSON values: what is written for a part is read back as the part.
-/
namespace Wiring

section ReadBack

variable (nested : Bool)

theorem Identity.ofJson?_toJson (i : Identity) : ofJson? i.toJson = some i := by
  simp [toJson, ofJson?, Json.fields?, Json.valuesOf]

mutual

theorem TypeRef.ofJson?_toJson (t : TypeRef) : ofJson? nested t.toJson = some t := by
  cases t with
  | named i => simp [toJson, ofJson?, ofForm?, Identity.ofJson?_toJson]
  | pointer t => simp [toJson, ofJson?, ofForm?, TypeRef.ofJson?_toJson t]
  | slice t => simp [toJson, ofJson?, ofForm?, TypeRef.ofJson?_toJson t]
  | map k v =>
    simp [toJson, ofJson?, ofForm?, TypeRef.ofJson?_toJson k, TypeRef.ofJson?_toJson v]
  | tuple ts => simp [toJson, ofJson?, ofForm?, TypeRef.allOfJson?_allToJson ts]
  | builtin n => simp [toJson, ofJson?, ofForm?, Json.string?]
  | error => simp [toJson, ofJson?]

theorem TypeRef.allOfJson?_allToJson (ts : List TypeRef) :
    allOfJson? nested (allToJson ts) = some ts := by
  cases ts with
  | nil => simp [allToJson, allOfJson?]
  | cons t ts =>
    simp [allToJson, allOfJson?, TypeRef.ofJson?_toJson t, TypeRef.allOfJson?_allToJson ts]

end

theorem Visibility.ofName?_name (v : Visibility) : ofName? v.name = some v := by
  cases v <;> rfl

theorem FieldTag.ofName?_name (t : FieldTag) : ofName? t.name = some t := by
  cases t <;> rfl

theorem Visibility.ofField?_name (v : Visibility) :
    ofField? nested (some (.string v.name)) = some v := by
  simp [ofField?, Json.constantOr?, Json.constant?, ofName?_name]

theorem Param.ofJson?_toJson (p : Param) : ofJson? nested p.toJson = some p := by
  simp [toJson, ofJson?, Json.fields?, Json.valuesOf, TypeRef.ofJson?_toJson]

theorem Field.ofJson?_toJson (f : Field) : ofJson? nested f.toJson = some f := by
  simp [toJson, ofJson?, Json.fields?, Json.valuesOf, TypeRef.ofJson?_toJson,
    Visibility.ofField?_name, Json.constantOr?, Json.constant?, FieldTag.ofName?_name]

theorem Method.ofJson?_toJson (m : Method) : ofJson? nested m.toJson = some m := by
  have hparams : (m.params.map Param.toJson).mapM (Param.ofJson? nested) = some m.params :=
    mapM_map_eq_some fun p _ => Param.ofJson?_toJson nested p
  have hresults : (m.results.map TypeRef.toJson).mapM (TypeRef.ofJson? nested) =
      some m.results := mapM_map_eq_some fun t _ => TypeRef.ofJson?_toJson nested t
  simp [toJson, ofJson?, Json.fields?, Json.valuesOf, Visibility.ofField?_name, Json.list?,
    hparams, hresults]

end ReadBack

end Wiring
