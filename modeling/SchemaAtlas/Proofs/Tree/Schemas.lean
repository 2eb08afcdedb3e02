import SchemaAtlas.Proofs.FieldType.Flat
import SchemaAtlas.Proofs.Tree.Building

/-!
# Declared schemas

The schemas of the documents of a tree consist of declared types. All of these are flat, and none is a
union without members, at whatever path below a schema it is found.
-/
namespace SchemaAtlas

namespace Schema

/-- Every field has a type that some value declares. -/
def Declared (s : Schema) : Prop := ∀ field ∈ s.fields, ∃ v : Value, v.declaredType = .ok field.2

theorem Declared.empty : Declared empty := nofun

theorem Declared.restrictedTo {s : Schema} (hs : s.Declared) (names : List String) :
    (s.restrictedTo names).Declared :=
  fun field hfield => hs field (List.mem_of_mem_filter hfield)

/-- No union among the declared types has another union, or `any`, among its alternatives. -/
theorem Declared.flat {s : Schema} (hs : s.Declared) {path : String} {t : FieldType}
    (h : s.fieldAt? path = some t) : t.Flat := by
  refine flat_of_fieldAt? (fun field hfield => ?_) h
  obtain ⟨v, hv⟩ := hs field hfield
  exact v.flat_of_declaredType hv

/-- Whatever is found below a declared type has an alternative. -/
theorem members_ne_nil_of_descend {v : Value} {t found : FieldType} {names : List String}
    (ht : v.declaredType = .ok t) (h : descend t names = some found) : found.members ≠ [] := by
  refine Value.holds_of_declaredType
    (P := fun t => ∀ names found, descend t names = some found → found.members ≠ [])
    (fun {_ t} hparse names found h => ?_) (fun entries hentries names found h => ?_) v ht names
    found h
  · cases names with
    | nil =>
      obtain rfl := Option.some.inj h
      exact (FieldType.written_of_parse hparse).members_ne_nil
    | cons name rest =>
      rw [descend_cons_of_parse hparse] at h
      cases h
  · cases names with
    | nil =>
      obtain rfl := Option.some.inj h
      exact List.cons_ne_nil _ _
    | cons name rest =>
      rw [descend] at h
      split at h
      · rename_i next hnext
        exact hentries _ (Fields.mem_of_mem_ofList (mem_of_lookup hnext)) rest found h
      · cases h

theorem Declared.members_ne_nil {s : Schema} (hs : s.Declared) {path : String} {t : FieldType}
    (h : s.fieldAt? path = some t) : t.members ≠ [] := by
  unfold fieldAt? at h
  split at h
  · rename_i found hfound
    obtain ⟨v, hv⟩ := hs _ (mem_of_lookup hfound)
    have hself : descend found [] = some t := h
    exact members_ne_nil_of_descend hv hself
  · split at h
    · cases h
    · cases h
    · split at h
      · rename_i next hnext
        obtain ⟨v, hv⟩ := hs _ (mem_of_lookup hnext)
        exact members_ne_nil_of_descend hv h
      · cases h

end Schema

namespace Declaration

variable {g : Graph} {keys : ReservedKeys} {location : List String}

theorem declared_schemaFields {entries : List (Value × Part)} {fields : List (String × FieldType)}
    (h : schemaFields g location entries = .ok fields) :
    ∀ field ∈ fields, ∃ v : Value, v.declaredType = .ok field.2 := by
  induction entries generalizing fields with
  | nil =>
    obtain rfl := Except.ok.inj h
    exact fun _ hfield => absurd hfield List.not_mem_nil
  | cons entry rest ih =>
    obtain ⟨key, part⟩ := entry
    unfold schemaFields at h
    split at h
    · split at h
      · cases h
      · split at h
        · cases h
        · rename_i type htype
          obtain ⟨others, hrest, rfl⟩ := exists_of_map_eq_ok h
          exact List.forall_mem_cons.2 ⟨⟨_, htype⟩, ih hrest⟩
    · cases h

theorem declared_schemaOf {entries : List (Value × Part)} {schema : Schema}
    (h : schemaOf g keys location entries = .ok schema) : schema.Declared := by
  unfold schemaOf at h
  split at h
  · obtain rfl := Except.ok.inj h
    exact .empty
  · split at h
    · obtain rfl := Except.ok.inj h
      exact .empty
    · split at h
      · cases h
      · obtain ⟨fields, hfields, rfl⟩ := exists_of_map_eq_ok h
        exact fun field hfield =>
          declared_schemaFields hfields field (Fields.mem_of_mem_ofList hfield)

end Declaration

namespace SchemaTree

variable {g : Graph} {keys : ReservedKeys} {t : SchemaTree}

/-- The documents of a tree that a graph declares have declared schemas. -/
theorem declared_document (h : ofGraph g keys = .ok t) (ref : DocumentRef) :
    (t.document ref).schema.Declared := by
  obtain ⟨entries, p, -, rfl, hinvariant, -⟩ := Declaration.ofGraph_eq_ok h
  cases ref with
  | root => exact .empty
  | blank collection key => exact .empty
  | declared id =>
    show ((p.documents.lookup id).getD Document.empty).schema.Declared
    cases hlookup : p.documents.lookup id with
    | none => exact .empty
    | some d =>
      obtain ⟨_, _, _, -, hschema, rfl⟩ :=
        hinvariant.faithful.documents id d (mem_of_lookup hlookup)
      exact Declaration.declared_schemaOf hschema

end SchemaTree
end SchemaAtlas
