import SchemaAtlas.FieldType.Basic

/-!
# Field lists

What a list of fields holds once entries were put into it one after the other: nothing but these
entries, and under every name the last of them. The names stand in ascending order, each of them once.
-/
namespace SchemaAtlas.Fields

theorem lookup_cons_of_ne {name other : String} (h : other ≠ name) (type : FieldType)
    (fields : Fields) : List.lookup other ((name, type) :: fields) = fields.lookup other := by
  rw [List.lookup_cons, beq_false_of_ne h]

theorem lookup_put (fields : Fields) (name other : String) (type : FieldType) :
    (put fields name type).lookup other =
      if other = name then some type else fields.lookup other := by
  by_cases h : other = name
  · subst h
    rw [if_pos rfl]
    induction fields with
    | nil => exact List.lookup_cons_self
    | cons field rest ih =>
      rw [put]
      split
      · exact List.lookup_cons_self
      · rename_i hname
        split
        · exact List.lookup_cons_self
        · rw [lookup_cons_of_ne hname, ih]
  · rw [if_neg h]
    induction fields with
    | nil => exact lookup_cons_of_ne h type []
    | cons field rest ih =>
      obtain ⟨first, former⟩ := field
      rw [put]
      split
      · rename_i hname
        rw [lookup_cons_of_ne h, lookup_cons_of_ne (hname ▸ h)]
      · split
        · exact lookup_cons_of_ne h type _
        · rw [List.lookup_cons, List.lookup_cons, ih]

theorem mem_put {fields : Fields} {name : String} {type : FieldType} {field : String × FieldType}
    (h : field ∈ put fields name type) : field = (name, type) ∨ field ∈ fields := by
  induction fields with
  | nil => exact .inl (List.mem_singleton.1 h)
  | cons head rest ih =>
    rw [put] at h
    split at h
    · rcases List.mem_cons.1 h with rfl | h
      · exact .inl rfl
      · exact .inr (List.mem_cons_of_mem _ h)
    · split at h
      · exact List.mem_cons.1 h
      · rcases List.mem_cons.1 h with rfl | h
        · exact .inr List.mem_cons_self
        · exact (ih h).imp_right (List.mem_cons_of_mem _)

theorem mem_of_mem_ofList {entries : List (String × FieldType)} {field : String × FieldType}
    (h : field ∈ ofList entries) : field ∈ entries := by
  have hfold : ∀ fields : Fields,
      field ∈ entries.foldl (fun fields entry => put fields entry.1 entry.2) fields →
        field ∈ fields ∨ field ∈ entries := by
    clear h
    induction entries with
    | nil => exact fun fields h => .inl h
    | cons entry entries ih =>
      intro fields h
      rcases ih _ h with h | h
      · rcases mem_put h with rfl | h
        · exact .inr List.mem_cons_self
        · exact .inl h
      · exact .inr (List.mem_cons_of_mem _ h)
  exact (hfold [] h).resolve_left List.not_mem_nil

/-- Entries of other names do not change what is found under a name. -/
theorem lookup_foldl_put_of_not_mem {entries : List (String × FieldType)} {name : String}
    (h : name ∉ entries.map (·.1)) (fields : Fields) :
    (entries.foldl (fun fields entry => put fields entry.1 entry.2) fields).lookup name =
      fields.lookup name := by
  induction entries generalizing fields with
  | nil => rfl
  | cons entry entries ih =>
    rw [List.map_cons, List.mem_cons, not_or] at h
    rw [List.foldl_cons, ih h.2, lookup_put, if_neg h.1]

/-- Among distinct names every entry is found. -/
theorem lookup_ofList {entries : List (String × FieldType)} {name : String} {type : FieldType}
    (hdistinct : (entries.map (·.1)).Nodup) (h : (name, type) ∈ entries) :
    (ofList entries).lookup name = some type := by
  obtain ⟨before, after, rfl⟩ := List.append_of_mem h
  rw [List.map_append, List.map_cons, List.nodup_append, List.nodup_cons] at hdistinct
  rw [ofList, List.foldl_append, List.foldl_cons,
    lookup_foldl_put_of_not_mem hdistinct.2.1.1, lookup_put, if_pos rfl]

/-- The names of the fields are kept like any ascending texts. -/
theorem names_put (fields : Fields) (name : String) (type : FieldType) :
    (put fields name type).names = insertText name fields.names := by
  unfold names
  induction fields with
  | nil => rfl
  | cons field rest ih =>
    rw [put, List.map_cons, insertText]
    split
    · rename_i hname
      rw [List.map_cons, hname]
    · split
      · rw [List.map_cons, List.map_cons]
      · rw [List.map_cons, ih]

theorem names_ofList (entries : List (String × FieldType)) :
    (ofList entries).names = sortedDistinct (entries.map (·.1)) := by
  have hfold : ∀ fields : Fields,
      (entries.foldl (fun fields entry => put fields entry.1 entry.2) fields).names =
        (entries.map (·.1)).foldl (fun sorted text => insertText text sorted) fields.names := by
    induction entries with
    | nil => exact fun fields => rfl
    | cons entry entries ih =>
      intro fields
      rw [List.foldl_cons, ih, names_put, List.map_cons, List.foldl_cons]
  exact hfold []

end SchemaAtlas.Fields
