import SchemaAtlas.Files.Tree
import SchemaAtlas.Proofs.Tree.Inventory
import SchemaAtlas.Proofs.Workbook.Cells
import SchemaAtlas.Workbook.Export

/-!
# Inventories that are refused

A control character anywhere in an inventory keeps its workbook from being written: in the way to a
collection, in the label of a document, in a field or its type, or in the name of a group, which is
all that the inventory says of a collection without documents. All texts are put into cells before
anything is asked of the files, so the files stay as they are.
-/
namespace SchemaAtlas

namespace Cell

/-- There is a control character in the text, wherever it stands. -/
def HasControl (content : String) : Prop := ∃ c ∈ content.toList, isControl c = true

instance (content : String) : Decidable (HasControl content) :=
  decidable_of_iff (content.toList.any isControl = true) List.any_eq_true

/-- The text is refused just if there is a control character in it. -/
def Discerns (fill : Filler) (content : String) : Prop := Refused fill content ↔ HasControl content

/-- Nothing is cut off a short text, so nothing in it goes unseen. -/
theorem discerns_of_length_le {content : String} (h : content.length ≤ textLimit) :
    Discerns ofText content := by
  have hwhole : content.toList.take textLimit = content.toList :=
    List.take_of_length_le (String.length_toList ▸ h)
  rw [Discerns, HasControl, ← List.any_eq_true, Refused, ofText, hwhole]
  by_cases hcontrol : content.toList.any isControl = true
  · rw [if_pos hcontrol]
    exact iff_of_true ⟨_, rfl⟩ hcontrol
  · rw [if_neg hcontrol]
    refine iff_of_false ?_ hcontrol
    rintro ⟨e, he⟩
    cases he

theorem hasControl_joinWith {separator : String} (hseparator : ¬ HasControl separator)
    {parts : List String} :
    HasControl (Text.joinWith separator parts) ↔ ∃ part ∈ parts, HasControl part := by
  have hnot : ∀ c, isControl c = true → c ∉ separator.toList :=
    fun c hcontrol hc => hseparator ⟨c, hc, hcontrol⟩
  constructor
  · rintro ⟨c, hc, hcontrol⟩
    obtain ⟨part, hpart, hmem⟩ := (Text.mem_joinWith (hnot c hcontrol)).1 hc
    exact ⟨part, hpart, c, hmem, hcontrol⟩
  · rintro ⟨part, hpart, c, hmem, hcontrol⟩
    exact ⟨c, (Text.mem_joinWith (hnot c hcontrol)).2 ⟨part, hpart, hmem⟩, hcontrol⟩

end Cell

namespace SchemaTree

/--
What the inventory of a tree names: every collection that can be reached, as a group, and of those
with documents the listed way to them, the labels of the documents, and their fields with the types.
-/
def Mentions (t : SchemaTree) (text : String) : Prop :=
  ∃ edge ∈ t.reachableCollections, text = edge.name ∨
    ∃ entry ∈ t.documentsOf edge.collection, text = joinPath edge.keys ∨ text = entry.1 ∨
      ∃ field ∈ entry.2.schema.fields, text = field.1 ∨ text = field.2.render

variable {t : SchemaTree} {text : String}

/-! ### Where the texts stand -/

theorem mem_rowTexts {row : InventoryRow} :
    some text ∈ Workbook.rowTexts row ↔ text = row.collectionPath ∨ text = row.documentKey ∨
      ∃ field, row.field = some field ∧ (text = field.1 ∨ text = field.2.render) := by
  obtain ⟨path, label, field⟩ := row
  cases field with
  | none => simp [Workbook.rowTexts, InventoryRow.fieldName, InventoryRow.typeText]
  | some field => simp [Workbook.rowTexts, InventoryRow.fieldName, InventoryRow.typeText]

/-- The rows of a document show its fields, and its place even if it has none. -/
theorem exists_mem_rowFields {path label : String} {fields : List (String × FieldType)} :
    (∃ content ∈ rowFields fields, some text ∈ Workbook.rowTexts ⟨path, label, content⟩) ↔
      text = path ∨ text = label ∨ ∃ field ∈ fields, text = field.1 ∨ text = field.2.render := by
  simp only [mem_rowTexts]
  cases fields with
  | nil => simp [rowFields]
  | cons first fields =>
    have hfields : rowFields (first :: fields) = (first :: fields).map some := rfl
    simp only [hfields, List.mem_map, exists_exists_and_eq_and, Option.some.injEq, exists_eq_left']
    constructor
    · rintro ⟨field, hfield, hpath | hlabel | h⟩
      · exact .inl hpath
      · exact .inr (.inl hlabel)
      · exact .inr (.inr ⟨field, hfield, h⟩)
    · rintro (hpath | hlabel | ⟨field, hfield, h⟩)
      · exact ⟨first, List.mem_cons_self, .inl hpath⟩
      · exact ⟨first, List.mem_cons_self, .inr (.inl hlabel)⟩
      · exact ⟨field, hfield, .inr (.inr h)⟩

theorem exists_mem_inventoryRows :
    (∃ row ∈ t.inventoryRows, some text ∈ Workbook.rowTexts row) ↔
      ∃ edge ∈ t.reachableCollections, ∃ entry ∈ t.documentsOf edge.collection,
        text = joinPath edge.keys ∨ text = entry.1 ∨
          ∃ field ∈ entry.2.schema.fields, text = field.1 ∨ text = field.2.render := by
  simp only [← exists_mem_rowFields, inventoryRows, rows_ofDocument]
  constructor
  · rintro ⟨row, hrow, htext⟩
    obtain ⟨edge, hedge, hrow⟩ := List.mem_flatMap.1 hrow
    obtain ⟨entry, hentry, hrow⟩ := List.mem_flatMap.1 hrow
    obtain ⟨content, hcontent, rfl⟩ := List.mem_map.1 hrow
    exact ⟨edge, hedge, entry, hentry, content, hcontent, htext⟩
  · rintro ⟨edge, hedge, entry, hentry, content, hcontent, htext⟩
    refine ⟨_, List.mem_flatMap.2 ⟨edge, hedge, List.mem_flatMap.2 ⟨entry, hentry, ?_⟩⟩, htext⟩
    exact List.mem_map_of_mem hcontent

/-- What is mentioned stands in a row, or it is the name of a group. -/
theorem mentions_iff :
    t.Mentions text ↔ text ∈ t.inventorySummary.groupNames ∨
      ∃ row ∈ t.inventoryRows, some text ∈ Workbook.rowTexts row := by
  rw [exists_mem_inventoryRows, mem_groupNames, Mentions]
  simp only [and_or_left, exists_or, eq_comm]

theorem not_hasControl_of_heading (h : some text ∈ Workbook.headingTexts.flatten) :
    ¬ Cell.HasControl text := by
  have hheadings : ∀ content ∈ Workbook.headingTexts.flatten,
      ∀ text ∈ content, ¬ Cell.HasControl text := by decide
  exact hheadings (some text) h text rfl

/-- There is a control character on the second sheet if there is one in the name of a group. -/
theorem exists_summaryText_iff {summary : InventorySummary} :
    (∃ text, some text ∈ Workbook.summaryTexts summary ∧ Cell.HasControl text) ↔
      ∃ name ∈ summary.groupNames, Cell.HasControl name := by
  have hseparator : ¬ Cell.HasControl ", " := by decide
  have hcollections : ¬ Cell.HasControl "collection_count" := by decide
  have hdocuments : ¬ Cell.HasControl "document_count" := by decide
  have hgroups : ¬ Cell.HasControl "collection_group_names" := by decide
  simp only [Workbook.summaryTexts, Workbook.namesText, List.mem_cons, List.not_mem_nil, or_false,
    Option.some.injEq, or_and_right, exists_or, exists_eq_left, hcollections, hdocuments, hgroups,
    false_or, Cell.hasControl_joinWith hseparator]

/--
The headings are free of control characters, and the names of the groups share a cell, in which
nothing but blanks and commas is added to them.
-/
theorem exists_cellText_iff :
    (∃ text, some text ∈ Workbook.cellTexts t ∧ Cell.HasControl text) ↔
      ∃ text, t.Mentions text ∧ Cell.HasControl text := by
  have hheading (text : String) :
      ¬ (some text ∈ Workbook.headingTexts.flatten ∧ Cell.HasControl text) :=
    fun h => not_hasControl_of_heading h.1 h.2
  simp only [Workbook.cellTexts, Workbook.rowsTexts, mentions_iff, List.mem_append,
    List.mem_flatMap, or_and_right, exists_or, hheading, false_or,
    exists_summaryText_iff]
  exact or_comm

/-! ### What becomes of the files -/

section Writing

variable {m : Type → Type} [Monad m] {σ : Type} {path : FilePath} {e : CellError}
  {workbook : Workbook} {fill : Cell.Filler}

/-- Whatever the files are, nothing is asked of them. -/
theorem writeInventory_of_error (fs : FileSystem m) (h : Workbook.ofTree t fill = .error e) :
    t.writeInventory fs path fill = throw (.cell e) := by
  rw [writeInventory, h]

theorem writeInventory_of_ok (fs : FileSystem m) (h : Workbook.ofTree t fill = .ok workbook) :
    t.writeInventory fs path fill = (writeWorkbook fs workbook path).adapt .file := by
  rw [writeInventory, h]

variable (fs : FileSystem (StateM σ)) (s : σ)

theorem run_writeInventory_of_error (h : Workbook.ofTree t fill = .error e) :
    (t.writeInventory fs path fill).run.run s = (.error (.cell e), s) := by
  rw [writeInventory_of_error fs h]
  rfl

theorem run_writeInventory_of_ok (h : Workbook.ofTree t fill = .ok workbook) :
    ((t.writeInventory fs path fill).run.run s).1 =
      ((writeWorkbook fs workbook path).run.run s).1.mapError .file := by
  rw [writeInventory_of_ok fs h]
  rfl

/-- It is for a cell only that an inventory is refused before it is written. -/
theorem run_writeInventory_eq_cell_iff :
    ((t.writeInventory fs path fill).run.run s).1 = .error (.cell e) ↔
      Workbook.ofTree t fill = .error e := by
  cases h : Workbook.ofTree t fill with
  | error other =>
    rw [run_writeInventory_of_error fs s h]
    simp
  | ok workbook =>
    refine ⟨fun hrun => ?_, nofun⟩
    rw [run_writeInventory_of_ok fs s h] at hrun
    obtain ⟨fault, -, hfault⟩ := exists_of_mapError_eq_error hrun
    cases hfault

/-- An inventory that fits into its cells fails only as its workbook does when that is written. -/
theorem run_writeInventory_eq_file_iff {fault : FileError} :
    ((t.writeInventory fs path fill).run.run s).1 = .error (.file fault) ↔
      ∃ workbook, Workbook.ofTree t fill = .ok workbook ∧
        ((writeWorkbook fs workbook path).run.run s).1 = .error fault := by
  cases h : Workbook.ofTree t fill with
  | error e =>
    rw [run_writeInventory_of_error fs s h]
    exact ⟨nofun, nofun⟩
  | ok workbook =>
    rw [run_writeInventory_of_ok fs s h]
    constructor
    · intro hrun
      obtain ⟨e, he, hfault⟩ := exists_of_mapError_eq_error hrun
      cases hfault
      exact ⟨workbook, rfl, he⟩
    · rintro ⟨_, hworkbook, hwrite⟩
      cases hworkbook
      exact congrArg (Except.mapError ExportError.file) hwrite

end Writing

/--
An inventory is refused for a cell just if it mentions a text with a control character, wherever the
workbook is to be written, provided that each text put into a cell is refused just for such a
character. Once it is refused, nothing has been asked of any files, and these are what they were.
-/
theorem writeInventory_refused_iff (t : SchemaTree) (path : FilePath) (fill : Cell.Filler)
    {σ : Type} (fs : FileSystem (StateM σ)) (s : σ) :
    ((∀ text, some text ∈ Workbook.cellTexts t → Cell.Discerns fill text) →
      ((∃ e, ((t.writeInventory fs path fill).run.run s).1 = .error (.cell e)) ↔
        ∃ text, t.Mentions text ∧ Cell.HasControl text)) ∧
      ∀ e, ((t.writeInventory fs path fill).run.run s).1 = .error (.cell e) →
        ((t.writeInventory fs path fill).run.run s).2 = s ∧
          ∀ {m : Type → Type} [Monad m] (fs : FileSystem m),
            t.writeInventory fs path fill = throw (.cell e) := by
  constructor
  · intro hcells
    calc
      _ ↔ ∃ e, Workbook.ofTree t fill = .error e :=
        exists_congr fun e => run_writeInventory_eq_cell_iff fs s
      _ ↔ ∃ text, some text ∈ Workbook.cellTexts t ∧ Cell.Refused fill text :=
        Workbook.exists_ofTree_eq_error_iff
      _ ↔ ∃ text, some text ∈ Workbook.cellTexts t ∧ Cell.HasControl text :=
        exists_congr fun text => and_congr_right fun htext => hcells text htext
      _ ↔ ∃ text, t.Mentions text ∧ Cell.HasControl text := exists_cellText_iff
  · intro e h
    have hworkbook := (run_writeInventory_eq_cell_iff fs s).1 h
    refine ⟨congrArg Prod.snd (run_writeInventory_of_error fs s hworkbook), fun fs => ?_⟩
    exact writeInventory_of_error fs hworkbook

/-- Users, and a trail of theirs without documents, with an escape character in its name. -/
def trailTree : SchemaTree where
  collections := [(1, ⟨[("*", .declared 2)], some "*"⟩), (3, Collection.empty)]
  documents := [(2, ⟨Schema.ofList [("name", .primitive .string)], [("trail\x1b", 3)]⟩)]
  root := ⟨Schema.empty, [("users", 1)]⟩

/-- The trail has no row, and only the names of the groups tell of it. -/
theorem writeInventory_refused_iff_trail :
    (∀ text, some text ∈ Workbook.cellTexts trailTree → Cell.Discerns Cell.ofText text) ∧
      ∃ e, (trailTree.writeInventory FileTree.system ⟨"/", ["out", "inventory.xlsx"]⟩).run.run
        ⟨[], []⟩ = (.error (.cell e), ⟨[], []⟩) := by
  have hlisted : trailTree.reachableCollections =
      [⟨["users"], "users", 1⟩, ⟨["users", "\x7bid\x7d", "trail\x1b"], "trail\x1b", 3⟩] := by
    rw [(reachableCollections_eq_expanded (Nat.lt_succ_self _)).2]
    rfl
  have htexts : Workbook.cellTexts trailTree = Workbook.headingTexts.flatten ++
      [some "users", some "\x7bid\x7d", some "name", some "string", some "collection_count",
        some "document_count", some "collection_group_names", some "trail\x1b, users"] := by
    rw [Workbook.cellTexts, inventoryRows, inventorySummary, hlisted]
    decide +kernel
  have hcells : ∀ text, some text ∈ Workbook.cellTexts trailTree →
      Cell.Discerns Cell.ofText text := by
    intro text htext
    have hshort : ∀ content ∈ Workbook.cellTexts trailTree,
        ∀ text ∈ content, text.length ≤ Cell.textLimit := by
      rw [htexts]
      decide
    exact Cell.discerns_of_length_le (hshort (some text) htext text rfl)
  have hmentions : trailTree.Mentions "trail\x1b" :=
    ⟨_, hlisted ▸ List.mem_cons_of_mem _ (List.mem_singleton_self _), .inl rfl⟩
  have h := writeInventory_refused_iff trailTree ⟨"/", ["out", "inventory.xlsx"]⟩ Cell.ofText
    FileTree.system ⟨[], []⟩
  obtain ⟨e, he⟩ := (h.1 hcells).2 ⟨"trail\x1b", hmentions, by decide⟩
  exact ⟨hcells, e, Prod.ext he (h.2 e he).1⟩

end SchemaTree
end SchemaAtlas
