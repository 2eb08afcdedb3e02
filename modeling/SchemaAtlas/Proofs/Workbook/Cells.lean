import SchemaAtlas.Proofs.Except
import SchemaAtlas.Workbook.Inventory

/-!
# Texts in cells

The texts of an inventory come into the workbook row by row, below the headings, and its names of
collection groups as one text behind them. Whatever decides on texts that do not fit into a cell, the
first one of them is the one that is reported.
-/
namespace SchemaAtlas

namespace Cell

variable {fill : Filler}

/-- The text is not put into a cell. -/
def Refused (fill : Filler) (content : String) : Prop := ∃ e, fill content = .error e

/-- There is a text, and it is not put into a cell. -/
def Refused? (fill : Filler) (content : Option String) : Prop :=
  ∃ text, content = some text ∧ Refused fill text

theorem fillWith_eq_error_iff {content : Option String} {e : CellError} :
    fillWith fill content = .error e ↔ ∃ text, content = some text ∧ fill text = .error e := by
  cases content with
  | none => exact ⟨nofun, fun h => nomatch h.choose_spec.1⟩
  | some text => simp only [fillWith, Option.some.injEq, exists_eq_left']

theorem exists_fillWith_eq_error_iff {content : Option String} :
    (∃ e, fillWith fill content = .error e) ↔ Refused? fill content := by
  simp only [fillWith_eq_error_iff, Refused?, Refused]
  constructor
  · rintro ⟨e, text, rfl, htext⟩
    exact ⟨text, rfl, e, htext⟩
  · rintro ⟨text, rfl, e, htext⟩
    exact ⟨e, text, rfl, htext⟩

theorem mapM_fillWith_eq_error_iff {contents : List (Option String)} {e : CellError} :
    contents.mapM (fillWith fill) = .error e ↔
      ∃ text, FirstWith (Refused? fill) contents (some text) ∧ fill text = .error e := by
  have hrefused : (fun content => ∃ e, fillWith fill content = .error e) = Refused? fill :=
    funext fun content => propext exists_fillWith_eq_error_iff
  rw [mapM_eq_error_iff, hrefused]
  constructor
  · rintro ⟨content, hfirst, h⟩
    obtain ⟨text, rfl, h⟩ := fillWith_eq_error_iff.1 h
    exact ⟨text, hfirst, h⟩
  · rintro ⟨text, hfirst, h⟩
    exact ⟨_, hfirst, fillWith_eq_error_iff.2 ⟨text, rfl, h⟩⟩

end Cell

namespace Workbook

variable {ε α β : Type} {fill : Cell.Filler}

theorem sameErrors_mapM_flatten (rows : List (List α)) (f : α → Except ε β) :
    SameErrors (rows.mapM fun row : List α => row.mapM f) (rows.flatten.mapM f) := by
  induction rows with
  | nil => exact sameErrors_ok _ _
  | cons row rows ih =>
    rw [List.flatten_cons, List.mapM_append, List.mapM_cons]
    cases row.mapM f with
    | error e => exact sameErrors_error e
    | ok cells => exact ih.bind fun _ _ => sameErrors_ok _ _

/-- What is done with the first of several results does not keep the others from being looked at. -/
theorem sameErrors_mapM_cons {γ : Type} {f : α → Except ε β} {g : β → Except ε γ} (a : α)
    {l : List α} (h : ∀ b, SameErrors (g b) (l.mapM f)) :
    SameErrors (f a >>= g) ((a :: l).mapM f) := by
  rw [List.mapM_cons]
  cases f a with
  | error e => exact sameErrors_error e
  | ok b => exact (h b).trans fun e => (sameErrors_bind_pure (l.mapM f) (b :: ·) e).symm

/-- The texts of the first sheet in the order in which they are put into cells. -/
def rowsTexts (rows : List InventoryRow) : List (Option String) :=
  headingTexts.flatten ++ rows.flatMap rowTexts

/-- The texts of the second sheet. -/
def summaryTexts (summary : InventorySummary) : List (Option String) :=
  [some "collection_count", some "document_count", some "collection_group_names",
    some (namesText summary)]

theorem sameErrors_collectionsSheetOf (rows : List InventoryRow) :
    SameErrors (collectionsSheetOf rows fill) ((rowsTexts rows).mapM (Cell.fillWith fill)) := by
  have hrows := sameErrors_mapM_flatten (headingTexts ++ rows.map rowTexts) (Cell.fillWith fill)
  rw [List.flatten_append, ← List.flatMap_def] at hrows
  exact (sameErrors_bind_pure _ _).trans hrows

theorem sameErrors_summarySheetOf (summary : InventorySummary) :
    SameErrors (summarySheetOf summary fill) ((summaryTexts summary).mapM (Cell.fillWith fill)) := by
  refine sameErrors_mapM_cons (f := Cell.fillWith fill) (some "collection_count") fun _ => ?_
  refine sameErrors_mapM_cons (f := Cell.fillWith fill) (some "document_count") fun _ => ?_
  refine sameErrors_mapM_cons (f := Cell.fillWith fill) (some "collection_group_names") fun _ => ?_
  exact sameErrors_mapM_cons (f := Cell.fillWith fill) (some (namesText summary)) fun _ =>
    sameErrors_ok _ _

/-- The texts of an inventory in the order in which they are put into cells. -/
def cellTexts (t : SchemaTree) : List (Option String) :=
  rowsTexts t.inventoryRows ++ summaryTexts t.inventorySummary

/--
The workbook of a tree fails at the first text of its inventory that does not fit into a cell.
-/
theorem ofTree_eq_error_iff {t : SchemaTree} {e : CellError} :
    ofTree t fill = .error e ↔
      ∃ text, FirstWith (Cell.Refused? fill) (cellTexts t) (some text) ∧ fill text = .error e := by
  rw [← Cell.mapM_fillWith_eq_error_iff, cellTexts, List.mapM_append]
  refine (sameErrors_collectionsSheetOf t.inventoryRows).bind (fun _ _ => ?_) e
  exact (sameErrors_summarySheetOf t.inventorySummary).bind fun _ _ => sameErrors_ok _ _

/-- Whether there is a workbook does not depend on where in it a text stands. -/
theorem exists_ofTree_eq_error_iff {t : SchemaTree} :
    (∃ e, ofTree t fill = .error e) ↔ ∃ text, some text ∈ cellTexts t ∧ Cell.Refused fill text := by
  simp only [ofTree_eq_error_iff]
  constructor
  · rintro ⟨-, text, hfirst, -⟩
    obtain ⟨other, hother, hrefused⟩ := hfirst.pos
    obtain rfl := Option.some.inj hother
    exact ⟨text, hfirst.mem, hrefused⟩
  · rintro ⟨text, hmem, hrefused⟩
    have hsome : Cell.Refused? fill (some text) := ⟨text, rfl, hrefused⟩
    obtain ⟨content, hfirst⟩ := exists_firstWith_iff.2 ⟨some text, hmem, hsome⟩
    obtain ⟨other, rfl, e, he⟩ := hfirst.pos
    exact ⟨e, other, hfirst, he⟩

end Workbook
end SchemaAtlas
