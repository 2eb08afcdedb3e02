import SchemaAtlas.CommandLine.Filter
import SchemaAtlas.Proofs.Query.Narrowing

/-!
# Predicates of a command line

A text is a predicate or it is refused as none. The exceptions come from the value that it compares
with: it may not be readable though it is well formed, or it holds itself.
-/
namespace SchemaAtlas.CommandLine

open Yaml (YamlError)

variable {read : Yaml.Parser} {clause : String} {e : FilterError}

/-- The text is a predicate. -/
def IsFilter (read : Yaml.Parser) (clause : String) : Prop := ∃ p, predicateOf clause read = .ok p

/-- The error is more than a refusal of the text. -/
def FilterError.IsFault : FilterError → Prop
  | .value _ | .query .endlessValue => True
  | _ => False

/-- The text compares a field by an operator with what another text stands for. -/
def Compares (clause : String) (operator : Operator) (text : String) : Prop :=
  ∃ field symbol rest,
    (Text.splitWords 2 clause.toList).map String.ofList = field :: symbol :: text :: rest ∧
      Operator.ofValue (.text symbol) = .ok operator ∧ operator ≠ .hasField

/-- What a text that compares has no refusal for. -/
inductive FilterFault (read : Yaml.Parser) (clause : String) : FilterError → Prop
  | value {operator : Operator} {text : String} {e : YamlError} (h : Compares clause operator text)
      (hread : read text = .error e) (he : e ≠ .malformed) : FilterFault read clause (.value e)
  | endless {operator : Operator} {text : String} {g : Graph} (h : Compares clause operator text)
      (hread : read text = .ok g) (hvalue : Comparison.isFinite operator g.value = false) :
      FilterFault read clause (.query .endlessValue)

theorem ofValue_predicateOf {p : Predicate} (h : predicateOf clause read = .ok p) : p.OfValue := by
  unfold predicateOf at h
  split at h
  · rename_i field symbol rest hwords
    obtain ⟨operator, -, h⟩ := exists_of_bind_eq_ok h
    split at h
    · exact ⟨_, _, _, eq_ok_of_mapError_eq_ok h⟩
    · split at h
      · cases h
      · obtain ⟨g, -, h⟩ := exists_of_bind_eq_ok h
        exact ⟨_, _, _, eq_ok_of_mapError_eq_ok h⟩
  · cases h

theorem eq_endlessValue_of_ofValue {field value : Value} {operator : Operator} {e : QueryError}
    (h : Predicate.ofValue field operator value = .error e) :
    e = .endlessValue ∧ Comparison.isFinite operator value = false := by
  unfold Predicate.ofValue at h
  split at h
  · cases h
  · rename_i hfinite
    cases h
    exact ⟨rfl, Bool.not_eq_true _ ▸ hfinite⟩

theorem filterFault_of_predicateOf (h : predicateOf clause read = .error e) (he : e.IsFault) :
    FilterFault read clause e := by
  unfold predicateOf at h
  split at h
  · rename_i field symbol rest hwords
    rcases eq_error_of_bind_eq_error h with h | ⟨operator, hoperator, h⟩
    · obtain ⟨error, -, rfl⟩ := exists_of_mapError_eq_error h
      cases he
    have hoperator := eq_ok_of_mapError_eq_ok hoperator
    split at h
    · -- without a comparison there is nothing that could be endless
      rename_i hfield
      obtain ⟨error, herror, rfl⟩ := exists_of_mapError_eq_error h
      rw [hfield] at herror
      cases (eq_endlessValue_of_ofValue herror).2
    rename_i hfield
    cases rest with
    | nil =>
      cases h
      cases he
    | cons text after =>
      have hcompares : Compares clause operator text :=
        ⟨field, symbol, after, hwords, hoperator, hfield⟩
      rcases eq_error_of_bind_eq_error h with h | ⟨g, hg, h⟩
      · obtain ⟨fault, hread, rfl⟩ := exists_of_mapError_eq_error h
        cases fault with
        | malformed => cases he
        | _ => exact .value hcompares hread nofun
      · obtain ⟨error, herror, rfl⟩ := exists_of_mapError_eq_error h
        obtain ⟨rfl, hvalue⟩ := eq_endlessValue_of_ofValue herror
        exact .endless hcompares (eq_ok_of_mapError_eq_ok hg) hvalue
  · cases h
    cases he

theorem Compares.predicateOf_eq {operator : Operator} {text : String}
    (h : Compares clause operator text) :
    ∃ field, predicateOf clause read = (do
      let g ← (read text).mapError (.ofYaml clause)
      (Predicate.ofValue field operator g.value).mapError .query) := by
  obtain ⟨field, symbol, rest, hwords, hoperator, hfield⟩ := h
  refine ⟨.text field, ?_⟩
  simp only [predicateOf, hwords, hoperator]
  exact if_neg hfield

theorem FilterFault.predicateOf_eq (h : FilterFault read clause e) :
    predicateOf clause read = .error e := by
  cases h with
  | @value operator text fault h hread he =>
    obtain ⟨field, hfield⟩ := h.predicateOf_eq
    rw [hfield, hread]
    cases fault with
    | malformed => cases he rfl
    | _ => rfl
  | @endless operator text g h hread hvalue =>
    obtain ⟨field, hfield⟩ := h.predicateOf_eq
    have herror : Predicate.ofValue field operator g.value = .error .endlessValue :=
      if_neg (Bool.not_eq_true _ ▸ hvalue)
    rw [hfield, hread]
    exact congrArg (Except.mapError FilterError.query) herror

theorem predicateOf_fault_iff :
    predicateOf clause read = .error e ∧ e.IsFault ↔ FilterFault read clause e := by
  refine ⟨fun h => filterFault_of_predicateOf h.1 h.2, fun h => ⟨h.predicateOf_eq, ?_⟩⟩
  cases h <;> trivial

theorem not_isFilter_iff : ¬ IsFilter read clause ↔ ∃ e, predicateOf clause read = .error e := by
  unfold IsFilter
  cases predicateOf clause read with
  | ok p => exact ⟨fun h => absurd ⟨p, rfl⟩ h, nofun⟩
  | error e => exact ⟨fun _ => ⟨e, rfl⟩, fun _ => nofun⟩

/-- Several texts fail as the first of them does that is no predicate. -/
theorem mapM_predicateOf_eq_error_iff {clauses : List String} :
    (clauses.mapM fun clause => predicateOf clause read) = .error e ↔
      ∃ clause, FirstWith (fun clause => ¬ IsFilter read clause) clauses clause ∧
        predicateOf clause read = .error e := by
  have hfilter : (fun clause => ¬ IsFilter read clause) =
      fun clause => ∃ e, predicateOf clause read = .error e :=
    funext fun clause => propext not_isFilter_iff
  rw [hfilter, mapM_eq_error_iff]

end SchemaAtlas.CommandLine
