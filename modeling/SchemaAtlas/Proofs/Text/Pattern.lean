/-!
# Patterns

Regular patterns with named groups, matched at the start of a text. A pattern may match in several
ways; they are listed in the order in which they are tried, so the match is the first of them. Every
way splits the text into what it reads and what it leaves.
-/
namespace SchemaAtlas.Text

/--
A pattern for the start of a text. A run takes as many characters as it can before fewer, an optional
part is taken before it is left out, and the first of two alternatives is taken before the second.
-/
inductive Pattern (κ : Type)
  | one (p : Char → Bool)
  | run (p : Char → Bool)
  | optional (inner : Pattern κ)
  | sequence (first second : Pattern κ)
  | either (first second : Pattern κ)
  | group (name : κ) (inner : Pattern κ)

/-- A way to match: what is read, what is left, and the group closed last with what it has read. -/
structure Match (κ : Type) where
  read : List Char
  rest : List Char
  group : Option (κ × List Char)

variable {κ : Type}

namespace Match

/-- Nothing is read. -/
def empty (cs : List Char) : Match κ := ⟨[], cs, none⟩

/-- One more character is read in front of a match. -/
def push (c : Char) (m : Match κ) : Match κ := { m with read := c :: m.read }

/-- A match of what another one leaves. -/
def join (m next : Match κ) : Match κ := ⟨m.read ++ next.read, next.rest, next.group.or m.group⟩

@[simp] theorem join_empty_left (cs : List Char) (m : Match κ) : (empty cs).join m = m := by
  simp [join, empty]

theorem join_push (c : Char) (m next : Match κ) : (m.push c).join next = (m.join next).push c := by
  simp [join, push]

end Match

namespace Pattern

/-- All runs of a class at the start of a text, the longest one first. -/
def runs (p : Char → Bool) : List Char → List (Match κ)
  | [] => [.empty []]
  | c :: cs => if p c then (runs p cs).map (.push c) ++ [.empty (c :: cs)] else [.empty (c :: cs)]

/-- All ways to match at the start of a text, in the order in which they are tried. -/
def ways : Pattern κ → List Char → List (Match κ)
  | one _, [] => []
  | one p, c :: cs => if p c then [⟨[c], cs, none⟩] else []
  | run p, cs => runs p cs
  | optional inner, cs => inner.ways cs ++ [.empty cs]
  | sequence first second, cs =>
    (first.ways cs).flatMap fun m => (second.ways m.rest).map m.join
  | either first second, cs => first.ways cs ++ second.ways cs
  | group name inner, cs => (inner.ways cs).map fun m => { m with group := some (name, m.read) }

/-- The match at the start of a text. -/
def first? (p : Pattern κ) (cs : List Char) : Option (Match κ) := (p.ways cs).head?

/-- What the match at the start of a text reads. -/
def lexeme? (p : Pattern κ) (cs : List Char) : Option (List Char) := (p.first? cs).map (·.read)

variable {p : Char → Bool} {a b : Pattern κ} {cs : List Char} {m : Match κ}

/-! ### Nothing is lost -/

theorem read_append_rest_of_runs (h : m ∈ runs p cs) : m.read ++ m.rest = cs := by
  induction cs generalizing m with
  | nil =>
    simp only [runs, List.mem_singleton] at h
    simp [h, Match.empty]
  | cons c cs ih =>
    by_cases hc : p c = true
    · simp only [runs, hc, if_true, List.mem_append, List.mem_map, List.mem_singleton] at h
      obtain ⟨n, hn, rfl⟩ | rfl := h
      · simp [Match.push, ih hn]
      · simp [Match.empty]
    · simp only [runs, hc, Bool.false_eq_true, if_false, List.mem_singleton] at h
      simp [h, Match.empty]

/-- What a match reads and what it leaves are the text. -/
theorem read_append_rest {q : Pattern κ} (h : m ∈ q.ways cs) : m.read ++ m.rest = cs := by
  induction q generalizing cs m with
  | one p =>
    cases cs with
    | nil => simp [ways] at h
    | cons c cs =>
      by_cases hc : p c = true
      · simp only [ways, hc, if_true, List.mem_singleton] at h
        simp [h]
      · simp [ways, hc] at h
  | run p => exact read_append_rest_of_runs h
  | optional inner ih =>
    simp only [ways, List.mem_append, List.mem_singleton] at h
    obtain h | rfl := h
    · exact ih h
    · rfl
  | sequence first second ihFirst ihSecond =>
    simp only [ways, List.mem_flatMap, List.mem_map] at h
    obtain ⟨m, hm, n, hn, rfl⟩ := h
    show m.read ++ n.read ++ n.rest = cs
    rw [List.append_assoc, ihSecond hn, ihFirst hm]
  | either first second ihFirst ihSecond =>
    simp only [ways, List.mem_append] at h
    obtain h | h := h
    · exact ihFirst h
    · exact ihSecond h
  | group name inner ih =>
    simp only [ways, List.mem_map] at h
    obtain ⟨n, hn, rfl⟩ := h
    show n.read ++ n.rest = cs
    exact ih hn

theorem read_append_rest_of_first? (h : a.first? cs = some m) : m.read ++ m.rest = cs :=
  read_append_rest (List.mem_of_head? h)

/-! ### The first match -/

@[simp] theorem first?_one_nil : (one p : Pattern κ).first? [] = none := rfl

@[simp] theorem first?_one_cons (c : Char) (cs : List Char) :
    (one p : Pattern κ).first? (c :: cs) = if p c then some ⟨[c], cs, none⟩ else none := by
  by_cases hc : p c = true <;> simp [first?, ways, hc]

@[simp] theorem first?_run (p : Char → Bool) (cs : List Char) :
    (run p : Pattern κ).first? cs = some ⟨cs.takeWhile p, cs.dropWhile p, none⟩ := by
  show (runs p cs).head? = _
  induction cs with
  | nil => rfl
  | cons c cs ih =>
    by_cases hc : p c = true
    · simp [runs, hc, List.head?_append, List.head?_map, ih, Match.push]
    · simp [runs, hc, Match.empty]

@[simp] theorem first?_either (a b : Pattern κ) (cs : List Char) :
    (either a b).first? cs = (a.first? cs).or (b.first? cs) :=
  List.head?_append

theorem first?_optional (a : Pattern κ) (cs : List Char) :
    (optional a).first? cs = some ((a.first? cs).getD (.empty cs)) := by
  show (a.ways cs ++ [Match.empty cs]).head? = _
  rw [List.head?_append]
  cases h : (a.ways cs).head? with
  | none => simp [first?, h]
  | some m => simp [first?, h]

/-- A group records what is read inside it. -/
theorem first?_group (name : κ) (a : Pattern κ) (cs : List Char) :
    (group name a).first? cs =
      (a.lexeme? cs).map fun lexeme => ⟨lexeme, cs.drop lexeme.length, some (name, lexeme)⟩ := by
  show List.head? (List.map _ (a.ways cs)) = _
  rw [List.head?_map, lexeme?, first?]
  cases h : (a.ways cs).head? with
  | none => rfl
  | some m =>
    have hcs := read_append_rest_of_first? h
    simp [← hcs]

theorem lexeme?_either (a b : Pattern κ) (cs : List Char) :
    (either a b).lexeme? cs = (a.lexeme? cs).or (b.lexeme? cs) := by
  rw [lexeme?, first?_either, Option.map_or]
  rfl

theorem first?_sequence (a b : Pattern κ) (cs : List Char) :
    (sequence a b).first? cs =
      (a.ways cs).findSome? fun m => (b.first? m.rest).map m.join := by
  show List.head? (List.flatMap _ _) = _
  simp only [List.head?_flatMap, List.head?_map]
  rfl

theorem first?_sequence_of_none (h : a.first? cs = none) : (sequence a b).first? cs = none := by
  have hways : a.ways cs = [] := List.head?_eq_none_iff.1 h
  rw [first?_sequence, hways]
  rfl

/-- Where the first match of one part leads to a match of the next one, nothing else is tried. -/
theorem first?_sequence_of_some {next : Match κ} (ha : a.first? cs = some m)
    (hb : b.first? m.rest = some next) : (sequence a b).first? cs = some (m.join next) := by
  obtain ⟨others, hways⟩ : ∃ others, a.ways cs = m :: others := by
    obtain ⟨others, h⟩ := List.head?_eq_some_iff.1 ha
    exact ⟨others, h⟩
  rw [first?_sequence, hways, List.findSome?_cons, hb]
  rfl

@[simp] theorem first?_one_sequence (c : Char) (cs : List Char) :
    (sequence (one p) b).first? (c :: cs) =
      if p c then (b.first? cs).map (Match.push c) else none := by
  by_cases hc : p c = true
  · have hjoin : ∀ m : Match κ, Match.join ⟨[c], cs, none⟩ m = m.push c := by
      intro m
      simp [Match.join, Match.push]
    simp only [first?_sequence, ways, hc, if_true, List.findSome?_singleton]
    exact congrArg (Option.map · (b.first? cs)) (funext hjoin)
  · simp [first?_sequence, ways, hc]

/-- An optional part in front of a pattern is a choice between the pattern with it and without it. -/
theorem first?_optional_sequence (a b : Pattern κ) (cs : List Char) :
    (sequence (optional a) b).first? cs = ((sequence a b).first? cs).or (b.first? cs) := by
  rw [first?_sequence, first?_sequence]
  show List.findSome? _ (a.ways cs ++ [.empty cs]) = _
  rw [List.findSome?_append, List.findSome?_singleton]
  have hjoin : (b.first? cs).map (Match.empty cs).join = b.first? cs := by
    rw [funext (Match.join_empty_left cs)]
    exact Option.map_id_apply
  exact congrArg _ hjoin

/--
A run in front of a pattern that matches nowhere inside the run is taken as a whole: shorter runs are
tried in vain.
-/
theorem first?_run_sequence (hb : ∀ c cs, p c = true → b.first? (c :: cs) = none)
    (cs : List Char) :
    (sequence (run p) b).first? cs =
      (b.first? (cs.dropWhile p)).map (Match.join ⟨cs.takeWhile p, cs.dropWhile p, none⟩) := by
  rw [first?_sequence]
  show (runs p cs).findSome? _ = _
  induction cs with
  | nil => simp [runs, Match.empty]
  | cons c cs ih =>
    by_cases hc : p c = true
    · have hpush : ((runs p cs).map (Match.push c)).findSome?
          (fun m => (b.first? m.rest).map m.join) =
            ((runs p cs).findSome? fun m => (b.first? m.rest).map m.join).map (Match.push c) := by
        rw [List.findSome?_map, List.map_findSome?]
        congr 1
        funext m
        simp only [Function.comp_apply, Option.map_map]
        exact congrArg (Option.map · (b.first? m.rest)) (funext fun n => Match.join_push c m n)
      simp only [runs, hc, if_true, List.findSome?_append, hpush, ih, List.findSome?_singleton]
      have hshort : b.first? (Match.empty (c :: cs) : Match κ).rest = none := hb c cs hc
      simp only [hshort, Option.map_none, Option.or_none, Option.map_map, List.takeWhile_cons,
        List.dropWhile_cons, hc, if_true]
      rfl
    · simp [runs, hc, Match.empty]

end Pattern
end SchemaAtlas.Text
