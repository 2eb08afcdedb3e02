import SchemaAtlas.Files.System
import SchemaAtlas.Proofs.Except

/-!
# Reading files

A file system is asked in a state, and what it answers may depend on that state in any way. Where
the requests that read leave the state as it is, an operation that only reads gives what it gives on
files that always answer as they do now. So what it gives is read off its steps one by one: it
succeeds if each of them does, and fails where the first of them fails.
-/
namespace SchemaAtlas

variable {σ ε ε' α β : Type}

section Steps

variable {x : ExceptT ε Id α} {f : α → ExceptT ε Id β} {a : α} {b : β} {e : ε}

theorem run_bind_of_ok (h : x.run.run = .ok a) : (x >>= f).run.run = (f a).run.run := by
  rw [ExceptT.run_bind, Id.run_bind, h]

theorem run_bind_of_error (h : x.run.run = .error e) : (x >>= f).run.run = .error e := by
  rw [ExceptT.run_bind, Id.run_bind, h]
  rfl

theorem exists_of_run_bind_eq_ok (h : (x >>= f).run.run = .ok b) :
    ∃ a, x.run.run = .ok a ∧ (f a).run.run = .ok b := by
  cases hx : x.run.run with
  | error e => cases h.symm.trans (run_bind_of_error hx)
  | ok a => exact ⟨a, rfl, (run_bind_of_ok hx).symm.trans h⟩

theorem eq_error_of_run_bind_eq_error (h : (x >>= f).run.run = .error e) :
    x.run.run = .error e ∨ ∃ a, x.run.run = .ok a ∧ (f a).run.run = .error e := by
  cases hx : x.run.run with
  | error fault =>
    cases h.symm.trans (run_bind_of_error hx)
    exact .inl rfl
  | ok a => exact .inr ⟨a, rfl, (run_bind_of_ok hx).symm.trans h⟩

end Steps

section Runs

variable {x y : ExceptT ε (StateM σ) α} {f : α → ExceptT ε (StateM σ) β} {s s' : σ}

theorem runOn_bind_of_ok {a : α} (h : x.run.run s = (.ok a, s')) :
    (x >>= f).run.run s = (f a).run.run s' := by
  rw [ExceptT.run_bind, StateT.run_bind, h]
  rfl

theorem runOn_bind_of_error {e : ε} (h : x.run.run s = (.error e, s')) :
    (x >>= f).run.run s = (.error e, s') := by
  rw [ExceptT.run_bind, StateT.run_bind, h]
  rfl

theorem runOn_adapt {r : Except ε α} (wrap : ε → ε') (h : x.run.run s = (r, s')) :
    (x.adapt wrap).run.run s = (r.mapError wrap, s') := by
  rw [ExceptT.run_adapt, StateT.run_map, h]
  rfl

/-- What succeeds has had its first step done, in whichever state that has left. -/
theorem exists_of_runOn_bind_eq_ok {b : β} (h : ((x >>= f).run.run s).1 = .ok b) :
    ∃ a s', x.run.run s = (.ok a, s') ∧ ((f a).run.run s').1 = .ok b := by
  cases hx : x.run.run s with
  | mk result s' =>
    cases result with
    | error e => cases h.symm.trans (congrArg Prod.fst (runOn_bind_of_error hx))
    | ok a => exact ⟨a, s', rfl, (congrArg Prod.fst (runOn_bind_of_ok hx)).symm.trans h⟩

end Runs

/-! ### Operations that only read -/

/-- Run in the state, the first operation gives what the second one gives, and changes nothing. -/
def OnlyReads (s : σ) (x : ExceptT ε (StateM σ) α) (y : ExceptT ε Id α) : Prop :=
  x.run.run s = (y.run.run, s)

section OnlyReads

variable {s : σ}

theorem onlyReads_mk (r : Except ε α) :
    OnlyReads s (ExceptT.mk (pure r)) (ExceptT.mk (pure r)) := rfl

theorem onlyReads_pure (a : α) : OnlyReads s (pure a : ExceptT ε _ _) (pure a) := rfl

theorem onlyReads_throw (e : ε) :
    OnlyReads s (throw e : ExceptT ε (StateM σ) α) (throw e) := rfl

theorem OnlyReads.bind {x : ExceptT ε (StateM σ) α} {y : ExceptT ε Id α}
    {f : α → ExceptT ε (StateM σ) β} {g : α → ExceptT ε Id β} (hx : OnlyReads s x y)
    (hf : ∀ a, OnlyReads s (f a) (g a)) : OnlyReads s (x >>= f) (y >>= g) := by
  unfold OnlyReads at hx ⊢
  rw [ExceptT.run_bind, StateT.run_bind, hx, ExceptT.run_bind, Id.run_bind]
  cases y.run.run with
  | error e => rfl
  | ok a => exact hf a

theorem OnlyReads.adapt {x : ExceptT ε (StateM σ) α} {y : ExceptT ε Id α} (f : ε → ε')
    (hx : OnlyReads s x y) : OnlyReads s (x.adapt f) (y.adapt f) := by
  unfold OnlyReads at hx ⊢
  rw [ExceptT.run_adapt, ExceptT.run_adapt, StateT.run_map, hx]
  rfl

end OnlyReads

namespace FileSystem

/-- Files that always answer as those of a file system do in one state. -/
def answers (fs : FileSystem (StateM σ)) (s : σ) : FileSystem Id where
  isPresent path := ((fs.isPresent path).run s).1
  isDirectory path := ((fs.isDirectory path).run s).1
  readBytes path := ((fs.readBytes path).run s).1
  write path content := ((fs.write path content).run s).1
  makeDirectory path := ((fs.makeDirectory path).run s).1
  resolve path := ((fs.resolve path).run s).1

/-- Nothing changes while the files are only read. -/
structure Steady (fs : FileSystem (StateM σ)) : Prop where
  isPresent : ∀ path s, ((fs.isPresent path).run s).2 = s
  readBytes : ∀ path s, ((fs.readBytes path).run s).2 = s
  resolve : ∀ path s, ((fs.resolve path).run s).2 = s

section Steady

variable {fs : FileSystem (StateM σ)} (hfs : fs.Steady) (s : σ) (path : FilePath)

include hfs

theorem Steady.onlyReads_isPresent :
    OnlyReads s (ExceptT.mk (fs.isPresent path)) (ExceptT.mk ((fs.answers s).isPresent path)) :=
  Prod.ext rfl (hfs.isPresent path s)

theorem Steady.onlyReads_resolve :
    OnlyReads s (ExceptT.mk (fs.resolve path)) (ExceptT.mk ((fs.answers s).resolve path)) :=
  Prod.ext rfl (hfs.resolve path s)

theorem Steady.onlyReads_readText :
    OnlyReads s (fs.readText path) ((fs.answers s).readText path) := by
  have hbytes : OnlyReads s (ExceptT.mk (fs.readBytes path))
      (ExceptT.mk ((fs.answers s).readBytes path)) := Prod.ext rfl (hfs.readBytes path s)
  refine hbytes.bind fun data => ?_
  cases decodeText data with
  | error e => exact onlyReads_throw e
  | ok text => exact onlyReads_pure text

end Steady

/-! ### What stands at a path -/

section Answers

variable {files : FileSystem Id} {path : FilePath}

/-- Something stands at the path, and it can be read as this text. -/
structure HoldsText (files : FileSystem Id) (path : FilePath) (text : String) : Prop where
  isPresent : files.isPresent path = .ok true
  bytes : ∃ data, files.readBytes path = .ok data ∧ decodeText data = .ok text

/-- The files do not tell what stands at the path, or it cannot be read as a text. -/
inductive Unreadable (files : FileSystem Id) (path : FilePath) : FileError → Prop
  | presence {e : FileError} (h : files.isPresent path = .error e) : Unreadable files path e
  | bytes {e : FileError} (h : files.isPresent path = .ok true)
      (hread : files.readBytes path = .error e) : Unreadable files path e
  | text {data : ByteArray} (h : files.isPresent path = .ok true)
      (hread : files.readBytes path = .ok data) (hdata : String.fromUTF8? data = none) :
      Unreadable files path .notAText

theorem decodeText_eq_error_iff {data : ByteArray} {e : FileError} :
    decodeText data = .error e ↔ e = .notAText ∧ String.fromUTF8? data = none := by
  unfold decodeText
  cases String.fromUTF8? data with
  | some text => simp
  | none => simp [eq_comm]

theorem readText_run :
    (files.readText path).run.run = (files.readBytes path).run >>= decodeText := by
  have hbytes : (ExceptT.mk (files.readBytes path)).run.run = (files.readBytes path).run := rfl
  rw [readText, ExceptT.run_bind, Id.run_bind, hbytes]
  cases (files.readBytes path).run with
  | error e => rfl
  | ok data =>
    change (liftM (decodeText data) : ExceptT FileError Id String).run.run = decodeText data
    cases decodeText data <;> rfl

theorem HoldsText.readText_eq {text : String} (h : files.HoldsText path text) :
    (files.readText path).run.run = .ok text := by
  obtain ⟨data, hread, htext⟩ := h.bytes
  exact (readText_run.trans (congrArg (· >>= decodeText) hread)).trans htext

/-- Where it is known that something stands at the path, reading it fails. -/
theorem Unreadable.presence_or_readText {e : FileError} (h : files.Unreadable path e) :
    files.isPresent path = .error e ∨
      files.isPresent path = .ok true ∧ (files.readText path).run.run = .error e := by
  cases h with
  | presence h => exact .inl h
  | bytes h hread => exact .inr ⟨h, readText_run.trans (congrArg (· >>= decodeText) hread)⟩
  | text h hread hdata =>
    refine .inr ⟨h, (readText_run.trans (congrArg (· >>= decodeText) hread)).trans ?_⟩
    exact decodeText_eq_error_iff.2 ⟨rfl, hdata⟩

/-- What stands at a path is a text or cannot be read, unless there is nothing. -/
theorem holdsText_or_unreadable (files : FileSystem Id) (path : FilePath) :
    (∃ text, files.HoldsText path text) ∨ (∃ e, files.Unreadable path e) ∨
      files.isPresent path = .ok false := by
  cases hpresent : files.isPresent path with
  | error e => exact .inr (.inl ⟨e, .presence hpresent⟩)
  | ok present =>
    cases present with
    | false => exact .inr (.inr rfl)
    | true =>
      cases hread : files.readBytes path with
      | error e => exact .inr (.inl ⟨e, .bytes hpresent hread⟩)
      | ok data =>
        cases htext : decodeText data with
        | ok text => exact .inl ⟨text, hpresent, data, hread, htext⟩
        | error e =>
          exact .inr (.inl ⟨_, .text hpresent hread (decodeText_eq_error_iff.1 htext).2⟩)

end Answers

end FileSystem
end SchemaAtlas
