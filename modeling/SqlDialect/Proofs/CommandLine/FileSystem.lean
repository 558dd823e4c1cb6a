import Mathlib.Data.List.Basic
import SqlDialect.FileSystem

/-!
# What operations change in a file system

A path leads to one place, `placeOf`, whatever is on the way, and the working directory never
changes; so the place of a path stays the same throughout a run.  Writing a file puts the content at
the place of its path or changes nothing at all, and making directories changes no file.  `Atomic`
says this of a record of operations, which may fail for reasons of their own; `atomic_access` says
that it is so for the operations of a `FileSystem`.
-/

namespace SqlDialect

open List

namespace FileSystem

variable {fs fs' fs'' : FileSystem} {path content : String} {place place' other : Place}

/-- The place that a path leads to. -/
def placeOf (fs : FileSystem) (path : String) : Place :=
  (steps path).foldl step (fs.start path)

/-- Only the files at the given places have changed. -/
structure Touched (fs : FileSystem) (places : List Place) (fs' : FileSystem) : Prop where
  workingDirectory_eq : fs'.workingDirectory = fs.workingDirectory
  content_eq : ∀ place ∉ places, fs'.content? place = fs.content? place

namespace Touched

variable {places more : List Place}

lemma refl (fs : FileSystem) : Touched fs [] fs := ⟨rfl, fun _ _ => rfl⟩

lemma mono (h : Touched fs places fs') (hsub : places ⊆ more) : Touched fs more fs' :=
  ⟨h.workingDirectory_eq, fun place hplace => h.content_eq place fun hmem => hplace (hsub hmem)⟩

lemma trans (h : Touched fs places fs') (h' : Touched fs' more fs'') :
    Touched fs (places ++ more) fs'' where
  workingDirectory_eq := h'.workingDirectory_eq.trans h.workingDirectory_eq
  content_eq place hplace := by
    rw [mem_append, not_or] at hplace
    exact (h'.content_eq place hplace.2).trans (h.content_eq place hplace.1)

lemma placeOf_eq (h : Touched fs places fs') (path : String) :
    fs'.placeOf path = fs.placeOf path := by
  rw [placeOf, placeOf, start, start, h.workingDirectory_eq]

end Touched

/-! ## Following paths -/

lemma bind_eq_ok {ε α β : Type} {step : Except ε α} {next : α → Except ε β} {b : β} :
    (step >>= next) = .ok b ↔ ∃ a, step = .ok a ∧ next a = .ok b := by
  cases step with
  | error e =>
    constructor
    · intro h
      cases h
    · rintro ⟨a, ha, -⟩
      cases ha
  | ok a =>
    constructor
    · intro h
      exact ⟨a, rfl, h⟩
    · rintro ⟨a', ha, h⟩
      cases ha
      exact h

lemma asDirectory_eq_ok (h : fs.asDirectory place = .ok place') : place' = place := by
  rw [asDirectory] at h
  split at h <;> cases h
  rfl

/-- Following names leads where they say, if it leads anywhere. -/
lemma follow_eq_ok {names : List String} (h : fs.follow place names = .ok place') :
    place' = names.foldl step place := by
  induction names generalizing place with
  | nil =>
    cases h
    rfl
  | cons name rest ih =>
    rw [follow, bind_eq_ok] at h
    obtain ⟨directory, hdirectory, h⟩ := h
    rw [foldl_cons, ← asDirectory_eq_ok hdirectory]
    exact ih h

/-- The directory of the last name of a path. -/
lemma locateParent_eq_ok {directory : Place} {name : Option String}
    (h : fs.locateParent path = .ok (directory, name)) :
    directory = (steps path).dropLast.foldl step (fs.start path) ∧
    name = (steps path).getLast? := by
  rw [locateParent] at h
  split at h
  · cases h
  obtain ⟨place, hfollow, h⟩ := bind_eq_ok.1 h
  obtain ⟨found, hdirectory, h⟩ := bind_eq_ok.1 h
  cases h
  rw [asDirectory_eq_ok hdirectory, follow_eq_ok hfollow]
  exact ⟨rfl, rfl⟩

/-! ## Writing -/

lemma content?_setContent : (fs.setContent place content).content? other =
    if other = place then some content else fs.content? other := by
  rw [content?, setContent, content?, find?_append]
  by_cases heq : other = place
  · have hnone : (fs.files.filter (·.1 != place)).find? (·.1 == other) = none := by
      rw [find?_eq_none]
      intro file hfile
      have hne := (mem_filter.1 hfile).2
      simpa [heq] using hne
    rw [if_pos heq, hnone, Option.none_or]
    simp [heq]
  · have hsame : (fs.files.filter (·.1 != place)).find? (·.1 == other) =
        fs.files.find? (·.1 == other) := by
      rw [find?_filter]
      congr 1
      funext file
      by_cases hother : file.1 = other <;> simp [hother, heq]
    have hlast : [(place, content)].find? (fun file : Place × String => file.1 == other) =
        none := by
      simp [Ne.symm heq]
    rw [if_neg heq, hsame, hlast, Option.or_none]

/-- A file that is written stands at the place of its path. -/
lemma write_eq_ok (h : fs.write path content = .ok fs') :
    fs' = fs.setContent (fs.placeOf path) content := by
  rw [write, bind_eq_ok] at h
  obtain ⟨⟨directory, last⟩, hparent, h⟩ := h
  obtain ⟨hdirectory, hlast⟩ := locateParent_eq_ok hparent
  cases last with
  | none => cases h
  | some name =>
    dsimp only at h
    split at h
    · cases h
    rename_i hname
    have hstep : step directory name = directory ++ [name] := by
      simp only [Bool.or_eq_true, not_or] at hname
      rw [step, if_neg hname.1.2, if_neg hname.2]
    have hnames : (steps path).dropLast ++ [name] = steps path :=
      dropLast_append_getLast? name hlast.symm
    have hplace : fs.placeOf path = directory ++ [name] := by
      rw [placeOf, ← hnames, foldl_append, ← hdirectory, foldl_cons, foldl_nil, hstep]
    rw [← hplace] at h
    split at h
    · cases h
    · cases h
      rfl

/-! ## Making directories -/

lemma createDirectory_eq_ok (h : fs.createDirectory path = .ok fs') : Touched fs [] fs' := by
  rw [createDirectory, bind_eq_ok] at h
  obtain ⟨⟨directory, last⟩, -, h⟩ := h
  cases last with
  | none => cases h
  | some name =>
    dsimp only at h
    split at h
    · cases h
    split at h
    · cases h
    cases h
    exact ⟨rfl, fun _ _ => rfl⟩

lemma ensureDirectory_eq_ok (h : fs.ensureDirectory path = .ok fs') : Touched fs [] fs' := by
  rw [ensureDirectory] at h
  cases hcreate : fs.createDirectory path with
  | ok made =>
    rw [hcreate] at h
    cases h
    exact createDirectory_eq_ok hcreate
  | error e =>
    rw [hcreate] at h
    dsimp only at h
    split at h <;> cases h
    exact .refl fs

lemma createDirectoriesFrom_touched (fuel : Nat) :
    Touched fs [] (fs.createDirectoriesFrom fuel path).2 := by
  induction fuel generalizing path with
  | zero => exact .refl fs
  | succ fuel ih =>
    rw [createDirectoriesFrom]
    split
    · exact .refl fs
    split
    · rename_i made hmade
      exact ensureDirectory_eq_ok hmade
    · split
      · exact .refl fs
      · rename_i above _
        have habove := @ih above
        split
        · rename_i e left hleft
          rwa [hleft] at habove
        · rename_i left hleft
          rw [hleft] at habove
          split
          · rename_i made hmade
            exact habove.trans (ensureDirectory_eq_ok hmade)
          · exact habove
    · exact .refl fs

end FileSystem

/-! ## Atomic operations -/

open FileSystem

/-- The operations succeed or fail as a whole: only writing changes a file, and if it fails it does
not either. -/
structure FileAccess.Atomic (files : FileAccess (StateM FileSystem)) : Prop where
  isPresent : ∀ fs path, (files.isPresent path fs).2 = fs
  read : ∀ fs path, (files.read path fs).2 = fs
  createDirectories : ∀ fs path, Touched fs [] (files.createDirectories path fs).2
  write_ok : ∀ fs path content fs', files.write path content fs = (.ok (), fs') →
    Touched fs [fs.placeOf path] fs' ∧ fs'.content? (fs.placeOf path) = some content
  write_error : ∀ fs path content e fs', files.write path content fs = (.error e, fs') →
    Touched fs [] fs'

namespace FileSystem

lemma get_run (fs : FileSystem) : (get : StateM FileSystem FileSystem) fs = (fs, fs) := rfl

lemma access_write_of_ok (h : fs.write path content = .ok fs') :
    access.write path content fs = (.ok (), fs') := by
  simp only [access, bind, StateT.bind, get_run, h]
  rfl

lemma access_write_of_error {e : FileError} (h : fs.write path content = .error e) :
    access.write path content fs = (.error e, fs) := by
  simp only [access, bind, StateT.bind, get_run, h]
  rfl

/-- The operations of a file system are atomic. -/
lemma atomic_access : access.Atomic where
  isPresent _ _ := rfl
  read _ _ := rfl
  createDirectories fs path := createDirectoriesFrom_touched (path.length + 1)
  write_ok fs path content fs' h := by
    cases hwrite : fs.write path content with
    | error e =>
      rw [access_write_of_error hwrite] at h
      cases h
    | ok made =>
      rw [access_write_of_ok hwrite] at h
      cases h
      rw [write_eq_ok hwrite]
      refine ⟨⟨rfl, fun place hplace => ?_⟩, ?_⟩
      · rw [content?_setContent, if_neg fun heq => hplace (mem_singleton.2 heq)]
      · rw [content?_setContent, if_pos rfl]
  write_error fs path content e fs' h := by
    cases hwrite : fs.write path content with
    | error e =>
      rw [access_write_of_error hwrite] at h
      cases h
      exact .refl fs
    | ok made =>
      rw [access_write_of_ok hwrite] at h
      cases h

end FileSystem

end SqlDialect
