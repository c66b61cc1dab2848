import ServiceTemplate.Utf8Text
import Mathlib.Data.List.Basic

/-! Relative paths as the template tools admit them: `safe_relative` and the one kind of symbolic
link the tools write. -/
namespace TemplatePaths

open ByteFraming
open Utf8Text

abbrev Text := List Char

def isControl (c : Char) : Bool := c.toNat < 32 || (127 ≤ c.toNat && c.toNat ≤ 159)

def pieces (path : Text) : List Text := path.splitOn '/'

def emptyPath : String := "owner path is empty"
def endsInSlash : String := "owner path may not end in a slash"
def unsafePath : String := "owner path is unsafe"

/-- Pieces that no inventory path has. -/
def reserved : List Text := [[], ['.'], ['.', '.'], ".git".toList]

def safeRelative (path : Text) (allowDirectory : Bool) : Except String Text :=
  if path = [] then .error emptyPath
  else
    let directory := path.getLast? = some '/'
    if directory ∧ ¬ allowDirectory then .error endsInSlash
    else
      let candidate := if directory then path.dropLast else path
      if candidate = [] ∨ candidate.head? = some '/' ∨ '\\' ∈ candidate ∨
          candidate.any isControl ∨ ∃ piece ∈ pieces candidate, piece ∈ reserved then
        .error unsafePath
      else .ok path

def skillFolders : List Text := [".claude/skills/".toList, ".qwen/skills/".toList]

def skillTarget (name : Text) : Text := "../../.agents/skills/".toList ++ name

/-- The canonical skill name of the sole permitted symbolic link. -/
def generatedSkillLink (path : Text) (contents : Bytes) : Option Text :=
  skillFolders.findSome? fun folder =>
    match folder.isPrefixOf? path with
    | none => none
    | some name =>
      if '/' ∉ name ∧ contents = utf8 (skillTarget name) then some name else none

theorem safe_relative_ok {path : Text} (h : safeRelative path false = .ok path) :
    path ≠ [] ∧ path.head? ≠ some '/' ∧ '\\' ∉ path ∧ path.any isControl = false ∧
      ∀ piece ∈ pieces path, piece ∉ reserved := by
  unfold safeRelative at h
  split at h
  · cases h
  · next hne =>
    simp only at h
    split at h
    · cases h
    · next hdirectory =>
      have hplain : ¬ path.getLast? = some '/' := fun hlast =>
        hdirectory ⟨hlast, Bool.false_ne_true⟩
      rw [if_neg hplain] at h
      split at h
      · cases h
      · next hsafe =>
        simp only [not_or, not_exists, not_and] at hsafe
        refine ⟨hne, hsafe.2.1, hsafe.2.2.1, Bool.eq_false_iff.mpr hsafe.2.2.2.1, ?_⟩
        exact fun piece hpiece => hsafe.2.2.2.2 piece hpiece

end TemplatePaths
