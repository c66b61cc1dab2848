import ServiceTemplate.FileSystem
import ServiceTemplate.TemplatePaths
import ServiceTemplate.ExceptChain
import Mathlib.Data.List.DropRight
import Mathlib.Data.List.Sort

/-! File plans: regular writes, skill links and removals under a root, as they are admitted,
performed and read back. The root itself is a real directory. -/
namespace FilePlans

open ByteFraming
open Utf8Text
open TemplatePaths
open FileTree
open FileSystem

abbrev FileBits := Bytes × ℤ

abbrev Root (O : Type) := World Bytes FileBits Bytes O

/-- The most bytes of a name and of a link's target, and those that a path below the root may have
where the root is named as the caller names it and where it is named from the top. -/
structure Limits where
  name : ℕ
  path : ℕ
  absolute : ℕ
  target : ℕ
  deriving DecidableEq, Repr

/-- A slash stands before each name. -/
def pathLength (p : List Bytes) : ℕ := (p.map fun name => name.length + 1).sum

def fits (name path : ℕ) (p : List Bytes) : Bool :=
  decide (pathLength p ≤ path) && p.all fun bytes => decide (bytes.length ≤ name)

/-- What the process meets: links, lengths, files of its own that it may not read, and queries of a
path that is too long, which may be errors or find nothing. -/
structure Machine (O : Type) extends Answers Bytes FileBits Bytes O where
  limits : Limits
  canRead : ℤ → Bool
  raises : Root O → List Bytes → Bool
  raises_long : ∀ w p, raises w p = true → fits limits.name limits.path p = false

theorem path_length_above {p q : List Bytes} (h : q <+: p) : pathLength q ≤ pathLength p := by
  obtain ⟨rest, rfl⟩ := h
  simp [pathLength]

def Machine.toKernel {O : Type} (M : Machine O) : Kernel Bytes FileBits Bytes O where
  toAnswers := M.toAnswers
  nameFits name := decide (name.length ≤ M.limits.name)
  pathFits p := decide (pathLength p ≤ M.limits.path)
  above_fits p q hpre h := by
    rw [decide_eq_true_eq] at h ⊢
    exact (path_length_above hpre).trans h

inductive Failure where
  | refusal (message : String)
  | osError
  | overflowError
  | unicodeEncodeError
  deriving DecidableEq, Repr

structure PlannedWrite where
  relative : Text
  data : Bytes
  mode : ℤ
  deriving DecidableEq, Repr

structure PlannedLink where
  relative : Text
  target : Text
  deriving DecidableEq, Repr

inductive Planned where
  | write (write : PlannedWrite)
  | link (link : PlannedLink)
  deriving DecidableEq, Repr

structure Plan where
  regularWrites : List PlannedWrite
  linkWrites : List PlannedLink
  removalPaths : List Text
  deriving DecidableEq, Repr

def refuse (message : String) (relative : Text) : Failure :=
  .refusal (message ++ String.ofList relative)

def parts (relative : Text) : List Bytes := (pieces relative).map utf8

def safe (relative : Text) : Except Failure Unit :=
  match safeRelative relative false with
  | .ok _ => .ok ()
  | .error message => .error (.refusal message)

variable {O : Type} (M : Machine O) (w : Root O)

/-- The first query of a path. -/
def query (p : List Bytes) : Except Failure Unit :=
  if M.raises w p then .error .osError else .ok ()

def checkParent (relative : Text) (current : List Bytes) : Except Failure Unit := do
  query M w current
  if isSymlink M.toKernel w current then
    .error (refuse "destination has a symlink parent: " relative)
  else if pathExists M.toKernel w current && !isDir M.toKernel w current then
    .error (refuse "destination has a non-directory parent: " relative)
  else .ok ()

def ensureSafeDestination (relative : Text) (missingOk : Bool) : Except Failure (List Bytes) := do
  safe relative
  (above (parts relative)).forM (checkParent M w relative)
  let target := parts relative
  if missingOk then .ok target
  else
    query M w target
    if !pathExists M.toKernel w target && !isSymlink M.toKernel w target then
      .error (refuse "destination is missing: " relative)
    else .ok target

def admitLink (link : PlannedLink) : Except Failure Unit := do
  safe link.relative
  if generatedSkillLink link.relative (utf8 link.target) = none then
    .error (refuse "planned link is unsupported: " link.relative)
  else .ok ()

/-- Every node of a tree is a file, a directory or a link, so no removal is of another type. -/
def admitRemoval (relative : Text) : Except Failure Unit := do
  safe relative
  let target ← ensureSafeDestination M w relative false
  match lstat M.toKernel w target with
  | none => .error .osError
  | some _ => .ok ()

def admitFileTarget (write : PlannedWrite) : Except Failure Unit := do
  let target ← ensureSafeDestination M w write.relative true
  query M w target
  if isSymlink M.toKernel w target || (pathExists M.toKernel w target && !isFile M.toKernel w target)
  then .error (refuse "planned file collides with a non-file: " write.relative)
  else .ok ()

def admitLinkTarget (link : PlannedLink) : Except Failure Unit := do
  let target ← ensureSafeDestination M w link.relative true
  query M w target
  if pathExists M.toKernel w target && !isSymlink M.toKernel w target then
    .error (refuse "planned link collides with a real path: " link.relative)
  else .ok ()

def Planned.regular? : Planned → Option PlannedWrite
  | .write regular => some regular
  | .link _ => none

def Planned.link? : Planned → Option PlannedLink
  | .write _ => none
  | .link skill => some skill

def Plan.writeNames (plan : Plan) : List Text :=
  plan.regularWrites.map (·.relative) ++ plan.linkWrites.map (·.relative)

def rstrip (relative : Text) : Text := relative.rdropWhile (· = '/')

def insideRemoval (removals : List Text) (name : Text) : Bool :=
  removals.contains name || removals.any fun removal => (rstrip removal ++ ['/']).isPrefixOf name

def admitPlan (writes : List Planned) (removals : List Text) : Except Failure Plan := do
  let plan : Plan := ⟨writes.filterMap Planned.regular?, writes.filterMap Planned.link?, removals⟩
  plan.linkWrites.forM admitLink
  removals.forM (admitRemoval M w)
  if ¬ plan.writeNames.Nodup then .error (.refusal "plan has duplicate writes")
  else if ¬ removals.Nodup then .error (.refusal "plan has duplicate removals")
  else
    plan.regularWrites.forM (admitFileTarget M w)
    plan.linkWrites.forM (admitLinkTarget M w)
    if plan.writeNames.any (insideRemoval removals) then
      .error (.refusal "plan writes inside a planned removal")
    else .ok plan

def verifyWrite (write : PlannedWrite) : Except Failure Unit := do
  let target := parts write.relative
  query M w target
  if isSymlink M.toKernel w target then
    .error (refuse "planned file readback failed: " write.relative)
  else
    match stat M.toKernel w target with
    | some (.file (data, mode)) =>
      if !M.canRead mode then .error .osError
      else if data ≠ write.data then
        .error (refuse "planned file readback failed: " write.relative)
      else if mode % 0x200 ≠ write.mode then
        .error (refuse "planned file mode readback failed: " write.relative)
      else .ok ()
    | _ => .error (refuse "planned file readback failed: " write.relative)

def verifyLink (link : PlannedLink) : Except Failure Unit := do
  query M w (parts link.relative)
  match lstat M.toKernel w (parts link.relative) with
  | some (.link target) =>
    if target ≠ utf8 link.target then
      .error (refuse "planned link readback failed: " link.relative)
    else .ok ()
  | _ => .error (refuse "planned link readback failed: " link.relative)

def verifyRemoval (relative : Text) : Except Failure Unit := do
  let target := parts (rstrip relative)
  query M w target
  if pathExists M.toKernel w target || isSymlink M.toKernel w target then
    .error (refuse "planned removal readback failed: " relative)
  else .ok ()

def verifyPlan (plan : Plan) : Except Failure Unit := do
  plan.regularWrites.forM (verifyWrite M w)
  plan.linkWrites.forM (verifyLink M w)
  plan.removalPaths.forM (verifyRemoval M w)

/-- `chmod` takes a C `int` and keeps twelve bits of it. -/
def chmod (mode : ℤ) : Option ℤ :=
  if -2 ^ 31 ≤ mode ∧ mode < 2 ^ 31 then some (mode % 0x1000) else none

/-- `mkstemp` puts a dot, the name, a dot and eight random letters in the same directory, which it
names from the top; which letters they are does not matter here. -/
def temporary (path : List Bytes) : List Bytes :=
  path.dropLast ++ [46 :: (path.getLastD [] ++ 46 :: List.replicate 8 120)]

def temporaryFits (path : List Bytes) : Bool :=
  fits M.limits.name M.limits.absolute (temporary path)

/-- The temporary file is gone whenever the replacement fails. -/
def atomicWrite (path : List Bytes) (data : Bytes) (mode : ℤ) : Op (Root O) Failure := fun w =>
  let parent := path.dropLast
  match query M w parent with
  | .error failure => (w, .error failure)
  | .ok () =>
    if isSymlink M.toKernel w parent || !isDir M.toKernel w parent then
      (w, .error (.refusal "write parent is unsafe"))
    else if !temporaryFits M path then (w, .error .osError)
    else
      match chmod mode with
      | none => (w, .error .overflowError)
      | some mode => system M.toKernel .osError (.replace (data, mode)) path w

def writeFile (write : PlannedWrite) : Op (Root O) Failure := fun w =>
  match ensureSafeDestination M w write.relative true with
  | .error failure => (w, .error failure)
  | .ok target =>
    andThen (makeParents M.toKernel .osError target) (atomicWrite M target write.data write.mode) w

def removalKind (relative : Text) : Except Failure (List Bytes × Bool) := do
  let target ← ensureSafeDestination M w relative false
  match lstat M.toKernel w target with
  | none => .error .osError
  | some .dir => .ok (target, true)
  | some (.file _) => .ok (target, false)
  | some (.link bytes) =>
    match fromUtf8 bytes with
    | none => .error .unicodeEncodeError
    | some _ =>
      if generatedSkillLink relative bytes = none then
        .error (refuse "planned removal is unsupported: " relative)
      else .ok (target, false)

def deepestFirst (directories : List (List Bytes)) : List (List Bytes) :=
  directories.insertionSort fun a b => b.length ≤ a.length

def removeAll (removals : List Text) : Op (Root O) Failure := fun w =>
  match removals.mapM (removalKind M w) with
  | .error failure => (w, .error failure)
  | .ok kinds =>
    let files := (kinds.filter fun kind => !kind.2).map Prod.fst
    let directories := (kinds.filter fun kind => kind.2).map Prod.fst
    andThen (forEach (system M.toKernel .osError .unlink) files)
      (forEach (system M.toKernel .osError .rmdir) (deepestFirst directories)) w

def unlinkExisting (target : List Bytes) : Op (Root O) Failure := fun w =>
  match query M w target with
  | .error failure => (w, .error failure)
  | .ok () =>
    if pathExists M.toKernel w target || isSymlink M.toKernel w target then
      system M.toKernel .osError .unlink target w
    else (w, .ok ())

def symlinkTo (bytes : Bytes) (target : List Bytes) : Op (Root O) Failure := fun w =>
  if M.limits.target < bytes.length then (w, .error .osError)
  else system M.toKernel .osError (.symlink bytes) target w

def writeLink (link : PlannedLink) : Op (Root O) Failure := fun w =>
  match ensureSafeDestination M w link.relative true with
  | .error failure => (w, .error failure)
  | .ok target =>
    andThen (makeParents M.toKernel .osError target)
      (andThen (unlinkExisting M target) (symlinkTo M (utf8 link.target) target)) w

def applyPlan (plan : Plan) : Op (Root O) Failure :=
  andThen (forEach (writeFile M) plan.regularWrites)
    (andThen (removeAll M plan.removalPaths)
      (andThen (forEach (writeLink M) plan.linkWrites) fun w => (w, verifyPlan M w plan)))

def writePlan (writes : List Planned) (removals : List Text) : Op (Root O) Failure := fun w =>
  match admitPlan M w writes removals with
  | .error failure => (w, .error failure)
  | .ok plan => applyPlan M plan w

end FilePlans
