import ServiceTemplate.TextLines
import ServiceTemplate.Utf8Text
import Mathlib.Data.List.DropRight

/-! Profile markers: the recogniser over decoded lines that projects files, and the recogniser over
bytes that says whether a file carries markers. -/
namespace ProfileMarkers

open ByteFraming
open Utf8Text
open TextLines

/-- What the patterns are matched against: characters, or bytes. -/
structure Symbols (α : Type) where
  literal : String → List α
  blank : α → Bool
  alnum : α → Bool
  hyphen : α

def characters : Symbols Char where
  literal := String.toList
  blank c := c == ' ' || c == '\t'
  alnum c := (decide ('a' ≤ c) && decide (c ≤ 'z')) || (decide ('0' ≤ c) && decide (c ≤ '9'))
  hyphen := '-'

def bytes : Symbols UInt8 where
  literal text := utf8 text.toList
  blank b := b == 32 || b == 9
  alnum b := (decide (97 ≤ b) && decide (b ≤ 122)) || (decide (48 ≤ b) && decide (b ≤ 57))
  hyphen := 45

inductive Kind where
  | begins
  | ends
  deriving DecidableEq, Repr

section Patterns

variable {α : Type} [BEq α] (S : Symbols α)

/-- `#`, `//` or `<!--`; whether it is the last one. -/
def comment (xs : List α) : Option (Bool × List α) :=
  ((S.literal "#").isPrefixOf? xs).map (false, ·) <|>
    ((S.literal "//").isPrefixOf? xs).map (false, ·) <|>
      ((S.literal "<!--").isPrefixOf? xs).map (true, ·)

def kindOf (xs : List α) : Option (Kind × List α) :=
  ((S.literal "begin").isPrefixOf? xs).map (.begins, ·) <|>
    ((S.literal "end").isPrefixOf? xs).map (.ends, ·)

/-- `[ \t]*(#|//|<!--)[ \t]*template:(begin|end)`, and what is left. -/
def opening (xs : List α) : Option (Bool × Kind × List α) := do
  let (html, xs) ← comment S (xs.dropWhile S.blank)
  let xs ← (S.literal "template:").isPrefixOf? (xs.dropWhile S.blank)
  let (kind, xs) ← kindOf S xs
  some (html, kind, xs)

/-- The rest of `[a-z0-9]+(-[a-z0-9]+)*` after its first character. What may follow a name is
neither alphanumeric nor a hyphen before an alphanumeric, so the longest match is the only one. -/
def slugTail : List α → List α × List α
  | [] => ([], [])
  | x :: xs =>
    if S.alnum x || (x == S.hyphen && xs.head?.any S.alnum) then
      let (name, rest) := slugTail xs
      (x :: name, rest)
    else ([], x :: xs)

def slug (xs : List α) : Option (List α × List α) :=
  if xs.head?.any S.alnum then some (slugTail S xs) else none

/-- A whole marker: its kind, profile and id, and what is left after the blanks behind it. -/
def wholeMarker (xs : List α) : Option (Kind × List α × List α × List α) := do
  let (html, kind, xs) ← opening S xs
  if !xs.head?.any S.blank then none
  else
    let (profile, xs) ← slug S (xs.dropWhile S.blank)
    let xs ← (S.literal ":").isPrefixOf? xs
    let (id, xs) ← slug S xs
    let xs ← if html then (S.literal "-->").isPrefixOf? (xs.dropWhile S.blank) else some xs
    some (kind, profile, id, xs.dropWhile S.blank)

/-- The marker prefix: begin or end before a blank or the end of the line. -/
def markerPrefix (atEnd : List α → Bool) (xs : List α) : Bool :=
  match opening S xs with
  | none => false
  | some (_, _, rest) => rest.head?.any S.blank || atEnd rest

end Patterns

/-- `$` in a text matches at its end and before a last newline. -/
def textEnd (rest : Text) : Bool := rest == [] || rest == ['\n']

/-- `_MARKER_PREFIX_RE.match`. -/
def prefixed (line : Text) : Bool := markerPrefix characters textEnd line

/-- `_marker`: the whole line is a marker. -/
def marker (line : Text) : Option (Kind × Text × Text) :=
  match wholeMarker characters line with
  | some (kind, profile, id, []) => some (kind, profile, id)
  | _ => none

/-- `$` of a multi-line pattern over bytes. -/
def lineEnd (rest : Bytes) : Bool := rest == [] || rest.head? == some 10

/-- A multi-line `^` matches at the start and after every newline. -/
def searchAfter (matches? : Bytes → Bool) : Bytes → Bool
  | [] => false
  | b :: rest => (b == 10 && matches? rest) || searchAfter matches? rest

def search (matches? : Bytes → Bool) (contents : Bytes) : Bool :=
  matches? contents || searchAfter matches? contents

def profileMarkerLine (contents : Bytes) : Bool :=
  match wholeMarker bytes contents with
  | none => false
  | some (_, _, _, rest) => lineEnd rest || (rest.head? == some 13 && lineEnd rest.tail)

def profileMarkerPrefix (contents : Bytes) : Bool := markerPrefix bytes lineEnd contents

def containsProfileMarker (contents : Bytes) : Bool :=
  search profileMarkerLine contents || search profileMarkerPrefix contents

abbrev Key := Text × Text × Text

/-- A path and its contents; no two files of a snapshot share a path. -/
abbrev File := Text × Bytes

structure Progress where
  stack : List (Text × Text)
  transformed : List Text
  found : Bool
  seen : List Key
  deriving DecidableEq, Repr

def rstrip (line : Text) : Text := line.rdropWhile fun c => c == '\r' || c == '\n'

def inFile (message : String) (relative : Text) : String := message ++ String.ofList relative

section Apply

variable (expected : List Key) (selected : Text → Bool)

def lineStep (relative : Text) (s : Progress) (line : Text) : Except String Progress :=
  match marker (rstrip line) with
  | none =>
    if prefixed line then .error (inFile "malformed profile marker in " relative)
    else if s.stack.getLast?.any fun enclosing => !selected enclosing.1 then .ok s
    else .ok { s with transformed := s.transformed ++ [line] }
  | some (kind, profile, id) =>
    let key := (profile, relative, id)
    if key ∉ expected then .error (inFile "unknown profile marker in " relative)
    else
      match kind with
      | .begins =>
        if s.stack ≠ [] then .error (inFile "nested profile marker in " relative)
        else if key ∈ s.seen then .error (inFile "duplicate profile marker in " relative)
        else .ok { s with stack := s.stack ++ [(profile, id)], found := true, seen := s.seen ++ [key] }
      | .ends =>
        if s.stack ≠ [(profile, id)] then .error (inFile "mismatched profile marker in " relative)
        else .ok { s with stack := s.stack.dropLast, found := true }

/-- Recorded historical patches are no carriers of current profiles. -/
def isReplayPatch (relative : Text) : Bool :=
  "test/fixtures/postgres_sustained/replay/".toList.isPrefixOf relative &&
    ".patch".toList.isSuffixOf relative

/-- `read_text(encoding="utf-8").splitlines(keepends=True)`; none where the bytes do not decode. -/
def readLines (contents : Bytes) : Option (List Text) :=
  (fromUtf8 contents).map fun text => splitlines (universal text.toList)

def fileStep (seen : List Key) (file : File) : Except String (File × List Key) :=
  if isReplayPatch file.1 then .ok (file, seen)
  else
    match readLines file.2 with
    | none => .ok (file, seen)
    | some lines => do
      let s ← lines.foldlM (lineStep expected selected file.1) ⟨[], [], false, seen⟩
      if s.stack ≠ [] then .error (inFile "unclosed profile marker in " file.1)
      else .ok (if s.found then (file.1, utf8 s.transformed.flatten) else file, s.seen)

def applyFiles : List File → List Key → Except String (List File × List Key)
  | [], seen => .ok ([], seen)
  | file :: files, seen => do
    let (file, seen) ← fileStep expected selected seen file
    let (files, seen) ← applyFiles files seen
    .ok (file :: files, seen)

def applyMarkers (files : List File) : Except String (List File) := do
  let (files, seen) ← applyFiles expected selected files []
  if (∀ key ∈ seen, key ∈ expected) ∧ ∀ key ∈ expected, key ∈ seen then .ok files
  else .error "template profile marker inventory does not match source"

end Apply

end ProfileMarkers
