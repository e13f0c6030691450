import Dissection.Toml.Value

/-!
TOML documents: keys with values, some of them below table headers.
-/

namespace Dissection.Toml

/-- A table below a header. -/
structure Section where
  path : List String
  /-- Whether the header begins a table of an array. -/
  isItem : Bool
  entries : Table

/-- A document: the keys above all headers, and the tables below them. -/
structure Document where
  entries : Table
  sections : List Section

def lineEnd : Reader Unit := fun tokens =>
  match skipBlanks tokens with
  | [] => some ((), [])
  | .newline :: rest => some ((), rest)
  | _ => none

def header : Reader Section
  | .openBracket :: .openBracket :: rest => do
      let (path, rest) ← keyPath (skipBlanks rest)
      match rest with
      | .closeBracket :: .closeBracket :: rest =>
          let ((), rest) ← lineEnd rest
          some (⟨path, true, []⟩, rest)
      | _ => none
  | .openBracket :: rest => do
      let (path, rest) ← keyPath (skipBlanks rest)
      match rest with
      | .closeBracket :: rest =>
          let ((), rest) ← lineEnd rest
          some (⟨path, false, []⟩, rest)
      | _ => none
  | _ => none

/-- A key with its value on a line of its own. -/
def keyValue : Reader (List String × Value) := fun tokens => do
  let (path, rest) ← keyPath tokens
  match rest with
  | .equals :: rest =>
      let (found, rest) ← value (skipBlanks rest)
      let ((), rest) ← lineEnd rest
      some ((path, found), rest)
  | _ => none

/-- The document of a row of tokens, read behind the keys of the table at hand, in
at most `room` lines. -/
def documentUpTo : Nat → Table → List Token → Option Document
  | 0, _, _ => none
  | room + 1, entries, tokens =>
      match skipSpace tokens with
      | [] => some ⟨entries, []⟩
      | .openBracket :: rest => do
          let (first, rest) ← header (.openBracket :: rest)
          let behind ← documentUpTo room [] rest
          some ⟨entries, { first with entries := behind.entries } :: behind.sections⟩
      | tokens => do
          let ((path, found), rest) ← keyValue tokens
          let entries ← entries.add found path
          documentUpTo room entries rest

/-- What the headers read so far make of a path of keys. -/
inductive Standing where
  /-- A table with a header of its own. -/
  | table
  /-- An array of tables. -/
  | array
  /-- A table that only leads to others. -/
  | passage

/-- The paths that the headers read so far have given a standing. -/
abbrev Outline := List (List String × Standing)

namespace Outline

/-- Gives a standing as passages to the paths that lead to a path, unless they have
one already. -/
def addPassages (outline : Outline) (path : List String) : Outline :=
  ((List.range path.length).drop 1).foldl (fun outline length =>
    if (outline.lookup (path.take length)).isSome then outline
    else (path.take length, .passage) :: outline) outline

/-- Adds the header of a table. No table has two headers, and what is a table is not
an array. The header of a further item of an array begins anew below its path. -/
def add? (outline : Outline) (header : Section) : Option Outline :=
  match header.isItem, outline.lookup header.path with
  | true, none | true, some .array =>
      let others := outline.filter fun (path, _) => !header.path.isPrefixOf path
      some (addPassages ((header.path, .array) :: others) header.path)
  | false, none | false, some .passage =>
      some (addPassages ((header.path, .table) :: outline) header.path)
  | _, _ => none

end Outline

/-- Whether the headers of a document agree with one another. -/
def Document.isConsistent (document : Document) : Bool :=
  (document.sections.foldlM Outline.add? []).isSome

def document? (text : String) : Option Document := do
  let tokens ← tokens? text
  let document ← documentUpTo (tokens.length + 1) [] tokens
  if document.isConsistent then some document else none

end Dissection.Toml
