import Dissection.Bytes.Hex

namespace Dissection.Toml

/-- A token. -/
inductive Token where
  | newline
  | space
  | tabulator
  | equals
  | period
  | comma
  | colon
  | plus
  | openBracket
  | closeBracket
  | openBrace
  | closeBrace
  /-- A run of letters, digits, dashes and underscores. -/
  | bare (text : List Char)
  | quoted (text : String)
  /-- A string between three quotes. -/
  | block (text : String)
  deriving DecidableEq, Repr

def isBare (c : Char) : Bool :=
  ('A' ≤ c && c ≤ 'Z') || ('a' ≤ c && c ≤ 'z') || ('0' ≤ c && c ≤ '9') || c = '-' || c = '_'

def isComment (c : Char) : Bool :=
  c = '\t' || 0x20 ≤ c.toNat

def isText (c : Char) : Bool :=
  isComment c && c.toNat != 0x7F

/-- The character that a letter behind a backslash stands for. -/
def escape? (c : Char) : Option Char :=
  match c with
  | '\x22' => some '\x22'
  | '\x5c' => some '\x5c'
  | 'b' => some '\x08'
  | 't' => some '\t'
  | 'n' => some '\n'
  | 'f' => some '\x0c'
  | 'r' => some '\r'
  | _ => none

def codePoint? (digits : List Char) : Option Char := do
  let values ← digits.mapM Hex.value?
  let number := values.foldl (fun high digit => high * 16 + digit) 0
  if number.isValidChar then some (Char.ofNat number) else none

/-- The rest of a string in double quotes, with what stands behind it. -/
def basicString : List Char → Option (List Char × List Char)
  | [] => none
  | '\x22' :: rest => some ([], rest)
  | '\x5c' :: 'u' :: a :: b :: c :: d :: rest => do
      let first ← codePoint? [a, b, c, d]
      let (text, behind) ← basicString rest
      some (first :: text, behind)
  | '\x5c' :: 'U' :: a :: b :: c :: d :: e :: f :: g :: h :: rest => do
      let first ← codePoint? [a, b, c, d, e, f, g, h]
      let (text, behind) ← basicString rest
      some (first :: text, behind)
  | '\x5c' :: c :: rest => do
      let first ← escape? c
      let (text, behind) ← basicString rest
      some (first :: text, behind)
  | c :: rest =>
      if isText c then do
        let (text, behind) ← basicString rest
        some (c :: text, behind)
      else none

/-- The rest of a string in single quotes, with what stands behind it. -/
def literalString : List Char → Option (List Char × List Char)
  | [] => none
  | '\x27' :: rest => some ([], rest)
  | c :: rest =>
      if isText c then do
        let (text, behind) ← literalString rest
        some (c :: text, behind)
      else none

def isBlank (c : Char) : Bool :=
  c = ' ' || c = '\t'

/-- Where in a block of double quotes one stands, with regard to the backslash that
joins a line with the next: behind none, behind one but on its line, or on the
lines that follow. -/
inductive Joint where
  | none
  | ending
  | resuming
  deriving DecidableEq, Repr

/-- The rest of a string between three double quotes, with what stands behind it.
One or two quotes may stand before the three that close it. -/
def basicBlock : Joint → List Char → Option (List Char × List Char)
  | _, [] => none
  | .ending, c :: rest =>
      if c = '\n' then basicBlock .resuming rest
      else if isBlank c then basicBlock .ending rest
      else none
  | _, '\x22' :: '\x22' :: '\x22' :: '\x22' :: '\x22' :: rest =>
      some (['\x22', '\x22'], rest)
  | _, '\x22' :: '\x22' :: '\x22' :: '\x22' :: rest => some (['\x22'], rest)
  | _, '\x22' :: '\x22' :: '\x22' :: rest => some ([], rest)
  | _, '\x5c' :: 'u' :: a :: b :: c :: d :: rest => do
      let first ← codePoint? [a, b, c, d]
      let (text, behind) ← basicBlock .none rest
      some (first :: text, behind)
  | _, '\x5c' :: 'U' :: a :: b :: c :: d :: e :: f :: g :: h :: rest => do
      let first ← codePoint? [a, b, c, d, e, f, g, h]
      let (text, behind) ← basicBlock .none rest
      some (first :: text, behind)
  | _, '\x5c' :: c :: rest =>
      if c = '\n' then basicBlock .resuming rest
      else if isBlank c then basicBlock .ending rest
      else do
        let first ← escape? c
        let (text, behind) ← basicBlock .none rest
        some (first :: text, behind)
  | joint, c :: rest =>
      if joint = .resuming ∧ (isBlank c ∨ c = '\n') then basicBlock .resuming rest
      else if isText c || c = '\n' then do
        let (text, behind) ← basicBlock .none rest
        some (c :: text, behind)
      else none

/-- The rest of a string between three single quotes, with what stands behind it.
One or two quotes may stand before the three that close it. -/
def literalBlock : List Char → Option (List Char × List Char)
  | [] => none
  | '\x27' :: '\x27' :: '\x27' :: '\x27' :: '\x27' :: rest =>
      some (['\x27', '\x27'], rest)
  | '\x27' :: '\x27' :: '\x27' :: '\x27' :: rest => some (['\x27'], rest)
  | '\x27' :: '\x27' :: '\x27' :: rest => some ([], rest)
  | c :: rest =>
      if isText c || c = '\n' then do
        let (text, behind) ← literalBlock rest
        some (c :: text, behind)
      else none

/-- The characters behind a line feed, if it comes first. -/
def skipLineFeed : List Char → List Char
  | '\n' :: rest => rest
  | characters => characters

/-- The string behind a quote, with what stands behind it: a block behind two more
quotes. -/
def quotation (quote : Char) (line block : List Char → Option (List Char × List Char))
    (characters : List Char) : Option (Token × List Char) :=
  match characters with
  | a :: b :: rest =>
      if a = quote ∧ b = quote then
        (block (skipLineFeed rest)).map fun (text, behind) =>
          (.block (String.ofList text), behind)
      else ofLine
  | _ => ofLine
where
  ofLine : Option (Token × List Char) :=
    (line characters).map fun (text, behind) => (.quoted (String.ofList text), behind)

/-- The text with every pair of carriage return and line feed made a line feed. -/
def foldLineEnds : List Char → List Char
  | '\r' :: '\n' :: rest => '\n' :: foldLineEnds rest
  | c :: rest => c :: foldLineEnds rest
  | [] => []

def single? (c : Char) : Option Token :=
  match c with
  | '\n' => some .newline
  | ' ' => some .space
  | '\t' => some .tabulator
  | '=' => some .equals
  | '.' => some .period
  | ',' => some .comma
  | ':' => some .colon
  | '+' => some .plus
  | '[' => some .openBracket
  | ']' => some .closeBracket
  | '\x7b' => some .openBrace
  | '\x7d' => some .closeBrace
  | _ => none

/-- The tokens of a text of at most `room` characters. -/
def tokensUpTo : Nat → List Char → Option (List Token)
  | _, [] => some []
  | 0, _ :: _ => none
  | room + 1, c :: rest =>
      match single? c with
      | some token => (tokensUpTo room rest).map (token :: ·)
      | none =>
          match c with
          | '#' => tokensUpTo room (rest.dropWhile isComment)
          | '\x22' => do
              let (token, behind) ← quotation '\x22' basicString (basicBlock .none) rest
              (tokensUpTo room behind).map (token :: ·)
          | '\x27' => do
              let (token, behind) ← quotation '\x27' literalString literalBlock rest
              (tokensUpTo room behind).map (token :: ·)
          | _ =>
              if isBare c then
                (tokensUpTo room (rest.dropWhile isBare)).map
                  (.bare (c :: rest.takeWhile isBare) :: ·)
              else none

def tokens? (text : String) : Option (List Token) :=
  let characters := foldLineEnds text.toList
  let characters :=
    match characters with
    | '\ufeff' :: rest => rest
    | _ => characters
  tokensUpTo characters.length characters

end Dissection.Toml
