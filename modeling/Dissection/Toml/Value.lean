import Dissection.Toml.Number
import Dissection.Toml.Token

namespace Dissection.Toml

/-- A value. -/
inductive Value where
  | text (text : String)
  | boolean (value : Bool)
  | integer (value : Int)
  | float
  /-- A date, a time of day or both. -/
  | moment
  | array (items : List Value)
  /-- A table in braces. -/
  | inlineTable (entries : List (String × Value))
  /-- A table that keys with points make. -/
  | dottedTable (entries : List (String × Value))

/-- The keys of a table with their values, in order. A key may come twice. -/
abbrev Table := List (String × Value)

/-- Adds a value under a path of keys. Points lead only into tables that points
have made. -/
def Table.add (entries : Table) (value : Value) : List String → Option Table
  | [] => none
  | [key] => some (entries ++ [(key, value)])
  | key :: rest => do
      match entries.findIdx? (·.1 == key) with
      | none =>
          let inner ← Table.add [] value rest
          some (entries ++ [(key, .dottedTable inner)])
      | some index =>
          match entries[index]? with
          | some (_, .dottedTable inner) =>
              let inner ← Table.add inner value rest
              some (entries.set index (key, .dottedTable inner))
          | _ => none

/-- A reader of something at the front of a row of tokens. -/
abbrev Reader (α : Type) := List Token → Option (α × List Token)

def Token.isBlank (token : Token) : Bool :=
  token == .space || token == .tabulator

def skipBlanks (tokens : List Token) : List Token :=
  tokens.dropWhile Token.isBlank

def skipSpace (tokens : List Token) : List Token :=
  tokens.dropWhile fun token => token.isBlank || token == .newline

def key : Reader String
  | .bare text :: rest => some (String.ofList text, rest)
  | .quoted text :: rest => some (text, rest)
  | _ => none

/-- Keys with points between them, of which at most `room` are read, and the
blanks behind them. -/
def keyPathUpTo : Nat → Reader (List String)
  | 0, _ => none
  | room + 1, tokens => do
      let (first, rest) ← key tokens
      match skipBlanks rest with
      | .period :: rest =>
          let (path, rest) ← keyPathUpTo room (skipBlanks rest)
          some (first :: path, rest)
      | rest => some ([first], rest)

/-- Keys with points between them, and the blanks behind them. -/
def keyPath : Reader (List String) := fun tokens =>
  keyPathUpTo tokens.length tokens

/-- A float whose integral part is given, with what belongs to it among the
tokens. -/
def float (integral : List Char) : Reader Value := fun tokens =>
  let (fraction, tokens) :=
    match tokens with
    | .period :: .bare text :: rest => (some text, rest)
    | _ => (none, tokens)
  let ends (letter : Char) := (fraction.getD integral).getLast? = some letter
  match tokens with
  | .plus :: .bare text :: rest =>
      if ends 'e' || ends 'E' then
        if isFloat integral fraction (some text) then some (.float, rest) else none
      else if isFloat integral fraction none then some (.float, tokens) else none
  | _ => if isFloat integral fraction none then some (.float, tokens) else none

def number (word : List Char) : Reader Value := fun tokens =>
  match word with
  | '0' :: 'x' :: digits => (basedInteger? 16 digits).map fun value => (.integer value, tokens)
  | '0' :: 'o' :: digits => (basedInteger? 8 digits).map fun value => (.integer value, tokens)
  | '0' :: 'b' :: digits => (basedInteger? 2 digits).map fun value => (.integer value, tokens)
  | _ =>
      if word.contains 'e' || word.contains 'E' then
        match tokens with
        | .plus :: .bare _ :: _ => float word tokens
        | _ => if isFloat word none none then some (.float, tokens) else none
      else
        match tokens with
        | .period :: _ => float word tokens
        | _ =>
            if (splitSign word).2 = ['i', 'n', 'f'] || (splitSign word).2 = ['n', 'a', 'n'] then
              some (.float, tokens)
            else (decimalInteger? word).map fun value => (.integer value, tokens)

/-- Whether a word with which a number might begin is a date, or a date with an hour.
It is one if it has the letter T in it, or a dash behind its first character,
unless there is also a dash behind the letter of an exponent. -/
def isDate (word : List Char) : Bool :=
  word.contains 'T' || word.contains 't' ||
    (word.tail.contains '-' &&
      !(word.zip word.tail).any fun (c, next) => (c = 'e' || c = 'E') && next = '-')

/-- The tokens behind a mark and the word that has to follow it, if the mark comes
first. -/
def skipMarked (mark : Token) : List Token → Option (List Token)
  | [] => some []
  | first :: rest =>
      if first = mark then
        match rest with
        | .bare _ :: rest => some rest
        | _ => none
      else some (first :: rest)

/-- A time of day behind its hour and a colon: minutes and seconds, of which the
latter may have a fraction and an offset. -/
def clock : Reader Value
  | .bare _ :: .colon :: .bare _ :: rest => do
      let rest ← skipMarked .period rest
      let rest ← skipMarked .plus rest
      let rest ← skipMarked .colon rest
      some (.moment, rest)
  | _ => none

/-- What may follow a date: a space and an hour, and the time of day behind the
hour. -/
def behindDate : Reader Value := fun tokens =>
  let tokens :=
    match tokens with
    | .space :: .bare _ :: rest => rest
    | tokens => tokens
  match tokens with
  | .colon :: rest => clock rest
  | rest => some (.moment, rest)

/-- A number, a date or a time of day that begins with a word. -/
def numeral (word : List Char) : Reader Value := fun tokens =>
  if isDate word then behindDate tokens
  else
    match tokens with
    | .colon :: rest => clock rest
    | _ => number word tokens

/-- Items with commas between them up to the closing bracket, at most `room` of
them. A comma may stand behind the last. -/
def itemsUpTo (item : Reader Value) : Nat → Reader (List Value)
  | 0, _ => none
  | room + 1, tokens =>
      match skipSpace tokens with
      | .closeBracket :: rest => some ([], rest)
      | tokens => do
          let (first, rest) ← item tokens
          match skipSpace rest with
          | .comma :: rest =>
              let (items, rest) ← itemsUpTo item room rest
              some (first :: items, rest)
          | .closeBracket :: rest => some ([first], rest)
          | _ => none

/-- Keys with values, with commas between them, up to the closing brace, at most
`room` of them. No comma stands behind the last. -/
def pairsUpTo (value : Reader Value) : Nat → Table → Reader Table
  | 0, _, _ => none
  | room + 1, entries, tokens => do
      let (path, rest) ← keyPath tokens
      match rest with
      | .equals :: rest =>
          let (first, rest) ← value (skipBlanks rest)
          let entries ← entries.add first path
          match skipBlanks rest with
          | .comma :: rest => pairsUpTo value room entries (skipBlanks rest)
          | .closeBrace :: rest => some (entries, rest)
          | _ => none
      | _ => none

def valueUpTo : Nat → Reader Value
  | 0, _ => none
  | room + 1, tokens =>
      match tokens with
      | .quoted text :: rest => some (.text text, rest)
      | .block text :: rest => some (.text text, rest)
      | .bare ['t', 'r', 'u', 'e'] :: rest => some (.boolean true, rest)
      | .bare ['f', 'a', 'l', 's', 'e'] :: rest => some (.boolean false, rest)
      | .bare word :: rest =>
          if word = ['i', 'n', 'f'] || word = ['n', 'a', 'n'] then numeral word rest
          else
            match word with
            | c :: _ => if c = '-' || ('0' ≤ c && c ≤ '9') then numeral word rest else none
            | [] => none
      | .plus :: .bare word :: rest => number word rest
      | .openBracket :: rest => do
          let (items, rest) ← itemsUpTo (valueUpTo room) rest.length rest
          some (.array items, rest)
      | .openBrace :: rest =>
          match skipBlanks rest with
          | .closeBrace :: rest => some (.inlineTable [], rest)
          | rest => do
              let (entries, rest) ← pairsUpTo (valueUpTo room) rest.length [] rest
              some (.inlineTable entries, rest)
      | _ => none

def value : Reader Value := fun tokens =>
  valueUpTo tokens.length tokens

end Dissection.Toml
