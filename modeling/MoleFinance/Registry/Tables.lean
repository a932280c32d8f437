import MoleFinance.Registry.Template

/-! `parse_market_tables`: the tables of a configuration text, line by line. -/
namespace MoleFinance.Registry
open Chars Call

structure RawTable where
  headerLine : Nat
  fields : List (Text × Text)
deriving DecidableEq

/-- The loop of `strip_comment`: inside a string or not, behind the character `prev`. A quote
behind a backslash does not open or close one. -/
def stripFrom (inStr : Bool) (prev : Option Char) : Text → Text
  | [] => []
  | c :: cs =>
    if c = '"' ∧ prev ≠ some '\\' then c :: stripFrom (!inStr) (some c) cs
    else if c = '#' ∧ inStr = false then []
    else c :: stripFrom inStr (some c) cs

def stripComment (line : Text) : Text := stripFrom false none line

def isBareKeyChar (c : Char) : Bool := c.isAlphanum || c == '_' || c == '-'

def cutOr (c : Char) (s : Text) (e : RegistryError) : Except RegistryError (Text × Text) :=
  match cut c s with
  | some p => .ok p
  | none => .error e

def parseKeyValue (line : Text) (lineNum : Nat) : Except RegistryError (Text × Text) := do
  let (before, behind) ← cutOr '=' line
    (.toml lineNum ("expected `key = \"value\"`, got " ++ quoted line))
  let key := trim before
  ensure (key ≠ [] ∧ key.all isBareKeyChar = true)
    (.toml lineNum ("invalid bare key " ++ quoted key))
  let rest := trim behind
  ensure (rest.head? = some '"')
    (.toml lineNum ("value for " ++ quoted key ++ " must be a double-quoted string (got " ++
      quoted rest ++ ")"))
  let (value, tail) ← cutOr '"' rest.tail
    (.toml lineNum ("unterminated string for " ++ quoted key))
  let after := trim tail
  ensure (after = [])
    (.toml lineNum ("trailing tokens after string value for " ++ quoted key ++ ": " ++
      quoted after))
  return (key, value)

structure Progress where
  tables : List RawTable := []
  current : Option RawTable := none

def Progress.flush (p : Progress) : List RawTable := p.tables ++ p.current.toList

def content (line : Text) : Text := trim (stripComment line)

def parseContent (lineNum : Nat) (line : Text) (p : Progress) : Except RegistryError Progress :=
  if line.take 2 = ['[', '['] ∧ line.drop (line.length - 2) = [']', ']'] then do
    let header := (line.drop 2).take (line.length - 2 - 2)
    ensure (trim header = "markets".toList)
      (.toml lineNum ("unsupported header `[[" ++ String.ofList header ++
        "]]` (only `[[markets]]` is allowed)"))
    return ⟨p.flush, some ⟨lineNum, []⟩⟩
  else if line.head? = some '[' then
    .error (.toml lineNum ("unsupported header " ++ quoted line ++ " (use `[[markets]]`)"))
  else do
    let (key, value) ← parseKeyValue line lineNum
    match p.current with
    | some t => .ok { p with current := some { t with fields := t.fields ++ [(key, value)] } }
    | none =>
      .error (.toml lineNum ("orphan key " ++ quoted key ++ " outside any `[[markets]]` table"))

/-- The loop of `parse_market_tables`, the next line with its number. -/
def parseLines : Nat → List Text → Progress → Except RegistryError Progress
  | _, [], p => .ok p
  | lineNum, raw :: rest, p =>
    let line := content raw
    if line = [] then parseLines (lineNum + 1) rest p
    else do
      let p ← parseContent lineNum line p
      parseLines (lineNum + 1) rest p

def parseMarketTables (input : Text) : Except RegistryError (List RawTable) :=
  Progress.flush <$> parseLines 1 (lines input) {}

end MoleFinance.Registry
