import HdlDesk.Json.Basic
import HdlDesk.Json.Quoted

/-!
# Reading stored values

A strict reader of one JSON text: exactly one value with nothing but blanks, tabs, carriage
returns and line feeds around it and between its tokens; no comments, no trailing commas, no
leading zeros. Each function takes what is left of the text and answers with what it read and the
rest. Every call of the mutual group but the one for an item or a member uses up a character, so
twice the length of the text bounds the depth of the calls; running out is never the reason for a
refusal.
-/
namespace HdlDesk.Json

/-- Drops the blanks that may stand between tokens. -/
def skipBlanks : List Char → List Char
  | [] => []
  | c :: rest => if c = ' ' ∨ c = '\n' ∨ c = '\t' ∨ c = '\r' then skipBlanks rest else c :: rest

/-- Takes the digits at the front, of which there must be one. -/
def digits? (cs : List Char) : Option (List Char × List Char) :=
  match cs.span Char.isDigit with
  | ([], _) => none
  | found => some found

/-- Drops a fraction, if one begins here. -/
def skipFraction? : List Char → Option (List Char)
  | '.' :: rest => (digits? rest).map Prod.snd
  | cs => some cs

/-- Drops an exponent, if one begins here. -/
def skipExponent? : List Char → Option (List Char)
  | c :: rest =>
    if c = 'e' ∨ c = 'E' then
      match rest with
      | '+' :: unsigned => (digits? unsigned).map Prod.snd
      | '-' :: unsigned => (digits? unsigned).map Prod.snd
      | unsigned => (digits? unsigned).map Prod.snd
    else some (c :: rest)
  | [] => some []

/-- The digits before a fraction or exponent; a zero stands alone. -/
def integerPart? (cs : List Char) : Option (List Char × List Char) :=
  match digits? cs with
  | some ('0' :: _ :: _, _) => none
  | found => found

def scanNumber (cs : List Char) : Option (Json × List Char) :=
  match cs with
  | '-' :: unsigned => do
    let (_, rest) ← integerPart? unsigned
    let rest ← skipExponent? (← skipFraction? rest)
    return (.number (String.ofList (cs.take (cs.length - rest.length))), rest)
  | _ => do
    let (whole, afterWhole) ← integerPart? cs
    let rest ← skipExponent? (← skipFraction? afterWhole)
    if rest.length = afterWhole.length then
      return (.natural (Nat.ofDigitChars 10 whole 0), rest)
    else
      return (.number (String.ofList (cs.take (cs.length - rest.length))), rest)

mutual
def scanValue : Nat → List Char → Option (Json × List Char)
  | 0, _ => none
  | fuel + 1, cs =>
    match cs with
    | '"' :: rest => (scanLiteral {} rest).map fun (held, rest) => (.string held, rest)
    | '[' :: rest =>
      match skipBlanks rest with
      | ']' :: rest => some (.array [], rest)
      | rest => scanItems fuel [] rest
    | '\x7b' :: rest =>
      match skipBlanks rest with
      | '\x7d' :: rest => some (.object [], rest)
      | rest => scanMembers fuel [] rest
    | 'n' :: 'u' :: 'l' :: 'l' :: rest => some (.null, rest)
    | 't' :: 'r' :: 'u' :: 'e' :: rest => some (.bool true, rest)
    | 'f' :: 'a' :: 'l' :: 's' :: 'e' :: rest => some (.bool false, rest)
    | cs => scanNumber cs

/-- Reads items up to and with the closing bracket; `done` holds those before, last first. -/
def scanItems : Nat → List Json → List Char → Option (Json × List Char)
  | 0, _, _ => none
  | fuel + 1, done, cs =>
    match scanValue fuel cs with
    | none => none
    | some (item, rest) =>
      match skipBlanks rest with
      | ',' :: rest => scanItems fuel (item :: done) (skipBlanks rest)
      | ']' :: rest => some (.array (item :: done).reverse, rest)
      | _ => none

/-- Reads members up to and with the closing brace; `done` holds those before, last first. -/
def scanMembers : Nat → List (Option String × Json) → List Char → Option (Json × List Char)
  | 0, _, _ => none
  | fuel + 1, done, cs =>
    match cs with
    | '"' :: rest =>
      match scanLiteral {} rest with
      | none => none
      | some (name, rest) =>
        match skipBlanks rest with
        | ':' :: rest =>
          match scanValue fuel (skipBlanks rest) with
          | none => none
          | some (value, rest) =>
            match skipBlanks rest with
            | ',' :: rest => scanMembers fuel ((name, value) :: done) (skipBlanks rest)
            | '\x7d' :: rest => some (.object ((name, value) :: done).reverse, rest)
            | _ => none
        | _ => none
    | _ => none
end

/-- The value a text denotes, or `none` if the text is not one. -/
def parse? (text : String) : Option Json :=
  let cs := text.toList
  match scanValue (2 * cs.length + 2) (skipBlanks cs) with
  | some (value, rest) => if skipBlanks rest = [] then some value else none
  | none => none

end HdlDesk.Json
