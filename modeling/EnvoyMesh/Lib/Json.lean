import Mathlib.Algebra.Ring.Nat
import Mathlib.Tactic.Common

/-! # JSON text

The values a JSON text denotes and the reader that Go's `encoding/json` applies to it: the grammar of
RFC 8259, white space skipped between tokens, `\u` escapes decoded as UTF-16 (an unpaired surrogate
becomes U+FFFD), and a limit on the nesting depth. An object keeps its members in the order of the
text, repeated keys included, since decoders differ in what they do with those. -/

/-- A JSON value. A number is kept as its literal. -/
inductive Json where
  | null
  | bool (b : Bool)
  | num (literal : String)
  | str (s : String)
  | arr (items : List Json)
  | obj (members : List (String × Json))

namespace Json

def isSpace (c : Char) : Bool := c == ' ' || c == '\t' || c == '\r' || c == '\n'

def skipSpace (cs : List Char) : List Char := cs.dropWhile isSpace

def literal? : List Char → List Char → Option (List Char)
  | [], cs => some cs
  | _ :: _, [] => none
  | l :: ls, c :: cs => if l = c then literal? ls cs else none

/-! ### Strings -/

def hexDigit? (c : Char) : Option Nat :=
  if '0' ≤ c ∧ c ≤ '9' then some (c.toNat - '0'.toNat)
  else if 'a' ≤ c ∧ c ≤ 'f' then some (c.toNat - 'a'.toNat + 10)
  else if 'A' ≤ c ∧ c ≤ 'F' then some (c.toNat - 'A'.toNat + 10)
  else none

def hex4? (a b c d : Char) : Option Nat := do
  let a ← hexDigit? a
  let b ← hexDigit? b
  let c ← hexDigit? c
  let d ← hexDigit? d
  return ((a * 16 + b) * 16 + c) * 16 + d

def isHigh (u : Nat) : Bool := 0xd800 ≤ u && u < 0xdc00
def isLow (u : Nat) : Bool := 0xdc00 ≤ u && u < 0xe000

def replacement : Char := Char.ofNat 0xfffd

def escape? : Char → Option Char
  | '"' => some '"'
  | '\\' => some '\\'
  | '/' => some '/'
  | 'b' => some (Char.ofNat 8)
  | 'f' => some (Char.ofNat 12)
  | 'n' => some '\n'
  | 'r' => some '\r'
  | 't' => some '\t'
  | _ => none

/-- The characters of a string up to its closing quote, and the text behind it. A high surrogate is
    held in `pending` until the next code unit shows whether it is paired. -/
def readString (pending : Option Nat) : List Char → Option (List Char × List Char)
  | [] => none
  | '"' :: cs => some (pending.elim [] fun _ => [replacement], cs)
  | '\\' :: 'u' :: a :: b :: c :: d :: cs => do
    let u ← hex4? a b c d
    match pending with
    | some hi =>
      if isLow u then
        let (s, rest) ← readString none cs
        return (Char.ofNat (0x10000 + (hi - 0xd800) * 0x400 + (u - 0xdc00)) :: s, rest)
      else if isHigh u then
        let (s, rest) ← readString (some u) cs
        return (replacement :: s, rest)
      else
        let (s, rest) ← readString none cs
        return (replacement :: Char.ofNat u :: s, rest)
    | none =>
      if isHigh u then readString (some u) cs
      else
        let (s, rest) ← readString none cs
        return ((if isLow u then replacement else Char.ofNat u) :: s, rest)
  | '\\' :: e :: cs => do
    let ch ← escape? e
    let (s, rest) ← readString none cs
    return ((pending.elim [] fun _ => [replacement]) ++ ch :: s, rest)
  | ch :: cs => do
    -- control characters must be escaped
    if ch.toNat < 0x20 then none
    let (s, rest) ← readString none cs
    return ((pending.elim [] fun _ => [replacement]) ++ ch :: s, rest)

/-! ### Numbers -/

def digits (cs : List Char) : List Char × List Char := cs.span Char.isDigit

def digits1? (cs : List Char) : Option (List Char × List Char) :=
  match digits cs with
  | ([], _) => none
  | ds => some ds

def intPart? : List Char → Option (List Char × List Char)
  | '0' :: cs => some (['0'], cs)
  | cs => digits1? cs

def fracPart? : List Char → Option (List Char × List Char)
  | '.' :: cs => do
    let (ds, rest) ← digits1? cs
    return ('.' :: ds, rest)
  | cs => some ([], cs)

def expPart? : List Char → Option (List Char × List Char)
  | e :: cs =>
    if e = 'e' ∨ e = 'E' then
      match cs with
      | s :: cs' =>
        if s = '+' ∨ s = '-' then do
          let (ds, rest) ← digits1? cs'
          return (e :: s :: ds, rest)
        else do
          let (ds, rest) ← digits1? cs
          return (e :: ds, rest)
      | [] => none
    else some ([], e :: cs)
  | [] => some ([], [])

def readUnsigned (cs : List Char) : Option (List Char × List Char) := do
  let (i, cs) ← intPart? cs
  let (f, cs) ← fracPart? cs
  let (e, cs) ← expPart? cs
  return (i ++ f ++ e, cs)

def readNumber : List Char → Option (List Char × List Char)
  | '-' :: cs => do
    let (n, rest) ← readUnsigned cs
    return ('-' :: n, rest)
  | cs => readUnsigned cs

/-! ### Values -/

/-- The elements of an array from the first one on, up to the closing bracket. -/
def readItems (value : List Char → Option (Json × List Char)) : Nat → List Char → Option (List Json × List Char)
  | 0, _ => none
  | n + 1, cs => do
    let (j, rest) ← value cs
    match skipSpace rest with
    | ',' :: rest =>
      let (js, rest) ← readItems value n rest
      return (j :: js, rest)
    | ']' :: rest => return ([j], rest)
    | _ => none

/-- The members of an object from the first one on, up to the closing brace. -/
def readMembers (value : List Char → Option (Json × List Char)) :
    Nat → List Char → Option (List (String × Json) × List Char)
  | 0, _ => none
  | n + 1, cs =>
    match skipSpace cs with
    | '"' :: cs => do
      let (key, rest) ← readString none cs
      match skipSpace rest with
      | ':' :: rest =>
        let (j, rest) ← value rest
        match skipSpace rest with
        | ',' :: rest =>
          let (ms, rest) ← readMembers value n rest
          return ((String.ofList key, j) :: ms, rest)
        | '}' :: rest => return ([(String.ofList key, j)], rest)
        | _ => none
      | _ => none
    | _ => none

/-- The value at the front of a text and what follows it. `depth` bounds the nesting of arrays and
    objects. -/
def readValue : Nat → List Char → Option (Json × List Char)
  | depth, cs =>
    match skipSpace cs with
    | 'n' :: cs => (literal? "ull".toList cs).map fun rest => (null, rest)
    | 't' :: cs => (literal? "rue".toList cs).map fun rest => (bool true, rest)
    | 'f' :: cs => (literal? "alse".toList cs).map fun rest => (bool false, rest)
    | '"' :: cs => (readString none cs).map fun (s, rest) => (str (String.ofList s), rest)
    | '[' :: cs =>
      match depth with
      | 0 => none
      | depth + 1 =>
        match skipSpace cs with
        | ']' :: rest => some (arr [], rest)
        | cs => (readItems (readValue depth) cs.length cs).map fun (js, rest) => (arr js, rest)
    | '{' :: cs =>
      match depth with
      | 0 => none
      | depth + 1 =>
        match skipSpace cs with
        | '}' :: rest => some (obj [], rest)
        | cs => (readMembers (readValue depth) cs.length cs).map fun (ms, rest) => (obj ms, rest)
    | cs => (readNumber cs).map fun (n, rest) => (num (String.ofList n), rest)

/-- `maxNestingDepth` of `encoding/json`. -/
def maxNestingDepth : Nat := 10000

def parse (text : String) : Option Json :=
  match readValue maxNestingDepth text.toList with
  | some (j, rest) => if skipSpace rest = [] then some j else none
  | none => none

/-! ### What a number denotes -/

def natOfDigits (ds : List Char) : Nat := ds.foldl (fun n d => 10 * n + (d.toNat - '0'.toNat)) 0

def exponent : List Char → Int
  | [] => 0
  | _ :: '-' :: ds => -natOfDigits ds
  | _ :: '+' :: ds => natOfDigits ds
  | _ :: ds => natOfDigits ds

/-- The integer that a number literal without sign denotes, if it denotes one: `1e2` and `1.0` do. -/
def natural? (cs : List Char) : Option Nat :=
  let (i, rest) := digits cs
  let (f, rest) := match rest with
    | '.' :: rest => digits rest
    | rest => ([], rest)
  let mantissa := natOfDigits (i ++ f)
  match exponent rest - f.length with
  | .ofNat e => some (mantissa * 10 ^ e)
  | .negSucc e => if 10 ^ (e + 1) ∣ mantissa then some (mantissa / 10 ^ (e + 1)) else none

def integer? (literal : String) : Option Int :=
  match literal.toList with
  | '-' :: cs => (natural? cs).map fun n => -(n : Int)
  | cs => (natural? cs).map Int.ofNat

/-- The literal has neither a fraction nor an exponent. -/
def isPlain (literal : String) : Bool := literal.toList.all fun c => c ≠ '.' && c ≠ 'e' && c ≠ 'E'

end Json
