import MisuseSlice.Text.Quoted
import MisuseSlice.Text.Regex.Match

/-!
Reading regular expressions: alternatives, groups, character classes, properties, escapes, counted
repetition and the flags `i`, `m`, `s` and `U`, which hold up to the end of the group that sets them.
-/
namespace MisuseSlice.Text.Regex

/-- The flags in force. -/
structure Flags where
  ignoreCase : Bool := false
  multiline : Bool := false
  dotNewline : Bool := false
  deriving DecidableEq, Repr

private def digits : List Property := [.range 48 57]
private def spaces : List Property := [.range 9 10, .range 12 13, .range 32 32]
private def words : List Property := [.range 48 57, .range 65 90, .range 95 95, .range 97 122]

/-- The classes that a letter after a backslash names. -/
private def letterClass? (c : Char) : Option (Bool × List Property) :=
  match c with
  | 'd' => some (false, digits)
  | 'D' => some (true, digits)
  | 's' => some (false, spaces)
  | 'S' => some (true, spaces)
  | 'w' => some (false, words)
  | 'W' => some (true, words)
  | _ => none

/-- The classes that have a name inside brackets. -/
private def namedClass? (name : List Char) : Option (Bool × List Property) :=
  let (negated, name) : Bool × List Char :=
    match name with
    | '^' :: r => (true, r)
    | _ => (false, name)
  let ranges? : Option (List Property) :=
    match String.ofList name with
    | "alnum" => some [.range 48 57, .range 65 90, .range 97 122]
    | "alpha" => some [.range 65 90, .range 97 122]
    | "ascii" => some [.range 0 127]
    | "blank" => some [.range 9 9, .range 32 32]
    | "cntrl" => some [.range 0 31, .range 127 127]
    | "digit" => some digits
    | "graph" => some [.range 33 126]
    | "lower" => some [.range 97 122]
    | "print" => some [.range 32 126]
    | "punct" => some [.range 33 47, .range 58 64, .range 91 96, .range 123 126]
    | "space" => some [.range 9 13, .range 32 32]
    | "upper" => some [.range 65 90]
    | "word" => some words
    | "xdigit" => some [.range 48 57, .range 65 70, .range 97 102]
    | _ => none
  ranges?.map fun rs => (negated, rs)

/-- A name with neither case nor spaces, dashes and underscores. -/
private def bareName (name : List Char) : List Char :=
  (name.filter fun c => c != '_' && c != '-' && c != ' ').map Char.toLower

/-- The property with a name; case, spaces, dashes and underscores do not matter. -/
private def property? (name : List Char) : Option (Bool × List Property) :=
  let bare := bareName name
  let isBare (s : String) : Bool := bareName s.toList == bare
  if isBare "Any" then some (false, [.range 0 0x10FFFF])
  else if isBare "Assigned" then some (true, [.category "Cn"])
  else if isBare "ASCII" then some (false, [.range 0 127])
  else
    match categoryNames.find? isBare, scriptNames.find? isBare, categoryAliases.find? (isBare ·.1) with
    | some c, _, _ => some (false, [.category c])
    | _, some s, _ => some (false, [.script s])
    | _, _, some (_, c) => some (false, [.category c])
    | _, _, _ => none

/-- The property that follows `\\p` or `\\P`: a letter, or a name in braces, which may be negated. -/
private def propertyClass? (negated : Bool) (cs : List Char) : Option ((Bool × List Property) × List Char) :=
  let written? : Option (List Char × List Char) :=
    match cs with
    | '\x7b' :: r => splitFirst? ['\x7d'] r
    | c :: r => some ([c], r)
    | [] => none
  match written? with
  | none => none
  | some (name, rest) =>
    let (negated, name) : Bool × List Char :=
      match name with
      | '^' :: n => (!negated, n)
      | _ => (negated, name)
    (property? name).map fun (complement, ps) => ((complement != negated, ps), rest)

/-- The class after a backslash; `none` where what follows names none, and `some none` where it names a
property that does not exist. -/
private def escapedClass? (cs : List Char) : Option (Option ((Bool × List Property) × List Char)) :=
  match cs with
  | 'p' :: r => some (propertyClass? false r)
  | 'P' :: r => some (propertyClass? true r)
  | c :: r => (letterClass? c).map fun item => some (item, r)
  | [] => none

private def octal? (c : Char) : Option Nat :=
  if '0' ≤ c ∧ c ≤ '7' then some (c.toNat - 48) else none

/-- Up to `count` more octal digits. -/
private def octalTail : (count : Nat) → Nat → List Char → Nat × List Char
  | 0, v, cs => (v, cs)
  | _, v, [] => (v, [])
  | count + 1, v, c :: cs =>
    match octal? c with
    | some d => octalTail count (v * 8 + d) cs
    | none => (v, c :: cs)

/-- The code point that an escape stands for; the backslash is already read. -/
private def escapedChar? (cs : List Char) : Option (Nat × List Char) :=
  match cs with
  | [] => none
  | c :: rest =>
    match c with
    | 'a' => some (7, rest)
    | 'f' => some (12, rest)
    | 'n' => some (10, rest)
    | 'r' => some (13, rest)
    | 't' => some (9, rest)
    | 'v' => some (11, rest)
    | 'x' =>
      match rest with
      | '\x7b' :: r =>
        match splitFirst? ['\x7d'] r with
        | some (written, after) =>
          match written.foldl (fun acc d =>
              match acc, hexDigit? d with
              | some v, some x => if v * 16 + x ≤ 0x10FFFF then some (v * 16 + x) else none
              | _, _ => none) (some 0) with
          | some v => if written.isEmpty then none else some (v, after)
          | none => none
        | none => none
      | _ => hexDigits? 2 0 rest
    | _ =>
      match octal? c with
      | some d =>
        if d != 0 && !(match rest with | e :: _ => (octal? e).isSome | [] => false) then none
        else some (octalTail 2 d rest)
      | none => if c.toNat < 0x80 && !c.isAlphanum then some (c.toNat, rest) else none

/-- A decimal number without a leading zero. -/
private def count? (cs : List Char) : Option (Nat × List Char) :=
  let digits := cs.takeWhile (fun c => '0' ≤ c && c ≤ '9')
  if digits.isEmpty then none
  else if 2 ≤ digits.length && digits.head? == some '0' then none
  else
    let v := digits.foldl (fun n c => min 100000000 (n * 10 + (c.toNat - 48))) 0
    some (v, cs.drop digits.length)

/-- The bounds of a counted repetition after its brace; `none` where the brace is a plain character. -/
private def bounds? (cs : List Char) : Option (Nat × Option Nat × List Char) :=
  match count? cs with
  | none => none
  | some (low, '\x7d' :: r) => some (low, some low, r)
  | some (low, ',' :: '\x7d' :: r) => some (low, none, r)
  | some (low, ',' :: r) =>
    match count? r with
    | some (high, '\x7d' :: r) => some (low, some high, r)
    | _ => none
  | _ => none

/-- The counts of nested repetitions multiply to at most `limit`. -/
def repeatsWithin (limit : Nat) : Regex → Bool
  | empty | edge _ | char _ _ | set _ => true
  | seq r s => repeatsWithin limit r && repeatsWithin limit s
  | alt r s => repeatsWithin limit r && repeatsWithin limit s
  | group r => repeatsWithin limit r
  | times r low high =>
    match high with
    | some 0 => true
    | _ =>
      let m := high.getD low
      if limit < m then false
      else repeatsWithin (if m == 0 then limit else limit / m) r

/-- A code point inside brackets. -/
private def classChar? (cs : List Char) : Option (Nat × List Char) :=
  match cs with
  | [] => none
  | '\\' :: r => escapedChar? r
  | c :: r => some (c.toNat, r)

/-- The items of a character class up to its closing bracket. -/
private def classItems? : (fuel : Nat) → (first : Bool) → List (Bool × List Property) → List Char →
    Option (List (Bool × List Property) × List Char)
  | 0, _, _, _ => none
  | fuel + 1, first, items, cs =>
    let range (cs : List Char) : Option (List (Bool × List Property) × List Char) :=
      match classChar? cs with
      | none => none
      | some (lo, '-' :: d :: r) =>
        if d == ']' then classItems? fuel false (items ++ [(false, [.range lo lo])]) ('-' :: d :: r)
        else
          match classChar? (d :: r) with
          | some (hi, r) =>
            if hi < lo then none else classItems? fuel false (items ++ [(false, [.range lo hi])]) r
          | none => none
      | some (lo, r) => classItems? fuel false (items ++ [(false, [.range lo lo])]) r
    match cs with
    | [] => none
    | ']' :: r => if first then range cs else some (items, r)
    | '[' :: ':' :: r =>
      match splitFirst? [':', ']'] r with
      | some (name, after) =>
        match namedClass? name with
        | some item => classItems? fuel false (items ++ [item]) after
        | none => none
      | none => range cs
    | '\\' :: r =>
      match escapedClass? r with
      | some (some (item, r)) => classItems? fuel false (items ++ [item]) r
      | some none => none
      | none => range cs
    | _ => range cs

/-- The expression of a set, which is a character where the set has no other. -/
private def ofSet (s : CharSet) : Regex :=
  match s with
  | { items := [(false, [.range a b])], negated := false, fold } =>
    if a != b then set s
    else if !fold then char false a
    else
      match caseVariants a with
      | [_] => char false a
      | [_, _] => char true a
      | _ => set s
  | _ => set s

/-- What a bracketed class matches. -/
private def bracket? (flags : Flags) (cs : List Char) : Option (Regex × List Char) :=
  let (negated, body) : Bool × List Char :=
    match cs with
    | '^' :: r => (true, r)
    | _ => (false, cs)
  (classItems? (body.length + 1) true [] body).map fun (items, rest) =>
    (ofSet { items, negated, fold := flags.ignoreCase }, rest)

/-- The flags set between `(?` and the closing character, which is returned with the rest. -/
private def flagRun? : (on seen : Bool) → Flags → List Char → Option (Flags × Char × List Char)
  | _, _, _, [] => none
  | on, seen, f, c :: rest =>
    match c with
    | 'i' => flagRun? on true { f with ignoreCase := on } rest
    | 'm' => flagRun? on true { f with multiline := on } rest
    | 's' => flagRun? on true { f with dotNewline := on } rest
    | 'U' => flagRun? on true f rest
    | '-' => if on then flagRun? false false f rest else none
    | ':' => if on || seen then some (f, ':', rest) else none
    | ')' => if on || seen then some (f, ')', rest) else none
    | _ => none

private def groupName? (cs : List Char) : Option (List Char × List Char) :=
  match splitFirst? ['>'] cs with
  | some (name, rest) => if name.isEmpty || !name.all isWord then none else some (name, rest)
  | none => none

/-- What has been read of one alternative: the parts, last first, and whether the last thing read was
a repetition. -/
private structure Parts where
  parts : List Regex := []
  repeated : Bool := false
  flags : Flags

private def Parts.push (p : Parts) (r : Regex) : Parts :=
  { p with parts := r :: p.parts, repeated := false }

/-- Adds a character. -/
private def Parts.pushChar (p : Parts) (n : Nat) : Parts := p.push (char p.flags.ignoreCase n)

private def Parts.regex (p : Parts) : Regex :=
  match p.parts with
  | [] => empty
  | r :: more => more.foldl (fun acc r => seq r acc) r

/-- Repeats the last part. A repetition may be marked lazy but not repeated again. -/
private def Parts.repeatLast? (p : Parts) (low : Nat) (high : Option Nat) (rest : List Char) :
    Option (Parts × List Char) :=
  let rest := match rest with | '?' :: r => r | _ => rest
  match p.parts with
  | [] => none
  | r :: more =>
    if p.repeated then none
    else
      let t := times r low high
      if (2 ≤ low || 2 ≤ high.getD 0) && !repeatsWithin 1000 t then none
      else some ({ p with parts := t :: more, repeated := true }, rest)

mutual

/-- Reads alternatives up to a closing parenthesis or the end. -/
private def alternatives? (fuel : Nat) (flags : Flags) (cs : List Char) : Option (Regex × List Char) :=
  match fuel with
  | 0 => none
  | fuel + 1 =>
    match sequence? fuel { flags } cs with
    | none => none
    | some (p, '|' :: rest) =>
      (alternatives? fuel p.flags rest).map fun (r, rest) => (alt p.regex r, rest)
    | some (p, rest) => some (p.regex, rest)

/-- Reads the parts of one alternative. -/
private def sequence? (fuel : Nat) (p : Parts) (cs : List Char) : Option (Parts × List Char) :=
  match fuel with
  | 0 => none
  | fuel + 1 =>
    let inner (flags : Flags) (wrap : Regex → Regex) (body : List Char) : Option (Parts × List Char) :=
      match alternatives? fuel flags body with
      | some (r, ')' :: rest) => sequence? fuel (p.push (wrap r)) rest
      | _ => none
    let named (body : List Char) : Option (Parts × List Char) :=
      match groupName? body with
      | some (_, rest) => inner p.flags group rest
      | none => none
    let repeated (low : Nat) (high : Option Nat) (rest : List Char) : Option (Parts × List Char) :=
      match p.repeatLast? low high rest with
      | some (q, rest) => sequence? fuel q rest
      | none => none
    match cs with
    | [] => some (p, [])
    | '|' :: _ => some (p, cs)
    | ')' :: _ => some (p, cs)
    | '(' :: '?' :: 'P' :: '<' :: rest => named rest
    | '(' :: '?' :: '<' :: rest => named rest
    | '(' :: '?' :: rest =>
      match flagRun? true false p.flags rest with
      | some (f, ':', body) => inner f id body
      | some (f, _, rest) => sequence? fuel { p with flags := f, repeated := false } rest
      | none => none
    | '(' :: rest => inner p.flags group rest
    | '^' :: rest =>
      sequence? fuel (p.push (edge (if p.flags.multiline then .lineStart else .textStart))) rest
    | '$' :: rest =>
      sequence? fuel (p.push (edge (if p.flags.multiline then .lineEnd else .textEnd))) rest
    | '.' :: rest => sequence? fuel (p.push (set (.dot p.flags.dotNewline))) rest
    | '[' :: rest =>
      match bracket? p.flags rest with
      | some (r, rest) => sequence? fuel (p.push r) rest
      | none => none
    | '*' :: rest => repeated 0 none rest
    | '+' :: rest => repeated 1 none rest
    | '?' :: rest => repeated 0 (some 1) rest
    | '\x7b' :: rest =>
      match bounds? rest with
      | none => sequence? fuel (p.pushChar 0x7B) rest
      | some (low, high, rest) =>
        if 1000 < low || (match high with | some h => 1000 < h || h < low | none => false) then none
        else repeated low high rest
    | '\\' :: 'A' :: rest => sequence? fuel (p.push (edge .textStart)) rest
    | '\\' :: 'z' :: rest => sequence? fuel (p.push (edge .textEnd)) rest
    | '\\' :: 'b' :: rest => sequence? fuel (p.push (edge .wordEdge)) rest
    | '\\' :: 'B' :: rest => sequence? fuel (p.push (edge .noWordEdge)) rest
    | '\\' :: 'Q' :: rest =>
      let (literal, rest) := (splitFirst? ['\\', 'E'] rest).getD (rest, [])
      sequence? fuel (literal.foldl (fun q c => q.pushChar c.toNat) { p with repeated := false }) rest
    | '\\' :: rest =>
      match escapedClass? rest with
      | some (some (item, r)) =>
        sequence? fuel (p.push (set { items := [item], fold := p.flags.ignoreCase })) r
      | some none => none
      | none =>
        match escapedChar? rest with
        | some (n, r) => sequence? fuel (p.pushChar n) r
        | none => none
    | c :: rest => sequence? fuel (p.pushChar c.toNat) rest

end

/-- The expression that a text writes, or `none` where it writes none. -/
def read? (s : String) : Option Regex :=
  match alternatives? (2 * s.length + 4) {} s.toList with
  | some (r, []) => if r.isModerate then some r else none
  | _ => none

/-- The wording of a complaint about a text that writes no expression; where it fails is left out. -/
def readMessage : String := "error parsing regexp: ..."

end MisuseSlice.Text.Regex
