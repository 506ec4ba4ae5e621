import SceneText.Layout.Measure

/-!
# Full-width letters

Printable ASCII has full-width twins at a fixed distance, and the blank has the ideographic one.
Marks that the text engine understands can be left as they are: a text is cut at the marks, the
first alternative that matches counting, and only what lies between is widened.
-/

namespace SceneText.Layout

def wideChar (c : Char) : Char :=
  let n := c.toNat
  if n = 32 then '　' else if 33 ≤ n ∧ n ≤ 126 then Char.ofNat (n + 65248) else c

def widen (text : List Char) : List Char :=
  text.map wideChar

/-- Marks to be left as they are. Between brackets the marks are kept, otherwise they are lost. -/
structure Marks where
  alternatives : List (List Char)
  kept : Bool
  deriving DecidableEq, Repr

namespace Marks

def ofPattern (pattern : List Char) : Marks :=
  match pattern with
  | '(' :: rest =>
    if rest.getLast? = some ')' then ⟨Text.splitAll '|' rest.dropLast, true⟩
    else ⟨Text.splitAll '|' pattern, false⟩
  | _ => ⟨Text.splitAll '|' pattern, false⟩

def at? (marks : Marks) (text : List Char) : Option (List Char) :=
  marks.alternatives.find? fun m => !m.isEmpty && m.isPrefixOf text

/-- The parts of a text cut at its marks, after `skip` characters of a mark already met. -/
def cut (marks : Marks) (part : List Char) : Nat → List Char → List (List Char)
  | _, [] => [part]
  | skip + 1, _ :: rest => cut marks part skip rest
  | 0, c :: rest =>
    match marks.at? (c :: rest) with
    | some mark =>
      let more := cut marks [] (mark.length - 1) rest
      part :: if marks.kept then mark :: more else more
    | none => cut marks (part ++ [c]) 0 rest

def widenBetween (marks : Marks) (text : List Char) : List Char :=
  (marks.cut [] 0 text).flatMap fun part =>
    if marks.alternatives.contains part then part else widen part

end Marks

def widenText (marks : Option String) (text : List Char) : List Char :=
  match marks with
  | none => widen text
  | some pattern =>
    if pattern.isEmpty then widen text else (Marks.ofPattern pattern.toList).widenBetween text

/-- Widens a value of a document. What counts as no is left alone, and what is not a text has to
consist of single characters. -/
def widenValue (v : Json) : Except Fault Json :=
  if !v.truthy then .ok v
  else match charsOf v with
    | .ok cs => .ok (.str (String.ofList (widen cs)))
    | .error fault => .error fault

def widenValueBetween (marks : Option String) (v : Json) : Except Fault Json :=
  match marks.getD "" with
  | "" => widenValue v
  | pattern =>
    if !v.truthy then .ok v
    else match v with
      | .str s => .ok (.str (String.ofList (widenText (some pattern) s.toList)))
      | v => .error (.misuse (.notSearchable v.kind))

/-- Widens what is handed over. A byte string has no characters to widen. -/
def widenDatum (marks : Option String) (d : Datum) : Except Fault Datum := do
  let wide ← widenValueBetween marks d.sequence
  match d with
  | .plain _ => return .plain wide
  | .bytes _ => return d

def widenField (key : String) (entry : Json) : Except Fault Json := do
  if ← entry.has key then entry.put key (← widenValue (← entry.field key)) else return entry

def widenEntry (entry : Json) : Except Fault Json := do
  widenField "name" (← widenField "message" entry)

/-- Widens message and name of every entry of a document; what is not a list has no entries that
could change. -/
def widenDocument (document : Json) : Except Fault Json := do
  let entries ← (← document.elements).mapM widenEntry
  match document with
  | .arr _ => return .arr entries
  | other => return other

end SceneText.Layout
