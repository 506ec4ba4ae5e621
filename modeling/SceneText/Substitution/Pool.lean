import Std.Data.HashSet
import SceneText.Charset.Repertoire
import SceneText.Json.Datum
import SceneText.Text.Classes

/-!
# Stand-ins

A character that a charset lacks is written as a stand-in: a character that the charset has and the
text does not use. Stand-ins are taken from a pool in order, and a character once assigned keeps its
stand-in. The table from stand-ins to characters undoes the substitution.
-/

namespace SceneText

namespace Charset

def standInRanges : Charset → List (Nat × Nat)
  | .cp932 | .shiftJis =>
    [(0x3041, 0x3096), (0x30a1, 0x30fa), (0x30fd, 0x30fe), (0x31f0, 0x31ff), (0x4e00, 0x9fff),
     (0x3400, 0x4dbf)]
  | .gbk => [(0x4e00, 0x9fff), (0x3400, 0x4dbf), (0x2000, 0x206f), (0x3000, 0x303f)]

def codePage : Charset → Nat
  | .cp932 | .shiftJis => 932
  | .gbk => 936

def hasText (cs : Charset) (text : List Char) : Bool :=
  Text.isAscii text || text.all cs.has

end Charset

/-- A pool in use. `assigned` pairs each character with its stand-in in order of first request.
Characters are texts, but any other key of a document can stand in their place. -/
structure Pool where
  charset : Charset
  free : List String
  assigned : List (Json × String) := []
  /-- Stand-in and character; a stand-in given out again keeps its place and changes its value. -/
  table : List (String × Json) := []
  deriving Repr

namespace Pool

def standIn? (pool : Pool) (char : Json) : Option String :=
  (pool.assigned.find? fun pair => pair.1.sameKey char).map Prod.snd

def get (pool : Pool) (char : Json) : Except Fault String × Pool :=
  match pool.standIn? char with
  | some standIn => (.ok standIn, pool)
  | none =>
    match pool.free with
    | [] => (.error (.refused (.poolExhausted char.shown)), pool)
    | standIn :: free =>
      (.ok standIn,
        { pool with
          free := free
          assigned := pool.assigned ++ [(char, standIn)]
          table := Json.setField standIn char pool.table })

def getFor (pool : Pool) (v : Json) : Except Fault String × Pool :=
  match v.asKey with
  | .ok key => pool.get key
  | .error fault => (.error fault, pool)

/-- Whether the charset has what is handed over. A byte string is asked only whether it is ASCII. -/
def hasDatum (pool : Pool) : Datum → Except Fault Bool
  | .plain v => (v.asText "isascii").map fun s => pool.charset.hasText s.toList
  | .bytes data =>
    if data.all fun b => b < 128 then .ok true else .error (.misuse (.noOperation "bytes" "encode"))

def mapUnit (pool : Pool) (unit : Json) : Except Fault String × Pool :=
  match unit with
  | .str s => if pool.charset.hasText s.toList then (.ok s, pool) else pool.get unit
  | v => (.error (.misuse (.noOperation v.kind "isascii")), pool)

/-- Maps unit after unit. Stand-ins given out before a fault stay given out. -/
def mapUnits (pool : Pool) : List Json → Except Fault (List String) × Pool
  | [] => (.ok [], pool)
  | unit :: rest =>
    match pool.mapUnit unit with
    | (.error fault, pool) => (.error fault, pool)
    | (.ok s, pool) =>
      match pool.mapUnits rest with
      | (.error fault, pool) => (.error fault, pool)
      | (.ok more, pool) => (.ok (s :: more), pool)

def mapText (pool : Pool) (text : Json) : Except Fault String × Pool :=
  match text.elements with
  | .error fault => (.error fault, pool)
  | .ok units =>
    match pool.mapUnits units with
    | (.ok parts, pool) => (.ok (String.join parts), pool)
    | (.error fault, pool) => (.error fault, pool)

def ofTexts (cs : Charset) (texts : List Json) : Except Fault Pool := do
  let pairs ← texts.mapM fun v =>
    match v with
    | .str s => Except.ok (s, cs.hasText s.toList)
    | v => Except.error (Fault.misuse (.noOperation v.kind "isascii"))
  let lacking := (pairs.filter fun p => !p.2).map fun p => Json.str p.1
  if lacking.isEmpty then return { charset := cs, free := pairs.map Prod.fst }
  else .error (.refused (.poolUnencodable (Json.arr lacking).literal))

def ofJson (document : Json) : Except Fault Pool := do
  let name ← document.field "encoding"
  match name with
  | .str s =>
    match Charset.ofName? s with
    | some cs => ofTexts cs (← (← document.field "pool").elements)
    | none => .error (.unknownCharset s)
  | v => .error (.unknownCharset v.shown)

def tableJson (pool : Pool) : Json :=
  .obj [("code_page", .int pool.charset.codePage), ("mapping", .obj pool.table)]

def candidates (cs : Charset) : List Char :=
  ((cs.standInRanges.flatMap fun (low, high) => List.range' low (high + 1 - low)).mergeSort
    fun a b => b ≤ a).map Char.ofNat |>.filter cs.has

def unused (cs : Charset) (used : List Char) : List Char :=
  let seen := Std.HashSet.ofList (used.map Char.toNat)
  (candidates cs).filter fun c => !seen.contains c.toNat

def document (cs : Charset) (chars : List Char) : Json :=
  .obj [("encoding", .str cs.name), ("pool", .arr (chars.map fun c => .str (String.singleton c)))]

def charactersIn (v : Json) : Except Fault (List Char) := do
  let keys ← (← v.elements).mapM Json.asKey
  return keys.filterMap fun k =>
    match k with
    | .str s =>
      match s.toList with
      | [c] => some c
      | _ => none
    | _ => none

def entryName (entry : Json) : Except Fault (Option Json) := do
  if ← entry.has "name" then
    let name ← entry.field "name"
    return if name.truthy then some name else none
  else return none

def charactersOfEntry (entry : Json) : Except Fault (List Char) := do
  let named ← match ← entryName entry with
    | some name => charactersIn name
    | none => pure []
  let spoken ← charactersIn (← entry.field "message")
  return named ++ spoken

def charactersOfEntries : List Json → Except Fault (List Char)
  | [] => .ok []
  | entry :: rest => do return (← charactersOfEntry entry) ++ (← charactersOfEntries rest)

def mapMessage (pool : Pool) (entry : Json) : Except Fault Json × Pool :=
  match entry.field "message" with
  | .error fault => (.error fault, pool)
  | .ok message =>
    match pool.mapText message with
    | (.ok s, pool) => (entry.put "message" (.str s), pool)
    | (.error fault, pool) => (.error fault, pool)

def mapEntry (pool : Pool) (entry : Json) : Except Fault Json × Pool :=
  match entryName entry with
  | .error fault => (.error fault, pool)
  | .ok none => pool.mapMessage entry
  | .ok (some name) =>
    match pool.mapText name with
    | (.error fault, pool) => (.error fault, pool)
    | (.ok s, pool) =>
      match entry.put "name" (.str s) with
      | .error fault => (.error fault, pool)
      | .ok entry => pool.mapMessage entry

def mapEntries (pool : Pool) : List Json → Except Fault (List Json) × Pool
  | [] => (.ok [], pool)
  | entry :: rest =>
    match pool.mapEntry entry with
    | (.error fault, pool) => (.error fault, pool)
    | (.ok entry, pool) =>
      match pool.mapEntries rest with
      | (.error fault, pool) => (.error fault, pool)
      | (.ok more, pool) => (.ok (entry :: more), pool)

end Pool
end SceneText
