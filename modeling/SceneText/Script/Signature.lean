import SceneText.Script.Field

/-!
# Signature tables

An instruction begins with a signature, and the table says which fields follow it. Tables may be
nested: the signatures of an inner table continue the one that leads to it, and its default entry
stands for that one alone. Flattening joins the parts along each way to an entry; of two ways to one
signature the later one wins at the place of the earlier one.
-/

namespace SceneText

/-- A number that a field is described with. What is no whole number is known by its kind and is a
fault once the field is read. -/
inductive FieldArgument
  | whole (value : Int)
  | other (kind : String)
  deriving DecidableEq, Repr

namespace FieldArgument

def backward : FieldArgument → Nat
  | .whole n => (-n).toNat
  | .other _ => 0

def times : FieldArgument → Nat
  | .whole n => n.toNat
  | .other _ => 0

end FieldArgument

inductive FieldSpec
  | int (w : Width)
  | text
  | slice
  | stop
  | repeated (count : FieldArgument) (spec : FieldSpec)
  /-- Repeated as often as an operand read before says; the index counts from either end. -/
  | repeatedBy (index : FieldArgument) (spec : FieldSpec)
  | given (arguments : List FieldArgument) (spec : FieldSpec)
  | key (kind : String)
  deriving DecidableEq, Repr

namespace FieldSpec

def bytes (length : Int) : FieldSpec :=
  .given [.whole length] .slice

def times (count : Int) (spec : FieldSpec) : FieldSpec :=
  .repeated (.whole count) spec

def timesBy (index : Int) (spec : FieldSpec) : FieldSpec :=
  .repeatedBy (.whole index) spec

/-- How far a field can move backwards. A count that is read can be as large as a stored word. -/
def reach : FieldSpec → Nat
  | .given arguments spec => (arguments.map FieldArgument.backward).foldl (· + ·) spec.reach
  | .repeated count spec => count.times * spec.reach
  | .repeatedBy _ spec => 4294967296 * spec.reach
  | _ => 0

def readerName : FieldSpec → String
  | .int w => w.name ++ "_handler"
  | .text => "string_handler"
  | .slice => "byte_slice_handler"
  | .stop => "end_handler"
  | .repeated _ _ => "repeat_handler.<locals>.wrapped_handler"
  | .repeatedBy _ _ => "repeat_var_handler.<locals>.wrapped_handler"
  | .given _ _ => "args_handler.<locals>.wrapped_handler"
  | .key kind => kind

def arity : FieldSpec → Nat
  | .slice => 1
  | _ => 0

/-- Every reader is handed the image, the offset and the instruction before its own arguments. -/
def tooMany (spec : FieldSpec) (count : Nat) : Fault :=
  .misuse (.tooManyArguments spec.readerName (3 + spec.arity) (3 + count))

end FieldSpec

inductive SignatureKey
  | bytes (signature : List UInt8)
  | default
  deriving DecidableEq, Repr

namespace SignatureKey

/-- Keys are tried in the order of their lengths; the word for the default has seven letters. -/
def length : SignatureKey → Nat
  | .bytes signature => signature.length
  | .default => 7

def kind : SignatureKey → String
  | .bytes _ => "bytes"
  | .default => "str"

end SignatureKey

inductive SignatureEntry
  | fields (specs : List FieldSpec)
  | table (entries : List (SignatureKey × SignatureEntry))
  deriving Repr

abbrev FlatTable := List (SignatureKey × List FieldSpec)

namespace SignatureTable

def insert {α : Type} (key : SignatureKey) (x : α) :
    List (SignatureKey × α) → List (SignatureKey × α)
  | [] => [(key, x)]
  | (k, y) :: rest => if k = key then (k, x) :: rest else (k, y) :: insert key x rest

/-- A table from entries in order, where a later entry replaces an earlier one of its key. -/
def ofEntries {α : Type} (entries : List (SignatureKey × α)) : List (SignatureKey × α) :=
  entries.foldl (fun table (key, x) => insert key x table) []

mutual

def flattenBelow (lead : SignatureKey) :
    List (SignatureKey × SignatureEntry) → FlatTable → Except Fault FlatTable
  | [], flat => .ok flat
  | (key, entry) :: rest, flat =>
    match flattenEntry lead key entry flat with
    | .ok flat => flattenBelow lead rest flat
    | .error fault => .error fault
termination_by structural entries => entries

def flattenEntry (lead key : SignatureKey) :
    SignatureEntry → FlatTable → Except Fault FlatTable
  | .fields specs, flat =>
    match lead, key with
    | .bytes before, .bytes signature => .ok (insert (.bytes (before ++ signature)) specs flat)
    | .default, .bytes _ => .error (.misuse (.notAddable "str" "bytes"))
    | .bytes [], .default => .ok flat
    | lead, .default => .ok (insert lead specs flat)
  | .table entries, flat =>
    match lead, key with
    | .bytes before, .bytes signature => flattenBelow (.bytes (before ++ signature)) entries flat
    | .default, .bytes _ => .error (.misuse (.notAddable "str" "bytes"))
    | .bytes [], .default => .ok flat
    | lead, .default => .ok (insert lead (entries.map fun e => .key e.1.kind) flat)
termination_by structural entry => entry

end

def flatten : List (SignatureKey × SignatureEntry) → FlatTable → Except Fault FlatTable
  | [], flat => .ok flat
  | (key, .fields specs) :: rest, flat => flatten rest (insert key specs flat)
  | (key, .table entries) :: rest, flat =>
    match flattenBelow key entries flat with
    | .ok flat => flatten rest flat
    | .error fault => .error fault

def byLength (table : FlatTable) : FlatTable :=
  table.mergeSort fun a b => b.1.length ≤ a.1.length

end SignatureTable
end SceneText
