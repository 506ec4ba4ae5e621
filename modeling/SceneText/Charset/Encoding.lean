import SceneText.Charset.Repertoire
import SceneText.Fault
import SceneText.Text.Units

/-!
# Encodings of stored text

A stored text is plain ASCII, Latin 1, in one of the Unicode forms or in one of the charsets. The
Unicode forms may carry a mark in front: one that is marked is read with or without it, and always
counts it. An encoding has several accepted names.
-/

namespace SceneText

inductive Encoding
  | ascii
  | latin1
  | utf8 (marked : Bool)
  /-- Without an order the text is marked. -/
  | utf16 (order : Option ByteOrder)
  | utf32 (order : Option ByteOrder)
  | charset (cs : Charset)
  deriving DecidableEq, Repr

namespace Encoding

/-- The name of each encoding and its further names, in lower case and with underscores. -/
def names : List (Encoding × List String) :=
  [(.ascii,
    ["ascii", "646", "ansi_x3.4_1968", "ansi_x3_4_1968", "ansi_x3.4_1986", "cp367", "csascii",
     "ibm367", "iso646_us", "iso_646.irv_1991", "iso_ir_6", "us", "us_ascii"]),
   (.latin1,
    ["latin_1", "8859", "cp819", "csisolatin1", "ibm819", "iso8859", "iso8859_1", "iso_8859_1",
     "iso_8859_1_1987", "iso_ir_100", "l1", "latin", "latin1"]),
   (.utf8 false, ["utf_8", "u8", "utf", "utf8", "utf8_ucs2", "utf8_ucs4", "cp65001"]),
   (.utf8 true, ["utf_8_sig"]),
   (.utf16 none, ["utf_16", "u16", "utf16"]),
   (.utf16 (some .little), ["utf_16_le", "unicodelittleunmarked", "utf_16le"]),
   (.utf16 (some .big), ["utf_16_be", "unicodebigunmarked", "utf_16be"]),
   (.utf32 none, ["utf_32", "u32", "utf32"]),
   (.utf32 (some .little), ["utf_32_le", "utf_32le"]),
   (.utf32 (some .big), ["utf_32_be", "utf_32be"]),
   (.charset .cp932, ["cp932", "932", "ms932", "mskanji", "ms_kanji"]),
   (.charset .shiftJis, ["shift_jis", "csshiftjis", "shiftjis", "sjis", "s_jis", "x_mac_japanese"]),
   (.charset .gbk, ["gbk", "936", "cp936", "ms936"])]

/-- Characters that a name is told by; a run of others counts as one underscore between them. -/
def isNameChar (c : Char) : Bool :=
  c.toNat < 128 && (c.isAlphanum || c = '.')

/-- A name in lower case with underscores; `gap` says whether one is due. -/
def canonicalFrom (started gap : Bool) : List Char → List Char
  | [] => []
  | c :: rest =>
    if !isNameChar c then canonicalFrom started true rest
    else if started && gap then '_' :: c.toLower :: canonicalFrom true false rest
    else c.toLower :: canonicalFrom true false rest

def canonical (name : String) : String :=
  String.ofList (canonicalFrom false false name.toList)

def withoutDots (name : String) : String :=
  name.map fun c => if c = '.' then '_' else c

def find? (name : String) : Option Encoding :=
  (names.find? fun entry => entry.2.contains name).map Prod.fst

/-- The encoding of a name. Dots may stand for the underscores of a further name. -/
def ofName? (text : String) : Option Encoding :=
  let name := canonical text
  let further := names.find? fun entry => (entry.2.drop 1).contains (withoutDots name)
  (find? name).or (further.map Prod.fst)

def decode16? (bytes : List UInt8) : Option (List Char) :=
  match bytes with
  | 0xff :: 0xfe :: rest => Units.decode16? .little rest
  | 0xfe :: 0xff :: rest => Units.decode16? .big rest
  | rest => Units.decode16? .little rest

def decode32? (bytes : List UInt8) : Option (List Char) :=
  match bytes with
  | 0xff :: 0xfe :: 0 :: 0 :: rest => Units.decode32? .little rest
  | 0 :: 0 :: 0xfe :: 0xff :: rest => Units.decode32? .big rest
  | rest => Units.decode32? .little rest

def decodeUtf8 (bytes : List UInt8) : Except Fault (List Char) :=
  match Utf8.decode bytes with
  | .ok chars => .ok chars
  | .error defect => .error (.notUtf8 defect)

def decodeChars (e : Encoding) (bytes : List UInt8) : Except Fault (List Char) :=
  let orFault (name : String) (result : Option (List Char)) : Except Fault (List Char) :=
    match result with
    | some chars => .ok chars
    | none => .error (.notStored name)
  match e with
  | .ascii =>
    if bytes.all fun b => b.toNat < 128 then .ok (bytes.map fun b => Char.ofNat b.toNat)
    else .error (.notStored "ascii")
  | .latin1 => .ok (bytes.map fun b => Char.ofNat b.toNat)
  | .utf8 false => decodeUtf8 bytes
  | .utf8 true =>
    match bytes with
    | 0xef :: 0xbb :: 0xbf :: rest => decodeUtf8 rest
    | rest => decodeUtf8 rest
  | .utf16 none => orFault "utf-16" (decode16? bytes)
  | .utf16 (some order) => orFault "utf-16" (Units.decode16? order bytes)
  | .utf32 none => orFault "utf-32" (decode32? bytes)
  | .utf32 (some order) => orFault "utf-32" (Units.decode32? order bytes)
  | .charset cs =>
    match cs.page.decode bytes with
    | .ok chars => .ok chars
    | .error defect => .error (.undecodable cs.name defect)

def decode (e : Encoding) (bytes : List UInt8) : Except Fault String :=
  (e.decodeChars bytes).map String.ofList

/-- Bytes of a text in which every character that the encoding lacks is a question mark. -/
def lossySize (e : Encoding) (text : List Char) : Nat :=
  match e with
  | .ascii | .latin1 => text.length
  | .utf8 marked => (if marked then 3 else 0) + (Utf8.encode text).length
  | .utf16 order => (if order.isNone then 2 else 0) + 2 * (Units.ofText text).length
  | .utf32 order => (if order.isNone then 4 else 0) + 4 * text.length
  | .charset cs => cs.lossySize text

end Encoding
end SceneText
