import SceneText.Bytes.Width
import SceneText.Charset.CodePage
import SceneText.Json.Nesting
import SceneText.Json.Reader
import SceneText.Text.Utf8

/-!
# Faults

Everything that can go wrong, by cause. A refusal is an objection that the tools state in words of
their own; a misuse is a document value used as what it is not; the rest are faults of files,
character codes, numerals and commands. Each cause has one wording.
-/

namespace SceneText

inductive FileCause
  | missing
  | denied
  | busy
  | alreadyThere
  | notDirectory
  | isDirectory
  | invalid
  | notEmpty
  | nameTooLong
  | tooManyLinks
  deriving DecidableEq, Repr

namespace FileCause

def number : FileCause → Nat
  | .missing => 2
  | .denied => 13
  | .busy => 16
  | .alreadyThere => 17
  | .notDirectory => 20
  | .isDirectory => 21
  | .invalid => 22
  | .nameTooLong => 36
  | .notEmpty => 39
  | .tooManyLinks => 40

def text : FileCause → String
  | .missing => "No such file or directory"
  | .denied => "Permission denied"
  | .busy => "Device or resource busy"
  | .alreadyThere => "File exists"
  | .notDirectory => "Not a directory"
  | .isDirectory => "Is a directory"
  | .invalid => "Invalid argument"
  | .notEmpty => "Directory not empty"
  | .nameTooLong => "File name too long"
  | .tooManyLinks => "Too many levels of symbolic links"

end FileCause

inductive Sequence
  | list | listSlot | text | bytes | buffer
  deriving DecidableEq, Repr

/-- A value used as what it is not. Values are named by their kind. -/
inductive Misuse
  | notIterable (kind : String)
  | noMembership (kind : String)
  | memberNotText (kind : String)
  | noLength (kind : String)
  | noOperation (kind name : String)
  | notIndexable (kind : String)
  | textIndex (kind : String)
  | listIndex (kind : String)
  | noAssignment (kind : String)
  | noDeletion (kind : String)
  | notKey (kind : String)
  | notSearchable (kind : String)
  | notCharacter (kind : String)
  | longCharacter (length : Nat)
  | notOrdered (relation left right : String)
  | notAddable (left right : String)
  | notPathPart (kind : String)
  | notHexText (kind : String)
  | notJoinable (index : Nat) (kind : String)
  | notPath (kind : String)
  | notReader (kind : String)
  | tooManyArguments (reader : String) (takes given : Nat)
  | argumentMissing (reader name : String)
  | notCount (kind : String)
  | notSignature
  | notBound (kind : String)
  | notPair (index : Nat)
  | pairSize (index length : Nat)
  | notTextArgument (call argument kind : String)
  | notBlockSize (kind : String)
  | noDigits (kind : String)
  | noFormat (kind : String)
  | notByteString (kind : String)
  | notWritable (kind : String)
  deriving DecidableEq, Repr

namespace Misuse

def message : Misuse → String
  | .notIterable k => s!"'{k}' object is not iterable"
  | .noMembership k => s!"argument of type '{k}' is not iterable"
  | .memberNotText k => s!"'in <string>' requires string as left operand, not {k}"
  | .noLength k => s!"object of type '{k}' has no len()"
  | .noOperation k name => s!"'{k}' object has no attribute '{name}'"
  | .notIndexable k => s!"'{k}' object is not subscriptable"
  | .textIndex k => s!"string indices must be integers, not '{k}'"
  | .listIndex k => s!"list indices must be integers or slices, not {k}"
  | .noAssignment k => s!"'{k}' object does not support item assignment"
  | .noDeletion k => s!"'{k}' object doesn't support item deletion"
  | .notKey k => s!"unhashable type: '{k}'"
  | .notSearchable k => s!"expected string or bytes-like object, got '{k}'"
  | .notCharacter k => s!"ord() expected string of length 1, but {k} found"
  | .longCharacter n => s!"ord() expected a character, but string of length {n} found"
  | .notOrdered relation l r => s!"'{relation}' not supported between instances of '{l}' and '{r}'"
  | .notAddable l r =>
    if l = "str" || l = "list" then s!"can only concatenate {l} (not \"{r}\") to {l}"
    else s!"unsupported operand type(s) for +: '{l}' and '{r}'"
  | .notPathPart k => s!"unsupported operand type(s) for /: 'PosixPath' and '{k}'"
  | .notHexText k => s!"fromhex() argument must be str, not {k}"
  | .notJoinable i k => s!"sequence item {i}: expected str instance, {k} found"
  | .notPath k => s!"expected str, bytes or os.PathLike object, not {k}"
  | .notReader k => s!"'{k}' object is not callable"
  | .tooManyArguments reader takes given =>
    s!"{reader}() takes {takes} positional arguments but {given} were given"
  | .argumentMissing reader name =>
    s!"{reader}() missing 1 required positional argument: '{name}'"
  | .notCount k => s!"'{k}' object cannot be interpreted as an integer"
  | .notSignature => "startswith first arg must be bytes or a tuple of bytes, not str"
  | .notBound _ => "slice indices must be integers or None or have an __index__ method"
  | .notPair i => s!"cannot convert dictionary update sequence element #{i} to a sequence"
  | .pairSize i n => s!"dictionary update sequence element #{i} has length {n}; 2 is required"
  | .notTextArgument call argument k =>
    s!"{call}() argument {argument} must be str, not " ++ (if k = "NoneType" then "None" else k)
  | .notBlockSize k => s!"argument should be integer or None, not '{k}'"
  | .noDigits k => s!"Unknown format code 'X' for object of type '{k}'"
  | .noFormat k => s!"unsupported format string passed to {k}.__format__"
  | .notByteString k => s!"a bytes-like object is required, not '{k}'"
  | .notWritable k => s!"Object of type {k} is not JSON serializable"

end Misuse

inductive Refusal
  | shortField (w : Width)
  | unterminated (offset : Int)
  | outOfRange (w : Width) (value : String)
  | tagMismatch (tag kind : String)
  | operandNotText (kind : String)
  | badNumeral (w : Width) (text : String)
  | badByteText (text : String)
  | badCount (value : String)
  | lostJump (file instruction target : String)
  | illegalText (text : String)
  | fileExists (path : String)
  | directoryMissing (path : String)
  | pathNotDirectory (path : String)
  | sourceMissing (path : String)
  | destinationExists (path : String)
  | neitherFileNorDirectory (path : String)
  | sourceDirectoryMissing (path : String)
  | sourceNotDirectory (path : String)
  | destinationNotDirectory (path : String)
  | unknownPanic
  | unknownArchitecture
  | libraryMissing (path : String)
  | fileNotList (path : String)
  | fileItemNotRecord (path : String)
  | mergedNotList
  | mergedItemNotRecord
  | mergedItemWithoutFile
  | oddHexLength
  | poolUnencodable (characters : String)
  | poolExhausted (character : String)
  | countMismatch (raw translated : Nat)
  | fieldMissing (index : Nat) (key : String)
  | sourceUnencodable (index : Nat) (key page reason : String)
  | onlyTokensLeft
  | cannotTruncate (index : Nat) (key limit : String) (width : Nat) (reason : String)
  | filesWithoutMark (count : Nat)
  | inputMissing (path : String)
  deriving DecidableEq, Repr

namespace Refusal

def message : Refusal → String
  | .shortField w => s!"数据不足，无法读取{w.name}"
  | .unterminated offset => s!"在偏移 {Hex.numeral offset} 处找不到字符串结尾"
  | .outOfRange w v => s!"{w.name}值超出范围: {v}"
  | .tagMismatch tag kind => s!"类型不匹配或未知类型: type='{tag}', data={kind}"
  | .operandNotText kind => s!"输入必须是字符串，但得到 {kind}"
  | .badNumeral w text => s!"无效的{w.name}值: {text}"
  | .badByteText text => s!"无效的bytes数据: {text}"
  | .badCount v => s!"非法的 count_value: {v}"
  | .lostJump file instruction target => s!"{file}, {instruction} 指向不存在的 offset: {target}"
  | .illegalText text => s!"{text} 存在非法字符!"
  | .fileExists path => s!"目标文件已存在: {path}"
  | .directoryMissing path => s!"目录不存在: {path}"
  | .pathNotDirectory path => s!"路径不是目录: {path}"
  | .sourceMissing path => s!"源路径 '{path}' 不存在"
  | .destinationExists path => s!"目标路径 '{path}' 已存在，跳过复制（overwrite=False）"
  | .neitherFileNorDirectory path => s!"源路径 '{path}' 不是文件或目录"
  | .sourceDirectoryMissing path => s!"源目录 '{path}' 不存在"
  | .sourceNotDirectory path => s!"源路径 '{path}' 不是目录"
  | .destinationNotDirectory path => s!"目标路径 '{path}' 不是目录"
  | .unknownPanic => "panic 参数必须是 'unwind', 'abort', 'immediate-abort' 其中之一"
  | .unknownArchitecture => "arch 参数必须是 'x86' 或 'x64'"
  | .libraryMissing path => s!"找不到生成的 DLL 文件: {path}"
  | .fileNotList path => s!"文件 {path} 的最外层不是数组"
  | .fileItemNotRecord path => s!"文件 {path} 中存在非对象条目"
  | .mergedNotList => "输入的 JSON 最外层不是数组"
  | .mergedItemNotRecord => "合并文件中存在非对象条目"
  | .mergedItemWithoutFile => "存在缺少 file 字段的条目，无法拆分"
  | .oddHexLength => "十六进制字符串长度必须是偶数"
  | .poolUnencodable characters => s!"替身池中包含不可编码字符: {characters}"
  | .poolExhausted c => s!"替身池已耗尽，无法为 '{c}' 分配替身"
  | .countMismatch raw translated => s!"长度不一致：原文 {raw} 项，译文 {translated} 项。"
  | .fieldMissing i key => s!"第 {i} 项结构不一致：原文有字段 '{key}'，译文缺失。"
  | .sourceUnencodable i key page reason =>
    s!"第 {i} 项字段 '{key}' 的原文无法用 {page} 编码：{reason}"
  | .onlyTokensLeft => "无法在不删除保护 token 的前提下继续截断（字符串仅剩保护 token）。"
  | .cannotTruncate i key limit width reason =>
    s!"第 {i} 项字段 '{key}' 无法截断到原文长度 (原长={limit}，译长={width})；原因：{reason}"
  | .filesWithoutMark n => s!"有 {n} 个文件没有BOM或处理失败"
  | .inputMissing path => s!"输入文件不存在: {path}"

end Refusal

inductive Fault
  | refused (reason : Refusal)
  | misuse (what : Misuse)
  | missingKey (key : Json)
  | outOfRange (what : Sequence)
  | file (cause : FileCause) (path : String) (target : Option String)
  | zeroInPath
  | zeroInName
  | linkCircle (path : String)
  /-- A tree is not removed through a link to it. -/
  | linkedTree
  | sameFile (source target : String)
  | copiedInPart (source target : String)
  | document (kind : Json.DefectKind) (line column position : Nat)
  | nestedTooDeep (bracket : Json.Bracket)
  | notUtf8 (defect : Utf8.Defect)
  | notStored (encoding : String)
  | unknownEncoding (name : String)
  | undecodable (page : String) (defect : CodePage.DecodeDefect)
  | unencodable (page : String) (defect : CodePage.EncodeDefect)
  | notNumeral (text : String)
  | numeralTooLong (digits : Nat)
  | notHex (position : Nat)
  | shortWord (size : Nat)
  | wordRange
  | violated
  | unknownCharset (name : String)
  | commandFailed (command : String) (code : Int)
  | commandTimedOut (command : String)
  | namelessPath (path : String)
  | emptyPath
  | notANumber
  | infiniteNumber
  | sizeTooLarge
  | negativeSize
  | variableUnset (name : String)
  /-- A repeated step that changes nothing any more and never meets its end. -/
  | endless
  deriving Repr

namespace Utf8.Reason

def text : Utf8.Reason → String
  | .invalidStart => "invalid start byte"
  | .invalidContinuation => "invalid continuation byte"
  | .unexpectedEnd => "unexpected end of data"

end Utf8.Reason

namespace Json.DefectKind

def text : Json.DefectKind → String
  | .byteOrderMark => "Unexpected UTF-8 BOM (decode using utf-8-sig)"
  | .expectingValue => "Expecting value"
  | .expectingName => "Expecting property name enclosed in double quotes"
  | .expectingColon => "Expecting ':' delimiter"
  | .expectingComma => "Expecting ',' delimiter"
  | .unterminatedText => "Unterminated string starting at"
  | .controlCharacter => "Invalid control character at"
  | .unknownEscape => "Invalid \\escape"
  | .malformedCodeEscape => "Invalid \\uXXXX escape"
  | .loneSurrogate => "surrogates not allowed"
  | .extraData => "Extra data"
  | .numeralTooLong _ => "Exceeds the limit"

end Json.DefectKind

namespace Fault

def codeLiteral (c : Char) : String :=
  "'" ++ String.ofList (Text.numberEscape c.toNat) ++ "'"

def tooLongText (digits : Nat) : String :=
  s!"Exceeds the limit (4300 digits) for integer string conversion: value has {digits} digits; " ++
    "use sys.set_int_max_str_digits() to increase the limit"

def message : Fault → String
  | .refused reason => reason.message
  | .misuse what => what.message
  | .missingKey key => key.literal
  | .outOfRange .list => "list index out of range"
  | .outOfRange .listSlot => "list assignment index out of range"
  | .outOfRange .text => "string index out of range"
  | .outOfRange .bytes => "index out of range"
  | .outOfRange .buffer => "bytearray index out of range"
  | .file cause path target =>
    let paths := match target with
      | none => Text.quoted path
      | some other => Text.quoted path ++ " -> " ++ Text.quoted other
    s!"[Errno {cause.number}] {cause.text}: {paths}"
  | .zeroInPath => "embedded null byte"
  | .zeroInName => "embedded null character"
  | .linkCircle path => s!"Symlink loop from {Text.quoted path}"
  | .linkedTree => "Cannot call rmtree on a symbolic link"
  | .sameFile source target => s!"{Text.quoted source} and {Text.quoted target} are the same file"
  | .copiedInPart source target => s!"{Text.quoted source} -> {Text.quoted target}"
  | .document (.numeralTooLong digits) _ _ _ => tooLongText digits
  | .document kind line column position =>
    s!"{kind.text}: line {line} column {column} (char {position})"
  | .nestedTooDeep bracket =>
    "maximum recursion depth exceeded while decoding a JSON " ++
      s!"{bracket.content} from a unicode string"
  | .notUtf8 d =>
    if d.length = 1 then
      s!"'utf-8' codec can't decode byte 0x{Hex.paddedLower 2 d.byte.toNat} in position " ++
        s!"{d.position}: {d.reason.text}"
    else
      s!"'utf-8' codec can't decode bytes in position {d.position}-{d.position + d.length - 1}: " ++
        d.reason.text
  | .notStored encoding => s!"'{encoding}' codec can't decode bytes"
  | .unknownEncoding name => s!"unknown encoding: {name}"
  | .undecodable page d =>
    let flaw := if d.incomplete then "incomplete" else "illegal"
    s!"'{page}' codec can't decode byte 0x{Hex.paddedLower 2 d.byte.toNat} in position " ++
      s!"{d.position}: {flaw} multibyte sequence"
  | .unencodable page d =>
    s!"'{page}' codec can't encode character {codeLiteral d.char} in position {d.position}: " ++
      "illegal multibyte sequence"
  | .notNumeral text =>
    "invalid literal for int() with base 10: " ++ String.ofList ((Text.quoted text).toList.take 200)
  | .numeralTooLong digits => tooLongText digits
  | .notHex position => s!"non-hexadecimal number found in fromhex() arg at position {position}"
  | .shortWord size => s!"unpack requires a buffer of {size} bytes"
  | .wordRange => "argument out of range"
  | .violated => ""
  | .unknownCharset name => s!"{Text.quoted name} is not a valid EncodingType"
  | .commandFailed command code => s!"Command '{command}' returned non-zero exit status {code}."
  | .commandTimedOut command => s!"Command '{command}' timed out"
  | .namelessPath path => s!"PosixPath({Text.quoted path}) has an empty name"
  | .emptyPath => "no path specified"
  | .notANumber => "cannot convert float NaN to integer"
  | .infiniteNumber => "cannot convert float infinity to integer"
  | .sizeTooLarge => "cannot fit 'int' into an index-sized integer"
  | .negativeSize => "read length must be non-negative or -1"
  | .variableUnset name => Text.quoted name
  | .endless => ""

end Fault

/-- Why a run ends before its end: it gives up with an exit code, or a fault stops it. -/
inductive Stop
  | exit (code : Int)
  | fault (what : Fault)
  deriving Repr

end SceneText
