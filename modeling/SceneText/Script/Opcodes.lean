import SceneText.Script.Assembly

/-!
# The instructions of scene scripts

The signatures that scene scripts are made of, with the fields that follow each, and the rules that
say which of their operands are offsets of other instructions. Some signatures begin like others, so
the longest one that fits decides.
-/

namespace SceneText.Opcodes

/-- Offers choices: two jump targets, a byte, the number of choices and their texts. -/
def choiceSignature : List UInt8 :=
  [0x08, 0x0b, 0x02, 0x0f, 0x08, 0x0b, 0xff, 0x43, 0x05, 0x03, 0x00, 0x00, 0x00, 0xff,
   0x05, 0x00, 0x00, 0x00, 0x00, 0xff, 0x05, 0x00, 0x00, 0x00, 0x00, 0xff,
   0x05, 0x00, 0x00, 0x00, 0x00, 0xff, 0x05, 0x01, 0x00, 0x00, 0x00, 0xff]

def table : FlatTable :=
  [(.bytes [0x00], [.text]), (.bytes [0x01], []), (.bytes [0x02], [.int .u8]), (.bytes [0x04], []),
   (.bytes [0x07], []),
   (.bytes [0x10], []),
   (.bytes [0x11], []),
   (.bytes [0x13], []),
   (.bytes [0x14], []),
   (.bytes [0x15], []),
   (.bytes [0x17], []),
   (.bytes [0x19], []),
   (.bytes [0x1d], []),
   (.bytes [0x1f], []),
   (.bytes [0x20], []),
   (.bytes [0x21], []),
   (.bytes [0x29], []),
   (.bytes [0x2b], []),
   (.bytes [0x31], []),
   (.bytes [0x34], []),
   (.bytes [0x40], []),
   (.bytes [0x45], []),
   (.bytes [0x5c], []),
   (.bytes [0x80], []),
   (.bytes [0x98, 0x06], []),
   (.bytes [0x08], [.int .u8]),
   (.bytes [0xff], []),
   (.bytes [0x18], [.int .u32]),
   (.bytes [0x05], [.int .u32]),
   (.bytes [0x00, 0x05], [.int .u32]),
   (.bytes [0x93], [.int .u32]),
   (.bytes [0x10, 0xff, 0x00, 0x05], [.int .u32]),
   (.bytes [0x11, 0xff, 0x00, 0x05], [.int .u32]),
   (.bytes [0x12, 0xff, 0x00, 0x05], [.int .u32]),
   (.bytes [0x19, 0x01], [.int .u32]),
   (.bytes [0x0b], [.int .u32]),
   (.bytes [0x10, 0xff, 0x08], []),
   (.bytes [0x10, 0xff], [.int .u32]),
   (.bytes [0x04, 0x00], []),
   (.bytes [0x20, 0x00, 0x31], []),
   (.bytes [0x11, 0xff, 0x02, 0x05, 0x0a, 0x00], []),
   (.bytes [0x06], [.int .u32]),
   (.bytes [0x00, 0xff, 0x03, 0x00], [.times 3 (.int .u32)]),
   (.bytes [0x11, 0xff], [.int .u32]),
   (.bytes [0x12, 0xff], [.int .u32]),
   (.bytes [0x15, 0xff], [.times 2 (.int .u32)]),
   (.bytes choiceSignature, [.int .u32, .bytes 1, .int .u8, .int .u32, .timesBy (-2) .text]),
   (.bytes [0x09, 0x00], []),
   (.bytes [0x12, 0x00], []),
   (.bytes [0x00, 0x00], []),
   (.bytes [0x0e, 0x00], []),
   (.bytes [0x0f], [.int .u8]),
   (.bytes [0x05, 0x28, 0x06, 0x28, 0x08, 0x00], []),
   (.bytes [0x12, 0xff, 0x00, 0x13, 0xff, 0x01], []),
   (.bytes [0x00, 0xff], []),
   (.bytes [0x1a], [.int .u8, .int .u16]),
   (.bytes [0x00, 0x02], []),
   (.bytes [0x00, 0x02, 0x06, 0x00, 0xff, 0x00], []),
   (.bytes [0x00, 0x02, 0x05, 0x00, 0xff, 0x00], []),
   (.bytes [0x00, 0x02, 0x07, 0x00, 0xff, 0x00], []),
   (.bytes [0x5c, 0x00, 0x11, 0xff, 0x00], []),
   (.bytes [0x1d, 0x00, 0x4c, 0x07, 0x22, 0x00], []),
   (.bytes [0x04, 0x01, 0x00], []),
   (.bytes [0x12, 0x00, 0x01, 0x00], []),
   (.bytes [0x01, 0x01, 0x00, 0x96, 0x00], []),
   (.bytes [0x01, 0x01, 0x00], [.int .u16, .int .u8])]

def choice : String := Hex.spaced choiceSignature

def jumps : List String := ["06", "00 FF 03 00", "11 FF", "12 FF"]

def guardedJump : String := "15 FF"

def jumpRules : List (String × Listing.JumpRule) :=
  jumps.map (fun op => (op, .all)) ++
    [(choice, .at (.arr [.int 0, .int 3])), (guardedJump, .at (.arr [.int 0]))]

end SceneText.Opcodes
