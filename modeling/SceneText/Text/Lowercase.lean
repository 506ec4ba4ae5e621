import SceneText.Text.Ranges

/-!
# Lower case

The full lower-case mapping of Unicode 14. Two characters need more than a table of runs: the
dotted capital I becomes two characters, and the capital sigma becomes the final sigma at the end
of a word. A sigma ends a word when the nearest character before it that is not case-ignorable is
cased and the nearest such character after it is not.
-/

namespace SceneText.Text

/-- Capitals at every `step`-th code point from `first` to `last`, each `delta` away from its
small letter. -/
structure CaseRun where
  first : Nat
  last : Nat
  step : Nat
  delta : Int

def alternatingRanges : List (Nat × Nat) :=
  rangesFrom 0
    [256, 47, 3, 5, 2, 15, 2, 45, 2, 5, 4, 3, 2, 1, 3, 1, 5, 1, 6, 1, 7, 5, 2, 1, 4, 1, 2, 1, 3, 3,
     2, 1, 3, 1, 8, 1, 2, 1, 2, 17, 2, 17, 3, 3, 3, 39, 3, 17, 8, 1, 5, 1, 4, 9, 289, 3, 3, 1, 97,
     23, 8, 1, 2, 1, 101, 33, 9, 53, 2, 13, 2, 95, 6353, 149, 11, 95, 644, 1, 2780, 1, 6, 5, 6, 1,
     2, 1, 10, 99, 8, 3, 4, 1, 31053, 45, 19, 27, 135, 13, 3, 61, 10, 3, 2, 9, 4, 1, 4, 3, 3, 19,
     11, 15, 4, 3, 6, 1, 5, 3, 28, 1]

def caseRunsFrom (next : Nat) : List Int → List CaseRun
  | gap :: length :: delta :: rest =>
    let first := next + gap.toNat
    ⟨first, first + length.toNat - 1, 1, delta⟩ :: caseRunsFrom (first + length.toNat) rest
  | _ => []

def caseRunsLow : List CaseRun :=
  caseRunsFrom 0
    [65, 26, 32, 101, 23, 32, 1, 7, 32, 153, 1, -121, 8, 1, 210, 4, 1, 206, 2, 2, 205, 3, 1, 79, 0,
     1, 202, 0, 1, 203, 2, 1, 205, 0, 1, 207, 1, 1, 211, 0, 1, 209, 4, 1, 211, 0, 1, 213, 1, 1, 214,
     6, 1, 218, 2, 1, 218, 4, 1, 218, 2, 2, 217, 4, 1, 219, 12, 1, 2, 2, 1, 2, 2, 1, 2, 38, 1, 2, 4,
     1, -97, 0, 1, -56, 40, 1, -130, 25, 1, 10795, 2, 1, -163, 0, 1, 10792, 4, 1, -195, 0, 1, 69, 0,
     1, 71, 313, 1, 116, 6, 1, 38, 1, 3, 37, 1, 1, 64, 1, 2, 63, 1, 17, 32, 1, 9, 32, 35, 1, 8, 36,
     1, -60, 4, 1, -7, 3, 3, -130, 0, 16, 80, 0, 32, 32, 144, 1, 15, 112, 38, 48, 2889, 38, 7264, 1,
     1, 7264, 5, 1, 7264, 722, 80, 38864, 0, 6, 8]

def caseRunsHigh : List CaseRun :=
  (alternatingRanges.map fun r => ⟨r.1, r.2, 2, 1⟩) ++
  [⟨0x1f59, 0x1f5f, 2, -8⟩, ⟨0x10570, 0x10594, 2, 39⟩, ⟨0x10571, 0x10579, 2, 39⟩,
   ⟨0x1057d, 0x10589, 2, 39⟩, ⟨0x1058d, 0x10591, 2, 39⟩] ++
  caseRunsFrom 0x1c90
    [0, 43, -3008, 2, 3, -3008, 478, 1, -7615, 105, 8, -8, 8, 6, -8, 10, 8, -8, 8, 8, -8, 8, 6, -8,
     26, 8, -8, 24, 8, -8, 8, 8, -8, 8, 8, -8, 8, 2, -8, 0, 2, -74, 0, 1, -9, 11, 4, -86, 0, 1, -9,
     11, 2, -8, 0, 2, -100, 12, 2, -8, 0, 2, -112, 0, 1, -7, 11, 2, -128, 0, 2, -126, 0, 1, -9, 297,
     1, -7517, 3, 1, -8383, 0, 1, -8262, 6, 1, 28, 45, 16, 16, 838, 26, 26, 1840, 48, 48, 50, 1,
     -10743, 0, 1, -3814, 0, 1, -10727, 8, 1, -10780, 0, 1, -10749, 0, 1, -10783, 0, 1, -10782, 13,
     2, -10815, 31485, 1, -35332, 15, 1, -42280, 28, 1, -42308, 0, 1, -42319, 0, 1, -42315, 0, 1,
     -42305, 0, 1, -42308, 1, 1, -42258, 0, 1, -42282, 0, 1, -42261, 0, 1, 928, 16, 1, -48, 0, 1,
     -42307, 0, 1, -35384, 22362, 26, 32, 1221, 40, 40, 136, 36, 40, 193, 1, 39, 1770, 51, 64, 3053,
     32, 32, 21888, 32, 32, 31392, 34, 34]

def casedRanges : List (List (Nat × Nat)) :=
  [rangesFrom 0
    [65, 26, 6, 26, 47, 1, 10, 1, 4, 1, 5, 23, 1, 31, 1, 195, 1, 4, 4, 208, 1, 27, 192, 4, 2, 2, 3,
     3, 1, 1, 6, 1, 1, 3, 1, 1, 1, 20, 1, 83, 1, 139, 8, 166, 1, 38, 9, 41, 2839, 38, 1, 1, 5, 1, 2,
     43, 2, 3, 672, 86, 2, 6, 2178, 9, 7, 43, 2, 3, 64, 44, 63, 13, 1, 34, 101, 278, 2, 6, 2, 38, 2,
     6, 2, 8, 1, 1, 1, 1, 1, 1, 1, 31, 2, 53, 1, 7, 1, 1, 3, 3, 1, 7, 3, 4, 2, 6, 4, 13, 5, 3, 1, 7,
     261, 1, 4, 1, 2, 10, 1, 1, 3, 5, 6, 1, 1, 1, 1, 1, 1, 4, 1, 6, 4, 1, 2, 4, 5, 5, 4, 1, 17, 32,
     3, 2, 817, 52, 1814, 124, 2, 103, 6, 4, 3, 2, 12, 38, 1, 1, 5, 1, 30994, 46, 18, 28, 134, 78,
     1, 23, 3, 4, 1, 59, 5, 2, 1, 1, 1, 5, 27, 2],
   rangesFrom 42999
    [3, 1, 821, 43, 5, 9, 7, 80, 20288, 7, 12, 5, 1033, 26, 6, 26, 1189, 80, 96, 36, 4, 36, 116, 11,
     1, 15, 1, 7, 1, 2, 1, 11, 1, 15, 1, 7, 1, 2, 1731, 51, 13, 51, 2989, 64, 21856, 64, 25984, 85,
     1, 71, 1, 2, 2, 1, 2, 2, 2, 4, 1, 12, 1, 1, 1, 7, 1, 65, 1, 4, 2, 8, 1, 7, 1, 28, 1, 4, 1, 5,
     1, 1, 3, 7, 1, 340, 2, 25, 1, 25, 1, 31, 1, 25, 1, 31, 1, 25, 1, 31, 1, 25, 1, 31, 1, 25, 1, 8,
     1844, 10, 1, 20, 2529, 68, 2028, 26, 6, 26, 6, 26]]

def ignorableRanges : List (List (Nat × Nat)) :=
  [rangesFrom 0
    [39, 1, 6, 1, 11, 1, 35, 1, 1, 1, 71, 1, 4, 1, 1, 1, 4, 1, 2, 2, 503, 192, 4, 2, 4, 1, 9, 2, 1,
     1, 251, 7, 207, 1, 5, 1, 49, 45, 1, 1, 1, 2, 1, 2, 1, 1, 44, 1, 11, 6, 10, 11, 1, 1, 35, 1, 10,
     21, 16, 1, 101, 8, 1, 10, 1, 4, 33, 1, 1, 1, 30, 27, 91, 11, 58, 11, 4, 1, 2, 1, 24, 24, 43, 3,
     44, 1, 7, 2, 6, 8, 41, 58, 55, 1, 1, 1, 4, 8, 4, 1, 3, 7, 10, 2, 13, 1, 15, 1, 58, 1, 4, 4, 8,
     1, 20, 2, 26, 1, 2, 2, 57, 1, 4, 2, 4, 2, 2, 3, 3, 1, 30, 2, 3, 1, 11, 2, 57, 1, 4, 5, 1, 2, 4,
     1, 20, 2, 22, 6, 1, 1, 58, 1, 2, 1, 1, 4, 8, 1, 7, 2, 11, 2, 30, 1, 61, 1, 12, 1, 50, 1, 3, 1,
     55, 1, 1, 3, 5, 3, 1, 4],
   rangesFrom 3150
    [7, 2, 11, 2, 29, 1, 58, 1, 2, 1, 6, 1, 5, 2, 20, 2, 28, 2, 57, 2, 4, 4, 8, 1, 20, 2, 29, 1, 72,
     1, 7, 3, 1, 1, 90, 1, 2, 7, 11, 9, 98, 1, 2, 9, 9, 1, 1, 6, 74, 2, 27, 1, 1, 1, 1, 1, 55, 14,
     1, 5, 1, 2, 5, 11, 1, 36, 9, 1, 102, 4, 1, 6, 1, 2, 2, 2, 25, 2, 4, 3, 16, 4, 13, 1, 2, 2, 6,
     1, 15, 1, 94, 1, 608, 3, 946, 3, 29, 2, 30, 2, 30, 2, 64, 2, 1, 7, 8, 1, 2, 11, 3, 1, 5, 1, 45,
     5, 51, 1, 65, 2, 34, 1, 118, 3, 4, 2, 9, 1, 6, 3, 219, 2, 2, 1, 58, 1, 1, 7, 1, 1, 1, 1, 2, 8,
     6, 10, 2, 1, 39, 1, 8, 31, 49, 4, 48, 1, 1, 5, 1, 1, 5, 1, 40, 9, 12, 2, 32, 4, 2, 2, 1, 3, 56,
     1, 1, 2, 3, 1, 1, 3],
   rangesFrom 7154
    [58, 8, 2, 2, 64, 6, 82, 3, 1, 13, 1, 7, 4, 1, 6, 1, 3, 2, 50, 63, 13, 1, 34, 101, 445, 1, 1, 3,
     11, 3, 13, 3, 13, 3, 13, 2, 12, 5, 8, 2, 10, 1, 2, 1, 2, 5, 49, 5, 1, 10, 1, 1, 13, 1, 16, 13,
     51, 33, 2955, 2, 113, 3, 125, 1, 15, 1, 96, 32, 47, 1, 469, 1, 36, 4, 3, 5, 5, 1, 93, 6, 93, 3,
     28438, 1, 1250, 6, 270, 1, 98, 4, 1, 10, 1, 1, 28, 4, 80, 2, 14, 34, 78, 1, 23, 3, 103, 3, 3,
     2, 8, 1, 3, 1, 4, 1, 25, 2, 5, 1, 151, 2, 26, 18, 13, 1, 38, 8, 25, 11, 46, 3, 48, 1, 2, 4, 2,
     2, 17, 1, 21, 2, 66, 6, 2, 2, 2, 2, 12, 1, 8, 1, 35, 1, 11, 1, 51, 1, 1, 3, 2, 2, 5, 2, 1, 1,
     27, 1, 14, 2, 5, 2, 1, 1, 100, 5, 9, 3, 121, 1, 2, 1],
   rangesFrom 44009
    [4, 1, 20272, 1, 147, 17, 573, 16, 3, 1, 12, 16, 34, 1, 2, 1, 169, 1, 7, 1, 6, 1, 11, 1, 35, 1,
     1, 1, 47, 1, 45, 2, 67, 1, 21, 3, 513, 1, 226, 1, 149, 5, 1029, 6, 1, 42, 1, 9, 582, 3, 1, 2,
     5, 4, 40, 3, 4, 1, 165, 2, 573, 4, 387, 2, 153, 11, 49, 4, 123, 1, 54, 15, 41, 1, 2, 2, 10, 3,
     49, 4, 2, 2, 2, 1, 4, 1, 10, 1, 50, 3, 36, 5, 1, 8, 62, 1, 12, 2, 52, 9, 10, 4, 2, 1, 95, 3, 2,
     1, 1, 2, 6, 1, 160, 1, 3, 8, 21, 2, 57, 2, 3, 1, 37, 7, 3, 5, 195, 8, 2, 3, 1, 1, 23, 1, 84, 6,
     1, 1, 4, 2, 1, 2, 238, 4, 6, 2, 1, 2, 27, 2, 85, 8, 2, 1, 1, 2, 106, 1, 1, 1, 2, 6, 1, 1, 101,
     3, 2, 4, 1, 5, 259, 9, 1, 2, 256, 2, 1, 1, 4, 1],
   rangesFrom 72004
    [144, 4, 2, 2, 4, 1, 32, 10, 40, 6, 2, 4, 8, 1, 9, 6, 2, 3, 46, 13, 1, 2, 406, 7, 1, 6, 1, 1,
     82, 22, 2, 7, 1, 2, 1, 2, 122, 6, 3, 1, 1, 2, 1, 7, 1, 1, 72, 2, 3, 1, 1, 1, 347, 2, 5435, 9,
     14007, 5, 59, 7, 9, 4, 1035, 1, 63, 17, 64, 2, 1, 2, 16395, 4, 1, 7, 1, 2, 3230, 2, 1, 4, 4700,
     46, 2, 23, 544, 3, 9, 16, 2, 7, 30, 4, 148, 3, 1979, 55, 4, 50, 8, 1, 14, 1, 22, 5, 1, 15,
     1360, 7, 1, 17, 2, 7, 1, 2, 1, 5, 261, 14, 368, 1, 61, 4, 1504, 7, 109, 8, 2735, 5, 789505, 1,
     30, 96, 128, 240]]

def isCased (c : Char) : Bool :=
  casedRanges.any fun block => inRanges block c.toNat

def isCaseIgnorable (c : Char) : Bool :=
  ignorableRanges.any fun block => inRanges block c.toNat

/-- The small letter of a single code point, for all but the two special capitals. -/
def lowerCode (n : Nat) : Nat :=
  let here (r : CaseRun) : Bool := r.first ≤ n && n ≤ r.last && (n - r.first) % r.step = 0
  match caseRunsLow.find? here with
  | some r => (n + r.delta).toNat
  | none =>
    match caseRunsHigh.find? here with
    | some r => (n + r.delta).toNat
    | none => n

def nextIsCased (text : List Char) : Bool :=
  match text.dropWhile isCaseIgnorable with
  | [] => false
  | c :: _ => isCased c

/-- Lower case of `rest`, where `before` holds the characters already passed, last one first. -/
def lowerFrom (before : List Char) : List Char → List Char
  | [] => []
  | c :: rest =>
    let here :=
      if c.toNat = 0x130 then ['i', Char.ofNat 0x307]
      else if c.toNat = 0x3a3 then
        [Char.ofNat (if nextIsCased before && !nextIsCased rest then 0x3c2 else 0x3c3)]
      else if c.toNat < 128 then [c.toLower]
      else [Char.ofNat (lowerCode c.toNat)]
    here ++ lowerFrom (c :: before) rest

def lowerChars (text : List Char) : List Char :=
  lowerFrom [] text

def lower (text : String) : String :=
  String.ofList (lowerChars text.toList)

end SceneText.Text
