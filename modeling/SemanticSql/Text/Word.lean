/-! Word characters and decimal digits, as Unicode classes. -/
namespace SemanticSql.Text

def inRanges (table : List (Nat × Nat)) (n : Nat) : Bool :=
  table.any fun r => r.1 ≤ n && n ≤ r.2

/-- Closed ranges, each given by its distance from the end of the one before and by how far it goes on. -/
def rangesFrom (last : Nat) : List Nat → List (Nat × Nat)
  | gap :: more :: rest => (last + gap, last + gap + more) :: rangesFrom (last + gap + more) rest
  | _ => []

private def wordRanges : List (Nat × Nat) :=
  rangesFrom 0 [170,0,11,0,5,0,6,22,2,30,2,457,5,11,15,4,8,0,2,0,18,116,2,1,3,3,2,0,7,0,2,2,2,0,2,19,
    2,82,2,138,2,172,2,37,3,0,7,40,9,44,2,0,2,1,2,1,2,0,9,26,5,3,30,10,6,73,5,101,2,7,3,9,2,18,3,0,
    17,58,3,100,15,53,5,0,3,0,3,45,19,27,5,10,6,23,2,5,10,73,2,128,3,9,2,18,2,7,3,1,3,21,2,6,2,0,4,3,
    3,8,3,1,3,3,9,0,5,1,2,4,3,11,11,0,2,0,3,2,2,5,5,1,3,21,2,6,2,1,2,1,2,1,3,0,2,4,5,1,3,2,4,0,
    8,3,2,0,8,15,12,2,2,8,2,2,2,21,2,6,2,1,2,4,3,9,2,2,2,2,3,0,16,3,3,9,10,6,2,2,2,7,3,1,3,21,2,6,
    2,1,2,4,3,8,3,1,3,2,8,2,5,1,2,4,3,9,2,0,17,1,2,5,4,2,2,3,4,1,2,0,2,1,4,1,4,2,4,11,5,4,4,2,2,3,
    3,0,7,0,15,9,17,12,2,2,2,22,2,15,3,8,2,2,2,3,8,1,2,2,3,0,3,3,3,9,17,3,2,7,2,2,2,22,2,9,2,4,3,8,
    2,2,2,3,8,1,7,1,2,3,3,9,2,2,13,12,2,2,2,50,2,2,2,4,6,3,8,4,3,9,11,5,2,2,2,17,4,23,2,8,2,0,3,6,
    4,0,5,5,2,0,2,7,7,9,3,1,14,57,6,14,2,9,40,1,2,0,2,4,2,23,2,0,2,22,3,4,2,0,2,6,2,9,3,3,33,0,
    24,1,7,9,12,0,2,0,2,0,5,9,2,35,5,19,2,17,2,35,10,0,58,73,7,77,3,37,2,0,6,0,3,42,2,332,2,3,3,6,
    2,0,2,3,3,40,2,3,3,32,2,3,3,6,2,0,2,3,3,14,2,56,2,3,3,66,3,2,33,15,17,85,3,5,4,619,3,16,2,25,
    6,74,4,10,8,21,10,21,12,19,13,12,2,2,2,1,13,83,4,0,5,1,3,9,34,2,2,10,7,88,8,42,6,69,11,30,2,11,
    5,11,11,39,3,4,12,43,5,25,7,9,39,27,5,62,2,28,3,10,7,9,14,0,9,30,50,76,4,9,18,8,13,115,13,55,9,9,
    4,48,3,8,8,42,3,2,17,2,2,38,6,533,3,5,3,37,3,5,3,7,2,0,2,0,2,0,2,30,3,52,2,6,2,0,4,2,2,6,4,3,
    3,5,5,12,6,2,2,6,16,1,50,1,20,0,29,0,14,0,17,12,52,32,18,0,5,0,3,9,2,0,4,4,7,0,2,0,2,0,2,3,2,10,
    3,3,6,4,5,0,18,40,814,51,1815,228,7,8,13,37,2,0,6,0,3,55,8,0,16,23,10,6,2,6,2,6,2,6,2,6,2,6,2,6,
    2,6,2,31,48,0,470,2,26,14,2,4,3,4,5,85,3,1,3,2,2,89,2,3,6,42,2,93,18,31,49,15,513,6591,65,22156,
    68,45,3,268,4,27,21,50,2,9,2,114,38,8,3,102,3,63,6,1,2,0,2,4,25,53,5,0,20,51,13,69,11,9,7,23,4,0,
    2,48,3,35,13,28,4,64,15,10,7,30,2,54,10,13,3,9,7,22,4,72,25,2,3,15,3,4,11,5,3,5,3,5,10,6,2,6,
    2,42,2,13,7,122,2,1,3,9,7,11171,13,22,5,48,8453,365,3,105,39,6,13,4,6,11,2,12,2,4,2,0,2,1,2,1,
    2,107,34,362,19,63,3,53,41,11,5,15,17,15,4,1,25,2,33,4,2,134,20,9,8,25,5,0,2,25,12,88,4,5,3,5,3,5,
    3,2,36,11,2,25,2,18,2,1,2,14,3,13,35,122,70,52,137,0,131,28,4,48,16,0,32,31,14,29,6,42,6,29,3,35,
    5,7,2,4,43,157,3,9,7,35,5,35,5,39,9,51,13,10,2,14,2,6,2,1,2,10,2,14,2,6,2,1,68,310,10,21,11,7,
    25,5,2,41,2,8,70,5,3,0,2,43,2,1,4,0,3,22,11,22,10,30,66,18,2,1,11,21,11,25,71,55,7,1,65,3,2,1,
    6,7,2,2,2,28,3,2,5,0,33,28,4,28,36,7,2,29,26,53,11,21,11,18,14,17,111,72,56,50,14,50,14,39,9,9,
    327,41,2,1,4,1,76,31,11,0,9,32,32,21,43,20,28,22,10,70,32,15,10,59,8,0,14,24,8,9,7,52,2,9,5,3,
    9,35,3,0,10,68,5,3,2,12,2,0,36,17,2,36,7,3,63,6,2,0,2,3,2,14,2,9,8,58,6,9,7,3,2,7,3,1,3,21,2,6,
    2,1,2,4,2,9,3,1,3,2,3,0,7,0,6,6,3,6,4,4,140,74,6,9,5,3,31,69,2,0,9,9,167,53,3,8,24,5,35,64,4,0,
    12,9,39,56,8,9,55,26,3,14,5,9,7,6,186,58,102,73,22,7,3,0,3,7,2,1,2,29,2,1,3,8,13,9,71,7,3,45,3,7,
    2,1,28,62,9,0,9,73,4,0,19,72,264,8,2,44,2,8,16,9,25,29,3,21,2,13,74,6,2,1,2,43,4,0,2,1,2,8,9,9,
    7,5,2,1,2,36,2,1,2,5,8,9,311,22,10,16,2,40,4,4,14,9,87,0,80,921,103,110,18,195,2637,96,16,1071,
    17,21,4011,582,8634,568,8,30,2,9,7,78,2,9,7,29,3,4,12,54,10,3,13,9,10,20,6,18,689,63,129,74,5,56,
    8,16,65,1,2,1,12,1,15,6135,9,1237,43,8,8936,3,2,6,2,1,2,290,16,0,30,2,3,0,15,3,9,395,2309,106,6,12,
    4,8,8,9,4,1,4706,45,3,22,543,4,4,5,9,7,3,6,31,3,149,2,444,84,2,70,2,1,3,0,3,1,3,3,2,11,2,0,2,6,
    2,64,2,3,3,7,2,6,2,27,2,3,2,4,2,0,4,6,2,339,3,24,2,24,2,30,2,24,2,30,2,24,2,30,2,24,2,30,2,24,
    2,7,3,49,513,54,5,49,9,0,15,0,23,4,2,14,1105,30,7,5,214,6,2,16,3,6,2,1,2,4,6,61,34,0,113,44,4,13,
    3,9,5,0,322,30,18,57,471,41,743,6,2,3,2,1,2,14,2,196,12,6,42,75,5,9,1191,3,2,26,2,1,2,0,3,0,2,9,
    2,3,2,0,2,0,7,0,5,0,2,0,2,0,2,2,2,1,2,0,3,0,2,0,2,0,2,0,2,0,2,1,2,0,3,3,2,6,2,3,2,3,2,0,2,9,
    2,16,6,2,2,4,2,16,629,25,7,25,7,25,2663,9,1031,42719,33,4153,7,221,3,5761,15,7472,3104,541,1507,4938,
    6,4191,712017,239]

private def digitRanges : List (Nat × Nat) :=
  rangesFrom 0 [1632,9,135,9,199,9,413,9,119,9,119,9,119,9,119,9,119,9,119,9,119,9,119,9,119,9,97,9,119,9,
    71,9,279,9,71,9,1863,9,39,9,301,9,129,9,167,9,7,9,183,9,87,9,135,9,7,9,35271,9,679,9,39,9,199,9,
    23,9,87,9,407,9,21271,9,1415,9,2183,9,813,9,129,9,61,9,145,9,279,9,343,9,119,9,375,9,103,9,103,9,
    423,9,103,9,759,9,247,9,71,9,423,9,19207,9,87,9,135,9,27765,49,2369,9,423,9,503,9,1111,9,4759,9]

def isWord (c : Char) : Bool :=
  c.isAlphanum || c == '_' || (128 ≤ c.toNat && inRanges wordRanges c.toNat)

def isWordRange (first last : Nat) : Bool :=
  128 ≤ first && (last < 0xD800 || (0xDFFF < first && last < 0x110000)) &&
    wordRanges.any fun r => last.ble r.2 && r.1.ble first

theorem isWord_of_isWordRange {first last n : Nat} (h : isWordRange first last = true) (low : first ≤ n)
    (high : n ≤ last) : isWord (Char.ofNat n) = true := by
  simp only [isWordRange,Bool.and_eq_true,Bool.or_eq_true,decide_eq_true_eq,List.any_eq_true,Nat.ble_eq] at h
  obtain ⟨⟨above,valid⟩,r,listed,covers⟩ := h
  have same : (Char.ofNat n).toNat = n := by
    rw [Char.ofNat,dif_pos (by simp only [Nat.isValidChar]; omega)]
    rfl
  have inside : inRanges wordRanges n = true := by
    refine List.any_eq_true.mpr ⟨r,listed,?_⟩
    simp only [Bool.and_eq_true,decide_eq_true_eq]
    omega
  have high : 128 ≤ n := by omega
  simp [isWord,same,inside,high]

def isDecimal (c : Char) : Bool :=
  c.isDigit || (128 ≤ c.toNat && inRanges digitRanges c.toNat)

def isBoundary (before after : Option Char) : Bool :=
  before.any isWord != after.any isWord

end SemanticSql.Text
