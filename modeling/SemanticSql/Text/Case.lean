import SemanticSql.Text.Blank
import SemanticSql.Text.Word

/-! Letter case. `lower` and `upper` are the full Unicode case maps of a text, including the final form of sigma;
`sameLetter` compares two characters under simple case folding. -/
namespace SemanticSql.Text

/-- Every `step`-th code point from `first` to `last` is mapped by adding `shift`. -/
structure CaseRun where
  first : Nat
  last : Nat
  step : Nat
  shift : Int
  deriving DecidableEq, Repr

def CaseRun.one (n : Nat) (shift : Int) : CaseRun := ⟨n,n,1,shift⟩

def CaseRun.image (r : CaseRun) (n : Nat) : Nat := (Int.ofNat n + r.shift).toNat

def CaseRun.find? (runs : List CaseRun) (n : Nat) : Option Nat :=
  (runs.find? fun r => r.first ≤ n && n ≤ r.last && (n - r.first) % r.step == 0).map fun r => r.image n

def CaseRun.back (r : CaseRun) : CaseRun :=
  { r with first := r.image r.first, last := r.image r.last, shift := -r.shift }

private def lowerRuns : List CaseRun :=
  [⟨192,214,1,32⟩,⟨216,222,1,32⟩,⟨256,302,2,1⟩,⟨306,310,2,1⟩,⟨313,327,2,1⟩,⟨330,374,2,1⟩,
   .one 376 (-121),⟨377,381,2,1⟩,.one 385 210,⟨386,388,2,1⟩,.one 390 206,.one 391 1,⟨393,394,1,205⟩,
   .one 395 1,.one 398 79,.one 399 202,.one 400 203,.one 401 1,.one 403 205,.one 404 207,.one 406 211,
   .one 407 209,.one 408 1,.one 412 211,.one 413 213,.one 415 214,⟨416,420,2,1⟩,.one 422 218,.one 423 1,
   .one 425 218,.one 428 1,.one 430 218,.one 431 1,⟨433,434,1,217⟩,⟨435,437,2,1⟩,.one 439 219,.one 440 1,
   .one 444 1,.one 452 2,.one 453 1,.one 455 2,.one 456 1,.one 458 2,⟨459,475,2,1⟩,⟨478,494,2,1⟩,
   .one 497 2,⟨498,500,2,1⟩,.one 502 (-97),.one 503 (-56),⟨504,542,2,1⟩,.one 544 (-130),⟨546,562,2,1⟩,
   .one 570 10795,.one 571 1,.one 573 (-163),.one 574 10792,.one 577 1,.one 579 (-195),.one 580 69,.one 581 71,
   ⟨582,590,2,1⟩,⟨880,882,2,1⟩,.one 886 1,.one 895 116,.one 902 38,⟨904,906,1,37⟩,.one 908 64,
   ⟨910,911,1,63⟩,⟨913,929,1,32⟩,⟨931,939,1,32⟩,.one 975 8,⟨984,1006,2,1⟩,.one 1012 (-60),.one 1015 1,
   .one 1017 (-7),.one 1018 1,⟨1021,1023,1,-130⟩,⟨1024,1039,1,80⟩,⟨1040,1071,1,32⟩,⟨1120,1152,2,1⟩,
   ⟨1162,1214,2,1⟩,.one 1216 15,⟨1217,1229,2,1⟩,⟨1232,1326,2,1⟩,⟨1329,1366,1,48⟩,⟨4256,4293,1,7264⟩,
   .one 4295 7264,.one 4301 7264,⟨5024,5103,1,38864⟩,⟨5104,5109,1,8⟩,⟨7312,7354,1,-3008⟩,
   ⟨7357,7359,1,-3008⟩,⟨7680,7828,2,1⟩,.one 7838 (-7615),⟨7840,7934,2,1⟩,⟨7944,7951,1,-8⟩,
   ⟨7960,7965,1,-8⟩,⟨7976,7983,1,-8⟩,⟨7992,7999,1,-8⟩,⟨8008,8013,1,-8⟩,⟨8025,8031,2,-8⟩,
   ⟨8040,8047,1,-8⟩,⟨8072,8079,1,-8⟩,⟨8088,8095,1,-8⟩,⟨8104,8111,1,-8⟩,⟨8120,8121,1,-8⟩,
   ⟨8122,8123,1,-74⟩,.one 8124 (-9),⟨8136,8139,1,-86⟩,.one 8140 (-9),⟨8152,8153,1,-8⟩,
   ⟨8154,8155,1,-100⟩,⟨8168,8169,1,-8⟩,⟨8170,8171,1,-112⟩,.one 8172 (-7),⟨8184,8185,1,-128⟩,
   ⟨8186,8187,1,-126⟩,.one 8188 (-9),.one 8486 (-7517),.one 8490 (-8383),.one 8491 (-8262),.one 8498 28,
   ⟨8544,8559,1,16⟩,.one 8579 1,⟨9398,9423,1,26⟩,⟨11264,11311,1,48⟩,.one 11360 1,.one 11362 (-10743),
   .one 11363 (-3814),.one 11364 (-10727),⟨11367,11371,2,1⟩,.one 11373 (-10780),.one 11374 (-10749),
   .one 11375 (-10783),.one 11376 (-10782),.one 11378 1,.one 11381 1,⟨11390,11391,1,-10815⟩,
   ⟨11392,11490,2,1⟩,⟨11499,11501,2,1⟩,.one 11506 1,⟨42560,42604,2,1⟩,⟨42624,42650,2,1⟩,
   ⟨42786,42798,2,1⟩,⟨42802,42862,2,1⟩,⟨42873,42875,2,1⟩,.one 42877 (-35332),⟨42878,42886,2,1⟩,
   .one 42891 1,.one 42893 (-42280),⟨42896,42898,2,1⟩,⟨42902,42920,2,1⟩,.one 42922 (-42308),
   .one 42923 (-42319),.one 42924 (-42315),.one 42925 (-42305),.one 42926 (-42308),.one 42928 (-42258),
   .one 42929 (-42282),.one 42930 (-42261),.one 42931 928,⟨42932,42946,2,1⟩,.one 42948 (-48),
   .one 42949 (-42307),.one 42950 (-35384),⟨42951,42953,2,1⟩,.one 42960 1,⟨42966,42968,2,1⟩,.one 42997 1,
   ⟨65313,65338,1,32⟩,⟨66560,66599,1,40⟩,⟨66736,66771,1,40⟩,⟨66928,66938,1,39⟩,⟨66940,66954,1,39⟩,
   ⟨66956,66962,1,39⟩,⟨66964,66965,1,39⟩,⟨68736,68786,1,64⟩,⟨71840,71871,1,32⟩,⟨93760,93791,1,32⟩,
   ⟨125184,125217,1,34⟩]

private def upperRuns : List CaseRun :=
  [.one 181 743,.one 305 (-232),.one 383 (-300),.one 453 (-1),.one 456 (-1),.one 459 (-1),.one 498 (-1),
   .one 837 84,.one 962 (-31),.one 976 (-62),.one 977 (-57),.one 981 (-47),.one 982 (-54),.one 1008 (-86),
   .one 1009 (-80),.one 1013 (-96),.one 7296 (-6254),.one 7297 (-6253),.one 7298 (-6244),⟨7299,7300,1,-6242⟩,
   .one 7301 (-6243),.one 7302 (-6236),.one 7303 (-6181),.one 7304 35266,.one 7835 (-59),.one 8126 (-7205)] ++
   lowerRuns.map CaseRun.back

private def upperLong : List (Nat × List Nat) :=
  [(223, [83,83]),(329, [700,78]),(496, [74,780]),(912, [921,776,769]),(944, [933,776,769]),
   (1415, [1333,1362]),(7830, [72,817]),(7831, [84,776]),(7832, [87,778]),(7833, [89,778]),
   (7834, [65,702]),(8016, [933,787]),(8018, [933,787,768]),(8020, [933,787,769]),(8022, [933,787,834]),
   (8114, [8122,921]),(8115, [913,921]),(8116, [902,921]),(8118, [913,834]),(8119, [913,834,921]),
   (8124, [913,921]),(8130, [8138,921]),(8131, [919,921]),(8132, [905,921]),(8134, [919,834]),
   (8135, [919,834,921]),(8140, [919,921]),(8146, [921,776,768]),(8147, [921,776,769]),(8150, [921,834]),
   (8151, [921,776,834]),(8162, [933,776,768]),(8163, [933,776,769]),(8164, [929,787]),(8166, [933,834]),
   (8167, [933,776,834]),(8178, [8186,921]),(8179, [937,921]),(8180, [911,921]),(8182, [937,834]),
   (8183, [937,834,921]),(8188, [937,921]),(64256, [70,70]),(64257, [70,73]),(64258, [70,76]),
   (64259, [70,70,73]),(64260, [70,70,76]),(64261, [83,84]),(64262, [83,84]),(64275, [1348,1350]),
   (64276, [1348,1333]),(64277, [1348,1339]),(64278, [1358,1350]),(64279, [1348,1341])] ++
    -- The Greek letters with an iota below, small and capital by turns of eight.
    (List.range 48).map fun i => (8064 + i, [(if i < 16 then 7944 else if i < 32 then 7976 else 8040) + i % 8,921])

private def foldRuns : List CaseRun :=
  [.one 181 775,.one 383 (-268),.one 837 116,.one 962 1,.one 976 (-30),.one 977 (-25),.one 981 (-15),
   .one 982 (-22),.one 1008 (-54),.one 1009 (-48),.one 1013 (-64),⟨5112,5117,1,-8⟩,.one 7296 (-6222),
   .one 7297 (-6221),.one 7298 (-6212),⟨7299,7300,1,-6210⟩,.one 7301 (-6211),.one 7302 (-6204),
   .one 7303 (-6180),.one 7304 35267,.one 7835 (-58),.one 8126 (-7173),⟨43888,43967,1,-38864⟩] ++
    lowerRuns.filter fun r => r.first < 5024 || 5109 < r.first

private def casedRanges : List (Nat × Nat) :=
  rangesFrom 0 [170,0,11,0,5,0,6,22,2,30,2,194,2,3,5,207,2,35,8,1,31,4,97,0,43,3,3,1,3,3,2,0,7,0,2,2,
    2,0,2,19,2,82,2,138,9,165,2,37,10,40,2840,37,2,0,6,0,3,42,2,3,673,85,3,5,2179,8,8,42,3,2,65,191,
    65,277,3,5,3,37,3,5,3,7,2,0,2,0,2,0,2,30,3,52,2,6,2,0,4,2,2,6,4,3,3,5,5,12,6,2,2,6,117,0,14,0,
    17,12,102,0,5,0,3,9,2,0,4,4,7,0,2,0,2,0,2,3,2,5,5,0,3,3,6,4,5,0,18,31,4,1,818,51,1815,228,7,3,
    4,1,13,37,2,0,6,0,30995,45,19,29,133,101,4,3,2,58,6,1,2,0,2,4,25,4,2,2,822,42,2,13,7,79,20289,6,
    13,4,1034,25,7,25,1190,79,97,35,5,35,117,10,2,14,2,6,2,1,2,10,2,14,2,6,2,1,452,0,3,2,2,41,2,8,
    1222,50,14,50,2990,63,21857,63,25985,84,2,70,2,1,3,0,3,1,3,3,2,11,2,0,2,6,2,64,2,3,3,7,2,6,2,27,
    2,3,2,4,2,0,4,6,2,339,3,24,2,24,2,30,2,24,2,30,2,24,2,30,2,24,2,30,2,24,2,7,1845,9,2,19,7,5,
    262,61,2195,67,2029,25,7,25,7,25]

private def ignorableRanges : List (Nat × Nat) :=
  rangesFrom 0 [39,0,7,0,12,0,36,0,2,0,72,0,5,0,2,0,5,0,3,1,504,191,5,1,5,0,10,1,2,0,252,6,208,0,6,0,
    50,44,2,0,2,1,2,1,2,0,45,0,12,5,11,10,2,0,36,0,11,20,17,0,102,7,2,9,2,3,34,0,2,0,31,26,92,10,
    59,10,5,0,3,0,25,23,44,2,45,0,8,1,7,7,42,57,56,0,2,0,5,7,5,0,4,6,11,1,14,0,16,0,59,0,5,3,9,0,
    21,1,27,0,3,1,58,0,5,1,5,1,3,2,4,0,31,1,4,0,12,1,58,0,5,4,2,1,5,0,21,1,23,5,2,0,59,0,3,0,2,3,
    9,0,8,1,12,1,31,0,62,0,13,0,51,0,4,0,56,0,2,2,6,2,2,3,8,1,12,1,30,0,59,0,3,0,7,0,6,1,21,1,29,1,
    58,1,5,3,9,0,21,1,30,0,73,0,8,2,2,0,91,0,3,6,12,8,99,0,3,8,10,0,2,6,74,1,28,0,2,0,2,0,56,13,2,4,
    2,1,6,10,2,35,10,0,103,3,2,5,2,1,3,1,26,1,5,2,17,3,14,0,3,1,7,0,16,0,95,0,609,2,947,2,30,1,31,1,
    31,1,65,1,2,6,9,0,3,10,4,0,6,0,46,4,52,0,66,1,35,0,119,2,5,1,10,0,7,2,220,1,3,0,59,0,2,6,2,0,
    2,0,3,7,7,9,3,0,40,0,9,30,50,3,49,0,2,4,2,0,6,0,41,8,13,1,33,3,3,1,2,2,57,0,2,1,4,0,2,2,59,7,
    3,1,65,5,83,2,2,12,2,6,5,0,7,0,4,1,51,62,14,0,35,100,446,0,2,2,12,2,14,2,14,2,14,1,13,4,9,1,11,0,
    3,0,3,4,50,4,2,9,2,0,14,0,17,12,52,32,2956,1,114,2,126,0,16,0,97,31,48,0,470,0,37,3,4,4,6,0,94,5,
    94,2,28439,0,1251,5,271,0,99,3,2,9,2,0,29,3,81,1,15,33,79,0,24,2,104,2,4,1,9,0,4,0,5,0,26,1,6,0,
    152,1,27,17,14,0,39,7,26,10,47,2,49,0,3,3,3,1,18,0,22,1,67,5,3,1,3,1,13,0,9,0,36,0,12,0,52,0,2,2,
    3,1,6,1,2,0,28,0,15,1,6,1,2,0,101,4,10,2,122,0,3,0,5,0,20273,0,148,16,574,15,4,0,13,15,35,0,3,0,
    170,0,8,0,7,0,12,0,36,0,2,0,48,0,46,1,68,0,22,2,514,0,227,0,150,4,1030,5,2,41,2,8,583,2,2,1,6,3,
    41,2,5,0,166,1,574,3,388,1,81,2,71,10,50,3,124,0,55,14,42,0,3,1,11,2,50,3,3,1,3,0,5,0,11,0,51,2,
    37,4,2,7,63,0,13,1,53,8,11,3,3,0,96,2,3,0,2,1,7,0,3,0,158,0,4,7,22,1,58,1,4,0,38,6,4,4,196,7,
    3,2,2,0,24,0,85,5,2,0,5,1,2,1,239,3,7,1,2,1,28,1,86,7,3,0,2,1,107,0,2,0,3,5,2,0,102,2,3,3,2,4,
    260,8,2,1,257,1,2,0,5,0,145,3,3,1,5,0,33,9,41,5,3,3,9,0,10,5,3,2,47,12,2,1,407,6,2,5,2,0,83,21,
    3,6,2,1,2,1,123,5,4,0,2,1,2,6,2,0,73,1,4,0,2,0,348,1,12,1,53,4,6,0,2,0,5358,16,7,14,13979,4,60,6,
    10,3,1036,0,64,16,65,1,2,1,16396,3,2,6,2,1,3231,1,2,3,4701,45,3,22,545,2,10,15,3,6,31,3,149,2,
    1980,54,5,49,9,0,15,0,23,4,2,14,1361,6,2,16,3,6,2,1,2,4,6,61,34,0,161,13,369,0,62,3,508,4,993,6,
    110,7,2736,4,789506,0,31,95,129,239]

def isCased (c : Char) : Bool :=
  c.isAlpha || (128 ≤ c.toNat && inRanges casedRanges c.toNat)

def isCaseIgnorable (c : Char) : Bool := inRanges ignorableRanges c.toNat

def startsCased (cs : List Char) : Bool :=
  match cs.dropWhile isCaseIgnorable with
  | [] => false
  | c :: _ => isCased c

def lowerChar (c : Char) : List Char :=
  if c.toNat < 128 then [c.toLower]
  else if c.toNat = 0x130 then ['i',Char.ofNat 0x307]
  else [((CaseRun.find? lowerRuns c.toNat).map Char.ofNat).getD c]

def lowerFrom (before : List Char) : List Char → List Char
  | [] => []
  | c :: rest =>
    if c.toNat = 0x3A3 then
      let sigma := if startsCased before && !startsCased rest then 0x3C2 else 0x3C3
      Char.ofNat sigma :: lowerFrom (c :: before) rest
    else lowerChar c ++ lowerFrom (c :: before) rest

def lowerList (cs : List Char) : List Char := lowerFrom [] cs

def lower (s : String) : String := String.ofList (lowerList s.toList)

namespace CaseRun

def avoids (r : CaseRun) (first last : Nat) : Bool :=
  (r.image r.last).blt first || last.blt (r.image r.first)

/-- Whether the images of a run are apart from another run: outside of it, or of the other parity. -/
def misses (r q : CaseRun) : Bool :=
  r.avoids q.first q.last ||
    (r.step == 2 || r.first == r.last) && q.step == 2 && r.image r.first % 2 != q.first % 2

/-- Blanks, capital letters of ASCII, two letters with rules of their own, and what is no character. -/
def strange : List (Nat × Nat) :=
  [(0, 32),(65, 90),(0x85, 0x85),(0xA0, 0xA0),(0x130, 0x130),(0x3A3, 0x3A3),(0x1680, 0x1680),
    (0x2000, 0x205F),(0x3000, 0x3000),(0xD800, 0xDFFF)]

/-- Whether all images of a run are plain characters that no run maps any further. -/
def settles (runs : List CaseRun) (r : CaseRun) : Bool :=
  runs.all r.misses && r.image r.last < 0x110000 && strange.all fun e => r.avoids e.1 e.2

theorem find?_eq_some {runs : List CaseRun} {n m : Nat} (h : find? runs n = some m) :
    ∃ r ∈ runs, r.first ≤ n ∧ n ≤ r.last ∧ (n - r.first) % r.step = 0 ∧ m = r.image n := by
  obtain ⟨r,found,same⟩ := Option.map_eq_some_iff.mp h
  have covers := List.find?_some found
  simp only [Bool.and_eq_true,decide_eq_true_eq,beq_iff_eq] at covers
  exact ⟨r,List.mem_of_find?_eq_some found,covers.1.1,covers.1.2,covers.2,same.symm⟩

theorem image_mono (r : CaseRun) {a b : Nat} (h : a ≤ b) : r.image a ≤ r.image b := by
  simp only [image,Int.ofNat_eq_natCast]
  omega

theorem not_between {r : CaseRun} {n first last : Nat} (low : r.first ≤ n) (high : n ≤ r.last)
    (h : r.avoids first last = true) : r.image n < first ∨ last < r.image n := by
  simp only [avoids,Bool.or_eq_true,Nat.blt_eq] at h
  have := r.image_mono low
  have := r.image_mono high
  omega

theorem find?_image {runs : List CaseRun} {r : CaseRun} {n : Nat} (low : r.first ≤ n) (high : n ≤ r.last)
    (even : (n - r.first) % r.step = 0) (positive : 0 < r.image r.first) (apart : runs.all r.misses = true) :
    find? runs (r.image n) = none := by
  refine Option.map_eq_none_iff.mpr (List.find?_eq_none.mpr fun q mem covers => ?_)
  have away := List.all_eq_true.mp apart q mem
  simp only [Bool.and_eq_true,decide_eq_true_eq,beq_iff_eq] at covers
  simp only [misses,Bool.or_eq_true,Bool.and_eq_true,beq_iff_eq,bne_iff_ne] at away
  rcases away with outside | ⟨⟨sparse,two⟩,parity⟩
  · have := not_between low high outside
    omega
  · rw [two] at covers
    simp only [image,Int.ofNat_eq_natCast] at covers positive parity
    rcases sparse with sparse | single
    · rw [sparse] at even
      omega
    · omega

structure Plain (runs : List CaseRun) (m : Nat) : Prop where
  toNat : (Char.ofNat m).toNat = m
  settled : find? runs m = none
  capital : ¬ (65 ≤ m ∧ m ≤ 90)
  other : m ≠ 0x130
  blank : isBlank (Char.ofNat m) = false

theorem plain_image {runs : List CaseRun} {n m : Nat} (all : runs.all (settles runs) = true)
    (h : find? runs n = some m) : Plain runs m := by
  obtain ⟨r,listed,low,high,even,rfl⟩ := find?_eq_some h
  have settled := List.all_eq_true.mp all r listed
  simp only [settles,Bool.and_eq_true,decide_eq_true_eq] at settled
  have top := r.image_mono high
  have positive := not_between (Nat.le_refl r.first) (Nat.le_trans low high)
    (List.all_eq_true.mp settled.2 (0, 32) List.mem_cons_self)
  have away := fun e mem => not_between low high (List.all_eq_true.mp settled.2 e mem)
  simp only [strange,List.forall_mem_cons] at away
  obtain ⟨controls,capitals,nextLine,hardSpace,dotted,_,ogham,spaces,ideographic,surrogates,_⟩ := away
  have valid : (r.image n).isValidChar := by
    simp only [Nat.isValidChar]
    omega
  have same : (Char.ofNat (r.image n)).toNat = r.image n := by
    rw [Char.ofNat,dif_pos valid]
    rfl
  refine ⟨same,find?_image low high even (by omega) settled.1.1,by omega,by omega,?_⟩
  simp only [isBlank,same,Bool.or_eq_false_iff,Bool.and_eq_false_iff,decide_eq_false_iff_not,
    beq_eq_false_iff_ne]
  omega

end CaseRun

private theorem lowerRuns_settle : lowerRuns.all (CaseRun.settles lowerRuns) = true := by
  decide +kernel

def isSmall (c : Char) : Bool := lowerChar c == [c] && c.toNat != 0x3A3

theorem isSmall_ascii : ∀ n : Fin 128,
    (¬ (65 ≤ n.val ∧ n.val ≤ 90) → isSmall (Char.ofNat n) = true) ∧ isSmall (Char.ofNat n).toLower = true ∧
      (isBlank (Char.ofNat n).toLower = true → (Char.ofNat n).toLower = Char.ofNat n) := by
  decide +kernel

private theorem isSmall_of_find?_eq_none {c : Char} (above : ¬ c.toNat < 128) (other : c.toNat ≠ 0x130)
    (h : CaseRun.find? lowerRuns c.toNat = none) : isSmall c = true := by
  have plain : c.toNat ≠ 0x3A3 := fun same => absurd (same ▸ h) (by decide +kernel)
  simp [isSmall,lowerChar,above,other,h,plain]

private theorem isSmall_of_plain {m : Nat} (h : CaseRun.Plain lowerRuns m) : isSmall (Char.ofNat m) = true := by
  by_cases low : m < 128
  · exact (isSmall_ascii ⟨m,low⟩).1 h.capital
  · exact isSmall_of_find?_eq_none (by rwa [h.toNat]) (by rw [h.toNat]; exact h.other) (by rw [h.toNat]; exact h.settled)

/-- Lower case is final, and makes no character blank. -/
theorem isSmall_of_mem_lowerChar {c d : Char} (mem : d ∈ lowerChar c) :
    isSmall d = true ∧ (isBlank d = true → d = c) := by
  unfold lowerChar at mem
  split at mem
  · rename_i low
    have ascii := (isSmall_ascii ⟨c.toNat,low⟩).2
    rw [List.mem_singleton.mp mem]
    simpa only [Char.ofNat_toNat] using ascii
  · rename_i above
    split at mem
    · have letter : isSmall 'i' = true ∧ isBlank 'i' = false := by decide +kernel
      have dot : isSmall (Char.ofNat 0x307) = true ∧ isBlank (Char.ofNat 0x307) = false := by decide +kernel
      have dotted : isSmall d = true ∧ isBlank d = false := by
        rcases List.mem_cons.mp mem with rfl | second
        · exact letter
        · exact List.mem_singleton.mp second ▸ dot
      exact ⟨dotted.1,fun blank => absurd blank (by simp [dotted.2])⟩
    · rename_i other
      rw [List.mem_singleton] at mem
      cases found : CaseRun.find? lowerRuns c.toNat with
      | none =>
        have same : d = c := by simpa [found] using mem
        exact ⟨same ▸ isSmall_of_find?_eq_none above other found,fun _ => same⟩
      | some m =>
        have same : d = Char.ofNat m := by simpa [found] using mem
        have image := CaseRun.plain_image lowerRuns_settle found
        exact same ▸ ⟨isSmall_of_plain image,fun blank => absurd blank (by simp [image.blank])⟩

private theorem lowerRuns_high : lowerRuns.all (fun r => r.avoids 0 106 && r.avoids 108 127) = true := by
  decide +kernel

/-- Of the letters of ASCII, only two are in the lower case of a character beyond it. -/
theorem ascii_of_mem_lowerChar {c d : Char} (mem : d ∈ lowerChar c) (low : d.toNat < 128) :
    c.toNat < 128 ∨ d = 'i' ∨ d = 'k' := by
  unfold lowerChar at mem
  split at mem
  · exact .inl ‹_›
  · split at mem
    · rcases List.mem_cons.mp mem with rfl | second
      · exact .inr (.inl rfl)
      · rw [List.mem_singleton.mp second] at low
        exact absurd low (by decide)
    · rw [List.mem_singleton] at mem
      cases found : CaseRun.find? lowerRuns c.toNat with
      | none =>
        have same : d = c := by simpa [found] using mem
        exact .inl (same ▸ low)
      | some m =>
        have same : d = Char.ofNat m := by simpa [found] using mem
        have code := (CaseRun.plain_image lowerRuns_settle found).toNat
        obtain ⟨r,listed,first,last,_,rfl⟩ := CaseRun.find?_eq_some found
        have away := List.all_eq_true.mp lowerRuns_high r listed
        rw [Bool.and_eq_true] at away
        have below := CaseRun.not_between first last away.1
        have above := CaseRun.not_between first last away.2
        rw [same,code] at low
        have unit : r.image c.toNat = 107 := by omega
        exact .inr (.inr (same.trans (congrArg Char.ofNat unit)))

def upperChar (c : Char) : List Char :=
  if c.toNat < 128 then [c.toUpper]
  else match upperLong.find? fun e => e.1 == c.toNat with
    | some e => e.2.map Char.ofNat
    | none => [((CaseRun.find? upperRuns c.toNat).map Char.ofNat).getD c]

def upper (s : String) : String := String.ofList (s.toList.flatMap upperChar)

def foldChar (c : Char) : Char :=
  if c.toNat < 128 then c.toLower else ((CaseRun.find? foldRuns c.toNat).map Char.ofNat).getD c

def CaseRun.words (step first last : Nat) : Bool :=
  isWordRange first last ||
    (List.range (last + 1 - first)).all fun i => i % step != 0 || isWord (Char.ofNat (first + i))

theorem CaseRun.isWord_of_words {step first last n : Nat} (h : words step first last = true) (low : first ≤ n)
    (high : n ≤ last) (even : (n - first) % step = 0) : isWord (Char.ofNat n) = true := by
  rcases Bool.or_eq_true_iff.mp h with range | each
  · exact isWord_of_isWordRange range low high
  · have word := List.all_eq_true.mp each (n - first) (List.mem_range.mpr (by omega))
    rwa [even,Nat.add_sub_of_le low] at word

def CaseRun.keepsWords (r : CaseRun) : Bool :=
  words r.step r.first r.last && 0 < r.image r.first && words r.step (r.image r.first) (r.image r.last)

private theorem foldRuns_keepWords : foldRuns.all CaseRun.keepsWords = true := by
  decide +kernel

/-- A letter is a word character exactly if it is one in every case. -/
theorem isWord_foldChar (c : Char) : isWord (foldChar c) = isWord c := by
  unfold foldChar
  split
  · rename_i low
    have ascii : ∀ n : Fin 128, isWord (Char.ofNat n).toLower = isWord (Char.ofNat n) := by decide +kernel
    simpa only [Char.ofNat_toNat] using ascii ⟨c.toNat,low⟩
  · cases found : CaseRun.find? foldRuns c.toNat with
    | none => rfl
    | some m =>
      obtain ⟨r,listed,low,high,even,rfl⟩ := CaseRun.find?_eq_some found
      have keeps := List.all_eq_true.mp foldRuns_keepWords r listed
      simp only [CaseRun.keepsWords,Bool.and_eq_true,decide_eq_true_eq] at keeps
      have letter := CaseRun.isWord_of_words keeps.1.1 low high even
      rw [Char.ofNat_toNat] at letter
      rw [Option.map_some,Option.getD_some,letter]
      have shifted : r.image c.toNat - r.image r.first = c.toNat - r.first := by
        have positive := keeps.1.2
        simp only [CaseRun.image,Int.ofNat_eq_natCast] at positive ⊢
        omega
      exact CaseRun.isWord_of_words keeps.2 (r.image_mono low) (r.image_mono high) (by rw [shifted,even])

def sameLetter (a b : Char) : Bool := foldChar a == foldChar b

end SemanticSql.Text
