import SemanticSql.Proofs.DateGrammar
import SemanticSql.Proofs.RelativeRanges

/-! A time that is written in full is read back. -/
namespace SemanticSql

open List
open RelativeDate (Numeral numeralDigits numberRead yearRead)

theorem stepRead {α β : Type} {x : Option α} {f : α → Option β} {a : α} {b : β} (first : x = some a)
    (rest : f a = some b) : x >>= f = some b := first ▸ rest

namespace Calendar
variable {n width : Nat} {ds rest : List Char}

theorem paddedChars (width n : Nat) :
    (padded width n).toList = replicate (width - (Nat.toDigits 10 n).length) '0' ++ Nat.toDigits 10 n := by
  have digits : (toString n).toList = Nat.toDigits 10 n := by simp [toString]
  simp only [padded,String.toList_append,String.toList_ofList,digits,← String.length_toList]

theorem paddedLength (positive : 0 < width) (small : n < 10 ^ width) : (padded width n).toList.length = width := by
  have short := (Nat.length_toDigits_le_iff (by decide) positive).mpr small
  rw [paddedChars,length_append,length_replicate]
  omega

theorem numeralTaken (numeral : Numeral n ds) (short : ds.length ≤ width) (ends : ∀ c ∈ rest.head?, c.isDigit = false) :
    number? width (ds ++ rest) = some (n, rest) := by
  obtain ⟨digits,value⟩ := numeralDigits numeral
  rw [numberRead digits ends (Nat.lt_of_lt_of_le (length_pos_iff.mpr digits.1) short),take_of_length_le short,value,
    drop_left]

theorem paddedRead (positive : 0 < width) (small : n < 10 ^ width) (ends : ∀ c ∈ rest.head?, c.isDigit = false) :
    number? width ((padded width n).toList ++ rest) = some (n, rest) :=
  numeralTaken ⟨_,paddedChars width n⟩ (Nat.le_of_eq (paddedLength positive small)) ends

theorem yearWritten (year : Int) (ends : ∀ c ∈ rest.head?, c.isDigit = false) :
    year? ((yearText year).toList ++ rest) = some (year, rest) := by
  have numeral (n : Nat) : Numeral n (padded 4 n).toList := ⟨_,paddedChars 4 n⟩
  have digit (n : Nat) : ((padded 4 n).toList ++ rest).head?.any Char.isDigit := by
    obtain ⟨c,more,same⟩ := exists_cons_of_ne_nil (numeralDigits (numeral n)).1.1
    simp [same,(numeralDigits (numeral n)).1.2 c (by simp [same])]
  have read (n : Nat) : number? ((padded 4 n).toList ++ rest).length ((padded 4 n).toList ++ rest) = some (n, rest) :=
    numeralTaken (numeral n) (by simp) ends
  have below (cs : List Char) (digit : cs.head?.any Char.isDigit) : year? ('-' :: cs) =
      (number? cs.length cs).map fun p => (-(Int.ofNat p.1), p.2) := by
    simp only [year?,Text.trimLeft,dropWhile_cons,show Text.isBlank '-' = false from rfl,if_pos digit,
      Bool.false_eq_true,if_false]
  have above (cs : List Char) (digit : cs.head?.any Char.isDigit) : year? ('+' :: cs) =
      (number? cs.length cs).map fun p => (Int.ofNat p.1, p.2) := by
    simp only [year?,Text.trimLeft,dropWhile_cons,show Text.isBlank '+' = false from rfl,if_pos digit,
      Bool.false_eq_true,if_false]
  have signed (sign : Char) (s : String) : (String.singleton sign ++ s).toList ++ rest = sign :: (s.toList ++ rest) := by
    simp
  unfold yearText
  split
  · rw [yearRead (numeralDigits (numeral _)).1,paddedRead (by decide) (by omega) ends,Option.map_some,
      Int.ofNat_eq_natCast,Int.toNat_of_nonneg (by omega)]
  · split
    · rw [show "-" = String.singleton '-' from rfl,signed,below _ (digit _),read,Option.map_some,Int.ofNat_eq_natCast,
        show -(year.natAbs : Int) = year by omega]
    · rw [show "+" = String.singleton '+' from rfl,signed,above _ (digit _),read,Option.map_some,Int.ofNat_eq_natCast,
        show (year.natAbs : Int) = year by omega]

theorem fractionRead (positive : 0 < width) (short : width ≤ 9) (small : n < 10 ^ width) :
    fractionLead? ('.' :: (padded width n).toList) = some (n * tenTo (9 - width), []) := by
  obtain ⟨digits,value⟩ := numeralDigits ⟨_,paddedChars width n⟩
  obtain ⟨taken,left⟩ := Text.span_append digits.2 (show ∀ c ∈ ([] : List Char).head?, c.isDigit = false by simp)
  have length := paddedLength positive small
  rw [append_nil] at taken left
  have kept : (padded width n).toList.take 9 = (padded width n).toList := take_of_length_le (by omega)
  have some : (padded width n).toList.isEmpty = false := by simpa using digits.1
  simp only [fractionLead?,taken,left,kept,some,RelativeDate.decimalValue,value,length]
  rfl

end Calendar

namespace DateTime
open Calendar

def fraction (n : Nat) : String :=
  if n = 0 then ""
  else if n % 1000000 = 0 then "." ++ padded 3 (n / 1000000)
  else if n % 1000 = 0 then "." ++ padded 6 (n / 1000)
  else "." ++ padded 9 n

theorem fractionWritten {n : Nat} (small : n < 10 ^ 9) :
    fractionLead? (fraction n).toList = some (n, []) ∧ ∀ c ∈ (fraction n).toList.head?, c.isDigit = false := by
  have ends (s : String) : ∀ c ∈ ("." ++ s).toList.head?, c.isDigit = false := by simp
  have point (s : String) : ("." ++ s).toList = '.' :: s.toList := by simp
  unfold fraction
  split
  · rename_i none
    simp [none,fractionLead?]
  split
  · refine ⟨?_,ends _⟩
    rw [point,fractionRead (by decide) (by decide) (by omega),show n / 1000000 * tenTo (9 - 3) = n by
      rw [show tenTo (9 - 3) = 1000000 by decide]
      omega]
  split
  · refine ⟨?_,ends _⟩
    rw [point,fractionRead (by decide) (by decide) (by omega),show n / 1000 * tenTo (9 - 6) = n by
      rw [show tenTo (9 - 6) = 1000 by decide]
      omega]
  · refine ⟨?_,ends _⟩
    rw [point,fractionRead (by decide) (by decide) small,show tenTo (9 - 9) = 1 by decide,Nat.mul_one]

theorem fullTextRead {t : DateTime} (valid : t.Valid) (small : t.nanosecond < 10 ^ 9) :
    parseSpaced? t.fullText = some t := by
  have text : t.fullText.toList = (yearText t.date.year).toList ++ '-' :: ((padded 2 t.date.month).toList ++
      '-' :: ((padded 2 t.date.day).toList ++ 'T' :: ((padded 2 t.hour).toList ++ ':' :: ((padded 2 t.minute).toList ++
      ':' :: ((padded 2 t.second).toList ++ (fraction t.nanosecond).toList))))) := by
    simp [fullText,DateTime.text,Date.text,fraction]
  have marked (c : Char) (visible : Text.isBlank c = false) (cs : List Char) :
      mark? c (Text.trimLeft (c :: cs)) = some cs := by
    simp [Text.trimLeft,visible,mark?]
  have stops (c : Char) (other : c.isDigit = false) (cs : List Char) : ∀ d ∈ (c :: cs).head?, d.isDigit = false := by
    simpa using other
  obtain ⟨proper,_⟩ := Date.ofExists.mp valid.date
  have month := proper.month
  have day := RelativeDate.monthShort t.date.year month
  have days := proper.day
  have clock : t.hour ≤ 23 ∧ t.minute ≤ 59 ∧ t.second ≤ 60 := ⟨valid.hour,valid.minute,valid.second⟩
  obtain ⟨fractions,ends⟩ := fractionWritten small
  have read {n : Nat} (two : n < 10 ^ 2) {rest : List Char} (ends : ∀ c ∈ rest.head?, c.isDigit = false) :
      number? 2 ((padded 2 n).toList ++ rest) = some (n, rest) := paddedRead (by decide) two ends
  rw [parseSpaced?,text]
  refine stepRead (yearWritten t.date.year (stops '-' rfl _)) (stepRead (marked '-' rfl _) ?_)
  refine stepRead (read (by omega) (stops '-' rfl _)) (stepRead (marked '-' rfl _) ?_)
  refine stepRead (read (by omega) (stops 'T' rfl _)) (stepRead valid.date (stepRead (marked 'T' rfl _) ?_))
  refine stepRead (read (by omega) (stops ':' rfl _)) (stepRead (marked ':' rfl _) ?_)
  refine stepRead (read (by omega) (stops ':' rfl _)) (stepRead (marked ':' rfl _) ?_)
  exact stepRead (read (by omega) ends) (stepRead (if_pos clock) (stepRead fractions rfl))

end DateTime

end SemanticSql
