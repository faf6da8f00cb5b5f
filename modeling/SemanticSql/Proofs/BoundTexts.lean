import Mathlib.Data.Nat.Cast.Field
import SemanticSql.Proofs.ShortestDigits
import SemanticSql.Proofs.SqlExpressions
import SemanticSql.Text.Cut

/-! The texts of bounds, as numbers. A bound is written with a sign, digits and maybe more digits behind a point. What is
written rounds to the bound, and larger bounds are written as larger numbers. -/
namespace SemanticSql

open List

structure Figures where
  negative : Bool
  whole : List Char
  fraction : List Char
  started : whole ≠ []
  digits : ∀ c ∈ whole ++ fraction, c.isDigit

namespace Figures

def unsigned (f : Figures) : List Char := f.whole ++ if f.fraction = [] then [] else '.' :: f.fraction

def chars (f : Figures) : List Char := (if f.negative then ['-'] else []) ++ f.unsigned

def magnitude (f : Figures) : ℚ := Numeral.digitsValue (f.whole ++ f.fraction) * 10 ^ (-f.fraction.length : Int)

def value (f : Figures) : ℚ := if f.negative then -f.magnitude else f.magnitude

theorem decimalRead (f : Figures) :
    Expression.decimal? f.unsigned = some (Numeral.digitsValue (f.whole ++ f.fraction), -(f.fraction.length : Int)) := by
  have whole : ∀ c ∈ f.whole, c.isDigit := fun c mem => f.digits c (mem_append_left _ mem)
  have fraction : ∀ c ∈ f.fraction, c.isDigit := fun c mem => f.digits c (mem_append_right _ mem)
  have started : f.whole.isEmpty = false := isEmpty_eq_false_iff.mpr f.started
  have stops : ∀ c ∈ ([] : List Char).head?, c.isDigit = false := by simp
  by_cases pointless : f.fraction = []
  · have parts := Text.span_append whole stops
    rw [append_nil] at parts
    simp [unsigned,Expression.decimal?,pointless,parts,started,Numeral.exponent?]
  · have point : ∀ c ∈ ('.' :: f.fraction).head?, c.isDigit = false := by simp
    obtain ⟨first,last⟩ := Text.span_append whole point
    have parts := Text.span_append fraction stops
    rw [append_nil] at parts
    simp [unsigned,Expression.decimal?,pointless,first,last,parts,started,Numeral.exponent?]

end Figures

theorem digitsValueChars (cs : List Char) : Numeral.digitsValue cs = Nat.ofDigitChars 10 cs 0 := by
  simp only [Numeral.digitsValue,Nat.ofDigitChars_eq_foldl,Nat.mul_comm]
  rfl

theorem numeralValue (n : Nat) : Numeral.digitsValue (Nat.toDigits 10 n) = n := by
  rw [digitsValueChars,Nat.ofDigitChars_ten_toDigits]

theorem numeralDigit {n : Nat} {c : Char} (mem : c ∈ Nat.toDigits 10 n) : c.isDigit :=
  Nat.isDigit_of_mem_toDigits (by decide) (by decide) mem

namespace Figures

def ofInt (k : Int) : Figures where
  negative := k < 0
  whole := Nat.toDigits 10 k.natAbs
  fraction := []
  started := Nat.toDigits_ne_nil
  digits _ mem := numeralDigit (append_nil _ ▸ mem)

theorem ofIntChars (k : Int) : (ofInt k).chars = (toString k).toList := by
  cases k with
  | ofNat n =>
    have text : toString (Int.ofNat n) = toString n := rfl
    rw [text]
    simp [chars,unsigned,ofInt]
  | negSucc n =>
    have text : toString (Int.negSucc n) = "-" ++ toString (n + 1) := rfl
    rw [text]
    simp [chars,unsigned,ofInt]

theorem ofIntValue (k : Int) : (ofInt k).value = k := by
  have magnitude : (ofInt k).magnitude = |(k : ℚ)| := by
    simp [magnitude,ofInt,numeralValue,Nat.cast_natAbs]
  rw [value,magnitude]
  by_cases negative : k < 0
  · have negative' : (k : ℚ) < 0 := by exact_mod_cast negative
    simp [ofInt,negative,abs_of_neg negative']
  · have positive : 0 ≤ (k : ℚ) := by exact_mod_cast not_lt.mp negative
    simp [ofInt,negative,abs_of_nonneg positive]

def ofShortest (negative : Bool) (s : Shortest) : Figures :=
  if Int.ofNat (Nat.toDigits 10 s.digits).length ≤ s.exponent + 1 then
    { negative
      whole := Nat.toDigits 10 s.digits ++
        List.replicate (s.exponent + 1 - Int.ofNat (Nat.toDigits 10 s.digits).length).toNat '0'
      fraction := []
      started := append_ne_nil_of_left_ne_nil Nat.toDigits_ne_nil _
      digits c mem := by
        rw [append_nil] at mem
        rcases mem_append.mp mem with digit | zero
        · exact numeralDigit digit
        · rw [eq_of_mem_replicate zero]
          rfl }
  else if 0 ≤ s.exponent then
    { negative
      whole := (Nat.toDigits 10 s.digits).take (s.exponent.toNat + 1)
      fraction := (Nat.toDigits 10 s.digits).drop (s.exponent.toNat + 1)
      started := by simp
      digits _ mem := numeralDigit (take_append_drop _ _ ▸ mem) }
  else
    { negative
      whole := ['0']
      fraction := List.replicate (-s.exponent - 1).toNat '0' ++ Nat.toDigits 10 s.digits
      started := cons_ne_nil _ _
      digits c mem := by
        rw [singleton_append,← cons_append,← replicate_succ] at mem
        rcases mem_append.mp mem with zero | digit
        · rw [eq_of_mem_replicate zero]
          rfl
        · exact numeralDigit digit }

variable (negative : Bool)

theorem ofShortestNegative (s : Shortest) : (ofShortest negative s).negative = negative := by
  simp only [ofShortest,apply_ite Figures.negative,ite_self]

theorem ofShortestUnsigned (s : Shortest) :
    (ofShortest negative s).unsigned = (Binary64.positional s "").toList := by
  have digits : (toString s.digits).toList = Nat.toDigits 10 s.digits := by
    rw [Nat.toString_eq_ofList_toDigits,String.toList_ofList]
  have one : Nat.toDigits 10 s.digits ≠ [] := Nat.toDigits_ne_nil
  simp only [ofShortest,Binary64.positional,digits]
  split_ifs with all some
  · simp [unsigned,Binary64.zeros]
  · have rest : (Nat.toDigits 10 s.digits).drop (s.exponent.toNat + 1) ≠ [] := by
      rw [Int.ofNat_eq_natCast] at all
      rw [ne_eq,drop_eq_nil_iff]
      omega
    simp [unsigned,rest]
  · simp [unsigned,Binary64.zeros]

theorem ofShortestMagnitude (s : Shortest) : (ofShortest negative s).magnitude = s.value := by
  have length : (toString s.digits).length = (Nat.toDigits 10 s.digits).length := by
    rw [Nat.toString_eq_ofList_toDigits,String.length_ofList]
  simp only [ofShortest,Shortest.value,length,Int.ofNat_eq_natCast]
  split_ifs with all some
  · obtain ⟨k,fits⟩ : ∃ k : Nat, s.exponent + 1 = (Nat.toDigits 10 s.digits).length + k :=
      ⟨(s.exponent + 1 - (Nat.toDigits 10 s.digits).length).toNat,by omega⟩
    have scale : s.exponent - (Nat.toDigits 10 s.digits).length + 1 = k := by omega
    have zeros : (s.exponent + 1 - (Nat.toDigits 10 s.digits).length).toNat = k := by omega
    have value : Numeral.digitsValue (Nat.toDigits 10 s.digits ++ List.replicate k '0') = s.digits * 10 ^ k := by
      rw [digitsValueChars,Nat.ofDigitChars_append,Nat.ofDigitChars_replicate_zero,Nat.ofDigitChars_ten_toDigits,
        Nat.mul_comm]
    simp only [magnitude,scale,zeros,append_nil,value]
    simp
  · have places : (((Nat.toDigits 10 s.digits).drop (s.exponent.toNat + 1)).length : Int) =
        (Nat.toDigits 10 s.digits).length - (s.exponent + 1) := by
      rw [length_drop]
      omega
    simp only [magnitude,take_append_drop,numeralValue,places]
    congr 2
    omega
  · have value : Numeral.digitsValue ('0' :: List.replicate (-s.exponent - 1).toNat '0' ++ Nat.toDigits 10 s.digits) =
        s.digits := by
      rw [← replicate_succ,digitsValueChars,Nat.ofDigitChars_append,Nat.ofDigitChars_replicate_zero,Nat.mul_zero,
        Nat.ofDigitChars_ten_toDigits]
    have places : ((List.replicate (-s.exponent - 1).toNat '0' ++ Nat.toDigits 10 s.digits).length : Int) =
        (Nat.toDigits 10 s.digits).length - (s.exponent + 1) := by
      rw [length_append,length_replicate]
      omega
    simp only [magnitude,singleton_append,← cons_append,value,places]
    congr 2
    omega

end Figures

namespace Binary64

def exact : Binary64 → ℚ
  | finite negative m q => if negative then -(m * 2 ^ q) else m * 2 ^ q
  | _ => 0

inductive IsDouble : Binary64 → Prop where
  | finite {negative m q} (canonical : Shortest.Canonical m q) : IsDouble (finite negative m q)

instance (x : Binary64) : Decidable x.IsDouble :=
  match x with
  | finite _ _ _ => decidable_of_iff _ ⟨.finite,fun ⟨canonical⟩ => canonical⟩
  | infinity _ => isFalse nofun
  | nan => isFalse nofun

def figures : Binary64 → Figures
  | finite negative m q =>
    match (finite negative m q).whole? with
    | some k => if k.natAbs < tenTo 15 then .ofInt k else .ofShortest negative (.of m q)
    | none => .ofShortest negative (.of m q)
  | _ => .ofInt 0

section
variable {negative : Bool} {m : Nat} {q : Int}

theorem wholeExact {k : Int} (whole : (finite negative m q).whole? = some k) : (finite negative m q).exact = k := by
  obtain ⟨positive,value⟩ := ratioValue m q
  simp only [whole?] at whole
  split at whole
  · next divides =>
    have quotient : (((ratio m q).1 / (ratio m q).2 : Nat) : ℚ) = m * 2 ^ q := by
      rw [Nat.cast_div (Nat.dvd_of_mod_eq_zero divides) (by exact_mod_cast positive.ne'),value]
    rw [← Option.some.inj whole,exact,← quotient]
    split <;> simp only [Int.ofNat_eq_natCast,Int.cast_neg,Int.cast_natCast]
  · contradiction

theorem zeroWhole : (finite negative 0 q).whole? = some 0 := by
  have zero : (ratio 0 q).1 = 0 := by
    rw [ratio]
    split
    · exact Nat.zero_mul _
    · rfl
  simp [whole?,zero]

variable (negative m q) in
theorem boundCases :
    (∃ k, (finite negative m q).whole? = some k ∧ (finite negative m q).boundText = toString k ∧
      (finite negative m q).figures = .ofInt k) ∨
    m ≠ 0 ∧ (finite negative m q).boundText = (finite negative m q).plainText ∧
      (finite negative m q).figures = .ofShortest negative (.of m q) := by
  cases whole : (finite negative m q).whole? with
  | none =>
    refine .inr ⟨?_,by simp only [boundText,whole],by simp only [figures,whole]⟩
    rintro rfl
    rw [zeroWhole] at whole
    contradiction
  | some k =>
    by_cases small : k.natAbs < tenTo 15
    · exact .inl ⟨k,rfl,by simp only [boundText,whole,if_pos small],by simp only [figures,whole,if_pos small]⟩
    · refine .inr ⟨?_,by simp only [boundText,whole,if_neg small],by simp only [figures,whole,if_neg small]⟩
      rintro rfl
      rw [zeroWhole] at whole
      cases Option.some.inj whole
      exact small (by decide)

theorem boundChars : (finite negative m q).boundText.toList = (finite negative m q).figures.chars := by
  rcases boundCases negative m q with ⟨k,_,text,same⟩ | ⟨nonzero,text,same⟩
  · rw [text,same,Figures.ofIntChars]
  · rw [text,same,Figures.chars,Figures.ofShortestNegative,Figures.ofShortestUnsigned,plainText,if_neg nonzero,
      String.toList_append]
    cases negative <;> rfl

structure Shown (m : Nat) (q : Int) (y : ℚ) : Prop where
  zero : m = 0 → y = 0
  rounds : 0 < m → Shortest.Rounds m q y

variable (negative) in
theorem figuresShown (canonical : Shortest.Canonical m q) :
    ∃ y : ℚ, Shown m q y ∧ (finite negative m q).figures.value = if negative then -y else y := by
  rcases boundCases negative m q with ⟨k,whole,_,same⟩ | ⟨nonzero,_,same⟩
  · refine ⟨m * 2 ^ q,⟨?_,Shortest.exactRounds⟩,?_⟩
    · rintro rfl
      rw [Nat.cast_zero,zero_mul]
    · rw [same,Figures.ofIntValue,← wholeExact whole,exact]
  · refine ⟨(Shortest.of m q).value,⟨fun zero => absurd zero nonzero,fun positive => ?_⟩,?_⟩
    · exact Shortest.ofRounds positive canonical
    · rw [same,Figures.value,Figures.ofShortestNegative,Figures.ofShortestMagnitude]

theorem shownNonneg {y : ℚ} (shown : Shown m q y) : 0 ≤ y := by
  rcases Nat.eq_zero_or_pos m with zero | positive
  · exact (shown.zero zero).ge
  · exact (Shortest.roundsPositive positive (shown.rounds positive)).le

theorem shownLt {n : Nat} {r : Int} {x y : ℚ} (first : Shortest.Canonical m q) (second : Shortest.Canonical n r)
    (hx : Shown m q x) (hy : Shown n r y) (less : (m * 2 ^ q : ℚ) < n * 2 ^ r) : x < y := by
  have larger : 0 < n := by
    refine Nat.pos_of_ne_zero fun zero => ?_
    have : (0 : ℚ) ≤ m * 2 ^ q := by positivity
    rw [zero,Nat.cast_zero,zero_mul] at less
    linarith
  rcases Nat.eq_zero_or_pos m with zero | positive
  · rw [hx.zero zero]
    exact Shortest.roundsPositive larger (hy.rounds larger)
  · exact Shortest.roundsLt first second less (hx.rounds positive) (hy.rounds larger)

end

theorem figuresLt {x y : Binary64} (first : x.IsDouble) (second : y.IsDouble) (less : x.exact < y.exact) :
    x.figures.value < y.figures.value := by
  obtain @⟨s,m,q,first⟩ := first
  obtain @⟨t,n,r,second⟩ := second
  obtain ⟨a,ha,writtenFirst⟩ := figuresShown s first
  obtain ⟨b,hb,writtenSecond⟩ := figuresShown t second
  rw [writtenFirst,writtenSecond]
  have sizes : (0 : ℚ) ≤ m * 2 ^ q ∧ (0 : ℚ) ≤ n * 2 ^ r := ⟨by positivity,by positivity⟩
  have signs := And.intro (shownNonneg ha) (shownNonneg hb)
  cases s <;> cases t <;> simp only [exact,Bool.false_eq_true,if_false,if_true] at less ⊢
  · exact shownLt first second ha hb less
  · linarith
  · -- One of the two is not zero.
    rcases Nat.eq_zero_or_pos m with zero | positive
    · have larger : 0 < n := by
        refine Nat.pos_of_ne_zero fun other => ?_
        simp [zero,other] at less
      have := Shortest.roundsPositive larger (hb.rounds larger)
      linarith
    · have := Shortest.roundsPositive positive (ha.rounds positive)
      linarith
  · exact neg_lt_neg (shownLt second first hb ha (by linarith))

end Binary64
end SemanticSql
