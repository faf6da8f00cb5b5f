import Mathlib.Algebra.Order.Field.Power
import Mathlib.Algebra.Order.Floor.Ring
import Mathlib.Data.Rat.Floor
import Mathlib.Tactic.FieldSimp
import Mathlib.Tactic.Linarith
import Mathlib.Tactic.Positivity
import SemanticSql.Number.Decimal

/-! The decimal digits of a binary number are among the numbers that round to it. -/
namespace SemanticSql

open Binary64

theorem powerFraction {b c : Nat} (positive : 0 < b) {s : Int} {x : Nat × Nat}
    (same : x = if 0 ≤ s then (c * b ^ s.toNat, 1) else (c, b ^ (-s).toNat)) :
    0 < x.2 ∧ (x.1 / x.2 : ℚ) = c * b ^ s := by
  subst same
  split
  · next up =>
    obtain ⟨n,rfl⟩ := Int.eq_ofNat_of_zero_le up
    simp
  · next down =>
    obtain ⟨n,rfl⟩ : ∃ n : Nat, s = -n := ⟨(-s).toNat,by omega⟩
    simp [div_eq_mul_inv,positive]

theorem ratioValue (m : Nat) (q : Int) : 0 < (ratio m q).2 ∧ ((ratio m q).1 / (ratio m q).2 : ℚ) = m * 2 ^ q :=
  powerFraction two_pos rfl

theorem tenToValue (n : Nat) : (tenTo n : ℚ) = 10 ^ n := Nat.cast_pow 10 n

namespace Shortest

variable {n d : Nat}

theorem powerLeIff {k : Int} (positive : 0 < d) : powerLe k n d = true ↔ (10 : ℚ) ^ k ≤ n / d := by
  have positive : (0 : ℚ) < d := by exact_mod_cast positive
  rw [le_div_iff₀ positive,powerLe]
  split
  · next up =>
    obtain ⟨j,rfl⟩ := Int.eq_ofNat_of_zero_le up
    rw [decide_eq_true_eq,zpow_natCast]
    exact_mod_cast Iff.rfl
  · next down =>
    obtain ⟨j,rfl⟩ : ∃ j : Nat, k = -j := ⟨(-k).toNat,by omega⟩
    rw [decide_eq_true_eq,zpow_neg,zpow_natCast,inv_mul_le_iff₀ (by positivity),mul_comm,neg_neg]
    exact_mod_cast Iff.rfl

/- The factor by which the exponent is guessed is close to the logarithm of two to the base ten. -/
theorem logarithmBounds : (2 : ℚ) ^ 100000 ≤ 10 ^ 30103 ∧ (10 : ℚ) ^ 30103 ≤ 2 ^ 100001 := by
  have low : 2 ^ 100000 ≤ 10 ^ 30103 := by decide +kernel
  have high : 10 ^ 30103 ≤ 2 ^ 100001 := by decide +kernel
  exact ⟨by exact_mod_cast low,by exact_mod_cast high⟩

theorem guessLe {l : Int} (small : l ≤ 100000) : (10 : ℚ) ^ (l * 30103 / 100000) ≤ 2 ^ (l + 1) := by
  set g := l * 30103 / 100000 with guess
  have under : g * 100000 ≤ 30103 * l := by omega
  refine (pow_le_pow_iff_left₀ (by positivity) (by positivity) (show 100000 ≠ 0 by decide)).mp ?_
  have scaled : ((10 : ℚ) ^ g) ^ 100000 ≤ (10 ^ 30103) ^ l := by
    rw [← zpow_natCast,← zpow_mul,← zpow_natCast,← zpow_mul]
    exact zpow_le_zpow_right₀ (by norm_num) under
  refine scaled.trans ?_
  rw [← zpow_natCast (2 ^ (l + 1) : ℚ),← zpow_mul]
  by_cases up : 0 ≤ l
  · calc ((10 : ℚ) ^ 30103) ^ l ≤ (2 ^ 100001) ^ l := zpow_le_zpow_left₀ up (by positivity) logarithmBounds.2
      _ = 2 ^ (100001 * l) := by rw [← zpow_natCast,← zpow_mul]; rfl
      _ ≤ 2 ^ ((l + 1) * (100000 : Nat)) := zpow_le_zpow_right₀ (by norm_num) (by push_cast; omega)
  · obtain ⟨n,rfl⟩ : ∃ n : Nat, l = -n := ⟨(-l).toNat,by omega⟩
    calc ((10 : ℚ) ^ 30103) ^ (-n : Int) = ((10 ^ 30103) ^ n)⁻¹ := by rw [zpow_neg,zpow_natCast]
      _ ≤ ((2 ^ 100000) ^ n)⁻¹ := by
          gcongr
          exact logarithmBounds.1
      _ = 2 ^ (-n * (100000 : Nat) : Int) := by
          rw [neg_mul,zpow_neg,mul_comm,zpow_mul,zpow_natCast,zpow_natCast]
      _ ≤ 2 ^ ((-n + 1) * (100000 : Nat) : Int) := zpow_le_zpow_right₀ (by norm_num) (by push_cast; omega)

theorem fractionLogarithm (hn : 0 < n) (hd : 0 < d) : (2 : ℚ) ^ ((n.log2 : Int) - d.log2 - 1) ≤ n / d := by
  have above : (2 : ℚ) ^ n.log2 ≤ n := by exact_mod_cast Nat.log2_self_le hn.ne'
  have below : (d : ℚ) ≤ 2 ^ (d.log2 + 1) := by exact_mod_cast Nat.lt_log2_self.le
  have positive : (0 : ℚ) < d := by exact_mod_cast hd
  calc (2 : ℚ) ^ ((n.log2 : Int) - d.log2 - 1) = 2 ^ n.log2 / 2 ^ (d.log2 + 1) := by
        rw [sub_sub,zpow_sub₀ (by norm_num),zpow_natCast]
        norm_cast
    _ ≤ n / d := by gcongr

theorem magnitudeLe (hn : 0 < n) (hd : 0 < d) (small : n.log2 ≤ 100000) : (10 : ℚ) ^ magnitude n d ≤ n / d := by
  set l : Int := n.log2 - d.log2 with size
  have last : (10 : ℚ) ^ (l * 30103 / 100000 - 2) ≤ n / d := by
    calc (10 : ℚ) ^ (l * 30103 / 100000 - 2) = 10 ^ (l * 30103 / 100000) / 100 := by
          rw [zpow_sub₀ (by norm_num)]
          norm_num
      _ ≤ 2 ^ (l + 1) / 100 := by
          gcongr
          exact guessLe (by omega)
      _ ≤ 2 ^ (l + 1) / 4 := by
          gcongr
          norm_num
      _ = 2 ^ (l - 1) := by
          rw [show l - 1 = l + 1 - 2 by ring,zpow_sub₀ (by norm_num) (l + 1)]
          norm_num
      _ ≤ n / d := fractionLogarithm hn hd
  simp only [magnitude,Int.ofNat_eq_natCast,← size]
  split_ifs with fits fits fits fits
  · exact (powerLeIff hd).mp fits
  · exact (powerLeIff hd).mp fits
  · exact (powerLeIff hd).mp fits
  · exact (powerLeIff hd).mp fits
  · exact last

theorem quotientNear (hd : 0 < d) (tie : Prop) [Decidable tie] :
    |((if 2 * (n % d) < d ∨ (2 * (n % d) = d ∧ tie) then n / d else n / d + 1 : Nat) - n / d : ℚ)| ≤ 1 / 2 := by
  have positive : (0 : ℚ) < d := by exact_mod_cast hd
  have parts : (n : ℚ) / d = (n / d : Nat) + (n % d : Nat) / d := by
    rw [div_eq_iff positive.ne',add_mul,div_mul_cancel₀ _ positive.ne']
    exact_mod_cast (Nat.div_add_mod' n d).symm
  have rest : ((n % d : Nat) : ℚ) / d < 1 := (div_lt_one positive).mpr (by exact_mod_cast Nat.mod_lt n hd)
  have start : 0 ≤ ((n % d : Nat) : ℚ) / d := by positivity
  rw [parts,abs_le]
  split
  · next low =>
    have half : ((n % d : Nat) : ℚ) / d ≤ 1 / 2 := by
      rw [div_le_iff₀ positive]
      have : 2 * (n % d) ≤ d := by omega
      have : (2 * (n % d : Nat) : ℚ) ≤ d := by exact_mod_cast this
      linarith
    constructor <;> linarith
  · next high =>
    have half : 1 / 2 ≤ ((n % d : Nat) : ℚ) / d := by
      rw [le_div_iff₀ positive]
      have : d ≤ 2 * (n % d) := by omega
      have : (d : ℚ) ≤ 2 * (n % d : Nat) := by exact_mod_cast this
      linarith
    push_cast
    constructor <;> linarith

/- The first neighbour on a grid is at most half a step away. -/
theorem neighboursNear (hd : 0 < d) (s : Int) : |((neighbours n d s).1 * 10 ^ s - n / d : ℚ)| ≤ 10 ^ s / 2 := by
  set a : Nat × Nat := if 0 ≤ s then (n, d * tenTo s.toNat) else (n * tenTo (-s).toNat, d) with grid
  have value : 0 < a.2 ∧ (a.1 / a.2 * 10 ^ s : ℚ) = n / d := by
    rw [grid]
    split
    · next up =>
      obtain ⟨j,rfl⟩ := Int.eq_ofNat_of_zero_le up
      refine ⟨Nat.mul_pos hd (Nat.pow_pos (by decide)),?_⟩
      rw [Int.toNat_natCast,zpow_natCast,Nat.cast_mul,tenToValue]
      field_simp
    · next down =>
      obtain ⟨j,rfl⟩ : ∃ j : Nat, s = -j := ⟨(-s).toNat,by omega⟩
      refine ⟨hd,?_⟩
      rw [neg_neg,Int.toNat_natCast,zpow_neg,zpow_natCast,Nat.cast_mul,tenToValue]
      field_simp
  have chosen : (neighbours n d s).1 =
      if 2 * (a.1 % a.2) < a.2 ∨ (2 * (a.1 % a.2) = a.2 ∧ a.1 / a.2 % 2 = 0) then a.1 / a.2 else a.1 / a.2 + 1 := by
    simp only [neighbours,← grid]
    split <;> rfl
  have near := quotientNear (n := a.1) value.1 (a.1 / a.2 % 2 = 0)
  rw [← chosen] at near
  have step : (0 : ℚ) < 10 ^ s := by positivity
  calc |((neighbours n d s).1 * 10 ^ s - n / d : ℚ)| = |((neighbours n d s).1 - a.1 / a.2 : ℚ)| * 10 ^ s := by
        rw [← value.2,← sub_mul,abs_mul,abs_of_pos step]
    _ ≤ 1 / 2 * 10 ^ s := by gcongr
    _ = 10 ^ s / 2 := by ring

/- The numbers that round to `m * 2 ^ q`; an odd one leaves the ends of its range to its neighbours. -/
structure Rounds (m : Nat) (q : Int) (x : ℚ) : Prop where
  low : (interval m q).1 * 2 ^ (q - 2) ≤ x
  high : x ≤ (interval m q).2.1 * 2 ^ (q - 2)
  inner : m % 2 = 1 → (interval m q).1 * 2 ^ (q - 2) < x ∧ x < (interval m q).2.1 * 2 ^ (q - 2)

theorem hitsRounds {m c : Nat} {q s : Int} (hit : hits (interval m q) (ratio 1 (q - 2)) c s = true) :
    Rounds m q (c * 10 ^ s) := by
  obtain ⟨hu,unit⟩ := ratioValue 1 (q - 2)
  set u := ratio 1 (q - 2)
  set x : Nat × Nat := if 0 ≤ s then (c * tenTo s.toNat, 1) else (c, tenTo (-s).toNat) with scaled
  obtain ⟨hx,digits⟩ := powerFraction (c := c) (b := 10) (by decide) scaled
  have hu : (0 : ℚ) < u.2 := by exact_mod_cast hu
  have hx : (0 : ℚ) < x.2 := by exact_mod_cast hx
  have low : ((interval m q).1 * 2 ^ (q - 2) : ℚ) = ((interval m q).1 * u.1 : Nat) / u.2 := by
    rw [Nat.cast_mul,mul_div_assoc,unit,Nat.cast_one,one_mul]
  have high : ((interval m q).2.1 * 2 ^ (q - 2) : ℚ) = ((interval m q).2.1 * u.1 : Nat) / u.2 := by
    rw [Nat.cast_mul,mul_div_assoc,unit,Nat.cast_one,one_mul]
  have digits : (c * 10 ^ s : ℚ) = x.1 / x.2 := digits.symm
  simp only [hits,← scaled] at hit
  rw [digits]
  split at hit
  · next closed =>
    rw [Bool.and_eq_true,decide_eq_true_eq,decide_eq_true_eq] at hit
    refine ⟨?_,?_,fun odd => ?_⟩
    · rw [low,div_le_div_iff₀ hu hx]
      exact_mod_cast hit.1
    · rw [high,div_le_div_iff₀ hx hu]
      exact_mod_cast hit.2
    · simp [interval,odd] at closed
  · rw [Bool.and_eq_true,decide_eq_true_eq,decide_eq_true_eq] at hit
    have above : ((interval m q).1 * 2 ^ (q - 2) : ℚ) < x.1 / x.2 := by
      rw [low,div_lt_div_iff₀ hu hx]
      exact_mod_cast hit.1
    have below : (x.1 / x.2 : ℚ) < (interval m q).2.1 * 2 ^ (q - 2) := by
      rw [high,div_lt_div_iff₀ hx hu]
      exact_mod_cast hit.2
    exact ⟨above.le,below.le,fun _ => ⟨above,below⟩⟩

theorem dropZerosValue (left c : Nat) (s : Int) :
    ((dropZeros left c s).1 * 10 ^ (dropZeros left c s).2 : ℚ) = c * 10 ^ s := by
  induction left generalizing c s with
  | zero => rfl
  | succ left ih =>
    rw [dropZeros]
    split
    · next zero =>
      have tens : (c : ℚ) = (c / 10 : Nat) * 10 := by exact_mod_cast (Nat.div_mul_cancel (Nat.dvd_of_mod_eq_zero zero.2)).symm
      rw [ih,tens,zpow_add_one₀ (by norm_num),mul_assoc,mul_comm (10 ^ s)]
    · rfl

/- The layout of 64 bits: mantissas of 53 bits, of full length unless the exponent is the least one. -/
@[mk_iff]
structure Canonical (m : Nat) (q : Int) : Prop where
  short : m < 2 ^ 53
  full : 2 ^ 52 ≤ m ∨ q = leastExponent
  least : leastExponent ≤ q
  most : q ≤ 971

instance (m : Nat) (q : Int) : Decidable (Canonical m q) := decidable_of_iff _ (canonical_iff m q).symm

section
variable {m : Nat} {q : Int}

theorem quarterUnit (q : Int) : (2 : ℚ) ^ q = 4 * 2 ^ (q - 2) := by
  rw [zpow_sub₀ (by norm_num)]
  norm_num
  ring

/- What is within a quarter of the unit of the mantissa rounds to the number. -/
theorem nearRounds (positive : 0 < m) {x : ℚ} (near : |x - m * 2 ^ q| < 2 ^ (q - 2)) : Rounds m q x := by
  have start : (interval m q).1 + 1 ≤ 4 * m := by
    simp only [interval]
    split <;> omega
  have start : ((interval m q).1 : ℚ) + 1 ≤ 4 * m := by exact_mod_cast start
  have stop : ((interval m q).2.1 : ℚ) = 4 * m + 2 := by simp [interval]
  have unit : (0 : ℚ) < 2 ^ (q - 2) := by positivity
  rw [quarterUnit q,abs_lt] at near
  have above : (interval m q).1 * 2 ^ (q - 2) < x := by nlinarith [near.1]
  have below : x < (interval m q).2.1 * 2 ^ (q - 2) := by
    rw [stop]
    nlinarith [near.2]
  exact ⟨above.le,below.le,fun _ => ⟨above,below⟩⟩

theorem fallbackRounds (positive : 0 < m) (canonical : Canonical m q) {e : Int} (small : (10 : ℚ) ^ e ≤ m * 2 ^ q)
    {v : Nat × Nat} (hv : 0 < v.2) (value : (v.1 / v.2 : ℚ) = m * 2 ^ q) :
    Rounds m q ((neighbours v.1 v.2 (e - 17)).1 * 10 ^ (e - 17)) := by
  refine nearRounds positive ?_
  have near := neighboursNear (n := v.1) hv (e - 17)
  rw [value] at near
  refine near.trans_lt ?_
  have short : (m : ℚ) ≤ 2 ^ 53 := by exact_mod_cast canonical.short.le
  have unit : (0 : ℚ) < 2 ^ q := by positivity
  calc (10 : ℚ) ^ (e - 17) / 2 = 10 ^ e / (10 ^ 17 * 2) := by
        rw [zpow_sub₀ (by norm_num),div_div]
        norm_num
    _ ≤ m * 2 ^ q / (10 ^ 17 * 2) := by gcongr
    _ ≤ 2 ^ 53 * 2 ^ q / (10 ^ 17 * 2) := by gcongr
    _ < 2 ^ q / 4 := by
        rw [div_lt_div_iff₀ (by norm_num) (by norm_num)]
        linarith
    _ = 2 ^ (q - 2) := by
        rw [quarterUnit q]
        ring

theorem searchRounds (positive : 0 < m) (canonical : Canonical m q) {e : Int} (small : (10 : ℚ) ^ e ≤ m * 2 ^ q)
    {left count : Nat} (tries : left + count = 18) :
    let found := search (interval m q) (ratio 1 (q - 2)) (ratio m q) e left count
    Rounds m q (found.1 * 10 ^ found.2) := by
  induction left generalizing count with
  | zero =>
    obtain rfl : count = 18 := by omega
    have scale : e - (18 : Nat) + 1 = e - 17 := by omega
    simp only [search,scale]
    exact fallbackRounds positive canonical small (ratioValue m q).1 (ratioValue m q).2
  | succ left ih =>
    simp only [search]
    split_ifs with first second
    · exact hitsRounds first
    · exact hitsRounds second
    · exact ih (by omega)

def value (s : Shortest) : ℚ := s.digits * 10 ^ (s.exponent - (toString s.digits).length + 1)

theorem ratioLogarithm (canonical : Canonical m q) : (ratio m q).1.log2 ≤ 100000 := by
  obtain ⟨short,_,_,most⟩ := canonical
  have bound : (ratio m q).1 < 2 ^ (53 + q.toNat) := by
    rw [ratio]
    split
    · rw [Nat.pow_add]
      exact Nat.mul_lt_mul_of_pos_right short (Nat.pow_pos (by decide))
    · exact short.trans_le (Nat.pow_le_pow_right (by decide) (by omega))
  by_cases zero : (ratio m q).1 = 0
  · rw [zero]
    decide
  · have logarithm := (Nat.log2_lt zero).mpr bound
    omega

theorem ofRounds (positive : 0 < m) (canonical : Canonical m q) : Rounds m q (Shortest.of m q).value := by
  obtain ⟨hv,value⟩ := ratioValue m q
  have nonzero : 0 < (ratio m q).1 := by
    refine Nat.pos_of_ne_zero fun zero => ?_
    rw [zero,Nat.cast_zero,zero_div] at value
    have : (0 : ℚ) < m * 2 ^ q := by positivity
    linarith
  have small := magnitudeLe nonzero hv (ratioLogarithm canonical)
  rw [value] at small
  have rounds := searchRounds positive canonical small (show 17 + 1 = 18 from rfl)
  have scale (b : Int) (n : Nat) : b + Int.ofNat n - 1 - n + 1 = b := by
    rw [Int.ofNat_eq_natCast]
    omega
  simp only [Shortest.value,Shortest.of,scale,dropZerosValue]
  exact rounds

end

section
variable {m n : Nat} {q r : Int}

theorem exactRounds (positive : 0 < m) : Rounds m q (m * 2 ^ q) :=
  nearRounds positive (by rw [sub_self,abs_zero]; positivity)

variable {x y : ℚ}

theorem roundsPositive (positive : 0 < m) (rounds : Rounds m q x) : 0 < x := by
  have start : 0 < (interval m q).1 := by
    simp only [interval]
    split <;> omega
  have start : (0 : ℚ) < (interval m q).1 * 2 ^ (q - 2) := by positivity
  exact start.trans_le rounds.low

/- A larger number never has the smaller exponent. -/
theorem exponentLe (first : Canonical m q) (second : Canonical n r) (less : (m * 2 ^ q : ℚ) < n * 2 ^ r) : q ≤ r := by
  by_contra larger
  have full : 2 ^ 52 ≤ m := first.full.resolve_right fun least => by have := second.least; omega
  have full : (2 : ℚ) ^ 52 ≤ m := by exact_mod_cast full
  have short : (n : ℚ) ≤ 2 ^ 53 := by exact_mod_cast second.short.le
  have bound : (n * 2 ^ r : ℚ) ≤ m * 2 ^ q := by
    calc (n * 2 ^ r : ℚ) ≤ 2 ^ 53 * 2 ^ r := by gcongr
      _ = 2 ^ 52 * 2 ^ (r + 1) := by
          rw [zpow_add_one₀ (by norm_num)]
          ring
      _ ≤ m * 2 ^ q := by
          gcongr
          · norm_num
          · omega
  linarith

/- Ranges of one exponent meet at most where neighbours do, of which one is odd. -/
theorem sameExponentApart (less : m < n) (first : Rounds m q x) (second : Rounds n q y) : x < y := by
  have unit : (0 : ℚ) < 2 ^ (q - 2) := by positivity
  have stop : (interval m q).2.1 = 4 * m + 2 := rfl
  have start : 4 * n ≤ (interval n q).1 + 2 := by
    simp only [interval]
    split <;> omega
  have ends : ((interval m q).2.1 * 2 ^ (q - 2) : ℚ) ≤ (interval n q).1 * 2 ^ (q - 2) := by
    gcongr
    omega
  by_cases odd : m % 2 = 1
  · exact ((first.inner odd).2.trans_le ends).trans_le second.low
  by_cases odd' : n % 2 = 1
  · exact (first.high.trans ends).trans_lt (second.inner odd').1
  · have apart : ((interval m q).2.1 * 2 ^ (q - 2) : ℚ) < (interval n q).1 * 2 ^ (q - 2) := by
      gcongr
      omega
    exact (first.high.trans_lt apart).trans_le second.low

/- The largest mantissa is odd, so that the range below a power of two leaves its upper end. -/
theorem largerExponentApart (canonical : Canonical m q) (full : 2 ^ 52 ≤ n) (normal : r ≠ leastExponent)
    (larger : q < r) (first : Rounds m q x) (second : Rounds n r y) : x < y := by
  have unit : (0 : ℚ) < 2 ^ (q - 2) := by positivity
  have short := canonical.short
  have stop : (interval m q).2.1 = 4 * m + 2 := rfl
  have start : 2 ^ 54 - 1 ≤ (interval n r).1 := by
    simp only [interval,normal,ne_eq,not_false_eq_true,and_true,twoTo,Nat.pow_eq]
    split <;> omega
  have low : ((2 ^ 55 - 2 : Nat) * 2 ^ (q - 2) : ℚ) ≤ y := by
    calc ((2 ^ 55 - 2 : Nat) * 2 ^ (q - 2) : ℚ) = (2 ^ 54 - 1 : Nat) * 2 ^ (q + 1 - 2) := by
          rw [show q + 1 - 2 = q - 2 + 1 by ring,zpow_add_one₀ (by norm_num)]
          norm_num
          ring
      _ ≤ (interval n r).1 * 2 ^ (r - 2) := by
          gcongr
          · norm_num
          · omega
      _ ≤ y := second.low
  by_cases odd : m % 2 = 1
  · have ends : ((interval m q).2.1 * 2 ^ (q - 2) : ℚ) ≤ (2 ^ 55 - 2 : Nat) * 2 ^ (q - 2) := by
      gcongr
      omega
    exact ((first.inner odd).2.trans_le ends).trans_le low
  · have ends : ((interval m q).2.1 * 2 ^ (q - 2) : ℚ) < (2 ^ 55 - 2 : Nat) * 2 ^ (q - 2) := by
      gcongr
      omega
    exact (first.high.trans_lt ends).trans_le low

theorem roundsLt (first : Canonical m q) (second : Canonical n r) (less : (m * 2 ^ q : ℚ) < n * 2 ^ r)
    (hx : Rounds m q x) (hy : Rounds n r y) : x < y := by
  have exponents := exponentLe first second less
  by_cases same : q = r
  · subst same
    have unit : (0 : ℚ) < 2 ^ q := by positivity
    have mantissas : m < n := by exact_mod_cast lt_of_mul_lt_mul_right less unit.le
    exact sameExponentApart mantissas hx hy
  · have normal : r ≠ leastExponent := fun least => by have := first.least; omega
    exact largerExponentApart first (second.full.resolve_right normal) normal (by omega) hx hy

end

end Shortest
end SemanticSql
