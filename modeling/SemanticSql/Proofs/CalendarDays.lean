import SemanticSql.RelativeDate
import Mathlib.Order.Monotone.Basic
import Mathlib.Tactic.IntervalCases

/-! The days of the calendar. Every date has a day number and every day number a date, and both count alike; months
follow each other without a gap, also across years. -/
namespace SemanticSql.Date

open List

variable (n : Int)

theorem yearStarts : daysBeforeYear (yearOfDay n) ≤ n ∧ n < daysBeforeYear (yearOfDay n + 1) := by
  simp only [yearOfDay]
  split
  · unfold daysBeforeYear at *
    omega
  · split
    · unfold daysBeforeYear at *
      omega
    · unfold daysBeforeYear at *
      omega

theorem yearsOrdered {first second : Int} (ordered : first ≤ second) : daysBeforeYear first ≤ daysBeforeYear second := by
  unfold daysBeforeYear
  omega

theorem yearUnique {n year : Int} (first : daysBeforeYear year ≤ n) (last : n < daysBeforeYear (year + 1)) :
    yearOfDay n = year := by
  have starts := yearStarts n
  rcases Int.lt_trichotomy (yearOfDay n) year with earlier | same | later
  · have := yearsOrdered (show yearOfDay n + 1 ≤ year by omega)
    omega
  · exact same
  · have := yearsOrdered (show year + 1 ≤ yearOfDay n by omega)
    omega

def yearLength (year : Int) : Nat := (monthLengths year).sum

theorem yearEnds (year : Int) : daysBeforeYear (year + 1) = daysBeforeYear year + yearLength year := by
  have length : yearLength year = if isLeap year then 366 else 365 := by
    cases leap : isLeap year <;> simp [yearLength,monthLengths,leap]
  rw [length]
  unfold daysBeforeYear isLeap
  split <;> rename_i leap <;> simp at leap <;> omega

variable {d : Date} {lengths : List Nat}

theorem monthCounted {first i day : Nat} (inside : day < lengths.getD i 0) :
    monthOfDay first lengths ((lengths.take i).sum + day) = (first + i, day + 1) := by
  induction lengths generalizing first i with
  | nil => simp at inside
  | cons length rest ih =>
    cases i with
    | zero =>
      have here : day < length := by simpa using inside
      simp [monthOfDay,here]
    | succ i =>
      have later : ¬ length + (rest.take i).sum + day < length := by omega
      have left : length + (rest.take i).sum + day - length = (rest.take i).sum + day := by omega
      simp only [take_succ_cons,sum_cons,monthOfDay,if_neg later,left]
      rw [ih inside,Nat.add_assoc,Nat.add_comm 1 i]

theorem monthFound {n : Nat} (inside : n < lengths.sum) :
    ∃ i day, i < lengths.length ∧ day < lengths.getD i 0 ∧ n = (lengths.take i).sum + day := by
  induction lengths generalizing n with
  | nil => simp at inside
  | cons length rest ih =>
    by_cases here : n < length
    · exact ⟨0,n,by simp,by simpa using here,by simp⟩
    · rw [sum_cons] at inside
      obtain ⟨i,day,known,short,same⟩ := ih (n := n - length) (by omega)
      refine ⟨i + 1,day,by simpa using known,by simpa using short,?_⟩
      rw [take_succ_cons,sum_cons]
      omega

structure Proper (d : Date) : Prop where
  month : 1 ≤ d.month ∧ d.month ≤ 12
  day : 1 ≤ d.day ∧ d.day ≤ daysInMonth d.year d.month

theorem dayInYear (proper : d.Proper) :
    d.dayNumber = daysBeforeYear d.year + (((monthLengths d.year).take (d.month - 1)).sum + (d.day - 1) : Nat) := by
  have day := proper.day
  simp only [dayNumber,daysBeforeMonth,← sum_eq_foldl,Int.ofNat_eq_natCast]
  omega

theorem beforeYearEnds {i day : Nat} (inside : day < lengths.getD i 0) : (lengths.take i).sum + day < lengths.sum := by
  induction lengths generalizing i with
  | nil => simp at inside
  | cons length rest ih =>
    cases i with
    | zero =>
      have short : day < length := by simpa using inside
      simp only [take_zero,sum_nil,sum_cons]
      omega
    | succ i =>
      have short := ih (i := i) (by simpa using inside)
      simp only [take_succ_cons,sum_cons]
      omega

theorem dayDate (proper : d.Proper) : ofDayNumber d.dayNumber = d := by
  have month := proper.month
  have day := proper.day
  have inside : d.day - 1 < (monthLengths d.year).getD (d.month - 1) 0 := by
    have := day.2
    unfold daysInMonth at this
    omega
  have number := dayInYear proper
  have short := beforeYearEnds inside
  have ends := yearEnds d.year
  have year : yearOfDay d.dayNumber = d.year := yearUnique (by omega) (by unfold yearLength at ends; omega)
  have rest : (d.dayNumber - daysBeforeYear d.year).toNat =
      ((monthLengths d.year).take (d.month - 1)).sum + (d.day - 1) := by omega
  rw [ofDayNumber,year,rest,monthCounted inside]
  cases d
  simp only at month day ⊢
  congr 1 <;> omega

theorem dateProper : (ofDayNumber n).Proper ∧ (ofDayNumber n).dayNumber = n := by
  have starts := yearStarts n
  have ends := yearEnds (yearOfDay n)
  have inYear : (n - daysBeforeYear (yearOfDay n)).toNat < (monthLengths (yearOfDay n)).sum := by
    unfold yearLength at ends
    omega
  obtain ⟨i,day,known,inside,same⟩ := monthFound inYear
  have twelve : i < 12 := by simpa [monthLengths] using known
  have date : ofDayNumber n = ⟨yearOfDay n,1 + i,day + 1⟩ := by
    rw [ofDayNumber,same,monthCounted inside]
  have proper : (ofDayNumber n).Proper := by
    rw [date]
    refine ⟨by simp only; omega,by simp,?_⟩
    simpa [daysInMonth,Nat.succ_le_iff] using inside
  refine ⟨proper,?_⟩
  rw [dayInYear proper,date]
  simp only [Nat.add_sub_cancel_left,Nat.add_sub_cancel]
  omega

theorem inRangeDays (proper : d.Proper) : inRange d.year ↔
    daysBeforeYear leastYear ≤ d.dayNumber ∧ d.dayNumber < daysBeforeYear (greatestYear + 1) := by
  have starts := yearStarts d.dayNumber
  have year : yearOfDay d.dayNumber = d.year := congrArg Date.year (dayDate proper)
  rw [year] at starts
  simp only [inRange,decide_eq_true_eq]
  constructor
  · rintro ⟨least,greatest⟩
    have first := yearsOrdered least
    have last := yearsOrdered (show d.year + 1 ≤ greatestYear + 1 by omega)
    omega
  · rintro ⟨first,last⟩
    constructor
    · by_contra below
      have := yearsOrdered (show d.year + 1 ≤ leastYear by omega)
      omega
    · by_contra above
      have := yearsOrdered (show greatestYear + 1 ≤ d.year by omega)
      omega

def reached? (d : Date) : Option Date := if inRange d.year then some d else none

theorem reachedIff {e : Date} : d.reached? = some e ↔ inRange d.year ∧ e = d := by
  unfold reached?
  split
  · rename_i known
    simp [known,eq_comm]
  · rename_i unknown
    simp [unknown]

theorem daysAdded (d : Date) (n : Int) : d.addDays? n = (ofDayNumber (d.dayNumber + n)).reached? := by
  obtain ⟨proper,number⟩ := dateProper (d.dayNumber + n)
  simp only [addDays?,reached?,inRangeDays proper,number]

theorem monthLong (year : Int) {month : Nat} (known : 1 ≤ month ∧ month ≤ 12) : 28 ≤ daysInMonth year month := by
  obtain ⟨least,greatest⟩ := known
  cases leap : isLeap year <;> interval_cases month <;> simp [daysInMonth,monthLengths,leap]

def monthNumber (d : Date) : Int := d.year * 12 + Int.ofNat (d.month - 1)

def monthStart (n : Int) : Date := ⟨n / 12,(n % 12).toNat + 1,1⟩

theorem monthKnown : 1 ≤ (n % 12).toNat + 1 ∧ (n % 12).toNat + 1 ≤ 12 := by omega

theorem monthStartProper : (monthStart n).Proper where
  month := monthKnown n
  day := ⟨Nat.le_refl 1,Nat.le_trans (show 1 ≤ 28 by decide) (monthLong _ (monthKnown n))⟩

theorem monthStartOf (proper : d.Proper) : monthStart d.monthNumber = { d with day := 1 } := by
  have month := proper.month
  simp only [monthStart,monthNumber,Int.ofNat_eq_natCast,mk.injEq,and_true]
  omega

theorem takenNext (lengths : List Nat) (i : Nat) :
    (lengths.take (i + 1)).sum = (lengths.take i).sum + lengths.getD i 0 := by
  rw [take_add_one,sum_append_nat,getD_eq_getElem?_getD]
  cases lengths[i]? <;> simp

theorem monthsFollow : (monthStart (n + 1)).dayNumber =
    (monthStart n).dayNumber + daysInMonth (monthStart n).year (monthStart n).month := by
  have next := takenNext (monthLengths (n / 12)) (n % 12).toNat
  rw [dayInYear (monthStartProper n),dayInYear (monthStartProper (n + 1))]
  simp only [monthStart,Nat.add_sub_cancel,daysInMonth,Nat.sub_self,Nat.add_zero]
  by_cases december : n % 12 = 11
  · have year : (n + 1) / 12 = n / 12 + 1 := by omega
    have month : ((n + 1) % 12).toNat = 0 := by omega
    have ends := yearEnds (n / 12)
    have whole : yearLength (n / 12) = ((monthLengths (n / 12)).take (11 + 1)).sum := rfl
    have last : (n % 12).toNat = 11 := by omega
    rw [last] at next ⊢
    rw [year,month,ends,whole,next]
    simp only [take_zero,sum_nil]
    omega
  · have year : (n + 1) / 12 = n / 12 := by omega
    have month : ((n + 1) % 12).toNat = (n % 12).toNat + 1 := by omega
    rw [year,month,next]
    omega

theorem monthHolds (proper : d.Proper) : d.dayNumber = (monthStart d.monthNumber).dayNumber + (d.day - 1 : Nat) := by
  have day := proper.day
  rw [monthStartOf proper]
  simp only [dayNumber,Int.ofNat_eq_natCast]
  omega

theorem monthHeld (proper : d.Proper) : (monthStart d.monthNumber).dayNumber ≤ d.dayNumber ∧
    d.dayNumber < (monthStart (d.monthNumber + 1)).dayNumber := by
  have day := proper.day
  rw [monthsFollow,monthHolds proper,monthStartOf proper]
  constructor
  · omega
  · show _ < _ + (daysInMonth d.year d.month : Int)
    omega

theorem monthsOrdered {first second : Int} :
    (monthStart first).dayNumber ≤ (monthStart second).dayNumber ↔ first ≤ second := by
  have rises : StrictMono fun n => (monthStart n).dayNumber := strictMono_int_of_lt_succ fun n => by
    have long := monthLong (monthStart n).year (monthStartProper n).month
    show (monthStart n).dayNumber < (monthStart (n + 1)).dayNumber
    rw [monthsFollow]
    omega
  exact rises.le_iff_le

theorem monthsAdded (proper : d.Proper) (n : Int) : ∃ e : Date, e.Proper ∧
    e.monthNumber = d.monthNumber + n ∧ (d.day = 1 → e.day = 1) ∧ d.addMonths? n = e.reached? := by
  let year := (d.monthNumber + n) / 12
  let month := ((d.monthNumber + n) % 12).toNat + 1
  have long : 28 ≤ daysInMonth year month := monthLong year (monthKnown (d.monthNumber + n))
  have day := proper.day
  refine ⟨⟨year,month,min d.day (daysInMonth year month)⟩,⟨monthKnown _,?_⟩,?_,?_,rfl⟩
  · exact ⟨Nat.le_min.mpr ⟨day.1,by omega⟩,Nat.min_le_right _ _⟩
  · simp only [monthNumber,Int.ofNat_eq_natCast,year,month]
    omega
  · intro first
    show min d.day _ = 1
    omega

end SemanticSql.Date
