import SemanticSql.Proofs.CalendarDays

/-! Periods of the calendar and the ranges of relative dates. -/
namespace SemanticSql

open Date (monthStart reachedIff dateProper inRangeDays monthsOrdered inRange monthsAdded daysAdded reached?)

namespace DateTime

/- Seconds of the calendar, in which a leap second is part of the second before it. -/
def seconds (t : DateTime) : Int :=
  t.date.dayNumber * 86400 + Int.ofNat (t.hour * 3600 + t.minute * 60 + min t.second 59)

def ofSeconds (n : Int) : DateTime :=
  let rest := (n % 86400).toNat
  ⟨Date.ofDayNumber (n / 86400),rest / 3600,rest % 3600 / 60,rest % 60,0⟩

def plusSeconds (t : DateTime) (n : Int) : DateTime := ofSeconds (t.seconds + n)

structure Valid (t : DateTime) : Prop where
  date : Date.of? t.date.year t.date.month t.date.day = some t.date
  hour : t.hour ≤ 23
  minute : t.minute ≤ 59
  second : t.second ≤ 60

end DateTime

def DateRange.Contains (r : DateRange) (t : DateTime) : Prop :=
  r.first.seconds ≤ t.seconds ∧ t.seconds ≤ r.last.seconds

namespace Date

theorem ofExists {d : Date} : of? d.year d.month d.day = some d ↔ d.Proper ∧ inRange d.year := by
  unfold of?
  constructor
  · intro known
    split at known
    · rename_i found
      exact ⟨⟨⟨found.2.1,found.2.2.1⟩,found.2.2.2⟩,found.1⟩
    · cases known
  · rintro ⟨proper,known⟩
    exact if_pos ⟨known,proper.month.1,proper.month.2,proper.day⟩

theorem startSeconds (d : Date) : d.startOfDay.seconds = d.dayNumber * 86400 := by
  simp [startOfDay,DateTime.seconds]

theorem endSeconds (d : Date) : d.endOfDay.seconds = d.dayNumber * 86400 + 86399 := by
  simp only [endOfDay,DateTime.seconds,Nat.min_self]
  rfl

theorem beforeSeconds (d : Date) : d.justBefore.seconds = d.dayNumber * 86400 - 1 := by
  rw [justBefore,endSeconds,(dateProper _).2]
  omega

theorem afterBefore {d : Date} (proper : d.Proper) : d.justBefore.plusSeconds 1 = d.startOfDay := by
  have day : (d.dayNumber * 86400 - 1 + 1) / 86400 = d.dayNumber := by omega
  have rest : ((d.dayNumber * 86400 - 1 + 1) % 86400).toNat = 0 := by omega
  simp only [DateTime.plusSeconds,beforeSeconds,DateTime.ofSeconds,day,rest,dayDate proper]
  rfl

end Date

namespace Clock
variable {c : Clock} {unit : Interval} {k n : Int} {d : Date}

/- The first day of a period; periods of a unit are counted through the calendar. -/
def periodStart (c : Clock) (unit : Interval) (k : Int) : Date :=
  match unit with
  | .week => .ofDayNumber (7 * k + c.weekStart.fromMonday)
  | .month => .monthStart k
  | .quarter => .monthStart (3 * k)
  | .year => .monthStart (12 * k)
  | _ => .ofDayNumber k

def periodOf (c : Clock) (unit : Interval) (d : Date) : Int :=
  match unit with
  | .week => (d.dayNumber - c.weekStart.fromMonday) / 7
  | .month => d.monthNumber
  | .quarter => d.monthNumber / 3
  | .year => d.monthNumber / 12
  | _ => d.dayNumber

def Known (c : Clock) (unit : Interval) (k : Int) : Prop := inRange (c.periodStart unit k).year

theorem periodProper (c : Clock) (unit : Interval) (k : Int) : (c.periodStart unit k).Proper := by
  cases unit with
  | month | quarter | year => exact Date.monthStartProper _
  | _ => exact (dateProper _).1

variable {first second : Int}

theorem periodsOrdered (c : Clock) (unit : Interval) :
    (c.periodStart unit first).dayNumber ≤ (c.periodStart unit second).dayNumber ↔ first ≤ second := by
  cases unit with
  | month => exact monthsOrdered
  | quarter => exact monthsOrdered.trans (show 3 * first ≤ 3 * second ↔ first ≤ second by omega)
  | year => exact monthsOrdered.trans (show 12 * first ≤ 12 * second ↔ first ≤ second by omega)
  | week =>
    simp only [periodStart,(dateProper _).2]
    omega
  | _ => simp only [periodStart,(dateProper _).2]

theorem monthsHold (proper : d.Proper) (starts : first ≤ d.monthNumber) (ends : d.monthNumber + 1 ≤ second) :
    (monthStart first).dayNumber ≤ d.dayNumber ∧ d.dayNumber < (monthStart second).dayNumber := by
  obtain ⟨held,short⟩ := Date.monthHeld proper
  exact ⟨Int.le_trans (monthsOrdered.mpr starts) held,
    Int.lt_of_lt_of_le short (monthsOrdered.mpr ends)⟩

theorem periodHolds (c : Clock) (unit : Interval) (proper : d.Proper) :
    (c.periodStart unit (c.periodOf unit d)).dayNumber ≤ d.dayNumber ∧
      d.dayNumber < (c.periodStart unit (c.periodOf unit d + 1)).dayNumber := by
  cases unit with
  | month => exact Date.monthHeld proper
  | quarter =>
    exact monthsHold proper (show 3 * (d.monthNumber / 3) ≤ _ by omega)
      (show _ ≤ 3 * (d.monthNumber / 3 + 1) by omega)
  | year =>
    exact monthsHold proper (show 12 * (d.monthNumber / 12) ≤ _ by omega)
      (show _ ≤ 12 * (d.monthNumber / 12 + 1) by omega)
  | _ =>
    simp only [periodStart,periodOf,(dateProper _).2]
    omega

theorem monthStartsAdded (k n : Int) : (monthStart k).addMonths? n = (monthStart (k + n)).reached? := by
  obtain ⟨e,proper,number,first,added⟩ := monthsAdded (Date.monthStartProper k) n
  have same : monthStart (k + n) = e := by
    have counted : (monthStart k).monthNumber = k := by
      simp only [Date.monthNumber,monthStart,Int.ofNat_eq_natCast]
      omega
    rw [← counted,← number,Date.monthStartOf proper,← first rfl]
  rw [added,same]

theorem daysShifted (k n : Int) : (Date.ofDayNumber k).addDays? n = (Date.ofDayNumber (k + n)).reached? := by
  rw [daysAdded,(dateProper k).2]

theorem periodShifted (c : Clock) (unit : Interval) (k n : Int) :
    (c.periodStart unit k).shift? unit n = (c.periodStart unit (k + n)).reached? := by
  cases unit with
  | month => exact monthStartsAdded k n
  | quarter =>
    rw [periodStart,periodStart,Int.mul_add]
    exact monthStartsAdded (3 * k) (3 * n)
  | year =>
    rw [periodStart,periodStart,Int.mul_add]
    exact monthStartsAdded (12 * k) (12 * n)
  | week =>
    have start : 7 * k + (c.weekStart.fromMonday : Int) + 7 * n = 7 * (k + n) + c.weekStart.fromMonday := by omega
    rw [periodStart,periodStart,← start]
    exact daysShifted _ (7 * n)
  | _ => exact daysShifted k n

theorem startsPeriod (c : Clock) (unit : Interval) (proper : d.Proper) (known : inRange d.year) :
    c.startOf? d unit = (c.periodStart unit (c.periodOf unit d)).reached? := by
  have month := proper.month
  have fromMonday : c.weekStart.fromMonday ≤ 6 := by cases c.weekStart <;> decide
  cases unit with
  | week =>
    simp only [startOf?,daysAdded,Date.weekday,periodStart,periodOf,Int.ofNat_eq_natCast]
    rw [show d.dayNumber + -(((d.dayNumber % 7).toNat + 7 - c.weekStart.fromMonday) % 7 : Nat) =
      7 * ((d.dayNumber - c.weekStart.fromMonday) / 7) + c.weekStart.fromMonday by omega]
  | month => simp [startOf?,reached?,periodStart,periodOf,Date.monthStartOf proper,known]
  | quarter =>
    have start : monthStart (3 * (d.monthNumber / 3)) = ⟨d.year,(d.month - 1) / 3 * 3 + 1,1⟩ := by
      simp only [monthStart,Date.monthNumber,Int.ofNat_eq_natCast,Date.mk.injEq,and_true]
      omega
    simp [startOf?,reached?,periodStart,periodOf,start,known]
  | year =>
    have start : monthStart (12 * (d.monthNumber / 12)) = ⟨d.year,1,1⟩ := by
      simp only [monthStart,Date.monthNumber,Int.ofNat_eq_natCast,Date.mk.injEq,and_true]
      omega
    simp [startOf?,reached?,periodStart,periodOf,start,known]
  | _ => simp [startOf?,reached?,periodStart,periodOf,Date.dayDate proper,known]

/- A day keeps its place between periods when it is moved by whole units, also where its month is shorter. -/
theorem dateShifted (c : Clock) (unit : Interval) (proper : d.Proper) (n : Int) : ∃ e : Date, e.Proper ∧
    c.periodOf unit e = c.periodOf unit d + n ∧ d.shift? unit n = e.reached? := by
  cases unit with
  | month =>
    obtain ⟨e,proper,number,_,added⟩ := monthsAdded proper n
    exact ⟨e,proper,number,added⟩
  | quarter =>
    obtain ⟨e,proper,number,_,added⟩ := monthsAdded proper (3 * n)
    exact ⟨e,proper,by simp only [periodOf]; omega,added⟩
  | year =>
    obtain ⟨e,proper,number,_,added⟩ := monthsAdded proper (12 * n)
    exact ⟨e,proper,by simp only [periodOf]; omega,added⟩
  | week =>
    obtain ⟨proper,number⟩ := dateProper (d.dayNumber + 7 * n)
    exact ⟨_,proper,by simp only [periodOf]; omega,daysAdded d (7 * n)⟩
  | _ =>
    obtain ⟨proper,number⟩ := dateProper (d.dayNumber + n)
    exact ⟨_,proper,number,daysAdded d n⟩

theorem endFound {t : DateTime} : (c.periodStart unit k).endOfUnits? unit n = some t ↔
    c.Known unit (k + n) ∧ t = (c.periodStart unit (k + n)).justBefore := by
  rw [Date.endOfUnits?,periodShifted,Option.map_eq_some_iff]
  constructor
  · rintro ⟨d,found,rfl⟩
    obtain ⟨known,rfl⟩ := reachedIff.mp found
    exact ⟨known,rfl⟩
  · rintro ⟨known,rfl⟩
    exact ⟨_,reachedIff.mpr ⟨known,rfl⟩,rfl⟩

def span (c : Clock) (unit : Interval) (first next : Int) : DateRange :=
  ⟨(c.periodStart unit first).startOfDay,(c.periodStart unit next).justBefore⟩

theorem spanHolds (c : Clock) (unit : Interval) {d : Date} (proper : d.Proper) {t : DateTime}
    (starts : d.dayNumber * 86400 ≤ t.seconds) (ends : t.seconds < (d.dayNumber + 1) * 86400) :
    (c.span unit (c.periodOf unit d) (c.periodOf unit d + 1)).Contains t := by
  obtain ⟨first,last⟩ := periodHolds c unit proper
  simp only [DateRange.Contains,span,Date.startSeconds,Date.beforeSeconds]
  omega

theorem knownBetween (starts : c.Known unit first) (ends : c.Known unit second) (after : first ≤ k)
    (before : k ≤ second) : c.Known unit k := by
  have above := (periodsOrdered c unit).mpr after
  have below := (periodsOrdered c unit).mpr before
  have least := (inRangeDays (periodProper c unit first)).mp starts
  have greatest := (inRangeDays (periodProper c unit second)).mp ends
  exact (inRangeDays (periodProper c unit k)).mpr
    ⟨Int.le_trans least.1 above,Int.lt_of_le_of_lt below greatest.2⟩

structure Tiled (c : Clock) (unit : Interval) : Prop where
  ordered : ∀ n r, c.range? (.ago n unit) = some r → r.first.seconds ≤ r.last.seconds
  adjoins : ∀ n earlier later, c.range? (.ago (n + 1) unit) = some earlier → c.range? (.ago n unit) = some later →
    earlier.last.plusSeconds 1 = later.first
  current : c.range? (.this unit) = c.range? (.ago 0 unit)
  holdsNow : ∀ r, c.range? (.ago 0 unit) = some r → r.Contains c.now
  last : ∀ n r, 1 ≤ n → c.range? (.ago n unit) = some r → ∃ final, c.range? (.ago 1 unit) = some final ∧
    c.range? (.last n unit) = some ⟨r.first,final.last⟩
  lasting : ∀ n length r, 1 ≤ length → length ≤ n → c.range? (.ago n unit) = some r → ∃ final,
    c.range? (.ago (n - length + 1) unit) = some final ∧
    c.range? (.agoFor n unit length unit) = some ⟨r.first,final.last⟩
  agoToDate : ∀ n r, c.range? (.ago n unit) = some r → ∃ part, c.range? (.agoToDate n unit) = some part ∧
    part.first = r.first ∧ r.Contains part.last
  toDate : ∀ r, c.range? (.ago 0 unit) = some r → c.range? (.toDate unit) = some ⟨r.first,c.today.endOfDay⟩

section
variable (valid : c.now.Valid)
include valid

theorem todayProper : c.today.Proper ∧ inRange c.today.year := Date.ofExists.mp valid.date

theorem currentFound : c.startOf? c.today unit = some d ↔
    c.Known unit (c.periodOf unit c.today) ∧ d = c.periodStart unit (c.periodOf unit c.today) := by
  obtain ⟨proper,known⟩ := todayProper valid
  rw [startsPeriod c unit proper known,reachedIff]
  rfl

variable {n : Nat}

theorem agoStarts : c.startAgo? unit n = some d ↔ c.Known unit (c.periodOf unit c.today) ∧
    c.Known unit (c.periodOf unit c.today - n) ∧ d = c.periodStart unit (c.periodOf unit c.today - n) := by
  simp only [startAgo?,Option.bind_eq_bind,Option.bind_eq_some_iff,currentFound valid]
  constructor
  · rintro ⟨_,⟨current,rfl⟩,shifted⟩
    rw [periodShifted,reachedIff] at shifted
    exact ⟨current,shifted⟩
  · rintro ⟨current,known,rfl⟩
    exact ⟨_,⟨current,rfl⟩,by rw [periodShifted]; exact reachedIff.mpr ⟨known,rfl⟩⟩

theorem agoForFound {n length : Nat} {r : DateRange} : c.range? (.agoFor n unit length unit) = some r ↔
    c.Known unit (c.periodOf unit c.today) ∧ c.Known unit (c.periodOf unit c.today - n) ∧
      c.Known unit (c.periodOf unit c.today - n + length) ∧
      r = c.span unit (c.periodOf unit c.today - n) (c.periodOf unit c.today - n + length) := by
  simp only [range?,Option.bind_eq_bind,Option.bind_eq_some_iff,agoStarts valid,Option.some.injEq]
  constructor
  · rintro ⟨_,⟨current,known,rfl⟩,_,ends,rfl⟩
    obtain ⟨known',rfl⟩ := endFound.mp ends
    exact ⟨current,known,known',rfl⟩
  · rintro ⟨current,known,known',rfl⟩
    exact ⟨_,⟨current,known,rfl⟩,_,endFound.mpr ⟨known',rfl⟩,rfl⟩

theorem agoFound {r : DateRange} : c.range? (.ago n unit) = some r ↔
    c.Known unit (c.periodOf unit c.today) ∧ c.Known unit (c.periodOf unit c.today - n) ∧
      c.Known unit (c.periodOf unit c.today - n + 1) ∧
      r = c.span unit (c.periodOf unit c.today - n) (c.periodOf unit c.today - n + 1) :=
  @agoForFound _ _ valid n 1 r

theorem agoOrdered {r : DateRange} (found : c.range? (.ago n unit) = some r) : r.first.seconds ≤ r.last.seconds := by
  obtain ⟨_,_,_,rfl⟩ := (agoFound valid).mp found
  have short := mt (periodsOrdered c unit).mp (Int.not_le.mpr (Int.lt_succ (c.periodOf unit c.today - n)))
  simp only [span,Date.startSeconds,Date.beforeSeconds]
  omega

theorem agoAdjoins {earlier later : DateRange} (before : c.range? (.ago (n + 1) unit) = some earlier)
    (after : c.range? (.ago n unit) = some later) : earlier.last.plusSeconds 1 = later.first := by
  obtain ⟨_,_,_,rfl⟩ := (agoFound valid).mp before
  obtain ⟨_,_,_,rfl⟩ := (agoFound valid).mp after
  have next : c.periodOf unit c.today - ((n + 1 : Nat) : Int) + 1 = c.periodOf unit c.today - n := by omega
  rw [span,span,next]
  exact Date.afterBefore (periodProper c unit _)

theorem currentNow (unit : Interval) : c.range? (.this unit) = c.range? (.ago 0 unit) := by
  have start : c.startOf? c.today unit = c.startAgo? unit 0 := by
    ext d
    rw [currentFound valid,agoStarts valid,Int.natCast_zero,Int.sub_zero]
    simp
  simp only [range?,start]

theorem nowSeconds : c.today.dayNumber * 86400 ≤ c.now.seconds ∧ c.now.seconds < (c.today.dayNumber + 1) * 86400 := by
  have hour := valid.hour
  have minute := valid.minute
  simp only [DateTime.seconds,today,Int.ofNat_eq_natCast]
  omega

theorem currentHolds {r : DateRange} (found : c.range? (.ago 0 unit) = some r) : r.Contains c.now := by
  obtain ⟨_,_,_,rfl⟩ := (agoFound valid).mp found
  rw [Int.natCast_zero,Int.sub_zero]
  exact spanHolds c unit (todayProper valid).1 (nowSeconds valid).1 (nowSeconds valid).2

theorem lastingFound {n length : Nat} {r : DateRange} (some : 1 ≤ length) (past : length ≤ n)
    (found : c.range? (.ago n unit) = .some r) : ∃ final, c.range? (.ago (n - length + 1) unit) = .some final ∧
      c.range? (.agoFor n unit length unit) = .some ⟨r.first,final.last⟩ := by
  obtain ⟨current,starts,_,rfl⟩ := (agoFound valid).mp found
  have ends : c.periodOf unit c.today - ((n - length + 1 : Nat) : Int) + 1 = c.periodOf unit c.today - n + length := by
    omega
  have known : c.Known unit (c.periodOf unit c.today - n + length) :=
    knownBetween starts current (by omega) (by omega)
  refine ⟨_,(agoFound valid).mpr ⟨current,knownBetween starts current (by omega) (by omega),ends ▸ known,rfl⟩,?_⟩
  rw [ends]
  exact (agoForFound valid).mpr ⟨current,starts,known,rfl⟩

theorem lastFound {r : DateRange} (found : c.range? (.ago n unit) = some r) :
    c.range? (.last n unit) = some ⟨r.first,(c.periodStart unit (c.periodOf unit c.today)).justBefore⟩ := by
  obtain ⟨current,starts,_,rfl⟩ := (agoFound valid).mp found
  simp only [range?,Option.bind_eq_bind,Option.bind_eq_some_iff]
  refine ⟨_,(currentFound valid).mpr ⟨current,rfl⟩,_,?_,rfl⟩
  rw [periodShifted]
  exact reachedIff.mpr ⟨starts,rfl⟩

/- The same day of an earlier period lies in that period, also where its month ends before. -/
theorem agoToDateFound {r : DateRange} (found : c.range? (.ago n unit) = some r) :
    ∃ part, c.range? (.agoToDate n unit) = some part ∧ part.first = r.first ∧ r.Contains part.last := by
  obtain ⟨_,starts,ends,rfl⟩ := (agoFound valid).mp found
  obtain ⟨e,proper,period,shifted⟩ := dateShifted c unit (todayProper valid).1 (-n)
  rw [← Int.sub_eq_add_neg] at period
  rw [← period] at starts ends ⊢
  have held := periodHolds c unit proper
  have least := (inRangeDays (periodProper c unit _)).mp starts
  have greatest := (inRangeDays (periodProper c unit _)).mp ends
  have known : inRange e.year :=
    (inRangeDays proper).mpr ⟨Int.le_trans least.1 held.1,Int.lt_trans held.2 greatest.2⟩
  refine ⟨⟨(c.periodStart unit (c.periodOf unit e)).startOfDay,e.endOfDay⟩,?_,rfl,?_⟩
  · simp only [range?,Option.bind_eq_bind,Option.bind_eq_some_iff]
    refine ⟨e,shifted.trans (reachedIff.mpr ⟨known,rfl⟩),_,?_,rfl⟩
    rw [startsPeriod c unit proper known]
    exact reachedIff.mpr ⟨starts,rfl⟩
  · refine spanHolds c unit proper ?_ ?_
    · rw [Date.endSeconds]
      omega
    · rw [Date.endSeconds]
      omega

theorem toDateFound {r : DateRange} (found : c.range? (.ago 0 unit) = some r) :
    c.range? (.toDate unit) = some ⟨r.first,c.today.endOfDay⟩ := by
  obtain ⟨current,_,_,rfl⟩ := (agoFound valid).mp found
  simp only [range?,Option.bind_eq_bind,Option.bind_eq_some_iff]
  refine ⟨_,(currentFound valid).mpr ⟨current,rfl⟩,?_⟩
  rw [span,Int.natCast_zero,Int.sub_zero]

theorem relativeRangesTile (unit : Interval) : c.Tiled unit where
  ordered _ _ found := agoOrdered valid found
  adjoins _ _ _ before after := agoAdjoins valid before after
  current := currentNow valid unit
  holdsNow _ found := currentHolds valid found
  last n r past found := by
    -- the last units up to now are the units that lead up to the current one
    obtain ⟨final,one,_⟩ := lastingFound valid past (Nat.le_refl n) found
    rw [Nat.sub_self,Nat.zero_add] at one
    refine ⟨final,one,?_⟩
    obtain ⟨_,_,_,rfl⟩ := (agoFound valid).mp one
    rw [lastFound valid found,span,Int.natCast_one,Int.sub_add_cancel]
  lasting _ _ _ some past found := lastingFound valid some past found
  agoToDate _ _ found := agoToDateFound valid found
  toDate _ found := toDateFound valid found

end

def marchClock : Clock where
  now := ⟨⟨2024,3,31⟩,14,30,0,0⟩
  weekStart := .sunday

theorem marchRangesTile : marchClock.now.Valid ∧ marchClock.Tiled .month ∧
    marchClock.range? (.ago 1 .month) = some ⟨⟨⟨2024,2,1⟩,0,0,0,0⟩,⟨⟨2024,2,29⟩,23,59,59,0⟩⟩ ∧
    marchClock.range? (.agoToDate 1 .month) = some ⟨⟨⟨2024,2,1⟩,0,0,0,0⟩,⟨⟨2024,2,29⟩,23,59,59,0⟩⟩ := by
  have valid : marchClock.now.Valid := ⟨by decide,by decide,by decide,by decide⟩
  exact ⟨valid,relativeRangesTile valid .month,by decide,by decide⟩

end Clock
end SemanticSql
