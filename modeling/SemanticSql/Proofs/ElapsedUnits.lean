import SemanticSql.FunnelQuery
import SemanticSql.Proofs.CompileRuns
import SemanticSql.Proofs.DateWords

/-! Whole units of an elapsed time. A database splits the age of a time into days, hours, minutes and seconds, and it
reads arithmetic over these parts with products before sums. -/
namespace SemanticSql

inductive ClockUnit where
  | second | minute | hour | day
  deriving DecidableEq, Repr

namespace ClockUnit

def all : List ClockUnit := [second,minute,hour,day]

def interval : ClockUnit → Interval
  | second => .second
  | minute => .minute
  | hour => .hour
  | day => .day

def keyword (u : ClockUnit) : String := u.interval.keyword

def size : ClockUnit → Nat
  | second => 1
  | minute => 60
  | hour => 3600
  | day => 86400

end ClockUnit

def fourWeeks : Nat := 28 * 86400

structure Age (elapsed : Nat) where
  days : Nat
  hours : Nat
  minutes : Nat
  seconds : Nat
  whole : ((days * 24 + hours) * 60 + minutes) * 60 + seconds = elapsed
  hoursFit : hours < 24
  minutesFit : minutes < 60
  secondsFit : seconds < 60

variable (u : ClockUnit)

namespace Age
variable {elapsed : Nat} (age : Age elapsed)

def part : ClockUnit → Nat
  | .second => age.seconds
  | .minute => age.minutes
  | .hour => age.hours
  | .day => age.days

def named? (name : List Char) : Option Nat := (ClockUnit.all.find? fun u => u.keyword.toList == name).map age.part

theorem namedPart : age.named? u.keyword.toList = some (age.part u) := by
  cases u <;> rfl

end Age

def ageCall (start finish : String) : String := "AGE(" ++ finish ++ ", " ++ start ++ ")"

namespace Arithmetic

inductive Factor where
  | number (n : Nat)
  | part (u : ClockUnit)

def Factor.sql (call : String) : Factor → String
  | number n => toString n
  | part u => "DATE_PART('" ++ u.keyword ++ "', " ++ call ++ ")"

theorem numberSql (call : String) (n : Nat) : (Factor.number n).sql call = toString n := rfl

theorem partSql (call : String) (u : ClockUnit) :
    (Factor.part u).sql call = "DATE_PART('" ++ u.keyword ++ "', " ++ call ++ ")" := rfl

def productSql (call : String) (factors : List Factor) : String := " * ".intercalate (factors.map (Factor.sql call))

def sumSql (call : String) (products : List (List Factor)) : String :=
  " + ".intercalate (products.map (productSql call))

section
variable {elapsed : Nat} (age : Age elapsed)

def Factor.value : Factor → Nat
  | number n => n
  | part u => age.part u

def product : List Factor → Nat
  | [] => 1
  | f :: rest => f.value age * product rest

def sum : List (List Factor) → Nat
  | [] => 0
  | factors :: rest => product age factors + sum rest

variable (call : List Char)

def numeral? (cs : List Char) : Option (Nat × List Char) :=
  if (cs.takeWhile Char.isDigit).isEmpty then none
  else some (Nat.ofDigitChars 10 (cs.takeWhile Char.isDigit) 0, cs.dropWhile Char.isDigit)

def factor? (cs : List Char) : Option (Nat × List Char) :=
  match Text.dropLead? "DATE_PART('".toList cs with
  | none => numeral? cs
  | some rest => do
    let value ← age.named? (rest.takeWhile (· != '\''))
    let rest ← Text.dropLead? ("', ".toList ++ call ++ [')']) (rest.dropWhile (· != '\''))
    some (value, rest)

/- A sum is read from the left: `done` is the sum of the finished products, `running` the product so far. -/
def sumFrom : Nat → Nat → Nat → List Char → Option (Nat × List Char)
  | 0, _, _, _ => none
  | fuel + 1, done, running, cs => do
    let (value, rest) ← factor? age call cs
    (Text.dropLead? " * ".toList rest).elim
      ((Text.dropLead? " + ".toList rest).elim (some (done + running * value, rest))
        (sumFrom fuel (done + running * value) 1))
      (sumFrom fuel done (running * value))

def sum? (cs : List Char) : Option (Nat × List Char) := sumFrom age call cs.length 0 1 cs

end

def whole? : Option (Nat × List Char) → Option Nat
  | some (n, []) => some n
  | _ => none

def value? {elapsed : Nat} (age : Age elapsed) (start finish text : String) : Option Nat :=
  whole? (sum? age (ageCall start finish).toList text.toList)

def integer? (cs : List Char) : Option Int :=
  (Text.dropLead? ['-'] cs).elim ((whole? (numeral? cs)).map fun n => (n : Int)) fun digits =>
    (whole? (numeral? digits)).map fun n => -(n : Int)

def bounded? {elapsed : Nat} (age : Age elapsed) (start finish text : String) : Option Bool := do
  let (n, rest) ← sum? age (ageCall start finish).toList text.toList
  let bound ← integer? (← Text.dropLead? " <= ".toList rest)
  some (decide ((n : Int) ≤ bound))

structure Ends (rest : List Char) : Prop where
  times : Text.dropLead? " * ".toList rest = none
  plus : Text.dropLead? " + ".toList rest = none
  digit : ∀ c ∈ rest.head?, c.isDigit = false

theorem endsNil : Ends [] := ⟨rfl,rfl,by simp⟩

theorem leadTaken (lead rest : List Char) : Text.dropLead? lead (lead ++ rest) = some rest :=
  Text.dropLead?_eq_some.mpr rfl

variable {rest : List Char}

theorem numeralRead (n : Nat) (ends : ∀ c ∈ rest.head?, c.isDigit = false) :
    numeral? ((toString n).toList ++ rest) = some (n, rest) := by
  have digits := RelativeDate.toDigitsDigits n
  have text : (toString n).toList = Nat.toDigits 10 n := by simp [toString]
  obtain ⟨taken,left⟩ := Text.span_append digits.2 ends
  rw [text,numeral?,taken,left]
  simp [digits.1,Nat.ofDigitChars_ten_toDigits]

theorem numeralFirst (n : Nat) : ∃ c rest, (toString n).toList = c :: rest ∧ c.isDigit := by
  have digits := RelativeDate.toDigitsDigits n
  obtain ⟨c,rest,text⟩ := List.exists_cons_of_ne_nil digits.1
  exact ⟨c,rest,by simpa [toString] using text,digits.2 c (by simp [text])⟩

theorem integerRead (n : Int) : integer? (toString n).toList = some n := by
  have read (n : Nat) : numeral? (toString n).toList = some (n, []) := by
    have whole : numeral? ((toString n).toList ++ []) = some (n, []) := numeralRead n (by simp)
    rwa [List.append_nil] at whole
  cases n with
  | ofNat n =>
    have text : toString (Int.ofNat n) = toString n := rfl
    obtain ⟨c,rest,digits,digit⟩ := numeralFirst n
    have unsigned : Text.dropLead? ['-'] (toString n).toList = none := by
      rw [digits]
      refine if_neg ?_
      rintro rfl
      contradiction
    rw [text,integer?,unsigned,read]
    rfl
  | negSucc n =>
    have text : (toString (Int.negSucc n)).toList = ['-'] ++ (toString (n + 1)).toList := String.toList_append
    rw [text,integer?,leadTaken,Option.elim_some,read]
    rfl

section
variable {elapsed : Nat} (age : Age elapsed) (call : String)

theorem factorRead (f : Factor) (ends : ∀ c ∈ rest.head?, c.isDigit = false) :
    factor? age call.toList ((f.sql call).toList ++ rest) = some (f.value age, rest) := by
  cases f with
  | number n =>
    -- No number starts like the call that gives a part.
    obtain ⟨c,more,digits,digit⟩ := numeralFirst n
    have letter : 'D' ≠ c := by
      rintro rfl
      contradiction
    have other : Text.dropLead? "DATE_PART('".toList ((toString n).toList ++ rest) = none := by
      rw [digits]
      exact if_neg letter
    unfold factor?
    simp only [numberSql,other]
    exact numeralRead n ends
  | part u =>
    have text : ((Factor.part u).sql call).toList ++ rest =
        "DATE_PART('".toList ++ (u.keyword.toList ++ ("', ".toList ++ call.toList ++ [')'] ++ rest)) := by
      simp [partSql]
    have unquoted : u.keyword.toList.all (· != '\'') := by cases u <;> decide
    have quote : ∀ c ∈ ("', ".toList ++ call.toList ++ [')'] ++ rest).head?, (c != '\'') = false := by simp
    obtain ⟨name,behind⟩ := Text.span_append (List.all_eq_true.mp unquoted) quote
    unfold factor?
    rw [text,leadTaken]
    simp only [name,behind,Age.namedPart,leadTaken,Option.bind_eq_bind,Option.bind_some,Factor.value]

theorem factorSome (f : Factor) : 0 < (f.sql call).toList.length := by
  cases f with
  | number n =>
    obtain ⟨c,rest,digits,_⟩ := numeralFirst n
    rw [numberSql,digits]
    simp
  | part u =>
    rw [partSql,String.append_assoc,String.append_assoc,String.append_assoc,String.toList_append,List.length_append]
    exact Nat.add_pos_left (by decide) _

/- A product is read up to its last factor; what stands there decides how the sum goes on. -/
theorem productRead (f : Factor) (factors : List Factor)
    (times : Text.dropLead? " * ".toList rest = none) (digit : ∀ c ∈ rest.head?, c.isDigit = false) {fuel : Nat}
    (done running : Nat) (enough : ((productSql call (f :: factors)).toList ++ rest).length ≤ fuel) :
    ∃ left, rest.length ≤ left ∧
      sumFrom age call.toList fuel done running ((productSql call (f :: factors)).toList ++ rest) =
        (Text.dropLead? " + ".toList rest).elim (some (done + running * product age (f :: factors), rest))
          (sumFrom age call.toList left (done + running * product age (f :: factors)) 1) := by
  induction factors generalizing f running fuel with
  | nil =>
    have positive := factorSome call f
    have text : productSql call [f] = f.sql call := by simp [productSql]
    rw [text] at enough ⊢
    rw [List.length_append] at enough
    obtain ⟨left,rfl⟩ : ∃ left, fuel = left + 1 := ⟨fuel - 1,by omega⟩
    refine ⟨left,by omega,?_⟩
    rw [sumFrom,factorRead age call f digit]
    simp only [Option.bind_eq_bind,Option.bind_some,times,Option.elim_none,product,Nat.mul_one]
  | cons g factors ih =>
    have text : (productSql call (f :: g :: factors)).toList ++ rest =
        (f.sql call).toList ++ (" * ".toList ++ ((productSql call (g :: factors)).toList ++ rest)) := by
      simp [productSql,String.intercalate_cons_cons]
    have sign : ∀ c ∈ (" * ".toList ++ ((productSql call (g :: factors)).toList ++ rest)).head?, c.isDigit = false := by
      simp
    rw [text] at enough ⊢
    rw [List.length_append,List.length_append] at enough
    have blanks : " * ".toList.length = 3 := rfl
    obtain ⟨next,rfl⟩ : ∃ next, fuel = next + 1 := ⟨fuel - 1,by omega⟩
    have shorter : ((productSql call (g :: factors)).toList ++ rest).length ≤ next := by omega
    obtain ⟨left,short,read⟩ := ih g (running * f.value age) shorter
    refine ⟨left,short,?_⟩
    rw [sumFrom,factorRead age call f sign]
    simp only [Option.bind_eq_bind,Option.bind_some,leadTaken,Option.elim_some,read,product,Nat.mul_assoc]

theorem sumRead (products : List (List Factor)) (nonempty : products ≠ []) (each : ∀ factors ∈ products, factors ≠ [])
    (ends : Ends rest) {fuel : Nat} (done : Nat) (enough : ((sumSql call products).toList ++ rest).length ≤ fuel) :
    sumFrom age call.toList fuel done 1 ((sumSql call products).toList ++ rest) = some (done + sum age products, rest) := by
  induction products generalizing done fuel with
  | nil => contradiction
  | cons factors products ih =>
    obtain ⟨own,later⟩ := List.forall_mem_cons.mp each
    obtain ⟨f,factors,rfl⟩ := List.exists_cons_of_ne_nil own
    cases products with
    | nil =>
      have text : sumSql call [f :: factors] = productSql call (f :: factors) := by simp [sumSql]
      rw [text] at enough ⊢
      obtain ⟨left,_,read⟩ := productRead age call f factors ends.times ends.digit done 1 enough
      rw [read,ends.plus]
      simp [sum]
    | cons next products =>
      have text : (sumSql call ((f :: factors) :: next :: products)).toList ++ rest =
          (productSql call (f :: factors)).toList ++
            (" + ".toList ++ ((sumSql call (next :: products)).toList ++ rest)) := by
        simp [sumSql,String.intercalate_cons_cons]
      have plus : Text.dropLead? " * ".toList (" + ".toList ++ ((sumSql call (next :: products)).toList ++ rest)) = none :=
        rfl
      rw [text] at enough ⊢
      obtain ⟨left,short,read⟩ := productRead age call f factors plus (by simp) done 1 enough
      rw [List.length_append] at short
      rw [read,leadTaken,Option.elim_some,ih (List.cons_ne_nil _ _) later _ (by omega)]
      simp only [sum,Nat.one_mul,Nat.add_assoc]

variable {products : List (List Factor)} (nonempty : products ≠ []) (each : ∀ factors ∈ products, factors ≠ [])
  (start finish : String)
include nonempty each

theorem sumValue : value? age start finish (sumSql (ageCall start finish) products) = some (sum age products) := by
  have read := sumRead age (ageCall start finish) products nonempty each endsNil 0 (Nat.le_refl _)
  rw [List.append_nil,Nat.zero_add] at read
  rw [value?,sum?,read]
  rfl

theorem sumBounded (bound : Int) :
    bounded? age start finish (sumSql (ageCall start finish) products ++ " <= " ++ toString bound) =
      some (decide ((sum age products : Int) ≤ bound)) := by
  have ends : Ends (" <= ".toList ++ (toString bound).toList) := ⟨rfl,rfl,by simp⟩
  have read := sumRead age (ageCall start finish) products nonempty each ends 0 (Nat.le_refl _)
  rw [Nat.zero_add] at read
  rw [bounded?,sum?,String.toList_append,String.toList_append,List.append_assoc,read]
  simp only [Option.bind_eq_bind,Option.bind_some,leadTaken,integerRead]

end

end Arithmetic

namespace ClockUnit
open Arithmetic Dialect

/- The elapsed time from which on a larger part is carried, so that one part alone is too small. -/
def carry : ClockUnit → Nat
  | second => 60
  | minute => 3600
  | hour => 86400
  | day => fourWeeks

def durationSum : ClockUnit → List (List Factor)
  | second => [[.part .day,.number 24],[.part .hour,.number 60],[.part .minute,.number 60],[.part .second]]
  | minute => [[.part .day,.number 24],[.part .hour,.number 60],[.part .minute]]
  | hour => [[.part .day,.number 24],[.part .hour]]
  | day => [[.part .day]]

/- The elapsed time from which on a duration multiplies too little: a factor is meant for the sum before it. -/
def sumCarry : ClockUnit → Nat
  | second => 3600
  | minute => 86400
  | hour => fourWeeks
  | day => fourWeeks

theorem partText (start finish : String) : (Factor.part u).sql (ageCall start finish) =
    "DATE_PART('" ++ u.keyword ++ "', AGE(" ++ finish ++ ", " ++ start ++ "))" := by
  refine String.toList_injective ?_
  simp [partSql,ageCall]

theorem windowText (start finish : String) :
    postgres.funnelElapsed u.keyword start finish = sumSql (ageCall start finish) [[.part u]] := by
  have upper : Text.upper u.keyword = u.keyword := by cases u <;> decide +kernel
  have text : postgres.funnelElapsed u.keyword start finish =
    "DATE_PART('" ++ Text.upper u.keyword ++ "', AGE(" ++ finish ++ ", " ++ start ++ "))" := rfl
  rw [text,upper,← partText]
  simp [sumSql,productSql]

theorem durationText (start finish : String) :
    postgres.elapsed start finish u.interval = sumSql (ageCall start finish) u.durationSum := by
  have keywords : day.keyword = "DAY" ∧ hour.keyword = "HOUR" ∧ minute.keyword = "MINUTE" ∧ second.keyword = "SECOND" :=
    ⟨rfl,rfl,rfl,rfl⟩
  have numbers : (Factor.number 24).sql (ageCall start finish) = "24" ∧
    (Factor.number 60).sql (ageCall start finish) = "60" := ⟨rfl,rfl⟩
  refine String.toList_injective ?_
  cases u with
  | day =>
    have text : postgres.elapsed start finish day.interval =
      "DATE_PART('DAY', AGE(" ++ finish ++ ", " ++ start ++ "))" := rfl
    simp [text,durationSum,sumSql,productSql,partText,keywords]
  | hour =>
    have text : postgres.elapsed start finish hour.interval =
      "DATE_PART('DAY', AGE(" ++ finish ++ ", " ++ start ++ ")) * 24 + DATE_PART('HOUR', AGE(" ++ finish ++ ", " ++
        start ++ "))" := rfl
    simp [text,durationSum,sumSql,productSql,partText,keywords,numbers]
  | minute =>
    have text : postgres.elapsed start finish minute.interval =
      "DATE_PART('DAY', AGE(" ++ finish ++ ", " ++ start ++ ")) * 24 + DATE_PART('HOUR', AGE(" ++ finish ++ ", " ++
        start ++ "))" ++ (" * 60 + DATE_PART('MINUTE', AGE(" ++ finish ++ ", " ++ start ++ "))") := rfl
    simp [text,durationSum,sumSql,productSql,partText,keywords,numbers]
  | second =>
    have text : postgres.elapsed start finish second.interval =
      "DATE_PART('DAY', AGE(" ++ finish ++ ", " ++ start ++ ")) * 24 + DATE_PART('HOUR', AGE(" ++ finish ++ ", " ++
        start ++ "))" ++ (" * 60 + DATE_PART('MINUTE', AGE(" ++ finish ++ ", " ++ start ++
        ")) * 60 + DATE_PART('SECOND', AGE(" ++ finish ++ ", " ++ start ++ "))") := rfl
    simp [text,durationSum,sumSql,productSql,partText,keywords,numbers]

theorem durationSome : u.durationSum ≠ [] ∧ ∀ factors ∈ u.durationSum, factors ≠ [] := by
  cases u <;> simp [durationSum]

section
variable {elapsed : Nat} (age : Age elapsed) (u : ClockUnit)

theorem windowSum : sum age [[.part u]] = age.part u := by simp [sum,product,Factor.value]

theorem partUnder : age.part u ≤ elapsed / u.size := by
  have whole := age.whole
  cases u <;> simp only [Age.part,size] <;> omega

theorem unitsExact (short : elapsed < fourWeeks) : (age.part u = elapsed / u.size ↔ elapsed < u.carry) ∧
    (sum age u.durationSum = elapsed / u.size ↔ elapsed < u.sumCarry) ∧
    (age.part u = sum age u.durationSum ↔ elapsed < u.carry) := by
  have whole := age.whole
  have hours := age.hoursFit
  have minutes := age.minutesFit
  have seconds := age.secondsFit
  cases u <;> simp only [durationSum,sum,product,Factor.value,Age.part,size,carry,sumCarry,short,iff_true] <;> omega

theorem partBounded (short : elapsed < fourWeeks) (within : Int) :
    (elapsed < u.carry → ((age.part u : Int) ≤ within ↔ (elapsed / u.size : Nat) ≤ within)) ∧
      ((elapsed / u.size : Nat) ≤ within → (age.part u : Int) ≤ within) := by
  refine ⟨fun before => by rw [(unitsExact age u short).1.mpr before],fun kept => ?_⟩
  have under := partUnder age u
  omega

end

end ClockUnit

namespace FunnelPlan
open Arithmetic

def startOf (n : Nat) : String := Funnel.stepTable n ++ "." ++ Funnel.startColumn

theorem stepWindow {f : FunnelPlan} {c : Context} {n : Nat} {filters before select after}
    (ok : (f.step c (n + 2) filters).Returns before select after) :
    ∃ conditions middle, (Filter.sqlOf c (fun u => pure (eventColumn u)) filters).Returns before conditions middle ∧
      select.conditions = conditions ++
        [c.dialect.funnelElapsed f.interval.keyword (startOf (n + 1)) (eventColumn f.date) ++ " <= " ++ toString f.within] := by
  obtain ⟨conditions,middle,filtered,made⟩ := Compile.returnsBind.mp ok
  rw [if_neg (by omega),Compile.returnsPure] at made
  exact ⟨conditions,middle,filtered,by rw [made.1]; rfl⟩

theorem unitsElapsedUntilCarry {elapsed : Nat} (short : elapsed < fourWeeks) (age : Age elapsed) (u : ClockUnit) :
    (age.part u = elapsed / u.size ↔ elapsed < u.carry) ∧
    (∀ start finish, ∃ duration,
      value? age start finish (Dialect.postgres.funnelElapsed u.interval.keyword start finish) = some (age.part u) ∧
      value? age start finish (Dialect.postgres.elapsed start finish u.interval) = some duration ∧
      (duration = elapsed / u.size ↔ elapsed < u.sumCarry) ∧ (age.part u = duration ↔ elapsed < u.carry)) ∧
    ∀ (f : FunnelPlan) (c : Context) (n : Nat) filters before select after, c.dialect = .postgres →
      f.interval = u.interval → (f.step c (n + 2) filters).Returns before select after →
      ∃ conditions window kept, select.conditions = conditions ++ [window] ∧
        (∃ middle, (Filter.sqlOf c (fun u => pure (eventColumn u)) filters).Returns before conditions middle) ∧
        bounded? age (startOf (n + 1)) (eventColumn f.date) window = some kept ∧
        ((elapsed / u.size : Nat) ≤ f.within → kept) ∧
        (elapsed < u.carry → (kept ↔ (elapsed / u.size : Nat) ≤ f.within)) ∧ (kept ↔ age.part u ≤ f.within) := by
  obtain ⟨part,duration,agrees⟩ := u.unitsExact age short
  refine ⟨part,fun start finish => ⟨sum age u.durationSum,?_,?_,?_,?_⟩,?_⟩
  · rw [← ClockUnit.keyword,u.windowText,sumValue age (List.cons_ne_nil _ _) (by simp),u.windowSum]
  · rw [u.durationText]
    exact sumValue age u.durationSome.1 u.durationSome.2 start finish
  · exact duration
  · exact agrees
  · intro f c n filters before select after postgres unit ok
    obtain ⟨conditions,middle,filtered,added⟩ := stepWindow ok
    obtain ⟨exact,passes⟩ := u.partBounded age short f.within
    rw [postgres,unit,← ClockUnit.keyword,u.windowText] at added
    have reads := sumBounded age (List.cons_ne_nil [.part u] []) (by simp) (startOf (n + 1)) (eventColumn f.date) f.within
    rw [u.windowSum] at reads
    refine ⟨conditions,_,_,added,⟨middle,filtered⟩,reads,?_,?_,?_⟩
    · simpa using passes
    · simpa using exact
    · simp

def dayAndHour : Age 90000 where
  days := 1
  hours := 1
  minutes := 0
  seconds := 0
  whole := by decide
  hoursFit := by decide
  minutesFit := by decide
  secondsFit := by decide

def eventTime : Field := .timeGroup "event" "$\x7bTABLE\x7d.event_at" [.raw]

def customer : Field := { name := "customer_id", sql := some "$\x7bTABLE\x7d.customer_id", tags := [Funnel.linkTag] }

def events : View where
  name := "events"
  tableName := some "db.events"
  defaultDate := some "event"
  fields := [eventTime,customer]

def threeHours : FunnelPlan where
  dimensions := []
  metrics := []
  conditions := []
  having := []
  date := ⟨events,eventTime,some (.time .raw)⟩
  link := ⟨events,customer,none⟩
  steps := [[],[]]
  interval := .hour
  within := 3

def postgresContext : Context where
  dialect := .postgres
  now := ⟨⟨2024,1,1⟩,0,0,0,0⟩

theorem threeHoursStep : ∃ select, (threeHours.step postgresContext 2 []).Returns {} select {} := ⟨_,rfl⟩

theorem dayAndHourReadsOne :
    90000 < fourWeeks ∧
    value? dayAndHour "s" "e" (Dialect.postgres.funnelElapsed "HOUR" "s" "e") = some 1 ∧
    value? dayAndHour "s" "e" (Dialect.postgres.elapsed "s" "e" .hour) = some 25 ∧
    ∃ select conditions window, (threeHours.step postgresContext 2 []).Returns {} select {} ∧
      select.conditions = conditions ++ [window] ∧
      bounded? dayAndHour (startOf 1) (eventColumn threeHours.date) window = some true := by
  have short : 90000 < fourWeeks := by decide
  obtain ⟨select,ok⟩ := threeHoursStep
  obtain ⟨_,texts,steps⟩ := unitsElapsedUntilCarry short dayAndHour .hour
  obtain ⟨duration,window,whole,right,_⟩ := texts "s" "e"
  obtain ⟨conditions,bound,kept,added,_,reads,_,_,part⟩ := steps threeHours postgresContext 0 [] {} select {} rfl rfl ok
  have hours : duration = 25 := right.mpr (by decide)
  have passes : kept = true := part.mpr (by decide)
  exact ⟨short,window,hours ▸ whole,select,conditions,bound,ok,added,passes ▸ reads⟩

theorem dayAndHourMisread :
    ¬ ∀ (elapsed : Nat) (age : Age elapsed) (u : ClockUnit) (start finish : String), elapsed < fourWeeks →
      value? age start finish (Dialect.postgres.funnelElapsed u.interval.keyword start finish) =
        value? age start finish (Dialect.postgres.elapsed start finish u.interval) ∧
      value? age start finish (Dialect.postgres.funnelElapsed u.interval.keyword start finish) =
        some (elapsed / u.size) := by
  intro all
  have units := (all 90000 dayAndHour .hour "s" "e" (by decide)).2
  rw [← ClockUnit.keyword,ClockUnit.windowText,sumValue dayAndHour (List.cons_ne_nil _ _) (by simp)] at units
  exact absurd units (by decide)

end FunnelPlan

end SemanticSql
