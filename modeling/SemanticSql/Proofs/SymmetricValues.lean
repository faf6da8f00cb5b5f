import Mathlib.Algebra.BigOperators.Group.Finset.Basic
import SemanticSql.Proofs.SqlExpressions
import SemanticSql.Sql.Symmetric

/-! What symmetric aggregates compute. -/
namespace SemanticSql

open List BinaryOp Expression

namespace DistinctOp

theorem nullsLeftOut (op : DistinctOp) (data : List Datum) : op.apply data = op.apply (data.filter (· ≠ .null)) := by
  simp only [apply,filter_filter,Bool.and_self]

theorem numbersRead {data : List Datum} {qs : List ℚ} (numbers : data = qs.map .number) :
    data.mapM Datum.number? = some qs := by
  subst numbers
  induction qs with
  | nil => rfl
  | cons q rest ih => simp [mapM_cons,Datum.number?,ih]

theorem countKnown {data : List Datum} (known : .null ∉ data) : count.apply data = some (.number data.toFinset.card) := by
  have kept : data.filter (· ≠ .null) = data := by
    refine filter_eq_self.mpr fun x mem => decide_eq_true ?_
    rintro rfl
    exact known mem
  simp only [apply,kept,card_toFinset]

theorem sumKnown {α : Type} [DecidableEq α] {keys : List α} {f : α → ℚ} (apart : Set.InjOn f {p | p ∈ keys}) :
    sum.apply (keys.map fun p => .number (f p)) =
      some (if keys = [] then .null else .number (∑ p ∈ keys.toFinset, f p)) := by
  have kept : (keys.map fun p => Datum.number (f p)).filter (· ≠ .null) = keys.map fun p => .number (f p) := by
    refine filter_eq_self.mpr fun x mem => ?_
    obtain ⟨p,_,rfl⟩ := mem_map.mp mem
    rfl
  have once : (keys.map fun p => Datum.number (f p)).dedup = (keys.map f).dedup.map .number := by
    rw [← dedup_map_of_injective fun p q same => Datum.number.inj same,map_map]
    rfl
  have total : (keys.map f).dedup.sum = ∑ p ∈ keys.toFinset, f p := by
    have image : (keys.map f).dedup.toFinset = keys.toFinset.image f := by
      ext q
      simp
    calc (keys.map f).dedup.sum = ∑ q ∈ (keys.map f).dedup.toFinset, q := by
          rw [sum_toFinset _ (nodup_dedup _),map_id']
      _ = ∑ p ∈ keys.toFinset, f p := by
          rw [image,Finset.sum_image]
          exact fun p mem q other => apart (mem_toFinset.mp mem) (mem_toFinset.mp other)
  simp only [apply,kept,once,numbersRead rfl,Option.map_some,total]
  cases keys with
  | nil => rfl
  | cons p rest => simp [dedup_eq_nil]

end DistinctOp

structure KeyedRow where
  key : Datum
  value : Option ℚ

namespace KeyedRow

def cells (r : KeyedRow) : Cell → Datum
  | .value => match r.value with
    | some q => .number q
    | none => .null
  | .key => r.key

def Agree (rows : List KeyedRow) : Prop :=
  ∀ r ∈ rows, ∀ s ∈ rows, r.key = s.key → r.key ≠ .null → r.value = s.value

def keys (rows : List KeyedRow) : Finset Datum := ((rows.map key).filter (· ≠ .null)).toFinset

def valueAt (rows : List KeyedRow) (p : Datum) : Option ℚ := (rows.find? (·.key = p)).bind value

def unitsAt (rows : List KeyedRow) (p : Datum) : ℚ := ⌊1000000 * (valueAt rows p).getD 0⌋

def valuedKeys (rows : List KeyedRow) : Finset Datum := (keys rows).filter fun p => (valueAt rows p).isSome

section
variable {rows : List KeyedRow}

theorem valueAtKey (agree : Agree rows) {r : KeyedRow} (mem : r ∈ rows) (keyed : r.key ≠ .null) :
    valueAt rows r.key = r.value := by
  have occurs : (rows.find? (·.key = r.key)).isSome := find?_isSome.mpr ⟨r,mem,decide_eq_true rfl⟩
  obtain ⟨first,found⟩ := Option.isSome_iff_exists.mp occurs
  have same : first.key = r.key := by simpa using find?_some found
  rw [valueAt,found]
  exact agree first (mem_of_find?_eq_some found) r mem same (same ▸ keyed)

variable {g : KeyedRow → Datum}

theorem knownOfKeys {f : Datum → ℚ} (each : ∀ r ∈ rows, g r = if r.key = .null then .null else .number (f r.key)) :
    (rows.map g).filter (· ≠ .null) = ((rows.map key).filter (· ≠ .null)).map fun p => .number (f p) := by
  induction rows with
  | nil => rfl
  | cons r rest ih =>
    have others := ih fun s mem => each s (mem_cons_of_mem _ mem)
    have first := each r mem_cons_self
    by_cases keyed : r.key = .null
    · rw [if_pos keyed] at first
      simpa [first,keyed] using others
    · rw [if_neg keyed] at first
      simpa [first,keyed] using others

theorem sumOfKeys {f : Datum → ℚ}
    (each : ∀ r ∈ rows, g r = if r.key = .null then .null else .number (f r.key)) (apart : Set.InjOn f (keys rows)) :
    DistinctOp.sum.apply (rows.map g) = some (if keys rows = ∅ then .null else .number (∑ p ∈ keys rows, f p)) := by
  have apart : Set.InjOn f {p | p ∈ (rows.map key).filter (· ≠ .null)} :=
    apart.mono fun p mem => mem_toFinset.mpr mem
  rw [DistinctOp.nullsLeftOut,knownOfKeys each,DistinctOp.sumKnown apart]
  simp only [keys,toFinset_eq_empty_iff]

theorem countOfKeys (agree : Agree rows) (each : ∀ r ∈ rows, g r = if r.value.isSome then r.key else .null) :
    DistinctOp.count.apply (rows.map g) = some (.number (valuedKeys rows).card) := by
  have same : ((rows.map g).filter (· ≠ .null)).toFinset = valuedKeys rows := by
    ext p
    simp only [valuedKeys,keys,mem_toFinset,mem_filter,mem_map,Finset.mem_filter,decide_eq_true_eq]
    constructor
    · rintro ⟨⟨r,mem,rfl⟩,known⟩
      rw [each r mem] at known ⊢
      split_ifs at known ⊢ with valued
      · exact ⟨⟨⟨r,mem,rfl⟩,known⟩,(valueAtKey agree mem known).symm ▸ valued⟩
      · exact absurd rfl known
    · rintro ⟨⟨⟨r,mem,rfl⟩,known⟩,valued⟩
      rw [valueAtKey agree mem known] at valued
      exact ⟨⟨r,mem,by rw [each r mem,if_pos valued]⟩,known⟩
  rw [DistinctOp.nullsLeftOut,DistinctOp.countKnown (by simp),same]

end

end KeyedRow

namespace Functions

def hash (db : Functions) : Dialect → Datum → ℚ
  | .bigQuery, key => db.fingerprint (db.string key)
  | _, key => round (remainder (db.toNumber (db.md5 key) "XXXXXXXXXXXXXXXXXXXXXXXXXXXXXXXX") (10 ^ 27))

end Functions

namespace Symmetric
open KeyedRow (Agree cells keys unitsAt valuedKeys)

def scaleFactor : Expression := .binary .times (.number 1000000 0) (.number 10 (-1))

def scaledIn (storage : Storage) : Expression :=
  .cast (.unary .floor (.binary .times (.binary .coalesce (.cell .value) (.number 0 0)) scaleFactor)) storage

def md5Hash : Expression :=
  .cast (.binary .modulo (.binary .toNumber (.unary .md5 (.cell .key)) (.text "XXXXXXXXXXXXXXXXXXXXXXXXXXXXXXXX"))
    (.number 10 26)) .whole

def fingerprintHash : Expression := .cast (.unary .fingerprint (.cast (.cell .key) .string)) .real

def sumOf (scaled hash : Expression) : Expression :=
  .binary .coalesce
    (.binary .over
      (.cast (.binary .minus (.distinct .sum (.binary .plus scaled hash)) (.distinct .sum hash)) .real)
      (.cast scaleFactor .real))
    (.number 0 0)

def countOf : Expression :=
  .binary .nullIf (.distinct .count (.cases (.when (.unary .isKnown (.cell .value)) (.cell .key) .null))) (.number 0 0)

def averageOf (scaled hash : Expression) : Expression := .binary .over (sumOf scaled hash) countOf

def scaledFor : Dialect → Expression
  | .bigQuery => scaledIn .real
  | _ => scaledIn .whole

def hashFor : Dialect → Expression
  | .bigQuery => fingerprintHash
  | _ => md5Hash

section
variable (db : Functions) (d : Dialect) (r : KeyedRow)

theorem modulusValue : (10 * 10 ^ (26 : Int) : ℚ) = 10 ^ 27 := by norm_num

theorem factorValue {cell : Cell → Option Datum} {aggregate : DistinctOp → Expression → Option Datum} :
    scaleFactor.eval db cell aggregate = some (.number 1000000) := by
  have product : (1000000 * 10 ^ (0 : Int) * (10 * 10 ^ (-1 : Int)) : ℚ) = 1000000 := by norm_num
  rw [← product]
  rfl

theorem knownValue : (binary .coalesce (.cell .value) (.number 0 0)).rowValue db r.cells =
    some (.number (r.value.getD 0)) := by
  cases value : r.value <;> simp [rowValue,eval,apply,cells,value]

theorem scaledInValue {storage : Storage} (numeric : ∀ n : Int, storage.apply db (.number n) = some (.number n)) :
    (scaledIn storage).rowValue db r.cells = some (.number ⌊1000000 * r.value.getD 0⌋) := by
  calc (scaledIn storage).rowValue db r.cells
      = (do
          let product ← times.apply db (← (binary .coalesce (.cell .value) (.number 0 0)).rowValue db r.cells)
            (← scaleFactor.rowValue db r.cells)
          storage.apply db (← UnaryOp.floor.apply db product)) := by
        simp only [scaledIn,rowValue,eval,bind_assoc]
    _ = storage.apply db (.number ⌊r.value.getD 0 * 1000000⌋) := by
        rw [knownValue,rowValue,factorValue]
        rfl
    _ = some (.number ⌊1000000 * r.value.getD 0⌋) := by rw [numeric,mul_comm]

theorem scaledValue : (scaledFor d).rowValue db r.cells = some (.number ⌊1000000 * r.value.getD 0⌋) := by
  cases d with
  | bigQuery => exact scaledInValue db r fun n => rfl
  | _ => exact scaledInValue db r fun n => by simp [Storage.apply]

theorem md5Value : md5Hash.rowValue db r.cells =
    some (if r.key = .null then .null else .number (db.hash .snowflake r.key)) := by
  cases key : r.key <;>
    simp [md5Hash,rowValue,eval,cells,key,UnaryOp.apply,apply,Storage.apply,Functions.hash,
      ← modulusValue]

theorem hashValue : (hashFor d).rowValue db r.cells =
    some (if r.key = .null then .null else .number (db.hash d r.key)) := by
  cases d with
  | bigQuery =>
    cases key : r.key <;>
      simp [hashFor,fingerprintHash,rowValue,eval,cells,key,UnaryOp.apply,Storage.apply,Functions.hash]
  | _ => exact md5Value db r

theorem keyedValue : (cases (.when (.unary .isKnown (.cell .value)) (.cell .key) .null)).rowValue db r.cells =
    some (if r.value.isSome then r.key else .null) := by
  cases value : r.value <;> simp [rowValue,eval,UnaryOp.apply,cells,value]

theorem shiftedValue : (binary .plus (scaledFor d) (hashFor d)).rowValue db r.cells =
    some (if r.key = .null then .null else .number (⌊1000000 * r.value.getD 0⌋ + db.hash d r.key)) := by
  calc (binary .plus (scaledFor d) (hashFor d)).rowValue db r.cells
      = (do plus.apply db (← (scaledFor d).rowValue db r.cells) (← (hashFor d).rowValue db r.cells)) := rfl
    _ = plus.apply db (.number ⌊1000000 * r.value.getD 0⌋)
          (if r.key = .null then .null else .number (db.hash d r.key)) := by rw [scaledValue,hashValue]; rfl
    _ = _ := by split <;> rfl

end

section
variable {db : Functions} {rows : List KeyedRow}

theorem aggregateValue {a : Expression} {g : KeyedRow → Datum} (op : DistinctOp)
    (each : ∀ r, a.rowValue db r.cells = some (g r)) :
    (distinct op a).groupValue db (rows.map cells) = op.apply (rows.map g) := by
  have read : (rows.map cells).mapM (fun row => a.rowValue db row) = some (rows.map g) := by
    induction rows with
    | nil => rfl
    | cons r rest ih => simp [mapM_cons,each,ih]
  simp only [groupValue,eval,read,Option.bind_some]

variable {d : Dialect}

theorem shiftedSum (agree : Agree rows)
    (apart : Set.InjOn (fun p => unitsAt rows p + db.hash d p) (keys rows)) :
    (distinct .sum (.binary .plus (scaledFor d) (hashFor d))).groupValue db (rows.map cells) =
      some (if keys rows = ∅ then .null
        else .number (∑ p ∈ keys rows, (unitsAt rows p + db.hash d p))) := by
  rw [aggregateValue .sum (shiftedValue db d)]
  refine KeyedRow.sumOfKeys (fun r mem => ?_) apart
  split
  · rfl
  · next keyed => rw [unitsAt,KeyedRow.valueAtKey agree mem keyed]

theorem hashSum (apart : Set.InjOn (db.hash d) (keys rows)) :
    (distinct .sum (hashFor d)).groupValue db (rows.map cells) =
      some (if keys rows = ∅ then .null else .number (∑ p ∈ keys rows, db.hash d p)) := by
  rw [aggregateValue .sum (hashValue db d)]
  exact KeyedRow.sumOfKeys (fun r _ => rfl) apart

theorem sumValue (agree : Agree rows) (hashes : Set.InjOn (db.hash d) (keys rows))
    (shifted : Set.InjOn (fun p => unitsAt rows p + db.hash d p) (keys rows)) :
    (sumOf (scaledFor d) (hashFor d)).groupValue db (rows.map cells) =
      some (.number ((∑ p ∈ keys rows, unitsAt rows p) / 1000000)) := by
  have steps : (sumOf (scaledFor d) (hashFor d)).groupValue db (rows.map cells) = (do
      let difference ← minus.apply db
        (← (distinct .sum (.binary .plus (scaledFor d) (hashFor d))).groupValue db (rows.map cells))
        (← (distinct .sum (hashFor d)).groupValue db (rows.map cells))
      let quotient ← over.apply db (← Storage.real.apply db difference)
        (← Storage.real.apply db (← scaleFactor.groupValue db (rows.map cells)))
      coalesce.apply db quotient (.number ((0 : Nat) * 10 ^ (0 : Int)))) := by
    simp only [sumOf,groupValue,eval,Option.bind_eq_bind,Option.bind_assoc,Option.bind_some]
  rw [steps,shiftedSum agree shifted,hashSum hashes,groupValue,factorValue]
  -- Without keys both sums are null, and so is all that is computed from them.
  by_cases none : keys rows = ∅
  · simp [none,apply,Storage.apply]
  · simp [none,apply,Storage.apply,Finset.sum_add_distrib]

variable (db) in
theorem countValue (agree : Agree rows) :
    countOf.groupValue db (rows.map cells) =
      some (if (valuedKeys rows).card = 0 then .null else .number (valuedKeys rows).card) := by
  have steps : countOf.groupValue db (rows.map cells) = (do
      nullIf.apply db
        (← (distinct .count (.cases (.when (.unary .isKnown (.cell .value)) (.cell .key) .null))).groupValue db
          (rows.map cells)) (.number ((0 : Nat) * 10 ^ (0 : Int)))) := rfl
  rw [steps,aggregateValue .count (keyedValue db),KeyedRow.countOfKeys agree fun r _ => rfl]
  simp [apply]

theorem averageValue {scaled hash : Expression} {total : ℚ} {count : Nat}
    (sums : (sumOf scaled hash).groupValue db (rows.map cells) = some (.number total))
    (counts : countOf.groupValue db (rows.map cells) = some (if count = 0 then .null else .number count)) :
    (averageOf scaled hash).groupValue db (rows.map cells) =
      some (if count = 0 then .null else .number (total / count)) := by
  have steps : (averageOf scaled hash).groupValue db (rows.map cells) = (do
      over.apply db (← (sumOf scaled hash).groupValue db (rows.map cells))
        (← countOf.groupValue db (rows.map cells))) := rfl
  rw [steps,sums,counts]
  by_cases none : count = 0
  · simp [none,apply]
  · simp [none,apply]

end
def expression? (d : Dialect) (t : GroupTerm) : Option Expression :=
  match render d t Cell.value.text Cell.key.text with
  | .ok s => read? s
  | .error _ => none

section
variable (a : Arithmetic) (value key : String)

theorem factorText : toString factor = "1000000" := by decide +kernel

theorem scaledText : RowTerm.scaledValue.sql a value key =
    "(CAST(FLOOR(COALESCE(" ++ value ++ ", 0) * (" ++ "1000000" ++ " * 1.0)) AS " ++ a.whole ++ "))" :=
  factorText ▸ rfl

theorem unscaledText (t : GroupTerm) : (GroupTerm.unscaled t).sql a value key =
    "COALESCE(CAST(" ++ t.sql a value key ++ " AS " ++ a.real ++ ") / CAST((" ++ "1000000" ++ "*1.0) AS " ++ a.real ++
      "), 0)" :=
  factorText ▸ rfl

theorem sumText : sum.sql a value key =
    "COALESCE(CAST(" ++ ("(" ++ ("SUM(DISTINCT " ++ (RowTerm.scaledValue.sql a value key ++ " + " ++ a.hash key) ++ ")") ++
      " - " ++ ("SUM(DISTINCT " ++ a.hash key ++ ")") ++ ")") ++ " AS " ++ a.real ++ ") / CAST((" ++ "1000000" ++
      "*1.0) AS " ++ a.real ++ "), 0)" :=
  unscaledText a value key _

theorem countText : count.sql a value key =
    "NULLIF(COUNT(DISTINCT CASE WHEN " ++ value ++ " IS NOT NULL THEN " ++ key ++ " ELSE NULL END),0)" := rfl

theorem averageText : average.sql a value key = "(" ++ sum.sql a value key ++ " / " ++ count.sql a value key ++ ")" := rfl

end

theorem keyChars : Cell.key.text.toList = ['#'] := String.toList_singleton _

theorem md5Read {d : Dialect} (same : arithmetic? d = arithmetic? .snowflake) :
    expression? d sum = some (sumOf (scaledIn .whole) md5Hash) ∧
      expression? d average = some (averageOf (scaledIn .whole) md5Hash) := by
  simp only [expression?,render,same]
  simp only [arithmetic?,averageText,sumText,countText,scaledText,read?,toString,String.toList_append,valueChars,
    keyChars,literalChars rfl]
  decide +kernel

theorem fingerprintRead : expression? .bigQuery sum = some (sumOf (scaledIn .real) fingerprintHash) ∧
    expression? .bigQuery average = some (averageOf (scaledIn .real) fingerprintHash) := by
  simp only [expression?,render,arithmetic?,averageText,sumText,countText,scaledText,read?,toString,
    String.toList_append,valueChars,keyChars,literalChars rfl]
  decide +kernel

section
variable {d : Dialect} (supported : d.hasSymmetricAggregates)
include supported

theorem countRead : expression? d count = some countOf := by
  obtain ⟨a,known⟩ := Option.isSome_iff_exists.mp ((arithmetic?_isSome d).trans supported)
  simp only [expression?,render,known,countText,read?,String.toList_append,valueChars,keyChars,literalChars rfl]
  decide +kernel

theorem sumRead : expression? d sum = some (sumOf (scaledFor d) (hashFor d)) ∧
    expression? d average = some (averageOf (scaledFor d) (hashFor d)) := by
  cases d with
  | bigQuery => exact fingerprintRead
  | snowflake | redshift | postgres | duckDb => exact md5Read rfl
  | _ => cases supported

end

section
variable {a : Arithmetic} {value key : String}

structure Fills (a : Arithmetic) (value key : String) : Prop where
  whole : fillCells value key a.whole = a.whole
  real : fillCells value key a.real = a.real
  hash : fillCells value key (a.hash Cell.key.text) = a.hash key

theorem fills {d : Dialect} (known : arithmetic? d = some a) : Fills a value key := by
  have texts (s : String) : toString s = s := rfl
  cases d <;> cases known <;> constructor <;>
    simp (disch := decide) only [texts,fillAppend,fillKey,fillPlain rfl]

theorem rowFilled (fills : Fills a value key) (t : RowTerm) :
    fillCells value key (t.sql a Cell.value.text Cell.key.text) = t.sql a value key := by
  induction t with
  | value => exact fillValue
  | key => exact fillKey
  | scaledValue => simp (disch := decide) only [scaledText,fillAppend,fillValue,fills.whole,fillPlain rfl]
  | keyHash => exact fills.hash
  | plus s t ihs iht =>
    have text (v k : String) : (s.plus t).sql a v k = s.sql a v k ++ " + " ++ t.sql a v k := rfl
    simp (disch := decide) only [text,fillAppend,ihs,iht,fillPlain rfl]

theorem groupFilled (fills : Fills a value key) (t : GroupTerm) :
    fillCells value key (t.sql a Cell.value.text Cell.key.text) = t.sql a value key := by
  induction t with
  | sumDistinct t =>
    have text (v k : String) : (GroupTerm.sumDistinct t).sql a v k = "SUM(DISTINCT " ++ t.sql a v k ++ ")" := rfl
    simp (disch := decide) only [text,fillAppend,rowFilled fills,fillPlain rfl]
  | minus s t ihs iht =>
    have text (v k : String) : (s.minus t).sql a v k = "(" ++ s.sql a v k ++ " - " ++ t.sql a v k ++ ")" := rfl
    simp (disch := decide) only [text,fillAppend,ihs,iht,fillPlain rfl]
  | unscaled t ih => simp (disch := decide) only [unscaledText,fillAppend,ih,fills.real,fillPlain rfl]
  | countKeys =>
    have text (v k : String) : GroupTerm.countKeys.sql a v k =
      "NULLIF(COUNT(DISTINCT CASE WHEN " ++ v ++ " IS NOT NULL THEN " ++ k ++ " ELSE NULL END),0)" := rfl
    simp (disch := decide) only [text,fillAppend,fillValue,fillKey,fillPlain rfl]
  | dividedBy s t ihs iht =>
    have text (v k : String) : (s.dividedBy t).sql a v k = "(" ++ s.sql a v k ++ " / " ++ t.sql a v k ++ ")" := rfl
    simp (disch := decide) only [text,fillAppend,ihs,iht,fillPlain rfl]

end

theorem renderFilled (d : Dialect) (t : GroupTerm) (value key : String) :
    render d t value key = (render d t Cell.value.text Cell.key.text).map (fillCells value key) := by
  cases known : arithmetic? d with
  | none => simp only [render,known,Except.map]
  | some a => simp only [render,known,Except.map,groupFilled (fills known)]

def valueOf? (db : Functions) (d : Dialect) (rows : List KeyedRow) (t : GroupTerm) : Option Datum := do
  (← expression? d t).groupValue db (rows.map cells)

theorem keysCountedOnce {d : Dialect} (supported : d.hasSymmetricAggregates) (db : Functions) {rows : List KeyedRow}
    (agree : KeyedRow.Agree rows) (hashes : Set.InjOn (db.hash d) (KeyedRow.keys rows))
    (shifted : Set.InjOn (fun p => KeyedRow.unitsAt rows p + db.hash d p) (KeyedRow.keys rows)) :
    (∀ t value key, render d t value key = (render d t Cell.value.text Cell.key.text).map (fillCells value key)) ∧
    let total := (∑ p ∈ KeyedRow.keys rows, KeyedRow.unitsAt rows p) / 1000000
    let known := (KeyedRow.valuedKeys rows).card
    valueOf? db d rows sum = some (.number total) ∧
    valueOf? db d rows count = some (if known = 0 then .null else .number known) ∧
    valueOf? db d rows average = some (if known = 0 then .null else .number (total / known)) := by
  have sums := sumValue agree hashes shifted
  have counts := countValue db agree
  obtain ⟨sumText,averageText⟩ := sumRead supported
  refine ⟨renderFilled d,?_,?_,?_⟩
  · rw [valueOf?,sumText]
    exact sums
  · rw [valueOf?,countRead supported]
    exact counts
  · rw [valueOf?,averageText]
    exact averageValue sums counts

/- A database with the hashes of three keys, which reads them in base sixteen. -/
def hexadecimal : Functions where
  md5 key :=
    if key = .number 1 then "c4ca4238a0b923820dcc509a6f75849b"
    else if key = .number 2 then "c81e728d9d4c2f636f067f89cc14862c"
    else if key = .number 3 then "eccbc87e4b5ce2fe28308fd9f2a7baf3"
    else ""
  toNumber s _ := (s.toList.foldl (fun n c => 16 * n + (if c.isDigit then c.toNat - 48 else c.toNat - 87)) 0 : Nat)
  fingerprint _ := 0
  string _ := ""

def joinedLines : List KeyedRow :=
  [⟨.number 1,some (5 / 2)⟩,⟨.number 2,some (3 / 2)⟩,⟨.number 1,some (5 / 2)⟩,⟨.number 3,none⟩,⟨.null,some 7⟩]

theorem ordersTotalledOnce : KeyedRow.Agree joinedLines ∧
    valueOf? hexadecimal .snowflake joinedLines sum = some (.number 4) ∧
    valueOf? hexadecimal .snowflake joinedLines count = some (.number 2) ∧
    valueOf? hexadecimal .snowflake joinedLines average = some (.number 2) := by
  have agree : KeyedRow.Agree joinedLines := by unfold KeyedRow.Agree; decide +kernel
  have hashes : ∀ p ∈ KeyedRow.keys joinedLines, ∀ q ∈ KeyedRow.keys joinedLines,
      hexadecimal.hash .snowflake p = hexadecimal.hash .snowflake q → p = q := by decide +kernel
  have shifted : ∀ p ∈ KeyedRow.keys joinedLines, ∀ q ∈ KeyedRow.keys joinedLines,
      KeyedRow.unitsAt joinedLines p + hexadecimal.hash .snowflake p =
        KeyedRow.unitsAt joinedLines q + hexadecimal.hash .snowflake q → p = q := by decide +kernel
  have total : (∑ p ∈ KeyedRow.keys joinedLines, KeyedRow.unitsAt joinedLines p) / 1000000 = 4 := by decide +kernel
  have known : (KeyedRow.valuedKeys joinedLines).card = 2 := by decide +kernel
  have values := (keysCountedOnce rfl hexadecimal agree (fun p hp q hq => hashes p hp q hq)
    fun p hp q hq => shifted p hp q hq).2
  simp only [total,known] at values
  norm_num at values
  exact ⟨agree,values⟩

end Symmetric
end SemanticSql
