import SemanticSql.Proofs.BoundTexts
import SemanticSql.Sql.Tier

/-! Which tier a number falls into. The case distinction over tiers is read from its text: each branch asks whether
the number is in the range that its label names. -/
namespace SemanticSql

open List Binary64 Expression

namespace Sql

theorem lexDigits (word : List Char) {ds : List Char} (digits : ∀ c ∈ ds, c.isDigit) (started : word ++ ds ≠ []) :
    lex .code word ds = some [.word (String.ofList (word.reverse ++ ds))] := by
  induction ds generalizing word with
  | nil => simp_all [lex,finish,wordToken]
  | cons d ds ih =>
    have isWord : isWordChar d := by simp [isWordChar,Char.isAlphanum,digits d mem_cons_self]
    have rest := ih (d :: word) (fun c mem => digits c (mem_cons_of_mem d mem)) (by simp)
    simp [lex,next,isWord,rest]

theorem lexLabel {cs word : List Char} (plain : '\'' ∉ cs) :
    lex (.quoted '\'') word (cs ++ ['\'']) = some [.quoted (String.ofList (word.reverse ++ cs))] := by
  induction cs generalizing word with
  | nil => simp [lex,next,finish,wordToken]
  | cons c cs ih =>
    have other : c ≠ '\'' := fun quote => plain (quote ▸ mem_cons_self)
    simp [lex,next,other,ih fun mem => plain (mem_cons_of_mem c mem)]

/- Behind a dash a word starts as it does at the start of a text. -/
theorem lexDash {c : Char} {rest : List Char} {tokens : List Token} (isWord : isWordChar c)
    (read : lex .code [] (c :: rest) = some tokens) : lex .code [] ('-' :: c :: rest) = some (.symbol '-' :: tokens) := by
  have notDash : c ≠ '-' := by
    rintro rfl
    exact absurd isWord (by decide)
  have plain : next .code [] c = (.code, [c], []) := by simp [next,isWord]
  have dash : next .code [] '-' = (.dash, [], []) := by decide
  have later : next .dash [] c = (.code, [c], [.symbol '-']) := by simp [next,startAfter,start,isWord,notDash]
  rw [lex,plain] at read
  obtain ⟨more,cut,rfl⟩ := Option.map_eq_some_iff.mp read
  rw [lex,dash,lex,later,cut]
  rfl

end Sql

namespace Figures
open Sql (Token)

def unsignedTokens (f : Figures) : List Token :=
  .word (String.ofList f.whole) :: if f.fraction = [] then [] else [.symbol '.',.word (String.ofList f.fraction)]

def tokens (f : Figures) : List Token := (if f.negative then [.symbol '-'] else []) ++ f.unsignedTokens

theorem unsignedLexed (f : Figures) : Sql.lex .code [] f.unsigned = some f.unsignedTokens := by
  have whole := Sql.lexDigits [] (fun c mem => f.digits c (mem_append_left _ mem)) (by simpa using f.started)
  by_cases pointless : f.fraction = []
  · simpa [unsigned,unsignedTokens,pointless] using whole
  · have point : Sql.Separates '.' [.symbol '.'] := ⟨by decide,by decide⟩
    have fraction := Sql.lexDigits [] (fun c mem => f.digits c (mem_append_right _ mem)) (by simpa using pointless)
    rw [unsigned,if_neg pointless,Sql.lexAppend point _ whole,fraction]
    simp [unsignedTokens,pointless]

theorem lexed (f : Figures) : Sql.lex .code [] f.chars = some f.tokens := by
  obtain ⟨c,rest,whole⟩ := exists_cons_of_ne_nil f.started
  have isWord : Sql.isWordChar c := by
    simp [Sql.isWordChar,Char.isAlphanum,f.digits c (mem_append_left _ (whole ▸ mem_cons_self))]
  have unsigned := f.unsignedLexed
  have first : f.unsigned = c :: (rest ++ if f.fraction = [] then [] else '.' :: f.fraction) := by
    rw [Figures.unsigned,whole,cons_append]
  cases sign : f.negative with
  | false => simpa [chars,tokens,sign] using unsigned
  | true =>
    rw [first] at unsigned
    simpa [chars,tokens,sign,first] using Sql.lexDash isWord unsigned

theorem charsNumeric (f : Figures) {c : Char} (mem : c ∈ f.chars) : c.isDigit ∨ c = '-' ∨ c = '.' := by
  have digits := f.digits c
  rw [mem_append] at digits
  rw [chars,unsigned,mem_append,mem_append] at mem
  rcases mem with sign | whole | fraction
  · split at sign <;> simp_all
  · exact .inl (digits (.inl whole))
  · split at fraction
    · contradiction
    · rcases mem_cons.mp fraction with point | fraction
      · exact .inr (.inr point)
      · exact .inl (digits (.inr fraction))

def expression (f : Figures) : Expression :=
  let number := .number (Numeral.digitsValue (f.whole ++ f.fraction)) (-f.fraction.length)
  if f.negative then .unary .minus number else number

structure Ends (rest : List Token) : Prop where
  pointless : ∀ t ∈ rest.head?, t ≠ .symbol '.'
  sum : Level.sum.suffix? rest = none
  product : Level.product.suffix? rest = none
  typed : Level.typed.suffix? rest = none

variable {rest : List Token}

theorem unsignedRead (f : Figures) (ends : Ends rest) (n : Nat) :
    readFrom (n + 1) .primary (f.unsignedTokens ++ rest) =
      some (.number (Numeral.digitsValue (f.whole ++ f.fraction)) (-f.fraction.length), rest) := by
  have numeral : isNumeral (String.ofList f.whole) := by
    obtain ⟨c,cs,whole⟩ := exists_cons_of_ne_nil f.started
    have digit := f.digits c (mem_append_left _ (whole ▸ mem_cons_self))
    simp [isNumeral,whole,digit]
  have read := f.decimalRead
  by_cases pointless : f.fraction = []
  · rw [unsigned,if_pos pointless,append_nil] at read
    have last : number? (String.ofList f.whole) rest =
        (decimal? (String.ofList f.whole).toList).map fun d => (.number d.1 d.2, rest) := by
      unfold number?
      split
      · next => exact absurd rfl (ends.pointless _ rfl)
      · rfl
    simp [unsignedTokens,readFrom,numeral,pointless,last,read]
  · rw [unsigned,if_neg pointless] at read
    simp [unsignedTokens,readFrom,numeral,pointless,number?,read]

theorem primaryRead (f : Figures) (ends : Ends rest) (n : Nat) :
    readFrom (n + 2) .primary (f.tokens ++ rest) = some (f.expression, rest) := by
  cases sign : f.negative with
  | false => simpa [tokens,expression,sign] using f.unsignedRead ends (n + 1)
  | true =>
    have minus (ts : List Token) : readFrom (n + 2) .primary (.symbol '-' :: ts) =
        (readFrom (n + 1) .primary ts).bind fun read => some (.unary .minus read.1, read.2) := rfl
    have text : f.tokens ++ rest = .symbol '-' :: (f.unsignedTokens ++ rest) := by simp [tokens,sign]
    rw [text,minus,f.unsignedRead ends n]
    simp [expression,sign]

theorem operandRead (f : Figures) (ends : Ends rest) (n : Nat) :
    readFrom (n + 5) (.level .sum) (f.tokens ++ rest) = some (f.expression, rest) :=
  levelRead (levelRead (levelRead (f.primaryRead ends n) ends.typed) ends.product) ends.sum

theorem cellRead (ends : Ends rest) (n : Nat) :
    readFrom (n + 4) (.level .sum) (.symbol '?' :: rest) = some (.cell .value, rest) :=
  levelRead (levelRead (levelRead (n := n) rfl ends.typed) ends.product) ends.sum

end Figures

theorem Binary64.boundLexed {x : Binary64} (number : x.isFinite) :
    Sql.lex .code [] x.boundText.toList = some x.figures.tokens := by
  cases x with
  | finite negative m q => rw [boundChars,Figures.lexed]
  | _ => contradiction

theorem Binary64.boundNumeric {x : Binary64} (number : x.isFinite) {c : Char} (mem : c ∈ x.boundText.toList) :
    c.isDigit ∨ c = '-' ∨ c = '.' := by
  cases x with
  | finite negative m q => exact Figures.charsNumeric _ (boundChars ▸ mem)
  | _ => contradiction

inductive Range where
  | below (bound : ℚ)
  | between (low high : ℚ)
  | atLeast (bound : ℚ)
  deriving DecidableEq

namespace Range

def Holds (v : ℚ) : Range → Prop
  | below bound => v < bound
  | between low high => low ≤ v ∧ v < high
  | atLeast bound => bound ≤ v

instance (v : ℚ) : DecidablePred (Holds v)
  | below bound => inferInstanceAs (Decidable (v < bound))
  | between low high => inferInstanceAs (Decidable (low ≤ v ∧ v < high))
  | atLeast bound => inferInstanceAs (Decidable (bound ≤ v))

def number? : List Char → Option ℚ
  | '-' :: cs => (decimal? cs).map fun d => -(d.1 * 10 ^ d.2)
  | cs => (decimal? cs).map fun d => d.1 * 10 ^ d.2

def upper? (low : ℚ) (cs : List Char) : Option Range :=
  if cs = "inf)".toList then some (.atLeast low)
  else if cs.getLast? = some ')' then (number? cs.dropLast).map (.between low)
  else none

def read? (label : String) : Option Range :=
  match label.toList with
  | 'B' :: 'e' :: 'l' :: 'o' :: 'w' :: ' ' :: cs => (number? cs).map .below
  | '[' :: cs => do
    let low ← number? (cs.takeWhile (· ≠ ','))
    match cs.dropWhile (· ≠ ',') with
    | ',' :: rest => upper? low rest
    | _ => none
  | _ => none

theorem numberRead (f : Figures) : number? f.chars = some f.value := by
  have read := f.decimalRead
  cases sign : f.negative with
  | true => simp [Figures.chars,sign,number?,read,Figures.value,Figures.magnitude]
  | false =>
    obtain ⟨c,cs,whole⟩ := exists_cons_of_ne_nil f.started
    have digit := f.digits c (mem_append_left _ (whole ▸ mem_cons_self))
    have unsigned : number? f.unsigned = (decimal? f.unsigned).map fun d => (d.1 * 10 ^ d.2 : ℚ) := by
      rw [Figures.unsigned,whole,number?]
      rintro rest same
      cases same
      contradiction
    simp [Figures.chars,sign,unsigned,read,Figures.value,Figures.magnitude]

end Range

theorem Binary64.boundRead {x : Binary64} (number : x.isFinite) :
    Range.number? x.boundText.toList = some x.figures.value := by
  cases x with
  | finite negative m q => rw [boundChars,Range.numberRead]
  | _ => contradiction

namespace Tier
open Sql (Token lex lexBlank)

def range : Tier → Range
  | below b => .below b.figures.value
  | between low high => .between low.figures.value high.figures.value
  | atLeast b => .atLeast b.figures.value

def conditionTokens : Tier → List Token
  | below b => .symbol '?' :: .symbol '<' :: b.figures.tokens
  | between low high => .symbol '?' :: .symbol '>' :: .symbol '=' :: low.figures.tokens ++
      .word "AND" :: .symbol '?' :: .symbol '<' :: high.figures.tokens
  | atLeast b => .symbol '?' :: .symbol '>' :: .symbol '=' :: b.figures.tokens

def conditionExpression : Tier → Expression
  | below b => .binary .less (.cell .value) b.figures.expression
  | between low high => .binary .and (.binary .atLeast (.cell .value) low.figures.expression)
      (.binary .less (.cell .value) high.figures.expression)
  | atLeast b => .binary .atLeast (.cell .value) b.figures.expression

section
variable {rest : List Token} (ends : Figures.Ends rest) (compared : Level.comparison.suffix? rest = none) (n : Nat)
include ends compared

theorem lessRead (f : Figures) :
    readFrom (n + 7) (.level .comparison) (.symbol '?' :: .symbol '<' :: f.tokens ++ rest) =
      some (.binary .less (.cell .value) f.expression, rest) :=
  operatorRead (Figures.cellRead ⟨by simp,rfl,rfl,rfl⟩ (n + 2)) rfl (f.operandRead ends n) compared

theorem atLeastRead (f : Figures) :
    readFrom (n + 7) (.level .comparison) (.symbol '?' :: .symbol '>' :: .symbol '=' :: f.tokens ++ rest) =
      some (.binary .atLeast (.cell .value) f.expression, rest) :=
  operatorRead (Figures.cellRead ⟨by simp,rfl,rfl,rfl⟩ (n + 2)) rfl (f.operandRead ends n) compared

end

theorem conditionRead (t : Tier) (rest : List Token) (n : Nat) :
    readFrom (n + 9) (.level .conjunction) (t.conditionTokens ++ .word "THEN" :: rest) =
      some (t.conditionExpression, .word "THEN" :: rest) := by
  have stop (rest : List Token) : Figures.Ends (.word "THEN" :: rest) := ⟨by simp,rfl,rfl,rfl⟩
  have next (rest : List Token) : Figures.Ends (.word "AND" :: rest) := ⟨by simp,rfl,rfl,rfl⟩
  cases t with
  | below b => exact levelRead (lessRead (stop rest) rfl (n + 1) b.figures) rfl
  | atLeast b => exact levelRead (atLeastRead (stop rest) rfl (n + 1) b.figures) rfl
  | between low high =>
    rw [conditionTokens,append_assoc]
    exact operatorRead (atLeastRead (next _) rfl (n + 1) low.figures) rfl (lessRead (stop rest) rfl n high.figures) rfl

def branchTokens (t : Tier) : List Token := .word "WHEN" :: t.conditionTokens ++ [.word "THEN",.quoted t.label]

def branchesTokens (tiers : List Tier) : List Token :=
  tiers.flatMap branchTokens ++ [.word "ELSE",.quoted "Unknown",.word "END"]

def branchesExpression : List Tier → Expression
  | [] => .text "Unknown"
  | t :: rest => .when t.conditionExpression (.text t.label) (branchesExpression rest)

theorem quotedRead {s : String} {rest : List Token} (n : Nat) (ends : ∀ l : Level, l.suffix? rest = none) :
    readFrom (n + 6) (.level .conjunction) (.quoted s :: rest) = some (.text s, rest) :=
  levelRead (levelRead (levelRead (levelRead (levelRead (n := n) rfl (ends _)) (ends _)) (ends _)) (ends _)) (ends _)

variable (tiers : List Tier)

theorem branchesRead (n : Nat) :
    readFrom (n + 10 + tiers.length) .branches (branchesTokens tiers) = some (branchesExpression tiers, []) := by
  induction tiers with
  | nil =>
    have result : readFrom (n + 9) (.level .conjunction) [.quoted "Unknown",.word "END"] = _ :=
      quotedRead (n + 3) fun l => by cases l <;> rfl
    rw [length_nil,Nat.add_zero,branchesTokens,flatMap_nil,nil_append,readFrom]
    simp [result,expect,branchesExpression]
  | cons t rest ih =>
    have tokens : branchesTokens (t :: rest) =
        .word "WHEN" :: (t.conditionTokens ++ .word "THEN" :: .quoted t.label :: branchesTokens rest) := by
      simp [branchesTokens,branchTokens]
    have follows (l : Level) : l.suffix? (branchesTokens rest) = none := by
      cases rest <;> cases l <;> rfl
    have condition := conditionRead t (.quoted t.label :: branchesTokens rest) (n + 1 + rest.length)
    have label := quotedRead (s := t.label) (n + 4 + rest.length) follows
    rw [show n + 1 + rest.length + 9 = n + 10 + rest.length by omega] at condition
    rw [show n + 4 + rest.length + 6 = n + 10 + rest.length by omega] at label
    rw [tokens,length_cons,← Nat.add_assoc,readFrom]
    simp [condition,expect,label,ih,branchesExpression]

theorem casesRead (n : Nat) :
    readFrom (n + 20 + tiers.length) (.level .conjunction) (.word "CASE" :: branchesTokens tiers) =
      some (.cases (branchesExpression tiers), []) := by
  have primary : readFrom (n + 15 + tiers.length) .primary (.word "CASE" :: branchesTokens tiers) =
      some (.cases (branchesExpression tiers), []) := by
    have inner := branchesRead tiers (n + 4)
    rw [show n + 15 + tiers.length = n + 4 + 10 + tiers.length + 1 by omega,readFrom]
    have word : isNumeral "CASE" = false := by decide
    simp [word,inner]
  have ends (l : Level) : l.suffix? [] = none := by cases l <;> rfl
  rw [show n + 15 + tiers.length = n + 14 + tiers.length + 1 by omega] at primary
  rw [show n + 20 + tiers.length = n + 14 + tiers.length + 6 by omega]
  exact levelRead (levelRead (levelRead (levelRead (levelRead primary (ends _)) (ends _)) (ends _)) (ends _)) (ends _)

def Finite : Tier → Prop
  | below b => b.isFinite
  | between low high => low.isFinite ∧ high.isFinite
  | atLeast b => b.isFinite

section
variable {t : Tier} (finite : t.Finite)
include finite

theorem conditionLexed : lex .code [] (t.condition Cell.value.text).toList = some t.conditionTokens := by
  have cell : lex .code [] ['?'] = some [.symbol '?'] := by decide
  have less : lex .code [] ['<'] = some [.symbol '<'] := by decide
  have notLess : lex .code [] ['>','='] = some [.symbol '>',.symbol '='] := by decide
  have conjunction : lex .code [] ['A','N','D'] = some [.word "AND"] := by decide
  cases t with
  | below b =>
    have tokens := lexBlank cell (lexBlank less (boundLexed finite))
    simpa [condition,conditionTokens,Cell.text,Cell.mark,toString] using tokens
  | atLeast b =>
    have tokens := lexBlank cell (lexBlank notLess (boundLexed finite))
    simpa [condition,conditionTokens,Cell.text,Cell.mark,toString] using tokens
  | between low high =>
    have tokens := lexBlank cell (lexBlank notLess (lexBlank (boundLexed finite.1)
      (lexBlank conjunction (lexBlank cell (lexBlank less (boundLexed finite.2))))))
    simpa [condition,conditionTokens,Cell.text,Cell.mark,toString] using tokens

theorem labelPlain : '\'' ∉ t.label.toList := by
  have bound {b : Binary64} (number : b.isFinite) : '\'' ∉ b.boundText.toList := fun mem => by
    have numeric := boundNumeric number mem
    revert numeric
    decide
  cases t with
  | below b => simpa [label,toString] using bound finite
  | between low high => simpa [label,toString] using And.intro (bound finite.1) (bound finite.2)
  | atLeast b => simpa [label,toString] using bound finite

theorem labelRead : Range.read? t.label = some t.range := by
  have cut {b : Binary64} (number : b.isFinite) (rest : List Char) :
      (b.boundText.toList ++ ',' :: rest).takeWhile (· ≠ ',') = b.boundText.toList ∧
        (b.boundText.toList ++ ',' :: rest).dropWhile (· ≠ ',') = ',' :: rest := by
    refine Text.span_append (fun c mem => decide_eq_true ?_) (by simp)
    rintro rfl
    have numeric := boundNumeric number mem
    revert numeric
    decide
  cases t with
  | below b => simp [label,toString,Range.read?,boundRead finite,range]
  | atLeast b =>
    obtain ⟨taken,left⟩ := cut finite "inf)".toList
    have text : (atLeast b).label.toList = '[' :: (b.boundText.toList ++ ',' :: "inf)".toList) := by
      simp [label,toString]
    simp only [Range.read?,text,taken,left,boundRead finite,Range.upper?,range]
    rfl
  | between low high =>
    obtain ⟨taken,left⟩ := cut finite.1 (high.boundText.toList ++ [')'])
    have text : (between low high).label.toList =
        '[' :: (low.boundText.toList ++ ',' :: (high.boundText.toList ++ [')'])) := by
      simp [label,toString]
    have bounded : high.boundText.toList ++ [')'] ≠ "inf)".toList := by
      intro same
      have letter : 'i' ∈ high.boundText.toList ++ [')'] := same ▸ by decide
      have numeric := boundNumeric finite.2 (by simpa using letter)
      revert numeric
      decide
    simp only [Range.read?,text,taken,left,boundRead finite.1,Range.upper?,if_neg bounded]
    simp [boundRead finite.2,range]

theorem branchLexed : lex .code [] (t.branch Cell.value.text).toList = some t.branchTokens := by
  have when : lex .code [] ['W','H','E','N'] = some [.word "WHEN"] := by decide
  have result : lex .code [] ['T','H','E','N'] = some [.word "THEN"] := by decide
  have opened : Sql.next .code [] '\'' = (.quoted '\'', [], []) := by decide
  have label : lex .code [] ('\'' :: (t.label.toList ++ ['\''])) = some [.quoted t.label] := by
    rw [Sql.lex,opened,Sql.lexLabel (labelPlain finite)]
    simp
  have tokens := lexBlank when (lexBlank (conditionLexed finite) (lexBlank result label))
  simpa [branch,branchTokens,toString] using tokens

end

theorem branchesLexed {tiers : List Tier} (finite : ∀ t ∈ tiers, t.Finite) (some : tiers ≠ []) :
    lex .code [] (" ".intercalate (tiers.map (branch Cell.value.text))).toList =
      .some (tiers.flatMap branchTokens) := by
  induction tiers with
  | nil => contradiction
  | cons t rest ih =>
    have first := branchLexed (finite t mem_cons_self)
    cases rest with
    | nil => simpa using first
    | cons next rest =>
      have others := ih (fun t mem => finite t (mem_cons_of_mem _ mem)) (cons_ne_nil _ _)
      simpa [String.intercalate_cons_cons] using lexBlank first others

variable {bounds : List Binary64}

theorem innerFinite (finite : ∀ b ∈ bounds, b.isFinite) : ∀ t ∈ inner bounds, t.Finite := by
  induction bounds with
  | nil => exact forall_mem_nil _
  | cons low rest ih =>
    have others := ih fun b mem => finite b (mem_cons_of_mem _ mem)
    cases rest with
    | nil => exact forall_mem_nil _
    | cons high rest =>
      refine forall_mem_cons.mpr ⟨⟨finite low (by simp),finite high (by simp)⟩,others⟩

theorem ofBoundsCons (first : Binary64) (rest : List Binary64) :
    ofBounds (first :: rest) =
      below first :: inner (first :: rest) ++ [atLeast ((first :: rest).getLast (cons_ne_nil _ _))] := by
  rw [ofBounds,head?_cons,getLast?_eq_some_getLast (cons_ne_nil _ _)]

theorem ofBoundsFinite (finite : ∀ b ∈ bounds, b.isFinite) : ∀ t ∈ ofBounds bounds, t.Finite := by
  cases bounds with
  | nil => exact forall_mem_nil _
  | cons first rest =>
    intro t mem
    rw [ofBoundsCons,cons_append,mem_cons,mem_append,mem_singleton] at mem
    rcases mem with rfl | mem | rfl
    · exact finite first mem_cons_self
    · exact innerFinite finite t mem
    · exact finite _ (getLast_mem _)

theorem sqlText (some : bounds ≠ []) (sql : String) :
    Tier.sql bounds sql = "CASE " ++ " ".intercalate ((ofBounds bounds).map (branch sql)) ++ " ELSE 'Unknown' END" := by
  obtain ⟨first,rest,rfl⟩ := exists_cons_of_ne_nil some
  simp only [Tier.sql,ofBoundsCons,cons_append]

theorem tokensLength : tiers.length + 3 ≤ (branchesTokens tiers).length := by
  induction tiers with
  | nil => exact Nat.le_refl _
  | cons t rest ih =>
    simp only [branchesTokens,flatMap_cons,branchTokens,length_append,length_cons,length_nil] at ih ⊢
    omega

theorem sqlRead (some : bounds ≠ []) (finite : ∀ b ∈ bounds, b.isFinite) :
    read? (Tier.sql bounds Cell.value.text) = .some (.cases (branchesExpression (ofBounds bounds))) := by
  have tiers : ofBounds bounds ≠ [] := by
    obtain ⟨first,rest,rfl⟩ := exists_cons_of_ne_nil some
    simp [ofBoundsCons]
  have opening : lex .code [] ['C','A','S','E'] = .some [.word "CASE"] := by decide
  have closing : lex .code [] "ELSE 'Unknown' END".toList = .some [.word "ELSE",.quoted "Unknown",.word "END"] := by
    decide
  have tokens := lexBlank opening (lexBlank (branchesLexed (ofBoundsFinite finite) tiers) closing)
  have cut : lex .code [] (Tier.sql bounds Cell.value.text).toList =
      .some (.word "CASE" :: branchesTokens (ofBounds bounds)) := by
    rw [sqlText some]
    simpa [branchesTokens] using tokens
  obtain ⟨n,fuel⟩ : ∃ n, 10 * (Token.word "CASE" :: branchesTokens (ofBounds bounds)).length + 10 =
      20 + (ofBounds bounds).length + n := by
    have long := tokensLength (ofBounds bounds)
    refine Nat.exists_eq_add_of_le ?_
    rw [length_cons]
    omega
  have enough : 20 + (ofBounds bounds).length + n = n + 20 + (ofBounds bounds).length := by omega
  simp only [read?,cut,Option.bind_eq_bind,Option.bind_some,fuel,enough,casesRead]
  rfl

def numberRow (v : ℚ) : Cell → Datum
  | .value => .number v
  | .key => .null

section
variable (db : Functions) (v : ℚ)

theorem figuresValue (f : Figures) : f.expression.rowValue db (numberRow v) = some (.number f.value) := by
  cases sign : f.negative <;>
    simp [Figures.expression,sign,rowValue,eval,UnaryOp.apply,Figures.value,Figures.magnitude]

theorem binaryValue {db : Functions} {row : Cell → Datum} {a b : Expression} {x y : Datum} (op : BinaryOp)
    (first : a.rowValue db row = some x) (second : b.rowValue db row = some y) :
    (binary op a b).rowValue db row = op.apply db x y := by
  change (do op.apply db (← a.rowValue db row) (← b.rowValue db row)) = _
  rw [first,second]
  rfl

theorem conditionValue (t : Tier) :
    t.conditionExpression.rowValue db (numberRow v) = some (.truth (decide (t.range.Holds v))) := by
  have number : (cell .value).rowValue db (numberRow v) = some (.number v) := rfl
  have less (f : Figures) : (binary .less (.cell .value) f.expression).rowValue db (numberRow v) =
      some (.truth (decide (v < f.value))) := binaryValue .less number (figuresValue db v f)
  have atLeast (f : Figures) : (binary .atLeast (.cell .value) f.expression).rowValue db (numberRow v) =
      some (.truth (decide (f.value ≤ v))) := binaryValue .atLeast number (figuresValue db v f)
  cases t with
  | below b => exact less b.figures
  | atLeast b => exact atLeast b.figures
  | between low high =>
    rw [conditionExpression,binaryValue .and (atLeast low.figures) (less high.figures)]
    by_cases above : low.figures.value ≤ v <;> by_cases under : v < high.figures.value <;>
      simp [BinaryOp.apply,range,Range.Holds,above,under]

theorem casesValue {before : List Tier} (passed : ∀ t ∈ before, ¬ t.range.Holds v) {t : Tier} (holds : t.range.Holds v)
    (after : List Tier) :
    (cases (branchesExpression (before ++ t :: after))).rowValue db (numberRow v) = some (.text t.label) := by
  have step (t : Tier) (rest : List Tier) :
      (cases (branchesExpression (t :: rest))).rowValue db (numberRow v) =
        if t.range.Holds v then some (.text t.label)
        else (cases (branchesExpression rest)).rowValue db (numberRow v) := by
    have condition : t.conditionExpression.eval db (fun s => some (numberRow v s)) (fun _ _ => none) = _ :=
      conditionValue db v t
    simp only [rowValue,branchesExpression,eval,condition,Option.bind_eq_bind,Option.bind_some]
    split <;> simp_all
  induction before with
  | nil => rw [nil_append,step,if_pos holds]
  | cons first before ih =>
    rw [cons_append,step,if_neg (passed first mem_cons_self)]
    exact ih fun t mem => passed t (mem_cons_of_mem _ mem)

end

theorem casesBranches : (cases (branchesExpression tiers)).branches =
    tiers.map fun t => (t.conditionExpression, .text t.label) := by
  rw [branches]
  induction tiers with
  | nil => rfl
  | cons t rest ih => rw [branchesExpression,branches,ih,map_cons]

variable {bounds : List Binary64}

section
variable (v : ℚ)

/- A step down passes the number, or the last bound is not above it either. -/
theorem heldFrom {low : Binary64} (above : low.figures.value ≤ v) (rest : List Binary64) :
    ∃ t ∈ inner (low :: rest) ++ [atLeast ((low :: rest).getLast (cons_ne_nil _ _))], t.range.Holds v := by
  induction rest generalizing low with
  | nil => exact ⟨atLeast low,by simp [inner],above⟩
  | cons high rest ih =>
    by_cases under : v < high.figures.value
    · exact ⟨between low high,by simp [inner],above,under⟩
    · obtain ⟨t,mem,holds⟩ := ih (not_lt.mp under)
      refine ⟨t,?_,holds⟩
      rw [inner,getLast_cons (cons_ne_nil _ _),cons_append]
      exact mem_cons_of_mem _ mem

theorem heldSomewhere (some : bounds ≠ []) : ∃ t ∈ ofBounds bounds, t.range.Holds v := by
  obtain ⟨first,rest,rfl⟩ := exists_cons_of_ne_nil some
  rw [ofBoundsCons]
  by_cases under : v < first.figures.value
  · exact ⟨below first,by simp,under⟩
  · obtain ⟨t,mem,holds⟩ := heldFrom v (not_lt.mp under) rest
    exact ⟨t,mem_cons_of_mem _ mem,holds⟩

/- If the bounds increase, the tiers from a bound on hold each number that is not below it once. -/
theorem countFrom {low : Binary64} {rest : List Binary64}
    (increasing : ((low :: rest).map fun b => b.figures.value).Pairwise (· < ·)) :
    (inner (low :: rest) ++ [atLeast ((low :: rest).getLast (cons_ne_nil _ _))]).countP (fun t => t.range.Holds v) =
      if low.figures.value ≤ v then 1 else 0 := by
  induction rest generalizing low with
  | nil =>
    by_cases above : low.figures.value ≤ v <;> simp [inner,range,Range.Holds,above]
  | cons high rest ih =>
    rw [map_cons,pairwise_cons] at increasing
    have step : low.figures.value < high.figures.value := increasing.1 _ (by simp)
    have later := ih increasing.2
    rw [inner,getLast_cons (cons_ne_nil _ _),cons_append,countP_cons,later]
    by_cases above : low.figures.value ≤ v <;> by_cases under : v < high.figures.value
    · simp [range,Range.Holds,above,under]
    · simp [range,Range.Holds,above,under,not_lt.mp under]
    · simp [range,Range.Holds,above,under]
    · linarith

theorem countOnce (some : bounds ≠ []) (increasing : (bounds.map fun b => b.figures.value).Pairwise (· < ·)) :
    (ofBounds bounds).countP (fun t => t.range.Holds v) = 1 := by
  obtain ⟨first,rest,rfl⟩ := exists_cons_of_ne_nil some
  rw [ofBoundsCons,cons_append,countP_cons,countFrom v increasing]
  by_cases under : v < first.figures.value
  · simp [range,Range.Holds,under]
  · simp [range,Range.Holds,under,not_lt.mp under]

end

section
variable {sql key : String}

theorem boundFilled {b : Binary64} (number : b.isFinite) : fillCells sql key b.boundText = b.boundText := by
  refine fillPlain String.ofList_toList.symm (all_eq_true.mpr fun c mem => ?_)
  have numeric := boundNumeric number mem
  rw [Bool.and_eq_true,decide_eq_true_eq,decide_eq_true_eq]
  constructor <;> rintro rfl <;> revert numeric <;> decide

theorem branchFilled {t : Tier} (finite : t.Finite) : fillCells sql key (t.branch Cell.value.text) = t.branch sql := by
  have texts (s : String) : toString s = s := rfl
  cases t with
  | below b =>
    simp (disch := decide) only [branch,condition,label,texts,fillAppend,fillValue,boundFilled finite,fillPlain rfl]
  | atLeast b =>
    simp (disch := decide) only [branch,condition,label,texts,fillAppend,fillValue,boundFilled finite,fillPlain rfl]
  | between low high =>
    simp (disch := decide) only [branch,condition,label,texts,fillAppend,fillValue,boundFilled finite.1,
      boundFilled finite.2,fillPlain rfl]

theorem sqlFilled (some : bounds ≠ []) (finite : ∀ b ∈ bounds, b.isFinite) :
    fillCells sql key (Tier.sql bounds Cell.value.text) = Tier.sql bounds sql := by
  have branches (tiers : List Tier) (finite : ∀ t ∈ tiers, t.Finite) :
      fillCells sql key (" ".intercalate (tiers.map (branch Cell.value.text))) = " ".intercalate (tiers.map (branch sql)) := by
    induction tiers with
    | nil => exact fillPlain (s := "") rfl rfl
    | cons t rest ih =>
      have first : fillCells sql key (t.branch Cell.value.text) = t.branch sql := branchFilled (finite t mem_cons_self)
      have others := ih fun t mem => finite t (mem_cons_of_mem _ mem)
      cases rest with
      | nil => simpa using first
      | cons next rest =>
        simp only [map_cons,String.intercalate_cons_cons] at others ⊢
        rw [fillAppend,fillAppend,first,others,fillPlain rfl rfl]
  rw [sqlText some,sqlText some,fillAppend,fillAppend,branches _ (ofBoundsFinite finite),fillPlain rfl rfl,
    fillPlain rfl rfl]

end

theorem numbersClassified {bounds : List Binary64} (some : bounds ≠ []) (finite : ∀ b ∈ bounds, b.isFinite) :
    ∃ e, read? (Tier.sql bounds Cell.value.text) = .some e ∧
      (∀ sql key, Tier.sql bounds sql = fillCells sql key (Tier.sql bounds Cell.value.text)) ∧
      (∀ db v, ∃ before condition label after range,
        e.branches = before ++ (condition, .text label) :: after ∧
        (∀ branch ∈ before, branch.1.rowValue db (numberRow v) = .some (.truth false)) ∧
        condition.rowValue db (numberRow v) = .some (.truth true) ∧
        e.rowValue db (numberRow v) = .some (.text label) ∧ label ≠ "Unknown" ∧
        Range.read? label = .some range ∧ range.Holds v) ∧
      ((∀ b ∈ bounds, b.IsDouble) → (bounds.map Binary64.exact).Pairwise (· < ·) → ∀ db v,
        e.branches.countP (fun branch => branch.1.rowValue db (numberRow v) = .some (.truth true)) = 1) := by
  refine ⟨_,sqlRead some finite,fun sql key => (sqlFilled some finite).symm,fun db v => ?_,fun doubles increasing db v => ?_⟩
  · obtain ⟨t,held⟩ := Option.isSome_iff_exists.mp
      (List.find?_isSome.mpr ((heldSomewhere v some).imp fun t held => ⟨held.1,decide_eq_true held.2⟩))
    obtain ⟨holds,before,after,tiers,passed⟩ := List.find?_eq_some_iff_append.mp held
    have holds := of_decide_eq_true holds
    have passed : ∀ t ∈ before, ¬ t.range.Holds v := fun t mem => by simpa using passed t mem
    have read := labelRead (ofBoundsFinite finite t (tiers ▸ List.mem_append_right _ List.mem_cons_self))
    refine ⟨before.map fun t => (t.conditionExpression, .text t.label),t.conditionExpression,t.label,
      after.map fun t => (t.conditionExpression, .text t.label),t.range,?_,?_,?_,?_,?_,read,holds⟩
    · rw [casesBranches,tiers,List.map_append,List.map_cons]
    · intro branch mem
      obtain ⟨earlier,among,rfl⟩ := List.mem_map.mp mem
      rw [conditionValue,decide_eq_false (passed earlier among)]
    · rw [conditionValue,decide_eq_true holds]
    · rw [tiers]
      exact casesValue db v passed holds after
    · intro unknown
      rw [unknown] at read
      contradiction
  · have increasing : (bounds.map fun b => b.figures.value).Pairwise (· < ·) := by
      rw [List.pairwise_map] at increasing ⊢
      exact increasing.imp_of_mem fun first second less => Binary64.figuresLt (doubles _ first) (doubles _ second) less
    rw [casesBranches,List.countP_map,← countOnce v some increasing]
    refine List.countP_congr fun t _ => ?_
    simp [conditionValue]

def feeBounds : List Binary64 := [.ofDecimal true 25 (-1),.ofDecimal false 1 (-1),.ofDecimal false 100 0]

def noFunctions : Functions := ⟨fun _ => "",fun _ _ => 0,fun _ => 0,fun _ => ""⟩

theorem smallFeeClassified : ∃ e label range,
    read? (Tier.sql feeBounds Cell.value.text) = some e ∧
    e.rowValue noFunctions (numberRow (1 / 20)) = some (.text label) ∧ label ≠ "Unknown" ∧
    Range.read? label = some range ∧ range.Holds (1 / 20) ∧
    e.branches.countP (fun branch => branch.1.rowValue noFunctions (numberRow (1 / 20)) = some (.truth true)) = 1 := by
  have finite : ∀ b ∈ feeBounds, b.isFinite := by decide +kernel
  have doubles : ∀ b ∈ feeBounds, b.IsDouble := by decide +kernel
  have increasing : (feeBounds.map Binary64.exact).Pairwise (· < ·) := by decide +kernel
  obtain ⟨e,read,_,classified,once⟩ := numbersClassified (by decide) finite
  obtain ⟨_,_,label,_,range,_,_,_,value,known,label',holds⟩ := classified noFunctions (1 / 20)
  exact ⟨e,label,range,read,value,known,label',holds,once doubles increasing noFunctions (1 / 20)⟩

end Tier
end SemanticSql
