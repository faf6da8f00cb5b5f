import SemanticSql.Proofs.CompileRuns
import SemanticSql.Proofs.ConditionText
import SemanticSql.Sql.Constant

/-! Text that SQL can read wherever it stands: outside of a range it opens and closes its own brackets, and it may be
asked to add no alternative. -/
namespace SemanticSql.Sql

open List

theorem readFrame (f : Frame) (t : Token) : (f.read t).bracket = f.bracket ∧
    ((f.read t).between =
      if t.keyword = .between then true else if t.keyword = .and ∨ t.keyword = .or then false else f.between) ∧
    (f.read t).alternatives = if t.keyword = .or then f.reading else f.alternatives := by
  unfold Frame.read
  cases t.keyword with
  | and => dsimp only; split <;> simp [Frame.push]
  | not => dsimp only; split <;> simp [Frame.push]
  | or => simp
  | between => simp [Frame.push]
  | other => simp [Frame.push]

def Balanced (single : Prop) (tokens : List Token) : Prop :=
  ∀ f below, f.between = false → ∃ g, tokens.foldl take (f :: below) = g :: below ∧ g.bracket = f.bracket ∧
    g.between = false ∧ (single → g.alternatives = f.alternatives)

def Token.inert (t : Token) : Bool :=
  t.opens?.isNone && t.closes?.isNone && t.keyword != .or && t.keyword != .between

variable {single : Prop}

theorem balancedNil : Balanced single [] := fun f _ closed => ⟨f,rfl,rfl,closed,fun _ => rfl⟩

theorem balancedAppend {first second} (left : Balanced single first) (right : Balanced single second) :
    Balanced single (first ++ second) := by
  intro f below closed
  obtain ⟨g,run,bracket,closed,alone⟩ := left f below closed
  obtain ⟨h,runOn,bracketOn,closed,aloneOn⟩ := right g below closed
  refine ⟨h,?_,bracketOn.trans bracket,closed,fun single => (aloneOn single).trans (alone single)⟩
  rw [foldl_append,run,runOn]

theorem wordBalanced {t : Token} (opens : t.opens? = none) (closes : t.closes? = none)
    (notBetween : t.keyword ≠ .between) (notOr : single → t.keyword ≠ .or) : Balanced single [t] := by
  intro f below closed
  obtain ⟨bracket,between,alternatives⟩ := readFrame f t
  refine ⟨f.read t,by simp [take,opens,closes],bracket,?_,fun alone => ?_⟩
  · simp [between,closed,notBetween]
  · simp [alternatives,notOr alone]

theorem inertBalanced {t : Token} (inert : t.inert) : Balanced single [t] := by
  simp only [Token.inert,Bool.and_eq_true,Option.isNone_iff_eq_none,bne_iff_ne] at inert
  obtain ⟨⟨⟨opens,closes⟩,notOr⟩,notBetween⟩ := inert
  exact wordBalanced opens closes notBetween fun _ => notOr

theorem inertAllBalanced {tokens : List Token} (inert : tokens.all Token.inert) : Balanced single tokens := by
  induction tokens with
  | nil => exact balancedNil
  | cons t rest ih =>
    rw [all_cons,Bool.and_eq_true] at inert
    exact balancedAppend (inertBalanced inert.1) (ih inert.2)

theorem parenBalanced {inner} (balanced : Balanced False inner) :
    Balanced single (.symbol '(' :: (inner ++ [.symbol ')'])) := by
  intro f below closed
  obtain ⟨g,run,bracket,between,_⟩ := balanced { bracket := .paren, tokens := [.symbol '('] } (f :: below) rfl
  refine ⟨f.enclose (.symbol ')' :: g.tokens) g.group?,?_,rfl,closed,fun _ => rfl⟩
  have opened : take (f :: below) (.symbol '(') = { bracket := .paren, tokens := [.symbol '('] } :: f :: below := rfl
  rw [foldl_cons,opened,foldl_append,run]
  simp [take,Token.opens?,Token.closes?,bracket,between]

structure Beside (outer f g : Frame) : Prop where
  bracket : g.bracket = outer.bracket
  between : g.between = f.between
  alone : f.alternatives = [] → g.alternatives = outer.alternatives

theorem besideTracks (outer : Frame) : Tracks (Beside outer) where
  reads f g t beside := by
    refine ⟨(readFrame g t).1.trans beside.bracket,?_,fun none => ?_⟩
    · rw [(readFrame _ t).2.1,(readFrame _ t).2.1,beside.between]
    · rw [(readFrame _ t).2.2] at none ⊢
      split at none
      · simp [Frame.reading] at none
      · rename_i notOr
        rw [if_neg notOr,beside.alone none]
  encloses f g tokens c beside := ⟨beside.bracket,beside.between,beside.alone⟩

def Legible (single : Prop) (cs : List Char) : Prop := ∃ tokens, lex .code [] cs = some tokens ∧ Balanced single tokens

variable {cs rest : List Char}

theorem legibleAny (legible : Legible single cs) : Legible False cs := by
  obtain ⟨tokens,cut,balanced⟩ := legible
  refine ⟨tokens,cut,fun f below closed => ?_⟩
  obtain ⟨g,run,bracket,between,_⟩ := balanced f below closed
  exact ⟨g,run,bracket,between,False.elim⟩

theorem readsLegible {text} : Reads single text ↔ Legible single text.toList := by
  constructor
  · rintro ⟨as,reads,one⟩
    obtain ⟨tokens,cut,parsed⟩ := readEnds reads
    refine ⟨tokens,cut,fun outer below closed => ?_⟩
    have beside : Beside outer clause outer := ⟨rfl,closed,fun _ => rfl⟩
    obtain ⟨f,g,between,rfl,beside,run⟩ := foldBehind (besideTracks outer) parsed beside below
    refine ⟨g,run,beside.bracket,beside.between.trans between,fun single => beside.alone ?_⟩
    obtain ⟨cs,same⟩ := one single
    have length := congrArg List.length same
    simpa [Frame.reading] using length
  · rintro ⟨tokens,cut,balanced⟩
    obtain ⟨f,run,_,closed,alone⟩ := balanced clause [] rfl
    refine ⟨f.reading,?_,fun single => ⟨f.conjuncts ++ [f.condition],?_⟩⟩
    · simp [read,cut,parse,run,closed]
    · simp [Frame.reading,alone single,clause]

def advance : Mode → List Char → List Char → Lexed
  | mode, word, [] => (mode, word, [])
  | mode, word, c :: rest =>
    let after := advance (next mode word c).1 (next mode word c).2.1 rest
    (after.1, after.2.1, (next mode word c).2.2 ++ after.2.2)

theorem lexAdvance {mode word first mode' word' tokens} (cut : advance mode word first = (mode', word', tokens))
    (second : List Char) :
    lex mode word (first ++ second) = (lex mode' word' second).map fun more => tokens ++ more := by
  induction first generalizing mode word tokens with
  | nil =>
    cases cut
    simp
  | cons c rest ih =>
    cases cut
    rw [cons_append,lex,ih rfl,Option.map_map]
    congr 1
    funext more
    simp

/- A text between two others that starts with a separator and leaves no word unfinished. -/
structure Joint (single : Prop) (c : Char) (rest : List Char) (out tokens : List Token) : Prop where
  separates : Separates c out
  advances : advance .code [] rest = (.code, [], tokens)
  balanced : Balanced single (out ++ tokens)

theorem legibleJoint {c rest out tokens first second} (joint : Joint single c rest out tokens)
    (left : Legible single first) (right : Legible single second) :
    Legible single (first ++ (c :: rest ++ second)) := by
  obtain ⟨before,cutLeft,left⟩ := left
  obtain ⟨after,cutRight,right⟩ := right
  refine ⟨before ++ (out ++ tokens) ++ after,?_,balancedAppend (balancedAppend left joint.balanced) right⟩
  rw [cons_append,lexAppend joint.separates _ cutLeft,lexAdvance joint.advances,cutRight]
  simp

theorem parenSeparates : Separates '(' [.symbol '('] ∧ Separates ')' [.symbol ')'] :=
  ⟨⟨by decide,by decide⟩,⟨by decide,by decide⟩⟩

theorem legibleNil : Legible single [] := ⟨[],rfl,balancedNil⟩

theorem legibleParen {first inner} (left : Legible single first) (inside : Legible False inner) :
    Legible single (first ++ '(' :: (inner ++ [')'])) := by
  obtain ⟨before,cutLeft,left⟩ := left
  obtain ⟨tokens,cut,inside⟩ := inside
  refine ⟨before ++ .symbol '(' :: (tokens ++ [.symbol ')']),?_,balancedAppend left (parenBalanced inside)⟩
  rw [lexAppend parenSeparates.1 _ cutLeft,lexAppend parenSeparates.2 _ cut]
  simp [lex,finish,wordToken]

theorem legibleWords {cs tokens} (cut : lex .code [] cs = some tokens) (inert : tokens.all Token.inert) :
    Legible single cs := ⟨tokens,cut,inertAllBalanced inert⟩

theorem legibleIntercalate {sep : String}
    (joins : ∀ first second, Legible single first → Legible single second →
      Legible single (first ++ (sep.toList ++ second))) {texts : List String}
    (all : ∀ text ∈ texts, Legible single text.toList) : Legible single (sep.intercalate texts).toList := by
  induction texts with
  | nil => exact legibleNil
  | cons text rest ih =>
    cases rest with
    | nil => simpa using all
    | cons next rest =>
      rw [String.intercalate_cons_cons,String.toList_append,String.toList_append,append_assoc]
      exact joins _ _ (all text mem_cons_self) (ih fun text mem => all text (mem_cons_of_mem _ mem))

theorem lexQuoted (cs word : List Char) :
    ∃ tokens, lex (.quoted '\'') word (Text.replaceList '\'' ['\'','\''] cs ++ ['\'']) = some tokens ∧
      tokens.all Token.inert := by
  induction cs generalizing word with
  | nil => exact ⟨_,rfl,rfl⟩
  | cons c rest ih =>
    by_cases quote : c = '\''
    · -- The two quotes end one token and start the next.
      obtain ⟨tokens,cut,inert⟩ := ih []
      have twice : Text.replaceList '\'' ['\'','\''] (c :: rest) =
          ['\'','\''] ++ Text.replaceList '\'' ['\'','\''] rest := by simp [Text.replaceList,quote]
      have reopens : advance (.quoted '\'') word ['\'','\''] =
          (.quoted '\'', [], [.quoted (String.ofList word.reverse)]) := rfl
      refine ⟨.quoted (String.ofList word.reverse) :: tokens,?_,inert⟩
      rw [twice,append_assoc,lexAdvance reopens,cut]
      rfl
    · obtain ⟨tokens,cut,inert⟩ := ih (c :: word)
      have kept : Text.replaceList '\'' ['\'','\''] (c :: rest) =
          c :: Text.replaceList '\'' ['\'','\''] rest := by simp [Text.replaceList,quote]
      refine ⟨tokens,?_,inert⟩
      rw [kept,cons_append,lex]
      simp [next,quote,cut]

theorem legibleQuote (s : String) : Legible single (quote s).toList := by
  obtain ⟨tokens,cut,inert⟩ := lexQuoted s.toList []
  have quoted : (quote s).toList = ['\''] ++ (Text.replaceList '\'' ['\'','\''] s.toList ++ ['\'']) := by
    simp [quote,escapeQuotes,Text.replace]
  have starts : advance .code [] ['\''] = (.quoted '\'', [], []) := rfl
  refine ⟨tokens,?_,inertAllBalanced inert⟩
  rw [quoted,lexAdvance starts,cut]
  rfl

def isDigitChar (c : Char) : Bool := c.isDigit || c = 'e'

theorem digitLower {c : Char} (digit : isDigitChar c) : c.toLower = c := by
  simp only [isDigitChar,Bool.or_eq_true,decide_eq_true_eq] at digit
  rcases digit with digit | rfl
  · simp only [Char.isDigit,Bool.and_eq_true,decide_eq_true_eq] at digit
    exact dif_neg fun upper => absurd (UInt32.le_trans upper.1 digit.2) (by decide)
  · decide

theorem digitsInert {word : List Char} (digits : ∀ c ∈ word, isDigitChar c) : (wordToken word).all Token.inert := by
  have other (name : String) (letters : name.toList.all isDigitChar = false) :
      lowered (String.ofList word.reverse) ≠ name := by
    rintro rfl
    rw [all_eq_false] at letters
    obtain ⟨d,mem,letter⟩ := letters
    simp only [lowered,String.toList_ofList,mem_map,mem_reverse] at mem
    obtain ⟨c,mem,rfl⟩ := mem
    rw [digitLower (digits c mem)] at letter
    exact letter (digits c mem)
  unfold wordToken
  split
  · rfl
  · simp [Token.inert,Token.opens?,Token.closes?,Token.keyword,other "and" (by decide),other "or" (by decide),
      other "not" (by decide),other "between" (by decide),other "case" (by decide),other "end" (by decide)]

/- The text of a number, or the rest of one behind the word that its digits have begun. -/
def Numeral (cs : List Char) : Prop :=
  ∀ word : List Char, (∀ c ∈ word, isDigitChar c) → ∃ tokens, lex .code word cs = some tokens ∧ tokens.all Token.inert

theorem numeralNil : Numeral [] := fun _ digits => ⟨_,rfl,digitsInert digits⟩

theorem pointSeparates {c : Char} (point : c = '.' ∨ c = '+') : Separates c [.symbol c] := by
  rcases point with rfl | rfl <;> exact ⟨by decide,by decide⟩

def isUnsigned (c : Char) : Bool := isDigitChar c || c = '.' || c = '+'

theorem numeralAppend (unsigned : cs.all isUnsigned) (numeral : Numeral rest) : Numeral (cs ++ rest) := by
  induction cs with
  | nil => exact numeral
  | cons c cs ih =>
    simp only [all_cons,Bool.and_eq_true,isUnsigned,Bool.or_eq_true,decide_eq_true_eq,or_assoc] at unsigned
    have later := ih (by simpa [isUnsigned,or_assoc] using unsigned.2)
    intro word digits
    rw [cons_append,lex]
    rcases unsigned.1 with digit | point
    · obtain ⟨tokens,cut,inert⟩ := later (c :: word) (forall_mem_cons.mpr ⟨digit,digits⟩)
      have inWord : isWordChar c := by
        simp only [isDigitChar,Bool.or_eq_true,decide_eq_true_eq] at digit
        rcases digit with digit | rfl
        · simp [isWordChar,Char.isAlphanum,digit]
        · decide
      exact ⟨tokens,by simp [next,inWord,cut],inert⟩
    · obtain ⟨tokens,cut,inert⟩ := later [] (forall_mem_nil _)
      refine ⟨wordToken word ++ [.symbol c] ++ tokens,?_,?_⟩
      · rw [separatorNext (pointSeparates point) (show finish .code word = _ from rfl),cut]
        rfl
      · have symbol : (Token.symbol c).inert := by rcases point with rfl | rfl <;> decide
        simp [all_append,digitsInert digits,symbol,inert]

theorem nextEmpty (c : Char) : next .code [] c = start c := by
  cases word : isWordChar c with
  | true => simp [next,start,word]
  | false => simp [next,word,startAfter,wordToken]

theorem numeralDash (head : rest.head? ≠ some '-') (numeral : Numeral rest) : Numeral ('-' :: rest) := by
  intro word digits
  obtain ⟨tokens,cut,inert⟩ := numeral [] (forall_mem_nil _)
  have dash : next .code word '-' = (.dash, [], wordToken word) := by
    have other : isWordChar '-' = false := by decide
    have starts : start '-' = (.dash, [], []) := by decide
    simp [next,other,startAfter,starts]
  refine ⟨wordToken word ++ .symbol '-' :: tokens,?_,?_⟩
  · rw [lex,dash]
    cases rest with
    | nil =>
      cases Option.some.inj cut
      rfl
    | cons c rest =>
      have other : c ≠ '-' := by simpa using head
      rw [lex,nextEmpty] at cut
      obtain ⟨later,read,rfl⟩ := Option.map_eq_some_iff.mp cut
      simp [lex,next,other,startAfter,read]
  · have symbol : (Token.symbol '-').inert := by decide
    simp [all_append,digitsInert digits,symbol,inert]

theorem headUnsigned (unsigned : cs.all isUnsigned) (nonempty : cs ≠ []) : (cs ++ rest).head? ≠ some '-' := by
  cases cs with
  | nil => contradiction
  | cons c cs =>
    intro dash
    cases Option.some.inj dash
    exact absurd (all_cons ▸ unsigned) (by simp [show isUnsigned '-' = false by decide])

theorem numeralSigned (negative : Bool) (unsigned : cs.all isUnsigned) (nonempty : cs ≠ [])
    (numeral : Numeral rest) : Numeral ((if negative then "-" else "").toList ++ (cs ++ rest)) := by
  have later := numeralAppend unsigned numeral
  cases negative with
  | false => simpa using later
  | true => simpa using numeralDash (headUnsigned unsigned nonempty) later

theorem digitsUnsigned (n : Nat) : (toString n).toList.all isUnsigned := by
  simp only [Nat.toString_eq_ofList_toDigits,String.toList_ofList,all_eq_true]
  intro c mem
  simp [isUnsigned,isDigitChar,Nat.isDigit_of_mem_toDigits (by decide) (by decide) mem]

theorem partsUnsigned (n k : Nat) :
    ((toString n).toList.take k).all isUnsigned ∧ ((toString n).toList.drop k).all isUnsigned := by
  have digits := all_eq_true.mp (digitsUnsigned n)
  exact ⟨all_eq_true.mpr fun c mem => digits c (mem_of_mem_take mem),
    all_eq_true.mpr fun c mem => digits c (mem_of_mem_drop mem)⟩

theorem digitsSome (n : Nat) : (toString n).toList ≠ [] := by
  rw [Nat.toString_eq_ofList_toDigits,String.toList_ofList]
  exact Nat.toDigits_ne_nil

theorem numeralInt (i : Int) : Numeral (toString i).toList := by
  cases i with
  | ofNat n =>
    have text : toString (Int.ofNat n) = toString n := rfl
    rw [text]
    simpa only [append_nil] using numeralAppend (digitsUnsigned n) numeralNil
  | negSucc n =>
    have text : toString (Int.negSucc n) = "-" ++ toString (n + 1) := rfl
    rw [text,String.toList_append]
    simpa only [append_nil,if_true] using
      numeralSigned true (digitsUnsigned (n + 1)) (digitsSome (n + 1)) numeralNil

theorem positionalUnsigned (s : Shortest) :
    (Binary64.positional s ".0").toList.all isUnsigned ∧ (Binary64.positional s ".0").toList ≠ [] := by
  have digits := digitsUnsigned s.digits
  have parts := partsUnsigned s.digits
  have zeros (n : Nat) : (Binary64.zeros n).toList.all isUnsigned := by
    simp [Binary64.zeros,show isUnsigned '0' by decide]
  have point : ".0".toList.all isUnsigned ∧ ".".toList.all isUnsigned ∧ "0.".toList.all isUnsigned := by decide
  unfold Binary64.positional
  dsimp only
  split
  · simp only [String.toList_append,String.toList_ofList,all_append,digits,zeros,point]
    simp
  · split
    · simp only [String.toList_append,String.toList_ofList,all_append,parts,point]
      simp
    · simp only [String.toList_append,String.toList_ofList,all_append,digits,zeros,point]
      simp

theorem numeralScientific (negative : Bool) (s : Shortest) : let ds := (toString s.digits).toList
    let tail := if ds.length = 1 then "" else "." ++ String.ofList (ds.drop 1)
    let exponent := if s.exponent < 0 then toString s.exponent else "+" ++ toString s.exponent
    Numeral ((if negative then "-" else "") ++ String.ofList (ds.take 1) ++ tail ++ "e" ++ exponent).toList := by
  intro ds tail exponent
  have parts := partsUnsigned s.digits 1
  have mantissa : ((ds.take 1) ++ tail.toList ++ "e".toList).all isUnsigned := by
    have fraction : tail.toList.all isUnsigned := by
      unfold tail
      split
      · rfl
      · rw [String.toList_append,all_append,Bool.and_eq_true,(String.toList_ofList : _ = ds.drop 1)]
        exact ⟨by decide,parts.2⟩
    rw [all_append,all_append,Bool.and_eq_true,Bool.and_eq_true]
    exact ⟨⟨parts.1,fraction⟩,by decide⟩
  have power : Numeral exponent.toList := by
    unfold exponent
    split
    · exact numeralInt s.exponent
    · rw [String.toList_append]
      exact numeralAppend (by decide) (numeralInt s.exponent)
  simpa only [String.toList_append,String.toList_ofList,append_assoc] using
    numeralSigned negative mantissa (by simp) power

theorem legibleNumeral (numeral : Numeral cs) : Legible single cs := by
  obtain ⟨tokens,cut,inert⟩ := numeral [] (forall_mem_nil _)
  exact legibleWords cut inert

theorem legibleFloat (x : Binary64) : Legible single x.valueText.toList := by
  have null : Legible single "null".toList := legibleWords (show lex _ _ _ = some [.word "null"] by decide) (by decide)
  cases x with
  | finite negative m q =>
    refine legibleNumeral ?_
    unfold Binary64.valueText
    dsimp only
    split
    · rw [String.toList_append]
      have zero : "0.0".toList.all isUnsigned := by decide
      simpa only [append_nil] using numeralSigned negative zero (by decide) numeralNil
    · split
      · obtain ⟨unsigned,nonempty⟩ := positionalUnsigned (Shortest.of m q)
        rw [String.toList_append]
        simpa only [append_nil] using numeralSigned negative unsigned nonempty numeralNil
      · exact numeralScientific negative (Shortest.of m q)
  | infinity _ => exact null
  | nan => exact null

theorem commaJoins (first second : List Char) (left : Legible single first) (right : Legible single second) :
    Legible single (first ++ (",".toList ++ second)) :=
  legibleJoint ⟨⟨rfl,by decide⟩,rfl,inertAllBalanced (by decide)⟩ left right

/- A text stands for itself between quotes, in a call that names its type in one dialect. -/
structure ConstantRule (P : Value → String → Prop) : Prop where
  text : ∀ s, P (.str s) (quote s)
  call : ∀ s (datatype : Datatype), P (.str s) (datatype.keyword ++ "('" ++ escapeQuotes s ++ "')")
  int : ∀ i : Int, P (.int i) (toString i)
  float : ∀ x, P (.float x) x.valueText
  yes : P (.bool true) "TRUE"
  no : P (.bool false) "FALSE"
  null : P .null "NULL"
  list : ∀ items texts, Forall₂ P items texts → P (.list items) ("(" ++ ",".intercalate texts ++ ")")

variable {d : Dialect} {datatype : Option Datatype} {P : Value → String → Prop}

theorem textRuled (rule : ConstantRule P) (s : String) : P (.str s) (textConstant d datatype s) := by
  unfold textConstant
  split
  · rename_i datatype
    split
    · cases d with
      | bigQuery => exact rule.call s datatype
      | _ => exact rule.text s
    · exact rule.text s
  · exact rule.text s

mutual

theorem constantRuled (rule : ConstantRule P) (v : Value) {sql} (ok : constant d datatype v = .ok sql) :
    P v sql := by
  cases v with
  | str s =>
    rw [constant] at ok
    exact Except.ok.inj ok ▸ textRuled rule s
  | int i =>
    rw [constant] at ok
    exact Except.ok.inj ok ▸ rule.int i
  | float x =>
    rw [constant] at ok
    exact Except.ok.inj ok ▸ rule.float x
  | bool b =>
    cases b <;> rw [constant] at ok
    · exact Except.ok.inj ok ▸ rule.no
    · exact Except.ok.inj ok ▸ rule.yes
  | null =>
    rw [constant] at ok
    exact Except.ok.inj ok ▸ rule.null
  | list items =>
    rw [constant,exceptBind] at ok
    obtain ⟨texts,rendered,same⟩ := ok
    exact Except.ok.inj same ▸ rule.list items texts (constantsRuled rule items rendered)
  | object entries => simp [constant] at ok
  | mapping entries => simp [constant] at ok

theorem constantsRuled (rule : ConstantRule P) (items : List Value) {texts}
    (ok : constants d datatype items = .ok texts) : Forall₂ P items texts := by
  cases items with
  | nil =>
    rw [constants] at ok
    exact Except.ok.inj ok ▸ .nil
  | cons v rest =>
    rw [constants,exceptBind] at ok
    obtain ⟨first,rendered,ok⟩ := ok
    obtain ⟨others,later,same⟩ := exceptBind.mp ok
    exact Except.ok.inj same ▸ .cons (constantRuled rule v rendered) (constantsRuled rule rest later)

end

theorem legibleConstant (single : Prop) (v : Value) {sql} (ok : constant d datatype v = .ok sql) :
    Legible single sql.toList := by
  refine constantRuled (P := fun _ sql => ∀ single, Legible single sql.toList) ?_ v ok single
  refine ⟨fun s _ => legibleQuote s,fun s datatype single => ?_,fun i _ => legibleNumeral (numeralInt i),
    fun x _ => legibleFloat x,fun _ => legibleWords rfl (by decide),fun _ => legibleWords rfl (by decide),
    fun _ => legibleWords rfl (by decide),fun items texts each single => ?_⟩
  · have name : Legible single datatype.keyword.toList := by
      cases datatype <;> exact legibleWords rfl (by decide)
    simpa [quote] using legibleParen name (legibleQuote s)
  · have none : Legible single [] := legibleNil
    have inner : ∀ text ∈ texts, Legible False text.toList := fun text mem =>
      (forallMember each.flip mem).elim fun _ legible => legible.2 False
    simpa using legibleParen none (legibleIntercalate commaJoins inner)

end SemanticSql.Sql
