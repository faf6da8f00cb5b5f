import SemanticSql.Proofs.LegibleText

/-! Constants between single quotes, as SQL finds them in a text: inside of a constant a quote that is written twice
stands for one, and any other quote ends it. -/
namespace SemanticSql.Sql

open List

/- Behind a quote in a constant the next character decides whether the constant has ended. -/
inductive Scan where
  | outside
  | inside (word : List Char)
  | closing (word : List Char)
  deriving DecidableEq, Repr

namespace Scan

def next : Scan → Char → Scan × List String
  | outside, c => (if c = '\'' then inside [] else outside, [])
  | inside word, c => (if c = '\'' then closing word else inside (c :: word), [])
  | closing word, c => if c = '\'' then (inside (c :: word), []) else (outside, [String.ofList word.reverse])

def finish : Scan → Option (List String)
  | outside => some []
  | inside _ => none
  | closing word => some [String.ofList word.reverse]

def run : Scan → List Char → Option (List String)
  | s, [] => s.finish
  | s, c :: rest => ((s.next c).1.run rest).map fun more => (s.next c).2 ++ more

end Scan

def quotedTexts? (text : String) : Option (List String) := Scan.outside.run text.toList

def QuotesClosed (text : String) : Prop := (quotedTexts? text).isSome

instance (text : String) : Decidable (QuotesClosed text) := inferInstanceAs (Decidable (_ = true))

def Quotes (cs : List Char) (texts : List String) : Prop := Scan.outside.run cs = some texts

theorem quotesOf {text : String} {texts} (quotes : Quotes text.toList texts) : quotedTexts? text = some texts := quotes

def Unquoted (cs : List Char) : Prop := '\'' ∉ cs

instance (cs : List Char) : Decidable (Unquoted cs) := inferInstanceAs (Decidable (¬ _))

/- A scan that could end before a character that is no quote starts anew behind it. -/
theorem nextDone {s : Scan} {c : Char} {texts} (plain : c ≠ '\'') (done : s.finish = some texts) :
    s.next c = (.outside, texts) := by
  cases s with
  | outside =>
    cases Option.some.inj done
    simp [Scan.next,plain]
  | inside word => contradiction
  | closing word =>
    cases Option.some.inj done
    simp [Scan.next,plain]

theorem runAppend {s : Scan} {first : List Char} {c : Char} {texts} (plain : c ≠ '\'') (done : s.run first = some texts)
    (rest : List Char) : s.run (first ++ c :: rest) = (Scan.outside.run rest).map fun more => texts ++ more := by
  induction first generalizing s texts with
  | nil =>
    rw [Scan.run] at done
    rw [nil_append,Scan.run,nextDone plain done]
  | cons d first ih =>
    rw [Scan.run] at done
    obtain ⟨later,read,rfl⟩ := Option.map_eq_some_iff.mp done
    rw [cons_append,Scan.run,ih read,Option.map_map]
    congr 1
    funext more
    simp

theorem quotesUnquoted {cs : List Char} (plain : Unquoted cs) : Quotes cs [] := by
  induction cs with
  | nil => rfl
  | cons c rest ih =>
    obtain ⟨other,plain⟩ := not_or.mp (mem_cons.not.mp plain)
    rw [Quotes,Scan.run,nextDone (Ne.symm other) rfl,ih plain]
    rfl

section
variable {first second joint : List Char} {left right : List String}

theorem quotesAppend (before : Quotes first left) (after : Quotes second right) (apart : second.head? ≠ some '\'') :
    Quotes (first ++ second) (left ++ right) := by
  cases second with
  | nil =>
    cases Option.some.inj after
    simpa using before
  | cons c rest =>
    have plain : c ≠ '\'' := fun quote => apart (congrArg some quote)
    rw [Quotes,Scan.run,nextDone plain rfl] at after
    obtain ⟨texts,read,rfl⟩ := Option.map_eq_some_iff.mp after
    rw [Quotes,runAppend plain before,read]
    rfl

theorem quotesBehind (plain : Unquoted first) (after : Quotes second right) : Quotes (first ++ second) right := by
  induction first with
  | nil => exact after
  | cons c rest ih =>
    obtain ⟨other,plain⟩ := not_or.mp (mem_cons.not.mp plain)
    rw [Quotes,cons_append,Scan.run,nextDone (Ne.symm other) rfl,ih plain]
    rfl

theorem headUnquoted (plain : Unquoted joint) (some : joint ≠ []) (rest : List Char) :
    (joint ++ rest).head? ≠ .some '\'' := by
  cases joint with
  | nil => contradiction
  | cons c joint =>
    intro quote
    cases Option.some.inj quote
    exact plain mem_cons_self

theorem quotesJoint (before : Quotes first left) (plain : Unquoted joint) (some : joint ≠ [])
    (after : Quotes second right) : Quotes (first ++ (joint ++ second)) (left ++ right) :=
  quotesAppend before (quotesBehind plain after) (headUnquoted plain some second)

theorem quotesBefore (before : Quotes first left) (plain : Unquoted joint) : Quotes (first ++ joint) left := by
  cases joint with
  | nil => simpa using before
  | cons c joint => simpa using quotesJoint before plain (cons_ne_nil c joint) (show Quotes [] [] from rfl)

end

theorem quotesJoined {first joint second : String} {left right} (before : Quotes first.toList left)
    (plain : Unquoted joint.toList) (some : joint.toList ≠ []) (after : Quotes second.toList right) :
    Quotes (first ++ joint ++ second).toList (left ++ right) := by
  rw [String.toList_append,String.toList_append,append_assoc]
  exact quotesJoint before plain some after

theorem quotesEnclosed {opening text closing : String} {texts} (before : Unquoted opening.toList)
    (inner : Quotes text.toList texts) (after : Unquoted closing.toList) :
    Quotes (opening ++ text ++ closing).toList texts := by
  rw [String.toList_append,String.toList_append]
  exact quotesBefore (quotesBehind before inner) after

theorem quotesIntercalate {joint : String} (plain : Unquoted joint.toList) (some : joint.toList ≠ [])
    {texts : List String} {pieces} (each : List.Forall₂ (fun text piece => Quotes text.toList piece) texts pieces) :
    Quotes (joint.intercalate texts).toList pieces.flatten := by
  induction each with
  | nil => rfl
  | cons first rest ih =>
    cases rest with
    | nil => simpa using first
    | cons second rest =>
      rw [String.intercalate_cons_cons]
      exact quotesJoined first plain some ih

/- Doubling the quotes of a text is undone by the scan, and only the quote behind it ends the constant. -/
theorem runEscaped (word cs : List Char) :
    (Scan.inside word).run (Text.replaceList '\'' ['\'','\''] cs ++ ['\'']) =
      some [String.ofList (word.reverse ++ cs)] := by
  induction cs generalizing word with
  | nil => simp [Text.replaceList,Scan.run,Scan.next,Scan.finish]
  | cons c rest ih =>
    have later := ih (c :: word)
    by_cases quote : c = '\''
    · subst quote
      simpa [Text.replaceList,Scan.run,Scan.next] using later
    · simpa [Text.replaceList,Scan.run,Scan.next,quote] using later

theorem quotesQuote (s : String) : Quotes (quote s).toList [s] := by
  have quoted : (quote s).toList = '\'' :: (Text.replaceList '\'' ['\'','\''] s.toList ++ ['\'']) := by
    simp [quote,escapeQuotes,Text.replace]
  rw [Quotes,quoted,Scan.run]
  simp [Scan.next,runEscaped]

def isNumeric (c : Char) : Bool := isUnsigned c || c = '-'

theorem unquotedNumeric {cs : List Char} (numeric : cs.all isNumeric) : Unquoted cs := fun mem =>
  absurd (all_eq_true.mp numeric _ mem) (by decide)

theorem numericUnsigned {cs : List Char} (unsigned : cs.all isUnsigned) : cs.all isNumeric := by
  simp only [all_eq_true] at unsigned ⊢
  intro c mem
  simp [isNumeric,unsigned c mem]

theorem numericSign (negative : Bool) : (if negative then "-" else "").toList.all isNumeric := by
  cases negative <;> decide

theorem numericInt (i : Int) : (toString i).toList.all isNumeric := by
  cases i with
  | ofNat n => exact numericUnsigned (digitsUnsigned n)
  | negSucc n =>
    have text : toString (Int.negSucc n) = "-" ++ toString (n + 1) := rfl
    rw [text,String.toList_append,all_append,numericUnsigned (digitsUnsigned (n + 1))]
    decide

theorem numericFinite (negative : Bool) (m : Nat) (q : Int) :
    (Binary64.finite negative m q).valueText.toList.all isNumeric := by
  unfold Binary64.valueText
  dsimp only
  split
  · rw [String.toList_append,all_append,numericSign]
    decide
  · split
    · rw [String.toList_append,all_append,numericSign,numericUnsigned (positionalUnsigned _).1]
      rfl
    · have parts := partsUnsigned (Shortest.of m q).digits 1
      have fraction : (if (toString (Shortest.of m q).digits).toList.length = 1 then ""
          else "." ++ String.ofList ((toString (Shortest.of m q).digits).toList.drop 1)).toList.all isNumeric := by
        split
        · rfl
        · simp only [String.toList_append,String.toList_ofList,all_append,numericUnsigned parts.2]
          decide
      have power : (if (Shortest.of m q).exponent < 0 then toString (Shortest.of m q).exponent
          else "+" ++ toString (Shortest.of m q).exponent).toList.all isNumeric := by
        split
        · exact numericInt _
        · rw [String.toList_append,all_append,numericInt]
          decide
      simp only [String.toList_append,String.toList_ofList,all_append,numericSign,numericUnsigned parts.1,
        fraction,power]
      decide

theorem unquotedFloat (x : Binary64) : Unquoted x.valueText.toList := by
  cases x with
  | finite negative m q => exact unquotedNumeric (numericFinite negative m q)
  | infinity _ => exact (by decide : Unquoted "null".toList)
  | nan => exact (by decide : Unquoted "null".toList)

end SemanticSql.Sql

namespace SemanticSql

mutual

def Value.texts : Value → List String
  | .str s => [s]
  | .list items => Value.textsOf items
  | _ => []

def Value.textsOf : List Value → List String
  | [] => []
  | v :: rest => v.texts ++ Value.textsOf rest

end

namespace Sql

theorem quotesConstant {d datatype} (v : Value) {sql} (ok : constant d datatype v = .ok sql) :
    Quotes sql.toList v.texts := by
  refine constantRuled (P := fun v sql => Quotes sql.toList v.texts) ⟨quotesQuote,fun s datatype => ?_,
    fun i => quotesUnquoted (unquotedNumeric (numericInt i)),fun x => quotesUnquoted (unquotedFloat x),
    quotesUnquoted (by decide),quotesUnquoted (by decide),quotesUnquoted (by decide),fun items texts each => ?_⟩ v ok
  · have name : Unquoted (datatype.keyword ++ "(").toList := by cases datatype <;> decide
    simpa [quote,Value.texts] using quotesEnclosed name (quotesQuote s) (show Unquoted ")".toList by decide)
  · have whole : Value.textsOf items = (items.map Value.texts).flatten := by
      clear each
      induction items with
      | nil => rfl
      | cons v rest ih => rw [Value.textsOf,ih,List.map_cons,List.flatten_cons]
    rw [Value.texts,whole]
    refine quotesEnclosed (by decide) (quotesIntercalate (by decide) (by decide) ?_) (by decide)
    exact List.forall₂_map_right_iff.mpr each.flip

end Sql

end SemanticSql
