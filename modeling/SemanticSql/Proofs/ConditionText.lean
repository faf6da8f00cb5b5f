import Mathlib.Data.List.Forall2

/-! How SQL reads the text of a condition: parentheses group, and a negation binds tighter than a conjunction, which
binds tighter than a disjunction. -/
namespace SemanticSql.Sql

inductive Token where
  | word (s : String)
  | quoted (s : String)
  | symbol (c : Char)
  deriving DecidableEq, Repr

/- Where in a text a character stands; after one dash or slash the next character may start a comment. -/
inductive Mode where
  | code
  | quoted (quote : Char)
  | dash
  | line
  | slash
  | block
  | star
  deriving DecidableEq, Repr

def isWordChar (c : Char) : Bool := c.isAlphanum || c = '_' || 127 < c.toNat

def isQuote (c : Char) : Bool := c = '\'' || c = '"' || c = '\x60'

def wordToken (word : List Char) : List Token := if word.isEmpty then [] else [.word (String.ofList word.reverse)]

abbrev Lexed := Mode × List Char × List Token

def start (c : Char) : Lexed :=
  if isWordChar c then (.code, [c], [])
  else if isQuote c then (.quoted c, [], [])
  else if c = '-' then (.dash, [], [])
  else if c = '/' then (.slash, [], [])
  else if c.isWhitespace then (.code, [], [])
  else (.code, [], [.symbol c])

def startAfter (tokens : List Token) (c : Char) : Lexed := ((start c).1, (start c).2.1, tokens ++ (start c).2.2)

def next : Mode → List Char → Char → Lexed
  | .code, word, c => if isWordChar c then (.code, c :: word, []) else startAfter (wordToken word) c
  | .quoted quote, word, c =>
    if c = quote then (.code, [], [.quoted (String.ofList word.reverse)]) else (.quoted quote, c :: word, [])
  | .dash, _, c => if c = '-' then (.line, [], []) else startAfter [.symbol '-'] c
  | .slash, _, c => if c = '*' then (.block, [], []) else startAfter [.symbol '/'] c
  | .line, _, c => (if c = '\n' then .code else .line, [], [])
  | .block, _, c => (if c = '*' then .star else .block, [], [])
  | .star, _, c => (if c = '/' then .code else if c = '*' then .star else .block, [], [])

def finish : Mode → List Char → Option (List Token)
  | .code, word => some (wordToken word)
  | .dash, _ => some [.symbol '-']
  | .slash, _ => some [.symbol '/']
  | _, _ => none

def lex : Mode → List Char → List Char → Option (List Token)
  | mode, word, [] => finish mode word
  | mode, word, c :: rest =>
    (lex (next mode word c).1 (next mode word c).2.1 rest).map fun tokens => (next mode word c).2.2 ++ tokens

structure Separates (c : Char) (tokens : List Token) : Prop where
  starts : start c = (.code, [], tokens)
  plain : c ≠ '*'

theorem separatorNext {c out} (separates : Separates c out) {mode word tokens} (done : finish mode word = some tokens) :
    next mode word c = (.code, [], tokens ++ out) := by
  have after (tokens : List Token) : startAfter tokens c = (.code, [], tokens ++ out) := by
    rw [startAfter,separates.starts]
  have notWord : isWordChar c = false := by
    cases isWord : isWordChar c with
    | false => rfl
    | true => simpa [start,isWord] using separates.starts
  have notDash : c ≠ '-' := by
    rintro rfl
    have dash : (start '-').1 = .dash := by decide
    rw [separates.starts] at dash
    contradiction
  cases mode with
  | code =>
    cases Option.some.inj done
    simp [next,notWord,after]
  | dash =>
    cases Option.some.inj done
    simp [next,notDash,after]
  | slash =>
    cases Option.some.inj done
    simp [next,separates.plain,after]
  | _ => contradiction

theorem lexAppend {c out} (separates : Separates c out) {mode word first tokens} (rest : List Char)
    (done : lex mode word first = some tokens) :
    lex mode word (first ++ c :: rest) = (lex .code [] rest).map fun more => tokens ++ out ++ more := by
  induction first generalizing mode word tokens with
  | nil =>
    rw [lex] at done
    rw [List.nil_append,lex,separatorNext separates done]
  | cons d first ih =>
    rw [lex] at done
    obtain ⟨later,read,rfl⟩ := Option.map_eq_some_iff.mp done
    rw [List.cons_append,lex,ih read,Option.map_map]
    congr 1
    funext more
    simp

inductive Keyword where
  | and | or | not | between | other
  deriving DecidableEq, Repr

def lowered (s : String) : String := String.ofList (s.toList.map Char.toLower)

def Token.keyword : Token → Keyword
  | .word s =>
    if lowered s = "and" then .and
    else if lowered s = "or" then .or
    else if lowered s = "not" then .not
    else if lowered s = "between" then .between
    else .other
  | _ => .other

inductive Bracket where
  | clause | paren | cases
  deriving DecidableEq, Repr

def Token.opens? : Token → Option Bracket
  | .symbol c => if c = '(' then some .paren else none
  | .word s => if lowered s = "case" then some .cases else none
  | .quoted _ => none

def Token.closes? : Token → Option Bracket
  | .symbol c => if c = ')' then some .paren else none
  | .word s => if lowered s = "end" then some .cases else none
  | .quoted _ => none

inductive Condition where
  | atom (tokens : List Token)
  | negation (c : Condition)
  | group (alternatives : List (List Condition))
  deriving Repr

/- What has been read since a bracket was opened; lists of tokens start with the latest. -/
structure Frame where
  bracket : Bracket
  tokens : List Token := []
  /-- The tokens of the current condition. -/
  atom : List Token := []
  /-- The group that the current condition consists of so far. -/
  inner : Option Condition := none
  negated : Bool := false
  conjuncts : List Condition := []
  alternatives : List (List Condition) := []
  /-- A range still waits for its upper end. -/
  between : Bool := false

namespace Frame

def condition (f : Frame) : Condition :=
  let c := f.inner.getD (.atom f.atom.reverse)
  if f.negated then .negation c else c

def reading (f : Frame) : List (List Condition) := f.alternatives ++ [f.conjuncts ++ [f.condition]]

def push (f : Frame) (t : Token) : Frame := { f with tokens := t :: f.tokens, atom := t :: f.atom, inner := none }

/- A conjunction ends a condition and a disjunction ends an alternative; the conjunction of a range does neither. -/
def read (f : Frame) (t : Token) : Frame :=
  match t.keyword with
  | .and =>
    if f.between then { f.push t with between := false }
    else { bracket := f.bracket, tokens := t :: f.tokens, conjuncts := f.conjuncts ++ [f.condition],
           alternatives := f.alternatives }
  | .or => { bracket := f.bracket, tokens := t :: f.tokens, alternatives := f.reading }
  | .not => if f.atom.isEmpty then { f with tokens := t :: f.tokens, negated := !f.negated } else f.push t
  | .between => { f.push t with between := true }
  | .other => f.push t

def enclose (outer : Frame) (tokens : List Token) (group : Option Condition) : Frame :=
  { outer with
    tokens := tokens ++ outer.tokens
    atom := tokens ++ outer.atom
    inner := if outer.atom.isEmpty then group else none }

def group? (f : Frame) : Option Condition := if f.bracket = .paren then some (.group f.reading) else none

end Frame

/- The open brackets, the innermost first; none are left after a bracket that does not match. -/
def take (frames : List Frame) (t : Token) : List Frame :=
  match frames, t.opens?, t.closes? with
  | [], _, _ => []
  | f :: rest, some bracket, _ => { bracket, tokens := [t] } :: f :: rest
  | f :: rest, none, none => f.read t :: rest
  | [_], none, some _ => []
  | f :: outer :: rest, none, some bracket =>
    if f.bracket = bracket ∧ f.between = false then outer.enclose (t :: f.tokens) f.group? :: rest else []

def clause : Frame := { bracket := .clause }

def parse (tokens : List Token) : Option (List (List Condition)) :=
  match tokens.foldl take [clause] with
  | [f] => if f.between then none else some f.reading
  | _ => none

def read (text : String) : Option (List (List Condition)) := (lex .code [] text.toList).bind parse

theorem parseEnds {tokens alternatives} (read : parse tokens = some alternatives) :
    ∃ f, tokens.foldl take [clause] = [f] ∧ f.between = false ∧ f.reading = alternatives := by
  unfold parse at read
  split at read
  · rename_i f ends
    split at read
    · contradiction
    · rename_i closed
      exact ⟨f,ends,by simpa using closed,Option.some.inj read⟩
  · contradiction

theorem readEnds {text alternatives} (ok : read text = some alternatives) :
    ∃ tokens, lex .code [] text.toList = some tokens ∧ parse tokens = some alternatives :=
  Option.bind_eq_some_iff.mp ok

/- What two frames have in common is kept by reading the same tokens in both. -/
structure Tracks (R : Frame → Frame → Prop) : Prop where
  reads : ∀ f g t, R f g → R (f.read t) (g.read t)
  encloses : ∀ f g tokens c, R f g → R (f.enclose tokens c) (g.enclose tokens c)

/- The same brackets are open in two stacks, one of which goes on below. -/
inductive Alike (R : Frame → Frame → Prop) (below : List Frame) : List Frame → List Frame → Prop
  | bottom {f g} (related : R f g) : Alike R below [f] (g :: below)
  | inner {frames others} (k : Frame) (rest : Alike R below frames others) : Alike R below (k :: frames) (k :: others)

section
variable {R : Frame → Frame → Prop} {below frames others : List Frame}

theorem takeAlike (tracks : Tracks R) (alike : Alike R below frames others) (t : Token)
    (whole : take frames t ≠ []) : Alike R below (take frames t) (take others t) := by
  cases alike with
  | bottom related =>
    unfold take at whole ⊢
    cases opens : t.opens? with
    | some bracket => exact .inner _ (.bottom related)
    | none =>
      cases closes : t.closes? with
      | none => exact .bottom (tracks.reads _ _ t related)
      | some bracket => simp [opens,closes] at whole
  | inner k rest =>
    unfold take at whole ⊢
    cases opens : t.opens? with
    | some bracket => exact .inner _ (.inner k rest)
    | none =>
      cases closes : t.closes? with
      | none => exact .inner _ rest
      | some bracket =>
        -- The bracket below is the outermost one or one that both stacks share.
        cases rest with
        | bottom related =>
          simp only [opens,closes] at whole ⊢
          split
          · exact .bottom (tracks.encloses _ _ _ _ related)
          · simp_all
        | inner outer rest =>
          simp only [opens,closes] at whole ⊢
          split
          · exact .inner _ rest
          · simp_all

theorem brokenStays (tokens : List Token) : tokens.foldl take [] = [] := by
  induction tokens with
  | nil => rfl
  | cons t rest ih => exact ih

theorem foldAlike (tracks : Tracks R) (tokens : List Token) (alike : Alike R below frames others)
    (whole : tokens.foldl take frames ≠ []) : Alike R below (tokens.foldl take frames) (tokens.foldl take others) := by
  induction tokens generalizing frames others with
  | nil => exact alike
  | cons t rest ih =>
    rw [List.foldl_cons] at whole
    have standing : take frames t ≠ [] := fun broken => whole (by rw [broken,brokenStays])
    exact ih (takeAlike tracks alike t standing) whole

theorem foldBehind (tracks : Tracks R) {tokens alternatives} (read : parse tokens = some alternatives) {g}
    (related : R clause g) (below : List Frame) :
    ∃ f h, f.between = false ∧ f.reading = alternatives ∧ R f h ∧ tokens.foldl take (g :: below) = h :: below := by
  obtain ⟨f,ends,closed,same⟩ := parseEnds read
  have start : Alike R below [clause] (g :: below) := .bottom related
  have alike := foldAlike tracks tokens start (by simp [ends])
  rw [ends] at alike
  generalize run : tokens.foldl take (g :: below) = others at alike
  cases alike with
  | bottom related => exact ⟨f,_,closed,same,related,rfl⟩
  | inner k rest => nomatch rest

end

/- Behind the conditions `xs` and the alternatives `ys`: all of `xs` join the first alternative. -/
structure Follows (xs : List Condition) (ys : List (List Condition)) (f g : Frame) : Prop where
  atom : g.atom = f.atom
  inner : g.inner = f.inner
  negated : g.negated = f.negated
  between : g.between = f.between
  joined : (f.alternatives = [] ∧ g.alternatives = ys ∧ g.conjuncts = xs ++ f.conjuncts) ∨
    ∃ z zs, f.alternatives = z :: zs ∧ g.alternatives = ys ++ (xs ++ z) :: zs ∧ g.conjuncts = f.conjuncts

section
variable {xs : List Condition} {ys : List (List Condition)} {f g : Frame}

theorem followsCondition (follows : Follows xs ys f g) : g.condition = f.condition := by
  simp only [Frame.condition,follows.atom,follows.inner,follows.negated]

theorem followsReading (follows : Follows xs ys f g) :
    ∃ z zs, f.reading = z :: zs ∧ g.reading = ys ++ (xs ++ z) :: zs := by
  rcases follows.joined with ⟨empty,others,conjuncts⟩ | ⟨z,zs,listed,others,conjuncts⟩
  · refine ⟨f.conjuncts ++ [f.condition],[],?_,?_⟩
    · simp [Frame.reading,empty]
    · simp [Frame.reading,others,conjuncts,followsCondition follows]
  · refine ⟨z,zs ++ [f.conjuncts ++ [f.condition]],?_,?_⟩
    · simp [Frame.reading,listed]
    · simp [Frame.reading,others,conjuncts,followsCondition follows]

theorem readFollows (follows : Follows xs ys f g) (t : Token) : Follows xs ys (f.read t) (g.read t) := by
  have pushed : Follows xs ys (f.push t) (g.push t) :=
    { follows with atom := by simp [Frame.push,follows.atom], inner := rfl }
  unfold Frame.read
  cases t.keyword with
  | and =>
    simp only [follows.between]
    split
    · exact { pushed with between := rfl }
    · refine ⟨rfl,rfl,rfl,rfl,?_⟩
      rw [followsCondition follows]
      rcases follows.joined with ⟨empty,others,conjuncts⟩ | ⟨z,zs,listed,others,conjuncts⟩
      · exact .inl ⟨empty,others,by simp [conjuncts]⟩
      · exact .inr ⟨z,zs,listed,others,by simp [conjuncts]⟩
  | or =>
    obtain ⟨z,zs,here,there⟩ := followsReading follows
    exact ⟨rfl,rfl,rfl,rfl,.inr ⟨z,zs,here,there,rfl⟩⟩
  | not =>
    simp only [follows.atom]
    split
    · exact { follows with atom := rfl, negated := by simp [follows.negated] }
    · exact pushed
  | between => exact { pushed with between := rfl }
  | other => exact pushed

theorem followsTracks : Tracks (Follows xs ys) where
  reads _ _ t follows := readFollows follows t
  encloses f g tokens c follows :=
    { follows with
      atom := by simp [Frame.enclose,follows.atom]
      inner := by simp [Frame.enclose,follows.atom] }

end

def glue (first second : List (List Condition)) : List (List Condition) :=
  first.dropLast ++ (first.getLast?.getD [] ++ second.headD []) :: second.tail

def isAnd : Token := .word "AND"

theorem parseAnd {first second as bs} (left : parse first = some as) (right : parse second = some bs) :
    parse (first ++ isAnd :: second) = some (glue as bs) := by
  obtain ⟨f,ends,closed,rfl⟩ := parseEnds left
  have joint : take [f] isAnd = [f.read isAnd] := rfl
  have behind : Follows (f.conjuncts ++ [f.condition]) f.alternatives clause (f.read isAnd) := by
    have word : isAnd.keyword = .and := by decide
    simp only [Frame.read,word,closed]
    exact ⟨rfl,rfl,rfl,rfl,.inl ⟨rfl,rfl,by simp [clause]⟩⟩
  obtain ⟨g,h,finished,rfl,follows,run⟩ := foldBehind followsTracks right behind []
  obtain ⟨z,zs,here,there⟩ := followsReading follows
  have whole : (first ++ isAnd :: second).foldl take [clause] = [h] := by
    rw [List.foldl_append,ends,List.foldl_cons,joint,run]
  have glued : glue f.reading g.reading = h.reading := by
    rw [here,there,Frame.reading]
    simp [glue]
  simp [parse,whole,follows.between,finished,glued]

theorem blankSeparates : Separates ' ' [] := ⟨by decide,by decide⟩

theorem lexBlank {first second as bs} (left : lex .code [] first = some as) (right : lex .code [] second = some bs) :
    lex .code [] (first ++ ' ' :: second) = some (as ++ bs) := by
  rw [lexAppend blankSeparates _ left,right]
  simp

theorem lexAnd {first second as bs} (left : lex .code [] first = some as) (right : lex .code [] second = some bs) :
    lex .code [] (first ++ " AND ".toList ++ second) = some (as ++ isAnd :: bs) := by
  have word : lex .code [] "AND".toList = some [isAnd] := by decide
  simpa using lexBlank left (lexBlank word right)

theorem readAnd {first second as bs} (left : read first = some as) (right : read second = some bs) :
    read (first ++ " AND " ++ second) = some (glue as bs) := by
  obtain ⟨before,cutLeft,left⟩ := readEnds left
  obtain ⟨after,cutRight,right⟩ := readEnds right
  rw [read,String.toList_append,String.toList_append,lexAnd cutLeft cutRight]
  exact parseAnd left right

def joined : List (List (List Condition)) → List (List Condition)
  | [] => []
  | [as] => as
  | as :: bs :: rest => glue as (joined (bs :: rest))

theorem readJoined {texts readings} (each : List.Forall₂ (fun text as => read text = some as) texts readings)
    (nonempty : texts ≠ []) : read (" AND ".intercalate texts) = some (joined readings) := by
  induction each with
  | nil => contradiction
  | cons first rest ih =>
    cases rest with
    | nil => simpa [joined] using first
    | cons second rest =>
      rw [String.intercalate_cons_cons]
      exact readAnd first (ih (List.cons_ne_nil _ _))

def both : Option Bool → Option Bool → Option Bool
  | some true, b => b
  | some false, _ => some false
  | none, some false => some false
  | none, _ => none

def either : Option Bool → Option Bool → Option Bool
  | some false, b => b
  | some true, _ => some true
  | none, some true => some true
  | none, _ => none

mutual

def Condition.truth (row : List Token → Option Bool) : Condition → Option Bool
  | .atom tokens => row tokens
  | .negation c => (c.truth row).map not
  | .group alternatives => anyTruth row alternatives

def allTruth (row : List Token → Option Bool) : List Condition → Option Bool
  | [] => some true
  | c :: rest => both (c.truth row) (allTruth row rest)

def anyTruth (row : List Token → Option Bool) : List (List Condition) → Option Bool
  | [] => some false
  | cs :: rest => either (allTruth row cs) (anyTruth row rest)

end

theorem bothTrue {a b} : both a b = some true ↔ a = some true ∧ b = some true := by
  rcases a with _ | _ | _ <;> rcases b with _ | _ | _ <;> decide

theorem eitherTrue {a b} : either a b = some true ↔ a = some true ∨ b = some true := by
  rcases a with _ | _ | _ <;> rcases b with _ | _ | _ <;> decide

theorem allTrue {row cs} : allTruth row cs = some true ↔ ∀ c ∈ cs, c.truth row = some true := by
  induction cs with
  | nil => simp [allTruth]
  | cons c rest ih => simp [allTruth,bothTrue,ih]

theorem anyTrue {row alternatives} :
    anyTruth row alternatives = some true ↔ ∃ cs ∈ alternatives, ∀ c ∈ cs, c.truth row = some true := by
  induction alternatives with
  | nil => simp [anyTruth]
  | cons cs rest ih => simp [anyTruth,eitherTrue,ih,allTrue]

def Passes (row : List Token → Option Bool) (text : String) : Prop := (read text).bind (anyTruth row) = some true

instance (row : List Token → Option Bool) (text : String) : Decidable (Passes row text) :=
  inferInstanceAs (Decidable (_ = _))

def Reads (single : Prop) (text : String) : Prop := ∃ as, read text = some as ∧ (single → ∃ cs, as = [cs])

theorem readingsOf {single} {texts : List String} (each : ∀ text ∈ texts, Reads single text) :
    ∃ readings, List.Forall₂ (fun text as => read text = some as) texts readings := by
  choose! readings reads _ using each
  exact ⟨texts.map readings,List.forall₂_map_right_iff.mpr (List.forall₂_same.mpr reads)⟩

theorem singlePasses {row text cs} (reads : read text = some [cs]) :
    Passes row text ↔ ∀ c ∈ cs, c.truth row = some true := by
  simp [Passes,reads,anyTrue]

theorem joinedSingles {css : List (List Condition)} (nonempty : css ≠ []) :
    joined (css.map fun cs => [cs]) = [css.flatten] := by
  induction css with
  | nil => contradiction
  | cons cs rest ih =>
    cases rest with
    | nil => simp [joined]
    | cons ds rest =>
      have later := ih (List.cons_ne_nil _ _)
      simp only [List.map_cons] at later ⊢
      simp [joined,later,glue]

theorem joinedPasses {texts : List String} (single : ∀ text ∈ texts, Reads True text) (nonempty : texts ≠ []) (row) :
    Passes row (" AND ".intercalate texts) ↔ ∀ text ∈ texts, Passes row text := by
  have alone : ∀ text ∈ texts, ∃ cs, read text = some [cs] := fun text mem => by
    obtain ⟨_,reads,one⟩ := single text mem
    obtain ⟨cs,rfl⟩ := one trivial
    exact ⟨cs,reads⟩
  choose! conditions reads using alone
  have each : List.Forall₂ (fun text as => read text = some as) texts ((texts.map conditions).map fun cs => [cs]) := by
    rw [List.map_map,List.forall₂_map_right_iff]
    exact List.forall₂_same.mpr reads
  have whole := readJoined each nonempty
  rw [joinedSingles (by simpa using nonempty)] at whole
  rw [singlePasses whole]
  simp only [List.mem_flatten,List.mem_map]
  constructor
  · intro all text mem
    exact (singlePasses (reads text mem)).mpr fun c inside => all c ⟨_,⟨text,mem,rfl⟩,inside⟩
  · rintro all c ⟨_,⟨text,mem,rfl⟩,inside⟩
    exact (singlePasses (reads text mem)).mp (all text mem) c inside

end SemanticSql.Sql
