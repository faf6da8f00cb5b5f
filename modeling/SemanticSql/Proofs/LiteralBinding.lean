import Mathlib.Data.List.Forall2
import SemanticSql.Filter.Binding
import SemanticSql.Proofs.ClosedReferences
import SemanticSql.Proofs.CompileRuns

/-! Filters given as text. The text is cut into quoted pieces, tokens and single characters in one way only. -/
namespace SemanticSql.Filter

open List Reference Text

section Tokens

/- A letter or an underscore, and after it letters, digits and underscores. -/
def Name (cs : List Char) : Prop := (∃ c ∈ cs.head?, isNameStart c) ∧ ∀ c ∈ cs, isNameChar c

def Stops (rest : List Char) : Prop := ∀ c ∈ rest.head?, isNameChar c = false

def Undotted (rest : List Char) : Prop := ∀ more, rest = '.' :: more → ∀ c ∈ more.head?, isNameStart c = false

/- A token at the front of a text, with the rest of the text. -/
inductive Taken : List Char → List Char → Prop
  | reference {body rest} (some : body ≠ []) (ends : '\x7d' ∉ body) (unquoted : '\'' ∉ body) :
    Taken (Reference.token body) rest
  | bare {name rest} (is : Name name) (stops : Stops rest) (alone : Undotted rest) : Taken name rest
  | qualified {view name rest} (owner : Name view) (is : Name name) (stops : Stops rest) :
    Taken (view ++ '.' :: name) rest

theorem startChar {c : Char} (starts : isNameStart c) : isNameChar c := by
  simp only [isNameStart,isNameChar,Char.isAlphanum,Bool.or_eq_true] at starts ⊢
  exact starts.imp_left .inl

variable {rest name cs : List Char} {n : Nat}

theorem nameMeasured (is : Name name) (stops : Stops rest) : nameLength? (name ++ rest) = some name.length := by
  obtain ⟨⟨c,first,starts⟩,chars⟩ := is
  obtain ⟨more,rfl⟩ := head?_eq_some_iff.mp first
  have taken := (span_append (forall_mem_cons.mp chars).2 stops).1
  rw [cons_append,nameLength?,if_pos starts,taken,length_cons]

theorem nameFound (found : nameLength? cs = some n) :
    ∃ name rest, cs = name ++ rest ∧ Name name ∧ Stops rest ∧ n = name.length := by
  cases cs with
  | nil => cases found
  | cons c cs =>
    rw [nameLength?] at found
    split at found
    · rename_i starts
      obtain ⟨more,rest,rfl,chars,stops⟩ := exists_span isNameChar cs
      rw [(span_append chars stops).1] at found
      cases found
      exact ⟨c :: more,rest,rfl,⟨⟨c,rfl,starts⟩,forall_mem_cons.mpr ⟨startChar starts,chars⟩⟩,stops,rfl⟩
    · cases found

theorem nameUnread : nameLength? cs = none ↔ ∀ c ∈ cs.head?, isNameStart c = false := by
  cases cs with
  | nil => simp [nameLength?]
  | cons c cs => simp [nameLength?]

theorem referenceFound (found : length? cs = some n) :
    ∃ body rest, cs = token body ++ rest ∧ body ≠ [] ∧ '\x7d' ∉ body ∧ n = (token body).length := by
  unfold length? at found
  split at found
  · rename_i cs
    obtain ⟨body,rest,rfl,others,stops⟩ := exists_span (· != '\x7d') cs
    simp only [(span_append others stops).1,Bool.or_eq_true,List.isEmpty_iff,decide_eq_true_eq] at found
    split at found
    · cases found
    · rename_i shut
      obtain ⟨some,closed⟩ := not_or.mp shut
      cases found
      cases rest with
      | nil => simp at closed
      | cons c more =>
        have last : c = '\x7d' := by simpa using stops c rfl
        refine ⟨body,more,?_,some,fun mem => absurd (others _ mem) (by decide),?_⟩
        · simp [token,last]
        · simp [token]
  · cases found

theorem nameUnreferenced (is : Name name) : length? (name ++ rest) = none := by
  obtain ⟨⟨c,first,starts⟩,-⟩ := is
  obtain ⟨more,rfl⟩ := head?_eq_some_iff.mp first
  refine lengthOpens _ fun opens => ?_
  rw [cons_append,cons_prefix_cons] at opens
  rw [← opens.1] at starts
  exact absurd starts (by decide)

theorem bareMeasured (is : Name name) (stops : Stops rest) (alone : Undotted rest) :
    qualifiedLength? (name ++ rest) = some name.length := by
  simp only [qualifiedLength?,nameMeasured is stops,Option.bind_eq_bind,Option.bind_some,drop_left]
  split
  · rename_i more
    rw [nameUnread.mpr (alone more rfl)]
    rfl
  · rfl

theorem qualifiedMeasured {view : List Char} (owner : Name view) (is : Name name) (stops : Stops rest) :
    qualifiedLength? (view ++ '.' :: name ++ rest) = some (view ++ '.' :: name).length := by
  have dotStops : Stops ('.' :: (name ++ rest)) := by
    rintro c mem
    cases mem
    decide
  rw [append_assoc,cons_append]
  simp only [qualifiedLength?,nameMeasured owner dotStops,nameMeasured is stops,Option.bind_eq_bind,
    Option.bind_some,drop_left]
  simp +arith

/- The finder measures exactly the tokens. The text that it searches ends before the next quote. -/
theorem takenMeasured {token : List Char} (taken : Taken token rest) :
    tokenLength? (token ++ rest) = some token.length := by
  rw [tokenLength?,Option.orElse_eq_orElse,Option.orElse_eq_or]
  cases taken with
  | reference some ends _ => rw [lengthToken ends,if_neg some,Option.some_or]
  | bare is stops alone =>
    rw [nameUnreferenced is,Option.none_or,bareMeasured is stops alone]
  | qualified owner is stops =>
    rw [append_assoc,nameUnreferenced owner,Option.none_or,← append_assoc,
      qualifiedMeasured owner is stops]

theorem takenFound (unquoted : '\'' ∉ cs) (found : tokenLength? cs = some n) :
    ∃ token rest, cs = token ++ rest ∧ Taken token rest := by
  rw [tokenLength?,Option.orElse_eq_orElse,Option.orElse_eq_or,Option.or_eq_some_iff] at found
  rcases found with found | ⟨-,found⟩
  · obtain ⟨body,rest,rfl,some,ends,-⟩ := referenceFound found
    refine ⟨_,rest,rfl,.reference some ends fun mem => unquoted ?_⟩
    simp [token,mem]
  · obtain ⟨_,first,found⟩ := Option.bind_eq_some_iff.mp found
    obtain ⟨name,rest,rfl,is,stops,rfl⟩ := nameFound first
    rw [drop_left] at found
    by_cases dotted : ∃ more m, rest = '.' :: more ∧ nameLength? more = some m
    · obtain ⟨_,_,rfl,second⟩ := dotted
      obtain ⟨column,rest,rfl,is',stops',rfl⟩ := nameFound second
      exact ⟨name ++ '.' :: column,rest,by simp,.qualified is is' stops'⟩
    · refine ⟨name,rest,rfl,.bare is stops fun more dot => nameUnread.mp ?_⟩
      refine Option.eq_none_iff_forall_ne_some.mpr fun m read => dotted ⟨more,m,dot,read⟩

end Tokens

section Pieces

inductive Piece where
  | quoted (cs : List Char)
  | token (cs : List Char)
  | other (c : Char)
  deriving DecidableEq, Repr

def Piece.chars : Piece → List Char
  | quoted cs | token cs => cs
  | other c => [c]

/- A quote that is not closed reaches to the end, and a character is a piece if no token starts with it. -/
inductive Cut : List Char → List Piece → Prop
  | done : Cut [] []
  | quoted {body rest pieces} (plain : '\'' ∉ body) (later : Cut rest pieces) :
    Cut ('\'' :: (body ++ '\'' :: rest)) (.quoted ('\'' :: (body ++ ['\''])) :: pieces)
  | unclosed {body} (plain : '\'' ∉ body) : Cut ('\'' :: body) [.quoted ('\'' :: body)]
  | token {token rest pieces} (taken : Taken token rest) (later : Cut rest pieces) :
    Cut (token ++ rest) (.token token :: pieces)
  | other {c rest pieces} (unquoted : c ≠ '\'') (missed : ∀ token left, c :: rest = token ++ left → ¬ Taken token left)
    (later : Cut rest pieces) : Cut (c :: rest) (.other c :: pieces)

variable {rest run token cs : List Char}

theorem cutChars {pieces} (cut : Cut cs pieces) : pieces.flatMap Piece.chars = cs := by
  induction cut with
  | done => rfl
  | quoted _ _ ih => simp [Piece.chars,ih]
  | unclosed _ => simp [Piece.chars]
  | token _ _ ih => simp [Piece.chars,ih]
  | other _ _ _ ih => simp [Piece.chars,ih]

def chunkPieces : Chunk → List Piece
  | .plain cs => cs.map .other
  | .token cs => [.token cs]

def runPieces : Run → List Piece
  | .quoted cs => [.quoted cs]
  | .plain cs => (chunks tokenLength? cs).flatMap chunkPieces

def pieces (cs : List Char) : List Piece := (runs cs).flatMap runPieces

theorem piecesGather : Gathers (fun chunks => chunks.flatMap chunkPieces) (fun cs ps => cs.map .other ++ ps) where
  plain _ _ := rfl
  nothing _ := rfl
  append _ _ _ := by rw [map_append,append_assoc]

def Quotes (rest : List Char) : Prop := ∀ c ∈ rest.head?, c = '\''

theorem quoteSplit (cs : List Char) : ∃ run rest, cs = run ++ rest ∧ '\'' ∉ run ∧ Quotes rest := by
  obtain ⟨run,rest,same,others,stops⟩ := exists_span (· != '\'') cs
  exact ⟨run,rest,same,fun mem => absurd (others _ mem) (by decide),fun c mem => by simpa using stops c mem⟩

theorem runsPast {inside : Bool} {acc : List Char} (unquoted : '\'' ∉ run) :
    runsFrom inside acc (run ++ rest) = runsFrom inside (run.reverse ++ acc) rest := by
  induction run generalizing acc with
  | nil => rfl
  | cons c run ih =>
    obtain ⟨first,later⟩ := not_or.mp (mt mem_cons.mpr unquoted)
    rw [cons_append,runsFrom,if_neg (Ne.symm first),ih later,reverse_cons,append_assoc]
    rfl

theorem runsPlain (unquoted : '\'' ∉ run) (quotes : Quotes rest) :
    runs (run ++ rest) = (if run.isEmpty then [] else [Run.plain run]) ++ runs rest := by
  rw [runs,runsPast unquoted,append_nil,runs]
  cases rest with
  | nil => simp [runsFrom]
  | cons c rest =>
    cases quotes c rfl
    simp [runsFrom]

theorem piecesPlain (unquoted : '\'' ∉ run) (quotes : Quotes rest) :
    pieces (run ++ rest) = (chunks tokenLength? run).flatMap chunkPieces ++ pieces rest := by
  rw [pieces,runsPlain unquoted quotes,flatMap_append]
  cases run with
  | nil => rfl
  | cons c run => simp [runPieces,pieces]

/- A quote stops a name, so a token is a token whether the text goes on after the next quote or not. -/
theorem headQuotes {p : Char → Bool} (plain : p '\'' = false) (quotes : Quotes rest) :
    (∀ c ∈ (run ++ rest).head?, p c = false) ↔ ∀ c ∈ run.head?, p c = false := by
  cases run with
  | nil =>
    refine iff_of_true (fun c mem => ?_) (by simp)
    rw [quotes c mem,plain]
  | cons c run => rfl

theorem undottedQuotes (quotes : Quotes rest) : Undotted (run ++ rest) ↔ Undotted run := by
  cases run with
  | nil =>
    refine iff_of_true (fun more dot => ?_) (by simp [Undotted])
    cases quotes '.' (by rw [nil_append] at dot; rw [dot]; rfl)
  | cons c run =>
    simp only [Undotted,cons_append,List.cons.injEq,and_imp]
    constructor
    · rintro alone more dot rfl
      exact (headQuotes (by decide) quotes).mp (alone _ dot rfl)
    · rintro alone more dot rfl
      exact (headQuotes (by decide) quotes).mpr (alone _ dot rfl)

theorem takenQuotes (quotes : Quotes rest) : Taken token (run ++ rest) ↔ Taken token run := by
  have stopping : Stops (run ++ rest) ↔ Stops run := headQuotes (by decide) quotes
  have undotted : Undotted (run ++ rest) ↔ Undotted run := undottedQuotes quotes
  constructor
  · rintro (⟨some,ends,unquoted⟩ | ⟨is,stops,alone⟩ | ⟨owner,is,stops⟩)
    · exact .reference some ends unquoted
    · exact .bare is (stopping.mp stops) (undotted.mp alone)
    · exact .qualified owner is (stopping.mp stops)
  · rintro (⟨some,ends,unquoted⟩ | ⟨is,stops,alone⟩ | ⟨owner,is,stops⟩)
    · exact .reference some ends unquoted
    · exact .bare is (stopping.mpr stops) (undotted.mpr alone)
    · exact .qualified owner is (stopping.mpr stops)

theorem nameUnquoted {name : List Char} (is : Name name) : '\'' ∉ name :=
  fun mem => absurd (is.2 _ mem) (by decide)

theorem takenUnquoted (taken : Taken token rest) : '\'' ∉ token := by
  cases taken with
  | reference _ _ unquoted => simp [token,unquoted]
  | bare is _ _ => exact nameUnquoted is
  | qualified owner is _ => simp [nameUnquoted owner,nameUnquoted is]

theorem takenSome (taken : Taken token rest) : token ≠ [] := by
  cases taken with
  | reference _ _ _ => exact tokenSome _
  | bare is _ _ =>
    rintro rfl
    obtain ⟨⟨_,first,-⟩,-⟩ := is
    cases first
  | qualified _ _ _ => simp

theorem piecesToken (taken : Taken token rest) : pieces (token ++ rest) = .token token :: pieces rest := by
  -- The finder sees the text up to the next quote only.
  obtain ⟨run,rest,rfl,unquoted,quotes⟩ := quoteSplit rest
  have within := (takenQuotes quotes).mp taken
  have plain : '\'' ∉ token ++ run := by simp [takenUnquoted taken,unquoted]
  rw [← append_assoc,piecesPlain plain quotes,piecesPlain unquoted quotes,
    tokenTaken (takenSome taken) (takenMeasured within)]
  rfl

theorem piecesOther {c : Char} (seen : c ≠ '\'')
    (missed : ∀ token left, c :: rest = token ++ left → ¬ Taken token left) :
    pieces (c :: rest) = .other c :: pieces rest := by
  obtain ⟨run,rest,rfl,unquoted,quotes⟩ := quoteSplit rest
  have plain : '\'' ∉ c :: run := by simp [Ne.symm seen,unquoted]
  have unread : tokenLength? (c :: run) = none := by
    refine Option.eq_none_iff_forall_ne_some.mpr fun n found => ?_
    obtain ⟨token,left,same,taken⟩ := takenFound plain found
    refine missed token (left ++ rest) ?_ ((takenQuotes quotes).mpr taken)
    rw [← append_assoc,← same,cons_append]
  rw [← cons_append,piecesPlain plain quotes,piecesPlain unquoted quotes,charPassed piecesGather unread]
  rfl

theorem piecesQuoted {body : List Char} (plain : '\'' ∉ body) :
    pieces ('\'' :: (body ++ '\'' :: rest)) = .quoted ('\'' :: (body ++ ['\''])) :: pieces rest := by
  rw [pieces,runs,runsFrom,if_pos rfl,if_neg Bool.false_ne_true,runsPast plain,runsFrom,if_pos rfl,if_pos rfl]
  simp [runPieces,pieces,runs]

theorem piecesUnclosed {body : List Char} (plain : '\'' ∉ body) : pieces ('\'' :: body) = [.quoted ('\'' :: body)] := by
  have past : runsFrom true ['\''] (body ++ []) = _ := runsPast plain
  rw [append_nil] at past
  rw [pieces,runs,runsFrom,if_pos rfl,if_neg Bool.false_ne_true,past,runsFrom]
  simp [runPieces]

theorem cutPieces {ps} (cut : Cut cs ps) : ps = pieces cs := by
  induction cut with
  | done => rfl
  | quoted plain _ ih => rw [ih,piecesQuoted plain]
  | unclosed plain => rw [piecesUnclosed plain]
  | token taken _ ih => rw [ih,piecesToken taken]
  | other unquoted missed _ ih => rw [ih,piecesOther unquoted missed]

theorem piecesCut (cs : List Char) : Cut cs (pieces cs) := by
  induction size : cs.length using Nat.strong_induction_on generalizing cs with
  | _ n ih =>
    have shorter : ∀ rest : List Char, rest.length < n → Cut rest (pieces rest) := fun rest less => ih _ less rest rfl
    cases cs with
    | nil => exact .done
    | cons c rest =>
      rw [length_cons] at size
      by_cases quote : c = '\''
      · subst quote
        obtain ⟨body,more,rfl,plain,quotes⟩ := quoteSplit rest
        cases more with
        | nil =>
          rw [append_nil,piecesUnclosed plain]
          exact .unclosed plain
        | cons d more =>
          cases quotes d rfl
          rw [piecesQuoted plain]
          refine .quoted plain (shorter more ?_)
          simp only [length_append,length_cons] at size
          omega
      · by_cases first : ∃ token left, c :: rest = token ++ left ∧ Taken token left
        · obtain ⟨token,left,same,taken⟩ := first
          rw [same,piecesToken taken]
          refine .token taken (shorter left ?_)
          have lengths := congrArg List.length same
          have some := length_pos_iff.mpr (takenSome taken)
          rw [length_cons,length_append] at lengths
          omega
        -- No token starts here, so the character stands for itself.
        · have missed : ∀ token left, c :: rest = token ++ left → ¬ Taken token left :=
            fun token left same taken => first ⟨token,left,same,taken⟩
          rw [piecesOther quote missed]
          exact .other quote missed (shorter rest (by omega))

example : pieces "a.b>$\x7b c \x7d 'd' 'e".toList = [.token "a.b".toList,.other '>',.token "$\x7b c \x7d".toList,
    .other ' ',.quoted "'d'".toList,.other ' ',.quoted "'e".toList] := by
  decide

def Tokened (ps : List Piece) : Prop := ∀ token, .token token ∈ ps → ∃ rest, Taken token rest

theorem piecesTaken {ps} (cut : Cut cs ps) : Tokened ps := by
  induction cut with
  | done => simp [Tokened]
  | quoted _ _ ih => simpa [Tokened] using ih
  | unclosed _ => simp [Tokened]
  | token taken _ ih =>
    intro token mem
    rcases mem_cons.mp mem with same | later
    · cases same
      exact ⟨_,taken⟩
    · exact ih token later
  | other _ _ _ ih => simpa [Tokened] using ih

end Pieces

section Outcomes
variable {p : Project}

def Explicit (token : List Char) : Prop := token.head? = some '$'

def tokenName (token : List Char) : String :=
  if token.head? = some '$' then Reference.body token else String.ofList token

def Keyword (token : List Char) : Prop := ¬ Explicit token ∧ lower (String.ofList token) ∈ keywords

def Resolves (p : Project) (token : List Char) (u : FieldUse) : Prop :=
  ¬ Keyword token ∧ p.field (tokenName token) = .ok u

def Ambiguous (e : Error) : Prop := ∃ name ids, e = .query (.ambiguousField name ids)

def Fails (p : Project) (token : List Char) (e : Error) : Prop :=
  ¬ Keyword token ∧ p.field (tokenName token) = .error e ∧ (Explicit token ∨ Ambiguous e)

theorem fieldErrors {name : String} {e} (fails : p.field name = .error e) : Ambiguous e ↔ e.isAccess = false := by
  have absent : ∀ kind name, Ambiguous (Error.notFound kind name) ↔ (Error.notFound kind name).isAccess = false := by
    intro kind name
    refine iff_of_false ?_ Bool.noConfusion
    rintro ⟨_,_,same⟩
    cases same
  dsimp only [Project.field] at fails
  generalize lower (trim name) = name at fails
  split at fails
  · split at fails
    · rw [Project.fieldIn] at fails
      split at fails
      · cases fails
      · cases fails
        exact absent _ _
    · cases fails
      exact absent _ _
  · split at fails
    · cases fails
      exact absent _ _
    · cases fails
    · cases fails
      exact iff_of_true ⟨_,_,rfl⟩ rfl

variable {token : List Char}

theorem takenExplicit {rest : List Char} (taken : Taken token rest) : (length? token).isSome ↔ Explicit token := by
  have named : ∀ {name : List Char} (more), Name name →
      ((length? (name ++ more)).isSome ↔ Explicit (name ++ more)) := by
    intro name more is
    rw [nameUnreferenced is]
    obtain ⟨⟨c,first,starts⟩,-⟩ := is
    obtain ⟨more',rfl⟩ := head?_eq_some_iff.mp first
    refine iff_of_false Bool.false_ne_true fun dollar => ?_
    cases Option.some.inj dollar
    exact absurd starts (by decide)
  cases taken with
  | @reference body _ some ends _ =>
    have found := lengthToken ends []
    rw [append_nil,if_neg some] at found
    rw [found]
    exact iff_of_true rfl rfl
  | bare is _ _ => simpa using named [] is
  | qualified owner _ _ => exact named _ owner

inductive Outcome (p : Project) (token : List Char) : Except Error LiteralPart → Prop
  | field {u} (resolves : Resolves p token u) : Outcome p token (.ok (.field (String.ofList token) u))
  | fails {e} (fails : Fails p token e) : Outcome p token (.error e)
  | text (unresolved : ∀ u, ¬ Resolves p token u) (passes : ∀ e, ¬ Fails p token e) :
    Outcome p token (.ok (.text (String.ofList token)))

theorem bindOutcome {rest : List Char} (taken : Taken token rest) : Outcome p token (bindToken p token) := by
  simp only [bindToken]
  by_cases explicit : Explicit token
  · have named : tokenName token = body token := if_pos explicit
    have free : ¬ Keyword token := fun keyword => keyword.1 explicit
    rw [if_pos ((takenExplicit taken).mpr explicit),← named]
    cases found : p.field (tokenName token) with
    | ok u => exact .field ⟨free,found⟩
    | error e => exact .fails ⟨free,found,.inl explicit⟩
  · have named : tokenName token = String.ofList token := if_neg explicit
    rw [if_neg (mt (takenExplicit taken).mp explicit)]
    split
    · rename_i reserved
      have keyword : Keyword token := ⟨explicit,contains_iff_mem.mp reserved⟩
      exact .text (fun _ resolves => resolves.1 keyword) (fun _ fails => fails.1 keyword)
    · rename_i free
      replace free : ¬ Keyword token := fun keyword => free (contains_iff_mem.mpr keyword.2)
      split
      · rename_i u found
        rw [← named] at found
        exact .field ⟨free,found⟩
      · rename_i e found
        rw [← named] at found
        have several := fieldErrors found
        split
        · rename_i absent
          refine .text (fun u resolves => ?_) (fun e' fails => ?_)
          · cases found.symm.trans resolves.2
          · cases found.symm.trans fails.2.1
            rcases fails.2.2 with explicit' | ambiguous
            · exact explicit explicit'
            · rw [several.mp ambiguous] at absent
              cases absent
        · rename_i present
          exact .fails ⟨free,found,.inr (several.mpr (Bool.eq_false_iff.mpr present))⟩

theorem resolvesField {part} (outcome : Outcome p token (.ok part)) {name u} :
    part = .field name u ↔ name = String.ofList token ∧ Resolves p token u := by
  cases outcome with
  | @field v resolves =>
    constructor
    · rintro same
      cases same
      exact ⟨rfl,resolves⟩
    · rintro ⟨rfl,resolves'⟩
      cases resolves.2.symm.trans resolves'.2
      rfl
  | text unresolved _ =>
    refine iff_of_false ?_ fun named => unresolved _ named.2
    rintro ⟨⟩

theorem failsError {result e} (outcome : Outcome p token result) : result = .error e ↔ Fails p token e := by
  cases outcome with
  | field resolves =>
    refine iff_of_false (by rintro ⟨⟩) fun fails => ?_
    cases resolves.2.symm.trans fails.2.1
  | fails fails =>
    constructor
    · rintro ⟨⟩
      exact fails
    · intro fails'
      rw [Except.error.inj (fails.2.1.symm.trans fails'.2.1)]
  | text _ passes => exact iff_of_false (by rintro ⟨⟩) (passes _)

theorem outcomeSource {part} (outcome : Outcome p token (.ok part)) : part.source = String.ofList token := by
  cases outcome with
  | field _ => rfl
  | text _ _ => rfl

def bindPiece (p : Project) : Piece → Except Error LiteralPart
  | .token cs => bindToken p cs
  | piece => .ok (.text (String.ofList piece.chars))

end Outcomes

section Marks
variable {p : Project}

inductive Mark where
  | char (c : Char)
  | field (token : String) (u : FieldUse)

def Mark.chars : Mark → List Char
  | char c => [c]
  | field token _ => token.toList

def marks : LiteralPart → List Mark
  | .text s => s.toList.map .char
  | .field token u => [.field token u]

def marked (parts : Except Error (List LiteralPart)) : Except Error (List Mark) := parts.map (·.flatMap marks)

def andThen (first later : Except Error (List Mark)) : Except Error (List Mark) := do
  let xs ← first
  let ys ← later
  .ok (xs ++ ys)

theorem markedAppend {α : Type} (f : α → Except Error LiteralPart) (xs ys : List α) :
    marked ((xs ++ ys).mapM f) = andThen (marked (xs.mapM f)) (marked (ys.mapM f)) := by
  rw [mapM_append]
  cases xs.mapM f with
  | error e => rfl
  | ok first =>
    cases ys.mapM f with
    | error e => rfl
    | ok later => simp [marked,andThen,Except.map,bind,Except.bind,pure,Except.pure]

theorem markedOne {α : Type} (f : α → Except Error LiteralPart) (x : α) : marked ([x].mapM f) = (f x).map marks := by
  rw [mapM_cons,mapM_nil]
  cases f x with
  | error e => rfl
  | ok part => simp [marked,Except.map,bind,Except.bind,pure,Except.pure]

theorem markedCons {α : Type} (f : α → Except Error LiteralPart) (x : α) (xs : List α) :
    marked ((x :: xs).mapM f) = andThen ((f x).map marks) (marked (xs.mapM f)) := by
  rw [← singleton_append,markedAppend,markedOne]

theorem textMarked (cs : List Char) : marked ((cs.map Piece.other).mapM (bindPiece p)) = .ok (cs.map .char) := by
  induction cs with
  | nil => rfl
  | cons c cs ih =>
    rw [map_cons,markedCons,ih]
    simp [bindPiece,Piece.chars,marks,andThen,Except.map,bind,Except.bind]

theorem chunksMarked {f : Chunk → Except Error LiteralPart}
    (plain : ∀ cs, f (.plain cs) = .ok (.text (String.ofList cs))) (token : ∀ cs, f (.token cs) = bindToken p cs)
    (chunks : List Chunk) : marked (chunks.mapM f) = marked ((chunks.flatMap chunkPieces).mapM (bindPiece p)) := by
  induction chunks with
  | nil => rfl
  | cons chunk chunks ih =>
    rw [markedCons,flatMap_cons,markedAppend,ih]
    cases chunk with
    | plain cs => rw [plain,chunkPieces,textMarked,Except.map,marks,String.toList_ofList]
    | token cs => rw [token,chunkPieces,markedOne,bindPiece]

theorem runMarked (run : Run) : marked (bindRun p run) = marked ((runPieces run).mapM (bindPiece p)) := by
  cases run with
  | quoted cs => rfl
  | plain cs => exact chunksMarked (fun _ => rfl) (fun _ => rfl) _

theorem runsMarked (runs : List Run) :
    ((runs.mapM (bindRun p)).map fun parts => parts.flatten.flatMap marks) =
      marked ((runs.flatMap runPieces).mapM (bindPiece p)) := by
  induction runs with
  | nil => rfl
  | cons run runs ih =>
    rw [flatMap_cons,markedAppend,← runMarked,← ih,mapM_cons]
    cases bindRun p run with
    | error e => rfl
    | ok first =>
      cases runs.mapM (bindRun p) with
      | error e => rfl
      | ok later => simp [marked,andThen,Except.map,bind,Except.bind,pure,Except.pure]

theorem literalMarked (p : Project) (text : String) :
    (∃ e, bindLiteral p text = .error e ∧ (pieces text.toList).mapM (bindPiece p) = .error e) ∨
      ∃ parts single, bindLiteral p text = .ok (.literal parts) ∧ (pieces text.toList).mapM (bindPiece p) = .ok single ∧
        parts.flatMap marks = single.flatMap marks := by
  have same := runsMarked (p := p) (runs text.toList)
  rw [← pieces] at same
  rw [bindLiteral]
  generalize (runs text.toList).mapM (bindRun p) = byRun at same ⊢
  generalize (pieces text.toList).mapM (bindPiece p) = byPiece at same ⊢
  cases byRun with
  | error e =>
    cases byPiece with
    | error e' =>
      cases same
      exact .inl ⟨e,rfl,rfl⟩
    | ok single => cases same
  | ok parts =>
    cases byPiece with
    | error e' => cases same
    | ok single => exact .inr ⟨_,single,rfl,rfl,Except.ok.inj same⟩

theorem marksChars (parts : List LiteralPart) :
    (parts.flatMap marks).flatMap Mark.chars = parts.flatMap (·.source.toList) := by
  induction parts with
  | nil => rfl
  | cons part parts ih =>
    rw [flatMap_cons,flatMap_append,ih,flatMap_cons]
    cases part with
    | text s => simp [marks,Mark.chars,LiteralPart.source,flatMap_map]
    | field token u => simp [marks,Mark.chars,LiteralPart.source]

def Placed (parts : List LiteralPart) (front : List Char) (token : String) (u : FieldUse) : Prop :=
  ∃ before after, parts = before ++ .field token u :: after ∧ before.flatMap (·.source.toList) = front

theorem frontMarks {part : LiteralPart} {others before after : List Mark} {token u}
    (same : marks part ++ others = before ++ .field token u :: after) :
    (∃ more, before = marks part ++ more ∧ others = more ++ .field token u :: after) ∨
      (part = .field token u ∧ before = []) := by
  rcases append_eq_append_iff.mp same with ⟨more,front,later⟩ | ⟨more,front,later⟩
  · exact .inl ⟨more,front,later⟩
  · cases more with
    | nil => exact .inl ⟨[],by simpa using front.symm,by simpa using later.symm⟩
    | cons mark more =>
      cases (List.cons.inj later).1
      cases part with
      | text s =>
        have mem : Mark.field token u ∈ s.toList.map Mark.char := by
          rw [marks] at front
          simp [front]
        obtain ⟨_,_,same⟩ := mem_map.mp mem
        cases same
      | field name v =>
        obtain ⟨rfl,single⟩ | ⟨_,none⟩ := append_eq_cons_iff.mp front.symm
        · cases single
          exact .inr ⟨rfl,rfl⟩
        · simp at none

theorem placedMarks {parts : List LiteralPart} {front token u} : Placed parts front token u ↔
    ∃ before after, parts.flatMap marks = before ++ .field token u :: after ∧ before.flatMap Mark.chars = front := by
  constructor
  · rintro ⟨before,after,rfl,rfl⟩
    refine ⟨before.flatMap marks,after.flatMap marks,?_,marksChars before⟩
    rw [flatMap_append,flatMap_cons,marks,singleton_append]
  · rintro ⟨before,after,same,rfl⟩
    induction parts generalizing before with
    | nil => simp at same
    | cons part parts ih =>
      rw [flatMap_cons] at same
      obtain ⟨more,rfl,later⟩ | ⟨rfl,rfl⟩ := frontMarks same
      · obtain ⟨before,after,rfl,sources⟩ := ih more later
        refine ⟨part :: before,after,rfl,?_⟩
        have front := marksChars [part]
        simp only [flatMap_singleton] at front
        rw [flatMap_cons,flatMap_append,sources,front]
      · exact ⟨[],parts,rfl,rfl⟩

end Marks

section Binding
variable {p : Project}

variable {ps : List Piece} {piece : Piece}

theorem pieceBound {part} (taken : Tokened [piece]) (bound : bindPiece p piece = .ok part) :
    part.source.toList = piece.chars ∧ ∀ name u, part = .field name u ↔
      ∃ token, piece = .token token ∧ name = String.ofList token ∧ Resolves p token u := by
  cases piece with
  | token token =>
    obtain ⟨rest,first⟩ := taken token mem_cons_self
    have outcome : Outcome p token (.ok part) := bound ▸ bindOutcome first
    refine ⟨by rw [outcomeSource outcome,String.toList_ofList]; rfl,fun name u => ?_⟩
    rw [resolvesField outcome]
    simp
  | quoted cs =>
    cases bound
    exact ⟨String.toList_ofList,by simp⟩
  | other c =>
    cases bound
    exact ⟨String.toList_ofList,by simp⟩

theorem pieceFails {e} (taken : Tokened [piece]) :
    bindPiece p piece = .error e ↔ ∃ token, piece = .token token ∧ Fails p token e := by
  cases piece with
  | token token =>
    obtain ⟨rest,first⟩ := taken token mem_cons_self
    rw [bindPiece,failsError (bindOutcome first)]
    simp
  | quoted cs => simp [bindPiece]
  | other c => simp [bindPiece]

theorem firstFails {α β : Type} {f : α → Except Error β} {xs : List α} {e} :
    xs.mapM f = .error e ↔
      ∃ before x after, xs = before ++ x :: after ∧ f x = .error e ∧ ∀ y ∈ before, ∀ e', f y ≠ .error e' := by
  induction xs with
  | nil => simp [pure,Except.pure]
  | cons x xs ih =>
    rw [mapM_cons]
    cases first : f x with
    | error e' =>
      constructor
      · intro fails
        cases fails
        exact ⟨[],x,xs,rfl,first,by simp⟩
      · rintro ⟨before,y,after,same,fails,earlier⟩
        cases before with
        | nil =>
          cases same
          cases first.symm.trans fails
          rfl
        | cons z before =>
          cases same
          exact absurd first (earlier _ mem_cons_self e')
    | ok b =>
      have later : (do let bs ← xs.mapM f; pure (b :: bs)) = .error e ↔ xs.mapM f = .error e := by
        cases xs.mapM f with
        | error e' => rfl
        | ok bs => simp [bind,Except.bind,pure,Except.pure]
      refine later.trans (ih.trans ?_)
      constructor
      · rintro ⟨before,y,after,rfl,fails,earlier⟩
        refine ⟨x :: before,y,after,rfl,fails,forall_mem_cons.mpr ⟨fun e' fails => ?_,earlier⟩⟩
        cases first.symm.trans fails
      · rintro ⟨before,y,after,same,fails,earlier⟩
        cases before with
        | nil =>
          cases same
          cases first.symm.trans fails
        | cons z before =>
          cases same
          exact ⟨before,y,after,rfl,fails,(forall_mem_cons.mp earlier).2⟩

theorem tokenedAppend {qs : List Piece} : Tokened (ps ++ qs) ↔ Tokened ps ∧ Tokened qs := by
  simp only [Tokened,mem_append,or_imp,forall_and]

theorem tokenedCons : Tokened (piece :: ps) ↔ Tokened [piece] ∧ Tokened ps := by
  rw [← singleton_append,tokenedAppend]

theorem tokenedMember (taken : Tokened ps) (mem : piece ∈ ps) : Tokened [piece] := by
  intro token is
  rw [mem_singleton] at is
  exact taken token (is ▸ mem)

theorem boundChars {parts} (taken : Tokened ps)
    (bound : List.Forall₂ (fun piece part => bindPiece p piece = .ok part) ps parts) :
    parts.flatMap (·.source.toList) = ps.flatMap Piece.chars := by
  induction bound with
  | nil => rfl
  | cons first _ ih =>
    obtain ⟨taken,others⟩ := tokenedCons.mp taken
    rw [flatMap_cons,flatMap_cons,(pieceBound taken first).1,ih others]

theorem pairSplit {α β : Type} {R : α → β → Prop} {xs : List α} {before after : List β} {y : β}
    (pairs : List.Forall₂ R xs (before ++ y :: after)) :
    ∃ before' x after', xs = before' ++ x :: after' ∧ List.Forall₂ R before' before ∧ R x y := by
  obtain ⟨x,rest,first,-,same⟩ := forall₂_cons_right_iff.mp (forall₂_drop_append xs _ _ pairs)
  have whole := take_append_drop before.length xs
  rw [same] at whole
  exact ⟨_,x,rest,whole.symm,forall₂_take_append xs _ _ pairs,first⟩

theorem placedPieces {parts} (taken : Tokened ps)
    (bound : List.Forall₂ (fun piece part => bindPiece p piece = .ok part) ps parts) {front name u} :
    Placed parts front name u ↔ ∃ before token after, ps = before ++ .token token :: after ∧
      before.flatMap Piece.chars = front ∧ name = String.ofList token ∧ Resolves p token u := by
  constructor
  · rintro ⟨before,after,rfl,rfl⟩
    obtain ⟨before',piece,after',rfl,pairs,first⟩ := pairSplit bound
    obtain ⟨earlier,taken⟩ := tokenedAppend.mp taken
    obtain ⟨token,rfl,named,resolves⟩ := ((pieceBound (tokenedCons.mp taken).1 first).2 name u).mp rfl
    exact ⟨before',token,after',rfl,(boundChars earlier pairs).symm,named,resolves⟩
  · rintro ⟨before,token,after,rfl,rfl,rfl,resolves⟩
    obtain ⟨before',part,after',rfl,pairs,first⟩ := pairSplit bound.flip
    obtain ⟨earlier,taken⟩ := tokenedAppend.mp taken
    have field := ((pieceBound (tokenedCons.mp taken).1 first).2 _ u).mpr ⟨token,rfl,rfl,resolves⟩
    exact ⟨before',after',by rw [field],boundChars earlier pairs.flip⟩

theorem literalFails (p : Project) (text : String) {e} :
    bindLiteral p text = .error e ↔ (pieces text.toList).mapM (bindPiece p) = .error e := by
  rcases literalMarked p text with ⟨e',fails,same⟩ | ⟨parts,single,ok,same,-⟩
  · rw [fails,same,Except.error.injEq,Except.error.injEq]
  · rw [ok,same]
    exact iff_of_false (by rintro ⟨⟩) (by rintro ⟨⟩)

/- Binding fails with the first token that fails; otherwise the parts put together are the text. -/
theorem literalsBindTokens (p : Project) (text : String) :
    ∃ ps, (∀ other, Cut text.toList other ↔ other = ps) ∧
      (∀ e, bindLiteral p text = .error e ↔ ∃ before token after, ps = before ++ .token token :: after ∧
        Fails p token e ∧ ∀ earlier e', .token earlier ∈ before → ¬ Fails p earlier e') ∧
      ∀ f, bindLiteral p text = .ok f → ∃ parts, f = .literal parts ∧
        parts.flatMap (·.source.toList) = text.toList ∧
        ∀ front name u, Placed parts front name u ↔ ∃ before token after, ps = before ++ .token token :: after ∧
          before.flatMap Piece.chars = front ∧ name = String.ofList token ∧ Resolves p token u := by
  have cut := piecesCut text.toList
  have taken := piecesTaken cut
  refine ⟨pieces text.toList,fun other => ⟨cutPieces,fun same => same ▸ cut⟩,fun e => ?_,fun f ok => ?_⟩
  · rw [literalFails,firstFails]
    have each : ∀ piece ∈ pieces text.toList, ∀ e, bindPiece p piece = .error e ↔ _ :=
      fun piece mem e => pieceFails (tokenedMember taken mem)
    constructor
    · rintro ⟨before,piece,after,same,fails,passes⟩
      rw [same] at each
      obtain ⟨token,rfl,failing⟩ := (each piece (by simp) e).mp fails
      refine ⟨before,token,after,same,failing,fun earlier e' mem fails' => passes _ mem e' ?_⟩
      exact (each _ (List.mem_append_left _ mem) e').mpr ⟨earlier,rfl,fails'⟩
    · rintro ⟨before,token,after,same,failing,passes⟩
      rw [same] at each
      refine ⟨before,_,after,same,(each _ (by simp) e).mpr ⟨token,rfl,failing⟩,fun piece mem e' fails => ?_⟩
      obtain ⟨earlier,rfl,fails'⟩ := (each piece (List.mem_append_left _ mem) e').mp fails
      exact passes earlier e' mem fails'
  · rcases literalMarked p text with ⟨e,fails,-⟩ | ⟨parts,single,bound,ofPieces,same⟩
    · cases fails.symm.trans ok
    · cases bound.symm.trans ok
      have pairs := exceptMapM.mp ofPieces
      refine ⟨parts,rfl,?_,fun front name u => ?_⟩
      · rw [← marksChars,same,marksChars,boundChars taken pairs,cutChars cut]
      · rw [placedMarks,same,← placedMarks,placedPieces taken pairs]

end Binding

end SemanticSql.Filter
