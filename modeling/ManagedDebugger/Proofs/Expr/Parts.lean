import ManagedDebugger.Proofs.Expr.WrittenTypes

/-!
# Reading the parts of an expression

What each reader of the grammar makes of its own text, given what the readers of the parts make of
theirs: literals, parentheses and the words in front of them, what follows a term, and interpolated
strings.
-/

namespace ManagedDebugger.Expr

open Text
open Text.Scan

/-! ## What may stand behind a part -/

/-- The characters that end a part. -/
def closers : List Char := [')', ',', ']', '}']

theorem Behind.of_stops {r : List Char} (stops : Stops closers r) : Behind r := by
  rcases stops with rfl | ⟨c, w, rfl, isElement⟩
  · exact .nil
  · have rejects {accepts : Char → Bool} (none : closers.any accepts = false) : accepts c = false :=
      eq_false_of_ne_true (List.any_eq_false.mp none c isElement)
    exact .cons (rejects rfl) (rejects rfl) (ne_of_mem_of_not_mem isElement (by decide))
      (ne_of_mem_of_not_mem isElement (by decide)) w

theorem Halts.of_stops {r : List Char} (stops : Stops closers r) : Halts r where
  binary ops := stops.none (needs_binary ops [] blank_nil)
    (refuses_operator (by decide) (fun op => by cases op <;> exact ⟨_, _, rfl, by decide⟩) ops)
  coalesce := stops.none (Needs.symbol rfl [] blank_nil) (.symbol (by decide) rfl (by decide))

theorem postfixPart_of_stops {r : List Char} (stops : Stops closers r) (depth : Nat)
    (inner : Scan Expr) : postfixPart depth inner r = none :=
  stops.none (needs_postfixPart depth inner [] blank_nil) (refuses_postfixPart rfl rfl depth inner)

theorem refuses_leftLevels {cs : List Char} (levels : List (List BinaryOp)) {operand : Scan Expr}
    (refuses : Refuses cs operand) :
    Refuses cs (levels.foldl (fun operand ops => leftLevel ops operand) operand) := by
  induction levels generalizing operand with
  | nil => exact refuses
  | cons ops levels inductionHypothesis => exact inductionHypothesis (refuses.bind _)

theorem refuses_expression {cs : List Char} (others : cs.any startsTerm = false)
    (shown : cs.any isBlank = false) (noUnary : cs.any unaryChars.contains = false) (depth : Nat) :
    Refuses cs (expression depth) := by
  cases depth with
  | zero => exact .failure cs
  | succ depth =>
      have primary : Refuses cs (primary (depth + 1) (expression depth)) :=
        (refuses_term others _ _).bind _
      exact (refuses_leftLevels leftLevels (refuses_unaryLevel primary shown noUnary)).bind _

/-- What follows a term is applied to it: a term is read, and joined to what follows. -/
def applyPart (e : Expr) (f : Expr → Expr) : Expr := f e

/-- A term with all that follows it, up to the end of a part. -/
theorem expression_of_joined {depth : Nat} {u r : List Char} {e : Expr} (stops : Stops closers r)
    (read : primary (depth + 1) (expression depth) (u ++ r) =
      joined applyPart (postfixPart (depth + 1) (expression depth)) e r) :
    expression (depth + 1) (u ++ r) = some (e, r) := by
  rw [joined_of_none (postfixPart_of_stops stops _ _)] at read
  have shown := stops.shown (by decide)
  have unary : unaryLevel (primary (depth + 1) (expression depth)) (u ++ r) =
      some (e, skipBlanks r) := by
    rw [shown]
    exact unaryLevel_of_primary read
  have whole := expression_of_unaryLevel (.of_stops stops) unary
  rwa [shown] at whole

/-! ## Literals -/

theorem toNat_of_unitChar? {u : UInt16} {c : Char} (isChar : unitChar? u = some c) :
    c.toNat = u.toNat := by
  unfold unitChar? at isChar
  split at isChar
  case isTrue =>
    rw [← Option.some.inj isChar]
    exact UInt16.toNat_toUInt32 u
  case isFalse => cases isChar

/-- A literal is read as it is written. -/
theorem term_literal {l : Literal} (writable : l.Writable) {r : List Char} (behind : Behind r)
    (depth : Nat) (inner : Scan Expr) :
    term depth inner (l.text ++ r) = some (.literal l, skipBlanks r) := by
  have word {n : String} (isName : isName n = true) (other : n ∉ parenthesized) :
      term depth inner (n.toList ++ r) = some (ofName n, skipBlanks r) :=
    term_name isName behind (fun isElement => absurd isElement other) depth inner
  cases writable with
  | null => exact word (n := "null") rfl (by decide)
  | string s =>
      have read := literalTerm_quoted s.toList r
      rw [String.ofList_toList] at read
      exact term_of_literalTerm rfl read
  | bool b =>
      cases b with
      | true => exact word (n := "true") rfl (by decide)
      | false => exact word (n := "false") rfl (by decide)
  | @char u c isChar =>
      have same := toNat_of_unitChar? isChar
      have read := literalTerm_quotedChar (same ▸ u.toNat_lt) r
      have back : c.toNat.toUInt16 = u := by
        rw [same]
        exact UInt16.ofNat_toNat
      rw [back] at read
      rw [Literal.text, isChar]
      exact term_of_literalTerm rfl read
  | @int v least =>
      have most := v.toInt_lt
      have small : v.toInt.toNat < 0x80000000 := by omega
      have back : Int32.ofNat v.toInt.toNat = v := by
        rw [← Int32.ofInt_eq_ofNat, Int.toNat_of_nonneg least, Int32.ofInt_toInt]
      have typed : integerOf? .none v.toInt.toNat = some (.i32 v) := by
        simp only [integerOf?, small, if_true, back]
        rfl
      have read := term_number typed behind depth inner
      rw [IntegerSuffix.text, List.nil_append] at read
      exact read
  | uint v =>
      have small : v.toNat < UInt32.size := v.toNat_lt
      have back : v.toNat.toUInt32 = v := UInt32.ofNat_toNat
      have typed : integerOf? .u v.toNat = some (.u32 v) := by
        simp only [integerOf?, small, if_true, back]
        rfl
      rw [Literal.text, List.append_assoc]
      exact term_number typed behind depth inner
  | @long v least =>
      have most := v.toInt_lt
      have small : v.toInt.toNat < 0x8000000000000000 := by omega
      have back : Int64.ofNat v.toInt.toNat = v := by
        rw [← Int64.ofInt_eq_ofNat, Int.toNat_of_nonneg least, Int64.ofInt_toInt]
      have typed : integerOf? .l v.toInt.toNat = some (.i64 v) := by
        simp only [integerOf?, small, if_true, back]
        rfl
      rw [Literal.text, List.append_assoc]
      exact term_number typed behind depth inner
  | ulong v =>
      have small : v.toNat < UInt64.size := v.toNat_lt
      have back : v.toNat.toUInt64 = v := UInt64.ofNat_toNat
      have typed : integerOf? .ul v.toNat = some (.u64 v) := by
        simp only [integerOf?, small, if_true, back]
      rw [Literal.text, List.append_assoc]
      exact term_number typed behind depth inner

theorem isNameChar_of_isDigit {c : Char} (isDigit : c.isDigit = true) : isNameChar c = true := by
  simp [isNameChar, Char.isAlphanum, isDigit]

theorem noType_literal {l : Literal} (writable : l.Writable) : NoType l.text := by
  have number (n : Nat) {suffix : List Char} (chars : suffix.all isNameChar = true) :
      NoType (Nat.toDigits 10 n ++ suffix) := by
    refine .of_word fun c isElement => ?_
    rcases List.mem_append.mp isElement with isElement | isElement
    · exact isNameChar_of_isDigit (Nat.isDigit_of_mem_toDigits (by decide) (by decide) isElement)
    · exact List.all_eq_true.mp chars c isElement
  cases writable with
  | null => exact .of_word (List.all_eq_true.mp rfl)
  | string s => exact .of_starts ⟨'"', _, rfl, by decide⟩
  | bool b =>
      cases b with
      | true => exact .of_word (List.all_eq_true.mp rfl)
      | false => exact .of_word (List.all_eq_true.mp rfl)
  | char isChar => exact .of_starts ⟨'\'', _, rfl, by decide⟩
  | @int v least =>
      have digits := number v.toInt.toNat (List.all_nil : [].all isNameChar = true)
      rwa [List.append_nil] at digits
  | uint v => exact number v.toNat rfl
  | long least => exact number _ rfl
  | ulong v => exact number v.toNat rfl

/-! ## Parentheses -/

section

variable {α : Type} {q : Scan α} {a : α} {u r : List Char}

theorem inParentheses_of_some (read : q (skipBlanks (u ++ ')' :: r)) = some (a, ')' :: r)) :
    inParentheses q ('(' :: (u ++ ')' :: r)) = some (a, skipBlanks r) := by
  have opening : symbol "(" ('(' :: (u ++ ')' :: r)) = some ((), skipBlanks (u ++ ')' :: r)) := rfl
  have closing : symbol ")" (')' :: r) = some ((), skipBlanks r) := rfl
  exact (bind_of_some opening).trans ((bind_of_some read).trans (bind_of_some closing))

end

section

variable {depth : Nat} {inner : Scan Expr} {e : Expr} {u r : List Char}

theorem term_parentheses (read : inner (skipBlanks (u ++ ')' :: r)) = some (e, ')' :: r)) :
    term depth inner ('(' :: (u ++ ')' :: r)) = some (e, skipBlanks r) := by
  have word {text : String} {c : Char} {more : List Char} (start : text.toList = c :: more)
      (other : c ≠ '(') (w : List Char) : exactly text ('(' :: w) = none :=
    exactly_of_ne start other w
  have literal : Refuses ['('] literalTerm :=
    refuses_literalTerm rfl (by decide) (by decide) (by decide)
  have name : Refuses ['('] name := (Refuses.satisfy rfl).bind _
  rw [← skipBlanks_skipBlanks r]
  refine padded_of_some rfl ?_
  refine (orElse_of_none (literal '(' List.mem_cons_self _)).trans ?_
  refine (orElse_of_none (bind_of_none (bind_of_none (word rfl (by decide) _)))).trans ?_
  refine (orElse_of_none (bind_of_none ((orElse_of_none (bind_of_none
    (word rfl (by decide) _))).trans (bind_of_none (word rfl (by decide) _))))).trans ?_
  refine (orElse_of_none (bind_of_none (word rfl (by decide) _))).trans ?_
  refine (orElse_of_none (bind_of_none (name '(' List.mem_cons_self _))).trans ?_
  refine (orElse_of_none (bind_of_none (name '(' List.mem_cons_self _))).trans ?_
  exact inParentheses_of_some read

/-- The words in front of parentheses. -/
theorem term_of_word {c : Char} {w : List Char} (start : isNameStart c = true)
    (read : (checkedTerm inner <|> sizeOfTerm depth) (c :: w) = some (e, r)) :
    term depth inner (c :: w) = some (e, skipBlanks r) :=
  term_of_letter start (orElse_orElse_of_some read)

theorem term_checked (on : Bool)
    (read : inner (skipBlanks (u ++ ')' :: r)) = some (e, ')' :: r)) :
    term depth inner ((if on then "checked" else "unchecked").toList ++ '(' :: (u ++ ')' :: r)) =
      some (.checked on e, skipBlanks r) := by
  have body := inParentheses_of_some read
  rw [← skipBlanks_skipBlanks r]
  cases on with
  | true =>
      have word : exactly "checked" ("checked".toList ++ '(' :: (u ++ ')' :: r)) =
          some ((), '(' :: (u ++ ')' :: r)) := exactly_eq_some_iff.mpr rfl
      refine term_of_word (c := 'c') rfl (orElse_of_some ?_)
      exact (bind_of_some (orElse_of_some (bind_of_some word))).trans (bind_of_some body)
  | false =>
      have word : exactly "unchecked" ("unchecked".toList ++ '(' :: (u ++ ')' :: r)) =
          some ((), '(' :: (u ++ ')' :: r)) := exactly_eq_some_iff.mpr rfl
      have other : exactly "checked" ("unchecked".toList ++ '(' :: (u ++ ')' :: r)) = none :=
        exactly_of_ne rfl (by decide) _
      refine term_of_word (c := 'u') rfl (orElse_of_some ?_)
      exact (bind_of_some ((orElse_of_none (bind_of_none other)).trans (bind_of_some word))).trans
        (bind_of_some body)

theorem term_sizeOf {type : TypeExpr}
    (read : typeName depth (skipBlanks (u ++ ')' :: r)) = some (type, ')' :: r)) :
    term depth inner ("sizeof".toList ++ '(' :: (u ++ ')' :: r)) =
      some (.sizeOf type, skipBlanks r) := by
  have body := inParentheses_of_some read
  have word : exactly "sizeof" ("sizeof".toList ++ '(' :: (u ++ ')' :: r)) =
      some ((), '(' :: (u ++ ')' :: r)) := exactly_eq_some_iff.mpr rfl
  have other {text : String} {c : Char} {more : List Char} (start : text.toList = c :: more)
      (other : c ≠ 's') : exactly text ("sizeof".toList ++ '(' :: (u ++ ')' :: r)) = none :=
    exactly_of_ne start other _
  have checked : checkedTerm inner ("sizeof".toList ++ '(' :: (u ++ ')' :: r)) = none :=
    bind_of_none ((orElse_of_none (bind_of_none (other rfl (by decide)))).trans
      (bind_of_none (other rfl (by decide))))
  rw [← skipBlanks_skipBlanks r]
  refine term_of_word (c := 's') rfl ((orElse_of_none checked).trans ?_)
  exact (bind_of_some word).trans (bind_of_some body)

end

/-! ## What follows a term -/

section

variable {depth : Nat} {inner : Scan Expr} {r : List Char}

theorem postfixPart_member {n : String} (isName : isName n = true) (conditional : Bool)
    {arguments : Option (List TypeExpr)} {v : List Char} (apart : Apart v)
    (types : optional (typeArguments depth) v = some (arguments, r)) :
    postfixPart depth inner (dot conditional ++ (n.toList ++ v)) =
      some (fun e => .member e n arguments conditional, r) := by
  have member : memberOf depth conditional (n.toList ++ v) =
      some (fun e => .member e n arguments conditional, r) :=
    (bind_of_some (name_append isName apart)).trans (bind_of_some types)
  have shown := skipBlanks_name isName v
  cases conditional with
  | false =>
      have read : symbol "." ('.' :: (n.toList ++ v)) = some ((), n.toList ++ v) :=
        congrArg (fun w => some ((), w)) shown
      exact orElse_of_some ((bind_of_some read).trans member)
  | true =>
      have other : symbol "." ('?' :: '.' :: (n.toList ++ v)) = none := rfl
      have read : symbol "?." ('?' :: '.' :: (n.toList ++ v)) = some ((), n.toList ++ v) :=
        congrArg (fun w => some ((), w)) shown
      exact (orElse_of_none (bind_of_none other)).trans
        (orElse_of_some ((bind_of_some read).trans member))

theorem postfixPart_element {u : List Char} {es : List Expr} (conditional : Bool)
    (list : separated inner (symbol ",") (skipBlanks (u ++ ']' :: r)) = some (es, ']' :: r)) :
    postfixPart depth inner (bracket conditional ++ (u ++ ']' :: r)) =
      some (fun e => .element e es conditional, skipBlanks r) := by
  have closing : symbol "]" (']' :: r) = some ((), skipBlanks r) := rfl
  cases conditional with
  | false =>
      have opening : symbol "[" ('[' :: (u ++ ']' :: r)) =
          some ((), skipBlanks (u ++ ']' :: r)) := rfl
      have noDot : symbol "." ('[' :: (u ++ ']' :: r)) = none := rfl
      have noMember : symbol "?." ('[' :: (u ++ ']' :: r)) = none := rfl
      refine (orElse_of_none (bind_of_none noDot)).trans ?_
      refine (orElse_of_none (bind_of_none noMember)).trans (orElse_of_some ?_)
      exact bind_of_some ((bind_of_some opening).trans ((bind_of_some list).trans
        (bind_of_some closing)))
  | true =>
      have opening : symbol "?[" ('?' :: '[' :: (u ++ ']' :: r)) =
          some ((), skipBlanks (u ++ ']' :: r)) := rfl
      have noDot : symbol "." ('?' :: '[' :: (u ++ ']' :: r)) = none := rfl
      have noMember : symbol "?." ('?' :: '[' :: (u ++ ']' :: r)) = none := rfl
      have noElement : symbol "[" ('?' :: '[' :: (u ++ ']' :: r)) = none := rfl
      refine (orElse_of_none (bind_of_none noDot)).trans ?_
      refine (orElse_of_none (bind_of_none noMember)).trans ?_
      refine (orElse_of_none (bind_of_none (bind_of_none noElement))).trans (orElse_of_some ?_)
      exact bind_of_some ((bind_of_some opening).trans ((bind_of_some list).trans
        (bind_of_some closing)))

theorem postfixPart_invocation {u : List Char} {es : List Expr}
    (list : separated inner (symbol ",") (skipBlanks (u ++ ')' :: r)) = some (es, ')' :: r)) :
    postfixPart depth inner ('(' :: (u ++ ')' :: r)) =
      some (fun e => .invocation e es, skipBlanks r) := by
  have other {text : String} {c : Char} {more : List Char} (start : text.toList = c :: more)
      (other : c ≠ '(') : symbol text ('(' :: (u ++ ')' :: r)) = none :=
    symbol_of_ne start other rfl _
  refine (orElse_of_none (bind_of_none (other rfl (by decide)))).trans ?_
  refine (orElse_of_none (bind_of_none (other rfl (by decide)))).trans ?_
  refine (orElse_of_none (bind_of_none (bind_of_none (other rfl (by decide))))).trans ?_
  refine (orElse_of_none (bind_of_none (bind_of_none (other rfl (by decide))))).trans ?_
  exact bind_of_some (inParentheses_of_some list)

end

/-! ## Interpolated strings -/

/-- The text between the holes is read one character after the other. -/
theorem interpolatedChar_textChar (c : Char) (w : List Char) :
    interpolatedChar (Parentheses.textChar c ++ w) = some (c, w) := by
  have braces {d : Char} (noOpening : d ≠ '{') (noClosing : d ≠ '}') (v : List Char) :
      interpolatedChar (d :: v) = (escape <|> noneOf "\"\\\x7b\x7d") (d :: v) := by
    have opening : exactly "\x7b\x7b" (d :: v) = none := exactly_of_ne rfl noOpening.symm v
    have closing : exactly "\x7d\x7d" (d :: v) = none := exactly_of_ne rfl noClosing.symm v
    exact (orElse_of_none (bind_of_none opening)).trans (orElse_of_none (bind_of_none closing))
  unfold Parentheses.textChar
  split
  case isTrue same =>
    rw [same]
    rfl
  case isFalse noOpening =>
    split
    case isTrue same =>
      rw [same]
      rfl
    case isFalse noClosing =>
      have read : (escape <|> noneOf "\"\\\x7b\x7d") (Text.escaped c ++ w) = some (c, w) :=
        read_escaped (fun noQuote noBackslash => by
          simp [noQuote, noBackslash, noOpening, noClosing]) w
      obtain ⟨d, more, spelled, start⟩ := escaped_start c
      have other : d ≠ '{' ∧ d ≠ '}' := by
        rcases start with rfl | rfl
        · exact ⟨noOpening, noClosing⟩
        · decide
      rw [spelled, List.cons_append] at read ⊢
      exact (braces other.1 other.2 _).trans read

theorem textChar_ne_nil (c : Char) : Parentheses.textChar c ≠ [] := by
  unfold Parentheses.textChar
  split
  · exact List.cons_ne_nil _ _
  · split
    · exact List.cons_ne_nil _ _
    · exact escaped_ne_nil c

/-- A hole is no text unless a second brace stands behind its brace. -/
theorem interpolatedChar_hole {w : List Char} (single : ∀ v, w ≠ '{' :: v) :
    interpolatedChar ('{' :: w) = none := by
  have opening : exactly "\x7b\x7b" ('{' :: w) = none := by
    cases found : exactly "\x7b\x7b" ('{' :: w) with
    | none => rfl
    | some x =>
        have start := exactly_eq_some_iff.mp found
        exact absurd (List.cons.inj start).2 (single _)
  have closing : exactly "\x7d\x7d" ('{' :: w) = none := exactly_of_ne rfl (by decide) w
  refine (orElse_of_none (bind_of_none opening)).trans ?_
  refine (orElse_of_none (bind_of_none closing)).trans ?_
  exact (orElse_of_none (escape_of_ne (by decide) w)).trans rfl

theorem many1_textChar {s r : List Char} (nonempty : s ≠ []) (stop : interpolatedChar r = none) :
    many1 interpolatedChar (s.flatMap Parentheses.textChar ++ r) = some (s, r) := by
  obtain ⟨c, s, rfl⟩ := List.exists_cons_of_ne_nil nonempty
  have items : itemsOf interpolatedChar (s.flatMap Parentheses.textChar ++ r) = (s.map id, r) :=
    itemsOf_flatMap (fun _ => True) (fun c _ w _ => interpolatedChar_textChar c w)
      (fun c _ => textChar_ne_nil c) (fun _ _ _ => trivial) trivial stop
  rw [List.map_id] at items
  have rest : many interpolatedChar (s.flatMap Parentheses.textChar ++ r) = some (s, r) :=
    congrArg some items
  rw [List.flatMap_cons, List.append_assoc]
  exact (bind_of_some (interpolatedChar_textChar c _)).trans (bind_of_some rest)

theorem refuses_interpolatedChar : Refuses ['"'] interpolatedChar := by
  have escape : Refuses ['"'] escape := (Refuses.exactly rfl (by decide)).bind _
  exact .orElse ((Refuses.exactly rfl (by decide)).bind _) <|
    .orElse ((Refuses.exactly rfl (by decide)).bind _) <| .orElse escape (.satisfy rfl)

theorem piecesText_hole_append (p : Parentheses) (e : Expr) (pieces : List (Piece Expr))
    (w : List Char) : p.piecesText (.hole e :: pieces) ++ w =
      '{' :: (p.part e ++ '}' :: (p.piecesText pieces ++ w)) := by
  rw [p.piecesText_hole, List.cons_append, List.append_assoc, List.cons_append]

section

variable {p : Parentheses} {inner : Scan Expr} {pieces : List (Piece Expr)} {r : List Char}
  (refuses : Refuses ['{'] inner)
  (read : ∀ e, .hole e ∈ pieces → ∀ w, inner (p.part e ++ '}' :: w) = some (e, '}' :: w))
  (separate : Piece.Separate pieces)
include refuses read

/-- A hole does not start with a brace, since no expression does. -/
theorem single_brace {e : Expr} (isElement : .hole e ∈ pieces) (w v : List Char) :
    p.part e ++ '}' :: w ≠ '{' :: v := by
  intro start
  have read := read e isElement w
  rw [start, refuses '{' List.mem_cons_self v] at read
  cases read

include separate

/-- The pieces of an interpolated string are read up to its end. -/
theorem itemsOf_piece :
    itemsOf (piece inner) (p.piecesText pieces ++ '"' :: r) = (pieces, '"' :: r) := by
  induction pieces with
  | nil =>
      have chars := refuses_interpolatedChar '"' List.mem_cons_self r
      have brace : exactly "\x7b" ('"' :: r) = none := exactly_of_ne rfl (by decide) r
      refine itemsOf_of_none ((orElse_of_none (bind_of_none (bind_of_none chars))).trans ?_)
      exact bind_of_none (bind_of_none brace)
  | cons first pieces inductionHypothesis =>
      have reads : ∀ e, .hole e ∈ pieces → ∀ w, inner (p.part e ++ '}' :: w) = some (e, '}' :: w) :=
        fun e isElement => read e (List.mem_cons_of_mem first isElement)
      cases first with
      | text s =>
          obtain ⟨nonempty, noText, separate⟩ := separate
          have rest := inductionHypothesis reads separate
          have stop : interpolatedChar (p.piecesText pieces ++ '"' :: r) = none := by
            cases pieces with
            | nil => exact refuses_interpolatedChar '"' List.mem_cons_self r
            | cons second pieces =>
                cases second with
                | text t => exact absurd rfl (noText t)
                | hole e =>
                    rw [piecesText_hole_append]
                    exact interpolatedChar_hole (single_brace refuses reads List.mem_cons_self _)
          have chars : s.toList ≠ [] := fun same => nonempty (String.toList_eq_nil_iff.mp same)
          have text := many1_textChar chars stop
          have item : piece inner (s.toList.flatMap Parentheses.textChar ++
              (p.piecesText pieces ++ '"' :: r)) =
              some (.text s, p.piecesText pieces ++ '"' :: r) := by
            refine orElse_of_some ((bind_of_some text).trans ?_)
            rw [String.ofList_toList]
            rfl
          have shorter := (Leaves.many1 leaves_interpolatedChar _ _ _ text).2
          rw [p.piecesText_text, List.append_assoc, itemsOf_of_some item shorter, rest]
      | hole e =>
          have rest := inductionHypothesis reads separate
          have noText := interpolatedChar_hole
            (single_brace refuses read List.mem_cons_self (p.piecesText pieces ++ '"' :: r))
          have opening (w : List Char) : exactly "\x7b" ('{' :: w) = some ((), w) := rfl
          have closing (w : List Char) : exactly "\x7d" ('}' :: w) = some ((), w) := rfl
          have inside := read e List.mem_cons_self (p.piecesText pieces ++ '"' :: r)
          have item : piece inner ('{' :: (p.part e ++ '}' :: (p.piecesText pieces ++ '"' :: r))) =
              some (.hole e, p.piecesText pieces ++ '"' :: r) := by
            refine (orElse_of_none (bind_of_none (bind_of_none noText))).trans ?_
            exact bind_of_some ((bind_of_some (opening _)).trans
              ((bind_of_some inside).trans (bind_of_some (closing _))))
          have shorter : (p.piecesText pieces ++ '"' :: r).length <
              ('{' :: (p.part e ++ '}' :: (p.piecesText pieces ++ '"' :: r))).length := by
            simp only [List.length_cons, List.length_append]
            omega
          rw [piecesText_hole_append, itemsOf_of_some item shorter, rest]

theorem term_interpolated (depth : Nat) :
    term depth inner (p.text (.interpolated pieces) ++ r) =
      some (.interpolated pieces, skipBlanks r) := by
  have text : p.text (.interpolated pieces) ++ r =
      '$' :: '"' :: (p.piecesText pieces ++ '"' :: r) := by
    rw [p.text_interpolated, List.cons_append, List.cons_append, List.append_assoc]
    rfl
  have opening : exactly "$\"" ('$' :: '"' :: (p.piecesText pieces ++ '"' :: r)) =
      some ((), p.piecesText pieces ++ '"' :: r) := rfl
  have all : many (piece inner) (p.piecesText pieces ++ '"' :: r) = some (pieces, '"' :: r) :=
    congrArg some (itemsOf_piece refuses read separate)
  have closing : exactly "\"" ('"' :: r) = some ((), r) := rfl
  have literal : Refuses ['$'] literalTerm :=
    refuses_literalTerm rfl (by decide) (by decide) (by decide)
  rw [text]
  refine padded_of_some rfl ((orElse_of_none (literal '$' List.mem_cons_self _)).trans ?_)
  exact orElse_of_some (bind_of_some ((bind_of_some opening).trans
    ((bind_of_some all).trans (bind_of_some closing))))

end

end ManagedDebugger.Expr
