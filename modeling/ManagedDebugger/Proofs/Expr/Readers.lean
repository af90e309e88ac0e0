import ManagedDebugger.Expr.Parser
import ManagedDebugger.Proofs.Text.Seam

/-!
# The readers of expressions, with an access behind their input

Every reader of the grammar is closed or matches. The levels up to the term are closed: a name, a
literal or a bracket comes to an end by itself. The levels above may take what is put behind as one
more part of their last term.
-/

namespace ManagedDebugger.Expr

open Text
open Text.Scan

/-- What may be put behind an expression: it is not the fraction of a number, it is not the rank of
an array type, and a dotted name goes on with all of it or with nothing. -/
structure Attached (t : List Char) : Prop extends Seam t where
  noFraction : fractionPart t = none
  noRank : (do symbol "["; symbol "]" : Scan Unit) t = none
  path : (do symbol "."; name : Scan String) t = none ∨
    ∃ n, (do symbol "."; name : Scan String) t = some (n, [])
  part : ∀ depth, postfixPart (depth + 1) (expression depth) t = none ∨
    ∃ f, postfixPart (depth + 1) (expression depth) t = some (f, [])

/-- Blanks do not matter where something is put behind them. -/
theorem Attached.of_blank {α : Type} {t u : List Char} {p : Scan α} (attached : Attached t)
    (skips : Skips p) (blank : Blank u) : p (u ++ t) = p t := by
  obtain ⟨c, more, rfl, starts⟩ := attached.start
  refine skips.append_of_blank blank ?_
  rcases starts with rfl | rfl <;> decide

/-! ## How much a reader takes -/

theorem leaves_digit : Leaves 1 digit := .satisfy _

theorem leaves_hexDigit : Leaves 1 hexDigit := .satisfy _

theorem leaves_name : Leaves 1 name :=
  (Leaves.satisfy isNameStart).bind_left fun c =>
    (Leaves.many ((Leaves.satisfy isNameChar).mono (Nat.zero_le 1))).bind_left fun rest =>
      .pure (String.ofList (c :: rest))

theorem leaves_escape : Leaves 1 escape := by
  refine (Leaves.exactly "\\").bind_left fun _ => .orElse ?_ ?_
  · exact ((Leaves.satisfy _).mono (Nat.zero_le 1)).bind_left fun c => .ofOption _
  · refine ((Leaves.exactly "u").mono (Nat.zero_le _)).bind_left fun _ => ?_
    have digit : Leaves 0 hexDigit := leaves_hexDigit.mono (Nat.zero_le 1)
    exact digit.bind_left fun a => digit.bind_left fun b => digit.bind_left fun c =>
      digit.bind_left fun d => .ofOption _

theorem leaves_interpolatedChar : Leaves 1 interpolatedChar := by
  refine .orElse ?_ (.orElse ?_ (.orElse leaves_escape (.satisfy _)))
  · exact ((Leaves.exactly "\x7b\x7b").mono (by decide)).bind_left fun _ => .pure '{'
  · exact ((Leaves.exactly "\x7d\x7d").mono (by decide)).bind_left fun _ => .pure '}'

/-- A part of an interpolated string: text, or a hole. -/
def piece (inner : Scan Expr) : Scan (Piece Expr) :=
  (do let chars ← many1 interpolatedChar; pure (.text (String.ofList chars))) <|>
  (do let e ← enclosed (exactly "\x7b") inner (exactly "\x7d"); pure (.hole e))

theorem leaves_piece {inner : Scan Expr} (leaves : Leaves 0 inner) : Leaves 1 (piece inner) := by
  refine .orElse ((Leaves.many1 leaves_interpolatedChar).bind_left fun _ => .pure _) ?_
  have hole : Leaves 1 (enclosed (exactly "\x7b") inner (exactly "\x7d")) :=
    .enclosed (Leaves.exactly "\x7b") leaves ((Leaves.exactly "\x7d").mono (Nat.zero_le _))
  exact hole.bind_left fun _ => .pure _

theorem leaves_typeList {d : Nat} (leaves : Leaves 0 (typeName d)) :
    Leaves 0 (enclosed (symbol "<") (separated (typeName d) (symbol ",")) (symbol ">")) :=
  .enclosed ((Leaves.symbol "<").mono (Nat.zero_le _))
    (.separated leaves ((Leaves.symbol ",").mono (Nat.zero_le _)))
    ((Leaves.symbol ">").mono (Nat.zero_le _))

theorem leaves_typeName (d : Nat) : Leaves 0 (typeName d) := by
  induction d with
  | zero => exact .failure 0
  | succ d inductionHypothesis =>
      have name : Leaves 0 name := leaves_name.mono (Nat.zero_le 1)
      have symbol (text : String) : Leaves 0 (symbol text) :=
        (Leaves.symbol text).mono (Nat.zero_le _)
      exact name.bind_left fun _ => (Leaves.many ((symbol ".").bind_left fun _ => name)).bind_left
        fun _ => (leaves_typeList inductionHypothesis).optional.bind_left fun _ =>
        (Leaves.many ((symbol "[").bind_left fun _ => symbol "]")).bind_left fun _ => .pure _

theorem leaves_operator {α : Type} {symbolOf : α → String}
    (nonempty : ∀ a, 1 ≤ (symbolOf a).toList.length) (ops : List α) :
    Leaves 1 (operator symbolOf ops) := by
  induction ops with
  | nil => exact .failure 1
  | cons op ops inductionHypothesis =>
      exact .orElse (((Leaves.symbol (symbolOf op)).mono (nonempty op)).bind_left fun _ => .pure op)
        inductionHypothesis

theorem leaves_unary (ops : List UnaryOp) : Leaves 1 (operator UnaryOp.symbol ops) :=
  leaves_operator (fun op => by cases op <;> decide) ops

theorem leaves_binary (ops : List BinaryOp) : Leaves 1 (operator BinaryOp.symbol ops) :=
  leaves_operator (fun op => by cases op <;> decide) ops

theorem leaves_typeArguments {d : Nat} (leaves : Leaves 0 (typeName d)) :
    Leaves 0 (typeArguments d) :=
  (leaves_typeList leaves).bind_left fun arguments =>
    (Leaves.ahead _).bind_left fun _ => .pure arguments

/-- The name of a member, with type arguments where a call follows. -/
def memberOf (depth : Nat) (conditional : Bool) : Scan (Expr → Expr) := do
  let n ← name
  let arguments ← optional (typeArguments depth)
  pure fun e => .member e n arguments conditional

theorem leaves_memberOf {d : Nat} (types : Leaves 0 (typeName d)) (conditional : Bool) :
    Leaves 0 (memberOf d conditional) :=
  (leaves_name.mono (Nat.zero_le 1)).bind_left fun _ =>
    (leaves_typeArguments types).optional.bind_left fun _ => .pure _

theorem leaves_bracketed {opening closing : String} {inner : Scan Expr} (leaves : Leaves 0 inner)
    (nonempty : 1 ≤ opening.toList.length) :
    Leaves 1 (enclosed (symbol opening) (separated inner (symbol ",")) (symbol closing)) :=
  .enclosed ((Leaves.symbol opening).mono nonempty)
    (.separated leaves ((Leaves.symbol ",").mono (Nat.zero_le _)))
    ((Leaves.symbol closing).mono (Nat.zero_le _))

theorem leaves_postfixPart {d : Nat} {inner : Scan Expr} (leaves : Leaves 0 inner)
    (types : Leaves 0 (typeName d)) : Leaves 1 (postfixPart d inner) := by
  have bracketed {opening closing : String} (nonempty : 1 ≤ opening.toList.length)
      (g : List Expr → Expr → Expr) :
      Leaves 1 (do
        let es ← enclosed (symbol opening) (separated inner (symbol ",")) (symbol closing)
        pure (g es)) :=
    (leaves_bracketed leaves nonempty).bind_left fun es => .pure (g es)
  refine .orElse ?_ <| .orElse ?_ <| .orElse ?_ <| .orElse ?_ ?_
  · exact ((Leaves.symbol ".").mono (by decide)).bind_left fun _ => leaves_memberOf types false
  · exact ((Leaves.symbol "?.").mono (by decide)).bind_left fun _ => leaves_memberOf types true
  · exact bracketed (by decide) fun es e => .element e es false
  · exact bracketed (by decide) fun es e => .element e es true
  · exact bracketed (by decide) fun es e => .invocation e es

/-! ## What a reader needs -/

theorem shown_of_isDigit {c : Char} (isDigit : c.isDigit = true) : isBlank c = false := by
  simp only [Char.isDigit, Bool.and_eq_true, decide_eq_true_eq, ge_iff_le,
    UInt32.le_iff_toNat_le] at isDigit
  refine isBlank_of_visible (Nat.lt_of_lt_of_le ?_ isDigit.1) (Nat.lt_of_le_of_lt isDigit.2 ?_)
  all_goals decide

/-- A name starts with a capital, another letter or an underscore. -/
theorem isNameStart_cases {c : Char} (isStart : isNameStart c = true) :
    ((65 ≤ c.toNat ∧ c.toNat ≤ 90) ∨ (97 ≤ c.toNat ∧ c.toNat ≤ 122)) ∨ c = '_' := by
  change ((decide (c.val ≥ 65 ∧ c.val ≤ 90) || (decide (c.val ≥ 97) && decide (c.val ≤ 122))) ||
    c == '_') = true at isStart
  simp only [Bool.or_eq_true, Bool.and_eq_true, decide_eq_true_eq, ge_iff_le,
    UInt32.le_iff_toNat_le, beq_iff_eq] at isStart
  exact isStart

theorem shown_of_isNameStart {c : Char} (isStart : isNameStart c = true) : isBlank c = false := by
  rcases isNameStart_cases isStart with (upper | lower) | rfl
  · refine isBlank_of_visible (Nat.lt_of_lt_of_le ?_ upper.1) (Nat.lt_of_le_of_lt upper.2 ?_)
    all_goals decide
  · refine isBlank_of_visible (Nat.lt_of_lt_of_le ?_ lower.1) (Nat.lt_of_le_of_lt lower.2 ?_)
    all_goals decide
  · decide

theorem needs_digit : Needs digit := .satisfy fun _ => shown_of_isDigit

theorem needs_name : Needs name := (Needs.satisfy fun _ => shown_of_isNameStart).bind _

theorem needs_integerLiteral : Needs integerLiteral :=
  Needs.bind (.orElse ((Needs.orElse (.exactly rfl rfl) (.exactly rfl rfl)).bind _)
    ((needs_digit.bind _).bind _)) _

theorem needs_literalTerm : Needs literalTerm := by
  refine .orElse ?_ (.orElse ?_ (.orElse ?_ ?_))
  · exact ((needs_digit.bind _).bind _).bind _
  · exact needs_integerLiteral.bind _
  · exact (((Needs.exactly rfl rfl).bind _).bind _).bind _
  · exact Needs.bind (.orElse (((Needs.exactly rfl rfl).bind _).bind _)
      (((Needs.exactly rfl rfl).bind _).bind _)) _

theorem needs_inParentheses {α : Type} (p : Scan α) : Needs (inParentheses p) :=
  (Needs.symbol rfl).bind _

theorem needs_typeArguments (depth : Nat) : Needs (typeArguments depth) :=
  ((Needs.symbol rfl).bind _).bind _

theorem needs_typeName (depth : Nat) : Needs (typeName depth) := by
  cases depth with
  | zero => exact fun _ _ => rfl
  | succ depth => exact needs_name.bind _

theorem needs_term (depth : Nat) (inner : Scan Expr) : Needs (term depth inner) := by
  refine .padded ?_
  have parts : Needs (literalTerm <|> interpolatedTerm inner <|> checkedTerm inner <|>
      sizeOfTerm depth <|> genericTerm depth <|> nameTerm <|> inParentheses inner) :=
    .orElse needs_literalTerm <| .orElse (((Needs.exactly rfl rfl).bind _).bind _) <|
      .orElse (Needs.bind (.orElse ((Needs.exactly rfl rfl).bind _)
        ((Needs.exactly rfl rfl).bind _)) _) <|
      .orElse ((Needs.exactly rfl rfl).bind _) <| .orElse (needs_name.bind _) <|
      .orElse (needs_name.bind _) (needs_inParentheses inner)
  exact parts [] blank_nil

theorem needs_postfixPart (depth : Nat) (inner : Scan Expr) : Needs (postfixPart depth inner) :=
  .orElse ((Needs.symbol rfl).bind _) <| .orElse ((Needs.symbol rfl).bind _) <|
    .orElse (((Needs.symbol rfl).bind _).bind _) <|
    .orElse (((Needs.symbol rfl).bind _).bind _) ((needs_inParentheses _).bind _)

theorem needs_operator {α : Type} {symbolOf : α → String}
    (all : ∀ a, exactly (symbolOf a) [] = none) (ops : List α) : Needs (operator symbolOf ops) := by
  induction ops with
  | nil => exact fun _ _ => rfl
  | cons op ops inductionHypothesis =>
      exact .orElse ((Needs.symbol (all op)).bind _) inductionHypothesis

theorem needs_unary (ops : List UnaryOp) : Needs (operator UnaryOp.symbol ops) :=
  needs_operator (fun op => by cases op <;> rfl) ops

theorem needs_binary (ops : List BinaryOp) : Needs (operator BinaryOp.symbol ops) :=
  needs_operator (fun op => by cases op <;> rfl) ops

theorem needs_unaryLevel {operand : Scan Expr} (needs : Needs operand) :
    Needs (unaryLevel operand) := by
  intro u blank
  have nothing : many (operator UnaryOp.symbol UnaryOp.all) u = some ([], u) :=
    congrArg some (itemsOf_of_none (needs_unary _ u blank))
  exact (bind_of_some nothing).trans (bind_of_none (needs u blank))

theorem needs_leftLevels (levels : List (List BinaryOp)) {operand : Scan Expr}
    (needs : Needs operand) :
    Needs (levels.foldl (fun operand ops => leftLevel ops operand) operand) := by
  induction levels generalizing operand with
  | nil => exact needs
  | cons ops levels inductionHypothesis => exact inductionHypothesis (needs.bind _)

theorem needs_expression (depth : Nat) : Needs (expression depth) := by
  cases depth with
  | zero => exact fun _ _ => rfl
  | succ depth =>
      have primary : Needs (primary (depth + 1) (expression depth)) := (needs_term _ _).bind _
      exact (needs_leftLevels leftLevels (needs_unaryLevel primary)).bind _

theorem skips_postfixPart (depth : Nat) (inner : Scan Expr) : Skips (postfixPart depth inner) :=
  .orElse ((Skips.symbol _).bind _) <| .orElse ((Skips.symbol _).bind _) <|
    .orElse (((Skips.symbol _).bind _).bind _) <|
    .orElse (((Skips.symbol _).bind _).bind _) (((Skips.symbol _).bind _).bind _)

/-! ## Names and literals -/

section

variable {t : List Char} {n : Nat} (attached : Attached t)
include attached

theorem closed_digit : Closed t n digit digit := .satisfy attached.toSeam (by decide)

theorem closed_hexDigit : Closed t n hexDigit hexDigit := .satisfy attached.toSeam (by decide)

theorem closed_oneOf {chars : String}
    (rejects : chars.toList.contains '.' = false ∧ chars.toList.contains '[' = false ∧
      chars.toList.contains '>' = false ∧ chars.toList.contains '?' = false) :
    Closed t n (oneOf chars) (oneOf chars) := .satisfy attached.toSeam rejects

theorem closed_digits : Closed t n (many1 digit) (many1 digit) :=
  (closed_digit attached).many1 leaves_digit

theorem closed_integerSuffix : Closed t n integerSuffix integerSuffix := by
  have u : Closed t n (oneOf "uU") (oneOf "uU") := closed_oneOf attached (by decide)
  have l : Closed t n (oneOf "lL") (oneOf "lL") := closed_oneOf attached (by decide)
  exact .orElse (u.bind fun _ => l.bind fun _ => .pure _) <|
    .orElse (l.bind fun _ => u.bind fun _ => .pure _) <|
    .orElse (u.bind fun _ => .pure _) <| .orElse (l.bind fun _ => .pure _) (.pure _)

theorem closed_integerLiteral : Closed t n integerLiteral integerLiteral := by
  have lead : Closed t n (exactly "0x" <|> exactly "0X") (exactly "0x" <|> exactly "0X") :=
    .orElse (.exactly attached.toSeam ⟨by decide, by decide⟩)
      (.exactly attached.toSeam ⟨by decide, by decide⟩)
  have digits : Closed t n integerDigits integerDigits :=
    .orElse (lead.bind fun _ =>
        ((closed_hexDigit attached).many1 leaves_hexDigit).bind fun _ => .pure _)
      ((closed_digits attached).bind fun _ => .pure _)
  exact digits.bind fun _ => (closed_integerSuffix attached).bind fun _ => .ofOption _

/-- A number that ends in the text has no fraction behind it. -/
theorem closed_fractionPart : Closed t n fractionPart fractionPart where
  leaves := ((Leaves.exactly ".").mono (Nat.zero_le _)).bind_left fun _ =>
    (closed_digits (n := 0) attached).leaves
  finishes := .bind_last ((Leaves.exactly ".").mono (Nat.zero_le _))
    (fun _ => (closed_digits (n := 0) attached).finishes) fun _ => needs_digit.bind _
  same u short ended := by
    by_cases nothing : u = []
    · subst nothing
      exact .of_none rfl attached.noFraction
    · have here : Same t (exactly ".") (exactly ".") u := by
        refine .exactly_inside fun v agree => ?_
        obtain ⟨c, r, rfl⟩ := List.exists_cons_of_ne_nil nothing
        exact (List.append_eq_nil_iff.mp (List.cons.inj agree).2).2
      refine here.bind fun _ r read => ?_
      have suffix := ((Leaves.exactly ".") u () r read).1
      exact (closed_digits attached).same r (Nat.lt_of_le_of_lt suffix.length_le short)
        (ended.of_suffix suffix)

theorem closed_realLiteral : Closed t n realLiteral realLiteral := by
  have exponent : Closed t n exponentPart exponentPart :=
    (closed_oneOf attached (by decide)).bind fun _ =>
      (closed_oneOf attached (by decide)).optional.bind fun _ =>
      (closed_digits attached).bind fun _ => .pure _
  exact (closed_digits attached).bind fun _ => (closed_fractionPart attached).optional.bind fun _ =>
    exponent.optional.bind fun _ => (closed_oneOf attached (by decide)).optional.bind fun _ =>
    .ite .failure (.ofOption _)

/-- One character, looked up in a table. -/
theorem closed_lookup {α : Type} {f : Char → Option α}
    (rejects : f '.' = none ∧ f '[' = none ∧ f '>' = none ∧ f '?' = none) :
    Closed t n (do let c ← satisfy fun _ => true; ofOption (f c))
      (do let c ← satisfy fun _ => true; ofOption (f c)) where
  leaves := ((Leaves.satisfy _).mono (Nat.zero_le 1)).bind_left fun c => .ofOption (f c)
  finishes u a r read blank := by
    cases u with
    | nil => cases read
    | cons c u =>
        change ofOption (f c) u = some (a, r) at read
        cases found : f c with
        | none =>
            rw [found] at read
            cases read
        | some b =>
            rw [found] at read
            obtain ⟨-, rfl⟩ := Prod.mk.inj (Option.some.inj read)
            refine blank.ended_cons ⟨?_, ?_⟩
            · rintro rfl
              rw [rejects.2.2.1] at found
              cases found
            · rintro rfl
              rw [rejects.2.2.2] at found
              cases found
  same u _ _ := by
    cases u with
    | cons c u =>
        exact (Same.satisfy (List.cons_ne_nil c u)).bind fun c r _ => .ofOption (f c) r
    | nil =>
        obtain ⟨c, more, rfl, starts⟩ := attached.start
        have rejected : f c = none := by
          rcases starts with rfl | rfl
          · exact rejects.1
          · exact rejects.2.1
        refine .of_none rfl ?_
        change ofOption (f c) more = none
        rw [rejected]
        rfl

theorem closed_escape : Closed t n escape escape := by
  have digit : Closed t n hexDigit hexDigit := closed_hexDigit attached
  refine (Closed.exactly attached.toSeam ⟨by decide, by decide⟩).bind fun _ => .orElse ?_ ?_
  · exact closed_lookup attached (by decide)
  · exact (Closed.exactly attached.toSeam ⟨by decide, by decide⟩).bind fun _ =>
      digit.bind fun _ => digit.bind fun _ => digit.bind fun _ => digit.bind fun _ => .ofOption _

/-- A character of a literal, or the way it is escaped. -/
theorem same_escapeOr {chars : String} {u : List Char} (short : u.length < n) (ended : Ended u)
    (nonempty : u ≠ []) : Same t (escape <|> noneOf chars) (escape <|> noneOf chars) u :=
  ((closed_escape attached).same u short ended).orElse (.satisfy nonempty)

theorem same_interpolatedChar {u : List Char} (short : u.length < n) (ended : Ended u)
    (nonempty : u ≠ []) : Same t interpolatedChar interpolatedChar u := by
  have brace {text : String} (inner : '.' ∉ text.toList ∧ '[' ∉ text.toList) (c : Char) :
      Same t (do exactly text; pure c) (do exactly text; pure c) u :=
    (Same.exactly (attached.head_not_mem inner) u).bind fun _ r _ => .pure c r
  exact (brace (by decide) '\x7b').orElse <| (brace (by decide) '\x7d').orElse <|
    same_escapeOr attached short ended nonempty

theorem closed_charLiteral : Closed t n charLiteral charLiteral := by
  have leaves : Leaves 1 (escape <|> noneOf "'\\") := .orElse leaves_escape (.satisfy _)
  have body : Closed t n (enclosed (exactly "'") (escape <|> noneOf "'\\") (exactly "'"))
      (enclosed (exactly "'") (escape <|> noneOf "'\\") (exactly "'")) :=
    .quoted attached.toSeam (.exactly attached.toSeam ⟨by decide, by decide⟩) rfl (.inr rfl)
      (leaves.mono (Nat.zero_le 1)) (between_single leaves leaves fun _ => same_escapeOr attached)
  exact body.bind fun _ => .ite (.pure _) .failure

theorem closed_regularString : Closed t n regularString regularString := by
  have leaves : Leaves 1 (escape <|> noneOf "\"\\") := .orElse leaves_escape (.satisfy _)
  have body : Closed t n (enclosed (exactly "\"") (many (escape <|> noneOf "\"\\")) (exactly "\""))
      (enclosed (exactly "\"") (many (escape <|> noneOf "\"\\")) (exactly "\"")) :=
    .quoted attached.toSeam (.exactly attached.toSeam ⟨by decide, by decide⟩) rfl (.inl rfl)
      (.many (leaves.mono (Nat.zero_le 1)))
      (between_many leaves leaves fun _ short ended nonempty =>
        .inl (same_escapeOr attached short ended nonempty))
  exact body.bind fun _ => .pure _

theorem closed_verbatimString : Closed t n verbatimString verbatimString := by
  let char : Scan Char := (do exactly "\"\""; pure '"') <|> noneOf "\""
  have leaves : Leaves 1 char := by
    refine .orElse ?_ (.satisfy _)
    exact ((Leaves.exactly "\"\"").mono (by decide)).bind_left fun _ => .pure '"'
  have body : Closed t n (enclosed (exactly "@\"") (many char) (exactly "\""))
      (enclosed (exactly "@\"") (many char) (exactly "\"")) := by
    refine .quoted attached.toSeam (.exactly attached.toSeam ⟨by decide, by decide⟩) rfl (.inl rfl)
      (.many (leaves.mono (Nat.zero_le 1)))
      (between_many leaves leaves fun u _ _ nonempty => .inl (.orElse ?_ (.satisfy nonempty)))
    exact (Same.exactly (attached.head_not_mem (by decide)) u).bind fun _ r _ => .pure '"' r
  exact body.bind fun _ => .pure _

theorem closed_literalTerm : Closed t n literalTerm literalTerm :=
  .orElse ((closed_realLiteral attached).bind fun _ => .pure _) <|
    .orElse ((closed_integerLiteral attached).bind fun _ => .pure _) <|
    .orElse ((closed_charLiteral attached).bind fun _ => .pure _)
      ((Closed.orElse (closed_verbatimString attached) (closed_regularString attached)).bind
        fun _ => .pure _)

theorem closed_name : Closed t n name name := by
  have start : Closed t n (satisfy isNameStart) (satisfy isNameStart) :=
    .satisfy attached.toSeam (by decide)
  have char : Closed t n (satisfy isNameChar) (satisfy isNameChar) :=
    .satisfy attached.toSeam (by decide)
  exact start.bind fun _ => (char.many (.satisfy _)).bind fun _ => .pure _

/-! ## Types -/

/-- A step of a dotted name. -/
theorem item_path : Item t n (do symbol "."; name) (do symbol "."; name) where
  leaves := (Leaves.symbol ".").bind_left fun _ => leaves_name.mono (Nat.zero_le 1)
  needs := (Needs.symbol rfl).bind _
  needs' := (Needs.symbol rfl).bind _
  live u short ended nonblank := by
    refine Same.outcome ((Same.symbol_single attached.toSeam rfl nonblank).bind fun _ r read => ?_)
    have suffix := (Leaves.symbol "." u () r read).1
    exact (closed_name attached).same r (Nat.lt_of_le_of_lt suffix.length_le short)
      (ended.of_suffix suffix)
  seam u _ blank := by
    rw [attached.of_blank ((Skips.symbol ".").bind _) blank]
    exact attached.path

/-- A pair of brackets behind the name of a type. -/
theorem item_rank :
    Item t n (do symbol "["; symbol "]" : Scan Unit) (do symbol "["; symbol "]") where
  leaves := (Leaves.symbol "[").bind_left fun _ => (Leaves.symbol "]").mono (Nat.zero_le _)
  needs := (Needs.symbol rfl).bind _
  needs' := (Needs.symbol rfl).bind _
  live u short ended nonblank := by
    refine Same.outcome ((Same.symbol_single attached.toSeam rfl nonblank).bind fun _ r read => ?_)
    have suffix := (Leaves.symbol "[" u () r read).1
    exact (Closed.symbol attached.toSeam ⟨by decide, by decide⟩).same r
      (Nat.lt_of_le_of_lt suffix.length_le short) (ended.of_suffix suffix)
  seam u _ blank := by
    rw [attached.of_blank ((Skips.symbol "[").bind _) blank]
    exact .inl attached.noRank

omit attached in
/-- A text does not end in the bracket that closes type arguments. -/
theorem typeList_more {d : Nat} (leaves : Leaves 0 (typeName d)) {u v : List Char}
    {arguments : List TypeExpr} (ended : Ended u)
    (read : enclosed (symbol "<") (separated (typeName d) (symbol ",")) (symbol ">") u =
      some (arguments, v)) : ¬ Blank v := by
  intro blank
  obtain ⟨_, r, opening, rest⟩ := bind_eq_some_iff.mp read
  obtain ⟨_, w, list, rest⟩ := bind_eq_some_iff.mp rest
  obtain ⟨_, x, closing, last⟩ := bind_eq_some_iff.mp rest
  obtain ⟨-, rfl⟩ := Prod.mk.inj (Option.some.inj last)
  obtain ⟨x, same, rfl⟩ := symbol_eq_some_iff.mp closing
  have inner : Leaves 0 (separated (typeName d) (symbol ",")) :=
    .separated leaves ((Leaves.symbol ",").mono (Nat.zero_le _))
  have suffix : '>' :: x <:+ u := by
    have within : w <:+ u := (inner r _ w list).1.trans (Leaves.symbol "<" u () r opening).1
    have last : '>' :: x = skipBlanks w := same.symm
    exact last ▸ (skipBlanks_suffix w).trans within
  exact (ended '>' x suffix (blank_of_skipBlanks blank)).1 rfl

/-- Type arguments in their brackets, before it is known that they are some. -/
theorem same_typeList {d d' : Nat} (types : Match t n (typeName d) (typeName d')) (u : List Char)
    (short : u.length < n + 1) (ended : Ended u) :
    Same t (enclosed (symbol "<") (separated (typeName d) (symbol ",")) (symbol ">"))
      (enclosed (symbol "<") (separated (typeName d') (symbol ",")) (symbol ">")) u := by
  have opening : Closed t (n + 1) (symbol "<") (symbol "<") :=
    .symbol attached.toSeam ⟨by decide, by decide⟩
  have comma : Closed t n (symbol ",") (symbol ",") :=
    .symbol attached.toSeam ⟨by decide, by decide⟩
  have list : Match t n (separated (typeName d) (symbol ","))
      (separated (typeName d') (symbol ",")) :=
    .separated types (comma.matching (.symbol rfl) (.symbol rfl)) (Leaves.symbol ",") (.symbol rfl)
      (.symbol rfl) attached.ne_nil
  refine (opening.same u short ended).bind fun _ r read => ?_
  obtain ⟨suffix, shorter⟩ := Leaves.symbol "<" u () r read
  have shorter : r.length + 1 ≤ u.length := shorter
  refine Same.closing list (fun a v _ _ => ?_) (fun _ => (Needs.symbol rfl).bind _)
    (fun _ => (Needs.symbol rfl).bind _) r (by omega) (ended.of_suffix suffix)
  have closing : Same t (symbol ">") (symbol ">") v :=
    .padded attached.toSeam (.exactly (attached.head_not_mem (by decide)) _)
  exact closing.bind fun _ r _ => .pure a r

theorem match_typeName {d d' : Nat} (le : d ≤ d') : Match t d (typeName d) (typeName d') := by
  induction d generalizing d' with
  | zero => exact .of_failure (needs_typeName d')
  | succ d inductionHypothesis =>
      obtain ⟨d', rfl⟩ : ∃ e, d' = e + 1 := ⟨d' - 1, by omega⟩
      have types := inductionHypothesis (Nat.le_of_succ_le_succ le)
      have list : Match t (d + 1)
          (enclosed (symbol "<") (separated (typeName d) (symbol ",")) (symbol ">"))
          (enclosed (symbol "<") (separated (typeName d') (symbol ",")) (symbol ">")) :=
        .of_same (leaves_typeList (types.leaves ())) (same_typeList attached types)
          ((Needs.symbol rfl).bind _) ((Needs.symbol rfl).bind _)
      refine Matches.bind ((closed_name attached).matching needs_name needs_name) ?_
      refine Matches.bind ((item_path attached).many attached.ne_nil) ?_
      refine Matches.bind list.optional ?_
      refine Matches.bind ((item_rank attached).many attached.ne_nil) ?_
      exact Matches.pure _

/-- What stands behind type arguments keeps them from being the last of the text. -/
theorem closed_typeArguments {d d' : Nat} (types : Match t n (typeName d) (typeName d')) :
    Closed t (n + 1) (typeArguments d) (typeArguments d') where
  leaves := leaves_typeArguments (types.leaves ())
  finishes u a r read blank := by
    obtain ⟨arguments, v, list, rest⟩ := bind_eq_some_iff.mp read
    obtain ⟨_, w, followed, same⟩ := bind_eq_some_iff.mp rest
    obtain ⟨-, rfl⟩ := Prod.mk.inj (Option.some.inj same)
    obtain ⟨x, next, same⟩ := Option.map_eq_some_iff.mp followed
    obtain ⟨-, rfl⟩ := Prod.mk.inj same
    rw [Needs.orElse (Needs.symbol rfl) (Needs.symbol rfl) _ blank] at next
    cases next
  same u short ended := by
    refine (same_typeList attached types u short ended).bind fun arguments v read => ?_
    have nonblank : ¬ Blank v := typeList_more (types.leaves ()) ended read
    have next : Same t (symbol "(" <|> symbol ".") (symbol "(" <|> symbol ".") v :=
      (Same.symbol_single attached.toSeam rfl nonblank).orElse
        (.symbol_single attached.toSeam rfl nonblank)
    exact next.ahead.bind fun _ r _ => .pure arguments r

/-! ## Terms -/

theorem closed_inParentheses {α : Type} {p p' : Scan α} (matching : Match t n p p') :
    Closed t (n + 1) (inParentheses p) (inParentheses p') :=
  .enclosed (.symbol attached.toSeam ⟨by decide, by decide⟩) (Leaves.symbol "(") matching
    (.symbol attached.toSeam ⟨by decide, by decide⟩) (.symbol rfl)

section

variable {inner inner' : Scan Expr} (matching : Match t n inner inner')
include matching

theorem inside_piece {u : List Char} (short : u.length < n + 1) (ended : Ended u)
    (nonempty : u ≠ []) : Inside t (piece inner) (piece inner') u := by
  have text : Inside t (many1 interpolatedChar) (many1 interpolatedChar) u :=
    inside_many1 leaves_interpolatedChar leaves_interpolatedChar
      (fun _ => same_interpolatedChar attached) u short ended nonempty
  have hole : Closed t (n + 1) (enclosed (exactly "\x7b") inner (exactly "\x7d"))
      (enclosed (exactly "\x7b") inner' (exactly "\x7d")) :=
    .enclosed (.exactly attached.toSeam ⟨by decide, by decide⟩) (Leaves.exactly "\x7b") matching
      (.exactly attached.toSeam ⟨by decide, by decide⟩) (.exactly rfl rfl)
  exact (text.bind_pure _).orElse ((hole.bind fun _ => .pure _).same u short ended)

theorem closed_interpolatedTerm (leaves' : Leaves 0 inner') :
    Closed t (n + 1) (interpolatedTerm inner) (interpolatedTerm inner') := by
  have leaves := leaves_piece (matching.leaves ())
  have body : Closed t (n + 1) (enclosed (exactly "$\"") (many (piece inner)) (exactly "\""))
      (enclosed (exactly "$\"") (many (piece inner')) (exactly "\"")) :=
    .quoted attached.toSeam (.exactly attached.toSeam ⟨by decide, by decide⟩) rfl (.inl rfl)
      (.many (leaves.mono (Nat.zero_le 1)))
      (between_many leaves (leaves_piece leaves') fun _ => inside_piece attached matching)
  exact body.bind fun _ => .pure _

theorem closed_term {d d' : Nat} (leaves' : Leaves 0 inner')
    (types : Match t n (typeName d) (typeName d')) :
    Closed t (n + 1) (term d inner) (term d' inner') := by
  have word {text : String} (plain : Plain text) : Closed t (n + 1) (exactly text) (exactly text) :=
    .exactly attached.toSeam plain
  have checked : Closed t (n + 1) (checkedTerm inner) (checkedTerm inner') :=
    (Closed.orElse ((word ⟨by decide, by decide⟩).bind fun _ => .pure true)
      ((word ⟨by decide, by decide⟩).bind fun _ => .pure false)).bind fun _ =>
      (closed_inParentheses attached matching).bind fun _ => .pure _
  have size : Closed t (n + 1) (sizeOfTerm d) (sizeOfTerm d') :=
    (word ⟨by decide, by decide⟩).bind fun _ =>
      (closed_inParentheses attached types).bind fun _ => .pure _
  have generic : Closed t (n + 1) (genericTerm d) (genericTerm d') :=
    (closed_name attached).bind fun _ => (closed_typeArguments attached types).bind fun _ => .pure _
  exact .padded attached.toSeam <| .orElse (closed_literalTerm attached) <|
    .orElse (closed_interpolatedTerm attached matching leaves') <| .orElse checked <|
    .orElse size <| .orElse generic <| .orElse ((closed_name attached).bind fun _ => .pure _)
    (closed_inParentheses attached matching)

theorem match_list : Match t n (separated inner (symbol ",")) (separated inner' (symbol ",")) := by
  have comma : Closed t n (symbol ",") (symbol ",") :=
    .symbol attached.toSeam ⟨by decide, by decide⟩
  exact .separated matching (comma.matching (.symbol rfl) (.symbol rfl)) (Leaves.symbol ",")
    (.symbol rfl) (.symbol rfl) attached.ne_nil

omit matching in
theorem closed_memberOf {d d' : Nat} (types : Match t n (typeName d) (typeName d'))
    (conditional : Bool) : Closed t (n + 1) (memberOf d conditional) (memberOf d' conditional) :=
  (closed_name attached).bind fun _ => (closed_typeArguments attached types).optional.bind
    fun _ => .pure _

/-- Before the end of the text, what follows a term is the same. -/
theorem same_postfixPart {d d' : Nat} (types : Match t n (typeName d) (typeName d'))
    {u : List Char} (short : u.length < n + 1) (ended : Ended u) (nonblank : ¬ Blank u) :
    Same t (postfixPart d inner) (postfixPart d' inner') u := by
  have list := match_list attached matching
  have indices : Closed t n
      (do let a ← separated inner (symbol ","); let _ ← symbol "]"; pure a)
      (do let a ← separated inner' (symbol ","); let _ ← symbol "]"; pure a) :=
    .closing list (fun _ => (Closed.symbol attached.toSeam ⟨by decide, by decide⟩).bind
      fun _ => .pure _) (fun _ => (Needs.symbol rfl).bind _) fun _ => (Needs.symbol rfl).bind _
  have after {text : String} {r : List Char} (read : symbol text u = some ((), r)) :
      r.length + text.toList.length < n + 1 ∧ Ended r := by
    obtain ⟨suffix, shorter⟩ := Leaves.symbol text u () r read
    exact ⟨by omega, ended.of_suffix suffix⟩
  have member {text : String} (dot : Same t (symbol text) (symbol text) u) (conditional : Bool) :
      Same t (do symbol text; memberOf d conditional)
        (do symbol text; memberOf d' conditional) u := by
    refine dot.bind fun _ r read => ?_
    exact (closed_memberOf attached types conditional).same r
      (Nat.lt_of_le_of_lt (Nat.le_add_right _ _) (after read).1) (after read).2
  have element {text : String} (opening : Same t (symbol text) (symbol text) u)
      (nonempty : 0 < text.toList.length) (g : List Expr → Expr → Expr) :
      Same t (do
          let es ← enclosed (symbol text) (separated inner (symbol ",")) (symbol "]")
          pure (g es))
        (do
          let es ← enclosed (symbol text) (separated inner' (symbol ",")) (symbol "]")
          pure (g es)) u := by
    refine Same.bind (opening.bind fun _ r read => indices.same r ?_ (after read).2)
      fun es r _ => .pure (g es) r
    have := (after read).1
    omega
  refine .orElse ?_ <| .orElse ?_ <| .orElse ?_ <| .orElse ?_ ?_
  · exact member (.symbol_single attached.toSeam rfl nonblank) false
  · exact member (.symbol_pair attached.toSeam rfl nonblank ended) true
  · exact element (.symbol_single attached.toSeam rfl nonblank) (by decide) _
  · exact element (.symbol_pair attached.toSeam rfl nonblank ended) (by decide) _
  · exact ((closed_inParentheses attached list).bind fun _ => .pure _).same u short ended

/-- What follows a term ends in a name or in a bracket. -/
theorem finishes_postfixPart {d d' : Nat} (types : Match t n (typeName d) (typeName d')) :
    Finishes (postfixPart d inner) := by
  have leaves := matching.leaves ()
  have member {text : String} (conditional : Bool) :
      Finishes (do symbol text; memberOf d conditional) :=
    .bind_last ((Leaves.symbol text).mono (Nat.zero_le _))
      (fun _ => (closed_memberOf attached types conditional).finishes) fun _ => needs_name.bind _
  have bracketed {opening closing : String} (plain : Plain closing)
      (failed : exactly closing [] = none) (nonempty : 1 ≤ opening.toList.length)
      (g : List Expr → Expr → Expr) :
      Finishes (do
        let es ← enclosed (symbol opening) (separated inner (symbol ",")) (symbol closing)
        pure (g es)) := by
    refine Finishes.bind_pure ?_ ((leaves_bracketed leaves nonempty).mono (Nat.zero_le 1)) g
    exact .enclosed ((Leaves.symbol opening).mono (Nat.zero_le _))
      ((match_list attached matching).leaves ())
      (Closed.symbol (n := n) attached.toSeam plain).finishes
      ((Leaves.symbol closing).mono (Nat.zero_le _)) (.symbol failed)
  refine .orElse (member false) <| .orElse (member true) <| .orElse ?_ <| .orElse ?_ ?_
  · exact bracketed ⟨by decide, by decide⟩ rfl (by decide) fun es e => .element e es false
  · exact bracketed ⟨by decide, by decide⟩ rfl (by decide) fun es e => .element e es true
  · exact bracketed ⟨by decide, by decide⟩ rfl (by decide) fun es e => .invocation e es

end

/-! ## Levels -/

/-- Operators go on neither with a dot nor with a bracket. -/
theorem same_operator {α : Type} {symbolOf : α → String}
    (inner : ∀ a, '.' ∉ (symbolOf a).toList ∧ '[' ∉ (symbolOf a).toList) (ops : List α)
    (u : List Char) : Same t (operator symbolOf ops) (operator symbolOf ops) u := by
  induction ops with
  | nil => exact .of_none rfl rfl
  | cons op ops inductionHypothesis =>
      have symbol : Same t (symbol (symbolOf op)) (symbol (symbolOf op)) u :=
        .padded attached.toSeam (.exactly (attached.head_not_mem (inner op)) _)
      exact (symbol.bind fun _ r _ => .pure op r).orElse inductionHypothesis

theorem match_unary (ops : List UnaryOp) :
    Match t n (operator UnaryOp.symbol ops) (operator UnaryOp.symbol ops) :=
  .of_same ((leaves_unary ops).mono (Nat.zero_le 1))
    (fun u _ _ => same_operator attached (fun op => by cases op <;> decide) ops u)
    (needs_unary ops) (needs_unary ops)

theorem match_binary (ops : List BinaryOp) :
    Match t n (operator BinaryOp.symbol ops) (operator BinaryOp.symbol ops) :=
  .of_same ((leaves_binary ops).mono (Nat.zero_le 1))
    (fun u _ _ => same_operator attached (fun op => by cases op <;> decide) ops u)
    (needs_binary ops) (needs_binary ops)

section

variable {operand operand' : Scan Expr} (matching : Match t n operand operand')
include matching

theorem match_unaryLevel : Match t n (unaryLevel operand) (unaryLevel operand') := by
  have op : Item t n (operator UnaryOp.symbol UnaryOp.all) (operator UnaryOp.symbol UnaryOp.all) :=
    (match_unary attached _).item (leaves_unary _) (needs_unary _) (needs_unary _)
  refine Matches.bind (op.many attached.ne_nil) ?_
  refine Matches.bind matching ?_
  exact Matches.pure _

theorem match_leftLevel (ops : List BinaryOp) :
    Match t n (leftLevel ops operand) (leftLevel ops operand') := by
  have next : Match t n
      (do let op ← operator BinaryOp.symbol ops; let e ← operand; pure (op, e))
      (do let op ← operator BinaryOp.symbol ops; let e ← operand'; pure (op, e)) := by
    refine Matches.bind (match_binary attached ops) ?_
    refine Matches.bind matching ?_
    exact Matches.pure _
  have item : Item t n
      (do let op ← operator BinaryOp.symbol ops; let e ← operand; pure (op, e))
      (do let op ← operator BinaryOp.symbol ops; let e ← operand'; pure (op, e)) :=
    next.item ((leaves_binary ops).bind_left fun _ => (matching.leaves ()).bind_left
      fun _ => .pure _) ((needs_binary ops).bind _) ((needs_binary ops).bind _)
  refine Matches.bind matching ?_
  refine Matches.bind (item.many attached.ne_nil) ?_
  exact Matches.pure _

theorem match_coalesceLevel : Match t n (coalesceLevel operand) (coalesceLevel operand') := by
  have symbol : Match t n (symbol "??") (symbol "??") :=
    .of_same ((Leaves.symbol "??").mono (Nat.zero_le _))
      (fun u _ _ => .padded attached.toSeam (.exactly (attached.head_not_mem (by decide)) _))
      (.symbol rfl) (.symbol rfl)
  have next : Match t n (do Text.Scan.symbol "??"; operand) (do Text.Scan.symbol "??"; operand') :=
    Matches.bind symbol matching.any
  have item : Item t n (do Text.Scan.symbol "??"; operand) (do Text.Scan.symbol "??"; operand') :=
    next.item (((Leaves.symbol "??").mono (by decide)).bind_left fun _ => matching.leaves ())
      ((Needs.symbol rfl).bind _) ((Needs.symbol rfl).bind _)
  refine Matches.bind matching ?_
  refine Matches.bind (item.many attached.ne_nil) ?_
  exact Matches.pure _

end

theorem match_leftLevels (levels : List (List BinaryOp)) {operand operand' : Scan Expr}
    (matching : Match t n operand operand') :
    Match t n (levels.foldl (fun operand ops => leftLevel ops operand) operand)
      (levels.foldl (fun operand ops => leftLevel ops operand) operand') := by
  induction levels generalizing operand operand' with
  | nil => exact matching
  | cons ops levels inductionHypothesis =>
      exact inductionHypothesis (match_leftLevel attached matching ops)

section

variable {d d' : Nat} (le : d ≤ d') (matching : Match t d (expression d) (expression d'))
include le matching

theorem item_postfixPart :
    Item t (d + 1) (postfixPart (d + 1) (expression d)) (postfixPart (d' + 1) (expression d')) where
  leaves := leaves_postfixPart (matching.leaves ())
    ((match_typeName attached (Nat.le_refl (d + 1))).leaves ())
  needs := needs_postfixPart _ _
  needs' := needs_postfixPart _ _
  live u short ended nonblank := by
    have types := (match_typeName attached (Nat.succ_le_succ le)).mono (Nat.le_succ d)
    exact (same_postfixPart attached matching types short ended nonblank).outcome
  seam u _ blank := by
    rw [attached.of_blank (skips_postfixPart _ _) blank]
    exact attached.part d'

theorem match_primary (leaves' : Leaves 0 (expression d')) :
    Match t (d + 1) (primary (d + 1) (expression d)) (primary (d' + 1) (expression d')) := by
  have types := (match_typeName attached (Nat.succ_le_succ le)).mono (Nat.le_succ d)
  refine Matches.bind ((closed_term attached matching leaves' types).matching (needs_term _ _)
    (needs_term _ _)) ?_
  refine Matches.bind ((item_postfixPart attached le matching).many attached.ne_nil) ?_
  exact Matches.pure _

theorem match_expression_succ (leaves' : Leaves 0 (expression d')) :
    Match t (d + 1) (expression (d + 1)) (expression (d' + 1)) :=
  match_coalesceLevel attached <| match_leftLevels attached leftLevels <|
    match_unaryLevel attached (match_primary attached le matching leaves')

end

theorem match_expression_self (d : Nat) : Match t d (expression d) (expression d) := by
  induction d with
  | zero => exact .of_failure (needs_expression 0)
  | succ d inductionHypothesis =>
      exact match_expression_succ attached (Nat.le_refl d) inductionHypothesis
        (inductionHypothesis.leaves ())

/-- Expressions with text behind, which may be read with more brackets to open. -/
theorem match_expression {d d' : Nat} (le : d ≤ d') :
    Match t d (expression d) (expression d') := by
  -- On the number of brackets to open: each takes a character, so that texts shorter than that
  -- number do not tell how many more could be opened.
  induction d generalizing d' with
  | zero => exact .of_failure (needs_expression d')
  | succ d inductionHypothesis =>
      obtain ⟨d', rfl⟩ : ∃ e, d' = e + 1 := ⟨d' - 1, by omega⟩
      have le : d ≤ d' := Nat.le_of_succ_le_succ le
      exact match_expression_succ attached le (inductionHypothesis le)
        ((match_expression_self attached d').leaves ())

end

end ManagedDebugger.Expr
