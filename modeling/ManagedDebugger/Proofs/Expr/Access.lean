import ManagedDebugger.Proofs.Expr.Literals

/-!
# Accesses put behind an expression

The name of a child is the name of its parent and an access: a dot and the name of a member, or the
indices of an element in brackets. Where the parent is read as one term and what follows it, the two
together are read as the access to what the parent is read as. Behind an operator it is otherwise:
the access goes to the last operand.
-/

namespace ManagedDebugger.Expr

open Text
open Text.Scan

/-- What a child adds to the name of its parent. -/
inductive Access where
  | member (name : String)
  | element (indices : List UInt32)
  deriving DecidableEq, Repr

/-- A name that can be written. -/
def isName (name : String) : Bool :=
  match name.toList with
  | [] => false
  | c :: rest => isNameStart c && rest.all isNameChar

/-- The number that an index is read as. -/
def indexValue (i : UInt32) : Primitive :=
  if i.toNat < 0x80000000 then .i32 (Int32.ofNat i.toNat) else .u32 i.toNat.toUInt32

def index (i : UInt32) : Expr := .literal (.primitive (indexValue i))

namespace Access

def text : Access → String
  | member name => "." ++ name
  | element indices => "[" ++ ", ".intercalate (indices.map fun i => toString i.toNat) ++ "]"

/-- A name that can be written, or at least one index. -/
def Valid : Access → Prop
  | member name => isName name = true
  | element indices => indices ≠ []

def apply (e : Expr) : Access → Expr
  | member name => .member e name none false
  | element indices => .element e (indices.map index) false

end Access

/-! ## Where an expression is over -/

/-- What may follow an index: a comma, or the closing bracket. -/
def separators : List Char := [',', ']']

/-- Here no expression goes on. -/
def Over (r : List Char) : Prop := Blank r ∨ ∃ c w, r = c :: w ∧ c ∈ separators

theorem Over.none {α : Type} {r : List Char} {p : Scan α} (isOver : Over r) (needs : Needs p)
    (refuses : Refuses separators p) : p r = .none := by
  rcases isOver with blank | ⟨c, w, rfl, isElement⟩
  · exact needs r blank
  · exact refuses c isElement w

theorem refuses_operator {α : Type} {cs : List Char} {symbolOf : α → String}
    (shown : cs.any isBlank = false)
    (starts : ∀ a, ∃ c more, (symbolOf a).toList = c :: more ∧ c ∉ cs) (ops : List α) :
    Refuses cs (operator symbolOf ops) := by
  induction ops with
  | nil => exact .failure cs
  | cons op ops inductionHypothesis =>
      obtain ⟨c, more, start, other⟩ := starts op
      exact .orElse ((Refuses.symbol shown start other).bind _) inductionHypothesis

theorem Over.binary {r : List Char} (isOver : Over r) (ops : List BinaryOp) :
    operator BinaryOp.symbol ops r = .none :=
  isOver.none (needs_binary ops)
    (refuses_operator (by decide) (fun op => by cases op <;> exact ⟨_, _, rfl, by decide⟩) ops)

theorem Over.coalesce {r : List Char} (isOver : Over r) : symbol "??" r = .none :=
  isOver.none (.symbol rfl) (.symbol (by decide) rfl (by decide))

/-- The characters with which what follows a term starts. -/
def postfixChars : List Char := ['.', '?', '[', '(']

theorem refuses_postfixPart {cs : List Char} (shown : cs.any isBlank = false)
    (others : cs.any postfixChars.contains = false) (depth : Nat) (inner : Scan Expr) :
    Refuses cs (postfixPart depth inner) := by
  have symbol {text : String} {c : Char} {more : List Char} (start : text.toList = c :: more)
      (starts : postfixChars.contains c = true) : Refuses cs (symbol text) :=
    .symbol shown start fun isElement => List.any_eq_false.mp others c isElement starts
  exact .orElse ((symbol rfl rfl).bind _) <| .orElse ((symbol rfl rfl).bind _) <|
    .orElse (((symbol rfl rfl).bind _).bind _) <|
    .orElse (((symbol rfl rfl).bind _).bind _) (((symbol rfl rfl).bind _).bind _)

theorem Over.postfixPart {r : List Char} (isOver : Over r) (depth : Nat) (inner : Scan Expr) :
    postfixPart depth inner r = .none :=
  isOver.none (needs_postfixPart depth inner) (refuses_postfixPart rfl rfl depth inner)

theorem leftLevels_of_operand (levels : List (List BinaryOp)) {operand : Scan Expr} {e : Expr}
    {u r : List Char} (read : operand u = some (e, r)) (isOver : Over r) :
    (levels.foldl (fun operand ops => leftLevel ops operand) operand) u = some (e, r) := by
  induction levels generalizing operand with
  | nil => exact read
  | cons ops levels inductionHypothesis =>
      refine inductionHypothesis ?_
      have nothing :
          many (do let op ← operator BinaryOp.symbol ops; let e ← operand; pure (op, e)) r =
            some ([], r) := congrArg some (itemsOf_of_none (bind_of_none (isOver.binary ops)))
      exact (bind_of_some read).trans (bind_of_some nothing)

theorem term_of_literalTerm {depth : Nat} {inner : Scan Expr} {e : Expr} {u r : List Char}
    (start : skipBlanks u = u) (read : literalTerm u = some (e, r)) :
    term depth inner u = some (e, skipBlanks r) := padded_of_some start (orElse_of_some read)

/-! ## A term does not start with an operator -/

/-- The characters with which a term starts, and blanks. -/
def startsTerm (c : Char) : Bool :=
  isBlank c || c.isDigit || isNameStart c || ['\'', '"', '@', '$', '('].contains c

theorem refuses_term {cs : List Char} (others : cs.any startsTerm = false) (depth : Nat)
    (inner : Scan Expr) : Refuses cs (term depth inner) := by
  have rejects {accepts : Char → Bool} (starts : ∀ c, accepts c = true → startsTerm c = true) :
      cs.any accepts = false := List.any_eq_false.mpr fun c isElement accepted =>
    List.any_eq_false.mp others c isElement (starts c accepted)
  have other {c : Char} (starts : startsTerm c = true) : c ∉ cs :=
    fun isElement => List.any_eq_false.mp others c isElement starts
  have word {text : String} {c : Char} {more : List Char} (start : text.toList = c :: more)
      (starts : startsTerm c = true) : Refuses cs (exactly text) := .exactly start (other starts)
  have shown : cs.any isBlank = false := rejects fun c is => by simp [startsTerm, is]
  have name : Refuses cs name :=
    (Refuses.satisfy (rejects fun c is => by simp [startsTerm, is])).bind _
  have isDigit : cs.any Char.isDigit = false := rejects fun c is => by simp [startsTerm, is]
  have literal : Refuses cs literalTerm :=
    refuses_literalTerm isDigit (other rfl) (other rfl) (other rfl)
  exact .padded shown <| .orElse literal <|
    .orElse (((word rfl rfl).bind _).bind _) <|
    .orElse (Refuses.bind (.orElse ((word rfl rfl).bind _) ((word rfl rfl).bind _)) _) <|
    .orElse ((word rfl rfl).bind _) <| .orElse (name.bind _) <| .orElse (name.bind _)
    ((Refuses.symbol shown rfl (other rfl)).bind _)

/-- The characters of unary operators. -/
def unaryChars : List Char := ['+', '-', '!', '~']

theorem skips_term (depth : Nat) (inner : Scan Expr) : Skips (term depth inner) := .padded _

theorem unary_of_term {depth : Nat} {inner : Scan Expr} {u r : List Char} {e : Expr}
    (read : term depth inner u = some (e, r)) (ops : List UnaryOp) :
    operator UnaryOp.symbol ops u = none := by
  induction ops with
  | nil => rfl
  | cons op ops inductionHypothesis =>
      refine (orElse_of_none (bind_of_none ?_)).trans inductionHypothesis
      cases found : symbol op.symbol u with
      | none => rfl
      | some x =>
          obtain ⟨v, start, -⟩ := symbol_eq_some_iff.mp found
          obtain ⟨c, spelled, isElement⟩ : ∃ c, op.symbol.toList = [c] ∧ c ∈ unaryChars := by
            cases op <;> exact ⟨_, rfl, by decide⟩
          rw [← skips_term depth inner u, start, spelled] at read
          have refuses : Refuses unaryChars (term depth inner) := refuses_term rfl depth inner
          rw [List.singleton_append, refuses c isElement v] at read
          cases read

theorem unaryLevel_of_primary {depth : Nat} {inner : Scan Expr} {u r : List Char} {e : Expr}
    (read : primary depth inner u = some (e, r)) :
    unaryLevel (primary depth inner) u = some (e, r) := by
  obtain ⟨first, v, term, -⟩ := bind_eq_some_iff.mp read
  have nothing : many (operator UnaryOp.symbol UnaryOp.all) u = some ([], u) :=
    congrArg some (itemsOf_of_none (unary_of_term term _))
  exact (bind_of_some nothing).trans (bind_of_some read)

/-- A term and what follows it, without an operator behind, is an expression. -/
theorem expression_of_primary {depth : Nat} {u r : List Char} {e : Expr}
    (read : primary (depth + 1) (expression depth) u = some (e, r)) (isOver : Over r) :
    expression (depth + 1) u = some (e, r) := by
  have unary := unaryLevel_of_primary read
  have none' {operand : Scan Expr} :
      many (do symbol "??"; operand) r = some ([], r) :=
    congrArg some (itemsOf_of_none (bind_of_none isOver.coalesce))
  exact (bind_of_some (leftLevels_of_operand leftLevels unary isOver)).trans (bind_of_some none')

/-! ## Indices -/

/-- The digits of an index. -/
def digitsOf (i : UInt32) : List Char := Nat.toDigits 10 i.toNat

theorem isDigit_of_mem_digitsOf {i : UInt32} {c : Char} (isElement : c ∈ digitsOf i) :
    c.isDigit = true := Nat.isDigit_of_mem_toDigits (by decide) (by decide) isElement

theorem digitsOf_cons (i : UInt32) : ∃ c cs, digitsOf i = c :: cs ∧ c.isDigit = true := by
  obtain ⟨c, cs, same⟩ := List.exists_cons_of_ne_nil (Nat.toDigits_ne_nil (n := i.toNat) (b := 10))
  exact ⟨c, cs, same, isDigit_of_mem_digitsOf (same ▸ List.mem_cons_self)⟩

theorem wholeNumber_index (i : UInt32) : wholeNumber i.toNat = indexValue i := by
  have small : i.toNat < UInt32.size := i.toNat_lt
  rw [wholeNumber, indexValue, if_pos small]

theorem skipBlanks_digitsOf (i : UInt32) (w : List Char) :
    skipBlanks (digitsOf i ++ w) = digitsOf i ++ w := by
  obtain ⟨c, cs, same, isDigit⟩ := digitsOf_cons i
  rw [same]
  exact skipBlanks_cons_of_shown (shown_of_isDigit isDigit) _

theorem expression_index {r : List Char} (starts : Starts separators r) (depth : Nat)
    (i : UInt32) : expression (depth + 1) (digitsOf i ++ r) = some (index i, r) := by
  have isOver : Over r := .inr starts
  have literal : literalTerm (digitsOf i ++ r) = some (index i, r) := by
    have small : i.toNat < UInt64.size := Nat.lt_trans i.toNat_lt (by decide)
    have noDot : Refuses separators (exactly ".") := .exactly rfl (by decide)
    rw [index, ← wholeNumber_index]
    exact literalTerm_wholeNumber small (starts.none (.satisfy rfl))
      (bind_of_none (starts.none noDot))
  have term : term (depth + 1) (expression depth) (digitsOf i ++ r) =
      some (index i, skipBlanks r) := term_of_literalTerm (skipBlanks_digitsOf i r) literal
  rw [starts.shown (by decide)] at term
  have parts : many (postfixPart (depth + 1) (expression depth)) r = some ([], r) :=
    congrArg some (itemsOf_of_none (isOver.postfixPart _ _))
  exact expression_of_primary ((bind_of_some term).trans (bind_of_some parts)) isOver

/-- The indices behind the first one. -/
def moreIndices (is : List UInt32) : List Char := is.flatMap fun i => ',' :: ' ' :: digitsOf i

theorem intercalate_digitsOf (i : UInt32) (is : List UInt32) :
    [',', ' '].intercalate ((i :: is).map digitsOf) = digitsOf i ++ moreIndices is := by
  rw [List.map_cons, intercalate_cons, List.flatMap_map]
  rfl

theorem separated_indices (depth : Nat) (i : UInt32) (is : List UInt32) (w : List Char) :
    separated (expression (depth + 1)) (symbol ",")
      (digitsOf i ++ (moreIndices is ++ ']' :: w)) = some ((i :: is).map index, ']' :: w) := by
  have read : ∀ j ∈ i :: is, ∀ v, Starts separators v →
      expression (depth + 1) (skipBlanks (digitsOf j ++ v)) = some (index j, v) := by
    intro j _ v starts
    rw [skipBlanks_digitsOf]
    exact expression_index starts depth j
  have list := separated_intercalate (Starts separators) read (fun v => ⟨',', v, rfl, by decide⟩)
    ⟨']', w, rfl, by decide⟩ rfl nofun rfl
  rwa [intercalate_digitsOf, List.append_assoc, skipBlanks_digitsOf] at list

/-! ## Names -/

theorem isNameChar_of_isNameStart {c : Char} (isStart : isNameStart c = true) :
    isNameChar c = true := by
  rw [isNameStart, Bool.or_eq_true] at isStart
  rw [isNameChar, Char.isAlphanum, Bool.or_eq_true, Bool.or_eq_true]
  exact isStart.imp_left .inl

theorem isDigit_of_isNameStart {c : Char} (isStart : isNameStart c = true) : c.isDigit = false := by
  have large (least : 65 ≤ c.toNat) : c.isDigit = false := by
    simp only [Char.isDigit, Bool.and_eq_false_iff, decide_eq_false_iff_not, UInt32.le_iff_toNat_le]
    exact .inr (Nat.not_le.mpr (Nat.lt_of_lt_of_le (by decide) least))
  rcases isNameStart_cases isStart with (upper | lower) | rfl
  · exact large upper.1
  · exact large (Nat.le_trans (by decide) lower.1)
  · decide

theorem isName_cons {name : String} (isName : isName name = true) :
    ∃ c rest, name.toList = c :: rest ∧ isNameStart c = true ∧
      ∀ d ∈ rest, isNameChar d = true := by
  rw [Expr.isName] at isName
  cases spelled : name.toList with
  | nil =>
      rw [spelled] at isName
      cases isName
  | cons c rest =>
      rw [spelled] at isName
      obtain ⟨start, all⟩ := Bool.and_eq_true_iff.mp isName
      exact ⟨c, rest, rfl, start, List.all_eq_true.mp all⟩

theorem isNameChar_of_isName {name : String} (isName : isName name = true) :
    ∀ c ∈ name.toList, isNameChar c = true := by
  obtain ⟨c, rest, spelled, start, all⟩ := isName_cons isName
  rw [spelled]
  exact List.forall_mem_cons.mpr ⟨isNameChar_of_isNameStart start, all⟩

theorem name_append {text : String} {r : List Char} (isName : isName text = true)
    (apart : Apart r) : name (text.toList ++ r) = some (text, r) := by
  obtain ⟨c, rest, spelled, start, all⟩ := isName_cons isName
  have first : satisfy isNameStart (c :: (rest ++ r)) = some (c, rest ++ r) := by
    rw [satisfy, if_pos start]
  have others : many (satisfy isNameChar) (rest ++ r) = some (rest, r) :=
    congrArg some (itemsOf_satisfy all apart)
  have read : name (c :: (rest ++ r)) = some (String.ofList (c :: rest), r) :=
    (bind_of_some first).trans (bind_of_some others)
  rw [spelled, List.cons_append, read, ← spelled, String.ofList_toList]

theorem name_toList {text : String} (isName : isName text = true) :
    name text.toList = some (text, []) := by
  rw [← List.append_nil text.toList]
  exact name_append isName rfl

/-! ## Accesses -/

namespace Access

theorem toList_member (name : String) : (member name).text.toList = '.' :: name.toList :=
  String.toList_append

theorem toList_element (i : UInt32) (is : List UInt32) :
    (element (i :: is)).text.toList = '[' :: (digitsOf i ++ (moreIndices is ++ [']'])) := by
  have digits : (String.toList ∘ fun j : UInt32 => toString j.toNat) = digitsOf :=
    funext fun j => Nat.toList_repr
  rw [text, String.toList_append, String.toList_append, String.toList_intercalate, List.map_map,
    digits]
  change '[' :: List.intercalate [',', ' '] _ ++ [']'] = _
  rw [intercalate_digitsOf, List.cons_append, List.append_assoc]

/-- A dot stands where a member is accessed. -/
theorem symbol_dot {name : String} (isName : isName name = true) :
    symbol "." ('.' :: name.toList) = some ((), name.toList) := by
  refine symbol_eq_some_iff.mpr ⟨name.toList, rfl, ?_⟩
  obtain ⟨c, rest, spelled, start, -⟩ := isName_cons isName
  rw [spelled]
  exact (skipBlanks_cons_of_shown (shown_of_isNameStart start) rest).symm

theorem symbol_bracket (i : UInt32) (w : List Char) :
    symbol "[" ('[' :: (digitsOf i ++ w)) = some ((), digitsOf i ++ w) :=
  symbol_eq_some_iff.mpr ⟨digitsOf i ++ w, rfl, (skipBlanks_digitsOf i w).symm⟩

/-- A number starts with a digit. -/
theorem symbol_digitsOf {text : String} {d : Char} {more : List Char}
    (start : text.toList = d :: more) (other : d.isDigit = false) (i : UInt32) (w : List Char) :
    symbol text (digitsOf i ++ w) = none := by
  cases found : symbol text (digitsOf i ++ w) with
  | none => rfl
  | some x =>
      obtain ⟨c, cs, same, isDigit⟩ := digitsOf_cons i
      obtain ⟨v, agree, -⟩ := symbol_eq_some_iff.mp found
      have shown := shown_of_isDigit isDigit
      rw [same, List.cons_append, skipBlanks_cons_of_shown shown, start] at agree
      rw [(List.cons.inj agree).1, other] at isDigit
      cases isDigit

theorem part_member {name : String} (isName : isName name = true) (depth : Nat)
    (inner : Scan Expr) :
    postfixPart depth inner (member name).text.toList =
      some (fun e => (member name).apply e, []) := by
  have arguments : optional (typeArguments depth) [] = some (none, []) :=
    optional_of_none (needs_typeArguments depth [] blank_nil)
  rw [toList_member]
  refine orElse_of_some ((bind_of_some (symbol_dot isName)).trans ?_)
  exact (bind_of_some (name_toList isName)).trans (bind_of_some arguments)

theorem part_element (i : UInt32) (is : List UInt32) (depth : Nat) :
    postfixPart (depth + 2) (expression (depth + 1)) (element (i :: is)).text.toList =
      some (fun e => (element (i :: is)).apply e, []) := by
  have closing : symbol "]" [']'] = some ((), []) := symbol_eq_some_iff.mpr ⟨[], rfl, rfl⟩
  have indices : enclosed (symbol "[") (separated (expression (depth + 1)) (symbol ","))
      (symbol "]") ('[' :: (digitsOf i ++ (moreIndices is ++ [']']))) =
      some ((i :: is).map index, []) :=
    (bind_of_some (symbol_bracket i _)).trans <|
      (bind_of_some (separated_indices depth i is [])).trans (bind_of_some closing)
  rw [toList_element]
  refine (orElse_of_none (bind_of_none (symbol_of_ne rfl (by decide) (by decide) _))).trans ?_
  refine (orElse_of_none (bind_of_none (symbol_of_ne rfl (by decide) (by decide) _))).trans ?_
  exact orElse_of_some (bind_of_some indices)

/-- Without a bracket left to open, indices are not read. -/
theorem part_element_zero (i : UInt32) (is : List UInt32) :
    postfixPart 1 (expression 0) (element (i :: is)).text.toList = none := by
  have indices (w : List Char) : enclosed (symbol "[") (separated (expression 0) (symbol ","))
      (symbol "]") ('[' :: (digitsOf i ++ w)) = none := by
    refine (bind_of_some (symbol_bracket i w)).trans ?_
    have nothing : separated (expression 0) (symbol ",") (digitsOf i ++ w) =
        some ([], digitsOf i ++ w) := rfl
    exact (bind_of_some nothing).trans (bind_of_none (symbol_digitsOf rfl (by decide) i w))
  have refused {text : String} {c : Char} {more w : List Char} (start : text.toList = c :: more)
      (other : c ≠ '[') : symbol text ('[' :: w) = none := symbol_of_ne start other (by decide) w
  rw [toList_element]
  refine (orElse_of_none (bind_of_none (refused rfl (by decide)))).trans ?_
  refine (orElse_of_none (bind_of_none (refused rfl (by decide)))).trans ?_
  refine (orElse_of_none (bind_of_none (indices _))).trans ?_
  refine (orElse_of_none (bind_of_none (bind_of_none (refused rfl (by decide))))).trans ?_
  exact bind_of_none (bind_of_none (refused rfl (by decide)))

/-- What an access is read as. -/
theorem part {access : Access} (valid : access.Valid) (depth : Nat) :
    postfixPart (depth + 2) (expression (depth + 1)) access.text.toList =
      some (fun e => access.apply e, []) := by
  cases access with
  | member name => exact part_member valid _ _
  | element indices =>
      obtain ⟨i, is, rfl⟩ := List.exists_cons_of_ne_nil valid
      exact part_element i is depth

theorem attached_member {name : String} (isName : isName name = true) :
    Attached (member name).text.toList := by
  obtain ⟨c, rest, spelled, start, -⟩ := isName_cons isName
  have path : (do symbol "."; Expr.name : Scan String) ('.' :: name.toList) = some (name, []) :=
    (bind_of_some (symbol_dot isName)).trans (name_toList isName)
  have fraction : fractionPart ('.' :: name.toList) = none := by
    have dot : exactly "." ('.' :: name.toList) = some ((), name.toList) :=
      exactly_eq_some_iff.mpr rfl
    refine (bind_of_some dot).trans (bind_of_none ?_)
    rw [spelled, digit, satisfy, isDigit_of_isNameStart start]
    rfl
  rw [toList_member]
  refine ⟨⟨⟨'.', name.toList, rfl, .inl rfl⟩, ?_⟩, fraction, ?_, .inr ⟨name, path⟩, ?_⟩
  · refine List.forall_mem_cons.mpr ⟨by decide, fun d isElement => ?_⟩
    have isChar := isNameChar_of_isName isName d isElement
    constructor <;> rintro rfl <;> cases isChar
  · exact bind_of_none (symbol_of_ne rfl (by decide) (by decide) _)
  · exact fun depth => .inr ⟨_, toList_member name ▸ part_member isName _ _⟩

theorem mem_moreIndices {is : List UInt32} {c : Char} (isElement : c ∈ moreIndices is) :
    c = ',' ∨ c = ' ' ∨ c.isDigit = true := by
  obtain ⟨i, -, within⟩ := List.mem_flatMap.mp isElement
  rw [List.mem_cons, List.mem_cons] at within
  exact within.imp_right (Or.imp_right isDigit_of_mem_digitsOf)

theorem attached_element (i : UInt32) (is : List UInt32) :
    Attached (element (i :: is)).text.toList := by
  have part : ∀ depth, postfixPart (depth + 1) (expression depth) (element (i :: is)).text.toList =
      none ∨ ∃ f, postfixPart (depth + 1) (expression depth) (element (i :: is)).text.toList =
        some (f, []) := by
    intro depth
    cases depth with
    | zero => exact .inl (part_element_zero i is)
    | succ depth => exact .inr ⟨_, part_element i is depth⟩
  have rank : (do symbol "["; symbol "]" : Scan Unit)
      ('[' :: (digitsOf i ++ (moreIndices is ++ [']']))) = none :=
    (bind_of_some (symbol_bracket i _)).trans (symbol_digitsOf rfl (by decide) i _)
  refine ⟨⟨?_, ?_⟩, ?_, ?_, ?_, part⟩
  all_goals rw [toList_element]
  · exact ⟨'[', _, rfl, .inr rfl⟩
  · intro c isElement
    rw [List.mem_cons, List.mem_append, List.mem_append, List.mem_singleton] at isElement
    have digit (isDigit : c.isDigit = true) : c ≠ '"' ∧ c ≠ '\'' := by
      constructor <;> rintro rfl <;> cases isDigit
    rcases isElement with rfl | first | others | rfl
    · decide
    · exact digit (isDigit_of_mem_digitsOf first)
    · rcases mem_moreIndices others with rfl | rfl | isDigit
      · decide
      · decide
      · exact digit isDigit
    · decide
  · exact bind_of_none (exactly_of_ne rfl (by decide) _)
  · exact rank
  · exact .inl (bind_of_none (symbol_of_ne rfl (by decide) (by decide) _))

theorem attached {access : Access} (valid : access.Valid) : Attached access.text.toList := by
  cases access with
  | member name => exact attached_member valid
  | element indices =>
      obtain ⟨i, is, rfl⟩ := List.exists_cons_of_ne_nil valid
      exact attached_element i is

end Access

/-! ## Texts -/

section

variable {t : List Char} (attached : Attached t) {d d' : Nat} (le : d ≤ d')
include attached

theorem finishes_primary (d : Nat) : Finishes (primary (d + 1) (expression d)) := by
  have inner := match_expression_self attached d
  have types := (match_typeName attached (Nat.le_refl (d + 1))).mono (Nat.le_succ d)
  have term := closed_term attached inner (inner.leaves ()) types
  have parts := (item_postfixPart attached (Nat.le_refl d) inner).leaves.mono (Nat.zero_le 1)
  exact term.finishes.bind term.leaves fun _ =>
    ((finishes_postfixPart attached inner types).many parts).bind_pure (.many parts) _

include le

/-- A term and what follows it, and one part more. -/
theorem primary_append {u r : List Char} {e : Expr} {f : Expr → Expr} (short : u.length ≤ d)
    (read : primary (d + 1) (expression d) u = some (e, r)) (blank : Blank r)
    (part : postfixPart (d' + 1) (expression d') t = some (f, [])) :
    primary (d' + 1) (expression d') (u ++ t) = some (f e, []) := by
  have short : u.length < d + 1 := Nat.lt_succ_of_le short
  -- A text that ended in a question mark would go on with a dot to a conditional access.
  have ended : Ended u := finishes_primary attached d u e r read blank
  have matching := match_expression attached le
  have leaves' := (match_expression_self attached d').leaves ()
  have types := (match_typeName attached (Nat.succ_le_succ le)).mono (Nat.le_succ d)
  have closed := closed_term attached matching leaves' types
  have item := item_postfixPart attached le matching
  obtain ⟨first, v, term, rest⟩ := bind_eq_some_iff.mp read
  obtain ⟨parts, w, items, last⟩ := bind_eq_some_iff.mp rest
  obtain ⟨rfl, rfl⟩ := Prod.mk.inj (Option.some.inj last)
  have items : itemsOf (postfixPart (d + 1) (expression d)) v = (parts, w) := Option.some.inj items
  have suffix := (closed.leaves u first v term).1
  have more := itemsOf_append item.leaves item.needs
    (fun u short ended nonblank => same_postfixPart attached matching types short ended nonblank)
    (fun u isOver => (attached.of_blank (skips_postfixPart _ _) isOver).trans part) item.needs'
    attached.ne_nil v (Nat.lt_of_le_of_lt suffix.length_le short) (ended.of_suffix suffix)
    (items ▸ blank)
  have others : many (postfixPart (d' + 1) (expression d')) (v ++ t) = some (parts ++ [f], []) := by
    rw [items] at more
    exact congrArg some more
  refine (bind_of_some ((closed.same u short ended).some term)).trans ?_
  refine (bind_of_some others).trans ?_
  rw [List.foldl_append]
  rfl

end

/-- The text as one term and what follows it: no operator stands outside of its brackets. -/
def primary? (text : String) : Option Expr :=
  run? (padded (primary (text.length + 1) (expression text.length))) text

theorem run?_eq_some_iff {α : Type} {p : Scan α} {text : String} {a : α} :
    run? p text = some a ↔ p text.toList = some (a, []) := by
  have run : run? p text = ((do let a ← p; finished; pure a : Scan α) text.toList).map (·.1) := rfl
  rw [run, Option.map_eq_some_iff]
  constructor
  · intro holds
    obtain ⟨⟨b, r⟩, read, rfl⟩ := holds
    obtain ⟨c, v, first, rest⟩ := bind_eq_some_iff.mp read
    obtain ⟨_, w, isOver, last⟩ := bind_eq_some_iff.mp rest
    obtain ⟨rfl, rfl⟩ := Prod.mk.inj (Option.some.inj last)
    cases v with
    | nil => exact first
    | cons d v => cases isOver
  · intro read
    exact ⟨(a, []), bind_of_some read, rfl⟩

/-- What is read with the blanks around it leaves nothing but blanks. -/
theorem run?_padded_iff {α : Type} {p : Scan α} {text : String} {a : α} :
    run? (padded p) text = some a ↔ ∃ r, Blank r ∧ p (skipBlanks text.toList) = some (a, r) := by
  rw [run?_eq_some_iff]
  constructor
  · intro read
    obtain ⟨_, u, skipped, rest⟩ := bind_eq_some_iff.mp read
    obtain ⟨-, rfl⟩ := Prod.mk.inj (Option.some.inj skipped)
    obtain ⟨b, r, inner, rest⟩ := bind_eq_some_iff.mp rest
    obtain ⟨_, v, isOver, last⟩ := bind_eq_some_iff.mp rest
    obtain ⟨rfl, rfl⟩ := Prod.mk.inj (Option.some.inj last)
    exact ⟨r, skipBlanks_eq_nil_iff.mp (Prod.mk.inj (Option.some.inj isOver)).2, inner⟩
  · intro holds
    obtain ⟨r, blank, read⟩ := holds
    have before : blanks text.toList = some ((), skipBlanks text.toList) := rfl
    have behind : blanks r = some ((), []) :=
      congrArg (fun v => some ((), v)) (skipBlanks_of_blank blank)
    exact (bind_of_some before).trans ((bind_of_some read).trans (bind_of_some behind))

/-- One expression, and nothing behind it. -/
theorem parse?_of_expression {text : String} {e : Expr} {r : List Char} (blank : Blank r)
    (read : expression (text.length + 1) (skipBlanks text.toList) = some (e, r)) :
    parse? text = some [e] := by
  refine run?_padded_iff.mpr ⟨r, blank, ?_⟩
  have semicolon : symbol ";" r = none := Needs.symbol rfl r blank
  have others : many (do symbol ";"; expression (text.length + 1)) r = some ([], r) :=
    congrArg some (itemsOf_of_none (bind_of_none semicolon))
  have all : separated (expression (text.length + 1)) (symbol ";") (skipBlanks text.toList) =
      some ([e], r) := orElse_of_some ((bind_of_some read).trans (bind_of_some others))
  exact (bind_of_some all).trans (bind_of_some (optional_of_none semicolon))

theorem parse?_of_primary {text : String} {e : Expr} {r : List Char} (blank : Blank r)
    (read : primary (text.length + 1) (expression text.length) text.toList = some (e, r)) :
    parse? text = some [e] := by
  have skips : Skips (primary (text.length + 1) (expression text.length)) :=
    (skips_term _ _).bind _
  rw [← skips text.toList] at read
  exact parse?_of_expression blank (expression_of_primary read (.inl blank))

theorem primary?_eq_some_iff {text : String} {e : Expr} :
    primary? text = some e ↔ ∃ r, Blank r ∧
      primary (text.length + 1) (expression text.length) text.toList = some (e, r) := by
  have skips : Skips (primary (text.length + 1) (expression text.length)) :=
    (skips_term _ _).bind _
  rw [primary?, run?_padded_iff, skips text.toList]

theorem nonempty_of_primary? {text : String} {e : Expr} (read : primary? text = some e) :
    text.isEmpty = false := by
  obtain ⟨r, -, read⟩ := primary?_eq_some_iff.mp read
  cases empty : text.isEmpty with
  | false => rfl
  | true =>
      obtain rfl := String.isEmpty_iff.mp empty
      have nothing : primary ("".length + 1) (expression "".length) [] = none :=
        (needs_term _ _).bind _ [] blank_nil
      exact nomatch nothing.symm.trans read

theorem parse?_of_primary? {text : String} {e : Expr} (read : primary? text = some e) :
    parse? text = some [e] := by
  obtain ⟨r, blank, read⟩ := primary?_eq_some_iff.mp read
  exact parse?_of_primary blank read

/-- An access put behind a term and what follows it is the last of what follows. -/
theorem parse?_append_access {text : String} {e : Expr} (read : primary? text = some e)
    {access : Access} (valid : access.Valid) :
    parse? (text ++ access.text) = some [access.apply e] := by
  obtain ⟨r, blank, read⟩ := primary?_eq_some_iff.mp read
  have attached := Access.attached valid
  have nonempty : 0 < access.text.length := by
    rw [← String.length_toList]
    exact List.length_pos_iff.mpr attached.ne_nil
  obtain ⟨depth, same⟩ : ∃ depth, (text ++ access.text).length = depth + 1 :=
    ⟨(text ++ access.text).length - 1, by rw [String.length_append]; omega⟩
  have le : text.length ≤ depth + 1 := by
    rw [← same, String.length_append]
    omega
  refine parse?_of_primary (r := []) blank_nil ?_
  rw [same, String.toList_append]
  exact primary_append attached le (Nat.le_of_eq String.length_toList) read blank
    (Access.part valid depth)

end ManagedDebugger.Expr
