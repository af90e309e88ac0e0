import ManagedDebugger.Proofs.Expr.Readers
import ManagedDebugger.Text.Quoted

/-!
# Reading literals

Whole numbers, characters and strings as they are written, with anything behind them that cannot be
a part of them.
-/

namespace ManagedDebugger.Expr

open Text
open Text.Scan

/-! ## Characters of a kind -/

/-- Characters of a kind are all taken where another one follows. -/
theorem itemsOf_satisfy {accepts : Char → Bool} {cs r : List Char}
    (all : ∀ c ∈ cs, accepts c = true) (stop : satisfy accepts r = none) :
    itemsOf (satisfy accepts) (cs ++ r) = (cs, r) := by
  induction cs with
  | nil => exact itemsOf_of_none stop
  | cons c cs inductionHypothesis =>
      have read : satisfy accepts (c :: (cs ++ r)) = some (c, cs ++ r) := by
        rw [satisfy, if_pos (all c List.mem_cons_self)]
      rw [List.cons_append, itemsOf_of_some read (Nat.lt_succ_self _),
        inductionHypothesis fun d isElement => all d (List.mem_cons_of_mem c isElement)]

theorem satisfy_none_mono {accepts wider : Char → Bool} {r : List Char}
    (stop : satisfy wider r = none) (le : ∀ c, accepts c = true → wider c = true) :
    satisfy accepts r = none := by
  cases r with
  | nil => rfl
  | cons c r =>
      rw [satisfy] at stop ⊢
      split
      case isTrue accepted =>
        rw [if_pos (le c accepted)] at stop
        cases stop
      case isFalse => rfl

/-- Here no word and no number goes on. -/
def Apart (r : List Char) : Prop := satisfy isNameChar r = none

namespace Apart

variable {r : List Char} (apart : Apart r)
include apart

theorem digit : digit r = none := satisfy_none_mono apart fun c isDigit => by
  simp [isNameChar, Char.isAlphanum, isDigit]

theorem oneOf {chars : String} (all : chars.toList.all isNameChar = true) :
    oneOf chars r = none := satisfy_none_mono apart fun c isElement =>
  List.all_eq_true.mp all c (List.contains_iff_mem.mp isElement)

end Apart

/-! ## How literals start -/

section

variable {cs : List Char}

theorem refuses_realLiteral (others : cs.any Char.isDigit = false) : Refuses cs realLiteral :=
  ((Refuses.satisfy others).bind _).bind _

theorem refuses_integerLiteral (others : cs.any Char.isDigit = false) :
    Refuses cs integerLiteral := by
  have zero : '0' ∉ cs := fun isElement => List.any_eq_false.mp others '0' isElement rfl
  exact Refuses.bind (.orElse
    ((Refuses.orElse (.exactly rfl zero) (.exactly rfl zero)).bind _)
    (((Refuses.satisfy others).bind _).bind _)) _

theorem refuses_charLiteral (other : '\'' ∉ cs) : Refuses cs charLiteral :=
  ((Refuses.exactly rfl other).bind _).bind _

theorem refuses_verbatimString (other : '@' ∉ cs) : Refuses cs verbatimString :=
  ((Refuses.exactly rfl other).bind _).bind _

theorem refuses_regularString (other : '"' ∉ cs) : Refuses cs regularString :=
  ((Refuses.exactly rfl other).bind _).bind _

theorem refuses_literalTerm (others : cs.any Char.isDigit = false) (char : '\'' ∉ cs)
    (verbatim : '@' ∉ cs) (regular : '"' ∉ cs) : Refuses cs literalTerm :=
  .orElse ((refuses_realLiteral others).bind _) <|
  .orElse ((refuses_integerLiteral others).bind _) <|
  .orElse ((refuses_charLiteral char).bind _) <|
  (Refuses.orElse (refuses_verbatimString verbatim) (refuses_regularString regular)).bind _

end

/-! ## Whole numbers -/

section

variable {ds r : List Char} (nonempty : ds ≠ []) (digits : ∀ d ∈ ds, d.isDigit = true)
include nonempty digits

theorem digits_append (stop : digit r = none) : many1 digit (ds ++ r) = some (ds, r) := by
  obtain ⟨d, ds, rfl⟩ := List.exists_cons_of_ne_nil nonempty
  obtain ⟨isDigit, others⟩ := List.forall_mem_cons.mp digits
  have first : digit (d :: (ds ++ r)) = some (d, ds ++ r) := by rw [digit, satisfy, if_pos isDigit]
  have rest : many digit (ds ++ r) = some (ds, r) := congrArg some (itemsOf_satisfy others stop)
  exact (bind_of_some first).trans (bind_of_some rest)

/-- A number is no hexadecimal one where no letter follows its first digit. -/
theorem exactly_append {text : String} {x : Char} (spelled : text.toList = ['0', x])
    (other : x.isDigit = false) (stop : ∀ w, r ≠ x :: w) : exactly text (ds ++ r) = none := by
  obtain ⟨d, ds, rfl⟩ := List.exists_cons_of_ne_nil nonempty
  cases found : exactly text (d :: ds ++ r) with
  | none => rfl
  | some y =>
      have start := exactly_eq_some_iff.mp found
      rw [spelled, List.cons_append, List.cons_append, List.cons.injEq] at start
      cases ds with
      | nil => exact absurd start.2 (stop _)
      | cons e ds =>
          rw [List.cons_append, List.cons_append, List.cons.injEq] at start
          have isDigit : e.isDigit = true :=
            digits e (List.mem_cons_of_mem d List.mem_cons_self)
          rw [start.2.1, other] at isDigit
          cases isDigit

end

/-- How a suffix is written. -/
def IntegerSuffix.text : IntegerSuffix → List Char
  | .none => []
  | .u => ['u']
  | .l => ['L']
  | .ul => ['U', 'L']

section

variable {r : List Char} (apart : Apart r) (suffix : IntegerSuffix)
include apart

theorem integerSuffix_append : integerSuffix (suffix.text ++ r) = some (suffix, r) := by
  have u : oneOf "uU" r = none := apart.oneOf (by decide)
  have l : oneOf "lL" r = none := apart.oneOf (by decide)
  cases suffix with
  | none =>
      exact (orElse_of_none (bind_of_none u)).trans <| (orElse_of_none (bind_of_none l)).trans <|
        (orElse_of_none (bind_of_none u)).trans (orElse_of_none (bind_of_none l))
  | u =>
      have here : oneOf "uU" ('u' :: r) = some ('u', r) := rfl
      have other : oneOf "lL" ('u' :: r) = none := rfl
      exact (orElse_of_none ((bind_of_some here).trans (bind_of_none l))).trans <|
        (orElse_of_none (bind_of_none other)).trans (orElse_of_some (bind_of_some here))
  | l =>
      have here : oneOf "lL" ('L' :: r) = some ('L', r) := rfl
      have other : oneOf "uU" ('L' :: r) = none := rfl
      exact (orElse_of_none (bind_of_none other)).trans <|
        (orElse_of_none ((bind_of_some here).trans (bind_of_none u))).trans <|
        (orElse_of_none (bind_of_none other)).trans (orElse_of_some (bind_of_some here))
  | ul => rfl

/-- The suffix of a whole number starts with no character that makes the number real. -/
theorem suffix_start {accepts : Char → Bool}
    (rejects : accepts 'u' = false ∧ accepts 'L' = false ∧ accepts 'U' = false)
    (all : ∀ c, accepts c = true → isNameChar c = true) :
    satisfy accepts (suffix.text ++ r) = none := by
  have refused {c : Char} (rejected : accepts c = false) (w : List Char) :
      satisfy accepts (c :: w) = none := by
    rw [satisfy, rejected]
    rfl
  cases suffix with
  | none => exact satisfy_none_mono apart all
  | u => exact refused rejects.1 _
  | l => exact refused rejects.2.1 _
  | ul => exact refused rejects.2.2 _

end

/-- A whole number with its suffix, where no word goes on and no fraction follows. -/
theorem literalTerm_integer {ds r : List Char} {suffix : IntegerSuffix} {p : Primitive}
    (nonempty : ds ≠ []) (digits : ∀ d ∈ ds, d.isDigit = true)
    (typed : integerOf? suffix (decimalValue ds) = some p) (apart : Apart r)
    (whole : fractionPart r = none) :
    literalTerm (ds ++ (suffix.text ++ r)) = some (.literal (.primitive p), r) := by
  have oneOf {chars : String}
      (rejects : chars.toList.contains 'u' = false ∧ chars.toList.contains 'L' = false ∧
        chars.toList.contains 'U' = false) (all : chars.toList.all isNameChar = true) :
      oneOf chars (suffix.text ++ r) = none :=
    suffix_start apart suffix rejects fun c isElement =>
      List.all_eq_true.mp all c (List.contains_iff_mem.mp isElement)
  have letter {x : Char} (rejects : x ≠ 'u' ∧ x ≠ 'L' ∧ x ≠ 'U') (isChar : isNameChar x = true)
      (w : List Char) : suffix.text ++ r ≠ x :: w := by
    intro start
    have stop : satisfy (· == x) (suffix.text ++ r) = none := by
      refine suffix_start apart suffix ?_ fun c same => eq_of_beq same ▸ isChar
      simp [rejects.1.symm, rejects.2.1.symm, rejects.2.2.symm]
    rw [start, satisfy, if_pos (beq_self_eq_true x)] at stop
    cases stop
  have stop : digit (suffix.text ++ r) = none :=
    suffix_start apart suffix ⟨rfl, rfl, rfl⟩ fun c isDigit => by
      simp [isNameChar, Char.isAlphanum, isDigit]
  have fraction : fractionPart (suffix.text ++ r) = none := by
    cases suffix with
    | none => exact whole
    | u => exact bind_of_none (exactly_of_ne rfl (by decide) _)
    | l => exact bind_of_none (exactly_of_ne rfl (by decide) _)
    | ul => exact bind_of_none (exactly_of_ne rfl (by decide) _)
  have exponent : exponentPart (suffix.text ++ r) = none :=
    bind_of_none (oneOf (by decide) (by decide))
  have real : realLiteral (ds ++ (suffix.text ++ r)) = none :=
    (bind_of_some (digits_append nonempty digits stop)).trans <|
      (bind_of_some (optional_of_none fraction)).trans <|
      (bind_of_some (optional_of_none exponent)).trans <|
      (bind_of_some (optional_of_none (oneOf (by decide) (by decide)))).trans rfl
  have hexadecimal : (exactly "0x" <|> exactly "0X") (ds ++ (suffix.text ++ r)) = none :=
    (orElse_of_none (exactly_append nonempty digits rfl rfl (letter (by decide) rfl))).trans
      (exactly_append nonempty digits rfl rfl (letter (by decide) rfl))
  have number : integerDigits (ds ++ (suffix.text ++ r)) =
      some (decimalValue ds, suffix.text ++ r) :=
    (orElse_of_none (bind_of_none hexadecimal)).trans
      (bind_of_some (digits_append nonempty digits stop))
  have integer : integerLiteral (ds ++ (suffix.text ++ r)) = some (p, r) := by
    refine (bind_of_some number).trans ((bind_of_some (integerSuffix_append apart suffix)).trans ?_)
    rw [typed]
    rfl
  exact (orElse_of_none (bind_of_none real)).trans (orElse_of_some (bind_of_some integer))

theorem literalTerm_toDigits {n : Nat} {r : List Char} {suffix : IntegerSuffix} {p : Primitive}
    (typed : integerOf? suffix n = some p) (apart : Apart r) (whole : fractionPart r = none) :
    literalTerm (Nat.toDigits 10 n ++ (suffix.text ++ r)) = some (.literal (.primitive p), r) := by
  have value : decimalValue (Nat.toDigits 10 n) = n :=
    Nat.ofDigitChars_toDigits (by decide) (by decide)
  have digits : ∀ d ∈ Nat.toDigits 10 n, d.isDigit = true := fun d isElement =>
    Nat.isDigit_of_mem_toDigits (by decide) (by decide) isElement
  exact literalTerm_integer Nat.toDigits_ne_nil digits (by rwa [value]) apart whole

/-- The value of a whole number without suffix: the smallest type that holds it. -/
def wholeNumber (n : Nat) : Primitive :=
  if n < 0x80000000 then .i32 (Int32.ofNat n)
  else if n < UInt32.size then .u32 n.toUInt32
  else if n < 0x8000000000000000 then .i64 (Int64.ofNat n)
  else .u64 n.toUInt64

theorem integerOf?_none {n : Nat} (small : n < UInt64.size) :
    integerOf? .none n = some (wholeNumber n) := by
  simp only [integerOf?, wholeNumber, if_pos small]
  split
  · rfl
  · split
    · rfl
    · split <;> rfl

/-- A whole number without suffix. -/
theorem literalTerm_whole {ds r : List Char} (nonempty : ds ≠ [])
    (digits : ∀ d ∈ ds, d.isDigit = true) (small : decimalValue ds < UInt64.size)
    (apart : Apart r) (whole : fractionPart r = none) :
    literalTerm (ds ++ r) = some (.literal (.primitive (wholeNumber (decimalValue ds))), r) := by
  have read := literalTerm_integer nonempty digits (integerOf?_none small) apart whole
  rwa [IntegerSuffix.text, List.nil_append] at read

theorem literalTerm_wholeNumber {n : Nat} {r : List Char} (small : n < UInt64.size)
    (apart : Apart r) (whole : fractionPart r = none) :
    literalTerm (Nat.toDigits 10 n ++ r) = some (.literal (.primitive (wholeNumber n)), r) := by
  have read := literalTerm_toDigits (integerOf?_none small) apart whole
  rwa [IntegerSuffix.text, List.nil_append] at read

/-! ## Escapes -/

/-- The control characters are written by four digits. -/
theorem hexPadded_of_isControl {c : Char} (isControl : isControl c = true) :
    ∃ w x y z, (hexPadded 4 c.toNat).toList = [w, x, y, z] ∧
      (∀ d ∈ [w, x, y, z], isHexDigit d = true) ∧ hexNumber [w, x, y, z] = c.toNat := by
  have small : c.toNat < 160 := by
    simp only [Text.isControl, Bool.or_eq_true, Bool.and_eq_true, decide_eq_true_eq] at isControl
    omega
  have table : ∀ n < 160, ((hexPadded 4 n).toList.length = 4 ∧
      (hexPadded 4 n).toList.all isHexDigit = true) ∧
      hexNumber (hexPadded 4 n).toList = n := by decide +kernel
  obtain ⟨⟨length, digits⟩, value⟩ := table c.toNat small
  match spelled : (hexPadded 4 c.toNat).toList, length with
  | [w, x, y, z], _ =>
      exact ⟨w, x, y, z, rfl, spelled ▸ List.all_eq_true.mp digits, spelled ▸ value⟩

theorem escape_unicode {c w x y z : Char} (digits : ∀ d ∈ [w, x, y, z], isHexDigit d = true)
    (value : hexNumber [w, x, y, z] = c.toNat) (r : List Char) :
    escape ('\\' :: 'u' :: w :: x :: y :: z :: r) = some (c, r) := by
  have read {d : Char} (isElement : d ∈ [w, x, y, z]) (v : List Char) :
      hexDigit (d :: v) = some (d, v) := by rw [hexDigit, satisfy, if_pos (digits d isElement)]
  have known : charOf? (hexNumber [w, x, y, z]) = some c := by
    have valid : c.toNat.isValidChar := c.valid
    rw [value, charOf?, if_pos valid, Char.ofNat_toNat]
  have start : exactly "\\" ('\\' :: 'u' :: w :: x :: y :: z :: r) =
      some ((), 'u' :: w :: x :: y :: z :: r) := rfl
  have named : (do let c ← satisfy fun _ => true; ofOption (simpleEscape? c) : Scan Char)
      ('u' :: w :: x :: y :: z :: r) = none := rfl
  have letter : exactly "u" ('u' :: w :: x :: y :: z :: r) = some ((), w :: x :: y :: z :: r) := rfl
  refine (bind_of_some start).trans ((orElse_of_none named).trans ?_)
  refine (bind_of_some letter).trans ?_
  refine (bind_of_some (read (by simp) _)).trans ?_
  refine (bind_of_some (read (by simp) _)).trans ?_
  refine (bind_of_some (read (by simp) _)).trans ?_
  refine (bind_of_some (read (by simp) _)).trans ?_
  rw [known]
  rfl

/-- A character in quotes stands for itself, or what is written for it is read as an escape. -/
theorem escaped_cases (c : Char) :
    (escaped c = [c] ∧ c ≠ '"' ∧ c ≠ '\\') ∨ ∀ r, escape (escaped c ++ r) = some (c, r) := by
  unfold escaped
  split
  case h_7 noQuote noBackslash _ _ _ _ =>
    split
    case isTrue isControl =>
      obtain ⟨w, x, y, z, spelled, digits, value⟩ := hexPadded_of_isControl isControl
      rw [spelled]
      exact .inr (escape_unicode digits value)
    case isFalse => exact .inl ⟨rfl, noQuote, noBackslash⟩
  all_goals exact .inr fun r => rfl

theorem escape_of_ne {c : Char} (other : c ≠ '\\') (w : List Char) : escape (c :: w) = none :=
  bind_of_none (exactly_of_ne rfl other.symm w)

/-- A character is read from what is written for it, where it may stand for itself. -/
theorem read_escaped {chars : String} {c : Char}
    (plain : c ≠ '"' → c ≠ '\\' → chars.toList.contains c = false) (w : List Char) :
    (escape <|> noneOf chars) (escaped c ++ w) = some (c, w) := by
  rcases escaped_cases c with ⟨same, noQuote, noBackslash⟩ | escapes
  · rw [same]
    refine (orElse_of_none (escape_of_ne noBackslash _)).trans ?_
    rw [noneOf, satisfy, plain noQuote noBackslash]
    rfl
  · exact orElse_of_some (escapes w)

/-- What is written for a character starts with a backslash if it is not the character itself. -/
theorem escaped_start (c : Char) : ∃ d more, escaped c = d :: more ∧ (d = c ∨ d = '\\') := by
  unfold escaped
  split
  case h_7 =>
    split
    · exact ⟨_, _, rfl, .inr rfl⟩
    · exact ⟨_, _, rfl, .inl rfl⟩
  all_goals exact ⟨_, _, rfl, .inr rfl⟩

theorem escaped_ne_nil (c : Char) : escaped c ≠ [] := by
  obtain ⟨d, more, spelled, -⟩ := escaped_start c
  rw [spelled]
  exact List.cons_ne_nil _ _

/-! ## Strings -/

/-- A string is read from its quoted text. -/
theorem literalTerm_quoted (s r : List Char) :
    literalTerm (quoted s ++ r) = some (.literal (.string (String.ofList s)), r) := by
  have text : quoted s ++ r = '"' :: (s.flatMap escaped ++ '"' :: r) := by
    rw [quoted, List.cons_append, List.append_assoc]
    rfl
  have opening : exactly "\"" ('"' :: (s.flatMap escaped ++ '"' :: r)) =
      some ((), s.flatMap escaped ++ '"' :: r) := rfl
  have stop : (escape <|> noneOf "\"\\") ('"' :: r) = none :=
    (orElse_of_none (escape_of_ne (by decide) _)).trans rfl
  have chars : many (escape <|> noneOf "\"\\") (s.flatMap escaped ++ '"' :: r) =
      some (s, '"' :: r) := by
    have items : itemsOf (escape <|> noneOf "\"\\") (s.flatMap escaped ++ '"' :: r) =
        (s.map id, '"' :: r) :=
      itemsOf_flatMap (fun _ => True)
        (fun c _ w _ => read_escaped (fun noQuote noBackslash => by simp [noQuote, noBackslash]) w)
        (fun c _ => escaped_ne_nil c) (fun _ _ _ => trivial) trivial stop
    rw [List.map_id] at items
    exact congrArg some items
  have closing : exactly "\"" ('"' :: r) = some ((), r) := rfl
  have regular : regularString ('"' :: (s.flatMap escaped ++ '"' :: r)) =
      some (String.ofList s, r) :=
    bind_of_some ((bind_of_some opening).trans ((bind_of_some chars).trans (bind_of_some closing)))
  have verbatim : verbatimString ('"' :: (s.flatMap escaped ++ '"' :: r)) = none :=
    bind_of_none (bind_of_none (exactly_of_ne rfl (by decide) _))
  have char : Refuses ['"'] charLiteral := refuses_charLiteral (by decide)
  have integer : Refuses ['"'] integerLiteral := refuses_integerLiteral rfl
  have real : Refuses ['"'] realLiteral := refuses_realLiteral rfl
  rw [text]
  exact (orElse_of_none (bind_of_none (real '"' List.mem_cons_self _))).trans <|
    (orElse_of_none (bind_of_none (integer '"' List.mem_cons_self _))).trans <|
    (orElse_of_none (bind_of_none (char '"' List.mem_cons_self _))).trans <|
    bind_of_some ((orElse_of_none verbatim).trans regular)

/-! ## Characters -/

/-- A character between single quotes. -/
def quotedChar (c : Char) : List Char :=
  '\'' :: ((if c = '\'' then ['\\', '\''] else escaped c) ++ ['\''])

theorem literalTerm_quotedChar {c : Char} (isUnit : c.toNat < 65536) (r : List Char) :
    literalTerm (quotedChar c ++ r) =
      some (.literal (.primitive (.char c.toNat.toUInt16)), r) := by
  have text : quotedChar c ++ r =
      '\'' :: ((if c = '\'' then ['\\', '\''] else escaped c) ++ '\'' :: r) := by
    rw [quotedChar, List.cons_append, List.append_assoc]
    rfl
  have inside : (escape <|> noneOf "'\\")
      ((if c = '\'' then ['\\', '\''] else escaped c) ++ '\'' :: r) = some (c, '\'' :: r) := by
    split
    case isTrue same =>
      rw [same]
      exact orElse_of_some rfl
    case isFalse noQuote =>
      exact read_escaped (fun _ noBackslash => by simp [noQuote, noBackslash]) _
  have opening (w : List Char) : exactly "'" ('\'' :: w) = some ((), w) := rfl
  have closing : exactly "'" ('\'' :: r) = some ((), r) := rfl
  have char : charLiteral ('\'' :: ((if c = '\'' then ['\\', '\''] else escaped c) ++ '\'' :: r)) =
      some (.char c.toNat.toUInt16, r) := by
    refine (bind_of_some ((bind_of_some (opening _)).trans
      ((bind_of_some inside).trans (bind_of_some closing)))).trans ?_
    rw [if_pos isUnit]
    rfl
  have integer : Refuses ['\''] integerLiteral := refuses_integerLiteral rfl
  have real : Refuses ['\''] realLiteral := refuses_realLiteral rfl
  rw [text]
  exact (orElse_of_none (bind_of_none (real '\'' List.mem_cons_self _))).trans <|
    (orElse_of_none (bind_of_none (integer '\'' List.mem_cons_self _))).trans <|
    orElse_of_some (bind_of_some char)

end ManagedDebugger.Expr
