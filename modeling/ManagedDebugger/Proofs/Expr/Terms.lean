import ManagedDebugger.Proofs.Expr.Levels

/-!
# Reading terms

Numbers, strings, names and expressions in parentheses, each read as far as it is written. A name is
read as itself where no type arguments follow; it may start with a word that would be read otherwise
if parentheses stood behind it.
-/

namespace ManagedDebugger.Expr

open Text
open Text.Scan

/-! ## What stands behind a term -/

theorem shown_of_isNameChar {c : Char} (isChar : isNameChar c = true) : isBlank c = false := by
  simp only [isNameChar, Char.isAlphanum, Bool.or_eq_true] at isChar
  rcases isChar with (letter | digit) | underscore
  · exact shown_of_isNameStart (by simp [isNameStart, letter])
  · exact shown_of_isDigit digit
  · exact shown_of_isNameStart (by simp [isNameStart, underscore])

theorem symbol_of_isNameChar {text : String} {c d : Char} {more : List Char}
    (isChar : isNameChar c = true) (start : text.toList = d :: more)
    (other : isNameChar d = false) (w : List Char) : symbol text (c :: w) = none := by
  refine symbol_of_ne start ?_ (shown_of_isNameChar isChar) w
  rintro rfl
  rw [other] at isChar
  cases isChar

/-- What may stand behind a name or a number for it to be over: no word goes on, no fraction
follows, and no type arguments. -/
structure Behind (r : List Char) : Prop where
  apart : Apart r
  whole : fractionPart r = none
  plain : ∀ depth, typeArguments depth r = none

namespace Behind

protected theorem nil : Behind [] := ⟨rfl, rfl, fun depth => needs_typeArguments depth [] blank_nil⟩

protected theorem cons {c : Char} (stops : isNameChar c = false) (shown : isBlank c = false)
    (noDot : c ≠ '.') (noBracket : c ≠ '<') (w : List Char) : Behind (c :: w) where
  apart := by
    rw [Apart, satisfy, stops]
    rfl
  whole := bind_of_none (exactly_of_ne rfl noDot.symm w)
  plain depth := bind_of_none (bind_of_none (symbol_of_ne rfl noBracket.symm shown w))

/-- The name of a member. -/
protected theorem dot {n : String} (isName : isName n = true) (w : List Char) :
    Behind ('.' :: (n.toList ++ w)) where
  apart := rfl
  whole := by
    obtain ⟨c, rest, spelled, start, -⟩ := isName_cons isName
    have dot : exactly "." ('.' :: (n.toList ++ w)) = some ((), n.toList ++ w) := rfl
    refine (bind_of_some dot).trans (bind_of_none ?_)
    rw [spelled, List.cons_append, digit, satisfy, isDigit_of_isNameStart start]
    rfl
  plain depth := bind_of_none (bind_of_none (symbol_of_ne rfl (by decide) rfl _))

end Behind

/-- Nothing goes on at the end of a text. -/
theorem Halts.nil : Halts [] :=
  ⟨fun ops => needs_binary ops [] blank_nil, Needs.symbol rfl [] blank_nil⟩

theorem primary_of_term {depth : Nat} {inner : Scan Expr} {e : Expr} {u : List Char}
    (read : term depth inner u = some (e, [])) : primary depth inner u = some (e, []) := by
  have parts : many (postfixPart depth inner) [] = some ([], []) :=
    congrArg some (itemsOf_of_none (needs_postfixPart depth inner [] blank_nil))
  exact (bind_of_some read).trans (bind_of_some parts)

theorem parse?_of_unaryLevel {text : String} {e : Expr}
    (read : ∀ depth inner, unaryLevel (primary depth inner) text.toList = some (e, [])) :
    parse? text = some [e] := by
  refine parse?_of_expression blank_nil ?_
  rw [skips_expression, ← List.append_nil text.toList]
  exact expression_of_unaryLevel .nil (by rw [List.append_nil]; exact read _ _)

/-- A text that is one term is one expression. -/
theorem parse?_of_term {text : String} {e : Expr}
    (read : ∀ depth inner, term depth inner text.toList = some (e, [])) :
    parse? text = some [e] :=
  parse?_of_unaryLevel fun depth inner => unaryLevel_of_primary (primary_of_term (read depth inner))

/-- A quoted string is read as the string. -/
theorem parse?_quote (s : String) : parse? (quote s) = some [.literal (.string s)] := by
  have literal := literalTerm_quoted s.toList []
  rw [List.append_nil, String.ofList_toList] at literal
  refine parse?_of_term fun depth inner => ?_
  rw [quote, String.toList_ofList]
  exact term_of_literalTerm rfl literal

/-- A whole number is read as its digits and its suffix say. -/
theorem term_number {n : Nat} {r : List Char} {suffix : IntegerSuffix} {p : Primitive}
    (typed : integerOf? suffix n = some p) (behind : Behind r) (depth : Nat) (inner : Scan Expr) :
    term depth inner (Nat.toDigits 10 n ++ (suffix.text ++ r)) =
      some (.literal (.primitive p), skipBlanks r) := by
  obtain ⟨d, ds, spelled⟩ := List.exists_cons_of_ne_nil (Nat.toDigits_ne_nil (n := n) (b := 10))
  have isDigit : d.isDigit = true :=
    Nat.isDigit_of_mem_toDigits (by decide) (by decide) (spelled ▸ List.mem_cons_self)
  have shown : skipBlanks (Nat.toDigits 10 n ++ (suffix.text ++ r)) =
      Nat.toDigits 10 n ++ (suffix.text ++ r) := by
    rw [spelled]
    exact skipBlanks_cons_of_shown (shown_of_isDigit isDigit) _
  exact term_of_literalTerm shown (literalTerm_toDigits typed behind.apart behind.whole)

/-! ## Names -/

/-- The words that are read as something else than names. -/
def isKeyword (word : String) : Bool :=
  ["true", "false", "null", "this"].contains word || isUnsupported word ||
    (Type.ofKeyword? word).isSome

theorem ofName_of_not_keyword {n : String} (free : isKeyword n = false) :
    ofName n = .identifier n := by
  simp only [isKeyword, Bool.or_eq_false_iff, Option.isSome_eq_false_iff, Option.isNone_iff_eq_none]
    at free
  obtain ⟨⟨noConstant, supported⟩, noType⟩ := free
  unfold ofName
  split
  case h_5 => rw [if_neg (by rw [supported]; decide), noType]
  all_goals cases noConstant

/-- The words for types stand for types. -/
theorem ofName_of_keyword {word name : String} (known : Type.ofKeyword? word = some name) :
    ofName word = .predefined name := by
  unfold Type.ofKeyword? at known
  split at known
  case h_16 => cases known
  all_goals
    cases known
    rfl

/-- A word in front of a longer name is followed by one more character of the name. -/
theorem word_cases {word n : String} {r w : List Char} (isWord : word.toList.all isNameChar = true)
    (isName : isName n = true) (apart : Apart r)
    (found : exactly word (n.toList ++ r) = some ((), w)) :
    (n = word ∧ w = r) ∨ ∃ c v, w = c :: v ∧ isNameChar c = true := by
  rcases List.append_eq_append_iff.mp (exactly_eq_some_iff.mp found) with
    ⟨more, longer, rest⟩ | ⟨more, longer, rest⟩
  · cases more with
    | nil => exact .inl ⟨String.toList_inj.mp (by rw [longer, List.append_nil]), rest.symm⟩
    | cons c more =>
        have isChar : isNameChar c = true :=
          List.all_eq_true.mp isWord c (longer ▸ List.mem_append_right _ List.mem_cons_self)
        rw [Apart, rest, List.cons_append, satisfy, if_pos isChar] at apart
        cases apart
  · cases more with
    | nil => exact .inl ⟨String.toList_inj.mp (by rw [longer, List.append_nil]), rest⟩
    | cons c more =>
        exact .inr ⟨c, more ++ r, rest,
          isNameChar_of_isName isName c (longer ▸ List.mem_append_right _ List.mem_cons_self)⟩

section

variable {n : String} {r : List Char} (isName : isName n = true)
include isName

/-- The words in front of parentheses are names where no parenthesis stands behind them. -/
theorem inParentheses_of_word {α : Type} {p : Scan α} {word : String} {w : List Char}
    (isWord : word.toList.all isNameChar = true) (apart : Apart r)
    (call : n = word → symbol "(" r = none)
    (found : exactly word (n.toList ++ r) = some ((), w)) : inParentheses p w = none := by
  refine bind_of_none ?_
  rcases word_cases isWord isName apart found with ⟨same, rfl⟩ | ⟨c, v, rfl, isChar⟩
  · exact call same
  · exact symbol_of_isNameChar isChar rfl rfl v

theorem checkedTerm_of_name (apart : Apart r) (inner : Scan Expr)
    (call : n = "checked" ∨ n = "unchecked" → symbol "(" r = none) :
    checkedTerm inner (n.toList ++ r) = none := by
  cases found : ((do exactly "checked"; pure true) <|> (do exactly "unchecked"; pure false) :
      Scan Bool) (n.toList ++ r) with
  | none => exact bind_of_none found
  | some x =>
      obtain ⟨on, w⟩ := x
      refine (bind_of_some found).trans (bind_of_none ?_)
      cases first : exactly "checked" (n.toList ++ r) with
      | some y =>
          rw [orElse_of_some (bind_of_some first)] at found
          obtain ⟨-, rfl⟩ := Prod.mk.inj (Option.some.inj found)
          exact inParentheses_of_word isName rfl apart (fun same => call (.inl same)) first
      | none =>
          rw [orElse_of_none (bind_of_none first)] at found
          obtain ⟨_, v, second, last⟩ := bind_eq_some_iff.mp found
          obtain ⟨-, rfl⟩ := Prod.mk.inj (Option.some.inj last)
          exact inParentheses_of_word isName rfl apart (fun same => call (.inr same)) second

theorem sizeOfTerm_of_name (apart : Apart r) (depth : Nat)
    (call : n = "sizeof" → symbol "(" r = none) : sizeOfTerm depth (n.toList ++ r) = none := by
  cases found : exactly "sizeof" (n.toList ++ r) with
  | none => exact bind_of_none found
  | some x =>
      refine (bind_of_some found).trans (bind_of_none ?_)
      exact inParentheses_of_word isName rfl apart call found

end

/-- The words behind which parentheses belong to the word. -/
def parenthesized : List String := ["checked", "unchecked", "sizeof"]

/-- A word starts with a letter, and neither a literal nor an interpolated string does. -/
theorem term_of_letter {c : Char} {w r : List Char} {depth : Nat} {inner : Scan Expr} {e : Expr}
    (start : isNameStart c = true)
    (read : (checkedTerm inner <|> sizeOfTerm depth <|> genericTerm depth <|> nameTerm <|>
      inParentheses inner) (c :: w) = some (e, r)) :
    term depth inner (c :: w) = some (e, skipBlanks r) := by
  have other {d : Char} (noStart : isNameStart d = false) : d ∉ [c] := by
    intro isElement
    rw [List.mem_singleton.mp isElement, start] at noStart
    cases noStart
  have digit : [c].any Char.isDigit = false := by
    rw [List.any_cons, isDigit_of_isNameStart start]
    rfl
  have literal : Refuses [c] literalTerm :=
    refuses_literalTerm digit (other rfl) (other rfl) (other rfl)
  have interpolated : Refuses [c] (interpolatedTerm inner) :=
    ((Refuses.exactly rfl (other rfl)).bind _).bind _
  refine padded_of_some (skipBlanks_cons_of_shown (shown_of_isNameStart start) w) ?_
  exact (orElse_of_none (literal c List.mem_cons_self w)).trans <|
    (orElse_of_none (interpolated c List.mem_cons_self w)).trans read

/-- A name starts no other term. -/
theorem term_of_name {n : String} {r w : List Char} {depth : Nat} {inner : Scan Expr} {e : Expr}
    (isName : isName n = true) (apart : Apart r) (call : n ∈ parenthesized → symbol "(" r = none)
    (read : (genericTerm depth <|> nameTerm) (n.toList ++ r) = some (e, w)) :
    term depth inner (n.toList ++ r) = some (e, skipBlanks w) := by
  obtain ⟨c, rest, spelled, start, -⟩ := isName_cons isName
  have text : n.toList ++ r = c :: (rest ++ r) := by rw [spelled, List.cons_append]
  rw [text]
  refine term_of_letter start ?_
  rw [← text]
  refine (orElse_of_none (checkedTerm_of_name isName apart inner fun same => call ?_)).trans ?_
  · rcases same with rfl | rfl <;> decide
  refine (orElse_of_none (sizeOfTerm_of_name isName apart depth fun same => call ?_)).trans ?_
  · rw [same]
    decide
  exact orElse_orElse_of_some read

theorem term_name {n : String} {r : List Char} (isName : isName n = true) (behind : Behind r)
    (call : n ∈ parenthesized → symbol "(" r = none) (depth : Nat) (inner : Scan Expr) :
    term depth inner (n.toList ++ r) = some (ofName n, skipBlanks r) := by
  have generic : genericTerm depth (n.toList ++ r) = none :=
    (bind_of_some (name_append isName behind.apart)).trans (bind_of_none (behind.plain depth))
  exact term_of_name isName behind.apart call
    ((orElse_of_none generic).trans (bind_of_some (name_append isName behind.apart)))

end ManagedDebugger.Expr
