import ManagedDebugger.Proofs.Expr.Parts

/-!
# Printed expressions are read back

Every expression that can be written is read from its text, and no other one is. The proof follows
the expression: what is read of a part, and how far, is known before the reader of the whole comes
to it.
-/

namespace ManagedDebugger.Expr

open Text
open Text.Scan

section

variable {p : Parentheses} {e : Expr}

theorem part_of_around (around : p.around e = true) : p.part e = '(' :: (p.text e ++ [')']) :=
  if_pos around

theorem part_of_bare (bare : p.around e = false) : p.part e = p.text e :=
  if_neg (by rw [bare]; decide)

/-- The text of an expression is read up to its end, or up to a closing parenthesis. A text does not
open more brackets inside one another than it has characters. -/
def ReadsWhole (p : Parentheses) (e : Expr) : Prop :=
  ∀ {d : Nat} {r : List Char}, (p.text e).length ≤ d → Stops [')'] r →
    expression d (p.text e ++ r) = some (e, r)

/-- How an expression is read, as a part of another one and alone. -/
structure Reads (p : Parentheses) (e : Expr) : Prop where
  part {d : Nat} {r : List Char} : (p.part e).length ≤ d + 1 → Behind r →
    (e.isGeneric = true → Starts uses r) →
    primary (d + 1) (expression d) (p.part e ++ r) =
      joined applyPart (postfixPart (d + 1) (expression d)) e (skipBlanks r)
  whole : e.isGeneric = false → ReadsWhole p e
  noType : e.isGeneric = false → NoType (p.part e)

theorem stops_closers {r : List Char} (stops : Stops [')'] r) : Stops closers r :=
  stops.mono (List.forall_mem_singleton.mpr List.mem_cons_self)

/-- An access or a call stands behind an expression. -/
structure Follows (target : Expr) (u : List Char) : Prop where
  behind : Behind u
  shown : skipBlanks u = u
  used : target.isGeneric = true → Starts uses u

namespace Follows

variable {target : Expr}

theorem dot {n : String} (isName : isName n = true) {conditional : Bool}
    (plain : conditional = true → target.isGeneric = false) (w : List Char) :
    Follows target (Expr.dot conditional ++ (n.toList ++ w)) := by
  cases conditional with
  | false => exact ⟨.dot isName w, rfl, fun _ => ⟨'.', _, rfl, by decide⟩⟩
  | true =>
      exact ⟨.cons rfl rfl (by decide) (by decide) _, rfl,
        fun isGeneric => nomatch (plain rfl).symm.trans isGeneric⟩

theorem bracket (plain : target.isGeneric = false) (conditional : Bool) (w : List Char) :
    Follows target (Expr.bracket conditional ++ w) := by
  cases conditional with
  | false =>
      exact ⟨.cons rfl rfl (by decide) (by decide) _, rfl,
        fun isGeneric => nomatch plain.symm.trans isGeneric⟩
  | true =>
      exact ⟨.cons rfl rfl (by decide) (by decide) _, rfl,
        fun isGeneric => nomatch plain.symm.trans isGeneric⟩

theorem call (w : List Char) : Follows target ('(' :: w) :=
  ⟨.cons rfl rfl (by decide) (by decide) w, rfl, fun _ => ⟨'(', w, rfl, by decide⟩⟩

end Follows

namespace Reads

/-! ## In parentheses, as a term, with type arguments -/

/-- An expression in parentheses. -/
theorem of_around (around : p.around e = true) (whole : ReadsWhole p e) : Reads p e where
  part {d r} short _ _ := by
    rw [part_of_around around] at short ⊢
    have inside : (p.text e).length ≤ d := by
      rw [List.length_cons, List.length_append, List.length_singleton] at short
      omega
    have read : expression d (skipBlanks (p.text e ++ ')' :: r)) = some (e, ')' :: r) := by
      rw [skips_expression]
      exact whole inside (.inr ⟨')', r, rfl, List.mem_cons_self⟩)
    have term : term (d + 1) (expression d) ('(' :: (p.text e ++ ')' :: r)) =
        some (e, skipBlanks r) := term_parentheses read
    rw [List.cons_append, List.append_assoc, List.singleton_append]
    exact bind_of_some term
  whole _ := whole
  noType _ := by
    rw [part_of_around around]
    exact .of_starts ⟨'(', _, rfl, by decide⟩

/-- An expression that is a term. -/
theorem of_term
    (term : ∀ {d : Nat} {r : List Char}, (p.text e).length ≤ d + 1 → Behind r →
      term (d + 1) (expression d) (p.text e ++ r) = some (e, skipBlanks r))
    (noType : NoType (p.text e)) : Reads p e := by
  have nonempty : p.text e ≠ [] := by
    intro nothing
    have read := term (d := 0) (by rw [nothing]; exact Nat.zero_le _) .nil
    have failed := needs_term 1 (expression 0) [] blank_nil
    rw [nothing, List.append_nil, failed] at read
    cases read
  have bare {d : Nat} {r : List Char} (short : (p.text e).length ≤ d + 1) (behind : Behind r) :
      primary (d + 1) (expression d) (p.text e ++ r) =
        joined applyPart (postfixPart (d + 1) (expression d)) e (skipBlanks r) :=
    bind_of_some (term short behind)
  have whole : ReadsWhole p e := by
    intro d r short stops
    have some := List.length_pos_iff.mpr nonempty
    obtain ⟨d, rfl⟩ : ∃ n, d = n + 1 := ⟨d - 1, by omega⟩
    have read := bare short (.of_stops (stops_closers stops))
    rw [stops.shown (by decide)] at read
    exact expression_of_joined (stops_closers stops) read
  cases around : p.around e with
  | true => exact .of_around around whole
  | false =>
      have same := part_of_bare around
      refine ⟨fun short behind _ => ?_, fun _ => whole, fun _ => by rwa [same]⟩
      rw [same] at short ⊢
      exact bare short behind

/-- A name with type arguments. -/
theorem of_generic (isGeneric : e.isGeneric = true)
    (bare : ∀ {d : Nat} {r : List Char}, (p.text e).length ≤ d + 1 → Starts uses r →
      primary (d + 1) (expression d) (p.text e ++ r) =
        joined applyPart (postfixPart (d + 1) (expression d)) e r) : Reads p e where
  part {d r} short _ used := by
    have starts := used isGeneric
    rw [part_of_bare (p.generic e isGeneric)] at short ⊢
    rw [starts.shown (by decide)]
    exact bare short starts
  whole plain := nomatch plain.symm.trans isGeneric
  noType plain := nomatch plain.symm.trans isGeneric

/-! ## Parts and operands -/

variable (reads : Reads p e)
include reads

/-- What follows an expression is applied to it. -/
theorem followed {d : Nat} {u r : List Char} {f : Expr → Expr}
    (short : (p.part e).length ≤ d + 1) (follows : Follows e u)
    (read : postfixPart (d + 1) (expression d) u = some (f, r)) (shorter : r.length < u.length) :
    primary (d + 1) (expression d) (p.part e ++ u) =
      joined applyPart (postfixPart (d + 1) (expression d)) (f e) r := by
  rw [reads.part short follows.behind follows.used, follows.shown]
  exact joined_of_some read shorter

variable (plain : e.isGeneric = false)
include plain

theorem unaryLevel_part {d : Nat} {r : List Char} (short : (p.part e).length ≤ d + 1)
    (behind : Behind r) (ends : postfixPart (d + 1) (expression d) (skipBlanks r) = none) :
    unaryLevel (primary (d + 1) (expression d)) (p.part e ++ r) = some (e, skipBlanks r) := by
  have read := reads.part short behind fun isGeneric => nomatch plain.symm.trans isGeneric
  rw [joined_of_none ends] at read
  exact unaryLevel_of_primary read

/-- The last operand. -/
theorem unaryLevel_last {d : Nat} {r : List Char} (short : (p.part e).length ≤ d + 1)
    (stops : Stops closers r) :
    unaryLevel (primary (d + 1) (expression d)) (p.part e ++ r) = some (e, skipBlanks r) := by
  refine reads.unaryLevel_part plain short (.of_stops stops) ?_
  rw [stops.shown (by decide)]
  exact postfixPart_of_stops stops _ _

theorem part_ne_nil : p.part e ≠ [] := by
  intro nothing
  have read := reads.part (d := 0) (by rw [nothing]; exact Nat.zero_le _) .nil
    fun isGeneric => nomatch plain.symm.trans isGeneric
  have failed : primary 1 (expression 0) [] = none :=
    (needs_term 1 (expression 0)).bind _ [] blank_nil
  have ends := needs_postfixPart 1 (expression 0) (skipBlanks []) blank_nil
  rw [nothing, List.append_nil, failed, joined_of_none ends] at read
  cases read

theorem expression_part {d : Nat} {r : List Char} (short : (p.part e).length ≤ d)
    (stops : Stops closers r) : expression d (p.part e ++ r) = some (e, r) := by
  have some := List.length_pos_iff.mpr (reads.part_ne_nil plain)
  obtain ⟨d, rfl⟩ : ∃ n, d = n + 1 := ⟨d - 1, by omega⟩
  have read := expression_of_unaryLevel (.of_stops stops) (reads.unaryLevel_last plain short stops)
  rwa [stops.shown (by decide)] at read

end Reads

/-! ## Names -/

namespace Reads

theorem ofName {n : String} (isName : isName n = true) (noCall : n ∉ parenthesized)
    (known : ofName n = e) (text : p.text e = n.toList) : Reads p e := by
  refine .of_term (fun {d r} _ behind => ?_) (text ▸ .of_word (isNameChar_of_isName isName))
  rw [text, ← known]
  exact term_name isName behind (fun isElement => absurd isElement noCall) _ _

theorem identifier {n : String} (isName : isName n = true) (free : isKeyword n = false)
    (noCall : n ∉ parenthesized) : Reads p (.identifier n) :=
  .ofName isName noCall (ofName_of_not_keyword free) rfl

theorem this : Reads p .this := .ofName (n := "this") rfl (by decide) rfl rfl

theorem predefined {name : String} (hasWord : (Type.keyword? name).isSome = true) :
    Reads p (.predefined name) := by
  obtain ⟨word, found⟩ := Option.isSome_iff_exists.mp hasWord
  obtain ⟨known, isName⟩ := Type.ofKeyword?_of_keyword? found
  have noCall : ∀ w ∈ Type.keywords, w ∉ parenthesized := by decide
  refine .ofName isName (noCall word (List.mem_of_find?_eq_some found)) (ofName_of_keyword known) ?_
  have text : p.text (.predefined name) = (Type.written name).toList := rfl
  rw [text, Type.written, found, Option.getD_some]

/-- A name with type arguments, behind which they are used. -/
theorem generic {n : String} (isName : isName n = true) {arguments : List TypeExpr}
    (writable : ∀ t ∈ arguments, t.Writable) : Reads p (.generic n arguments) := by
  refine .of_generic rfl fun {d r} short used => ?_
  rw [p.text_generic, List.length_append] at short
  have types : typeArguments (d + 1) (angled (TypeExpr.texts arguments) ++ r) =
      some (arguments, r) := typeArguments_angled writable (by omega) used
  have apart : Apart (angled (TypeExpr.texts arguments) ++ r) := rfl
  have call : symbol "(" (angled (TypeExpr.texts arguments) ++ r) = none := rfl
  have generic : genericTerm (d + 1) (n.toList ++ (angled (TypeExpr.texts arguments) ++ r)) =
      some (.generic n arguments, r) :=
    (bind_of_some (name_append isName apart)).trans (bind_of_some types)
  have term : term (d + 1) (expression d) (n.toList ++ (angled (TypeExpr.texts arguments) ++ r)) =
      some (.generic n arguments, skipBlanks r) :=
    term_of_name isName apart (fun _ => call) (orElse_of_some generic)
  rw [used.shown (by decide)] at term
  rw [p.text_generic, List.append_assoc]
  exact bind_of_some term

/-! ## Accesses and calls -/

/-- Indices and arguments. -/
theorem separated_parts {es : List Expr} (reads : ∀ e ∈ es, Reads p e)
    (plain : ∀ e ∈ es, e.isGeneric = false) {d : Nat} {r : List Char}
    (short : (commaSeparated (p.texts es)).length ≤ d) (last : Starts [')', ']'] r) :
    separated (expression d) (symbol ",") (skipBlanks (commaSeparated (p.texts es) ++ r)) =
      some (es, r) := by
  have closed : Starts closers r := last.mono (by simp [closers])
  have noComma : Refuses [')', ']'] (symbol ",") := .symbol (by decide) rfl (by decide)
  have read : ∀ e ∈ es, ∀ w, Starts closers w →
      expression d (skipBlanks (p.part e ++ w)) = some (e, w) := by
    intro e isElement w starts
    have le := length_le_commaSeparated (List.mem_map_of_mem (f := p.part) isElement)
    rw [← p.texts_eq_map] at le
    rw [skips_expression]
    exact (reads e isElement).expression_part (plain e isElement) (by omega) (.inr starts)
  have items := separated_intercalate (Starts closers) read (fun w => ⟨',', w, rfl, by decide⟩)
    closed (closed.shown (by decide)) (fun _ => closed.none (refuses_expression rfl rfl rfl d))
    (last.none noComma)
  rwa [List.map_id', ← p.texts_eq_map] at items

/-- An access or a call without type arguments. -/
theorem of_followed {target : Expr} (reads : Reads p target) {f : Expr → Expr} {u : List Char}
    (isCompound : (f target).isCompound = true) (text : p.text (f target) = p.part target ++ u)
    (nonempty : u ≠ []) (follows : ∀ w, Follows target (u ++ w))
    (read : ∀ {d : Nat} {r : List Char}, u.length ≤ d + 1 → Stops [')'] r →
      postfixPart (d + 1) (expression d) (u ++ r) = some (f, r)) : Reads p (f target) := by
  refine .of_around (p.compound _ isCompound) fun {d r} short stops => ?_
  have some := List.length_pos_iff.mpr nonempty
  rw [text, List.length_append] at short
  obtain ⟨d, rfl⟩ : ∃ n, d = n + 1 := ⟨d - 1, by omega⟩
  refine expression_of_joined (stops_closers stops) ?_
  rw [text, List.append_assoc]
  refine reads.followed (by omega) (follows r) (read (by omega) stops) ?_
  rw [List.length_append]
  omega

section

variable {target : Expr} (reads : Reads p target)
include reads

theorem member {n : String} (isName : isName n = true) {conditional : Bool}
    (plain : conditional = true → target.isGeneric = false) :
    Reads p (.member target n none conditional) := by
  refine of_followed reads (f := fun e => .member e n none conditional) rfl rfl ?_ (fun w => ?_)
    fun {d r} _ stops => ?_
  · cases conditional <;> exact List.cons_ne_nil _ _
  · have follows := Follows.dot isName plain w
    rwa [← List.append_assoc] at follows
  · have behind : Behind r := .of_stops (stops_closers stops)
    rw [List.append_assoc]
    exact postfixPart_member isName conditional behind.apart (optional_of_none (behind.plain _))

theorem genericMember {n : String} (isName : isName n = true) {arguments : List TypeExpr}
    (writable : ∀ t ∈ arguments, t.Writable) {conditional : Bool}
    (plain : conditional = true → target.isGeneric = false) :
    Reads p (.member target n (some arguments) conditional) := by
  refine .of_generic rfl fun {d r} short used => ?_
  have text : p.text (.member target n (some arguments) conditional) ++ r =
      p.part target ++
        (dot conditional ++ (n.toList ++ (angled (TypeExpr.texts arguments) ++ r))) := by
    rw [p.text_genericMember, List.append_assoc, List.append_assoc, List.append_assoc]
  have length := congrArg List.length text
  simp only [List.length_append] at length short
  have types : typeArguments (d + 1) (angled (TypeExpr.texts arguments) ++ r) =
      some (arguments, r) := typeArguments_angled writable (by omega) used
  have apart : Apart (angled (TypeExpr.texts arguments) ++ r) := rfl
  rw [text]
  refine reads.followed (by omega) (.dot isName plain _)
    (postfixPart_member isName conditional apart (optional_of_some types)) ?_
  simp only [angled, List.length_append, List.length_cons]
  omega

theorem element (plain : target.isGeneric = false) {indices : List Expr}
    (readIndices : ∀ e ∈ indices, Reads p e) (plainIndices : ∀ e ∈ indices, e.isGeneric = false)
    (conditional : Bool) : Reads p (.element target indices conditional) := by
  refine of_followed reads (f := fun e => .element e indices conditional) rfl rfl ?_ (fun w => ?_)
    fun {d r} short stops => ?_
  · cases conditional <;> exact List.cons_ne_nil _ _
  · rw [List.append_assoc]
    exact .bracket plain conditional _
  · have inside : (commaSeparated (p.texts indices)).length ≤ d := by
      cases conditional <;> simp only [List.length_append, List.length_cons] at short <;> omega
    have list := separated_parts readIndices plainIndices inside
      ⟨']', r, rfl, List.mem_cons_of_mem _ List.mem_cons_self⟩
    have read : postfixPart (d + 1) (expression d)
        (Expr.bracket conditional ++ (commaSeparated (p.texts indices) ++ ']' :: r)) =
        some (fun e => .element e indices conditional, skipBlanks r) :=
      postfixPart_element conditional list
    rw [stops.shown (by decide)] at read
    rwa [List.append_assoc, List.append_assoc]

theorem invocation {arguments : List Expr} (readArguments : ∀ e ∈ arguments, Reads p e)
    (plainArguments : ∀ e ∈ arguments, e.isGeneric = false) :
    Reads p (.invocation target arguments) := by
  refine of_followed reads (f := fun e => .invocation e arguments) rfl rfl
    (List.cons_ne_nil _ _) (fun w => .call _) fun {d r} short stops => ?_
  have inside : (commaSeparated (p.texts arguments)).length ≤ d := by
    simp only [List.length_append, List.length_cons] at short
    omega
  have list := separated_parts readArguments plainArguments inside ⟨')', r, rfl, List.mem_cons_self⟩
  have read : postfixPart (d + 1) (expression d)
      ('(' :: (commaSeparated (p.texts arguments) ++ ')' :: r)) =
      some (fun e => .invocation e arguments, skipBlanks r) := postfixPart_invocation list
  rw [stops.shown (by decide)] at read
  rwa [List.cons_append, List.append_assoc]

end

/-! ## Operators -/

theorem unary {operand : Expr} (reads : Reads p operand) (plain : operand.isGeneric = false)
    (op : UnaryOp) : Reads p (.unary op operand) := by
  refine .of_around (p.compound _ rfl) fun {d r} short stops => ?_
  have symbol : 0 < op.symbol.toList.length := by cases op <;> decide
  rw [p.text_unary, List.length_append] at short
  obtain ⟨d, rfl⟩ : ∃ n, d = n + 1 := ⟨d - 1, by omega⟩
  have closed := stops_closers stops
  have skips : Skips (primary (d + 1) (expression d)) := (skips_term _ _).bind _
  have level := unaryLevel_cons skips op (reads.unaryLevel_last plain (by omega) closed)
  rw [← List.append_assoc] at level
  have read := expression_of_unaryLevel (.of_stops closed) level
  rwa [stops.shown (by decide)] at read

/-- Two operands with an operator between them are a chain that can be put together in one way. -/
theorem binary {left right : Expr} (readLeft : Reads p left) (plainLeft : left.isGeneric = false)
    (readRight : Reads p right) (plainRight : right.isGeneric = false) (op : BinaryOp) :
    Reads p (.binary op left right) := by
  refine .of_around (p.compound _ rfl) fun {d r} short stops => ?_
  rw [p.text_binary] at short
  simp only [List.length_append, List.length_cons] at short
  obtain ⟨d, rfl⟩ : ∃ n, d = n + 1 := ⟨d - 1, by omega⟩
  have closed := stops_closers stops
  let spelling : Spelling Expr := ⟨p.part, id⟩
  have noTypes := typeArguments_comparison op
    ((readRight.noType plainRight).append (stops.mono (List.forall_mem_singleton.mpr (by decide))))
  have behind : Behind (spelling.behind r [(op, right)]) :=
    ⟨rfl, bind_of_none (exactly_of_ne rfl (by decide) _), noTypes⟩
  have ends : postfixPart (d + 1) (expression d)
      (skipBlanks (spelling.behind r [(op, right)])) = none := by
    rw [Spelling.skipBlanks_behind]
    exact postfixPart_operator _ _ op _
  have first := readLeft.unaryLevel_part plainLeft (d := d) (by omega) behind ends
  have second := readRight.unaryLevel_last plainRight (d := d) (by omega) closed
  have legible : spelling.Legible r (unaryLevel (primary (d + 1) (expression d))) left
      [(op, right)] := .next first (.last second)
  obtain ⟨t, chain, grouped, read⟩ := Spelling.expression_of_legible (.of_stops closed) legible
  have only : t = .binary op (.operand left) (.operand right) :=
    grouped.unique (.binary (.operand left) (.operand right) nofun nofun) chain
  have spelled : p.text (.binary op left right) ++ r =
      p.part left ++ spelling.behind r [(op, right)] := by
    rw [p.text_binary, List.append_assoc, List.cons_append, List.append_assoc, List.cons_append]
    rfl
  rw [spelled]
  rwa [only, stops.shown (by decide)] at read

/-! ## Words with parentheses behind them, and interpolated strings -/

theorem noType_word {word : String} (chars : word.toList.all isNameChar = true) (w : List Char) :
    NoType (word.toList ++ '(' :: w) :=
  ⟨word.toList, '(' :: w, rfl, List.all_eq_true.mp chars, .inr ⟨'(', w, rfl, List.mem_cons_self⟩⟩

theorem checked {body : Expr} (reads : Reads p body) (plain : body.isGeneric = false) (on : Bool) :
    Reads p (.checked on body) := by
  refine .of_term (fun {d r} short _ => ?_) ?_
  · rw [p.text_checked] at short ⊢
    simp only [List.length_append, List.length_cons] at short
    have inside : expression d (skipBlanks (p.text body ++ ')' :: r)) = some (body, ')' :: r) := by
      rw [skips_expression]
      exact reads.whole plain (by omega) (.inr ⟨')', r, rfl, List.mem_cons_self⟩)
    rw [List.append_assoc, List.cons_append, List.append_assoc]
    exact term_checked on inside
  · rw [p.text_checked]
    cases on with
    | true => exact noType_word rfl _
    | false => exact noType_word rfl _

theorem sizeOf {type : TypeExpr} (writable : type.Writable) : Reads p (.sizeOf type) := by
  refine .of_term (fun {d r} short _ => ?_) (p.text_sizeOf type ▸ noType_word rfl _)
  rw [p.text_sizeOf] at short ⊢
  simp only [List.length_append, List.length_cons] at short
  have inside : typeName (d + 1) (skipBlanks (type.text ++ ')' :: r)) = some (type, ')' :: r) := by
    rw [skipBlanks_type writable]
    exact typeName_text writable (by omega) ⟨')', r, rfl, by decide⟩
  rw [List.append_assoc, List.cons_append, List.append_assoc]
  exact term_sizeOf inside

theorem length_part_le {pieces : List (Piece Expr)} (isElement : .hole e ∈ pieces) :
    (p.part e).length ≤ (p.piecesText pieces).length := by
  induction pieces with
  | nil => cases isElement
  | cons first pieces inductionHypothesis =>
      rcases List.mem_cons.mp isElement with rfl | later
      · simp only [p.piecesText_hole, List.length_append, List.length_cons]
        omega
      · have le := inductionHypothesis later
        cases first with
        | text s =>
            rw [p.piecesText_text, List.length_append]
            omega
        | hole e =>
            simp only [p.piecesText_hole, List.length_append, List.length_cons]
            omega

theorem interpolated {pieces : List (Piece Expr)} (reads : ∀ e, .hole e ∈ pieces → Reads p e)
    (plain : ∀ e, .hole e ∈ pieces → e.isGeneric = false) (separate : Piece.Separate pieces) :
    Reads p (.interpolated pieces) := by
  refine .of_term (fun {d r} short _ => ?_) (.of_starts ⟨'$', _, rfl, by decide⟩)
  simp only [p.text_interpolated, List.length_append, List.length_cons] at short
  refine term_interpolated (refuses_expression rfl rfl rfl d) (fun e isElement w => ?_) separate _
  have le := length_part_le (p := p) isElement
  exact (reads e isElement).expression_part (plain e isElement) (by omega)
    (.inr ⟨'}', w, rfl, by decide⟩)

theorem literal {l : Literal} (writable : l.Writable) : Reads p (.literal l) :=
  .of_term (fun _ behind => term_literal writable behind _ _) (noType_literal writable)

/-- Every expression that can be written is read. -/
theorem of_writable {followed : Bool} (writable : e.Writable followed) : Reads p e := by
  induction writable with
  | literal writable => exact .literal writable
  | identifier isName free noCall => exact .identifier isName free noCall
  | this => exact .this
  | predefined hasWord => exact .predefined hasWord
  | generic isName writable => exact .generic isName writable
  | member writable isName reads =>
      exact reads.member isName fun isConditional => by
        rw [isConditional] at writable
        exact writable.isGeneric
  | genericMember writable isName arguments reads =>
      exact reads.genericMember isName arguments fun isConditional => by
        rw [isConditional] at writable
        exact writable.isGeneric
  | element writable writables reads readIndices =>
      exact reads.element writable.isGeneric readIndices (fun e isElement =>
        (writables e isElement).isGeneric) _
  | invocation _ writables reads readArguments =>
      exact reads.invocation readArguments fun e isElement => (writables e isElement).isGeneric
  | unary writable reads => exact reads.unary writable.isGeneric _
  | binary left right readLeft readRight =>
      exact readLeft.binary left.isGeneric readRight right.isGeneric _
  | checked writable reads => exact reads.checked writable.isGeneric _
  | sizeOf writable => exact .sizeOf writable
  | interpolated writables separate reads =>
      exact .interpolated reads (fun e isElement => (writables e isElement).isGeneric) separate

end Reads

end

/-- The text of an expression is read as that expression and nothing else, whatever else stands in
parentheses. -/
theorem parse?_print (p : Parentheses) {e : Expr} (writable : e.Writable false) :
    parse? (p.print e) = some [e] := by
  have reads : Reads p e := .of_writable writable
  refine parse?_of_expression blank_nil ?_
  rw [skips_expression, Parentheses.print, String.length_ofList, String.toList_ofList]
  have read := reads.whole writable.isGeneric (Nat.le_succ _) (r := []) (.inl rfl)
  rwa [List.append_nil] at read

/-- A call of a method found by type arguments, behind an element that may not be there. -/
def fallback : Expr :=
  .binary .coalesce
    (.element (.identifier "xs") [.unary .minus (.literal (.primitive (.u32 1)))] true)
    (.invocation (.member (.generic "Map" [.mk "System.Int32" [] 1]) "Get" none false)
      [.literal (.primitive (.char 39)), .interpolated [.text "\x7b", .hole .this]])

theorem parse?_fallback :
    Parentheses.fewest.print fallback =
        "(xs?[(-1u)]) ?? ((Map<int[]>.Get)('\\'', $\"\x7b\x7b\x7bthis\x7d\"))" ∧
      fallback.Writable false ∧ parse? (Parentheses.fewest.print fallback) = some [fallback] := by
  have one : Literal.Writable (.primitive (.u32 1)) := .uint 1
  have quote : Literal.Writable (.primitive (.char 39)) := .char (c := '\'') rfl
  have int : ∀ t ∈ [TypeExpr.mk "System.Int32" [] 1], t.Writable :=
    List.forall_mem_singleton.mpr (.mk (.inl rfl) nofun)
  have element : (Expr.element (.identifier "xs") [.unary .minus (.literal (.primitive (.u32 1)))]
      true).Writable false :=
    .element (.identifier rfl rfl (by decide))
      (List.forall_mem_singleton.mpr (.unary (.literal one)))
  have text : Expr.Writable false (.interpolated [.text "\x7b", .hole .this]) := by
    refine .interpolated (fun e isElement => ?_) ⟨by decide, nofun, trivial⟩
    simp only [List.mem_cons, reduceCtorEq, false_or, List.not_mem_nil, or_false,
      Piece.hole.injEq] at isElement
    rw [isElement]
    exact .this
  have call : Expr.Writable false (.invocation (.member (.generic "Map" [.mk "System.Int32" [] 1])
      "Get" none false)
      [.literal (.primitive (.char 39)), .interpolated [.text "\x7b", .hole .this]]) :=
    .invocation (.member (.generic rfl int) rfl) (List.forall_mem_cons.mpr
      ⟨.literal quote, List.forall_mem_singleton.mpr text⟩)
  have writable : fallback.Writable false := .binary element call
  exact ⟨by decide +kernel, writable, parse?_print .fewest writable⟩

end ManagedDebugger.Expr
