import ManagedDebugger.Proofs.Expr.Printed

/-!
# Reading types

A type is read as it is written, up to a comma or a closing bracket, and type arguments are read
where a call or a member access stands behind them. After an operator that compares, what looks like
the start of type arguments is none.
-/

namespace ManagedDebugger

open Text
open Text.Scan
open ManagedDebugger.Expr

/-! ## Names of types -/

theorem Type.ofKeyword?_of_keyword? {name word : String} (found : Type.keyword? name = some word) :
    Type.ofKeyword? word = some name ∧ isName word = true := by
  have words : ∀ w ∈ Type.keywords, isName w = true := by decide
  have known := List.find?_some found
  exact ⟨eq_of_beq known, words word (List.mem_of_find?_eq_some found)⟩

/-- The names that a type is written with, and points between them. -/
theorem Type.Writable.path {name : String} (writable : Type.Writable name) :
    ∃ first rest, isName first = true ∧ (∀ n ∈ rest, isName n = true) ∧
      (Type.written name).toList = first.toList ++ rest.flatMap (fun n => '.' :: n.toList) ∧
      ∀ arguments rank,
        TypeExpr.ofPath (first :: rest) arguments rank = .mk name arguments rank := by
  cases found : Type.keyword? name with
  | some word =>
      obtain ⟨known, isName⟩ := Type.ofKeyword?_of_keyword? found
      refine ⟨word, [], isName, fun _ => nofun, ?_, fun arguments rank => ?_⟩
      · rw [Type.written, found, Option.getD_some, List.flatMap_nil, List.append_nil]
      · have single : ".".intercalate [word] = word := by simp
        rw [TypeExpr.ofPath, single, known, Option.getD_some]
  | none =>
      rcases writable with hasWord | ⟨path, nonempty, names, same, noWord⟩
      · rw [found] at hasWord
        cases hasWord
      · obtain ⟨first, rest, rfl⟩ := List.exists_cons_of_ne_nil nonempty
        obtain ⟨isName, names⟩ := List.forall_mem_cons.mp names
        refine ⟨first, rest, isName, names, ?_, fun arguments rank => ?_⟩
        · rw [Type.written, found, Option.getD_none, same, String.toList_intercalate, List.map_cons,
            intercalate_cons, List.flatMap_map]
          rfl
        · rw [TypeExpr.ofPath, ← same, noWord, Option.getD_none]

/-! ## Types -/

namespace Expr

theorem skipBlanks_name {n : String} (isName : isName n = true) (w : List Char) :
    skipBlanks (n.toList ++ w) = n.toList ++ w := by
  obtain ⟨c, rest, spelled, start, -⟩ := isName_cons isName
  rw [spelled]
  exact skipBlanks_cons_of_shown (shown_of_isNameStart start) _

/-- What may stand behind a type. -/
def typeEnds : List Char := [',', '>', ')']

theorem apart_of_starts {cs u : List Char} (starts : Starts cs u)
    (others : cs.any isNameChar = false) : Apart u :=
  starts.none (.satisfy others)

theorem itemsOf_path {names : List String} (isNames : ∀ n ∈ names, isName n = true) {r : List Char}
    (apart : Apart r) (stop : symbol "." r = none) :
    itemsOf (do symbol "."; name : Scan String)
      (names.flatMap (fun n => '.' :: n.toList) ++ r) = (names, r) := by
  have next : ∀ n ∈ names, ∀ w, Apart w →
      (do symbol "."; name : Scan String) ('.' :: n.toList ++ w) = some (n, w) := by
    intro n isElement w apart
    have dot : symbol "." ('.' :: n.toList ++ w) = some ((), skipBlanks (n.toList ++ w)) := rfl
    rw [skipBlanks_name (isNames n isElement)] at dot
    exact (bind_of_some dot).trans (name_append (isNames n isElement) apart)
  have items : itemsOf (do symbol "."; name : Scan String)
      (names.flatMap (fun n => '.' :: n.toList) ++ r) = (names.map id, r) :=
    itemsOf_flatMap Apart next (fun _ _ => nofun) (fun _ _ _ => rfl) apart (bind_of_none stop)
  rwa [List.map_id] at items

theorem itemsOf_ranks (n : Nat) {r : List Char} (shown : skipBlanks r = r)
    (stop : symbol "[" r = none) :
    itemsOf (do symbol "["; symbol "]" : Scan Unit) (ranks n ++ r) = (List.replicate n (), r) := by
  have next : ∀ b ∈ List.replicate n (), ∀ w, skipBlanks w = w →
      (do symbol "["; symbol "]" : Scan Unit) (['[', ']'] ++ w) = some (b, w) := by
    intro b _ w shown
    have opening : symbol "[" (['[', ']'] ++ w) = some ((), ']' :: w) := rfl
    have closing : symbol "]" (']' :: w) = some ((), skipBlanks w) := rfl
    rw [shown] at closing
    exact (bind_of_some opening).trans closing
  have items : itemsOf (do symbol "["; symbol "]" : Scan Unit) (ranks n ++ r) =
      ((List.replicate n ()).map id, r) :=
    itemsOf_flatMap (fun w => skipBlanks w = w) next (fun _ _ => nofun) (fun _ _ _ => rfl) shown
      (bind_of_none stop)
  rwa [List.map_id] at items

/-- Type arguments in brackets, where each of them is read. -/
theorem enclosed_angled {depth : Nat} {ts : List TypeExpr} {r : List Char}
    (read : ∀ t ∈ ts, ∀ w, Starts typeEnds w →
      typeName depth (skipBlanks (t.text ++ w)) = some (t, w)) :
    enclosed (symbol "<") (separated (typeName depth) (symbol ",")) (symbol ">")
      (angled (TypeExpr.texts ts) ++ r) = some (ts, skipBlanks r) := by
  have opening : symbol "<" (angled (TypeExpr.texts ts) ++ r) =
      some ((), skipBlanks (commaSeparated (TypeExpr.texts ts) ++ '>' :: r)) := by
    rw [angled, List.cons_append, List.append_assoc]
    rfl
  have refused : typeName depth ('>' :: r) = none := by
    cases depth with
    | zero => rfl
    | succ depth => rfl
  have list : separated (typeName depth) (symbol ",")
      (skipBlanks (commaSeparated (TypeExpr.texts ts) ++ '>' :: r)) = some (ts, '>' :: r) := by
    have items := separated_intercalate (Starts typeEnds) read
      (fun w => ⟨',', w, rfl, by decide⟩) ⟨'>', r, rfl, by decide⟩ rfl (fun _ => refused) rfl
    rwa [List.map_id', ← TypeExpr.texts_eq_map] at items
  have closing : symbol ">" ('>' :: r) = some ((), skipBlanks r) := rfl
  exact (bind_of_some opening).trans ((bind_of_some list).trans (bind_of_some closing))

theorem length_le_commaSeparated {texts : List (List Char)} {text : List Char}
    (isElement : text ∈ texts) : text.length ≤ (commaSeparated texts).length := by
  cases texts with
  | nil => cases isElement
  | cons first rest =>
      rw [commaSeparated, intercalate_cons, List.length_append]
      rcases List.mem_cons.mp isElement with rfl | later
      · omega
      · have inside : [',', ' '] ++ text <:+: rest.flatMap fun text => [',', ' '] ++ text := by
          obtain ⟨before, behind, rfl⟩ := List.append_of_mem later
          exact ⟨before.flatMap (fun text => [',', ' '] ++ text),
            behind.flatMap (fun text => [',', ' '] ++ text), by simp⟩
        have le := inside.length_le
        rw [List.length_append] at le
        omega

theorem skipBlanks_type {t : TypeExpr} (writable : t.Writable) (w : List Char) :
    skipBlanks (t.text ++ w) = t.text ++ w := by
  cases writable with
  | mk named _ =>
      obtain ⟨first, rest, isName, -, spelled, -⟩ := named.path
      rw [TypeExpr.text, spelled, List.append_assoc, List.append_assoc]
      exact skipBlanks_name isName _

theorem starts_ranks {r : List Char} (starts : Starts typeEnds r) (n : Nat) :
    Starts ('[' :: typeEnds) (ranks n ++ r) := by
  cases n with
  | zero => exact starts.mono fun _ => List.mem_cons_of_mem '['
  | succ n => exact ⟨'[', _, rfl, by decide⟩

/-- The type arguments of a type, if it has any. -/
theorem optional_angled {depth : Nat} {ts : List TypeExpr} {r : List Char}
    (read : ∀ t ∈ ts, ∀ w, Starts typeEnds w →
      typeName depth (skipBlanks (t.text ++ w)) = some (t, w))
    (starts : Starts ('[' :: typeEnds) r) : ∃ arguments : Option (List TypeExpr),
      optional (enclosed (symbol "<") (separated (typeName depth) (symbol ",")) (symbol ">"))
        ((if ts.isEmpty then [] else angled (TypeExpr.texts ts)) ++ r) = some (arguments, r) ∧
      arguments.getD [] = ts := by
  cases ts with
  | nil =>
      have stop : symbol "<" r = none := starts.none (.symbol (by decide) rfl (by decide))
      exact ⟨none, optional_of_none (bind_of_none stop), rfl⟩
  | cons t ts =>
      have list := enclosed_angled (r := r) read
      rw [starts.shown (by decide)] at list
      exact ⟨some (t :: ts), optional_of_some list, rfl⟩

theorem starts_angled {ts : List TypeExpr} {r : List Char} (starts : Starts ('[' :: typeEnds) r) :
    Starts ('<' :: '[' :: typeEnds)
      ((if ts.isEmpty then [] else angled (TypeExpr.texts ts)) ++ r) := by
  cases ts with
  | nil => exact starts.mono fun _ => List.mem_cons_of_mem '<'
  | cons t ts => exact ⟨'<', _, rfl, by decide⟩

/-- A type is read as it is written. -/
theorem typeName_text {t : TypeExpr} (writable : t.Writable) {depth : Nat} {r : List Char}
    (short : t.text.length ≤ depth) (starts : Starts typeEnds r) :
    typeName depth (t.text ++ r) = some (t, r) := by
  induction writable generalizing depth r with
  | @mk n arguments rank named writables inductionHypothesis =>
      obtain ⟨first, rest, isName, names, spelled, ofPath⟩ := named.path
      rw [TypeExpr.text, spelled] at short ⊢
      obtain ⟨c, cs, firstSpelled, -, -⟩ := isName_cons isName
      obtain ⟨depth, rfl⟩ : ∃ d, depth = d + 1 := by
        refine ⟨depth - 1, ?_⟩
        simp only [firstSpelled, List.cons_append, List.length_cons] at short
        omega
      have read : ∀ t ∈ arguments, ∀ w, Starts typeEnds w →
          typeName depth (skipBlanks (t.text ++ w)) = some (t, w) := by
        intro t isElement w starts
        rw [skipBlanks_type (writables t isElement)]
        refine inductionHypothesis t isElement ?_ starts
        have le := length_le_commaSeparated (List.mem_map_of_mem (f := TypeExpr.text) isElement)
        rw [← TypeExpr.texts_eq_map] at le
        have nonempty : arguments.isEmpty = false := by
          cases arguments with
          | nil => cases isElement
          | cons => rfl
        simp only [nonempty, angled, Bool.false_eq_true, if_false, List.length_append,
          List.length_cons] at short
        omega
      have behindRanks := starts_ranks starts rank
      have behindPath : Starts ('<' :: '[' :: typeEnds)
          ((if arguments.isEmpty then [] else angled (TypeExpr.texts arguments)) ++
            (ranks rank ++ r)) := starts_angled behindRanks
      obtain ⟨types, someTypes, same⟩ := optional_angled read behindRanks
      have noDot : Refuses ('<' :: '[' :: typeEnds) (symbol ".") :=
        .symbol (by decide) rfl (by decide)
      have noBracket : Refuses typeEnds (symbol "[") := .symbol (by decide) rfl (by decide)
      have path := congrArg some (itemsOf_path names (apart_of_starts behindPath (by decide))
        (behindPath.none noDot))
      have brackets := congrArg some
        (itemsOf_ranks rank (starts.shown (by decide)) (starts.none noBracket))
      have apart : Apart (rest.flatMap (fun n => '.' :: n.toList) ++
          ((if arguments.isEmpty then [] else angled (TypeExpr.texts arguments)) ++
            (ranks rank ++ r))) := by
        cases rest with
        | nil => exact apart_of_starts behindPath (by decide)
        | cons => rfl
      simp only [List.append_assoc]
      refine (bind_of_some (name_append isName apart)).trans ((bind_of_some path).trans ?_)
      refine (bind_of_some someTypes).trans ((bind_of_some brackets).trans ?_)
      rw [same, List.length_replicate, ofPath]
      rfl

/-! ## Type arguments -/

/-- Behind type arguments a call or a member access stands. -/
def uses : List Char := ['(', '.']

theorem typeArguments_angled {ts : List TypeExpr} (writable : ∀ t ∈ ts, t.Writable) {depth : Nat}
    {r : List Char} (short : (angled (TypeExpr.texts ts)).length ≤ depth + 1)
    (used : Starts uses r) :
    typeArguments depth (angled (TypeExpr.texts ts) ++ r) = some (ts, r) := by
  have read : ∀ t ∈ ts, ∀ w, Starts typeEnds w →
      typeName depth (skipBlanks (t.text ++ w)) = some (t, w) := by
    intro t isElement w starts
    rw [skipBlanks_type (writable t isElement)]
    refine typeName_text (writable t isElement) ?_ starts
    have le := length_le_commaSeparated (List.mem_map_of_mem (f := TypeExpr.text) isElement)
    rw [← TypeExpr.texts_eq_map] at le
    rw [angled, List.length_cons, List.length_append, List.length_singleton] at short
    omega
  have list := enclosed_angled (r := r) read
  rw [used.shown (by decide)] at list
  have next : ∃ x, (symbol "(" <|> symbol ".") r = some x := by
    obtain ⟨c, w, rfl, isElement⟩ := used
    rcases List.mem_cons.mp isElement with rfl | isElement
    · exact ⟨((), skipBlanks w), rfl⟩
    · rw [List.mem_singleton.mp isElement]
      exact ⟨((), skipBlanks w), rfl⟩
  obtain ⟨x, next⟩ := next
  have followed : ahead (symbol "(" <|> symbol ".") r = some ((), r) := by
    rw [ahead, next]
    rfl
  exact (bind_of_some list).trans (bind_of_some followed)

/-- What may stand behind a word for the word to be no part of type arguments. -/
def noTypeEnds : List Char := ['(', ')', '"', '\'', '$']

theorem symbol_of_noTypeEnds {text : String} {c : Char} {more w : List Char}
    (stops : Stops noTypeEnds w) (start : text.toList = c :: more) (other : c ∉ noTypeEnds) :
    symbol text w = none := by
  refine stops.none ?_ (.symbol (by decide) start other)
  exact Needs.padded (by rw [exactly, start]; rfl) [] blank_nil

/-- A word where no type goes on is read as a type, or not at all. -/
theorem typeName_word {c : Char} {cs w : List Char} (chars : ∀ d ∈ c :: cs, isNameChar d = true)
    (stops : Stops noTypeEnds w) (depth : Nat) :
    typeName depth (c :: cs ++ w) = none ∨ ∃ t, typeName depth (c :: cs ++ w) = some (t, w) := by
  cases depth with
  | zero => exact .inl rfl
  | succ depth =>
      cases start : isNameStart c with
      | false =>
          have noName : name (c :: cs ++ w) = none := by
            refine bind_of_none ?_
            rw [List.cons_append, satisfy, start]
            rfl
          exact .inl (bind_of_none noName)
      | true =>
          have isName : isName (String.ofList (c :: cs)) = true := by
            rw [Expr.isName, String.toList_ofList]
            exact Bool.and_eq_true_iff.mpr ⟨start, List.all_eq_true.mpr fun d isElement =>
              chars d (List.mem_cons_of_mem c isElement)⟩
          have word := name_append isName (stops.none rfl (.satisfy (by decide)) : Apart w)
          rw [String.toList_ofList] at word
          have noPath : (do symbol "."; name : Scan String) w = none :=
            bind_of_none (symbol_of_noTypeEnds stops rfl (by decide))
          have noArguments : enclosed (symbol "<") (separated (typeName depth) (symbol ","))
              (symbol ">") w = none :=
            bind_of_none (symbol_of_noTypeEnds stops rfl (by decide))
          have noRank : (do symbol "["; symbol "]" : Scan Unit) w = none :=
            bind_of_none (symbol_of_noTypeEnds stops rfl (by decide))
          have path : many (do symbol "."; name : Scan String) w = some ([], w) :=
            congrArg some (itemsOf_of_none noPath)
          have ranks : many (do symbol "["; symbol "]" : Scan Unit) w = some ([], w) :=
            congrArg some (itemsOf_of_none noRank)
          exact .inr ⟨_, (bind_of_some word).trans <| (bind_of_some path).trans <|
            (bind_of_some (optional_of_none noArguments)).trans (bind_of_some ranks)⟩

/-- The rest of type arguments, behind the opening bracket. -/
def typesToClose (depth : Nat) : Scan (List TypeExpr) := do
  let ts ← separated (typeName depth) (symbol ",")
  let _ ← symbol ">"
  pure ts

theorem typesToClose_of_none {depth : Nat} {v : List Char} (noType : typeName depth v = none)
    (noEnd : symbol ">" v = none) : typesToClose depth v = none := by
  have list : separated (typeName depth) (symbol ",") v = some ([], v) :=
    orElse_of_none (bind_of_none noType)
  exact (bind_of_some list).trans (bind_of_none noEnd)

theorem typesToClose_word {cs w : List Char} (chars : ∀ c ∈ cs, isNameChar c = true)
    (stops : Stops noTypeEnds w) (depth : Nat) : typesToClose depth (cs ++ w) = none := by
  have noEnd : symbol ">" w = none := symbol_of_noTypeEnds stops rfl (by decide)
  cases cs with
  | nil =>
      refine typesToClose_of_none (stops.none (needs_typeName depth [] blank_nil) ?_) noEnd
      cases depth with
      | zero => exact .failure noTypeEnds
      | succ depth => exact Refuses.bind (.bind (.satisfy (by decide)) _) _
  | cons c cs =>
      rcases typeName_word chars stops depth with noType | ⟨t, read⟩
      · exact typesToClose_of_none noType
          (symbol_of_isNameChar (chars c List.mem_cons_self) rfl rfl _)
      · have noComma : symbol "," w = none := symbol_of_noTypeEnds stops rfl (by decide)
        have others : many (do let _ ← symbol ","; typeName depth : Scan TypeExpr) w =
            some ([], w) :=
          congrArg some (itemsOf_of_none (bind_of_none noComma))
        have list : separated (typeName depth) (symbol ",") (c :: cs ++ w) = some ([t], w) :=
          orElse_of_some ((bind_of_some read).trans (bind_of_some others))
        exact (bind_of_some list).trans (bind_of_none noEnd)

/-- The text starts with a word, or with none, and no type goes on behind it. -/
def NoType (u : List Char) : Prop :=
  ∃ cs w, u = cs ++ w ∧ (∀ c ∈ cs, isNameChar c = true) ∧ Stops noTypeEnds w

namespace NoType

variable {u r : List Char}

theorem of_word (chars : ∀ c ∈ u, isNameChar c = true) : NoType u :=
  ⟨u, [], (List.append_nil u).symm, chars, .inl rfl⟩

theorem of_starts (starts : Starts noTypeEnds u) : NoType u := ⟨[], u, rfl, nofun, .inr starts⟩

protected theorem append (noType : NoType u) (stops : Stops noTypeEnds r) : NoType (u ++ r) := by
  obtain ⟨cs, w, rfl, chars, rfl | ⟨c, w, rfl, isElement⟩⟩ := noType
  · exact ⟨cs, r, by rw [List.append_nil], chars, stops⟩
  · exact ⟨cs, c :: (w ++ r), by rw [List.append_assoc]; rfl, chars,
      .inr ⟨c, w ++ r, rfl, isElement⟩⟩

end NoType

/-- Behind an operator that compares no type arguments stand, whether it is a name or something else
that follows. -/
theorem typeArguments_comparison (op : BinaryOp) {v : List Char} (noType : NoType v) (depth : Nat) :
    typeArguments depth (' ' :: (op.symbol.toList ++ ' ' :: v)) = none := by
  obtain ⟨cs, w, rfl, chars, stops⟩ := noType
  have opening : symbol "<" (' ' :: (op.symbol.toList ++ ' ' :: (cs ++ w))) = _ :=
    symbol_before_blank (by decide) op (cs ++ w)
  have shown : skipBlanks (cs ++ w) = cs ++ w := by
    cases cs with
    | nil => exact stops.shown (by decide)
    | cons c cs =>
        exact skipBlanks_cons_of_shown (shown_of_isNameChar (chars c List.mem_cons_self)) _
  -- Only three operators start as type arguments do; behind two of them no type can stand.
  have noTypes {c : Char} (noStart : isNameStart c = false) (v : List Char) :
      typeName depth (c :: v) = none := by
    cases depth with
    | zero => rfl
    | succ depth =>
        refine bind_of_none (bind_of_none ?_)
        rw [satisfy, noStart]
        rfl
  refine bind_of_none ?_
  cases op
  case lt =>
    have behind : symbol "<" (' ' :: (BinaryOp.lt.symbol.toList ++ ' ' :: (cs ++ w))) =
        some ((), cs ++ w) := opening.trans (congrArg (fun v => some ((), v)) shown)
    exact (bind_of_some behind).trans (typesToClose_word chars stops depth)
  case le => exact (bind_of_some opening).trans (typesToClose_of_none (noTypes rfl _) rfl)
  case shl => exact (bind_of_some opening).trans (typesToClose_of_none (noTypes rfl _) rfl)
  all_goals exact bind_of_none opening

end Expr

end ManagedDebugger
