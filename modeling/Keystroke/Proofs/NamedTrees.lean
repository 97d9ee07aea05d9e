import Keystroke.Proofs.Emission
import Keystroke.Proofs.StoredNames

/-!
# Names in scripts

Every name in a script is a word of its source text: it has at least one character, and only such as
may stand inside an identifier. The check of a syntax tree copies the names in it, which are words,
and makes none. In particular, no variable has an empty name. The spelling of a number with a point
starts with a digit or the point, and still does when it is adapted to the calculator. A chain of
comparisons or of truth values has a second operand. Nodes stand where the nodes of the tree start.
-/

namespace Keystroke

/-- Properties of what scripts are made of. -/
structure Vocabulary where
  name : String → Prop
  /-- The spelling of a number with a point or an exponent. -/
  number : String → Prop
  /-- The text of a literal. -/
  text : String → Prop
  /-- How many operands a chain has after its first. -/
  chain : Nat → Prop
  /-- Where a node stands. -/
  place : Position → Prop

/-- A vocabulary stands for its property of names, which is asked for most. -/
instance : CoeFun Vocabulary fun _ => String → Prop :=
  ⟨Vocabulary.name⟩

/-- The vocabulary of all scripts. -/
def Vocabulary.any : Vocabulary where
  name _ := True
  number _ := True
  text _ := True
  chain _ := True
  place _ := True

/-- The vocabulary of a source text, with what is known of the places in it. -/
def sourceWords (place : Position → Prop := fun _ => True) : Vocabulary where
  name := IsWord
  number := Python.IsNumeral
  text _ := True
  chain others := 0 < others
  place := place

/-- A name in a script is in a vocabulary, and so is its place. -/
structure Vocabulary.Has (p : Vocabulary) (id : Script.Ident) : Prop where
  name : p id.name
  place : p.place id.start

variable {p : Vocabulary}

/-! ### Scripts -/

namespace Script

variable {e : Expr} {s : Stmt}

/-- All that an expression is made of is in a vocabulary. -/
inductive Expr.Named (p : Vocabulary) : Expr → Prop where
  | int (hplace : p.place position) (value : Nat) : Named p (.int position value)
  | float (hplace : p.place position) (h : p.number spelling) : Named p (.float position spelling)
  | string (hplace : p.place position) (h : p.text text) : Named p (.string position text)
  | bool (hplace : p.place position) (value : Bool) : Named p (.bool position value)
  | none (hplace : p.place position) : Named p (.none position)
  | name (h : p.Has ident) : Named p (.name ident)
  | binary (hplace : p.place position) (hleft : Named p left) (hright : Named p right) :
      Named p (.binary position left op right)
  | boolean {others : List Expr} (hplace : p.place position) (hfirst : Named p first)
      (hothers : ∀ e ∈ others, Named p e) (hchain : p.chain others.length) :
      Named p (.boolean position op first others)
  | not (hplace : p.place position) (h : Named p operand) : Named p (.not position operand)
  | negate (hplace : p.place position) (h : Named p operand) : Named p (.negate position operand)
  | invert (hplace : p.place position) (h : Named p operand) : Named p (.invert position operand)
  | compare {comparisons : List (Python.CompareOp × Expr)} (hplace : p.place position)
      (hleft : Named p left) (h : ∀ comparison ∈ comparisons, Named p comparison.2)
      (hchain : p.chain comparisons.length) : Named p (.compare position left comparisons)
  | call {args : List Expr} (hplace : p.place position) (hcallee : p.Has callee)
      (hargs : ∀ e ∈ args, Named p e) : Named p (.call position callee args)
  | method {args : List Expr} (hplace : p.place position) (hobject : p.Has object)
      (hattr : p.Has attr)
      (hargs : ∀ e ∈ args, Named p e) : Named p (.method position object attr args)
  | subscript (hplace : p.place position) (hobject : p.Has object) (hindex : Named p index) :
      Named p (.subscript position object index)
  | slice {lower upper : Option Expr} (hplace : p.place position) (hlower : ∀ e ∈ lower, Named p e)
      (hupper : ∀ e ∈ upper, Named p e) : Named p (.slice position lower upper)
  | tuple {elements : List Expr} (hplace : p.place position) (h : ∀ e ∈ elements, Named p e) :
      Named p (.tuple position elements)
  | list {elements : List Expr} (hplace : p.place position) (h : ∀ e ∈ elements, Named p e) :
      Named p (.list position elements)
  | dict {items : List (Expr × Expr)} (hplace : p.place position)
      (hkeys : ∀ item ∈ items, Named p item.1) (hvalues : ∀ item ∈ items, Named p item.2) :
      Named p (.dict position items)

/-- All that a statement is made of is in a vocabulary. -/
inductive Stmt.Named (p : Vocabulary) : Stmt → Prop where
  | pass (hplace : p.place position) : Named p (.pass position)
  | expression {value : Expr} (hplace : p.place position) (h : value.Named p) :
      Named p (.expression position value)
  | returns {value : Option Expr} (hplace : p.place position) (h : ∀ e ∈ value, e.Named p) :
      Named p (.returns position value)
  | assign {target value : Expr} {others : List Expr} (hplace : p.place position)
      (htarget : target.Named p) (hothers : ∀ e ∈ others, e.Named p) (hvalue : value.Named p) :
      Named p (.assign position target others value)
  | augmented {target value : Expr} (hplace : p.place position) (htarget : target.Named p)
      (hvalue : value.Named p) : Named p (.augmented position target op value)
  | ifElse {test : Expr} {body orElse : List Stmt} (hplace : p.place position)
      (htest : test.Named p) (hbody : ∀ s ∈ body, Named p s) (horElse : ∀ s ∈ orElse, Named p s) :
      Named p (.ifElse position test body orElse)
  | whileLoop {test : Expr} {body : List Stmt} (hplace : p.place position) (htest : test.Named p)
      (hbody : ∀ s ∈ body, Named p s) : Named p (.whileLoop position test body)
  | forLoop {iterable : Expr} {body : List Stmt} (hplace : p.place position)
      (htarget : p.Has target) (hiterable : iterable.Named p) (hbody : ∀ s ∈ body, Named p s) :
      Named p (.forLoop position target iterable body)
  | breaks (hplace : p.place position) : Named p (.breaks position)
  | continues (hplace : p.place position) : Named p (.continues position)
  | assertion {test : Expr} (hplace : p.place position) (h : test.Named p) :
      Named p (.assertion position test)
  | functionDef {header : FunctionHeader} {body : List Stmt} (hplace : p.place position)
      (hname : p.Has header.name) (hparams : ∀ param ∈ header.params, p.Has param)
      (hbody : ∀ s ∈ body, Named p s) : Named p (.functionDef position header body)

theorem Expr.Named.place (h : e.Named p) : p.place e.start := by
  cases h with
  | name h => exact h.place
  | _ => assumption

/-- A declaration of the label of the code outside functions is in the vocabulary too. -/
theorem Stmt.Named.entryDeclaration {start : Position} {args : List Expr} (h : s.Named p)
    (hdeclared : s.entryDeclaration? = some (start, args)) :
    p.place start ∧ ∀ e ∈ args, e.Named p := by
  unfold Stmt.entryDeclaration? at hdeclared
  split at hdeclared
  · split at hdeclared
    · cases hdeclared
      cases h with
      | expression _ hcall =>
        cases hcall with
        | call hplace _ hargs => exact ⟨hplace, hargs⟩
    · cases hdeclared
  · cases hdeclared

theorem Stmt.Named.place (h : s.Named p) : p.place s.start := by
  cases h <;> assumption

mutual

/-- Every expression is in the vocabulary of all scripts. -/
theorem named_any : ∀ e : Expr, e.Named .any
  | .int _ _ => .int trivial _
  | .float _ _ => .float trivial trivial
  | .string _ _ => .string trivial trivial
  | .bool _ _ => .bool trivial _
  | .none _ => .none trivial
  | .name _ => .name ⟨trivial, trivial⟩
  | .binary _ left _ right => .binary trivial (named_any left) (named_any right)
  | .boolean _ _ first others =>
    .boolean trivial (named_any first) (forall_named_any others) trivial
  | .not _ operand => .not trivial (named_any operand)
  | .negate _ operand => .negate trivial (named_any operand)
  | .invert _ operand => .invert trivial (named_any operand)
  | .compare _ left comparisons =>
    .compare trivial (named_any left) (forall_compared_any comparisons) trivial
  | .call _ _ args => .call trivial ⟨trivial, trivial⟩ (forall_named_any args)
  | .method _ _ _ args =>
    .method trivial ⟨trivial, trivial⟩ ⟨trivial, trivial⟩ (forall_named_any args)
  | .subscript _ _ index => .subscript trivial ⟨trivial, trivial⟩ (named_any index)
  | .slice _ lower upper => .slice trivial (forall_bound_any lower) (forall_bound_any upper)
  | .tuple _ elements => .tuple trivial (forall_named_any elements)
  | .list _ elements => .list trivial (forall_named_any elements)
  | .dict _ items =>
    .dict trivial (fun item h => (forall_item_any items item h).1) fun item h =>
    (forall_item_any items item h).2
termination_by structural e => e

theorem forall_named_any : ∀ (es : List Expr), ∀ e ∈ es, e.Named .any
  | e :: rest, x, h => by
    cases h with
    | head => exact named_any e
    | tail _ h => exact forall_named_any rest x h
termination_by structural es => es

theorem forall_compared_any : ∀ (comparisons : List (Python.CompareOp × Expr)),
    ∀ comparison ∈ comparisons, comparison.2.Named .any
  | (_, e) :: rest, x, h => by
    cases h with
    | head => exact named_any e
    | tail _ h => exact forall_compared_any rest x h
termination_by structural comparisons => comparisons

theorem forall_bound_any : ∀ (bound : Option Expr), ∀ e ∈ bound, e.Named .any
  | some e, _, rfl => named_any e
termination_by structural bound => bound

theorem forall_item_any : ∀ (items : List (Expr × Expr)), ∀ item ∈ items,
    item.1.Named .any ∧ item.2.Named .any
  | (key, value) :: rest, x, h => by
    cases h with
    | head => exact ⟨named_any key, named_any value⟩
    | tail _ h => exact forall_item_any rest x h
termination_by structural items => items

end

mutual

/-- Every statement is in the vocabulary of all scripts. -/
theorem named_any_stmt : ∀ s : Stmt, s.Named .any
  | .pass _ => .pass trivial
  | .expression _ value => .expression trivial (named_any value)
  | .returns _ value => .returns trivial (forall_bound_any value)
  | .assign _ target others value =>
    .assign trivial (named_any target) (forall_named_any others) (named_any value)
  | .augmented _ target _ value => .augmented trivial (named_any target) (named_any value)
  | .ifElse _ test body orElse =>
    .ifElse trivial (named_any test) (named_any_stmts body) (named_any_stmts orElse)
  | .whileLoop _ test body => .whileLoop trivial (named_any test) (named_any_stmts body)
  | .forLoop _ _ iterable body =>
    .forLoop trivial ⟨trivial, trivial⟩ (named_any iterable) (named_any_stmts body)
  | .breaks _ => .breaks trivial
  | .continues _ => .continues trivial
  | .assertion _ test => .assertion trivial (named_any test)
  | .functionDef _ _ body =>
    .functionDef trivial ⟨trivial, trivial⟩ (fun _ _ => ⟨trivial, trivial⟩) (named_any_stmts body)
termination_by structural s => s

theorem named_any_stmts : ∀ (body : List Stmt), ∀ s ∈ body, s.Named .any
  | s :: rest, x, h => by
    cases h with
    | head => exact named_any_stmt s
    | tail _ h => exact named_any_stmts rest x h
termination_by structural body => body

end

/-! ### The check of a tree -/

variable {place : Position → Prop}

/-- What a step of the check gives has a property, and an error stands at one of some places. -/
def Ensures {α : Type} (place : Position → Prop) (step : Check α) (q : α → Prop) : Prop :=
  match step with
  | .ok a => q a
  | .error error => place error.position

namespace Ensures

variable {α β : Type} {q : α → Prop} {r : β → Prop} {step other : Check α} {a : α}

theorem of_ok (h : Ensures place step q) (hstep : step = .ok a) : q a := by
  subst hstep
  exact h

theorem ok (h : q a) : Ensures place (.ok a) q :=
  h

theorem outside {fault : SubsetFault} {start : Position} (h : place start) :
    Ensures place (Script.outside fault start) q :=
  h

theorem bind {f : α → Check β} (h : Ensures place step q)
    (hf : ∀ a, q a → Ensures place (f a) r) : Ensures place (step >>= f) r := by
  cases step with
  | ok a => exact hf a h
  | error => exact h

theorem ite {condition : Bool} (h : Ensures place step q) (h' : Ensures place other q) :
    Ensures place (if condition then step else other) q := by
  split
  · exact h
  · exact h'

/-- A statement that is left of a tree. -/
theorem left {s : Stmt} (h : s.Named p) :
    Ensures place (.ok (some s)) fun left => ∀ s ∈ left, s.Named p :=
  .ok fun _ hs => Option.some_inj.mp hs ▸ h

end Ensures

theorem isNumeral_calculatorSpelling {text : String} (h : Python.IsNumeral text) :
    Python.IsNumeral (calculatorSpelling text) := by
  unfold calculatorSpelling
  generalize hdigits : (text.toList.map fun c => if c = 'e' then 'E' else c) = digits
  have hmem : ∀ c ∈ digits, Python.isNumeralChar c = true := by
    rw [← hdigits, List.forall_mem_map]
    intro c hc
    split
    · decide
    · exact h.forall_mem c hc
  dsimp only
  split
  · refine ⟨?_, ?_⟩
    · rw [Python.StartsAsNumber, String.toList_ofList]
      rintro _ ⟨⟩
      exact Or.inl (by decide)
    · rw [String.toList_ofList, List.forall_mem_cons]
      exact ⟨by decide, hmem⟩
  · refine ⟨?_, by rwa [String.toList_ofList]⟩
    rw [Python.StartsAsNumber, String.toList_ofList, ← hdigits, List.head?_map]
    intro c hc
    obtain ⟨first, hfirst, rfl⟩ := Option.map_eq_some_iff.mp hc
    have hstart := h.startsAsNumber first hfirst
    -- an exponent mark cannot be the first character
    have hmark : first ≠ 'e' := by
      rintro rfl
      revert hstart
      decide
    rwa [if_neg hmark]

section

set_option linter.unusedSectionVars false

variable {position : Nat → Position} (hplace : ∀ offset, place (position offset))

include hplace

theorem named_checkName :
    ∀ e : Python.Expr, Ensures place (checkName position e) (sourceWords place).Has := by
  intro e
  cases e with
  | name _ word => exact .ok ⟨word.isWord, hplace _⟩
  | _ => exact .outside (hplace _)

mutual

theorem named_checkExpr :
    ∀ e : Python.Expr, Ensures place (checkExpr position e) (Expr.Named (sourceWords place))
  | .name _ word => .ok (.name ⟨word.isWord, hplace _⟩)
  | .int _ value => by
    rw [checkExpr]
    split
    · exact .ok (.int (hplace _) _)
    · exact .outside (hplace _)
  | .float _ spelling => .ok (.float (hplace _) (isNumeral_calculatorSpelling spelling.isNumeral))
  | .imaginary _ => .outside (hplace _)
  | .string _ _ => .ok (.string (hplace _) trivial)
  | .bool _ _ => .ok (.bool (hplace _) _)
  | .none _ => .ok (.none (hplace _))
  | .boolOp _ _ first second others =>
    .bind (named_checkExpr first) fun _ hfirst => .bind (named_checkExpr second) fun _ hsecond =>
      .bind (named_checkExprs others) fun _ hothers =>
        .ok (.boolean (hplace _) hfirst (List.forall_mem_cons.mpr ⟨hsecond, hothers⟩)
          (Nat.zero_lt_succ _))
  | .binOp _ left _ right =>
    .bind (named_checkExpr left) fun _ hleft => .bind (named_checkExpr right) fun _ hright =>
      .ok (.binary (hplace _) hleft hright)
  | .unary _ op operand =>
    .bind (named_checkExpr operand) fun _ hoperand => by
      cases op with
      | not => exact .ok (.not (hplace _) hoperand)
      | minus => exact .ok (.negate (hplace _) hoperand)
      | invert => exact .ok (.invert (hplace _) hoperand)
      | plus => exact .ok hoperand
  | .compare _ left _ right others =>
    .bind (named_checkExpr left) fun _ hleft => .bind (named_checkExpr right) fun _ hright =>
      .bind (named_checkComparisons others) fun _ hothers =>
        .ok (.compare (hplace _) hleft (List.forall_mem_cons.mpr ⟨hright, hothers⟩)
          (Nat.zero_lt_succ _))
  | .call _ callee args _ =>
    .ite (.outside (hplace _)) <| .bind (named_checkExprs args) fun _ hargs => by
      cases callee with
      | name _ word => exact .ok (.call (hplace _) ⟨word.isWord, hplace _⟩ hargs)
      | member _ value attr _ =>
        exact .bind (named_checkName hplace value) fun _ hobject =>
          .ok (.method (hplace _) hobject ⟨attr.isWord, hplace _⟩ hargs)
      | _ => exact .outside (hplace _)
  | .member _ _ _ _ => .outside (hplace _)
  | .subscript _ value index =>
    .bind (named_checkName hplace value) fun _ hobject =>
    .bind (named_checkExpr index) fun _ hindex =>
      .ok (.subscript (hplace _) hobject hindex)
  | .slice _ lower upper _ =>
    .ite (.outside (hplace _)) <| .bind (named_checkOptional lower) fun _ hlower =>
      .bind (named_checkOptional upper) fun _ hupper => .ok (.slice (hplace _) hlower hupper)
  | .list _ elements => .bind (named_checkExprs elements) fun _ h => .ok (.list (hplace _) h)
  | .tuple _ elements => .bind (named_checkExprs elements) fun _ h => .ok (.tuple (hplace _) h)
  | .dict _ items =>
    .bind (named_checkItems items) fun _ h =>
      .ok (.dict (hplace _) (fun item hitem => (h item hitem).1) fun item hitem => (h item hitem).2)
  | .starred _ _ => .outside (hplace _)
  | .outside _ _ => .outside (hplace _)

theorem named_checkExprs : ∀ es : List Python.Expr,
    Ensures place (checkExprs position es) fun es => ∀ e ∈ es, e.Named (sourceWords place)
  | [] => .ok nofun
  | e :: rest =>
    .bind (named_checkExpr e) fun _ he => .bind (named_checkExprs rest) fun _ hrest =>
      .ok (List.forall_mem_cons.mpr ⟨he, hrest⟩)

theorem named_checkComparisons : ∀ comparisons : List (Python.CompareOp × Python.Expr),
    Ensures place (checkComparisons position comparisons) fun comparisons =>
      ∀ comparison ∈ comparisons, comparison.2.Named (sourceWords place)
  | [] => .ok nofun
  | (_, right) :: rest =>
    .bind (named_checkExpr right) fun _ hright => .bind (named_checkComparisons rest) fun _ hrest =>
      .ok (List.forall_mem_cons.mpr ⟨hright, hrest⟩)

theorem named_checkItems : ∀ items : List (Python.Expr × Python.Expr),
    Ensures place (checkItems position items) fun items =>
      ∀ item ∈ items, item.1.Named (sourceWords place) ∧ item.2.Named (sourceWords place)
  | [] => .ok nofun
  | (key, value) :: rest =>
    .bind (named_checkExpr key) fun _ hkey => .bind (named_checkExpr value) fun _ hvalue =>
      .bind (named_checkItems rest) fun _ hrest =>
        .ok (List.forall_mem_cons.mpr ⟨⟨hkey, hvalue⟩, hrest⟩)

theorem named_checkOptional : ∀ bound : Option Python.Expr,
    Ensures place (checkOptional position bound) fun bound =>
      ∀ e ∈ bound, e.Named (sourceWords place)
  | none => .ok nofun
  | some e => .bind (named_checkExpr e) fun _ he => .ok fun _ h => Option.some_inj.mp h ▸ he

end

theorem named_checkParams (params : List Python.Param) :
    Ensures place (checkParams position params) fun params =>
      ∀ param ∈ params, (sourceWords place).Has param := by
  induction params with
  | nil => exact .ok nofun
  | cons param rest ih =>
    exact .ite (.outside (hplace _)) <| .bind ih fun _ hrest =>
      .ok (List.forall_mem_cons.mpr ⟨⟨param.name.isWord, hplace _⟩, hrest⟩)

end

section

set_option linter.unusedSectionVars false

variable {source : SourceText} (hplace : ∀ offset, place (source.position offset))

include hplace

theorem named_checkHeader {start : Position} (hstart : place start)
    (header : Python.FunctionHeader) : Ensures place (checkHeader source start header) fun header =>
      (sourceWords place).Has header.name ∧ ∀ param ∈ header.params,
        (sourceWords place).Has param :=
  .ite (.outside hstart) <| .ite (.outside hstart) <| .ite (.outside hstart) <|
    .ite (.outside hstart) <|
    .bind (named_checkParams hplace header.params.plain) fun _ hparams =>
    .ok ⟨⟨header.name.isWord, hplace _⟩, hparams⟩

mutual

theorem named_checkStmt : ∀ s : Python.Stmt,
    Ensures place (checkStmt source s) fun left => ∀ s ∈ left, s.Named (sourceWords place)
  | .functionDef start header body =>
    .bind (named_checkHeader hplace (hplace _) header) fun _ hheader =>
      .bind (named_checkStmts body) fun _ hbody =>
        .left (.functionDef (hplace _) hheader.1 hheader.2 hbody)
  | .returns _ value =>
    .bind (named_checkOptional hplace value) fun _ h => .left (.returns (hplace _) h)
  | .assign _ target others value =>
    .bind (named_checkExpr hplace target) fun _ htarget =>
    .bind (named_checkExprs hplace others) fun _ hothers =>
      .bind (named_checkExpr hplace value) fun _ hvalue =>
      .left (.assign (hplace _) htarget hothers hvalue)
  | .annotated _ target (some value) =>
    .bind (named_checkExpr hplace target) fun _ htarget =>
    .bind (named_checkExpr hplace value) fun _ hvalue =>
      .left (.assign (hplace _) htarget nofun hvalue)
  | .annotated _ _ none => .left (.pass (hplace _))
  | .augmented _ target _ value =>
    .bind (named_checkExpr hplace target) fun _ htarget =>
    .bind (named_checkExpr hplace value) fun _ hvalue =>
      .left (.augmented (hplace _) htarget hvalue)
  | .forLoop _ _ _ target iterable body =>
    .ite (.outside (hplace _)) <| .ite (.outside (hplace _)) <|
    .bind (named_checkName hplace target) fun _ htarget =>
      .bind (named_checkExpr hplace iterable) fun _ hiterable =>
        .bind (named_checkStmts body) fun _ hbody =>
        .left (.forLoop (hplace _) htarget hiterable hbody)
  | .whileLoop _ _ test body =>
    .ite (.outside (hplace _)) <| .bind (named_checkExpr hplace test) fun _ htest =>
      .bind (named_checkStmts body) fun _ hbody => .left (.whileLoop (hplace _) htest hbody)
  | .ifElse _ _ test body orElse =>
    .ite
      (.bind (named_checkStmts orElse) fun _ horElse =>
        .bind (named_checkExpr hplace test) fun _ htest =>
        .bind (named_checkStmts body) fun _ hbody => .left (.ifElse (hplace _) htest hbody horElse))
      (.bind (named_checkExpr hplace test) fun _ htest =>
        .bind (named_checkStmts body) fun _ hbody =>
        .bind (named_checkStmts orElse) fun _ horElse =>
        .left (.ifElse (hplace _) htest hbody horElse))
  | .assertion _ test =>
    .bind (named_checkExpr hplace test) fun _ h => .left (.assertion (hplace _) h)
  | .expression _ value => by
    unfold checkStmt
    split
    · exact .ok nofun
    · exact .bind (named_checkExpr hplace value) fun _ h => .left (.expression (hplace _) h)
  | .imports _ => .ok nofun
  | .pass _ => .left (.pass (hplace _))
  | .breaks _ => .left (.breaks (hplace _))
  | .continues _ => .left (.continues (hplace _))
  | .outside _ _ => .outside (hplace _)

theorem named_checkStmts : ∀ body : List Python.Stmt,
    Ensures place (checkStmts source body) fun body => ∀ s ∈ body, s.Named (sourceWords place)
  | [] => .ok nofun
  | s :: rest =>
    .bind (named_checkStmt s) fun left hs => .bind (named_checkStmts rest) fun _ hrest => by
      cases left with
      | none => exact .ok hrest
      | some s => exact .ok (List.forall_mem_cons.mpr ⟨hs s rfl, hrest⟩)

end

end

/-! ### The names that a script stores to -/

theorem Expr.Named.ownName (h : e.Named p) : ∀ name ∈ e.ownName, p name := by
  cases h with
  | name h => exact List.forall_mem_singleton.mpr h.name
  | _ => exact nofun

theorem flatMap_ownName_of_named {es : List Expr} (h : ∀ e ∈ es, e.Named p) :
    ∀ name ∈ es.flatMap Expr.ownName, p name := by
  intro name hname
  obtain ⟨e, he, hname⟩ := List.mem_flatMap.mp hname
  exact (h e he).ownName name hname

theorem Expr.Named.storedNames (h : e.Named p) : ∀ name ∈ e.storedNames, p name := by
  induction h with
  | int | float | string | bool | none | name => exact nofun
  | binary _ _ _ ihleft ihright =>
    rw [Expr.storedNames, List.forall_mem_append]
    exact ⟨ihleft, ihright⟩
  | boolean _ _ _ _ ihfirst ihothers =>
    rw [Expr.storedNames, List.forall_mem_append, forall_operandNames]
    exact ⟨ihfirst, ihothers⟩
  | not _ _ ih | negate _ _ ih | invert _ _ ih | subscript _ _ _ ih => exact ih
  | compare _ _ _ _ ihleft ih =>
    rw [Expr.storedNames, List.forall_mem_append, forall_comparedNames]
    exact ⟨ihleft, ih⟩
  | call _ _ hargs ih =>
    rw [Expr.storedNames, List.forall_mem_append, forall_operandNames, inputNames]
    refine ⟨?_, ih⟩
    split
    · exact flatMap_ownName_of_named hargs
    · exact nofun
  | method _ hobject _ _ ih =>
    rw [Expr.storedNames, List.forall_mem_append, forall_operandNames, dimensionedNames]
    refine ⟨?_, ih⟩
    split
    · exact List.forall_mem_singleton.mpr hobject.name
    · exact nofun
  | slice _ _ _ ihlower ihupper =>
    rw [Expr.storedNames, List.forall_mem_append, forall_boundNames, forall_boundNames]
    exact ⟨ihlower, ihupper⟩
  | tuple _ _ ih | list _ _ ih =>
    rw [Expr.storedNames, forall_operandNames]
    exact ih
  | dict _ _ _ ihkeys ihvalues =>
    rw [Expr.storedNames, forall_pairNames]
    exact fun item hitem => ⟨ihkeys item hitem, ihvalues item hitem⟩

theorem Expr.Named.targetNames (h : e.Named p) : ∀ name ∈ e.targetNames, p name := by
  have hstored := h.storedNames
  cases h with
  | name h => exact List.forall_mem_singleton.mpr h.name
  | tuple _ h => exact flatMap_ownName_of_named h
  | _ => exact hstored

theorem Stmt.Named.storedNames (h : s.Named p) : ∀ name ∈ s.storedNames, p name := by
  induction h with
  | pass | breaks | continues => exact nofun
  | expression _ h | assertion _ h => exact h.storedNames
  | returns _ h =>
    rw [Stmt.storedNames, forall_boundNames]
    exact fun e he => (h e he).storedNames
  | assign _ htarget hothers hvalue =>
    rw [Stmt.storedNames, List.forall_mem_append, List.forall_mem_append]
    refine ⟨⟨htarget.targetNames, fun name hname => ?_⟩, hvalue.storedNames⟩
    obtain ⟨e, he, hname⟩ := List.mem_flatMap.mp hname
    exact (hothers e he).targetNames name hname
  | augmented _ _ hvalue => exact hvalue.storedNames
  | ifElse _ htest _ _ ihbody ihorElse =>
    rw [Stmt.storedNames, List.forall_mem_append, List.forall_mem_append, forall_storedNames,
      forall_storedNames]
    exact ⟨⟨htest.storedNames, ihbody⟩, ihorElse⟩
  | whileLoop _ htest _ ihbody =>
    rw [Stmt.storedNames, List.forall_mem_append, forall_storedNames]
    exact ⟨htest.storedNames, ihbody⟩
  | forLoop _ htarget hiterable _ ihbody =>
    rw [Stmt.storedNames, List.forall_mem_cons, List.forall_mem_append, forall_storedNames]
    exact ⟨htarget.name, hiterable.storedNames, ihbody⟩
  | functionDef _ _ hparams _ ihbody =>
    rw [Stmt.storedNames, List.forall_mem_append, List.forall_mem_map, forall_storedNames]
    exact ⟨fun param hparam => (hparams param hparam).name, ihbody⟩

theorem storedNames_of_named {body : List Stmt} (h : ∀ s ∈ body, s.Named p) :
    ∀ name ∈ storedNames body, p name :=
  forall_storedNames.mpr fun s hs => (h s hs).storedNames

/-! ### The script of a source text -/

variable {source : SourceText} {body : List Stmt}

/-- The names in a script are words of its source text, its numbers with a point are spelled like
numbers, and its chains have a second operand. Its nodes stand at places of the text, and so does
the error of a text that has no script. -/
theorem ensures_ofSource (hplace : ∀ offset, place (source.position offset)) :
    Ensures place (ofSource source) fun body => ∀ s ∈ body, s.Named (sourceWords place) := by
  unfold ofSource
  split
  · exact named_checkStmts hplace _
  · exact hplace _

theorem named_of_ofSource (h : ofSource source = .ok body) : ∀ s ∈ body, s.Named sourceWords :=
  (ensures_ofSource fun _ => trivial).of_ok h

theorem storedNames_ne_empty (h : ofSource source = .ok body) :
    ∀ name ∈ storedNames body, name ≠ "" :=
  fun name hname => (storedNames_of_named (named_of_ofSource h) name hname).1

end Script

end Keystroke
