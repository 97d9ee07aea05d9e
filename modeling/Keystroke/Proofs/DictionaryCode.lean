import Keystroke.Proofs.DeviceExpressions
import Keystroke.Proofs.ExpressionRoom
import Keystroke.Proofs.KeySearch
import Keystroke.Proofs.ScalarLayout

/-!
# The code of dictionaries

The code of a literal, of a store, of a load and of a length goes from one state of the calculator
to another, wherever it stands in a program. In between, the rows of the dictionary are all that has
to be known, since every such code selects its dictionary anew and the routines put the stack aside.
-/

namespace Keystroke

open Device Emit

variable {V : Type} {levels : Levels V} {a : V}

open Reserved
open Script (Expr Ident Stmt)

theorem Levels.Holds.eq_of_one (h : levels.Holds [a]) :
    ∃ y z t, levels = ⟨a, y, z, t⟩ := by
  obtain rfl := h.x_eq
  exact ⟨levels.y, levels.z, levels.t, rfl⟩

theorem Levels.Holds.eq_of_two {b : V} (h : levels.Holds [b, a]) :
    ∃ z t, levels = ⟨b, a, z, t⟩ := by
  obtain rfl := h.x_eq
  obtain rfl := h.y_eq
  exact ⟨levels.z, levels.t, rfl⟩

namespace Device

/-- A dictionary becomes the one that the routines work on. -/
def selecting (d : Device) (name : String) : Device :=
  { d with alpha := name }.put (.named listNameVariable) (.text name)

variable {d : Device} {name : String} {rows : List (ℚ × ℚ)}

theorem registers_erase_self (d : Device) (name : String) :
    (d.erase (.named name)).registers (.named name) = dictionary [] := by
  simp only [erase, Function.update_self, dictionary]

theorem keeps_erase (d : Device) (name : String) : d.Keeps name (d.erase (.named name)) :=
  fun _ hapart => Function.update_of_ne hapart.1 _ _

theorem selects_selecting (hname : name ∉ variableNames)
    (hholds : d.registers (.named name) = dictionary rows) :
    (d.selecting name).Selects name rows where
  selected := registers_put_self _ _ _
  holds := by
    rw [selecting, registers_put_of_ne _ _ (ne_of_reserved hname (by decide))]
    exact hholds

theorem keeps_selecting (d : Device) (name : String) : d.Keeps name (d.selecting name) := by
  have hkeeps : d.Keeps name { d with alpha := name } := .refl d name
  exact hkeeps.put (Or.inr (by decide)) _

end Device

/-- A name stands for the dictionary in a variable. -/
structure Scopes.IsDictionary (scopes : Scopes) (source name : String) : Prop where
  register : scopes.getRegister source = .ok (.named name)
  kind : scopes.container? source = some .dict

namespace Hardware

/-! ### Lines that lead somewhere -/

/-- The lines that are written between two states lead the calculator to a state with a property, in
every program that starts with the lines so far. -/
structure Leads (h : Hardware) (s s' : Emitter) (d : Device) (Q : Device → Prop) : Prop where
  grows : s.listing.instrs <+: s'.listing.instrs
  path : ∀ (program : List Instr) (callers : List Frame), s'.listing.instrs <+: program →
    ∃ d', Q d' ∧ h.Path (Between program callers s.size s'.size)
      ⟨d, ⟨program, s.size⟩ :: callers⟩ ⟨d', ⟨program, s'.size⟩ :: callers⟩

/-- An action that leaves the scopes alone writes lines that lead the calculator to a state with a
property. -/
def Leading (h : Hardware) (scopes : Scopes) (m : Emit Unit) (d : Device)
    (Q : Device → Prop) : Prop :=
  ∀ s u s', s.scopes = scopes → m.run s = .ok (u, s') → s'.scopes = scopes ∧ h.Leads s s' d Q

variable {h : Hardware} {s s₁ s' : Emitter} {d d' : Device} {Q R : Device → Prop}
  {code : List Instr}
  {scopes : Scopes} {m : Emit Unit} {f : Unit → Emit Unit} {labels : FunctionLabels}

namespace Leads

theorem exists_state (hleads : h.Leads s s' d Q) : ∃ d', Q d' := by
  obtain ⟨d', hd', -⟩ := hleads.path s'.listing.instrs [] (List.prefix_refl _)
  exact ⟨d', hd'⟩

theorem mono (hleads : h.Leads s s' d Q) (hmono : ∀ d', Q d' → R d') : h.Leads s s' d R where
  grows := hleads.grows
  path program callers hprogram := by
    obtain ⟨d', hd', hpath⟩ := hleads.path program callers hprogram
    exact ⟨d', hmono d' hd', hpath⟩

theorem trans (hfirst : h.Leads s s₁ d Q) (hsecond : ∀ d', Q d' → h.Leads s₁ s' d' R) :
    h.Leads s s' d R := by
  obtain ⟨e, he⟩ := hfirst.exists_state
  have hgrows := (hsecond e he).grows
  refine ⟨hfirst.grows.trans hgrows, fun program callers hprogram => ?_⟩
  obtain ⟨d₁, hd₁, hpath⟩ := hfirst.path program callers (hgrows.trans hprogram)
  obtain ⟨d', hd', hpath'⟩ := (hsecond d₁ hd₁).path program callers hprogram
  exact ⟨d', hd', Between.path_trans hpath hpath' hfirst.grows.length_le hgrows.length_le⟩

end Leads

theorem leads_of_emits (hemits : Emits code s s')
    (hpath : ∀ (program : List Instr) (line : Nat) (callers : List Frame),
      CodeAt program line code →
      ∃ d', Q d' ∧ h.Path (Between program callers line (line + code.length))
        ⟨d, ⟨program, line⟩ :: callers⟩ ⟨d', ⟨program, line + code.length⟩ :: callers⟩) :
    h.Leads s s' d Q where
  grows := ⟨code, hemits.instrs.symm⟩
  path program callers hprogram := by
    rw [hemits.size_eq]
    exact hpath program s.size callers (hemits.codeAt hprogram)

namespace Leading

theorem pure (hd : Q d) (u : Unit) : h.Leading scopes (Pure.pure u) d Q := by
  intro s u s' hscopes hrun
  cases hrun
  exact ⟨hscopes, List.prefix_refl _, fun program callers _ => ⟨d, hd, .refl⟩⟩

theorem bind (hm : h.Leading scopes m d Q) (hf : ∀ d', Q d' → h.Leading scopes (f ()) d' R) :
    h.Leading scopes (m >>= f) d R := by
  intro s u s' hscopes hrun
  obtain ⟨u₁, s₁, hfirst, hrest⟩ := run_bind.mp hrun
  obtain ⟨hscopes₁, hleads⟩ := hm s u₁ s₁ hscopes hfirst
  obtain ⟨e, he⟩ := hleads.exists_state
  exact ⟨(hf e he s₁ u s' hscopes₁ hrest).1,
    hleads.trans fun d' hd' => (hf d' hd' s₁ u s' hscopes₁ hrest).2⟩

theorem mono (hm : h.Leading scopes m d Q) (hmono : ∀ d', Q d' → R d') : h.Leading scopes m d R :=
  fun s u s' hscopes hrun => (hm s u s' hscopes hrun).imp_right (·.mono hmono)

theorem get_bind {g : Emitter → Emit Unit} (hg : ∀ s, h.Leading scopes (g s) d Q) :
    h.Leading scopes (get >>= g) d Q :=
  fun s u s' hscopes hrun => hg s s u s' hscopes hrun

theorem lastIsString_bind {g : Bool → Emit Unit} (hg : ∀ b, h.Leading scopes (g b) d Q) :
    h.Leading scopes (lastIsString >>= g) d Q :=
  fun s u s' hscopes hrun => hg s.listing.lastIsString s u s' hscopes hrun

/-- An action that writes one line, which goes on to the next. -/
theorem of_emitting {instr : Instr} (hm : ∀ place, Emitting [] place [instr] m)
    (htransfers : instr.transfers = false) (hperform : d.perform h instr = some (d', false)) :
    h.Leading scopes m d (· = d') := by
  intro s u s' hscopes hrun
  have hemits := hm s.scopes.place s u s' (.self (List.forall_mem_nil _)) hrun
  refine ⟨hemits.scopes.trans hscopes, leads_of_emits hemits fun program line callers hcode => ?_⟩
  exact ⟨d', rfl, between_of_advance (advance_of_perform hcode.head htransfers hperform)⟩

theorem line {instr : Instr} (htransfers : instr.transfers = false)
    (hperform : d.perform h instr = some (d', false)) :
    h.Leading scopes (line instr instr.kind) d (· = d') :=
  .of_emitting (fun _ => .line instr) htransfers hperform

theorem setFlag (flag : Nat) : h.Leading scopes (setFlag flag) d (· = d.flagged flag true) :=
  .line rfl rfl

theorem clearFlag (flag : Nat) : h.Leading scopes (clearFlag flag) d (· = d.flagged flag false) :=
  .line rfl rfl

theorem call {routine : Routine} (hperforms : h.Performs routine d d') :
    h.Leading scopes (call routine) d (· = d') := by
  intro s u s' hscopes hrun
  have hemits : Emits [Routine.call routine] s s' :=
    Emit.Emitting.call routine s u s' (Places.self (List.forall_mem_nil _)) hrun
  refine ⟨hemits.scopes.trans hscopes, leads_of_emits hemits fun program line callers hcode => ?_⟩
  exact ⟨d', rfl, between_of_call hcode.head hperforms⟩

end Leading

/-! ### Operands -/

section Operands

variable {vars : List String} {env : Env Datum} {name : String} {e : Expr} {q : ℚ} {room : Nat}

/-- The variables have given values, in registers that the routines for a dictionary do not work
on. -/
def HasValues (h : Hardware) (scopes : Scopes) (vars : List String)
    (env : Env Datum) (name : String) (d : Device) : Prop :=
  ∀ v ∈ vars, ∀ register : Register, scopes.getRegister v = .ok register → register.IsApart name ∧
    (if scopes.isRangeIndex v then (d.registers register).bind (h.arithmetic.unary .integerPart)
      else d.registers register) = some (env v)

theorem HasValues.keeps (hvalues : h.HasValues scopes vars env name d) (hkeeps : d.Keeps name d') :
    h.HasValues scopes vars env name d' := by
  intro v hv register hregister
  obtain ⟨hapart, hvalue⟩ := hvalues v hv register hregister
  exact ⟨hapart, by rw [hkeeps register hapart, hvalue]⟩

/-- A scalar expression has a number as its value, and its code takes at most so many levels. -/
structure Yields (h : Hardware) (vars : List String) (env : Env Datum) (room : Nat)
    (e : Expr) (q : ℚ) : Prop where
  scalar : e.isScalar vars = true
  need : e.need ≤ room
  value : e.value h.arithmetic env = some (.number q)

/-- The code of an expression leaves its value on top of the values that were there. -/
theorem leading_operand (hvalues : h.HasValues scopes vars env name d)
    (hyields : h.Yields vars env room e q) {rest : List Datum} (hlevels : d.levels.Holds rest)
    (hroom : rest.length + room ≤ 4) :
    h.Leading scopes (expr labels e) d fun d' => ∃ b levels,
      d' = (d.flagged scratchFlag b).holding levels ∧ levels.Holds (.number q :: rest) := by
  intro s u s' hscopes hrun
  have hrecalls : ∀ v ∈ vars, ∀ register, s.scopes.getRegister v = .ok register →
      h.Acts d.registers (s.scopes.recallCode v register) fun levels =>
      some (levels.push (env v)) := by
    intro v hv register hregister
    rw [hscopes] at hregister ⊢
    exact acts_recallCode (hvalues v hv register hregister).2
  obtain ⟨code, hemits, hacts⟩ := driving_expr effects (e.scalar hyields.scalar) s u s'
    hrecalls hrun
  obtain ⟨levels, heffect, hholds⟩ :=
    (e.scalar hyields.scalar).exists_onLevels hyields.value hlevels
    (Nat.le_trans (Nat.add_le_add_left hyields.need _) hroom)
  refine ⟨hemits.scopes.trans hscopes, leads_of_emits hemits fun program line callers hcode => ?_⟩
  obtain ⟨b, hpath⟩ := hacts program line d levels callers hcode rfl heffect
  exact ⟨_, ⟨b, levels, rfl, hholds⟩, hpath⟩

end Operands

/-! ### Selecting a dictionary -/

section Dictionaries

variable {vars : List String} {env : Env Datum} {name source : String}
  {rows contents : List (ℚ × ℚ)} {pairs : List (Expr × Expr)}

theorem leading_select (d : Device) (name : String) :
    h.Leading scopes (selectContainer (.named name)) d (· = d.selecting name) := by
  refine .bind (.line rfl rfl) fun d' hd' => ?_
  subst hd'
  exact .line rfl rfl

/-! ### Literals -/

/-- The keys and values of a literal, with their numbers. -/
def YieldsPair (h : Hardware) (vars : List String) (env : Env Datum) (pair : Expr × Expr)
    (row : ℚ × ℚ) : Prop :=
  h.Yields vars env 4 pair.1 row.1 ∧ h.Yields vars env 3 pair.2 row.2

/-- The code of the keys and values of a literal. -/
def pairCodes (labels : FunctionLabels) (pairs : List (Expr × Expr)) :
    List (Emit Unit × Emit Unit) :=
  pairs.map fun (key, item) => (Emit.expr labels key, Emit.expr labels item)

/-- Every pair is appended as a row. -/
theorem leading_pushPairs (hname : name ∉ variableNames)
    (hpairs : List.Forall₂ (h.YieldsPair vars env) pairs contents)
    (hselects : d.Selects name rows) (hpair : d.flags pairFlag = true)
    (hvalues : h.HasValues scopes vars env name d) :
    h.Leading scopes (pushPairs (pairCodes labels pairs)) d fun d' =>
      d'.Selects name (rows ++ contents) ∧ d.Keeps name d' := by
  induction hpairs generalizing d rows with
  | nil =>
    refine .pure ⟨?_, .refl d name⟩ ()
    rwa [List.append_nil]
  | @cons pair row pairs contents hfirst _ ih =>
    obtain ⟨hkey, hvalue⟩ := hfirst
    have hnone : d.levels.Holds [] := List.nil_prefix
    refine .bind (leading_operand hvalues hkey hnone (Nat.le_refl 4)) ?_
    rintro _ ⟨b, levels, rfl, hlevels⟩
    have hvalues₁ :
        h.HasValues scopes vars env name ((d.flagged scratchFlag b).holding levels) := hvalues
    refine .bind (leading_operand hvalues₁ hvalue hlevels (Nat.le_refl 4)) ?_
    rintro _ ⟨b', levels', rfl, hlevels'⟩
    obtain ⟨z, t, rfl⟩ := hlevels'.eq_of_two
    have hselects' : (d.flagged scratchFlag b').Selects name rows :=
      ⟨hselects.selected, hselects.holds⟩
    have hpair' : (d.flagged scratchFlag b').flags pairFlag = true := by
      rw [flags_flagged_of_ne _ _ (by decide), hpair]
    rw [flagged_holding, flagged_flagged, holding_holding]
    refine .bind (.call (performs_listPush hname hselects' hpair' row.1 row.2 z t)) ?_
    rintro _ rfl
    have hkeeps : d.Keeps name ((d.flagged scratchFlag b').afterPush name rows row.1 row.2) :=
      keeps_afterPush _ name rows row.1 row.2
    refine (ih (hselects'.afterPush hname row.1 row.2) hpair' (hvalues.keeps hkeeps)).mono ?_
    rintro d' ⟨hpushed, hkeeps'⟩
    rw [List.append_assoc] at hpushed
    exact ⟨hpushed, hkeeps.trans hkeeps'⟩

/-- The lines of a literal, after its name has been bound. -/
theorem leading_literal (comment : String) (hname : name ∉ variableNames)
    (hpairs : List.Forall₂ (h.YieldsPair vars env) pairs contents)
    (hvalues : h.HasValues scopes vars env name d) :
    h.Leading scopes (do
      commented (.memory .clearVariable (.register (.named name))) comment
      unless (pairCodes labels pairs).isEmpty do
        selectContainer (.named name)
        setFlag pairFlag
        pushPairs (pairCodes labels pairs)
        clearFlag pairFlag) d fun d' =>
      d'.registers (.named name) = dictionary contents ∧ d.Keeps name d' := by
  have hclear : d.perform h (.memory .clearVariable (.register (.named name))) =
      some (d.erase (.named name), false) := rfl
  refine .bind (.of_emitting (fun _ => .commented rfl comment) rfl hclear) ?_
  rintro _ rfl
  have hcleared := registers_erase_self d name
  have hkeeps := keeps_erase d name
  cases hpairs with
  | nil => exact .pure ⟨hcleared, hkeeps⟩ ()
  | cons hfirst hrest =>
    refine .bind (leading_select _ name) ?_
    rintro _ rfl
    have hselecting := hkeeps.trans (keeps_selecting (d.erase (.named name)) name)
    refine .bind (.setFlag pairFlag) ?_
    rintro _ rfl
    have hselects := selects_selecting hname hcleared
    have hkeeps' : d.Keeps name
        (((d.erase (.named name)).selecting name).flagged pairFlag true) := hselecting
    refine .bind (leading_pushPairs hname (.cons hfirst hrest) ⟨hselects.selected, hselects.holds⟩
      (flags_flagged_self _ _ _) (hvalues.keeps hkeeps')) ?_
    rintro d' ⟨hpushed, hkept⟩
    refine (Leading.clearFlag pairFlag).mono ?_
    rintro _ rfl
    exact ⟨hpushed.holds, hkeeps'.trans hkept⟩

/-! ### Subscripts -/

variable {id : Ident}

theorem leading_containerOf {f : Register × Container → Emit Unit}
    (hdict : scopes.IsDictionary id.name name)
    (hf : h.Leading scopes (f (.named name, .dict)) d Q) :
    h.Leading scopes (containerOf id >>= f) d Q := by
  intro s u s' hscopes hrun
  have hfound : (containerOf id).run s = .ok ((.named name, .dict), s) := by
    rw [containerOf,
      run_bind_of_ok (run_registerOf_eq_ok.mpr ⟨hscopes ▸ hdict.register, rfl⟩),
      run_get_bind, hscopes]
    dsimp only
    rw [hdict.kind]
    rfl
  rw [run_bind_of_ok hfound] at hrun
  exact hf s u s' hscopes hrun

variable {key : Expr} {k v : ℚ}

section

variable (hdict : scopes.IsDictionary id.name name) (hname : name ∉ variableNames)
  (hholds : d.registers (.named name) = dictionary rows) {position : Position}

include hdict hname hholds

/-- A load finds the value in the first row with its key. -/
theorem leading_subscript (hvalues : h.HasValues scopes vars env name d)
    (hkey : h.Yields vars env 4 key k) (hroom : rows.length ≤ 999)
    (hlookup : rows.lookup k = some v) :
    h.Leading scopes (expr labels (.subscript position id key)) d fun d' =>
      d'.levels.x = .number v ∧ d'.registers (.named name) = dictionary rows ∧ d.Keeps name d' := by
  obtain ⟨before, after, rfl, hbefore⟩ := exists_split_of_lookup hlookup
  have hselects := selects_selecting hname hholds
  have hselecting := keeps_selecting d name
  refine leading_containerOf hdict (.bind (leading_select d name) ?_)
  rintro _ rfl
  have hnone : (d.selecting name).levels.Holds [] := List.nil_prefix
  refine .bind (leading_operand (hvalues.keeps hselecting) hkey hnone (Nat.le_refl 4)) ?_
  rintro _ ⟨b, levels, rfl, hlevels⟩
  obtain ⟨y, z, t, rfl⟩ := hlevels.eq_of_one
  have hselects' : ((d.selecting name).flagged scratchFlag b).Selects name
      (before ++ (k, v) :: after) := ⟨hselects.selected, hselects.holds⟩
  obtain ⟨d', hperforms, -, hpoints, hkeeps⟩ :=
    performs_pointAtKey_found (h := h) hname hselects' hbefore hroom y z t
  refine .bind (.call hperforms) ?_
  rintro _ rfl
  refine (Leading.line rfl (perform_recallElement hpoints.pointer hpoints.table
    (Table.get?_ofRows (by decide)))).mono ?_
  rintro _ rfl
  exact ⟨rfl, hpoints.selects.holds, hselecting.trans hkeeps⟩

/-- A store changes the first row with its key, or appends a row. -/
theorem leading_store {index : Emit.IndexCode} (hindex : index.key = expr labels key)
    (hvalues : h.HasValues scopes vars env name d) (hkey : h.Yields vars env 3 key k)
    (hroom : rows.length ≤ 999) (hvalue : d.levels.Holds [.number v]) :
    h.Leading scopes (storeSubscript id index) d fun d' =>
      d'.registers (.named name) = dictionary (storeRow k v rows) ∧ d.Keeps name d' := by
  have hselects := selects_selecting hname hholds
  have hselecting := keeps_selecting d name
  refine leading_containerOf hdict (.bind (leading_select d name) ?_)
  rintro _ rfl
  refine .bind (.setFlag createKeyFlag) ?_
  rintro _ rfl
  have hvalues' :
      h.HasValues scopes vars env name ((d.selecting name).flagged createKeyFlag true) :=
    hvalues.keeps hselecting
  rw [hindex]
  refine .bind (leading_operand hvalues' hkey hvalue (Nat.le_refl 4)) ?_
  rintro _ ⟨b, levels, rfl, hlevels⟩
  obtain ⟨z, t, rfl⟩ := hlevels.eq_of_two
  have hselects' :
      (((d.selecting name).flagged createKeyFlag true).flagged scratchFlag b).Selects name
      rows := ⟨hselects.selected, hselects.holds⟩
  obtain ⟨before, old, after, d', hperforms, hlevels', hpoints, hstored, hkeeps⟩ :=
    performs_pointAtKey_store (h := h) hname hselects' hroom rfl k (.number v) z t
  refine .bind (.call hperforms) ?_
  rintro e rfl
  refine .bind (.clearFlag createKeyFlag) ?_
  rintro _ rfl
  have hpoints' : (e.flagged createKeyFlag false).Points name before (k, old) after :=
    ⟨⟨hpoints.selects.selected, hpoints.selects.holds⟩, hpoints.pointer⟩
  have hx : (e.flagged createKeyFlag false).levels.x = .number v := congrArg Levels.x hlevels'
  refine (Leading.line rfl (hpoints'.perform_store hx)).mono ?_
  rintro _ rfl
  have hkept : d.Keeps name (e.flagged createKeyFlag false) := hselecting.trans hkeeps
  refine ⟨?_, hkept.put (Or.inl rfl) _⟩
  rw [registers_put_self, hstored, dictionary_append]

theorem leading_lengthCall {callee : Ident} (hcallee : callee.name = Builtin.len.name)
    (hbuiltin : labels.get? callee.name = none) :
    h.Leading scopes (expr labels (.call position callee [.name id])) d fun d' =>
      d'.levels.x = .number rows.length ∧ d'.registers (.named name) = dictionary rows ∧
        d.Keeps name d' := by
  have hlen : Builtin.ofName? callee.name = some .len := by
    rw [hcallee]
    decide
  rw [expr, callFunction, hbuiltin, hlen]
  have hselects := selects_selecting hname hholds
  have hselecting := keeps_selecting d name
  refine leading_containerOf hdict (.bind (leading_select d name) ?_)
  rintro _ rfl
  obtain ⟨t, hperforms⟩ := performs_rowCount (h := h) hselects.focuses (d.selecting name).levels
  rw [Table.elim_ofRows?] at hperforms
  refine (Leading.call hperforms).mono ?_
  rintro _ rfl
  exact ⟨rfl, hselects.holds, hselecting⟩

/-! ### Statements -/

theorem leading_assignValue {value : Expr} {row : ℚ × ℚ}
    (hvalues : h.HasValues scopes vars env name d) (hroom : rows.length ≤ 999)
    (hkey : h.Yields vars env 3 key row.1) (hvalue : h.Yields vars env 4 value row.2) :
    h.Leading scopes (assignValue labels [.subscript position id key] value) d fun d' =>
      d'.registers (.named name) = dictionary (storeRow row.1 row.2 rows) ∧ d.Keeps name d' := by
  have hnone : d.levels.Holds [] := List.nil_prefix
  refine .get_bind fun _ => .bind (leading_operand hvalues hvalue hnone (Nat.le_refl 4)) ?_
  rintro _ ⟨b, levels, rfl, hlevels⟩
  refine .lastIsString_bind fun _ =>
    .bind (leading_store (d := (d.flagged scratchFlag b).holding levels)
    hdict hname hholds rfl hvalues hkey hroom hlevels) fun d' hd' => ?_
  exact .pure hd' ()

end

/-- A statement stores a number under a key. -/
def IsStore (h : Hardware) (source : String) (vars : List String) (env : Env Datum) :
    Stmt → ℚ × ℚ → Prop
  | .assign _ (.subscript _ id key) [] value, row =>
    id.name = source ∧ h.Yields vars env 3 key row.1 ∧ h.Yields vars env 4 value row.2
  | _, _ => False

/-- A scalar that is stored under a key is computed first. -/
theorem run_assign_subscript {value : Expr} {u : Unit} (hscalar : value.isScalar vars = true)
    (hrun : (assign labels (.subscript position id key) [] value).run s = .ok (u, s')) :
    (assignValue labels [.subscript position id key] value).run s = .ok (u, s') := by
  cases value with
  | list | dict => cases hscalar
  | name source =>
    rw [assign, assignName, run_get_bind] at hrun
    split at hrun
    · cases hrun
    · cases hrun
    · exact hrun
  | _ => exact hrun

/-- A store under a key. -/
theorem leading_storeStatement {statement : Stmt} {row : ℚ × ℚ}
    (hstore : h.IsStore source vars env statement row) (hdict : scopes.IsDictionary source name)
    (hname : name ∉ variableNames) (hholds : d.registers (.named name) = dictionary rows)
    (hvalues : h.HasValues scopes vars env name d) (hroom : rows.length ≤ 999) :
    h.Leading scopes (stmt labels statement) d fun d' =>
      d'.registers (.named name) = dictionary (storeRow row.1 row.2 rows) ∧ d.Keeps name d' := by
  unfold IsStore at hstore
  split at hstore
  · obtain ⟨rfl, hkey, hvalue⟩ := hstore
    intro s u s' hscopes hrun
    exact leading_assignValue hdict hname hholds hvalues hroom hkey hvalue s u s' hscopes
      (run_assign_subscript hvalue.scalar hrun)
  · exact hstore.elim

/-- Stores one after another. -/
theorem leading_stores {statements : List Stmt} {writes : List (ℚ × ℚ)}
    (hstores : List.Forall₂ (h.IsStore source vars env) statements writes)
    (hdict : scopes.IsDictionary source name) (hname : name ∉ variableNames)
    (hholds : d.registers (.named name) = dictionary rows)
    (hvalues : h.HasValues scopes vars env name d) (hroom : (storeRows writes rows).length ≤ 999) :
    h.Leading scopes (block labels statements) d fun d' =>
      d'.registers (.named name) = dictionary (storeRows writes rows) ∧ d.Keeps name d' := by
  induction hstores generalizing d rows with
  | nil =>
    exact .pure ⟨hholds, .refl d name⟩ ()
  | @cons statement row statements writes hfirst _ ih =>
    have hrows :
        storeRows (row :: writes) rows = storeRows writes (storeRow row.1 row.2 rows) := rfl
    have hbefore : rows.length ≤ 999 :=
      (length_le_storeRows (row :: writes) rows).trans hroom
    refine .bind (leading_storeStatement hfirst hdict hname hholds hvalues hbefore) ?_
    rintro d' ⟨hholds', hkeeps⟩
    refine (ih hholds' (hvalues.keeps hkeeps) hroom).mono ?_
    rintro d'' ⟨hholds'', hkeeps'⟩
    exact ⟨hholds'', hkeeps.trans hkeeps'⟩

end Dictionaries

end Hardware

end Keystroke
