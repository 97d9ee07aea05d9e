import Keystroke.Proofs.ScalarScopes
import Keystroke.Proofs.SupportLibrary

/-!
# Code that stores before it recalls

A variable gets a numbered register at one point and its first value at another. Between the two no
line may work on the register.
-/

namespace Keystroke

open Emit

/-! ### Numbered operands -/

def Operand.number? : Operand → Option Nat
  | register target => target.number?
  | stack _ => none
  | indirect holder => holder.number?

/-- The numbered register that an instruction works on. -/
def Instr.number? : Instr → Option Nat
  | .memory _ operand => operand.number?
  | _ => none

variable {register : Register} {n : Nat} {code' : List Instr}

theorem Register.eq_numbered_of_number? (h : register.number? = some n) :
    register = .numbered n := by
  cases register with
  | named name => cases h
  | numbered k =>
    cases h
    rfl

/-- An instruction stores X or the alpha register in a numbered register. -/
def Instr.StoresTo (n : Nat) (instr : Instr) : Prop :=
  instr = .store (.numbered n) ∨ instr = .storeAlpha (.numbered n)

/-- Some line of code stores to a numbered register. -/
def Stored (code : List Instr) (n : Nat) : Prop :=
  ∃ instr ∈ code, instr.StoresTo n

variable {code : List Instr}

theorem Stored.mono (h : Stored code n) (hstarts : code <+: code') : Stored code' n := by
  obtain ⟨instr, hmem, hstores⟩ := h
  exact ⟨instr, hstarts.subset hmem, hstores⟩

/-- An instruction can follow some code: its numbered register is below the limit, and it stores to
it or comes after a line that does. -/
def Instr.Follows (limit : Nat) (code : List Instr) (instr : Instr) : Prop :=
  ∀ n, instr.number? = some n → n < limit ∧ (instr.StoresTo n ∨ Stored code n)

/-- In some code, every instruction can follow those before it. -/
def Prudent (limit : Nat) (code : List Instr) : Prop :=
  ∀ line instr, InstrAt code line instr → instr.Follows limit (code.take line)

theorem Prudent.nil (limit : Nat) : Prudent limit [] :=
  fun _ _ hat => nomatch hat

variable {limit : Nat}

theorem Prudent.append {instr : Instr} (h : Prudent limit code)
    (hinstr : instr.Follows limit code) : Prudent limit (code ++ [instr]) := by
  intro line i hat
  rcases instrAt_append_singleton.mp hat with hat | ⟨rfl, rfl⟩
  · have hline : line ≤ code.length := Nat.le_of_lt (List.getElem?_eq_some_iff.mp hat).1
    rw [List.take_append_of_le_length hline]
    exact h line i hat
  · rw [List.take_left]
    exact hinstr

/-- A register can be worked on after some code. -/
def Ready (limit : Nat) (code : List Instr) (register : Register) : Prop :=
  ∀ n, register.number? = some n → n < limit ∧ Stored code n

theorem Ready.mono (h : Ready limit code register) (hstarts : code <+: code') :
    Ready limit code' register :=
  fun n hn => ⟨(h n hn).1, (h n hn).2.mono hstarts⟩

def Below (limit : Nat) (register : Register) : Prop :=
  ∀ n, register.number? = some n → n < limit

theorem Ready.below (h : Ready limit code register) : Below limit register :=
  fun n hn => (h n hn).1

theorem Ready.of_named (name : String) :
    Ready limit code (.named name) :=
  fun _ hn => nomatch hn

/-! ### States -/

/-- The code so far works on registers that have been stored to, and every variable with a numbered
register has been stored to or is still to be. -/
structure Emitter.Covers (limit : Nat) (pending : List Nat) (s : Emitter) : Prop where
  limit_eq : s.scopes.limit = limit
  live : ∀ n ∈ s.scopes.numbers, n < limit ∧ (n ∈ pending ∨ Stored s.listing.instrs n)
  prudent : Prudent limit s.listing.instrs

namespace Emitter.Covers

variable {limit : Nat} {pending pending' : List Nat} {s s' : Emitter}

theorem ready (h : s.Covers limit []) {register : Register}
    (hregister : ∀ n, register = .numbered n → n ∈ s.scopes.numbers) :
    Ready limit s.listing.instrs register := by
  intro n hn
  obtain ⟨hlt, hstored⟩ := h.live n (hregister n (Register.eq_numbered_of_number? hn))
  exact ⟨hlt, hstored.resolve_left List.not_mem_nil⟩

theorem write (h : s.Covers limit pending) {instr : Instr}
    (hinstr : instr.Follows limit s.listing.instrs)
    (hcode : s'.listing.instrs = s.listing.instrs ++ [instr]) (hscopes : s'.scopes = s.scopes) :
    s'.Covers limit pending where
  limit_eq := by rw [hscopes, h.limit_eq]
  live n hn := by
    rw [hscopes] at hn
    rw [hcode]
    exact ⟨(h.live n hn).1, (h.live n hn).2.imp_right (·.mono ⟨[instr], rfl⟩)⟩
  prudent := hcode ▸ h.prudent.append hinstr

/-- No register has been handed out. -/
theorem keeps (h : s.Covers limit pending) (hkeeps : s.scopes.Keeps s'.scopes)
    (hlisting : s'.listing = s.listing) : s'.Covers limit pending where
  limit_eq := hkeeps.limit.trans h.limit_eq
  live n hn := by
    rw [hlisting]
    exact h.live n (hkeeps.numbers.subset hn)
  prudent := hlisting ▸ h.prudent

theorem of_subset (h : s.Covers limit pending) (hsubset : pending ⊆ pending') :
    s.Covers limit pending' :=
  ⟨h.limit_eq, fun n hn => ⟨(h.live n hn).1, (h.live n hn).2.imp_left (hsubset ·)⟩, h.prudent⟩

/-- A register has been handed out, and is to be stored to. -/
theorem takes (h : s.Covers limit pending) (htakes : s.scopes.Takes s'.scopes)
    (hlisting : s'.listing = s.listing) : s'.Covers limit (s.scopes.next :: pending) where
  limit_eq := htakes.limit.trans h.limit_eq
  live n hn := by
    rw [hlisting]
    rcases List.mem_cons.mp (htakes.numbers.subset hn) with rfl | hn
    · exact ⟨h.limit_eq ▸ htakes.lt, Or.inl List.mem_cons_self⟩
    · exact ⟨(h.live n hn).1, (h.live n hn).2.imp_left (List.mem_cons_of_mem _)⟩
  prudent := hlisting ▸ h.prudent

theorem store (h : s.Covers limit pending) {register : Register} {alpha : Bool}
    (hbelow : Below limit register)
    (hpending : ∀ n ∈ pending, n ∈ pending' ∨ register = .numbered n)
    (hcode : s'.listing.instrs =
      s.listing.instrs ++ [if alpha then .storeAlpha register else .store register])
    (hscopes : s'.scopes = s.scopes) :
    s'.Covers limit pending' ∧ Ready limit s'.listing.instrs register := by
  have hstores : ∀ n, register = .numbered n →
      (if alpha then Instr.storeAlpha register else .store register).StoresTo n := by
    rintro n rfl
    cases alpha with
    | false => exact Or.inl rfl
    | true => exact Or.inr rfl
  have hstored : ∀ n, register = .numbered n → Stored s'.listing.instrs n := by
    intro n hn
    refine ⟨_, ?_, hstores n hn⟩
    rw [hcode]
    simp
  have hcovers : s'.Covers limit pending := by
    refine h.write (fun n hn => ?_) hcode hscopes
    have hn : register.number? = some n := by
      cases alpha <;> exact hn
    exact ⟨hbelow n hn, Or.inl (hstores n (Register.eq_numbered_of_number? hn))⟩
  refine ⟨⟨hcovers.limit_eq, fun n hn => ⟨(hcovers.live n hn).1, ?_⟩, hcovers.prudent⟩,
    fun n hn => ⟨hbelow n hn, hstored n (Register.eq_numbered_of_number? hn)⟩⟩
  -- a register that waited for this store waits no longer
  rcases (hcovers.live n hn).2 with hmem | hdone
  · exact (hpending n hmem).imp_right (hstored n)
  · exact Or.inr hdone

end Emitter.Covers

/-! ### Registers of variables -/

namespace Scopes

variable {scopes scopes₁ scopes' : Scopes} {name : String} {info : VarInfo} {register : Register}

theorem Keeps.trans (h : scopes.Keeps scopes₁) (h' : scopes₁.Keeps scopes') :
    scopes.Keeps scopes' :=
  ⟨h'.limit.trans h.limit, h'.next.trans h.next, h'.numbers.trans h.numbers⟩

theorem Keeps.takes (h : scopes.Keeps scopes₁) (h' : scopes₁.Takes scopes') :
    scopes.Takes scopes' where
  limit := h'.limit.trans h.limit
  lt := h.next ▸ h.limit ▸ h'.lt
  next := h'.next.trans (congrArg (· + 1) h.next)
  numbers := h'.numbers.trans (h.next ▸ h.numbers.cons_cons _)

/-- A register belongs to a variable, if it is numbered. -/
def Knows (scopes : Scopes) (register : Register) : Prop :=
  ∀ n, register = .numbered n → n ∈ scopes.numbers

theorem knows_of_getRegister (h : scopes.getRegister name = .ok register) :
    scopes.Knows register := by
  rintro n rfl
  obtain ⟨resolved, -, hlookup⟩ := getRegister_eq_ok.mp h
  obtain ⟨depth, hholds⟩ := exists_holds_of_lookup hlookup
  exact hholds.mem_numbers

/-- A register is that of a variable already, or has a name, or is the next numbered one. -/
def Grants (scopes : Scopes) (register : Register) (scopes' : Scopes) : Prop :=
  (scopes.Knows register ∧ scopes.Keeps scopes') ∨
    (register = .numbered scopes.next ∧ scopes.Takes scopes')

theorem grants_bind (h : scopes.bind name info = .ok (register, scopes')) :
    scopes.Grants register scopes' := by
  rcases bind_cases h with ⟨⟨other, rfl⟩, hkeeps⟩ | ⟨-, hnext⟩
  · exact Or.inl ⟨nofun, hkeeps⟩
  · exact Or.inr hnext

/-- A store goes to a register that a variable has already or that has a name, or else to the next
numbered register. -/
theorem storeRegister_cases (h : scopes.storeRegister name info = .ok (register, scopes')) :
    (scopes.Knows register ∧ scopes.Keeps scopes') ∨
      (namedRegister? name info = none ∧ register = .numbered scopes.next ∧
        scopes.Takes scopes') := by
  have hdrop : scopes.Keeps (scopes.dropAlias name).2 := keeps_dropAlias
  rcases storeRegister_eq_ok h with ⟨-, hbind⟩ | ⟨-, hregister, rfl⟩
  · rcases bind_cases hbind with ⟨⟨other, rfl⟩, hkeeps⟩ | ⟨hnone, rfl, htakes⟩
    · exact Or.inl ⟨nofun, hdrop.trans hkeeps⟩
    · exact Or.inr ⟨hnone, congrArg Register.numbered hdrop.next, hdrop.takes htakes⟩
  · exact Or.inl ⟨fun n hn => hdrop.numbers.subset (knows_of_getRegister hregister n hn),
      hdrop.trans (keeps_modifyHome fun _ => List.Sublist.refl _)⟩

end Scopes

theorem Emitter.Covers.grants {pending : List Nat} {s s' : Emitter} (h : s.Covers limit pending)
    (hgrants : s.scopes.Grants register s'.scopes) (hlisting : s'.listing = s.listing) :
    s'.Covers limit (register.number?.toList ++ pending) ∧ Below limit register := by
  rcases hgrants with ⟨hknows, hkeeps⟩ | ⟨rfl, htakes⟩
  · refine ⟨(h.keeps hkeeps hlisting).of_subset (List.subset_append_right _ _), fun n hn => ?_⟩
    exact (h.live n (hknows n (Register.eq_numbered_of_number? hn))).1
  · refine ⟨h.takes htakes hlisting, fun n hn => ?_⟩
    cases hn
    exact h.limit_eq ▸ htakes.lt

/-! ### Actions -/

/-- A compilation stops because a function has no label. -/
def CompileError.MissesLabel (e : CompileError) : Prop :=
  ∃ name, e.fault = .use (.functionWithoutLabel name)

namespace Emit

variable {α β : Type}

/-- A run of an action ends as `P` says, or fails for another cause than that a function has no
label. -/
def Meets (m : Emit α) (s : Emitter) (P : α → Emitter → Prop) : Prop :=
  (∀ a s', m.run s = .ok (a, s') → P a s') ∧ ∀ e, m.run s = .error e → ¬ e.MissesLabel

/-- Started after some code, with all variables stored to, an action ends that way too, unless it
fails for another cause than that a function has no label. -/
def Careful (limit : Nat) (code : List Instr) (m : Emit α) (Q : α → List Instr → Prop) : Prop :=
  ∀ s : Emitter, s.Covers limit [] → code <+: s.listing.instrs → Meets m s fun a s' =>
    s'.Covers limit [] ∧ s.listing.instrs <+: s'.listing.instrs ∧ Q a s'.listing.instrs

/-- An action is careful wherever it starts. -/
def Tidy (limit : Nat) (m : Emit α) : Prop :=
  ∀ code, Careful limit code m fun _ _ => True

namespace Meets

variable {m : Emit α} {s : Emitter} {P Q : α → Emitter → Prop} {R : β → Emitter → Prop}

theorem imp (hm : Meets m s P) (h : ∀ a s', P a s' → Q a s') : Meets m s Q :=
  ⟨fun a s' hrun => h a s' (hm.1 a s' hrun), hm.2⟩

theorem pure {a : α} (h : P a s) : Meets (Pure.pure a : Emit α) s P := by
  refine ⟨fun b s' hrun => ?_, nofun⟩
  cases hrun
  exact h

variable {start : Position}

theorem fail {fault : Fault} (h : ∀ name, fault ≠ .use (.functionWithoutLabel name)) :
    Meets (fail fault start : Emit α) s P := by
  refine ⟨nofun, fun e hrun => ?_⟩
  cases hrun
  rintro ⟨name, hname⟩
  exact h name hname

theorem bind {f : α → Emit β} (hm : Meets m s P) (hf : ∀ a s₁, P a s₁ → Meets (f a) s₁ R) :
    Meets (m >>= f) s R := by
  constructor
  · intro b s' hrun
    obtain ⟨a, s₁, h₁, h₂⟩ := run_bind.mp hrun
    exact (hf a s₁ (hm.1 a s₁ h₁)).1 b s' h₂
  · intro e hrun
    rcases run_bind_error.mp hrun with hrun | ⟨a, s₁, h₁, h₂⟩
    · exact hm.2 e hrun
    · exact (hf a s₁ (hm.1 a s₁ h₁)).2 e h₂

theorem get_bind {f : Emitter → Emit α} (h : Meets (f s) s P) : Meets (get >>= f) s P :=
  h

theorem ofScopes {result : Except ScopeError α} (h : ∀ a, result = .ok a → P a s) :
    Meets (ofScopes result start) s P := by
  cases result with
  | ok a => exact .pure (h a rfl)
  | error error => exact .fail nofun

theorem withScopes {step : Scopes → Except ScopeError (α × Scopes)}
    (h : ∀ a scopes, step s.scopes = .ok (a, scopes) → P a { s with scopes }) :
    Meets (withScopes step start) s P := by
  have hstep : Meets (Emit.ofScopes (step s.scopes) start) s fun p s' =>
      P p.1 { s with scopes := p.2 } ∧ s' = s := .ofScopes fun p hp => ⟨h p.1 p.2 hp, rfl⟩
  refine .get_bind (hstep.bind ?_)
  rintro ⟨a, scopes⟩ t ⟨hp, rfl⟩
  exact Meets.pure (s := { t with scopes }) hp

end Meets

namespace Careful

variable {limit : Nat} {code : List Instr} {Q : α → List Instr → Prop}
  {R : β → List Instr → Prop}

variable {m : Emit α}

theorem mono {code' : List Instr} (h : Careful limit code m Q)
    (hstarts : code <+: code') : Careful limit code' m Q :=
  fun s hs hcode => h s hs (hstarts.trans hcode)

theorem imp {Q' : α → List Instr → Prop} (h : Careful limit code m Q)
    (hQ : ∀ a code', Q a code' → Q' a code') : Careful limit code m Q' := by
  intro s hs hcode
  refine (h s hs hcode).imp ?_
  rintro a s' ⟨hs', hgrows, hvalue⟩
  exact ⟨hs', hgrows, hQ a _ hvalue⟩

theorem pure {a : α} (h : ∀ code', code <+: code' → Q a code') :
    Careful limit code (pure a : Emit α) Q :=
  fun _ hs hcode => .pure ⟨hs, List.prefix_rfl, h _ hcode⟩

variable {start : Position} {f : α → Emit β} {comment : Option String} {name : String}
  {info : VarInfo}

theorem fail {fault : Fault} (h : ∀ name, fault ≠ .use (.functionWithoutLabel name)) :
    Careful limit code (fail fault start : Emit α) Q :=
  fun _ _ _ => .fail h

theorem bind (hm : Careful limit code m Q)
    (hf : ∀ a code', code <+: code' → Q a code' → Careful limit code' (f a) R) :
    Careful limit code (m >>= f) R := by
  intro s hs hcode
  refine (hm s hs hcode).bind ?_
  rintro a s₁ ⟨hs₁, hgrows, hvalue⟩
  refine (hf a _ (hcode.trans hgrows) hvalue s₁ hs₁ List.prefix_rfl).imp ?_
  rintro b s' ⟨hs', hgrows', hvalue'⟩
  exact ⟨hs', hgrows.trans hgrows', hvalue'⟩

/-- Two actions in a row, where it does not matter what the first gives. -/
theorem next (hm : Careful limit code m Q) (hf : ∀ a, Careful limit code (f a) R) :
    Careful limit code (m >>= f) R :=
  bind hm fun a _ hstarts _ => (hf a).mono hstarts

theorem ite {c : Prop} [Decidable c] {n : Emit α} (hm : Careful limit code m Q)
    (hn : Careful limit code n Q) : Careful limit code (if c then m else n) Q := by
  split
  · exact hm
  · exact hn

theorem get_bind {f : Emitter → Emit α} (h : ∀ s, Careful limit code (f s) Q) :
    Careful limit code (get >>= f) Q :=
  fun s hs hcode => h s s hs hcode

variable {instr : Instr} {kind : LineKind}

theorem emitted (h : instr.Follows limit code) :
    Careful limit code (modifyListing (·.emit instr comment kind)) fun _ _ => True := by
  refine fun s hs hcode => ⟨fun u s' hrun => ?_, nofun⟩
  cases hrun
  have hfollows : instr.Follows limit s.listing.instrs := fun n hn =>
    ⟨(h n hn).1, (h n hn).2.imp_right (·.mono hcode)⟩
  exact ⟨hs.write hfollows Listing.instrs_emit rfl, ⟨_, Listing.instrs_emit.symm⟩, trivial⟩

/-- A line on a register that can be worked on. -/
theorem memory {o : MemoryOp} {register : Register} (h : Ready limit code register) :
    Careful limit code
      (modifyListing (·.emit (.memory o (.register register)) comment)) fun _ _ => True :=
  emitted fun n hn => ⟨(h n hn).1, Or.inr (h n hn).2⟩

/-- The register of a variable can be worked on. -/
theorem registerOf (name : String) (start : Position) :
    Careful limit code (registerOf name start) fun register code' =>
      Ready limit code' register := by
  intro s hs _
  exact .get_bind (.ofScopes fun register hregister =>
    ⟨hs, List.prefix_rfl, hs.ready (Scopes.knows_of_getRegister hregister)⟩)

theorem storeRegister (h : Scopes.namedRegister? name info ≠ none) :
    Careful limit code (storeRegister name info start) fun register code' =>
      Ready limit code' register := by
  intro s hs _
  refine .withScopes fun register scopes hstep => ?_
  rcases Scopes.storeRegister_cases hstep with ⟨hknows, hkeeps⟩ | ⟨hnone, -⟩
  · exact ⟨hs.keeps hkeeps rfl, List.prefix_rfl, hs.ready hknows⟩
  · exact absurd hnone h

/-- A variable that is bound to a name. -/
theorem bindNamed (h : Scopes.namedRegister? name info ≠ none) :
    Careful limit code (Emit.bind name info start) fun register code' =>
      Ready limit code' register := by
  intro s hs _
  refine .withScopes fun register scopes hstep => ?_
  rcases Scopes.bind_cases hstep with ⟨⟨other, rfl⟩, hkeeps⟩ | ⟨hnone, -⟩
  · exact ⟨hs.keeps hkeeps rfl, List.prefix_rfl, .of_named other⟩
  · exact absurd hnone h

/-- A register without a variable. -/
theorem anonymous (start : Position) :
    Careful limit code (anonymous start) fun register _ => Below limit register := by
  intro s hs _
  refine .withScopes fun register scopes hstep => ?_
  obtain ⟨hlt, rfl, rfl⟩ := Scopes.allocate_eq_ok.mp hstep
  refine ⟨⟨hs.limit_eq, hs.live, hs.prudent⟩, List.prefix_rfl, fun n hn => ?_⟩
  cases hn
  exact hs.limit_eq ▸ hlt

end Careful

/-- An action hands out registers. -/
def Grants (limit : Nat) (registers : α → List Register) (m : Emit α) : Prop :=
  ∀ pending s, Emitter.Covers limit pending s → Meets m s fun a s' =>
    s'.Covers limit ((registers a).filterMap Register.number? ++ pending) ∧
      s'.listing = s.listing ∧ ∀ register ∈ registers a, Below limit register

/-- An action stores to registers. -/
def Fills (limit : Nat) (registers : List Register) (m : Emit Unit) : Prop :=
  ∀ s : Emitter, s.Covers limit (registers.filterMap Register.number?) →
    (∀ register ∈ registers, Below limit register) → Meets m s fun _ s' =>
      s'.Covers limit [] ∧ s.listing.instrs <+: s'.listing.instrs ∧
        ∀ register ∈ registers, Ready limit s'.listing.instrs register

namespace Grants

variable {limit : Nat} {start : Position}

theorem withScopes {step : Scopes → Except ScopeError (Register × Scopes)}
    (h : ∀ scopes register scopes', step scopes = .ok (register, scopes') →
      scopes.Grants register scopes') :
    Grants limit (fun register => [register]) (withScopes step start) := by
  intro pending s hs
  refine .withScopes fun register scopes hstep => ?_
  obtain ⟨hs', hbelow⟩ : ({ s with scopes } : Emitter).Covers limit
      (register.number?.toList ++ pending) ∧ Below limit register := hs.grants (h _ _ _ hstep) rfl
  refine ⟨?_, rfl, by simpa using hbelow⟩
  cases hnumber : register.number? <;> simpa [hnumber] using hs'

theorem storeRegister (name : String) (info : VarInfo) (start : Position) :
    Grants limit (fun register => [register]) (storeRegister name info start) :=
  withScopes fun _ _ _ h => (Scopes.storeRegister_cases h).imp_right (·.2)

theorem nil : Grants limit (·.map Prod.snd) (pure [] : Emit (List (Script.Ident × Register))) :=
  fun _ _ hs => .pure ⟨hs, rfl, nofun⟩

/-- A register for one variable, and then those for others. -/
theorem cons {m : Emit Register} {rest : Emit (List (Script.Ident × Register))} {id : Script.Ident}
    (hm : Grants limit (fun register => [register]) m)
    (hrest : Grants limit (·.map Prod.snd) rest) :
    Grants limit (·.map Prod.snd)
      (m >>= fun register => rest >>= fun others => pure ((id, register) :: others)) := by
  intro pending s hs
  refine (hm pending s hs).bind ?_
  rintro register s₁ ⟨hs₁, hlisting₁, hbelow₁⟩
  refine (hrest _ s₁ hs₁).bind ?_
  rintro others s₂ ⟨hs₂, hlisting₂, hbelow₂⟩
  refine .pure ⟨hs₂.of_subset ?_, hlisting₂.trans hlisting₁, ?_⟩
  · intro n hn
    grind
  · simpa using ⟨hbelow₁ register List.mem_cons_self, by simpa using hbelow₂⟩

end Grants

theorem meets_store {limit : Nat} {pending : List Nat} (pending' : List Nat) {s : Emitter}
    {register : Register} {comment : String} {alpha : Bool} (hs : s.Covers limit pending)
    (hbelow : Below limit register)
    (hpending : ∀ n ∈ pending, n ∈ pending' ∨ register = .numbered n) :
    Meets (store register comment alpha) s fun _ s' => s'.Covers limit pending' ∧
      s.listing.instrs <+: s'.listing.instrs ∧ Ready limit s'.listing.instrs register := by
  refine ⟨fun u s' hrun => ?_, nofun⟩
  cases hrun
  have hcode : (s.listing.emitStore register (some comment) alpha).instrs = s.listing.instrs ++
      [if alpha then .storeAlpha register else .store register] := Listing.instrs_emit
  exact And.imp_right (And.intro ⟨_, hcode.symm⟩) (hs.store hbelow hpending hcode rfl)

namespace Fills

variable {limit : Nat}

theorem store (register : Register) (comment : String) (alpha : Bool) :
    Fills limit [register] (store register comment alpha) := by
  intro s hs hbelow
  refine (meets_store [] hs (hbelow register List.mem_cons_self) fun n hn => Or.inr ?_).imp ?_
  · exact Register.eq_numbered_of_number? (by simpa using hn)
  · rintro _ s' ⟨hs', hgrows, hready⟩
    exact ⟨hs', hgrows, by simpa using hready⟩

theorem storeDown (entries : List (Script.Ident × Register)) :
    Fills limit (entries.map Prod.snd) (storeDown entries) := by
  induction entries with
  | nil => exact fun s hs _ => .pure ⟨hs, List.prefix_rfl, nofun⟩
  | cons entry rest ih =>
    obtain ⟨id, register⟩ := entry
    intro s hs hbelow
    -- the first register no longer waits, and the line after the store needs none
    have hwaits : ∀ n ∈ (register :: rest.map Prod.snd).filterMap Register.number?,
        n ∈ (rest.map Prod.snd).filterMap Register.number? ∨ register = .numbered n := by
      intro n hn
      obtain ⟨r, hr, hnumber⟩ := List.mem_filterMap.mp hn
      rcases List.mem_cons.mp hr with rfl | hr
      · exact Or.inr (Register.eq_numbered_of_number? hnumber)
      · exact Or.inl (List.mem_filterMap.mpr ⟨r, hr, hnumber⟩)
    rw [List.map_cons, List.forall_mem_cons] at hbelow
    refine (meets_store _ hs hbelow.1 hwaits).bind ?_
    rintro _ s₁ ⟨hs₁, hgrows₁, hready⟩
    have hroll : Meets (op .rollDown) s₁ fun _ s₂ =>
        s₂ = { s₁ with listing := s₁.listing.emit (.op .rollDown) } := .pure rfl
    refine hroll.bind ?_
    rintro _ _ rfl
    have hplain : (Instr.op .rollDown).Follows limit s₁.listing.instrs := nofun
    have hgrows₂ : s₁.listing.instrs <+: (s₁.listing.emit (.op .rollDown)).instrs :=
      ⟨_, Listing.instrs_emit.symm⟩
    have hs₂ : ({ s₁ with listing := s₁.listing.emit (.op .rollDown) } : Emitter).Covers limit
        ((rest.map Prod.snd).filterMap Register.number?) :=
      hs₁.write hplain Listing.instrs_emit rfl
    refine (ih _ hs₂ hbelow.2).imp ?_
    rintro _ s' ⟨hs', hgrows', hall⟩
    refine ⟨hs', (hgrows₁.trans hgrows₂).trans hgrows', ?_⟩
    rw [List.map_cons, List.forall_mem_cons]
    exact ⟨hready.mono (hgrows₂.trans hgrows'), hall⟩

/-- Registers are stored to in the order of the stack, the last one first. -/
theorem storeUp (entries : List (Script.Ident × Register)) :
    Fills limit (entries.map Prod.snd) (Emit.storeDown entries.reverse) := by
  intro s hs hbelow
  have hmem : ∀ {register}, register ∈ entries.reverse.map Prod.snd ↔
      register ∈ entries.map Prod.snd := by
    simp
  refine (storeDown entries.reverse s (hs.of_subset fun n hn => by simpa using hn)
    fun r hr => hbelow r (hmem.mp hr)).imp ?_
  rintro _ s' ⟨hs', hgrows, hready⟩
  exact ⟨hs', hgrows, fun r hr => hready r (hmem.mpr hr)⟩

end Fills

namespace Careful

variable {limit : Nat} {code : List Instr} {R : β → List Instr → Prop}

theorem store {register : Register} {comment : String} {alpha : Bool} (h : Below limit register) :
    Careful limit code (store register comment alpha) fun _ code' =>
      Ready limit code' register :=
  fun _ hs _ => meets_store _ hs h fun _ hn => Or.inl hn

/-- Registers are handed out and stored to before anything else. -/
theorem granted {registers : α → List Register} {m : Emit α} {n : α → Emit Unit} {f : α → Emit β}
    (hm : Grants limit registers m) (hn : ∀ a, Fills limit (registers a) (n a))
    (hf : ∀ a code', code <+: code' → (∀ register ∈ registers a, Ready limit code' register) →
      Careful limit code' (f a) R) :
    Careful limit code (m >>= fun a => n a >>= fun _ => f a) R := by
  intro s hs hcode
  -- the registers wait for their stores from here to the end of the second action
  refine (hm [] s hs).bind ?_
  rintro a s₁ ⟨hs₁, hlisting, hbelow⟩
  refine (hn a s₁ (by simpa using hs₁) hbelow).bind ?_
  rintro _ s₂ ⟨hs₂, hgrows, hready⟩
  rw [hlisting] at hgrows
  refine (hf a _ (hcode.trans hgrows) hready s₂ hs₂ List.prefix_rfl).imp ?_
  rintro b s' ⟨hs', hgrows', hvalue⟩
  exact ⟨hs', hgrows.trans hgrows', hvalue⟩

end Careful

end Emit

end Keystroke
