import Mathlib.Data.List.Sort
import Keystroke.Proofs.LabelDemand
import Keystroke.Proofs.LabelTracking
import Keystroke.Proofs.StraightCode

/-!
# Accounts of forward labels

Forward labels are handed out when code first jumps to them and come back when they are placed, some
of them at the end of a loop far away. What counts for them is the *account* of a state: which
labels are free, what the loops around the current statement have, and how deep the scopes are.
Every statement settles its account: the labels that are missing after it are those that it has
recorded in the loop around it.
-/

namespace Keystroke

/-! ### Loops -/

namespace Loop

/-- The forward labels that a loop holds until its end. -/
def held (loop : Loop) : List Nat :=
  loop.continueLabel.toList ++ loop.exitLabel.toList

/-- What a loop has already. -/
def marks (loop : Loop) : LoopMarks :=
  ⟨loop.exitLabel.isSome, loop.continuesAtEntry || loop.continueLabel.isSome⟩

theorem count_marks (loop : Loop) : loop.marks.count = loop.exitLabel.toList.length +
    if loop.continuesAtEntry then 1 else loop.continueLabel.toList.length := by
  obtain ⟨entry, continuesAtEntry, continueLabel, exitLabel⟩ := loop
  cases continuesAtEntry <;> cases continueLabel <;> cases exitLabel <;> rfl

/-- Labels have been recorded in a loop, each in a place that was empty. -/
structure Records (loop : Loop) (new : List Nat) (loop' : Loop) : Prop where
  entry : loop'.entry = loop.entry
  continuesAtEntry : loop'.continuesAtEntry = loop.continuesAtEntry
  exitLabel : ∀ label ∈ loop.exitLabel, loop'.exitLabel = some label
  continueLabel : ∀ label ∈ loop.continueLabel, loop'.continueLabel = some label
  /-- A loop that goes on at its top has no label for that. -/
  atEntry : loop.continuesAtEntry = true → loop'.continueLabel = loop.continueLabel
  held : loop'.held.Perm (new ++ loop.held)

variable {loop loop' loop'' : Loop} {new new' : List Nat} {label : Nat}

namespace Records

theorem refl (loop : Loop) : loop.Records [] loop :=
  ⟨rfl, rfl, fun _ h => h, fun _ h => h, fun _ => rfl, .refl _⟩

theorem trans (h : loop.Records new loop') (h' : loop'.Records new' loop'') :
    loop.Records (new ++ new') loop'' where
  entry := h'.entry.trans h.entry
  continuesAtEntry := h'.continuesAtEntry.trans h.continuesAtEntry
  exitLabel label hlabel := h'.exitLabel label (h.exitLabel label hlabel)
  continueLabel label hlabel := h'.continueLabel label (h.continueLabel label hlabel)
  atEntry hentry :=
    (h'.atEntry (h.continuesAtEntry.trans hentry)).trans (h.atEntry hentry)
  held := by
    refine h'.held.trans ((h.held.append_left new').trans ?_)
    rw [← List.append_assoc]
    exact List.perm_append_comm.append_right _

theorem exit (label : Nat) (hexit : loop.exitLabel = none) :
    loop.Records [label] { loop with exitLabel := some label } where
  entry := rfl
  continuesAtEntry := rfl
  exitLabel other hother := by
    rw [hexit] at hother
    cases hother
  continueLabel _ hother := hother
  atEntry _ := rfl
  held := by
    simp only [Loop.held, hexit, Option.toList_some, Option.toList_none, List.append_nil]
    exact List.perm_append_comm

theorem again (label : Nat) (hentry : loop.continuesAtEntry = false)
    (hcontinue : loop.continueLabel = none) :
    loop.Records [label] { loop with continueLabel := some label } where
  entry := rfl
  continuesAtEntry := rfl
  exitLabel _ hother := hother
  continueLabel other hother := by
    rw [hcontinue] at hother
    cases hother
  atEntry hentry' := by
    rw [hentry] at hentry'
    cases hentry'
  held := by simp [Loop.held, hcontinue]

theorem count (h : loop.Records new loop') : new.length + loop.marks.count = loop'.marks.count := by
  have hheld := h.held.length_eq
  simp only [Loop.held, List.length_append] at hheld
  rw [count_marks, count_marks, h.continuesAtEntry]
  cases hentry : loop.continuesAtEntry with
  | true =>
    rw [h.atEntry hentry] at hheld
    simp only [if_true]
    omega
  | false =>
    simp only [Bool.false_eq_true, if_false]
    omega

theorem eq_of_nil (h : loop.Records [] loop') : loop' = loop := by
  have hheld := h.held.length_eq
  obtain ⟨entry, continuesAtEntry, continueLabel, exitLabel⟩ := loop
  obtain ⟨entry', continuesAtEntry', continueLabel', exitLabel'⟩ := loop'
  obtain rfl : entry' = entry := h.entry
  obtain rfl : continuesAtEntry' = continuesAtEntry := h.continuesAtEntry
  have hexit := h.exitLabel
  have hcontinue := h.continueLabel
  cases continueLabel <;> cases continueLabel' <;> cases exitLabel <;> cases exitLabel' <;>
    simp_all [Loop.held]

end Records

/-- Labels have been recorded in the innermost of some loops, and the others are as before. -/
inductive RecordsIn : List Loop → List Nat → List Loop → Prop where
  | outside : RecordsIn [] [] []
  | inside {loop loop' : Loop} {new : List Nat} {outer : List Loop} (h : loop.Records new loop') :
      RecordsIn (loop :: outer) new (loop' :: outer)

namespace RecordsIn

variable {loops loops' loops'' : List Loop}

theorem refl : ∀ loops : List Loop, RecordsIn loops [] loops
  | [] => .outside
  | loop :: _ => .inside (.refl loop)

theorem trans (h : RecordsIn loops new loops') (h' : RecordsIn loops' new' loops'') :
    RecordsIn loops (new ++ new') loops'' := by
  cases h with
  | outside => exact h'
  | inside h =>
    cases h' with
    | inside h' => exact .inside (h.trans h')

theorem eq_of_nil (h : RecordsIn loops [] loops') : loops' = loops := by
  cases h with
  | outside => rfl
  | inside h => rw [h.eq_of_nil]

theorem exists_cons {outer : List Loop} (h : RecordsIn (loop :: outer) new loops') :
    ∃ loop', loops' = loop' :: outer ∧ loop.Records new loop' := by
  cases h with
  | inside h => exact ⟨_, rfl, h⟩

end RecordsIn

end Loop

/-! ### Accounts -/

/-- The free forward labels, in ascending order, with the loops around the current statement and the
number of scopes. -/
structure Account where
  free : List Nat
  ascending : free.Pairwise (· < ·)
  loops : List Loop
  depth : Nat

/-- The account of a state. -/
def Emitter.Has (s : Emitter) (account : Account) : Prop :=
  (∃ pools, s.jumps = .pooled pools ∧ pools.freeSkips = account.free) ∧
    s.loops = account.loops ∧ s.scopes.depth = account.depth

namespace Account

variable {account account' account'' : Account} {given given' new new' : List Nat} {label : Nat}

theorem nodup (account : Account) : account.free.Nodup :=
  account.ascending.imp Nat.ne_of_lt

/-- What the innermost loop has already. -/
def marks (account : Account) : LoopMarks :=
  match account.loops with
  | [] => .outside
  | loop :: _ => loop.marks

/-- Between two accounts, labels have been handed out that are still in use: those in `given`, and
those in `new`, which are recorded in the innermost loop. Nothing else has changed. -/
structure Owes (account : Account) (given new : List Nat) (account' : Account) : Prop where
  free : account.free.Perm (given ++ (new ++ account'.free))
  loops : Loop.RecordsIn account.loops new account'.loops
  depth : account'.depth = account.depth

namespace Owes

theorem refl (account : Account) : account.Owes [] [] account :=
  ⟨.refl _, .refl _, rfl⟩

theorem perm (h : account.Owes given new account') (hgiven : given.Perm given') :
    account.Owes given' new account' :=
  { h with free := h.free.trans (hgiven.append_right _) }

/-- Labels that are recorded on the way are recorded in the end. -/
theorem trans (h : account.Owes given new account') (h' : account'.Owes [] new' account'') :
    account.Owes given (new ++ new') account'' where
  free := by
    rw [List.append_assoc]
    exact h.free.trans ((h'.free.append_left new).append_left given)
  loops := h.loops.trans h'.loops
  depth := h'.depth.trans h.depth

theorem take (h : account.Owes given new account')
    (hfree : account'.free.Perm (label :: account''.free))
    (hloops : account''.loops = account'.loops) (hdepth : account''.depth = account'.depth) :
    account.Owes (label :: given) new account'' where
  free := by
    refine h.free.trans (((hfree.append_left new).append_left given).trans ?_)
    exact (List.perm_middle.append_left given).trans List.perm_middle
  loops := hloops ▸ h.loops
  depth := hdepth.trans h.depth

theorem release (h : account.Owes (label :: given) new account')
    (hfree : account''.free.Perm (label :: account'.free))
    (hloops : account''.loops = account'.loops) (hdepth : account''.depth = account'.depth) :
    account.Owes given new account'' where
  free := by
    refine h.free.trans (List.Perm.trans ?_ ((hfree.append_left new).append_left given).symm)
    exact List.perm_middle.symm.trans (List.perm_middle.symm.append_left given)
  loops := hloops ▸ h.loops
  depth := hdepth.trans h.depth

theorem notMem_free (h : account.Owes given new account') (hlabel : label ∈ given) :
    label ∉ account'.free := by
  have hnodup := h.free.nodup_iff.mp account.nodup
  exact fun hfree => List.disjoint_of_nodup_append hnodup hlabel (List.mem_append_right new hfree)

/-- The labels that are free in the end are those that were free before and are not in use. -/
theorem mem_free_iff (h : account.Owes [] new account') :
    label ∈ account'.free ↔ label ∈ account.free ∧ label ∉ new := by
  have hnodup : (new ++ account'.free).Nodup := h.free.nodup_iff.mp account.nodup
  have hdisjoint := List.disjoint_of_nodup_append hnodup
  rw [h.free.mem_iff, List.nil_append, List.mem_append]
  constructor
  · exact fun hfree => ⟨Or.inr hfree, fun hnew => hdisjoint hnew hfree⟩
  · rintro ⟨hnew | hfree, hnot⟩
    · exact (hnot hnew).elim
    · exact hfree

theorem length (h : account.Owes given new account') :
    account.free.length = given.length + new.length + account'.free.length := by
  have := h.free.length_eq
  simp only [List.length_append] at this
  omega

/-- The labels that are recorded are those that the innermost loop had no mark for. -/
theorem count (h : account.Owes given new account') :
    new.length + account.marks.count = account'.marks.count := by
  have hloops := h.loops
  unfold marks
  generalize account.loops = loops at hloops
  generalize account'.loops = loops' at hloops
  cases hloops with
  | outside => rfl
  | inside h => exact h.count

/-- The labels that are recorded are those that some code leaves to the loop. -/
theorem left_eq {demand : Demand} (h : account.Owes given new account')
    (hmarks : account'.marks = demand.after account.marks) :
    demand.left account.marks = new.length := by
  have hcount := h.count
  rw [Demand.left, ← hmarks]
  omega

theorem marks_eq (h : account.Owes given [] account') : account'.marks = account.marks := by
  unfold marks
  rw [h.loops.eq_of_nil]

end Owes

/-- Some code has settled its account: the labels in use after it are recorded in the innermost
loop, and there were as many free ones as it demands. -/
structure Settles (account : Account) (demand : Demand) (account' : Account) : Prop where
  owes : ∃ new, account.Owes [] new account'
  marks : account'.marks = demand.after account.marks
  enough : demand.peak account.marks ≤ account.free.length

/-- There are fewer free labels than some code demands. -/
def Lacks (account : Account) (demand : Demand) : Prop :=
  account.free.length < demand.peak account.marks

end Account

namespace Emit

variable {α β : Type} {m : Emit α} {f : α → Emit β} {account : Account}
  {post mid : α → Account → Prop} {dry : Prop} {labels : FunctionLabels}
  {loop : Loop} {demand : Demand} {body : Emit Unit} {offset : Position}

/-- From every state with an account, an action that succeeds comes to a state with an account that
satisfies `post`, and forward labels run out only if `dry` holds. -/
def Runs (m : Emit α) (account : Account) (post : α → Account → Prop) (dry : Prop) : Prop :=
  ∀ s : Emitter, s.Has account →
    (∀ a s', m.run s = .ok (a, s') → ∃ account', s'.Has account' ∧ post a account') ∧
    ∀ e, m.run s = .error e → e.fault = .jumps .skip → dry

namespace Runs

theorem bind {post : β → Account → Prop} {dry' : Prop} (hm : Runs m account mid dry')
    (hdry : dry' → dry) (hf : ∀ a account', mid a account' → Runs (f a) account' post dry) :
    Runs (m >>= f) account post dry := by
  intro s hs
  obtain ⟨hok, herror⟩ := hm s hs
  constructor
  · intro b s' hrun
    obtain ⟨a, s₁, h₁, h₂⟩ := run_bind.mp hrun
    obtain ⟨account₁, hs₁, hmid⟩ := hok a s₁ h₁
    exact (hf a account₁ hmid s₁ hs₁).1 b s' h₂
  · intro e hrun hfault
    rcases run_bind_error.mp hrun with h₁ | ⟨a, s₁, h₁, h₂⟩
    · exact hdry (herror e h₁ hfault)
    · obtain ⟨account₁, hs₁, hmid⟩ := hok a s₁ h₁
      exact (hf a account₁ hmid s₁ hs₁).2 e h₂ hfault

theorem mono {post' : α → Account → Prop} {dry' : Prop} (h : Runs m account post dry)
    (hpost : ∀ a account', post a account' → post' a account') (hdry : dry → dry') :
    Runs m account post' dry' := by
  intro s hs
  refine ⟨fun a s' hrun => ?_, fun e hrun hfault => hdry ((h s hs).2 e hrun hfault)⟩
  obtain ⟨account', hs', hpost'⟩ := (h s hs).1 a s' hrun
  exact ⟨account', hs', hpost a account' hpost'⟩

theorem pure {a : α} (h : post a account) : Runs (pure a) account post dry := by
  intro s hs
  constructor
  · rintro _ _ ⟨⟩
    exact ⟨account, hs, h⟩
  · rintro _ ⟨⟩

theorem fail {fault : Fault} {start : Position} (h : fault ≠ .jumps .skip) :
    Runs (Emit.fail fault start) account post dry := by
  intro s _
  constructor
  · rintro _ _ ⟨⟩
  · rintro _ ⟨⟩ hfault
    exact (h hfault).elim

theorem get_bind {f : Emitter → Emit α}
    (hf : ∀ s : Emitter, s.Has account → Runs (f s) account post dry) :
    Runs (get >>= f) account post dry :=
  fun s hs => hf s hs s hs

theorem of_modify {f : Emitter → Emitter} {account' : Account} {post : Unit → Account → Prop}
    (hf : ∀ s : Emitter, s.Has account → (f s).Has account') (hpost : post () account') :
    Runs (modify f) account post dry := by
  intro s hs
  constructor
  · rintro _ _ ⟨⟩
    exact ⟨account', hf s hs, hpost⟩
  · rintro _ ⟨⟩

theorem modify_bind {f : Emitter → Emitter} {g : Unit → Emit α} {account' : Account}
    (hf : ∀ s : Emitter, s.Has account → (f s).Has account') (hg : Runs (g ()) account' post dry) :
    Runs ((modify f : Emit Unit) >>= g) account post dry :=
  fun s hs => hg (f s) (hf s hs)

end Runs

/-- An action that takes no forward label and leaves the loops alone. -/
def Idles (m : Emit α) : Prop :=
  ∀ account, Runs m account (fun _ account' => account' = account) False

namespace Idles

theorem bind {post : β → Account → Prop} (hm : Idles m) (hf : ∀ a, Runs (f a) account post dry) :
    Runs (m >>= f) account post dry :=
  (hm account).bind False.elim fun a _ h => h ▸ hf a

theorem of_straight (labels : FunctionLabels) (h : Straight labels .any m) : Idles m := by
  intro account s hs
  constructor
  · intro a s' hrun
    obtain ⟨code, scopes, -, -, hrepeats⟩ := h.repeats s a s' hrun
    have hdepth := h.level s a s' hrun
    rw [hrepeats s rfl rfl] at hrun
    cases hrun
    exact ⟨account, ⟨hs.1, hs.2.1, hdepth.trans hs.2.2⟩, rfl⟩
  · intro e hrun hfault
    exact (h.quiet s e .skip hrun hfault).elim

theorem expr (hlabels : labels.Linkable) (e : Script.Expr) : Idles (Emit.expr labels e) :=
  of_straight labels (straight_expr hlabels e)

theorem listing (f : Listing → Listing) : Idles (modifyListing f) :=
  fun _ => .of_modify (fun _ hs => hs) rfl

theorem line (instr : Instr) : Idles (Emit.line instr) :=
  listing _

theorem op (o : Op) : Idles (Emit.op o) :=
  line _

theorem jump (label : Nat) : Idles (Emit.jump label) :=
  line _

theorem place (label : Nat) : Idles (Emit.place label) :=
  line _

theorem loopLabel (start : Position) : Idles (loopLabel start) := by
  rintro account s ⟨⟨pools, hpools, hfree⟩, hrest⟩
  constructor
  · intro a s' hrun
    obtain ⟨jumps, hstep, rfl⟩ := run_withJumps.mp hrun
    rw [hpools] at hstep
    obtain ⟨_, htake, rfl⟩ := LabelSupply.takeLoop_pooled.mp hstep
    obtain ⟨-, -, rfl⟩ := JumpLabels.takeLoop_eq_ok.mp htake
    exact ⟨account, ⟨⟨_, rfl, hfree⟩, hrest⟩, rfl⟩
  · intro e hrun hfault
    obtain ⟨pool, hstep, rfl⟩ := run_withJumps_error.mp hrun
    cases hfault
    rw [hpools] at hstep
    rcases bind_eq_error.mp hstep with htake | ⟨_, _, htake⟩
    · unfold JumpLabels.takeLoop at htake
      split at htake <;> cases htake
    · cases htake

end Idles

/-! ### Taking labels and giving them back -/

namespace Runs

variable {start account' : Account} {given new : List Nat} {label : Nat}

theorem skipLabel (offset : Position) (h : start.Owes given new account) :
    Runs (skipLabel offset) account
      (fun label account' => start.Owes (label :: given) new account' ∧
        account'.marks = account.marks) (account.free = []) := by
  rintro s ⟨⟨pools, hpools, hfree⟩, hrest⟩
  have hascending := account.ascending
  constructor
  · intro a s' hrun
    obtain ⟨jumps, hstep, rfl⟩ := run_withJumps.mp hrun
    rw [hpools] at hstep
    obtain ⟨_, htake, rfl⟩ := LabelSupply.takeSkip_pooled.mp hstep
    obtain ⟨rest, hskips, rfl⟩ := JumpLabels.takeSkip_eq_ok.mp htake
    rw [← hfree, hskips] at hascending
    refine ⟨⟨rest, (List.pairwise_cons.mp hascending).2, account.loops, account.depth⟩,
      ⟨⟨_, rfl, rfl⟩, hrest⟩, h.take ?_ rfl rfl, rfl⟩
    rw [← hfree, hskips]
  · intro e hrun _
    obtain ⟨pool, hstep, rfl⟩ := run_withJumps_error.mp hrun
    rw [hpools] at hstep
    rcases bind_eq_error.mp hstep with htake | ⟨_, _, htake⟩
    · rw [← hfree, (JumpLabels.takeSkip_eq_error.mp htake).1]
    · cases htake

theorem placeSkip (h : start.Owes (label :: given) new account) :
    Runs (placeSkip label) account
      (fun _ account' => start.Owes given new account' ∧ account'.marks = account.marks) False := by
  have hlabel : label ∉ account.free := h.notMem_free List.mem_cons_self
  let released : Account := ⟨JumpLabels.insertAscending label account.free,
    JumpLabels.sorted_insertAscending account.ascending hlabel, account.loops, account.depth⟩
  have hreleased : ∀ s : Emitter, s.Has account →
      Emitter.Has { s with jumps := s.jumps.release label } released := by
    rintro s ⟨⟨pools, hpools, hfree⟩, hrest⟩
    refine ⟨⟨pools.release label, ?_, ?_⟩, hrest⟩
    · rw [hpools]
      rfl
    · rw [JumpLabels.release, hfree, if_neg (by simpa using hlabel)]
  exact (Idles.place label).bind fun _ =>
    .of_modify hreleased ⟨h.release (JumpLabels.insertAscending_perm _ _) rfl rfl, rfl⟩

theorem placeSkip? {label : Option Nat} (h : start.Owes (label.toList ++ given) new account) :
    Runs (placeSkip? label) account
      (fun _ account' => start.Owes given new account' ∧ account'.marks = account.marks) False := by
  cases label with
  | none => exact .pure ⟨h, rfl⟩
  | some n => exact .placeSkip h

end Runs

/-! ### Control flow -/

/-- An action settles its account, and labels run out in it only if there were fewer than it
demands. -/
def Balanced (demand : Demand) (m : Emit Unit) : Prop :=
  ∀ account : Account,
    Runs m account (fun _ account' => account.Settles demand account') (account.Lacks demand)

namespace Balanced

variable {demand first second : Demand} {m : Emit Unit} {fault : Fault} {offset : Position}

theorem of_idles (h : Idles m) : Balanced .none m := fun account =>
  (h account).mono (fun _ _ hsame => hsame ▸ ⟨⟨[], .refl _⟩, rfl, Nat.zero_le _⟩) False.elim

theorem of_straight (labels : FunctionLabels) (h : Straight labels .any m) : Balanced .none m :=
  of_idles (.of_straight labels h)

theorem fail (h : fault ≠ .jumps .skip) :
    Balanced demand (Emit.fail fault offset) :=
  fun _ => .fail h

theorem idles_bind {n : Emit α} {f : α → Emit Unit} (hn : Idles n)
    (hf : ∀ a, Balanced demand (f a)) : Balanced demand (n >>= f) :=
  fun account => hn.bind fun a => hf a account

/-- Labels that are recorded in the loop are no longer free for what follows. -/
theorem bind {f : Unit → Emit Unit} (hm : Balanced first m) (hf : Balanced second (f ())) :
    Balanced (first.andThen second) (m >>= f) := by
  intro account
  refine .bind (hm account) (fun hfew => Nat.lt_of_lt_of_le hfew (Nat.le_max_left _ _)) ?_
  rintro ⟨⟩ account' ⟨⟨new, hnew⟩, hafter, hpeak⟩
  have hleft := hnew.left_eq hafter
  have hlength := hnew.length
  rw [List.length_nil] at hlength
  refine (hf account').mono ?_ fun hfew => ?_
  · rintro ⟨⟩ account'' ⟨⟨new', hnew'⟩, hafter', hpeak'⟩
    rw [hafter] at hafter' hpeak'
    refine ⟨⟨new ++ new', hnew.trans hnew'⟩, hafter', Nat.max_le.mpr ⟨hpeak, ?_⟩⟩
    omega
  · rw [Account.Lacks, hafter] at hfew
    refine Nat.lt_of_lt_of_le ?_ (Nat.le_max_right _ _)
    omega

end Balanced

/-- The first branch of a condition: the label of the second one is in use throughout. -/
theorem Runs.branch {test : Emit Unit} {rest : Nat → Emit Unit} {post : Unit → Account → Prop}
    (htest : Idles test) (hbody : Balanced demand body) (hdry : account.Lacks demand.ifThen → dry)
    (hrest : ∀ label new account', account.Owes [label] new account' →
      account'.marks = demand.after account.marks → demand.ifThen.peak account.marks ≤
        account.free.length → Runs (rest label) account' post dry) :
    Runs (do
      test
      let thenLabel ← Emit.skipLabel offset
      let elseLabel ← Emit.skipLabel offset
      Emit.op .isNonzero
      Emit.jump thenLabel
      Emit.jump elseLabel
      Emit.placeSkip thenLabel
      body
      rest elseLabel) account post dry := by
  refine htest.bind fun _ => ?_
  -- two labels are held at once; the first is free again in front of the body
  have htwo : account.free.length < 2 → dry := fun hfew =>
    hdry (Nat.lt_of_lt_of_le hfew (Nat.le_max_left _ _))
  refine .bind (.skipLabel offset (.refl account)) (fun hfree => htwo ?_)
    fun thenLabel account₁ ⟨h₁, _⟩ => ?_
  · simp [hfree]
  refine .bind (.skipLabel offset h₁) (fun hfree => htwo ?_) fun elseLabel account₂ ⟨h₂, _⟩ => ?_
  · simp [h₁.length, hfree]
  refine (Idles.op _).bind fun _ => (Idles.jump _).bind fun _ => (Idles.jump _).bind fun _ => ?_
  refine .bind (.placeSkip (h₂.perm (.swap _ _ _))) False.elim fun _ account₃ ⟨h₃, _⟩ => ?_
  have hmarks := h₃.marks_eq
  have hlength₂ := h₂.length
  have hlength₃ := h₃.length
  simp only [List.length_cons, List.length_nil] at hlength₂ hlength₃
  refine .bind (hbody account₃) (fun hfew => hdry ?_) ?_
  · rw [Account.Lacks, hmarks] at hfew
    refine Nat.lt_of_lt_of_le ?_ (Nat.le_max_right _ _)
    omega
  · rintro ⟨⟩ account₄ ⟨⟨new, hnew⟩, hafter, hpeak⟩
    rw [hmarks] at hafter hpeak
    refine hrest elseLabel new account₄ (h₃.trans hnew) hafter (Nat.max_le.mpr ⟨?_, ?_⟩)
    · omega
    · omega

theorem Runs.loopBody {start : Account} {given new : List Nat} (hbody : Balanced demand body)
    (h : start.Owes (loop.held ++ given) new account) :
    Runs (loopBody loop body) account
      (fun loop' account' => start.Owes (loop'.held ++ given) new account' ∧
        (∃ recorded, loop.Records recorded loop') ∧ demand.peak loop.marks ≤ account.free.length)
      (account.free.length < demand.peak loop.marks) := by
  let inner : Account := { account with loops := loop :: account.loops }
  have hinner : ∀ s : Emitter, s.Has account →
      Emitter.Has { s with loops := loop :: s.loops } inner :=
    fun s hs => ⟨hs.1, congrArg (loop :: ·) hs.2.1, hs.2.2⟩
  refine .modify_bind hinner (.bind (hbody inner) id ?_)
  rintro ⟨⟩ account₁ ⟨⟨recorded, hrecorded⟩, -, hpeak⟩
  obtain ⟨loop', hloops, hrecords⟩ := hrecorded.loops.exists_cons
  refine .get_bind fun s hs => ?_
  rw [hs.2.1.trans hloops]
  let closed : Account := { account₁ with loops := account.loops }
  have hclosed : ∀ s : Emitter, s.Has account₁ →
      Emitter.Has { s with loops := account.loops } closed :=
    fun s hs => ⟨hs.1, rfl, hs.2.2⟩
  refine .modify_bind hclosed (.pure ?_)
  refine ⟨⟨?_, h.loops, hrecorded.depth.trans h.depth⟩, ⟨recorded, hrecords⟩, hpeak⟩
  -- each label is in use once, before the loop or in it
  refine List.perm_iff_count.mpr fun label => ?_
  show start.free.count label = (loop'.held ++ given ++ (new ++ account₁.free)).count label
  have hstart := h.free.count_eq label
  have hbefore : account.free.count label = (recorded ++ account₁.free).count label :=
    hrecorded.free.count_eq label
  have hheld := hrecords.held.count_eq label
  simp only [List.count_append] at hstart hbefore hheld ⊢
  omega

theorem Runs.closeCounted {account' : Account} (counter : Register)
    (h : account.Owes loop.held [] account') :
    Runs (closeCounted counter loop) account' (fun _ closed => account.Owes [] [] closed)
      False := by
  refine .bind (.placeSkip? h) id fun _ account₁ ⟨h₁, _⟩ => ?_
  rw [← List.append_nil loop.exitLabel.toList] at h₁
  exact (Idles.line _).bind fun _ => (Idles.jump _).bind fun _ =>
    (Runs.placeSkip? h₁).mono (fun _ _ h => h.1) id

theorem Runs.record {loop' : Nat → Loop} {outer : List Loop}
    (hloops : account.loops = loop :: outer)
    (hrecords : ∀ label, loop.Records [label] (loop' label)) :
    Runs (jumpForward offset none loop') account
      (fun _ account' => ∃ label, account.Owes [] [label] account' ∧
        account'.loops = loop' label :: outer) (account.free = []) := by
  refine .bind (.skipLabel offset (.refl account)) id fun label account₁ ⟨h₁, _⟩ => ?_
  have hloops₁ : account₁.loops = loop :: outer := h₁.loops.eq_of_nil.trans hloops
  let changed : Account := { account₁ with loops := loop' label :: outer }
  have hchanged : ∀ s : Emitter, s.Has account₁ →
      Emitter.Has { s with loops := loop' label :: s.loops.drop 1 } changed := by
    intro s hs
    refine ⟨hs.1, ?_, hs.2.2⟩
    rw [hs.2.1, hloops₁]
    rfl
  refine .modify_bind hchanged (((Idles.jump label) changed).mono ?_ False.elim)
  rintro ⟨⟩ _ rfl
  refine ⟨label, ⟨h₁.free, ?_, h₁.depth⟩, rfl⟩
  rw [hloops]
  exact .inside (hrecords label)

namespace Balanced

variable {demand orElse : Demand} {test body branch : Emit Unit} {offset : Position} {loop : Loop}
  {account' : Account} {target : Script.Ident}

theorem ifThen (htest : Idles test) (hbody : Balanced demand body) :
    Balanced demand.ifThen (Emit.ifElse test offset body none) := by
  intro account
  refine .branch htest hbody id fun label new account' howes hafter hpeak => ?_
  refine (Runs.placeSkip howes).mono ?_ False.elim
  rintro ⟨⟩ account'' ⟨hsettled, hmarks⟩
  exact ⟨⟨new, hsettled⟩, hmarks.trans hafter, hpeak⟩

theorem ifElse (htest : Idles test) (hbody : Balanced demand body)
    (hbranch : Balanced orElse branch) :
    Balanced (demand.ifElse orElse) (Emit.ifElse test offset body (some branch)) := by
  intro account
  refine .branch htest hbody (fun hfew => Nat.lt_of_lt_of_le hfew (Nat.le_max_left _ _))
    fun elseLabel new account₁ h₁ hafter hpeak => ?_
  have hleft := h₁.left_eq hafter
  have hlength := h₁.length
  simp only [List.length_cons, List.length_nil] at hlength
  -- what is in use in the second branch: its end label, and what the first one has recorded
  have hdry : account.free.length <
      demand.left account.marks + max 2 (1 + orElse.peak (demand.after account.marks)) →
      account.Lacks (demand.ifElse orElse) :=
    fun hfew => Nat.lt_of_lt_of_le hfew (Nat.le_max_right _ _)
  refine .bind (.skipLabel offset h₁) (fun hfree => hdry ?_)
    fun endLabel account₂ ⟨h₂, hmarks₂⟩ => ?_
  · rw [hfree, List.length_nil] at hlength
    omega
  refine (Idles.jump _).bind fun _ => ?_
  refine .bind (.placeSkip (h₂.perm (.swap _ _ _))) False.elim fun _ account₃ ⟨h₃, hmarks₃⟩ => ?_
  have hlength₂ := h₂.length
  have hlength₃ := h₃.length
  simp only [List.length_cons, List.length_nil] at hlength₂ hlength₃
  rw [hmarks₂, hafter] at hmarks₃
  refine .bind (hbranch account₃) (fun hfew => hdry ?_) ?_
  · rw [Account.Lacks, hmarks₃] at hfew
    omega
  · rintro ⟨⟩ account₄ ⟨⟨new', hnew'⟩, hafter', hpeak'⟩
    rw [hmarks₃] at hafter' hpeak'
    refine (Runs.placeSkip (h₃.trans hnew')).mono ?_ False.elim
    rintro ⟨⟩ account₅ ⟨h₅, hmarks₅⟩
    refine ⟨⟨_, h₅⟩, hmarks₅.trans hafter', Nat.max_le.mpr ⟨hpeak, ?_⟩⟩
    omega

/-- A loop takes the labels that it starts with, and when it has closed, all have come back. -/
theorem loop_of {rest : Loop → Emit Unit} (hbody : Balanced demand body)
    (h : account.Owes loop.held [] account')
    (hrest : ∀ loop' account'' recorded, loop.Records recorded loop' →
      account.Owes loop'.held [] account'' →
      Runs (rest loop') account'' (fun _ closed => account.Owes [] [] closed) False) :
    Runs (loopBody loop body >>= rest) account'
      (fun _ closed => account.Settles (demand.loop loop.held.length loop.marks) closed)
      (account.Lacks (demand.loop loop.held.length loop.marks)) := by
  have hlength := h.length
  rw [List.length_nil] at hlength
  rw [← List.append_nil loop.held] at h
  refine .bind (.loopBody hbody h) (fun hfew => ?_) ?_
  · show account.free.length < loop.held.length + demand.peak loop.marks
    omega
  rintro loop' account'' ⟨howes, ⟨recorded, hrecords⟩, hpeak⟩
  rw [List.append_nil] at howes
  refine (hrest loop' account'' recorded hrecords howes).mono ?_ False.elim
  intro _ closed hclosed
  refine ⟨⟨[], hclosed⟩, hclosed.marks_eq, ?_⟩
  show loop.held.length + demand.peak loop.marks ≤ account.free.length
  omega

theorem whileLoop (hlabels : labels.Linkable) (test : Script.Expr) (hbody : Balanced demand body) :
    Balanced (demand.whileLoop test) (Emit.whileLoop labels offset test body) := by
  refine idles_bind (.loopLabel _) fun entry => idles_bind (.place _) fun _ account => ?_
  have hclose : ∀ exitLabel account', account.Owes exitLabel.toList [] account' → Runs (do
      let loop ← Emit.loopBody { entry, continuesAtEntry := true, exitLabel } body
      Emit.jump entry
      Emit.placeSkip? loop.exitLabel) account'
      (fun _ closed => account.Settles
        (demand.loop exitLabel.toList.length ⟨exitLabel.isSome, true⟩) closed)
      (account.Lacks (demand.loop exitLabel.toList.length ⟨exitLabel.isSome, true⟩)) := by
    intro exitLabel account' howes
    refine hbody.loop_of howes fun loop' account'' recorded hrecords hheld => ?_
    refine (Idles.jump _).bind fun _ => ?_
    -- the loop goes on at its top, so there is no other label to place
    have hcontinue : loop'.continueLabel = none := hrecords.atEntry rfl
    have hexit : account.Owes (loop'.exitLabel.toList ++ []) [] account'' := by
      simpa [Loop.held, hcontinue] using hheld
    exact (Runs.placeSkip? hexit).mono (fun _ _ h => h.1) id
  unfold Demand.whileLoop
  cases test.isConstantTrue with
  | true => exact hclose none account (.refl account)
  | false =>
    have hleave : Runs (leaveUnless labels test) account
        (fun exit account' => account.Owes [exit] [] account') (account.free = []) :=
      (Idles.expr hlabels test).bind fun _ =>
        .bind (.skipLabel _ (.refl account)) id fun exit account' h =>
        (Idles.op _).bind fun _ => (Idles.jump _).bind fun _ => .pure h.1
    simp only [Bool.false_eq_true, if_false, bind_map_left]
    refine .bind hleave (fun hfree => ?_) fun exit account' => hclose (some exit) account'
    rw [Account.Lacks, hfree]
    exact Nat.lt_of_lt_of_le Nat.zero_lt_one (Nat.le_add_right _ _)

theorem forRange (hlabels : labels.Linkable) {args : List Script.Expr}
    (hbody : Balanced demand body) :
    Balanced (demand.loop 0 ⟨false, false⟩) (Emit.forRange labels target args offset body) := by
  unfold Emit.forRange
  split
  · exact fail nofun
  · have hbound : ∀ bound omitted, Idles (boundOr labels bound omitted) := fun bound omitted =>
      .of_straight labels (straight_boundOr hlabels bound omitted)
    refine idles_bind (.of_straight labels (straight_checkBounds hlabels _ _)) fun _ => ?_
    refine idles_bind (hbound _ _) fun _ => idles_bind (.expr hlabels _) fun _ => ?_
    refine idles_bind (hbound _ _) fun _ => idles_bind (.listing _) fun _ => ?_
    refine idles_bind (.of_straight labels (.storeRegister _ _ _)) fun counter => ?_
    refine idles_bind (.listing _) fun _ => idles_bind (.loopLabel _) fun entry => ?_
    refine idles_bind (.place _) fun _ account => ?_
    have hstart : account.Owes (Loop.held { entry, continuesAtEntry := false }) [] account :=
      .refl account
    exact hbody.loop_of hstart fun _ _ _ _ hheld => .closeCounted counter hheld

theorem forElements (labels : FunctionLabels) {container : Script.Ident}
    (hbody : Balanced demand body) :
    Balanced (demand.loop 1 ⟨true, false⟩) (Emit.forElements target container offset body) := by
  rw [forElements_eq]
  refine idles_bind (.of_straight labels (.sourceOf _)) fun source =>
    idles_bind (.of_straight labels (.anonymous _)) fun counter account => ?_
  refine .bind (.skipLabel offset (.refl account)) (fun hfree => ?_) fun exit account' ⟨h, _⟩ => ?_
  · rw [Account.Lacks, hfree]
    exact Nat.lt_of_lt_of_le Nat.zero_lt_one (Nat.le_add_right _ _)
  refine (Idles.line _).bind fun _ => ?_
  refine (Idles.of_straight labels (.selectContainer _)).bind fun _ => ?_
  refine (Idles.listing _).bind fun _ => (Idles.op _).bind fun _ => ?_
  refine (Idles.jump _).bind fun _ => (Idles.line _).bind fun _ => ?_
  refine (Idles.listing _).bind fun _ => (Idles.listing _).bind fun _ => ?_
  refine (Idles.loopLabel _).bind fun entry => (Idles.place _).bind fun _ => ?_
  refine (Idles.of_straight labels (straight_loadRow _ _)).bind fun _ => ?_
  refine (Idles.of_straight labels (.storeRegister _ _ _)).bind fun _ => ?_
  refine (Idles.listing _).bind fun _ => ?_
  have hstart : account.Owes
      (Loop.held { entry, continuesAtEntry := false, exitLabel := some exit }) [] account' := h
  exact hbody.loop_of hstart fun _ _ _ _ hheld => .closeCounted counter hheld

theorem forLoop (hlabels : labels.Linkable) (iterable : Script.Expr)
    (hbody : Balanced demand body) :
    Balanced (demand.forLoop iterable) (Emit.forLoop labels offset target iterable body) := by
  cases iterable with
  | call callStart callee args =>
    unfold Emit.forLoop
    dsimp only
    split
    · exact forRange hlabels hbody
    · exact fail nofun
  | name container => exact forElements labels hbody
  | _ => exact fail nofun

/-- A `break` or `continue` that finds its label. -/
theorem jump_of_marked {label : Nat} (hafter : demand.after account.marks = account.marks)
    (hpeak : demand.peak account.marks = 0) :
    Runs (Emit.jump label) account (fun _ account' => account.Settles demand account')
      (account.Lacks demand) := by
  refine (Idles.jump label account).mono ?_ False.elim
  rintro ⟨⟩ _ rfl
  exact ⟨⟨[], .refl _⟩, hafter.symm, hpeak ▸ Nat.zero_le _⟩

/-- A `break` or `continue` that needs a label if its loop has none. -/
theorem jumpForward {outer : List Loop} {label : Option Nat} {record : Nat → Loop}
    (hloops : account.loops = loop :: outer)
    (hlabel : label.isSome → demand.after loop.marks = loop.marks ∧ demand.peak loop.marks = 0)
    (hrecords : label = none → ∀ n, loop.Records [n] (record n))
    (hmarks : label = none → ∀ n, (record n).marks = demand.after loop.marks)
    (hpeak : label = none → demand.peak loop.marks = 1) :
    Runs (Emit.jumpForward offset label record) account
      (fun _ account' => account.Settles demand account') (account.Lacks demand) := by
  have hloop : account.marks = loop.marks := by rw [Account.marks, hloops]
  cases label with
  | some n =>
    rw [← hloop] at hlabel
    exact jump_of_marked (hlabel rfl).1 (hlabel rfl).2
  | none =>
    have hpeak := hpeak rfl
    refine (Runs.record hloops (hrecords rfl)).mono ?_ fun hfree => ?_
    · rintro ⟨⟩ account' ⟨n, howes, hloops'⟩
      refine ⟨⟨_, howes⟩, ?_, ?_⟩
      · rw [hloop, Account.marks, hloops']
        exact hmarks rfl n
      · have hlength := howes.length
        rw [List.length_nil, List.length_singleton] at hlength
        rw [hloop, hpeak]
        omega
    · rw [Account.Lacks, hloop, hpeak, hfree]
      exact Nat.zero_lt_one

theorem breakLoop (offset : Position) : Balanced .breaks (Emit.breakLoop offset) := by
  intro account
  refine .get_bind fun s hs => ?_
  rw [hs.2.1]
  cases hloops : account.loops with
  | nil => exact .fail nofun
  | cons loop outer =>
    refine jumpForward hloops (fun hexit => ?_) (fun hexit n => .exit n hexit) (fun _ _ => rfl)
      fun hexit => ?_ <;> simp [Demand.breaks, Loop.marks, hexit]

theorem continueLoop (offset : Position) : Balanced .continues (Emit.continueLoop offset) := by
  intro account
  refine .get_bind fun s hs => ?_
  rw [hs.2.1]
  cases hloops : account.loops with
  | nil => exact .fail nofun
  | cons loop outer =>
    dsimp only
    by_cases hentry : loop.continuesAtEntry = true
    · have hmarks : account.marks = loop.marks := by rw [Account.marks, hloops]
      rw [if_pos hentry]
      apply jump_of_marked <;> simp [Demand.continues, hmarks, Loop.marks, hentry]
    · rw [if_neg hentry]
      refine jumpForward hloops (fun hlabel => ?_)
        (fun hlabel n => .again n (by simpa using hentry) hlabel) (fun _ _ => ?_) fun hlabel => ?_
      · simp [Demand.continues, Loop.marks, hlabel]
      · simp [Demand.continues, Loop.marks]
      · simp [Demand.continues, Loop.marks, hentry, hlabel]

end Balanced

/-! ### Statements -/

mutual

/-- Every statement settles its account. -/
theorem balanced_stmt (hlabels : labels.Linkable) :
    ∀ s : Script.Stmt, Balanced s.demand (stmt labels s)
  | .pass _ => .of_straight labels (.pure ())
  | .expression _ value => .of_idles (.expr hlabels value)
  | .returns _ none => .of_idles (.op _)
  | .returns _ (some value) => .idles_bind (.expr hlabels value) fun _ => .of_idles (.op _)
  | .assign _ target others value =>
    .of_straight labels (straight_assign hlabels (Script.forall_named_any (target :: others))
      (Script.named_any value) (.of_declares fun _ => trivial))
  | .augmented _ target operator value =>
    .of_straight labels (straight_augment hlabels target operator value)
  | .ifElse _ test body orElse => by
    rw [stmt, Script.Stmt.demand]
    split
    · exact .ifThen (.expr hlabels test) (balanced_block hlabels body)
    · exact .ifElse (.expr hlabels test) (balanced_block hlabels body)
        (balanced_block hlabels orElse)
  | .whileLoop _ test body => .whileLoop hlabels test (balanced_block hlabels body)
  | .forLoop _ _ iterable body => .forLoop hlabels iterable (balanced_block hlabels body)
  | .breaks start => .breakLoop start
  | .continues start => .continueLoop start
  | .assertion _ test => .idles_bind (.expr hlabels test) fun _ => .of_idles (.listing _)
  | .functionDef _ _ _ => .fail nofun

theorem balanced_block (hlabels : labels.Linkable) : ∀ statements : List Script.Stmt,
    Balanced (Script.blockDemand statements) (block labels statements)
  | [] => .of_straight labels (.pure ())
  | s :: rest => .bind (balanced_stmt hlabels s) (balanced_block hlabels rest)

end

/-- Functions that are defined in a body have no code in it. -/
theorem balanced_ownCode (hlabels : labels.Linkable) (statements : List Script.Stmt) :
    Balanced (Script.blockDemand statements) (ownCode labels statements) := by
  induction statements using ownCode.induct with
  | case1 => exact .of_straight labels (.pure ())
  | case2 _ _ _ rest ih =>
    rw [ownCode, Script.blockDemand, Script.Stmt.demand, Demand.none_andThen]
    · exact ih
    all_goals simp
  | case3 s rest hnot ih =>
    rw [ownCode, Script.blockDemand]
    · exact .bind (balanced_stmt hlabels s) ih
    · exact hnot

end Emit

end Keystroke
