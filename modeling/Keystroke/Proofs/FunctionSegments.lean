import Keystroke.Proofs.LinkClosure
import Keystroke.Proofs.LooseCode
import Keystroke.Proofs.StoredRegisters

/-!
# Control stays in its function

The code of each function is a segment of the program, from its label to a return. Inside a segment
every test is followed by a jump, and every jump goes to a line of the segment, so control leaves a
segment only by a call or by a return.
-/

namespace Keystroke

open Emit Listing

variable {code xs ys : List Instr} {line next n : Nat} {pools : JumpLabels}

open Script (Ident Stmt)

/-! ### Segments -/

/-- The code of a procedure. A jump goes to a loop label of the segment, or to the next label of its
number, which stands in the segment too. -/
structure IsSegment (label : Label) (segment : List Instr) : Prop where
  head : segment.head? = some (.lbl label)
  labels : ∀ other, .lbl other ∈ segment.tail → ∃ n, other = .number n
  last : segment.getLast? = some (.op .returns)
  guarded : ∀ line instr, InstrAt segment line instr → instr.skips = true →
    ∃ n, JumpAt segment (line + 1) n
  jumps : ∀ line n, JumpAt segment line n → n < 50 ∧ ∃ place, LabelAt segment place n ∧
    (n ≤ 29 ∨ line < place ∧ ∀ k, line < k → k < place → ¬ LabelAt segment k n)

theorem instrAt_append_right {rest : List Instr} {instr : Instr} :
    InstrAt (code ++ rest) (code.length + line) instr ↔ InstrAt rest line instr := by
  rw [InstrAt, List.getElem?_append_right (Nat.le_add_right _ _), Nat.add_sub_cancel_left, InstrAt]

/-- A jump that was written while both programs went from one point to another, with no label held
at either, goes to a label that was written in between. -/
theorem Tracks.jump_between {code' : List Instr} {pools' : JumpLabels} {next' : Nat}
    (hstart : Tracks xs ys pools next [])
    (hend : Tracks (xs ++ code) (ys ++ code') pools' next' [])
    (hfloor : ∀ m, .gto m ∈ code' → next ≤ m) (hjump : JumpAt code line n) :
    n < 50 ∧ ∃ place, LabelAt code place n ∧
      (n ≤ 29 ∨ line < place ∧ ∀ k, line < k → k < place → ¬ LabelAt code k n) := by
  have hlen := hstart.length_eq
  have hat : JumpAt (xs ++ code) (xs.length + line) n := instrAt_append_right.mpr hjump
  obtain ⟨m, hm⟩ := hend.exists_jumpAt hat
  have hm' : next ≤ m := hfloor m (exists_instrAt.mp ⟨line, instrAt_append_right.mp (hlen ▸ hm)⟩)
  -- a label that the jump can go to was handed out after the start, and stands after it
  have hplaced : ∀ place, LabelAt (xs ++ code) place n → LabelAt (ys ++ code') place m →
      ∃ inside, place = xs.length + inside ∧ LabelAt code inside n := by
    intro place hx hy
    have hle : xs.length ≤ place := by
      rcases instrAt_append.mp hy with hy | ⟨hle, -⟩
      · exact absurd (hstart.placedSnd place m hy).2 (Nat.not_lt_of_le hm')
      · omega
    obtain ⟨inside, rfl⟩ := Nat.exists_eq_add_of_le hle
    exact ⟨inside, rfl, instrAt_append_right.mp hx⟩
  rcases (hend.jumps _ n m hat hm).resolve_right fun h => List.not_mem_nil h.1 with
    ⟨hloop, place, hx, hy⟩ | ⟨place, hafter, hx, hy, hfirst⟩
  · obtain ⟨inside, rfl, hinside⟩ := hplaced place hx hy
    exact ⟨hend.label_lt hx, inside, hinside, Or.inl (loopLabels_contains.mp hloop)⟩
  · obtain ⟨inside, rfl, hinside⟩ := hplaced place hx hy
    refine ⟨hend.label_lt hx, inside, hinside, Or.inr ⟨by omega, fun k hk hk' hlabel => ?_⟩⟩
    exact hfirst (xs.length + k) (by omega) (by omega) (instrAt_append_right.mpr hlabel)

namespace Procedure

variable {labels : FunctionLabels} {procedure : Procedure} {s s' t t' : Emitter}

theorem last_of_finishBody {u : Unit} (h : finishBody.run s = .ok (u, s')) :
    s'.listing.instrs.getLast? = some (.op .returns) := by
  rcases run_finishBody h with ⟨hlast, rfl⟩ | hreturn
  · exact hlast
  · cases hreturn
    rw [instrs_emit, List.getLast?_concat]

theorem code_of_write (hlabels : labels.Linkable) {floor : Nat} (hs : s.Above floor)
    (h : (procedure.write labels).run s = .ok ((), s')) :
    ∃ code, s'.listing.instrs = s.listing.instrs ++ .lbl procedure.label :: code ∧
      Loose floor code ∧ s'.listing.instrs.getLast? = some (.op .returns) := by
  have hlast : s'.listing.instrs.getLast? = some (.op .returns) := by
    obtain ⟨-, s₁, -, h⟩ := run_bind.mp h
    obtain ⟨registers, s₂, -, h⟩ := run_bind.mp h
    obtain ⟨-, s₃, -, h⟩ := run_bind.mp h
    obtain ⟨-, s₄, -, h⟩ := run_bind.mp h
    exact last_of_finishBody h
  obtain ⟨⟨⟩, s₁, hlabel, h⟩ := run_bind.mp h
  have hs₁ : s₁.Above floor ∧
      s₁.listing.instrs = s.listing.instrs ++ [.lbl procedure.label] := by
    cases hlabel
    exact ⟨⟨hs.supply, hs.loops⟩, instrs_emit⟩
  have hparams : Straight labels .any (paramRegisters procedure.params) :=
    straight_paramRegisters _
  have hstore : ∀ registers, Straight labels .any (storeDown registers) :=
    straight_storeDown trivial
  have hflows : Flows floor (do
      let registers ← paramRegisters procedure.params
      storeDown registers.reverse
      ownCode labels procedure.body
      finishBody) fun _ => True :=
    .bind (.straight hparams) fun registers _ =>
      .bind (.straight (hstore registers.reverse)) fun _ _ =>
        .bind (flows_ownCode hlabels procedure.body) fun _ _ => .finishBody
  obtain ⟨-, -, code, hcode, hloose⟩ := hflows s₁ () s' hs₁.1 h
  refine ⟨code, ?_, hloose, hlast⟩
  rw [hcode, hs₁.2, List.append_assoc]
  rfl

theorem isSegment_of_write (hlabels : labels.Linkable) (hstart : Aligned [] [] [] s t)
    (hfst : (procedure.write labels).run s = .ok ((), s'))
    (hsnd : (procedure.write labels).run t = .ok ((), t')) (hend : Aligned [] [] [] s' t') :
    ∃ segment, s'.listing.instrs = s.listing.instrs ++ segment ∧
      IsSegment procedure.label segment := by
  obtain ⟨pools, next, hpools, hnext, htracks⟩ := hstart.tracks
  obtain ⟨pools', next', -, -, htracks'⟩ := hend.tracks
  have ht : t.Above next := by
    refine ⟨?_, ?_⟩
    · rw [hnext]
      exact Nat.le_refl next
    · rw [hstart.loopsSnd]
      nofun
  -- in the second program, the labels of this procedure are newer than all labels before it
  obtain ⟨code, hcode, hloose, hlast⟩ := code_of_write hlabels s.above_zero hfst
  obtain ⟨code', hcode', hloose', -⟩ := code_of_write hlabels ht hsnd
  rw [hcode, hcode'] at htracks'
  refine ⟨.lbl procedure.label :: code, hcode, rfl, hloose.labels, ?_, ?_, fun line n hjump => ?_⟩
  · rw [hcode, List.getLast?_append_cons] at hlast
    exact hlast
  · intro line instr hat hskips
    cases line with
    | zero =>
      obtain rfl := instrAt_zero.mp hat
      cases hskips
    | succ line =>
      obtain ⟨n, hn⟩ := hloose.guarded line instr (instrAt_succ.mp hat) hskips
      exact ⟨n, instrAt_succ.mpr hn⟩
  · refine htracks.jump_between htracks' (fun m hm => ?_) hjump
    rcases List.mem_cons.mp hm with hm | hm
    · cases hm
    · exact hloose'.jumps m hm

end Procedure

namespace IsSegment

variable {label : Label} {segment : List Instr}

theorem skips_finalInstr {localLabels : Bool} {instr : Instr} :
    (finalInstr localLabels instr).skips = instr.skips := by
  cases localLabels with
  | false => rfl
  | true => cases instr <;> rfl

/-- The form of the library labels makes no difference to a segment. -/
theorem final (h : IsSegment label segment) (hown : label.IsOwn) (localLabels : Bool) :
    IsSegment label (segment.map (finalInstr localLabels)) where
  head := by
    rw [List.head?_map, h.head, Option.map_some, finalInstr_lbl_of_isOwn hown]
  labels other hmem := by
    rw [← List.map_tail] at hmem
    obtain ⟨instr, hinstr, hlbl⟩ := List.mem_map.mp hmem
    obtain ⟨source, rfl, rfl⟩ := finalInstr_eq_lbl.mp hlbl
    obtain ⟨n, rfl⟩ := h.labels source hinstr
    exact ⟨n, by cases localLabels <;> rfl⟩
  last := by
    rw [List.getLast?_map, h.last]
    cases localLabels <;> rfl
  guarded line instr hat hskips := by
    obtain ⟨source, hsource, rfl⟩ := instrAt_map.mp hat
    rw [skips_finalInstr] at hskips
    obtain ⟨n, hn⟩ := h.guarded line source hsource hskips
    exact ⟨n, jumpAt_map_finalInstr.mpr hn⟩
  jumps line n hjump := by
    obtain ⟨hn, place, hplace, hreach⟩ := h.jumps line n (jumpAt_map_finalInstr.mp hjump)
    refine ⟨hn, place, (labelAt_map_finalInstr (Or.inl hn)).mpr hplace, ?_⟩
    refine hreach.imp_right fun ⟨hafter, hfirst⟩ => ⟨hafter, fun k hk hk' hlabel => ?_⟩
    exact hfirst k hk hk' ((labelAt_map_finalInstr (Or.inl hn)).mp hlabel)

end IsSegment

/-! ### Segments of a program -/

/-- The lines to which control can go from a line. A call comes back to the line after it. -/
def Instr.nextLines (code : List Instr) (line : Nat) : Instr → List Nat
  | .op .returns => []
  | .gto n => (jumpTarget? code line n).toList
  | instr => if instr.skips then [line + 1, line + 2] else [line + 1]

/-- A segment that stands from the line `start` on in a program. It has the label of its function
and no label of another, and ends with a return. Its jumps go to lines of the segment, and its tests
are followed by jumps. So control goes from its lines to its lines only. -/
structure SegmentAt (code : List Instr) (start : Nat) (label : Label) (segment : List Instr) :
    Prop where
  head : segment.head? = some (.lbl label)
  labels : ∀ other, .lbl other ∈ segment.tail → ∃ n, other = .number n
  last : segment.getLast? = some (.op .returns)
  jumps : ∀ line n, JumpAt segment line n → ∃ place < segment.length,
    jumpTarget? code (start + line) n = some (start + place)
  guarded : ∀ line instr, InstrAt segment line instr → instr.skips = true →
    ∃ n, JumpAt segment (line + 1) n
  closed : ∀ line instr, InstrAt segment line instr → ∀ next ∈ instr.nextLines code (start + line),
    start ≤ next ∧ next < start + segment.length

/-- No loop label stands in a program twice. -/
def LoopsOnce (code : List Instr) : Prop :=
  ∀ k k' n, n ≤ 29 → LabelAt code k n → LabelAt code k' n → k = k'

namespace IsSegment

variable {label : Label} {segment before after : List Instr} {line : Nat}

theorem succ_lt (h : IsSegment label segment) {instr : Instr} (hat : InstrAt segment line instr)
    (hinstr : instr ≠ .op .returns) :
    line + 1 < segment.length := by
  have hlt := hat.lt
  rcases Nat.lt_or_ge (line + 1) segment.length with hlt' | hge
  · exact hlt'
  · have hlast := h.last
    rw [List.getLast?_eq_getElem?, show segment.length - 1 = line by omega] at hlast
    exact absurd (Option.some.inj (hat.symm.trans hlast)) hinstr

/-- In a program that has no other loop labels of the same numbers, jumps stay in their segment. -/
theorem jumpTarget? (h : IsSegment label segment)
    (honce : LoopsOnce (before ++ (segment ++ after))) {n : Nat}
    (hjump : JumpAt segment line n) : ∃ place < segment.length,
      jumpTarget? (before ++ (segment ++ after)) (before.length + line) n =
        some (before.length + place) := by
  obtain ⟨-, place, hplace, hreach⟩ := h.jumps line n hjump
  have hat : LabelAt (before ++ (segment ++ after)) (before.length + place) n :=
    instrAt_append_right.mpr (hplace.append after)
  refine ⟨place, hplace.lt, ?_⟩
  -- a loop label stands once in the program, and between a jump and its label the segment has no
  -- other
  rcases hreach with hloop | ⟨hafter, hfirst⟩
  · exact jumpTarget?_of_unique hat fun k hk => honce k _ n hloop hk hat
  · refine jumpTarget?_of_first (by omega) hat fun k hk hk' hlabel => ?_
    obtain ⟨inside, rfl⟩ := Nat.exists_eq_add_of_le (show before.length ≤ k by omega)
    rcases instrAt_append.mp (instrAt_append_right.mp hlabel) with hlabel | ⟨hle, -⟩
    · exact hfirst inside (by omega) (by omega) hlabel
    · have := hplace.lt
      omega

theorem segmentAt (h : IsSegment label segment) (honce : LoopsOnce (before ++ (segment ++ after))) :
    SegmentAt (before ++ (segment ++ after)) before.length label segment where
  head := h.head
  labels := h.labels
  last := h.last
  jumps _ _ hjump := h.jumpTarget? honce hjump
  guarded := h.guarded
  closed line instr hat next hnext := by
    unfold Instr.nextLines at hnext
    split at hnext
    · cases hnext
    · obtain ⟨place, hplace, htarget⟩ := h.jumpTarget? honce hat
      rw [htarget] at hnext
      cases List.mem_singleton.mp hnext
      omega
    · rename_i hreturns _
      have hlt := h.succ_lt hat hreturns
      split at hnext
      · rename_i hskips
        -- a test may skip the next line, which is a jump and so not the last one
        obtain ⟨n, hn⟩ := h.guarded line instr hat hskips
        have hlt' := h.succ_lt hn nofun
        rcases List.mem_cons.mp hnext with rfl | hnext
        · omega
        · cases List.mem_singleton.mp hnext
          omega
      · cases List.mem_singleton.mp hnext
        omega

end IsSegment

theorem segmentAt_of_forall₂ {order : List Label} {segments : List (List Instr)}
    {after : List Instr} (h : List.Forall₂ IsSegment order segments)
    (honce : LoopsOnce (segments.flatten ++ after)) {i : Nat} {label : Label} {segment : List Instr}
    (hlabel : order[i]? = some label) (hsegment : segments[i]? = some segment) :
    SegmentAt (segments.flatten ++ after) (segments.take i).flatten.length label segment := by
  have hsplit : segments = segments.take i ++ segment :: segments.drop (i + 1) := by
    obtain ⟨hlt, rfl⟩ := List.getElem?_eq_some_iff.mp hsegment
    rw [← List.drop_eq_getElem_cons hlt, List.take_append_drop]
  have hcode : segments.flatten ++ after =
      (segments.take i).flatten ++ (segment ++ ((segments.drop (i + 1)).flatten ++ after)) := by
    nth_rewrite 1 [hsplit]
    simp
  have his : IsSegment label segment := by
    obtain ⟨hlt, rfl⟩ := List.getElem?_eq_some_iff.mp hlabel
    obtain ⟨hlt', rfl⟩ := List.getElem?_eq_some_iff.mp hsegment
    exact h.get hlt hlt'
  rw [hcode] at honce ⊢
  exact his.segmentAt honce

theorem Written.segments {labels : FunctionLabels} (hlabels : labels.Linkable)
    {procedures : List Procedure} {p q : Listing × Listing} (h : Written labels procedures p q)
    (hown : ∀ procedure ∈ procedures, procedure.label.IsOwn) (localLabels : Bool) :
    ∃ segments, q.1.instrs.map (finalInstr localLabels) =
        p.1.instrs.map (finalInstr localLabels) ++ segments.flatten ∧
      List.Forall₂ IsSegment (procedures.map (·.label)) segments := by
  induction h with
  | nil => exact ⟨[], by simp, .nil⟩
  | cons hstart hfst hsnd hend _ ih =>
    obtain ⟨hfirstOwn, hrestOwn⟩ := List.forall_mem_cons.mp hown
    obtain ⟨segment, hsegment, hfirst⟩ := Procedure.isSegment_of_write hlabels hstart hfst hsnd hend
    obtain ⟨segments, hsegments, hrest⟩ := ih hrestOwn
    refine ⟨segment.map (finalInstr localLabels) :: segments, ?_,
      .cons (hfirst.final hfirstOwn localLabels) hrest⟩
    rw [hsegments, hsegment, List.map_append, List.flatten_cons, List.append_assoc]

theorem Tracks.loopsOnce_final (h : Tracks xs ys pools next []) {library localLabels : Bool}
    {needed : List Routine} :
    LoopsOnce ((xs ++ suffix library needed).map (finalInstr localLabels)) := by
  intro k k' n hn hk hk'
  have huser : ∀ {line}, LabelAt ((xs ++ suffix library needed).map
      (finalInstr localLabels)) line n → LabelAt xs line n := by
    intro line hline
    rw [labelAt_map_finalInstr (Or.inl (by omega))] at hline
    rcases instrAt_append.mp hline with hline | ⟨-, hline⟩
    · exact hline
    · have := (labelAt_suffix hline).1
      omega
  exact h.loopOnce k k' n (loopLabels_contains.mpr hn) (huser hk) (huser hk')

/-- A program is made of segments, one for each procedure: the code outside functions if it has a
label, then each function of the module before those inside it. No function is without a label where
its code is written. -/
theorem function_segments (text : String) (options : Options) :
    (∀ final, compile text options = .ok final →
      ∃ body labels user, ∃ (order : List Label) (segments : List (List Instr)),
      Script.ofSource (SourceText.ofString text) = .ok body ∧
      FunctionLabels.assign body = .ok labels ∧
      compile text { options with library := false } = .ok user ∧
      order.map some = labels.entry.toList.map some ++ (Script.definedNames body).map labels.get? ∧
      segments.length = order.length ∧ segments.flatten <+: final.instrs ∧
      segments.flatten.length = user.instrs.length ∧
      ∀ (i : Nat) (label : Label) (segment : List Instr), order[i]? = some label →
        segments[i]? = some segment →
        SegmentAt final.instrs (segments.take i).flatten.length label segment) ∧
    ∀ body labels, FunctionLabels.assign body = .ok labels → ∀ limit jumps name start,
      Listing.ofScript labels body limit jumps ≠
        .error ⟨.use (.functionWithoutLabel name), start⟩ := by
  refine ⟨fun final h => ?_, fun body labels hlabels limit jumps name start => ?_⟩
  · obtain ⟨body, labels, user, hbody, hlabels, huser, rfl⟩ := compile_eq_ok.mp h
    have hassigned := FunctionLabels.assigned_of_assign hlabels
    obtain ⟨twin, pools, next, -, hneeded, htracks, hwritten⟩ :=
      Listing.written_ofScript hlabels huser
    have hlabelled : ∀ name ∈ Script.definedNames body, labels.has name = true :=
      fun name hname => (hassigned.has_iff name).mpr hname
    obtain ⟨localLabels, hinstrs⟩ : ∃ localLabels, (if options.library then
        user.appendLibrary options.localLibraryLabels else user).instrs =
          (user.instrs ++ Listing.suffix options.library user.needed).map
            (Listing.finalInstr localLabels) := ⟨_, Listing.instrs_final⟩
    obtain ⟨segments, hgrown, hsegments⟩ := hwritten.segments hassigned.own
      (Script.isOwn_of_mem_procedures hassigned) localLabels
    have hcode : user.instrs.map (Listing.finalInstr localLabels) = segments.flatten := hgrown
    -- the library comes behind all segments
    have hfinal := hinstrs
    rw [List.map_append, hcode] at hfinal
    refine ⟨body, labels, user, (Script.procedures labels body).map (·.label), segments, hbody,
      hlabels, compile_eq_ok.mpr ⟨body, labels, user, hbody, hlabels, huser, rfl⟩, ?_,
      hsegments.length_eq.symm, ⟨_, hfinal.symm⟩, ?_, ?_⟩
    · rw [List.map_map]
      exact Script.map_label_procedures hlabelled
    · rw [← hcode, List.length_map]
    · intro i label segment hlabel hsegment
      rw [hfinal]
      refine segmentAt_of_forall₂ hsegments ?_ hlabel hsegment
      rw [← hfinal, hinstrs]
      exact htracks.loopsOnce_final
  · intro herror
    exact Listing.not_missesLabel_ofScript hlabels herror ⟨name, rfl⟩

/-- A module with a label for its own code, a function inside another, a loop without an end, and a
function without code. -/
def nestedText : String :=
  "LBL(\"MAIN\")\nx = f(3)\ndef f(n):\n  def g(m):\n    while True:\n      m += n\n" ++
    "  if n > 2:\n    return g(n)\ndef h():\n  pass\n"

/-- Its program has a segment with the jump back of the loop, and is made of segments. -/
theorem function_segments_nested :
    ∃ (final user : Listing) (order : List Label) (segments : List (List Instr)),
      compile nestedText {} = .ok final ∧ compile nestedText { library := false } = .ok user ∧
      JumpAt final.instrs 26 0 ∧ segments.length = order.length ∧
      segments.flatten <+: final.instrs ∧ segments.flatten.length = user.instrs.length ∧
      ∀ (i : Nat) (label : Label) (segment : List Instr), order[i]? = some label →
        segments[i]? = some segment →
        SegmentAt final.instrs (segments.take i).flatten.length label segment := by
  have hcompiles : (compile nestedText {}).toOption.any (fun final =>
      final.instrs[26]? = some (.gto 0)) = true := by
    decide +kernel
  obtain ⟨final, hfinal, hjump⟩ := exists_ok_of_any hcompiles
  obtain ⟨body, labels, user, order, segments, -, -, huser, -, hlength, hstarts, huserLength,
    hsegments⟩ := (function_segments nestedText {}).1 final hfinal
  exact ⟨final, user, order, segments, hfinal, huser, of_decide_eq_true hjump, hlength, hstarts,
    huserLength, hsegments⟩

end Keystroke
