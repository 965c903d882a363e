import LinearReduction.Proofs.Exact.Completion
import LinearReduction.Proofs.Exact.Condensing
import LinearReduction.Proofs.Session.Balance
import LinearReduction.Proofs.Session.StandardForm

/-!
# Simplification completes

Simplification makes only reductions that apply, so that none of them is refused and none breaks anything.
Main statement: `Session.Reaches.simplify_completes`, for every session that calls lead to and any settings.
Either way, the session that it leaves is one that single reductions lead to.
-/

namespace LinearReduction

open ExtRat
open Fault (Completes)

namespace Session

variable {s : Session ExtRat}

/-! ## Lists of columns when there is nothing to do -/

theorem ColumnsListed.skip {j : Nat} {rest : List Nat} (listed : ColumnsListed (j :: rest) s)
    {column : Column ExtRat} (active : s.program.columns.get? j = some column)
    (grounded : column.bounds.lower = 0) : ColumnsListed rest s := by
  refine ⟨(List.nodup_cons.1 listed.distinct).2,
    fun k later => listed.active k (List.mem_cons_of_mem _ later), fun k other found out => ?_⟩
  by_cases same : k = j
  · subst same
    cases active.symm.trans found
    exact grounded
  · exact listed.grounded k other found (by simp [same, out])

end Session

namespace Step

variable {s : Session ExtRat}

theorem reduce_keeps_exact (exact : s.program.Exact) {r : Reduction} {k : Nat}
    (eligible : s.program.Eligible r k) : Completes (discard (reduce r k)) s fun _ t =>
      t.program.Exact ∧ ∃ added, s.Performs r k added t :=
  .discard ((reduce_completes exact eligible).mono fun added _ performs =>
    ⟨performs.exact exact, added, performs⟩)

/-! ## Eliminations -/

theorem workThrough_completes (exact : s.program.Exact) (budget : Nat) (agenda : Agenda) :
    Completes (workThrough budget agenda) s fun _ t => t.program.Exact := by
  induction budget generalizing s agenda with
  | zero => exact .pure exact
  | succ budget inductionHypothesis =>
    refine .bind (.get ?_)
    cases found : agenda.next? s with
    | none => exact .pure exact
    | some next =>
      have eligible := Agenda.next?_eligible found
      exact .bind ((reduce_keeps_exact exact eligible).mono fun _ t reduced =>
        inductionHypothesis reduced.1 _)

theorem exhaust_completes (exact : s.program.Exact) : Completes exhaust s fun _ t => t.program.Exact :=
  .bind (.get (workThrough_completes exact _ _))

/-! ## Standard form -/

theorem equateRow_completes (exact : s.program.Exact) {i : Nat} {row : Row ExtRat}
    (active : s.program.rows.get? i = some row) (inequality : row.bounds.isPoint = false) :
    Completes (equateRow i) s fun _ t => t.program.Exact ∧
      ∃ r, (r = .dropFreeRow ∨ r = .addSurplus ∨ r = .addSlack) ∧ ∃ added, s.Performs r i added t := by
  refine .bind (.edit_of_eq_ok (Edit.fetchRow_of_active active) ?_)
  have proper := (exact.rows i row active).proper
  split
  case isTrue free =>
    have eligible : s.program.Eligible .dropFreeRow i := ⟨row, active, free⟩
    exact (reduce_keeps_exact exact eligible).mono fun _ _ reduced => ⟨reduced.1, _, .inl rfl, reduced.2⟩
  case isFalse loose =>
    -- One of the bounds is finite then, and the other one lies beyond it.
    have order := proper.lower_lt_upper inequality
    split
    case isTrue finite =>
      have eligible : s.program.Eligible .addSurplus i := ⟨row, active, finite, order⟩
      exact (reduce_keeps_exact exact eligible).mono fun _ _ reduced =>
        ⟨reduced.1, _, .inr (.inl rfl), reduced.2⟩
    case isFalse infinite =>
      have finite := proper.upper_finite (Bool.eq_false_iff.2 loose) (Bool.eq_false_iff.2 infinite)
      have eligible : s.program.Eligible .addSlack i := ⟨row, active, finite, order⟩
      exact (reduce_keeps_exact exact eligible).mono fun _ _ reduced =>
        ⟨reduced.1, _, .inr (.inr rfl), reduced.2⟩

theorem groundColumn_completes (exact : s.program.Exact) {j : Nat} {rest : List Nat}
    (listed : Session.ColumnsListed (j :: rest) s) :
    Completes (groundColumn j) s fun _ t => t.program.Exact ∧ t.ColumnsListed rest := by
  obtain ⟨column, active⟩ := Slots.isActive_iff.1 (listed.active j List.mem_cons_self)
  refine .bind (.edit_of_eq_ok (Edit.fetchColumn_of_active active) ?_)
  have proper := (exact.columns j column active).proper
  split
  case isTrue free =>
    have eligible : s.program.Eligible .splitFree j := ⟨column, active, free⟩
    exact (reduce_keeps_exact exact eligible).mono fun _ _ ⟨exact, _, performs⟩ =>
      ⟨exact, listed.tail performs (.inl rfl)⟩
  case isFalse loose =>
    split
    case isTrue finite =>
      split
      case isTrue grounded => exact .pure ⟨exact, listed.skip active (ExtRat.eq_of_beq grounded)⟩
      case isFalse =>
        have eligible : s.program.Eligible .shiftLower j := ⟨column, active, finite⟩
        exact (reduce_keeps_exact exact eligible).mono fun _ _ ⟨exact, _, performs⟩ =>
          ⟨exact, listed.tail performs (.inr (.inl rfl))⟩
    case isFalse infinite =>
      have finite := proper.upper_finite (Bool.eq_false_iff.2 loose) (Bool.eq_false_iff.2 infinite)
      have eligible : s.program.Eligible .flipUpper j := ⟨column, active, finite⟩
      exact (reduce_keeps_exact exact eligible).mono fun _ _ ⟨exact, _, performs⟩ =>
        ⟨exact, listed.tail performs (.inr (.inr rfl))⟩

theorem equateRows_completes (exact : s.program.Exact) :
    Completes ((s.program.rows.active.filter (!·.2.bounds.isPoint)).forM fun (i, _) => equateRow i) s
      fun _ t => t.program.Exact := by
  refine (Completes.forM (fun rest (t : Session ExtRat) => t.program.Exact ∧ t.RowsListed rest ∧
    ∀ entry ∈ rest, entry.2.bounds.isPoint = false) ⟨exact, .start s _, fun entry listed => ?_⟩
      fun entry rest t ⟨exact, listed, inequalities⟩ => ?_).mono fun _ _ holds => holds.1
  · simpa using (List.mem_filter.1 listed).2
  · obtain ⟨i, row⟩ := entry
    have active := listed.active i row List.mem_cons_self
    refine (equateRow_completes exact active (inequalities _ List.mem_cons_self)).mono ?_
    rintro _ u ⟨exact, r, kind, added, performs⟩
    exact ⟨exact, listed.tail performs kind,
      fun entry later => inequalities entry (List.mem_cons_of_mem _ later)⟩

theorem groundColumns_completes (exact : s.program.Exact) :
    Completes (s.program.columns.ordinals.forM groundColumn) s fun _ t => t.program.Exact ∧
    t.ColumnsListed [] :=
  .forM (fun rest (t : Session ExtRat) => t.program.Exact ∧ t.ColumnsListed rest) ⟨exact, .start s⟩
    fun _ _ _ holds => groundColumn_completes holds.1 holds.2

theorem splitUppers_completes (exact : s.program.Exact) (grounded : s.ColumnsListed []) :
    Completes ((s.program.columns.active.filter (Scalar.isFinite ·.2.bounds.upper)).forM fun (j, _) =>
      discard (reduce .splitUpper j)) s fun _ t => t.program.Exact := by
  refine (Completes.forM (fun rest (t : Session ExtRat) => t.program.Exact ∧ t.UppersListed rest ∧
    ∀ entry ∈ rest, entry.2.bounds.lower = 0 ∧ Scalar.isFinite entry.2.bounds.upper = true)
      ⟨exact, .start s _, fun entry listed => ?_⟩ fun entry rest t ⟨exact, listed, bounded⟩ => ?_).mono
        fun _ _ holds => holds.1
  · obtain ⟨listed, finite⟩ := List.mem_filter.1 listed
    exact ⟨grounded.grounded entry.1 entry.2 (Slots.mem_active.1 listed) List.not_mem_nil, finite⟩
  · obtain ⟨j, column⟩ := entry
    obtain ⟨now, active, bounds⟩ := listed.active j column List.mem_cons_self
    obtain ⟨lower, finite⟩ := bounded _ List.mem_cons_self
    rw [← bounds] at lower finite
    have eligible : t.program.Eligible .splitUpper j := ⟨now, active, by rw [lower]; rfl, finite⟩
    refine (reduce_keeps_exact exact eligible).mono ?_
    rintro _ u ⟨exact, added, performs⟩
    exact ⟨exact, listed.tail performs, fun entry later => bounded entry (List.mem_cons_of_mem _ later)⟩

theorem toStandardForm_completes (exact : s.program.Exact) :
    Completes toStandardForm s fun _ t => t.program.Exact := by
  refine .bind (.get (.bind ((equateRows_completes exact).mono fun _ t exact => ?_)))
  refine .bind (.get (.bind ((groundColumns_completes exact).mono fun _ u holds => ?_)))
  refine .bind (.get ?_)
  dsimp only
  split
  · exact splitUppers_completes holds.1 holds.2
  · exact .pure holds.1

/-! ## Everything in one go -/

/-- Reductions keep everything that is checked at last. -/
theorem conclude_completes {t : Session ExtRat} (exact : s.program.Exact) (counted : s.program.Counted)
    (exact_after : t.program.Exact) (reduces : s.ReducesTo t) :
    Completes conclude t fun _ u => s.ReducesTo u := by
  obtain ⟨news, history, _⟩ := (reduces.reaches.advances exact.transposed).history
  have coherent : t.program.Coherent :=
    ⟨history.rewrites.counted counted, exact_after.bounded, exact_after.nonzero, exact_after.transposed⟩
  exact .bind (.get (.bind (.ensure (Program.isCoherent_iff.2 coherent) (.pure reduces))))

theorem simplify_completes_reducesTo (exact : s.program.Exact) (counted : s.program.Counted) :
    Completes simplify s fun _ t => s.ReducesTo t := by
  have round := fun t (reduces : s.ReducesTo t) => reduce_reducesTo exact.transposed reduces
  have exhausted := (exhaust_completes exact).with_ends (exhaust_keeps round .refl)
  refine .bind (exhausted.mono fun _ t ⟨exact_after, reduces⟩ => .bind (.get ?_))
  dsimp only
  split
  · have formed := (toStandardForm_completes exact_after).with_ends
      (toStandardForm_keeps (fun t reduces r k _ => round t reduces r k) (fun _ reduces _ => reduces) reduces)
    exact .bind (formed.mono fun _ _ ⟨exact_last, reduces⟩ =>
      conclude_completes exact counted exact_last reduces)
  · exact conclude_completes exact counted exact_after reduces

end Step

variable {p : Program ExtRat} {settings : Settings ExtRat} {start s : Session ExtRat}

/-- Simplification is done, or finds that there is no optimal solution, and leaves a session that single
    reductions lead to, each of them done. -/
theorem Session.Reaches.simplify_completes (built : p.Built) (begun : Session.begin p settings = .ok start)
    (reaches : start.Reaches s) : ∃ t, s.ReducesTo t ∧
      ((∃ summary, Step.simplify s = .ok summary t) ∨
        ∃ cause, Step.simplify s = .error (.noOptimum cause) t) := by
  obtain ⟨coherent, _, _, history⟩ := reaches.history begun
  have exact := history.rewrites.exact built.exact.asMinimization
  have counted := history.rewrites.counted coherent.counted.asMinimization
  obtain ⟨t, ⟨summary, run, reduces⟩ | ⟨cause, run⟩⟩ :=
    (Step.simplify_completes_reducesTo exact counted).ok_or_noOptimum
  · exact ⟨t, reduces, .inl ⟨summary, run⟩⟩
  · exact ⟨t, (Step.simplify_reducesTo exact.transposed .refl).stopped_of_noOptimum run, .inr ⟨cause, run⟩⟩

/-- Simplification goes on from a session that was partly reduced before. -/
theorem mixed_simplify_completes : ∃ t, mixedSession.ReducesTo t ∧
    ((∃ summary, Step.simplify mixedSession = .ok summary t) ∨
      ∃ cause, Step.simplify mixedSession = .error (.noOptimum cause) t) :=
  Session.Reaches.simplify_completes mixedProgram_built mixedStart_begun mixedSession_reached

end LinearReduction
