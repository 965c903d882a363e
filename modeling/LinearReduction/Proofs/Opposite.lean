import LinearReduction.Proofs.Exact.Values
import LinearReduction.Proofs.Recovery.Possible
import LinearReduction.Proofs.Scalar.Negation
import LinearReduction.Proofs.Session.Origin

/-!
# Opposite costs

To maximize a cost is to minimize its negation. Main statement: a program that maximizes and the program with
the opposite costs that minimizes go through the same reductions, whatever is asked of their sessions, and a
solution of the reduced program is recovered for both with the same values and statuses, with opposite duals,
and at opposite costs. No value is rounded in a different way on one of the two sides, except that costs are
only summed up alike in exact arithmetic.
-/

namespace LinearReduction

variable {α : Type} [Scalar α]

/-- The program that minimizes the opposite of every cost. -/
def Program.opposite (p : Program α) : Program α :=
  { p with
    sense := .minimize
    fixedCost := -p.fixedCost
    columns := p.columns.map fun column => { column with cost := -column.cost } }

/-- Laws of opposite values that rounding or signed zeros would break. -/
class LawfulNegation (α : Type) [Scalar α] : Prop where
  neg_zero : -(0 : α) = 0
  neg_add (x y : α) : -(x + y) = -x + -y
  neg_mul (x y : α) : -x * y = -(x * y)

/-- The infinity on the other side of zero. -/
theorem ExtRat.infinityOf_neg (a : ℚ) : infinityOf (-a) = neg (infinityOf a) := by
  unfold infinityOf
  rcases lt_trichotomy a 0 with below | rfl | above
  · rw [if_pos (neg_pos.2 below), if_neg below.not_gt, if_pos below]
    rfl
  · rfl
  · rw [if_neg (neg_neg_of_pos above).not_gt, if_pos (neg_neg_of_pos above), if_pos above]
    rfl

instance : LawfulNegation ExtRat where
  neg_zero := rfl
  neg_add x y := by
    cases x <;> cases y <;> first | rfl | exact congrArg ExtRat.finite (Rat.neg_add ..)
  neg_mul x y := by
    cases x <;> cases y
    case finite.finite a b => exact congrArg ExtRat.finite (Rat.neg_mul a b)
    case finite.posInf a => exact ExtRat.infinityOf_neg a
    case finite.negInf a => exact ExtRat.infinityOf_neg (-a)
    case posInf.finite b => exact ExtRat.infinityOf_neg b
    case negInf.finite b =>
      exact (congrArg ExtRat.infinityOf (neg_neg b).symm).trans (ExtRat.infinityOf_neg (-b))
    all_goals rfl

/-- Two recovered solutions for opposite costs, the second one of a program that minimizes. -/
structure Recovered.Opposes (a b : Recovered α) : Prop where
  primal_eq : b.solution.primal = a.solution.primal
  status_eq : b.solution.status? = a.solution.status?
  dual_opposite : a.solution.dual? = b.solution.dual?.map (·.map (-·))
  opposite_dual : ∀ [InvolutiveNegation α], b.solution.dual? = a.solution.dual?.map (·.map (-·))
  objective_opposite : ∀ [LawfulNegation α], b.objective = -a.objective

/-- Solutions are recovered in both sessions with opposite duals, or in none of them for the same reason. -/
def Session.RecoversOpposite (s t : Session α) (reduced : Solution α) : Prop :=
  match s.recover reduced, t.recover reduced with
  | .ok a, .ok b => a.Opposes b
  | .error fault, .error other => other = fault
  | _, _ => False

section

variable {p : Program α}

/-! ## Programs with opposite costs -/

namespace Program

theorem asMinimization_of_maximize (maximizes : p.sense = .maximize) : p.asMinimization = p.opposite := by
  rw [asMinimization, maximizes]
  rfl

theorem asMinimization_opposite (p : Program α) : p.opposite.asMinimization = p.opposite :=
  rfl

theorem active_columns_opposite (p : Program α) :
    p.opposite.columns.active = p.columns.active.map fun entry =>
      (entry.1, { entry.2 with cost := -entry.2.cost }) :=
  Slots.active_map _ p.columns

theorem isCoherent_opposite (p : Program α) : p.opposite.isCoherent = p.isCoherent := by
  have rows_eq : p.opposite.rows = p.rows := rfl
  have occupied_eq : p.opposite.columns.occupied = p.columns.occupied := rfl
  have found : ∀ j, p.opposite.columns.get? j = (p.columns.get? j).map fun column =>
      { column with cost := -column.cost } := Slots.get?_map _ p.columns
  -- The test looks at bounds and coefficients, and not at costs.
  simp only [isCoherent, countsAgree, boundsProper, rowsMirrored, columnsMirrored, columnsDistinct, rows_eq,
    occupied_eq, active_columns_opposite, List.length_map, List.all_map, Function.comp_def, found,
    Option.any_map]

theorem origin_sizedAs (p : Program α) : p.origin.SizedAs p.opposite.origin :=
  ⟨rfl, Slots.size_map ..⟩

end Program

/-! ## Costs of recovered points -/

section

variable [LawfulNegation α]

theorem Scalar.sum_opposite (terms : List α) : Scalar.sum (terms.map (-·)) = -Scalar.sum terms := by
  have from_any : ∀ start : α, (terms.map (-·)).foldl (· + ·) (-start) = -terms.foldl (· + ·) start := by
    induction terms with
    | nil => exact fun _ => rfl
    | cons first rest inductionHypothesis =>
      intro start
      rw [List.map_cons, List.foldl_cons, List.foldl_cons, ← LawfulNegation.neg_add]
      exact inductionHypothesis (start + first)
  -- The empty sum is negative zero, which is no other zero here.
  have from_zero := from_any 0
  rw [LawfulNegation.neg_zero] at from_zero
  rwa [Scalar.sum, Scalar.sum, LawfulNegation.neg_zero]

theorem Program.costs_opposite (p : Program α) : p.opposite.origin.costs = p.origin.costs.map (-·) := by
  simp only [origin, opposite, Slots.map, Array.toList_map, List.map_map]
  refine List.map_congr_left fun cell _ => ?_
  cases cell with
  | none => exact LawfulNegation.neg_zero.symm
  | some column => rfl

theorem Program.objective_opposite (p : Program α) (values : List α) :
    p.opposite.origin.objective values = -p.origin.objective values := by
  have terms : List.zipWith (· * ·) p.opposite.origin.costs values =
      (List.zipWith (· * ·) p.origin.costs values).map (-·) := by
    rw [p.costs_opposite, List.zipWith_map_left, List.map_zipWith]
    simp only [LawfulNegation.neg_mul]
  rw [Origin.objective, Origin.objective, terms, Scalar.sum_opposite, LawfulNegation.neg_add]
  rfl

end

/-! ## Recovery on both sides -/

theorem Sides.map_neg_neg [InvolutiveNegation α] (a : Sides α) : (a.map (-·)).map (-·) = a := by
  have twice : ((-·) ∘ (-·) : α → α) = id := funext InvolutiveNegation.neg_neg
  simp only [map, List.map_map, twice, List.map_id]

namespace Solution

theorem primal_withOppositeDual (solution : Solution α) :
    solution.withOppositeDual.primal = solution.primal := by
  cases solution <;> rfl

theorem status?_withOppositeDual (solution : Solution α) :
    solution.withOppositeDual.status? = solution.status? := by
  cases solution <;> rfl

theorem dual?_withOppositeDual (solution : Solution α) :
    solution.withOppositeDual.dual? = solution.dual?.map (·.map (-·)) := by
  cases solution <;> rfl

end Solution

namespace Session

variable {s t : Session α} {settings : Settings α}

theorem begin_opposite (maximizes : p.sense = .maximize) :
    Session.begin p.opposite settings = (Session.begin p settings).map (·.withOrigin p.opposite.origin) := by
  rw [Session.begin, Session.begin, p.isCoherent_opposite, Program.asMinimization_of_maximize maximizes,
    Program.asMinimization_opposite]
  split <;> rfl

theorem recovers_withOrigin (origin_eq : s.origin = p.origin) (maximizes : p.sense = .maximize)
    (reduced : Solution α) : s.RecoversOpposite (s.withOrigin p.opposite.origin) reduced := by
  have sized : s.origin.SizedAs p.opposite.origin := by
    rw [origin_eq]
    exact p.origin_sizedAs
  have sense : s.origin.sense = .maximize := origin_eq ▸ maximizes
  unfold RecoversOpposite
  rw [recover_eq_map, recover_eq_map, replay_withOrigin sized]
  cases s.replay reduced with
  | error fault => rfl
  | ok undone =>
    have turned : s.inSense undone = undone.withOppositeDual := by rw [inSense, sense]
    have kept : (s.withOrigin p.opposite.origin).inSense undone = undone := rfl
    simp only [Except.map, turned, kept]
    refine ⟨undone.primal_withOppositeDual.symm, undone.status?_withOppositeDual.symm,
      undone.dual?_withOppositeDual, ?_, ?_⟩
    · intro _
      simp only [Solution.dual?_withOppositeDual, Option.map_map, Function.comp_def, Sides.map_neg_neg,
        Option.map_id_fun', id]
    · intro _
      simp only [Solution.primal_withOppositeDual, withOrigin, origin_eq]
      exact p.objective_opposite _

/-- Maximizing is minimizing the opposite. -/
theorem maximize_alike_opposite (maximizes : p.sense = .maximize) :
    (∀ fault, Session.begin p settings = .error fault ↔ Session.begin p.opposite settings = .error fault) ∧
    ∀ start, Session.begin p settings = .ok start → ∃ other, Session.begin p.opposite settings = .ok other ∧
      ∀ calls, (other.run calls).1 = (start.run calls).1 ∧
        (other.run calls).2.program = (start.run calls).2.program ∧
        (other.run calls).2.records = (start.run calls).2.records ∧
        (other.run calls).2.tally = (start.run calls).2.tally ∧
        ∀ reduced, (start.run calls).2.RecoversOpposite (other.run calls).2 reduced := by
  have opposite : Session.begin p.opposite settings = _ := begin_opposite maximizes
  refine ⟨fun fault => ?_, fun start begun => ⟨start.withOrigin p.opposite.origin, ?_, fun calls => ?_⟩⟩
  · rw [opposite]
    cases Session.begin p settings <;> simp [Except.map]
  · rw [opposite, begun]
    rfl
  · obtain ⟨_, rfl⟩ := begin_eq_ok begun
    rw [run_withOrigin p.origin_sizedAs]
    exact ⟨rfl, rfl, rfl, rfl, recovers_withOrigin (origin_run _ calls) maximizes⟩

theorem mixed_alike_opposite : ∃ other, Session.begin mixedProgram.opposite mixedStart.settings = .ok other ∧
    (other.run (mixedCalls ++ [.simplify])).2.records =
      (mixedStart.run (mixedCalls ++ [.simplify])).2.records ∧
    (mixedStart.run mixedCalls).2.RecoversOpposite (other.run mixedCalls).2
      mixedSolution := by
  have maximizes : mixedProgram.sense = .maximize := rfl
  obtain ⟨other, begun, alike⟩ := (maximize_alike_opposite maximizes).2 mixedStart mixedStart_begun
  exact ⟨other, begun, (alike _).2.2.1, (alike _).2.2.2.2 mixedSolution⟩

end Session

end

end LinearReduction
