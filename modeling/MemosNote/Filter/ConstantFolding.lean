import Mathlib.Algebra.Order.Ring.Int
import MemosNote.Filter.Parser
import MemosNote.Filter.Rows

/-!
# Constant folding

The right side of a comparison may be an arithmetic expression over literals.  Folding computes it
in 64-bit integers: numbers as they are, instants and durations in seconds, every literal cut to
whole seconds on its own.  A column counts whole seconds, so the comparison should come out as with
the exact value of the expression.

Main results:

- Theorem {lit}`evaluate_num`, Theorem {lit}`evaluate_time`: what an expression folds to.
- Theorem {lit}`compare_scaled_iff`: when whole seconds decide a comparison with an instant.
- Theorem {lit}`constant_folding_exact_iff`: for which expressions the comparison comes out exactly.
-/

namespace MemosNote
namespace Filter

/-! ## Expressions over numbers -/

/-- The arithmetic operators. -/
inductive ArithOp where
  | add
  | sub
  | mul
  | div
  | rem
deriving DecidableEq, Repr

/-- The function that an operator is parsed to. -/
def ArithOp.function : ArithOp → String
  | add => "_+_"
  | sub => "_-_"
  | mul => "_*_"
  | div => "_/_"
  | rem => "_%_"

/-- Exact arithmetic; a division truncates. -/
def ArithOp.exact : ArithOp → ℤ → ℤ → Option ℤ
  | add, a, b => some (a + b)
  | sub, a, b => some (a - b)
  | mul, a, b => some (a * b)
  | div, a, b => if b = 0 then none else some (a.tdiv b)
  | rem, a, b => if b = 0 then none else some (a.tmod b)

/-- The types of numbers; the type checker does not mix them. -/
inductive NumSort where
  | int
  | uint
deriving DecidableEq, Repr

abbrev NumSort.Literal : NumSort → Type
  | int => Int64
  | uint => UInt64

def NumSort.const : (s : NumSort) → s.Literal → Constant
  | int, n => .int64Value n
  | uint, n => .uint64Value n

def NumSort.value : (s : NumSort) → s.Literal → ℤ
  | int, n => n.toInt
  | uint, n => n.toNat

/-- A constant expression over numbers. -/
inductive NumExpr (s : NumSort) where
  | literal (n : s.Literal)
  | neg (e : NumExpr s)
  | arith (op : ArithOp) (l r : NumExpr s)

/-- A number of 64 bits. -/
def Fits (n : ℤ) : Prop :=
  -2 ^ 63 ≤ n ∧ n < 2 ^ 63

namespace NumExpr

variable {s : NumSort}

/-- The checked expression. -/
def expr : NumExpr s → Expr
  | literal n => .const (s.const n)
  | neg e => .call none "-_" [e.expr]
  | arith op l r => .call none op.function [l.expr, r.expr]

/-- The exact value, unless something is divided by zero. -/
def exact : NumExpr s → Option ℤ
  | literal n => some (s.value n)
  | neg e => e.exact.map (- ·)
  | arith op l r => do op.exact (← l.exact) (← r.exact)

/-- The value has 64 bits, if there is one. -/
def ValueFits (e : NumExpr s) : Prop :=
  ∀ v, e.exact = some v → Fits v

/-- Nothing is divided, and nothing divides, that has more than 64 bits. -/
def DivisionsFit : NumExpr s → Prop
  | literal _ => True
  | neg e => e.DivisionsFit
  | arith op l r =>
      l.DivisionsFit ∧ r.DivisionsFit ∧ (op = .div ∨ op = .rem → l.ValueFits ∧ r.ValueFits)

/-- Something else than a literal is negated, or something is divided by zero or by another multiple
of {lit}`2 ^ 64`, which wraps to zero. -/
def Refused : NumExpr s → Prop
  | literal _ => False
  | neg _ => True
  | arith op l r =>
      l.Refused ∨ r.Refused ∨
        (op = .div ∨ op = .rem) ∧ r.DivisionsFit ∧ ∃ b, r.exact = some b ∧ 2 ^ 64 ∣ b

end NumExpr

/-! ## Expressions over instants and durations -/

/-- The types of points and spans of time. -/
inductive TimeSort where
  | timestamp
  | duration
deriving DecidableEq, Repr

/-- The type of a sum, if it has one. -/
def TimeSort.add : TimeSort → TimeSort → Option TimeSort
  | timestamp, duration => some timestamp
  | duration, timestamp => some timestamp
  | duration, duration => some duration
  | timestamp, timestamp => none

/-- The type of a difference, if it has one. -/
def TimeSort.sub : TimeSort → TimeSort → Option TimeSort
  | timestamp, duration => some timestamp
  | timestamp, timestamp => some duration
  | duration, duration => some duration
  | duration, timestamp => none

/-- A constant expression over time. -/
inductive TimeExpr : TimeSort → Type where
  | now : TimeExpr .timestamp
  | timestampText (text : String) : TimeExpr .timestamp
  | timestampInt (n : Int64) : TimeExpr .timestamp
  | durationText (text : String) : TimeExpr .duration
  | add {s t u : TimeSort} (h : s.add t = some u) (l : TimeExpr s) (r : TimeExpr t) : TimeExpr u
  | sub {s t u : TimeSort} (h : s.sub t = some u) (l : TimeExpr s) (r : TimeExpr t) : TimeExpr u

/-- Nanoseconds in a second. -/
def nanosPerSecond : ℤ :=
  1000000000

/-- What the texts of times denote, in nanoseconds, and the frozen time. -/
structure Clock where
  now : ℤ
  timestamp : String → Except String ℤ
  duration : String → Except String ℤ
  /-- The seconds of a duration, which go through a double before they are truncated. -/
  seconds : ℤ → ℤ
  seconds_near : ∀ n, -nanosPerSecond < n - seconds n * nanosPerSecond ∧
    n - seconds n * nanosPerSecond < nanosPerSecond

/-- What the compiler knows of a clock: whole seconds. -/
def Clock.context (clock : Clock) (schema : Schema) : ParseContext where
  schema := schema
  now := Int64.ofInt (clock.now / nanosPerSecond)
  parseTimestamp text := (clock.timestamp text).map fun n => Int64.ofInt (n / nanosPerSecond)
  parseDuration text := (clock.duration text).map fun n => Int64.ofInt (clock.seconds n)

namespace TimeExpr

variable {s : TimeSort} (clock : Clock)

/-- The checked expression. -/
def expr {s : TimeSort} : TimeExpr s → Expr
  | now => .ident "now"
  | timestampText text => .call none "timestamp" [.const (.stringValue text)]
  | timestampInt n => .call none "timestamp" [.const (.int64Value n)]
  | durationText text => .call none "duration" [.const (.stringValue text)]
  | add _ l r => .call none "_+_" [l.expr, r.expr]
  | sub _ l r => .call none "_-_" [l.expr, r.expr]

/-- The number of literals. -/
def leaves {s : TimeSort} : TimeExpr s → ℕ
  | now | timestampText _ | timestampInt _ | durationText _ => 1
  | add _ l r | sub _ l r => l.leaves + r.leaves

/-- The exact value in nanoseconds, if all texts denote times. -/
def exact {s : TimeSort} : TimeExpr s → Option ℤ
  | now => some clock.now
  | timestampText text => (clock.timestamp text).toOption
  | timestampInt n => some (n.toInt * nanosPerSecond)
  | durationText text => (clock.duration text).toOption
  | add _ l r => do return (← l.exact) + (← r.exact)
  | sub _ l r => do return (← l.exact) - (← r.exact)

/-- The value in seconds with every literal cut to whole seconds. -/
def whole {s : TimeSort} : TimeExpr s → Option ℤ
  | now => some (clock.now / nanosPerSecond)
  | timestampText text => (clock.timestamp text).toOption.map (· / nanosPerSecond)
  | timestampInt n => some n.toInt
  | durationText text => (clock.duration text).toOption.map clock.seconds
  | add _ l r => do return (← l.whole) + (← r.whole)
  | sub _ l r => do return (← l.whole) - (← r.whole)

/-- The nanoseconds that are cut off, with their signs. -/
def dropped {s : TimeSort} : TimeExpr s → Option ℤ
  | now => some (clock.now % nanosPerSecond)
  | timestampText text => (clock.timestamp text).toOption.map (· % nanosPerSecond)
  | timestampInt _ => some 0
  | durationText text =>
      (clock.duration text).toOption.map fun n => n - clock.seconds n * nanosPerSecond
  | add _ l r => do return (← l.dropped) + (← r.dropped)
  | sub _ l r => do return (← l.dropped) - (← r.dropped)

end TimeExpr

/-! ## Folding numbers -/

/-- Folding goes through the operands from left to right. -/
theorem evaluateNumeric_arith (pc : ParseContext) (op : ArithOp) (l r : Expr) :
    evaluateNumeric pc (.call none op.function [l, r]) =
      (evaluateNumeric pc l).bind fun x => x.elim (.ok none) fun left =>
        (evaluateNumeric pc r).bind fun y => y.elim (.ok none) fun right =>
          evaluateArithmetic op.function left right := by
  have hname : op.function ≠ "timestamp" ∧ op.function ≠ "duration" ∧
      isArithmetic op.function = true := by
    cases op <;> decide
  rcases hname with ⟨htimestamp, hduration, harith⟩
  conv_lhs => unfold evaluateNumeric
  simp only [htimestamp, hduration, harith, if_true, if_false]
  cases evaluateNumeric pc l with
  | error message => rfl
  | ok x =>
      cases x with
      | none => rfl
      | some left =>
          cases evaluateNumeric pc r with
          | error message => rfl
          | ok y => cases y <;> rfl

/-- Without a left operand nothing is folded. -/
theorem evaluateNumeric_left {pc : ParseContext} {op : ArithOp} {l r : Expr}
    (h : ∀ v, evaluateNumeric pc l ≠ .ok (some v)) :
    ∀ v, evaluateNumeric pc (.call none op.function [l, r]) ≠ .ok (some v) := by
  intro v
  rw [evaluateNumeric_arith]
  cases hl : evaluateNumeric pc l with
  | error message => exact fun hv => by cases hv
  | ok x =>
      cases x with
      | none => exact fun hv => by cases hv
      | some left => exact absurd hl (h left)

/-- Without a right operand nothing is folded. -/
theorem evaluateNumeric_right {pc : ParseContext} {op : ArithOp} {l r : Expr}
    (h : ∀ v, evaluateNumeric pc r ≠ .ok (some v)) :
    ∀ v, evaluateNumeric pc (.call none op.function [l, r]) ≠ .ok (some v) := by
  intro v
  rw [evaluateNumeric_arith]
  cases evaluateNumeric pc l with
  | error message => exact fun hv => by cases hv
  | ok x =>
      cases x with
      | none => exact fun hv => by cases hv
      | some left =>
          change (evaluateNumeric pc r).bind _ ≠ _
          cases hr : evaluateNumeric pc r with
          | error message => exact fun hv => by cases hv
          | ok y =>
              cases y with
              | none => exact fun hv => by cases hv
              | some right => exact absurd hr (h right)

private theorem evaluateArithmetic_exact {op : ArithOp} {a b : ℤ}
    (h : op = .div ∨ op = .rem → Fits a ∧ Fits b) :
    (∃ message, evaluateArithmetic op.function (Int64.ofInt a) (Int64.ofInt b) = .error message ∧
      op.exact a b = none) ∨
    ∃ v, op.exact a b = some v ∧
      evaluateArithmetic op.function (Int64.ofInt a) (Int64.ofInt b) =
        .ok (some (Int64.ofInt v)) := by
  have hzero : Fits b → (Int64.ofInt b = 0 ↔ b = 0) := by
    intro hb
    rw [← Int64.toInt_inj, Int64.toInt_ofInt_of_le hb.1 hb.2]
    rfl
  cases op with
  | add =>
      refine .inr ⟨a + b, rfl, ?_⟩
      rw [Int64.ofInt_add]
      rfl
  | sub =>
      refine .inr ⟨a - b, rfl, ?_⟩
      rw [Int64.ofInt_sub]
      rfl
  | mul =>
      refine .inr ⟨a * b, rfl, ?_⟩
      rw [Int64.ofInt_mul]
      rfl
  | div =>
      rcases h (.inl rfl) with ⟨ha, hb⟩
      have hstep : evaluateArithmetic ArithOp.div.function (Int64.ofInt a) (Int64.ofInt b) =
          if Int64.ofInt b = 0 then .error "division by zero"
          else .ok (some (Int64.ofInt a / Int64.ofInt b)) := rfl
      rw [hstep, ArithOp.exact]
      by_cases hb0 : b = 0
      · exact .inl ⟨_, if_pos ((hzero hb).mpr hb0), if_pos hb0⟩
      · refine .inr ⟨_, if_neg hb0, ?_⟩
        rw [if_neg (mt (hzero hb).mp hb0), Int64.ofInt_tdiv ha.1 (Int.le_of_lt_add_one ha.2) hb.1
          (Int.le_of_lt_add_one hb.2)]
  | rem =>
      rcases h (.inr rfl) with ⟨ha, hb⟩
      have hstep : evaluateArithmetic ArithOp.rem.function (Int64.ofInt a) (Int64.ofInt b) =
          if Int64.ofInt b = 0 then .error "modulo by zero"
          else .ok (some (Int64.ofInt a % Int64.ofInt b)) := rfl
      rw [hstep, ArithOp.exact]
      by_cases hb0 : b = 0
      · exact .inl ⟨_, if_pos ((hzero hb).mpr hb0), if_pos hb0⟩
      · refine .inr ⟨_, if_neg hb0, ?_⟩
        rw [if_neg (mt (hzero hb).mp hb0), Int64.ofInt_tmod ha.1 (Int.le_of_lt_add_one ha.2) hb.1
          (Int.le_of_lt_add_one hb.2)]

theorem NumSort.getConstValue_const (s : NumSort) (n : s.Literal) :
    getConstValue (.const (s.const n)) = .ok (.int (Int64.ofInt (s.value n))) := by
  cases s with
  | int =>
      have hvalue : Int64.ofInt (NumSort.int.value n) = n := Int64.ofInt_toInt n
      rw [hvalue]
      rfl
  | uint =>
      have hvalue : Int64.ofInt (NumSort.uint.value n) = UInt64.toInt64 n := by
        have hbits : (Int64.ofInt (UInt64.toNat n : ℤ)).toBitVec = UInt64.toBitVec n := by
          rw [Int64.ofInt_eq_ofNat, Int64.toBitVec_ofNat']
          exact BitVec.ofNat_toNat _ _
        exact Int64.toBitVec.inj hbits
      rw [hvalue]
      rfl

/-- An expression whose divisions fit folds to its exact value, wrapped to 64 bits; one that divides
by zero or negates something is refused. -/
theorem evaluate_num (pc : ParseContext) {s : NumSort} {e : NumExpr s} (h : e.DivisionsFit) :
    ((∀ v, evaluateNumeric pc e.expr ≠ .ok (some v)) ∧ (e.Refused ∨ e.exact = none)) ∨
      ∃ v, e.exact = some v ∧ evaluateNumeric pc e.expr = .ok (some (Int64.ofInt v)) := by
  induction e with
  | literal n =>
      refine .inr ⟨s.value n, rfl, ?_⟩
      have hconst := s.getConstValue_const n
      rw [NumExpr.expr, evaluateNumeric, hconst]
      rfl
  | neg e ih =>
      refine .inl ⟨fun v hv => ?_, .inl trivial⟩
      have heval : evaluateNumeric pc (NumExpr.neg e).expr = .ok none := rfl
      rw [heval] at hv
      cases hv
  | arith op l r ihl ihr =>
      rcases h with ⟨hl, hr, hfit⟩
      rw [NumExpr.expr]
      rcases ihl hl with ⟨hnone, hwhy⟩ | ⟨a, hexactl, hevall⟩
      · refine .inl ⟨evaluateNumeric_left hnone, ?_⟩
        rcases hwhy with hrefused | hexact
        · exact .inl (.inl hrefused)
        · right
          rw [NumExpr.exact, hexact]
          rfl
      · rcases ihr hr with ⟨hnone, hwhy⟩ | ⟨b, hexactr, hevalr⟩
        · refine .inl ⟨evaluateNumeric_right hnone, ?_⟩
          rcases hwhy with hrefused | hexact
          · exact .inl (.inr (.inl hrefused))
          · right
            rw [NumExpr.exact, hexactl, hexact]
            rfl
        · have hexact : (NumExpr.arith op l r).exact = op.exact a b := by
            rw [NumExpr.exact, hexactl, hexactr]
            rfl
          have hfits : op = .div ∨ op = .rem → Fits a ∧ Fits b := by
            intro hop
            exact ⟨(hfit hop).1 a hexactl, (hfit hop).2 b hexactr⟩
          have hstep : evaluateNumeric pc (.call none op.function [l.expr, r.expr]) =
              evaluateArithmetic op.function (Int64.ofInt a) (Int64.ofInt b) := by
            rw [evaluateNumeric_arith, hevall, hevalr]
            rfl
          rw [hexact, hstep]
          rcases evaluateArithmetic_exact hfits with ⟨message, heval, hnone⟩ | ⟨v, hv, heval⟩
          · refine .inl ⟨fun v hv => ?_, .inr hnone⟩
            rw [heval] at hv
            cases hv
          · exact .inr ⟨v, hv, heval⟩

/-- Multiples of {lit}`2 ^ 64` wrap to zero. -/
theorem ofInt_eq_zero {b : ℤ} (h : (2 : ℤ) ^ 64 ∣ b) : Int64.ofInt b = 0 := by
  rw [← Int64.toInt_inj, Int64.toInt_ofInt]
  exact Int.bmod_eq_zero_of_dvd h

/-- What is refused does not fold to a number. -/
theorem evaluate_refused (pc : ParseContext) {s : NumSort} {e : NumExpr s} (h : e.Refused) :
    ∀ v, evaluateNumeric pc e.expr ≠ .ok (some v) := by
  induction e with
  | literal n => exact absurd h id
  | neg e ih =>
      intro v hv
      have heval : evaluateNumeric pc (NumExpr.neg e).expr = .ok none := rfl
      rw [heval] at hv
      cases hv
  | arith op l r ihl ihr =>
      rw [NumExpr.expr]
      rcases h with hl | hr | ⟨hop, hfit, b, hexact, hzero⟩
      · exact evaluateNumeric_left (ihl hl)
      · exact evaluateNumeric_right (ihr hr)
      · rcases evaluate_num pc hfit with ⟨hnone, -⟩ | ⟨b', hexact', heval⟩
        · exact evaluateNumeric_right hnone
        · cases hexact.symm.trans hexact'
          rw [ofInt_eq_zero hzero] at heval
          intro v
          rw [evaluateNumeric_arith, heval]
          cases evaluateNumeric pc l.expr with
          | error message => exact fun hv => by cases hv
          | ok x =>
              cases x with
              | none => exact fun hv => by cases hv
              | some left =>
                  rcases hop with rfl | rfl
                  · exact fun hv => by cases hv
                  · exact fun hv => by cases hv

/-! ## Folding times -/

/-- A time folds to the sum of its whole seconds, wrapped to 64 bits. -/
theorem evaluate_time (clock : Clock) (schema : Schema) {s : TimeSort} (e : TimeExpr s) :
    (∃ message, evaluateNumeric (clock.context schema) e.expr = .error message ∧
        e.whole clock = none) ∨
      ∃ w δ, e.whole clock = some w ∧ e.dropped clock = some δ ∧
        e.exact clock = some (w * nanosPerSecond + δ) ∧
        (-(e.leaves * nanosPerSecond) < δ ∧ δ < e.leaves * nanosPerSecond) ∧
        evaluateNumeric (clock.context schema) e.expr = .ok (some (Int64.ofInt w)) := by
  have hcut : ∀ n : ℤ, n = n / nanosPerSecond * nanosPerSecond + n % nanosPerSecond ∧
      -(((1 : ℕ) : ℤ) * nanosPerSecond) < n % nanosPerSecond ∧
        n % nanosPerSecond < ((1 : ℕ) : ℤ) * nanosPerSecond := by
    intro n
    have hdiv := Int.mul_ediv_add_emod n nanosPerSecond
    simp only [nanosPerSecond] at hdiv ⊢
    omega
  induction e with
  | now =>
      rcases hcut clock.now with ⟨heq, hbound⟩
      exact .inr ⟨_, _, rfl, rfl, congrArg some heq, hbound, rfl⟩
  | timestampInt n =>
      refine .inr ⟨n.toInt, 0, rfl, rfl, ?_, ?_, ?_⟩
      · rw [Int.add_zero]
        rfl
      · simp [TimeExpr.leaves, nanosPerSecond]
      · rw [Int64.ofInt_toInt]
        rfl
  | timestampText text =>
      have heval : evaluateNumeric (clock.context schema) (TimeExpr.timestampText text).expr =
          (wrapError "invalid timestamp literal" ((clock.timestamp text).map fun n =>
            Int64.ofInt (n / nanosPerSecond))).map some := rfl
      rw [heval]
      cases htext : clock.timestamp text with
      | error message =>
          refine .inl ⟨_, rfl, ?_⟩
          rw [TimeExpr.whole, htext]
          rfl
      | ok n =>
          rcases hcut n with ⟨heq, hbound⟩
          refine .inr ⟨n / nanosPerSecond, n % nanosPerSecond, ?_, ?_, ?_, hbound, rfl⟩
          · rw [TimeExpr.whole, htext]
            rfl
          · rw [TimeExpr.dropped, htext]
            rfl
          · rw [TimeExpr.exact, htext]
            exact congrArg some heq
  | durationText text =>
      have heval : evaluateNumeric (clock.context schema) (TimeExpr.durationText text).expr =
          (wrapError "invalid duration literal" ((clock.duration text).map fun n =>
            Int64.ofInt (clock.seconds n))).map some := rfl
      rw [heval]
      cases htext : clock.duration text with
      | error message =>
          refine .inl ⟨_, rfl, ?_⟩
          rw [TimeExpr.whole, htext]
          rfl
      | ok n =>
          refine .inr ⟨clock.seconds n, n - clock.seconds n * nanosPerSecond, ?_, ?_, ?_, ?_, rfl⟩
          · rw [TimeExpr.whole, htext]
            rfl
          · rw [TimeExpr.dropped, htext]
            rfl
          · rw [TimeExpr.exact, htext]
            have heq : n = clock.seconds n * nanosPerSecond +
                (n - clock.seconds n * nanosPerSecond) := by omega
            exact congrArg some heq
          · have hnear := clock.seconds_near n
            simp only [TimeExpr.leaves] at hnear ⊢
            omega
  | add h l r ihl ihr =>
      have heval : evaluateNumeric (clock.context schema) (TimeExpr.add h l r).expr =
          evaluateNumeric (clock.context schema)
            (.call none ArithOp.add.function [l.expr, r.expr]) := rfl
      rw [heval, evaluateNumeric_arith]
      rcases ihl with ⟨message, hl, hwl⟩ | ⟨a, α, hwl, hdl, hel, hbl, hl⟩
      · rw [hl]
        refine .inl ⟨message, rfl, ?_⟩
        rw [TimeExpr.whole, hwl]
        rfl
      · rcases ihr with ⟨message, hr, hwr⟩ | ⟨b, β, hwr, hdr, her, hbr, hr⟩
        · rw [hl, hr]
          refine .inl ⟨message, rfl, ?_⟩
          rw [TimeExpr.whole, hwl, hwr]
          rfl
        · rw [hl, hr]
          refine .inr ⟨a + b, α + β, ?_, ?_, ?_, ?_, ?_⟩
          · rw [TimeExpr.whole, hwl, hwr]
            rfl
          · rw [TimeExpr.dropped, hdl, hdr]
            rfl
          · have hsum : (a + b) * nanosPerSecond + (α + β) =
                a * nanosPerSecond + α + (b * nanosPerSecond + β) := by
              rw [Int.add_mul]
              omega
            rw [TimeExpr.exact, hel, her, hsum]
            rfl
          · simp only [TimeExpr.leaves, Int.natCast_add, Int.add_mul]
            omega
          · rw [Int64.ofInt_add]
            rfl
  | sub h l r ihl ihr =>
      have heval : evaluateNumeric (clock.context schema) (TimeExpr.sub h l r).expr =
          evaluateNumeric (clock.context schema)
            (.call none ArithOp.sub.function [l.expr, r.expr]) := rfl
      rw [heval, evaluateNumeric_arith]
      rcases ihl with ⟨message, hl, hwl⟩ | ⟨a, α, hwl, hdl, hel, hbl, hl⟩
      · rw [hl]
        refine .inl ⟨message, rfl, ?_⟩
        rw [TimeExpr.whole, hwl]
        rfl
      · rcases ihr with ⟨message, hr, hwr⟩ | ⟨b, β, hwr, hdr, her, hbr, hr⟩
        · rw [hl, hr]
          refine .inl ⟨message, rfl, ?_⟩
          rw [TimeExpr.whole, hwl, hwr]
          rfl
        · rw [hl, hr]
          refine .inr ⟨a - b, α - β, ?_, ?_, ?_, ?_, ?_⟩
          · rw [TimeExpr.whole, hwl, hwr]
            rfl
          · rw [TimeExpr.dropped, hdl, hdr]
            rfl
          · have hdiff : (a - b) * nanosPerSecond + (α - β) =
                a * nanosPerSecond + α - (b * nanosPerSecond + β) := by
              rw [Int.sub_mul]
              omega
            rw [TimeExpr.exact, hel, her, hdiff]
            rfl
          · simp only [TimeExpr.leaves, Int.natCast_add, Int.add_mul]
            omega
          · rw [Int64.ofInt_sub]
            rfl

/-! ## Comparing with whole seconds -/

/-- The rest of an exact value behind whole seconds that does not change a comparison. -/
def ComparisonOperator.Tolerates (op : ComparisonOperator) (δ : ℤ) : Prop :=
  match op with
  | .eq | .neq => δ = 0
  | .lt | .gte => -nanosPerSecond < δ ∧ δ ≤ 0
  | .lte | .gt => 0 ≤ δ ∧ δ < nanosPerSecond

private theorem test_compare (op : ComparisonOperator) (a b : ℤ) :
    op.test (compare a b) = true ↔
      match op with
      | .eq => a = b
      | .neq => a ≠ b
      | .lt => a < b
      | .lte => a ≤ b
      | .gt => b < a
      | .gte => b ≤ a := by
  cases op with
  | eq => simp [ComparisonOperator.test]
  | neq => simp [ComparisonOperator.test]
  | lt => simp [ComparisonOperator.test, Int.compare_eq_lt]
  | lte => simp [ComparisonOperator.test, Int.compare_ne_gt]
  | gt => simp [ComparisonOperator.test, Int.compare_eq_gt]
  | gte => simp [ComparisonOperator.test, Int.compare_ne_lt]

/-- Whole seconds stand for an exact value in every comparison exactly when the rest is
tolerated. -/
theorem compare_scaled_iff (op : ComparisonOperator) (f x : ℤ) :
    (∀ c : ℤ, op.test (compare c f) = op.test (compare (c * nanosPerSecond) x)) ↔
      op.Tolerates (x - f * nanosPerSecond) := by
  have hbool : ∀ c : ℤ, op.test (compare c f) = op.test (compare (c * nanosPerSecond) x) ↔
      (op.test (compare c f) = true ↔ op.test (compare (c * nanosPerSecond) x) = true) :=
    fun c => Bool.eq_iff_iff
  rw [forall_congr' hbool]
  simp only [test_compare, ComparisonOperator.Tolerates, nanosPerSecond]
  cases op with
  | eq =>
      refine ⟨fun h => ?_, fun h c => ?_⟩
      · have hself := (h f).mp rfl
        omega
      · constructor <;> intro <;> omega
  | neq =>
      refine ⟨fun h => ?_, fun h c => ?_⟩
      · by_contra hne
        have hself : f * 1000000000 ≠ x := by omega
        exact (h f).mpr hself rfl
      · constructor <;> intro <;> omega
  | lt =>
      refine ⟨fun h => ?_, fun h c => ?_⟩
      · have hbelow := (h (f - 1)).mp (by omega)
        have hself := mt (h f).mpr (by omega)
        omega
      · constructor <;> intro <;> omega
  | lte =>
      refine ⟨fun h => ?_, fun h c => ?_⟩
      · have hself := (h f).mp (by omega)
        have habove := mt (h (f + 1)).mpr (by omega)
        omega
      · constructor <;> intro <;> omega
  | gt =>
      refine ⟨fun h => ?_, fun h c => ?_⟩
      · have habove := (h (f + 1)).mp (by omega)
        have hself := mt (h f).mpr (by omega)
        omega
      · constructor <;> intro <;> omega
  | gte =>
      refine ⟨fun h => ?_, fun h c => ?_⟩
      · have hself := (h f).mp (by omega)
        have hbelow := mt (h (f - 1)).mpr (by omega)
        omega
      · constructor <;> intro <;> omega

/-- Whole numbers stand for an exact number in every comparison exactly when they are equal. -/
theorem compare_iff (op : ComparisonOperator) (f x : ℤ) :
    (∀ c : ℤ, op.test (compare c f) = op.test (compare c x)) ↔ f = x := by
  constructor
  · intro h
    have hbool : ∀ c : ℤ, op.test (compare c f) = true ↔ op.test (compare c x) = true :=
      fun c => Bool.eq_iff_iff.mp (h c)
    simp only [test_compare] at hbool
    have hf := hbool f
    have hx := hbool x
    cases op <;> simp at hf hx <;> omega
  · rintro rfl c
    rfl

/-! ## What is compared -/

/-- The folded value of an expression compares with every number of seconds as the exact value
does, unless compilation fails. -/
def FoldsExactly (pc : ParseContext) (op : ComparisonOperator) (e : Expr) (scale : ℤ)
    (exact : Option ℤ) : Prop :=
  (∃ message, buildValueExpr pc e = .error message) ∨
    ∃ f x, buildValueExpr pc e = .ok (.literal (.int f)) ∧ exact = some x ∧
      ∀ c : ℤ, op.test (compare c f.toInt) = op.test (compare (c * scale) x)

/-- A call that is not folded to a number is refused. -/
private theorem build_call (pc : ParseContext) {function : String} (args : List Expr)
    (hsize : function ≠ "size") (hnot : function ≠ "!_") :
    buildValueExpr pc (.call none function args) =
      (evaluateNumeric pc (.call none function args)).bind fun x =>
        x.elim (.error "unsupported value expression") fun v => .ok (.literal (.int v)) := by
  have hbool : evaluateBoolExpr (.call none function args) = .ok none := by
    unfold evaluateBoolExpr
    split
    · rename_i heq
      cases heq
    · rename_i heq
      cases heq
      exact absurd rfl hnot
    · rfl
  have hfold : foldConstant pc (.call none function args) =
      (evaluateNumeric pc (.call none function args)).bind fun x =>
        x.elim ((evaluateBoolExpr (.call none function args)).map fun b => b.map .bool) fun v =>
          .ok (some (.int v)) := by
    have hconst : getConstValue (.call none function args) =
        .error "expression is not a literal" := rfl
    unfold foldConstant
    rw [hconst]
    cases evaluateNumeric pc (.call none function args) with
    | error message => rfl
    | ok x =>
        cases x with
        | some v => rfl
        | none =>
            cases evaluateBoolExpr (.call none function args) <;> rfl
  rw [hbool] at hfold
  conv_lhs => unfold buildValueExpr
  rw [hfold]
  cases evaluateNumeric pc (.call none function args) with
  | error message => rfl
  | ok x =>
      cases x with
      | some v => rfl
      | none => exact if_neg hsize

/-- The value of an expression over time is decided by its whole seconds: they fit 64 bits, and the
operator tolerates what was cut off. -/
def TimeExpr.SecondsSuffice {s : TimeSort} (clock : Clock) (op : ComparisonOperator)
    (e : TimeExpr s) : Prop :=
  ∀ w δ, e.whole clock = some w → e.dropped clock = some δ → Fits w ∧ op.Tolerates δ

/-- The expression is compiled as its folding says. -/
private theorem build_time (clock : Clock) (schema : Schema) {s : TimeSort} (e : TimeExpr s) :
    buildValueExpr (clock.context schema) e.expr =
      (evaluateNumeric (clock.context schema) e.expr).bind fun x =>
        x.elim (.error "unsupported value expression") fun v => .ok (.literal (.int v)) := by
  cases e with
  | now => rfl
  | timestampText text => exact build_call _ _ (by decide) (by decide)
  | timestampInt n => exact build_call _ _ (by decide) (by decide)
  | durationText text => exact build_call _ _ (by decide) (by decide)
  | add h l r => exact build_call _ _ (by decide) (by decide)
  | sub h l r => exact build_call _ _ (by decide) (by decide)

private theorem build_num (pc : ParseContext) {s : NumSort} (e : NumExpr s) :
    buildValueExpr pc e.expr =
      (evaluateNumeric pc e.expr).bind fun x =>
        x.elim (.error "unsupported value expression") fun v => .ok (.literal (.int v)) := by
  cases e with
  | literal n =>
      have hconst := s.getConstValue_const n
      have hfold : foldConstant pc (.const (s.const n)) =
          .ok (some (.int (Int64.ofInt (s.value n)))) := by
        unfold foldConstant
        rw [hconst]
        rfl
      have heval : evaluateNumeric pc (.const (s.const n)) =
          .ok (some (Int64.ofInt (s.value n))) := by
        rw [evaluateNumeric, hconst]
        rfl
      have hbuild : buildValueExpr pc (.const (s.const n)) =
          (foldConstant pc (.const (s.const n))).bind fun x =>
            x.elim (.error "unsupported value expression") fun l => .ok (.literal l) := by
        conv_lhs => unfold buildValueExpr
        cases foldConstant pc (.const (s.const n)) with
        | error message => rfl
        | ok x => cases x <;> rfl
      rw [NumExpr.expr, hbuild, hfold, heval]
      rfl
  | neg e => exact build_call _ _ (by decide) (by decide)
  | arith op l r =>
      exact build_call _ _ (by cases op <;> decide) (by cases op <;> decide)

private theorem toInt_ofInt_eq_iff (w : ℤ) : (Int64.ofInt w).toInt = w ↔ Fits w := by
  constructor
  · intro h
    rw [← h]
    exact ⟨Int64.le_toInt _, Int64.toInt_lt _⟩
  · exact fun h => Int64.toInt_ofInt_of_le h.1 h.2

/-- Wrapping moves a number by at least {lit}`2 ^ 64`, or not at all. -/
private theorem wrap_far (w : ℤ) (h : ¬Fits w) :
    (Int64.ofInt w).toInt + 2 ^ 64 ≤ w ∨ w + 2 ^ 64 ≤ (Int64.ofInt w).toInt := by
  have hwrap : (Int64.ofInt w).toInt = w.bmod (2 ^ 64) := Int64.toInt_ofInt
  have hne : w.bmod (2 ^ 64) ≠ w := fun heq => h ((toInt_ofInt_eq_iff w).mp (hwrap.trans heq))
  have hdvd : (18446744073709551616 : ℤ) ∣ w - w.bmod (2 ^ 64) := Int.dvd_self_sub_bmod
  rcases hdvd with ⟨k, hk⟩
  rw [hwrap]
  generalize w.bmod (2 ^ 64) = b at hk hne
  rcases Int.lt_trichotomy k 0 with hneg | hzero | hpos
  · right
    omega
  · rw [hzero, Int.mul_zero] at hk
    exact absurd (by omega) hne
  · left
    omega

/-- What an operator tolerates is less than a second. -/
private theorem Tolerates.bound {op : ComparisonOperator} {δ : ℤ} (h : op.Tolerates δ) :
    -nanosPerSecond < δ ∧ δ < nanosPerSecond := by
  simp only [nanosPerSecond]
  cases op <;> simp only [ComparisonOperator.Tolerates, nanosPerSecond] at h <;> omega

/-- A comparison with an expression over time comes out exactly if and only if its whole seconds
suffice. -/
theorem time_folding_exact_iff (schema : Schema) (clock : Clock) (op : ComparisonOperator)
    {s : TimeSort} (e : TimeExpr s) (hleaves : e.leaves < 2 ^ 63) :
    FoldsExactly (clock.context schema) op e.expr nanosPerSecond (e.exact clock) ↔
      e.SecondsSuffice clock op := by
  have hbuild := build_time clock schema e
  rcases evaluate_time clock schema e with ⟨message, heval, hwhole⟩ |
    ⟨w, δ, hwhole, hdropped, hexact, hbound, heval⟩
  · rw [heval] at hbuild
    constructor
    · intro _ w δ hw
      rw [hwhole] at hw
      cases hw
    · exact fun _ => .inl ⟨message, hbuild⟩
  · rw [heval] at hbuild
    have hsuffice : e.SecondsSuffice clock op ↔ Fits w ∧ op.Tolerates δ := by
      constructor
      · exact fun h => h w δ hwhole hdropped
      · intro h w' δ' hw hδ
        cases hwhole.symm.trans hw
        cases hdropped.symm.trans hδ
        exact h
    have hfolds : FoldsExactly (clock.context schema) op e.expr nanosPerSecond (e.exact clock) ↔
        op.Tolerates (w * nanosPerSecond + δ - (Int64.ofInt w).toInt * nanosPerSecond) := by
      rw [← compare_scaled_iff]
      constructor
      · rintro (⟨message, herror⟩ | ⟨f, x, hf, hx, htest⟩)
        · rw [hbuild] at herror
          cases herror
        · cases hbuild.symm.trans hf
          cases hexact.symm.trans hx
          exact htest
      · exact fun htest => .inr ⟨_, _, hbuild, hexact, htest⟩
    rw [hsuffice, hfolds]
    by_cases hfits : Fits w
    · rw [(toInt_ofInt_eq_iff w).mpr hfits]
      have hrest : w * nanosPerSecond + δ - w * nanosPerSecond = δ := by omega
      rw [hrest]
      exact ⟨fun h => ⟨hfits, h⟩, fun h => h.2⟩
    · constructor
      · intro htolerates
        -- the cut nanoseconds cannot make up for a wrap of 2 ^ 64 seconds
        have hnear := Tolerates.bound htolerates
        have hfar := wrap_far w hfits
        simp only [nanosPerSecond] at hnear hbound
        generalize (Int64.ofInt w).toInt = f at hnear hfar
        omega
      · exact fun h => absurd h.1 hfits

/-- A comparison with an expression over numbers comes out exactly when the expression is refused,
or its divisions and its value fit 64 bits; where the divisions fit, only then. -/
theorem num_folding_exact (schema : Schema) (clock : Clock) (op : ComparisonOperator)
    {s : NumSort} (e : NumExpr s) :
    (e.Refused ∨ (e.DivisionsFit ∧ e.ValueFits) →
      FoldsExactly (clock.context schema) op e.expr 1 e.exact) ∧
    (e.DivisionsFit → FoldsExactly (clock.context schema) op e.expr 1 e.exact →
      e.Refused ∨ e.ValueFits) := by
  have hbuild := build_num (clock.context schema) e
  have hrefused : (∀ v, evaluateNumeric (clock.context schema) e.expr ≠ .ok (some v)) →
      FoldsExactly (clock.context schema) op e.expr 1 e.exact := by
    intro hnone
    left
    rw [hbuild]
    cases heval : evaluateNumeric (clock.context schema) e.expr with
    | error message => exact ⟨message, rfl⟩
    | ok x =>
        cases x with
        | none => exact ⟨_, rfl⟩
        | some v => exact absurd heval (hnone v)
  have hscale : ∀ f x : ℤ,
      (∀ c : ℤ, op.test (compare c f) = op.test (compare (c * 1) x)) ↔ f = x := by
    intro f x
    simp only [Int.mul_one]
    exact compare_iff op f x
  constructor
  · rintro (hneg | ⟨hdivisions, hvalue⟩)
    · exact hrefused (evaluate_refused (clock.context schema) hneg)
    · rcases evaluate_num (clock.context schema) hdivisions with ⟨hnone, -⟩ | ⟨v, hexact, heval⟩
      · exact hrefused hnone
      · rw [heval] at hbuild
        have hfits := (toInt_ofInt_eq_iff v).mpr (hvalue v hexact)
        exact .inr ⟨_, v, hbuild, hexact, (hscale _ v).mpr hfits⟩
  · intro hdivisions hfolds
    rcases evaluate_num (clock.context schema) hdivisions with
      ⟨-, hwhy | hnone⟩ | ⟨v, hexact, heval⟩
    · exact .inl hwhy
    · right
      intro v hv
      rw [hnone] at hv
      cases hv
    · right
      rw [heval] at hbuild
      rcases hfolds with ⟨message, herror⟩ | ⟨f, x, hf, hx, htest⟩
      · rw [hbuild] at herror
        cases herror
      · cases hbuild.symm.trans hf
        cases hexact.symm.trans hx
        intro v' hv'
        cases hexact.symm.trans hv'
        exact (toInt_ofInt_eq_iff _).mp ((hscale _ _).mp htest)

/-- For which constant expressions a comparison with a column of whole seconds comes out as with
their exact values.  Over time: if and only if the seconds fit 64 bits and the operator tolerates
the cut nanoseconds.  Over numbers: if the expression negates something or divides by zero, which is
refused, or its divisions and its value fit 64 bits; and only if so where the divisions fit. -/
theorem constant_folding_exact_iff (schema : Schema) (clock : Clock) (op : ComparisonOperator) :
    (∀ (s : TimeSort) (e : {e : TimeExpr s // e.leaves < 2 ^ 63}),
      FoldsExactly (clock.context schema) op e.1.expr nanosPerSecond (e.1.exact clock) ↔
        e.1.SecondsSuffice clock op) ∧
    ∀ (s : NumSort) (e : NumExpr s),
      (e.Refused ∨ (e.DivisionsFit ∧ e.ValueFits) →
        FoldsExactly (clock.context schema) op e.expr 1 e.exact) ∧
      (e.DivisionsFit → FoldsExactly (clock.context schema) op e.expr 1 e.exact →
        e.Refused ∨ e.ValueFits) :=
  ⟨fun _ e => time_folding_exact_iff schema clock op e.1 e.2,
    fun _ e => num_folding_exact schema clock op e⟩

/-- A division by zero is refused, whatever would be folded after it. -/
example : (NumExpr.arith (s := .int) .add
    (.arith .div (.literal (1 : Int64)) (.literal (0 : Int64)))
    (.arith .div (.arith .add (.literal (9223372036854775807 : Int64)) (.literal (1 : Int64)))
      (.literal (1 : Int64)))).Refused :=
  .inl (.inr (.inr ⟨.inl rfl, trivial, 0, rfl, Int.dvd_zero _⟩))

/-- A clock at the turn of a year that reads a text with half a second. -/
def halfSecondClock : Clock where
  now := 1735689600000000000
  timestamp text :=
    if text = "2025-01-01T00:00:00.5Z" then .ok 1735689600500000000 else .error "cannot parse"
  duration text := if text = "1.5s" then .ok 1500000000 else .error "invalid duration"
  seconds n := n.tdiv nanosPerSecond
  seconds_near n := by
    have hdiv := Int.mul_tdiv_add_tmod n nanosPerSecond
    have hlow := Int.lt_tmod_of_pos n (show 0 < nanosPerSecond by decide)
    have hhigh := Int.tmod_lt_of_pos n (show 0 < nanosPerSecond by decide)
    rw [Int.mul_comm] at hdiv
    omega

/-- Half a second after the turn of the year. -/
def halfPastYear : TimeExpr .timestamp :=
  .timestampText "2025-01-01T00:00:00.5Z"

/-- A second and a half after the last second that an {lit}`int` counts. -/
def secondAfterLargest : TimeExpr .timestamp :=
  .add rfl (.timestampInt (9223372036854775807 : Int64)) (.durationText "1.5s")

/-- The largest {lit}`int` and one more. -/
def largestPlusOne : NumExpr .int :=
  .arith .add (.literal (9223372036854775807 : Int64)) (.literal (1 : Int64))

/-- The comparison `>` tolerates half a second, and a sum within 64 bits is exact. -/
theorem constant_folding_exact_iff_half_second :
    FoldsExactly (halfSecondClock.context newSchema) .gt halfPastYear.expr nanosPerSecond
        (some 1735689600500000000) ∧
      FoldsExactly (halfSecondClock.context newSchema) .eq
        (NumExpr.arith (s := .int) .add (.literal (1 : Int64)) (.literal (2 : Int64))).expr 1
        (some 3) := by
  rcases constant_folding_exact_iff newSchema halfSecondClock .gt with ⟨htime, -⟩
  rcases constant_folding_exact_iff newSchema halfSecondClock .eq with ⟨-, hnum⟩
  constructor
  · refine (htime .timestamp ⟨halfPastYear, by decide⟩).mpr ?_
    intro w δ hw hδ
    cases hw
    cases hδ
    constructor <;> constructor <;> decide
  · refine (hnum .int (.arith .add (.literal (1 : Int64)) (.literal (2 : Int64)))).1 (.inr ⟨?_, ?_⟩)
    · exact ⟨trivial, trivial, by rintro (h | h) <;> cases h⟩
    · intro v hv
      cases hv
      constructor <;> decide

/-- Half a second is cut off under `>=`: the row of that second is selected although it is earlier.
A second after the largest {lit}`int` of them is before everything, and one more than the largest
{lit}`int` equals the smallest. -/
theorem half_second_cut_off :
    ¬FoldsExactly (halfSecondClock.context newSchema) .gte halfPastYear.expr nanosPerSecond
        (halfPastYear.exact halfSecondClock) ∧
      ¬FoldsExactly (halfSecondClock.context newSchema) .gt secondAfterLargest.expr nanosPerSecond
        (secondAfterLargest.exact halfSecondClock) ∧
      ¬FoldsExactly (halfSecondClock.context newSchema) .eq largestPlusOne.expr 1
        largestPlusOne.exact := by
  refine ⟨?_, ?_, ?_⟩
  · intro h
    have hsuffice := (time_folding_exact_iff newSchema halfSecondClock .gte halfPastYear
      (by decide)).mp h
    have htolerates := (hsuffice 1735689600 500000000 rfl rfl).2
    exact absurd htolerates.2 (by decide)
  · intro h
    have hsuffice := (time_folding_exact_iff newSchema halfSecondClock .gt secondAfterLargest
      (by decide)).mp h
    have hfits := (hsuffice 9223372036854775808 500000000 rfl rfl).1
    exact absurd hfits.2 (by decide)
  · intro h
    have hdivisions : largestPlusOne.DivisionsFit :=
      ⟨trivial, trivial, by rintro (h | h) <;> cases h⟩
    rcases (num_folding_exact newSchema halfSecondClock .eq largestPlusOne).2 hdivisions h with
      (hneg | hneg | ⟨hop | hop, -⟩) | hvalue
    · exact hneg
    · exact hneg
    · cases hop
    · cases hop
    · exact absurd (hvalue 9223372036854775808 rfl).2 (by decide)

end Filter
end MemosNote
