import Mathlib.Algebra.Order.Ring.Int
import BuildScript.Machine.Execution

/-!
# Arithmetic of integers

What the machine answers to arithmetic on 64-bit integers, told against the unbounded integers.
`AnswersExactly n` is the answer to a result `n`: the number if it fits, an overflow if it does not.
`MeetsRules` says what each operation is to answer, without the functions that compute it.

One pair of integers breaks the rules. The least integer divided by minus one leaves no remainder
and has a quotient that does not fit, so the answer should be an overflow. But the machine finds out
whether there is a remainder by an operation that itself traps on overflow, and crashes.
`integer_arithmetic_exact_iff` says that this is the only exception, and `combine_eq_crash_iff` that
no other arithmetic crashes, on values of any type.
-/

namespace BuildScript

namespace Value

/-- The answer to a result `n`: the number if it fits into 64 bits, and an overflow if not. -/
def AnswersExactly (n : Int) (r : Except Failure Value) : Prop :=
  (∀ c : Int64, c.toInt = n → r = .ok (int c)) ∧
    ((∀ c : Int64, c.toInt ≠ n) → r = .error overflow)

/-- What an operation on two integers is to answer. The quotient is an integer if the division is
exact. The remainder has the sign of the dividend; there is none if the quotient does not fit. -/
def MeetsRules (op : Arithmetic) (a b : Int64) (r : Except Failure Value) : Prop :=
  match op with
  | .add => AnswersExactly (a.toInt + b.toInt) r
  | .subtract => AnswersExactly (a.toInt - b.toInt) r
  | .multiply => AnswersExactly (a.toInt * b.toInt) r
  | .divide =>
    (b = 0 → r = .error divisionByZero) ∧
      (b ≠ 0 → ∀ q : Int, a.toInt = b.toInt * q → AnswersExactly q r) ∧
      (b ≠ 0 → ¬b.toInt ∣ a.toInt →
        r = .ok (float ((Binary64.ofInt a.toInt).div (Binary64.ofInt b.toInt))))
  | .remainder =>
    (b = 0 → r = .error divisionByZero) ∧
      (b ≠ 0 → ∃ q t : Int, a.toInt = b.toInt * q + t ∧ |t| < |b.toInt| ∧ 0 ≤ a.toInt * t ∧
        ((∃ c : Int64, c.toInt = q) → ∃ c : Int64, c.toInt = t ∧ r = .ok (int c)) ∧
        ((∀ c : Int64, c.toInt ≠ q) → r = .error overflow))

/-- The one operation on integers that crashes. -/
def QuotientTraps (op : Arithmetic) (a b : Int64) : Prop :=
  op = .divide ∧ a = Int64.minValue ∧ b = -1

/-! ## Numbers that fit -/

theorem exists_toInt_eq_iff {n : Int} :
    (∃ c : Int64, c.toInt = n) ↔ Int64.minValue.toInt ≤ n ∧ n ≤ Int64.maxValue.toInt := by
  constructor
  · rintro ⟨c, rfl⟩
    exact ⟨c.minValue_le_toInt, c.toInt_le⟩
  · rintro ⟨hmin, hmax⟩
    rw [Int64.toInt_minValue] at hmin
    rw [Int64.toInt_maxValue] at hmax
    exact ⟨.ofInt n, Int64.toInt_ofInt_of_le hmin (by omega)⟩

theorem answersExactly_ofInt? (n : Int) : AnswersExactly n (ofInt? n) := by
  rw [ofInt?]
  split
  · next hfits =>
    obtain ⟨c, hc⟩ := exists_toInt_eq_iff.mpr hfits
    exact ⟨fun c hc ↦ by rw [← hc, Int64.ofInt_toInt], fun hnone ↦ absurd hc (hnone c)⟩
  · next hfits =>
    exact ⟨fun c hc ↦ absurd (exists_toInt_eq_iff.mp ⟨c, hc⟩) hfits, fun _ ↦ rfl⟩

theorem toInt_ne_zero {b : Int64} (h : b ≠ 0) : b.toInt ≠ 0 :=
  fun h0 ↦ h (Int64.toInt_inj.mp h0)

/-- Dividing by a number of magnitude one keeps the magnitude and dividing by any other at least
halves it, so the quotient fits unless the least integer changes its sign. -/
theorem exists_toInt_eq_tdiv {a b : Int64} (h : ¬(a = Int64.minValue ∧ b = -1)) :
    ∃ c : Int64, c.toInt = a.toInt.tdiv b.toInt := by
  have hmin := a.le_toInt
  have hmax := a.toInt_lt
  have hquot : (a.toInt.tdiv b.toInt).natAbs = a.toInt.natAbs / b.toInt.natAbs :=
    Int.natAbs_tdiv _ _
  rw [exists_toInt_eq_iff, Int64.toInt_minValue, Int64.toInt_maxValue]
  by_cases hone : b.toInt.natAbs = 1
  · rcases (by omega : b.toInt = 1 ∨ b.toInt = -1) with hb | hb
    · rw [hb, Int.tdiv_one]
      omega
    · have ha : a.toInt ≠ -2 ^ 63 := fun ha ↦
        h ⟨Int64.toInt_inj.mp (ha.trans Int64.toInt_minValue.symm), Int64.toInt_inj.mp hb⟩
      rw [hb, Int.tdiv_neg, Int.tdiv_one]
      omega
  · by_cases hzero : b.toInt.natAbs = 0
    · rw [hzero, Nat.div_zero] at hquot
      omega
    · have hhalf : a.toInt.natAbs / b.toInt.natAbs ≤ a.toInt.natAbs / 2 :=
        Nat.div_le_div_left (by omega) Nat.two_pos
      omega

theorem toInt_ne_tdiv_of_least (c : Int64) :
    c.toInt ≠ Int64.minValue.toInt.tdiv (-1 : Int64).toInt :=
  fun hc ↦ absurd (exists_toInt_eq_iff.mp ⟨c, hc⟩) (by decide)

theorem abs_tmod_lt (a : Int) {b : Int} (hb : b ≠ 0) : |a.tmod b| < |b| := by
  rw [Int.abs_eq_natAbs, Int.abs_eq_natAbs, Int.natAbs_tmod]
  exact Int.ofNat_lt.mpr (Nat.mod_lt _ (Int.natAbs_pos.mpr hb))

theorem mul_tmod_nonneg (a b : Int) : 0 ≤ a * a.tmod b := by
  rw [← Int.sign_nonneg_iff, Int.sign_mul, Int.sign_tmod]
  split
  · simp
  · exact mul_self_nonneg _

theorem exists_toInt_eq_tmod (a b : Int64) (hb : b ≠ 0) :
    ∃ c : Int64, c.toInt = a.toInt.tmod b.toInt := by
  have hlt := abs_tmod_lt a.toInt (toInt_ne_zero hb)
  rw [Int.abs_eq_natAbs, Int.abs_eq_natAbs] at hlt
  have hmin := b.le_toInt
  have hmax := b.toInt_lt
  rw [exists_toInt_eq_iff, Int64.toInt_minValue, Int64.toInt_maxValue]
  omega

/-! ## Operations that meet the rules -/

theorem meetsRules_divide {a b : Int64} (h : ¬(a = Int64.minValue ∧ b = -1)) :
    MeetsRules .divide a b (ofInts .divide a b) := by
  have hexact : (a == Int64.minValue && b == -1) = false := by simpa using h
  dsimp only [MeetsRules, ofInts]
  refine ⟨fun hb ↦ by simp [hb], fun hb q hq ↦ ?_, fun hb hdvd ↦ ?_⟩
  · have hb' : (b == 0) = false := by simpa using hb
    have hmod : a.toInt.tmod b.toInt = 0 := Int.tmod_eq_zero_of_dvd ⟨q, hq⟩
    have hdiv : a.toInt.tdiv b.toInt = q := by
      rw [hq, Int.mul_tdiv_cancel_left q (toInt_ne_zero hb)]
    simpa [hb', hexact, hmod, hdiv] using answersExactly_ofInt? q
  · have hb' : (b == 0) = false := by simpa using hb
    have hmod : a.toInt.tmod b.toInt ≠ 0 := fun h ↦ hdvd (Int.dvd_of_tmod_eq_zero h)
    simp [hb', hexact, hmod]

theorem meetsRules_remainder (a b : Int64) :
    MeetsRules .remainder a b (ofInts .remainder a b) := by
  dsimp only [MeetsRules, ofInts]
  refine ⟨fun hb ↦ by simp [hb], fun hb ↦ ?_⟩
  have hb' : (b == 0) = false := by simpa using hb
  refine ⟨a.toInt.tdiv b.toInt, a.toInt.tmod b.toInt, (Int.mul_tdiv_add_tmod _ _).symm,
    abs_tmod_lt _ (toInt_ne_zero hb), mul_tmod_nonneg _ _, ?_, ?_⟩
  · rintro ⟨q, hq⟩
    have hexact : (a == Int64.minValue && b == -1) = false := by
      rw [Bool.and_eq_false_iff]
      by_contra hboth
      simp only [not_or, Bool.not_eq_false, beq_iff_eq] at hboth
      obtain ⟨rfl, rfl⟩ := hboth
      exact toInt_ne_tdiv_of_least q hq
    obtain ⟨c, hc⟩ := exists_toInt_eq_tmod a b hb
    exact ⟨c, hc, by simp [hb', hexact, ← hc]⟩
  · intro hnone
    have hleast : (a == Int64.minValue && b == -1) = true := by
      by_contra hexact
      obtain ⟨q, hq⟩ := exists_toInt_eq_tdiv (a := a) (b := b) (by simpa using hexact)
      exact hnone q hq
    simp [hb', hleast]

/-- All operations meet the rules but the one that crashes, which does not. -/
theorem meetsRules_ofInts_iff (op : Arithmetic) (a b : Int64) :
    MeetsRules op a b (ofInts op a b) ↔ ¬QuotientTraps op a b := by
  have hother (hop : op ≠ .divide) : ¬QuotientTraps op a b := fun htraps ↦ hop htraps.1
  cases op with
  | add => exact iff_of_true (answersExactly_ofInt? _) (hother nofun)
  | subtract => exact iff_of_true (answersExactly_ofInt? _) (hother nofun)
  | multiply => exact iff_of_true (answersExactly_ofInt? _) (hother nofun)
  | divide =>
    by_cases h : a = Int64.minValue ∧ b = -1
    · refine iff_of_false (fun hmeets ↦ ?_) (not_not_intro ⟨rfl, h⟩)
      obtain ⟨rfl, rfl⟩ := h
      have hoverflow := (hmeets.2.1 (by decide) (2 ^ 63) rfl).2 toInt_ne_tdiv_of_least
      cases hoverflow
    · exact iff_of_true (meetsRules_divide h) fun htraps ↦ h htraps.2
  | remainder => exact iff_of_true (meetsRules_remainder a b) (hother nofun)

/-! ## Operations that crash -/

theorem ofInt?_ne_crash (n : Int) : ofInt? n ≠ .error .crash := by
  rw [ofInt?]
  split <;> exact nofun

theorem ofInts_eq_crash_iff {op : Arithmetic} {a b : Int64} :
    ofInts op a b = .error .crash ↔ QuotientTraps op a b := by
  constructor
  · intro h
    cases op with
    | add | subtract | multiply => exact absurd h (ofInt?_ne_crash _)
    | divide =>
      dsimp only [ofInts] at h
      split at h
      · cases h
      · split at h
        · next hleast => exact ⟨rfl, by simpa using hleast⟩
        · split at h
          · exact absurd h (ofInt?_ne_crash _)
          · cases h
    | remainder =>
      dsimp only [ofInts] at h
      split at h
      · cases h
      · split at h <;> cases h
  · rintro ⟨rfl, rfl, rfl⟩
    rfl

/-- Arithmetic on values of any type crashes in one case only. -/
theorem combine_eq_crash_iff {op : Arithmetic} {v w : Value} :
    v.combine op w = .error .crash ↔
      op = .divide ∧ v = int Int64.minValue ∧ w = int (-1) := by
  have hfloats {x y : Binary64} : ofFloats op x y ≠ .error .crash := by
    cases op with
    | add | subtract | multiply => exact nofun
    | divide | remainder =>
      dsimp only [ofFloats]
      split <;> exact nofun
  have hnumbers (h : ofNumbers op v w = .error .crash) :
      op = .divide ∧ v = int Int64.minValue ∧ w = int (-1) := by
    rw [ofNumbers.eq_def] at h
    split at h
    · obtain ⟨rfl, rfl, rfl⟩ := ofInts_eq_crash_iff.mp h
      exact ⟨rfl, rfl, rfl⟩
    · split at h
      · exact absurd h hfloats
      · cases h
  constructor
  · intro h
    rw [combine.eq_def] at h
    split at h
    all_goals first
      | exact hnumbers h
      | cases h
  · rintro ⟨rfl, rfl, rfl⟩
    rfl

theorem negate_ne_crash (v : Value) : v.negate ≠ .error .crash := by
  rw [negate.eq_def]
  split
  · exact ofInt?_ne_crash _
  · exact nofun
  · exact nofun

theorem compareBy_ne_crash (op : Comparison) (v w : Value) : v.compareBy op w ≠ .error .crash := by
  have horder : v.order w ≠ .error .crash := by
    rw [order.eq_def]
    repeat' split
    all_goals exact nofun
  have hmap {f : Ordering → Value} : (v.order w).map f ≠ .error .crash := by
    cases ho : v.order w with
    | ok o => exact nofun
    | error e => exact fun h ↦ horder (ho.trans (by cases h; rfl))
  cases op with
  | equal | notEqual => exact nofun
  | _ => exact hmap

end Value

/-- What the machine does with two integers on top of its stack. An operation answers by the rules
of exact arithmetic unless it is the one that crashes, and no other operation crashes; negation is
always exact. -/
theorem integer_arithmetic_exact_iff (className : String) (f : Frame) (s : ScriptState)
    (a b : Int64) :
    (∀ op, ((f.push (.int a)).push (.int b)).execute className s (.arithmetic op) =
        f.pushResult s ((Value.int a).combine op (.int b)) ∧
      (Value.MeetsRules op a b ((Value.int a).combine op (.int b)) ↔
        ¬Value.QuotientTraps op a b) ∧
      ((Value.int a).combine op (.int b) = .error .crash ↔ Value.QuotientTraps op a b)) ∧
    (f.push (.int a)).execute className s .negate = f.pushResult s (Value.int a).negate ∧
    Value.AnswersExactly (-a.toInt) (Value.int a).negate := by
  refine ⟨fun op ↦ ⟨rfl, ?_⟩, rfl, Value.answersExactly_ofInt? _⟩
  have hints : (Value.int a).combine op (.int b) = Value.ofInts op a b := by
    cases op <;> rfl
  rw [hints]
  exact ⟨Value.meetsRules_ofInts_iff op a b, Value.ofInts_eq_crash_iff⟩

/-- The least integer divided by minus one crashes instead of overflowing. -/
theorem division_of_least_integer_crashes :
    (((default : Frame).push (.int Int64.minValue)).push (.int (-1))).execute "Main" {}
      (.arithmetic .divide) = .fail .crash {} ∧
    ¬Value.MeetsRules .divide Int64.minValue (-1)
      ((Value.int Int64.minValue).combine .divide (.int (-1))) :=
  ⟨rfl, fun h ↦ (Value.meetsRules_ofInts_iff .divide _ _).mp h ⟨rfl, rfl, rfl⟩⟩

end BuildScript
