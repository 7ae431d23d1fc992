import Mathlib.Algebra.Order.Field.Power
import Mathlib.Data.Rat.Floor
import Mathlib.Tactic.FieldSimp
import Mathlib.Tactic.Positivity
import Synopsis.Decimal.Shortest

/-!
# Shortest digits

The digits of a number lie in its interval, so they read back as it; no number with fewer decimal
places does, and of those with as many places none is nearer. Seventeen digits are always enough,
since the numbers of seventeen digits are closer to each other than an interval is wide.
-/

namespace Synopsis.Decimal

/-- The number that digits and the exponent of the last one stand for. -/
def point (digits : Nat) (scale : Int) : ℚ :=
  digits * 10 ^ scale

theorem power_spec {base : Nat} (hbase : 0 < base) (e : Int) :
    0 < (power base e).1 ∧ 0 < (power base e).2 ∧
      ((power base e).1 : ℚ) = base ^ e * (power base e).2 := by
  have hne : (base : ℚ) ≠ 0 := by positivity
  rw [power]
  split
  case isTrue he =>
    obtain ⟨n, rfl⟩ := Int.eq_ofNat_of_zero_le he
    refine ⟨Nat.pow_pos hbase, Nat.one_pos, ?_⟩
    simp
  case isFalse he =>
    obtain ⟨n, rfl⟩ : ∃ n : Nat, e = -(n : Int) := ⟨(-e).toNat, by omega⟩
    refine ⟨Nat.one_pos, Nat.pow_pos hbase, ?_⟩
    simp [hne]

/-- Rounding a quotient goes to one of its neighbours, no farther than half a unit. -/
theorem roundDiv_spec (num : Nat) {den : Nat} (hden : 0 < den) :
    (roundDiv num den = num / den ∨ roundDiv num den = num / den + 1) ∧
      |(roundDiv num den : ℚ) - num / den| ≤ 1 / 2 := by
  have hpos : (0 : ℚ) < den := by exact_mod_cast hden
  have hnum : (num : ℚ) = den * (num / den : Nat) + (num % den : Nat) := by
    exact_mod_cast (Nat.div_add_mod num den).symm
  have hquotient : (num : ℚ) / den = (num / den : Nat) + (num % den : Nat) / den := by
    rw [hnum]
    field_simp
  generalize hq : num / den = q at hquotient ⊢
  generalize hm : num % den = m at hquotient ⊢
  have hrest : (m : ℚ) / den * den = m := div_mul_cancel₀ _ hpos.ne'
  have hrest_nonneg : (0 : ℚ) ≤ m / den := by positivity
  rw [hquotient]
  -- below half a unit the quotient goes down, above it goes up, and at it to the even neighbour
  have hdown (h : 2 * m ≤ den) : |(q : ℚ) - (q + m / den)| ≤ 1 / 2 := by
    have hle : 2 * (m : ℚ) ≤ den := by exact_mod_cast h
    rw [abs_le]
    constructor <;> nlinarith
  have hup (h : den ≤ 2 * m) (hlt : m < den) :
      |((q + 1 : Nat) : ℚ) - (q + m / den)| ≤ 1 / 2 := by
    have hle : (den : ℚ) ≤ 2 * m := by exact_mod_cast h
    have hless : (m : ℚ) < den := by exact_mod_cast hlt
    push_cast
    rw [abs_le]
    constructor <;> nlinarith
  have hlt : m < den := hm ▸ Nat.mod_lt num hden
  rw [roundDiv, hq, hm]
  split_ifs with hbelow htie
  · exact ⟨.inl rfl, hdown hbelow.le⟩
  · rcases Nat.mod_two_eq_zero_or_one q with heven | hodd
    · rw [heven]
      exact ⟨.inl rfl, hdown htie.le⟩
    · rw [hodd]
      exact ⟨.inr rfl, hup htie.ge hlt⟩
  · exact ⟨.inr rfl, hup (by omega) hlt⟩

namespace Interval

variable {i : Interval} {x y z : ℚ} {digits : Nat} {scale : Int}

def number (i : Interval) : ℚ :=
  i.value / i.unit

/-- **The number reads back as the one of the interval.** -/
def Has (i : Interval) (x : ℚ) : Prop :=
  if i.closed then (i.low : ℚ) ≤ x * i.unit ∧ x * i.unit ≤ i.high
  else (i.low : ℚ) < x * i.unit ∧ x * i.unit < i.high

structure Proper (i : Interval) : Prop where
  unit : 0 < i.unit
  below : i.low < i.value
  above : i.value < i.high

theorem Has.between (hx : i.Has x) (hz : i.Has z) (hxy : x ≤ y) (hyz : y ≤ z) : i.Has y := by
  have hlow : x * i.unit ≤ y * i.unit := by gcongr
  have hhigh : y * i.unit ≤ z * i.unit := by gcongr
  rw [Has] at hx hz ⊢
  split
  case isTrue hc =>
    rw [if_pos hc] at hx hz
    exact ⟨hx.1.trans hlow, hhigh.trans hz.2⟩
  case isFalse hc =>
    rw [if_neg hc] at hx hz
    exact ⟨hx.1.trans_le hlow, hhigh.trans_lt hz.2⟩

theorem Proper.has_number (hi : i.Proper) : i.Has i.number := by
  have hunit : (i.unit : ℚ) ≠ 0 := by exact_mod_cast hi.unit.ne'
  have hlow : (i.low : ℚ) < i.value := by exact_mod_cast hi.below
  have hhigh : (i.value : ℚ) < i.high := by exact_mod_cast hi.above
  rw [Has, number, div_mul_cancel₀ _ hunit]
  split
  · exact ⟨hlow.le, hhigh.le⟩
  · exact ⟨hlow, hhigh⟩

theorem holds_iff : i.holds digits scale = true ↔ i.Has (point digits scale) := by
  obtain ⟨-, hden, hpower⟩ := power_spec (by decide : 0 < 10) scale
  have hpos : (0 : ℚ) < (power 10 scale).2 := by exact_mod_cast hden
  have hpoint : ((digits * (power 10 scale).1 * i.unit : Nat) : ℚ) =
      point digits scale * i.unit * (power 10 scale).2 := by
    push_cast
    rw [hpower, point]
    push_cast
    ring
  have hle (a : Nat) : a * (power 10 scale).2 ≤ digits * (power 10 scale).1 * i.unit ↔
      (a : ℚ) ≤ point digits scale * i.unit := by
    rw [← Nat.cast_le (α := ℚ), hpoint, Nat.cast_mul, mul_le_mul_iff_of_pos_right hpos]
  have hge (a : Nat) : digits * (power 10 scale).1 * i.unit ≤ a * (power 10 scale).2 ↔
      point digits scale * i.unit ≤ a := by
    rw [← Nat.cast_le (α := ℚ), hpoint, Nat.cast_mul, mul_le_mul_iff_of_pos_right hpos]
  rw [holds, Has]
  dsimp only
  split
  · rw [Bool.and_eq_true, decide_eq_true_eq, decide_eq_true_eq, hle, hge]
  · rw [Bool.and_eq_true, decide_eq_true_eq, decide_eq_true_eq, ← not_le, ← not_le, hle, hge,
      not_le, not_le]

/-- **Digits in the interval, and none of that scale nearer to the number.** -/
structure Nearest (i : Interval) (digits : Nat) (scale : Int) : Prop where
  has : i.Has (point digits scale)
  nearest : ∀ other, i.Has (point other scale) →
    |point digits scale - i.number| ≤ |point other scale - i.number|

/-- The number in units of a scale. -/
def scaled (i : Interval) (scale : Int) : ℚ :=
  i.number / 10 ^ scale

theorem abs_point_sub (digits : Nat) :
    |point digits scale - i.number| = |(digits : ℚ) - i.scaled scale| * 10 ^ scale := by
  have hpos : (0 : ℚ) < 10 ^ scale := by positivity
  have hdistance : point digits scale - i.number =
      ((digits : ℚ) - i.scaled scale) * 10 ^ scale := by
    rw [point, scaled, sub_mul, div_mul_cancel₀ _ hpos.ne']
  rw [hdistance, abs_mul, abs_of_pos hpos]

theorem nearer_iff {digits other : Nat} :
    |point digits scale - i.number| ≤ |point other scale - i.number| ↔
      |(digits : ℚ) - i.scaled scale| ≤ |(other : ℚ) - i.scaled scale| := by
  rw [abs_point_sub, abs_point_sub, mul_le_mul_iff_of_pos_right (by positivity)]

theorem scaled_eq (hi : i.Proper) (scale : Int) : 0 < i.unit * (power 10 scale).1 ∧
    ((i.value * (power 10 scale).2 : Nat) : ℚ) / ((i.unit * (power 10 scale).1 : Nat) : ℚ) =
      i.scaled scale := by
  obtain ⟨hnum, hden, hpower⟩ := power_spec (by decide : 0 < 10) scale
  have hpos : (0 : ℚ) < (power 10 scale).2 := by exact_mod_cast hden
  have hunit : (0 : ℚ) < i.unit := by exact_mod_cast hi.unit
  refine ⟨Nat.mul_pos hi.unit hnum, ?_⟩
  push_cast at hpower ⊢
  rw [hpower, scaled, number]
  field_simp

/-- If any multiple of a scale lies in the interval, one of the two neighbours of the number does,
and it is as near. -/
theorem neighbour_has (hi : i.Proper) {below other : Nat} (hbelow : (below : ℚ) ≤ i.scaled scale)
    (habove : i.scaled scale < (below + 1 : Nat)) (h : i.Has (point other scale)) :
    ∃ k, (k = below ∨ k = below + 1) ∧ i.Has (point k scale) ∧
      |(k : ℚ) - i.scaled scale| ≤ |(other : ℚ) - i.scaled scale| := by
  have hpos : (0 : ℚ) < 10 ^ scale := by positivity
  have hnumber : i.scaled scale * 10 ^ scale = i.number := div_mul_cancel₀ _ hpos.ne'
  rcases Nat.lt_or_ge below other with hlt | hle
  · have hother : ((below + 1 : Nat) : ℚ) ≤ other := by exact_mod_cast hlt
    refine ⟨below + 1, .inr rfl, hi.has_number.between h ?_ ?_, ?_⟩
    · rw [← hnumber, point]
      gcongr
    · rw [point, point]
      gcongr
    · rw [abs_of_nonneg (by linarith), abs_of_nonneg (by linarith)]
      linarith
  · have hother : (other : ℚ) ≤ below := by exact_mod_cast hle
    refine ⟨below, .inl rfl, h.between hi.has_number ?_ ?_, ?_⟩
    · rw [point, point]
      gcongr
    · rw [← hnumber, point]
      gcongr
    · rw [abs_of_nonpos (by linarith), abs_of_nonpos (by linarith)]
      linarith

/-- What is no farther than half a unit is nearest. -/
theorem abs_sub_le_of_le_half {near : Nat} (h : |(near : ℚ) - x| ≤ 1 / 2) (other : Nat) :
    |(near : ℚ) - x| ≤ |(other : ℚ) - x| := by
  rcases eq_or_ne other near with rfl | hne
  · exact le_rfl
  · have hstep : (1 : ℚ) ≤ |(other : ℚ) - near| := by
      exact_mod_cast Int.one_le_abs (show (other : ℤ) - near ≠ 0 by omega)
    have htriangle := abs_sub_le (other : ℚ) x near
    rw [abs_sub_comm x] at htriangle
    linarith

theorem nearest?_spec (hi : i.Proper) (scale : Int) :
    (∃ digits, i.nearest? scale = some digits ∧ i.Nearest digits scale) ∨
      i.nearest? scale = none ∧ ∀ digits, ¬ i.Has (point digits scale) := by
  have hpos : (0 : ℚ) < 10 ^ scale := by positivity
  obtain ⟨hden, hscaled⟩ := scaled_eq hi scale
  rw [nearest?]
  generalize i.value * (power 10 scale).2 = num at hscaled ⊢
  generalize i.unit * (power 10 scale).1 = den at hden hscaled ⊢
  obtain ⟨hnear, hhalf⟩ := roundDiv_spec num hden
  rw [hscaled] at hhalf
  have hcast : (0 : ℚ) < den := by exact_mod_cast hden
  have hbelow : ((num / den : Nat) : ℚ) ≤ i.scaled scale := by
    rw [← hscaled, le_div_iff₀ hcast]
    exact_mod_cast Nat.div_mul_le_self num den
  have habove : i.scaled scale < ((num / den + 1 : Nat) : ℚ) := by
    rw [← hscaled, div_lt_iff₀ hcast]
    exact_mod_cast Nat.lt_mul_of_div_lt (Nat.lt_succ_self _) hden
  generalize roundDiv num den = near at hnear hhalf ⊢
  generalize num / den = below at hbelow habove hnear ⊢
  generalize hfar : (if near = below then below + 1 else below) = far
  have hneighbour (other : Nat) (h : i.Has (point other scale)) (hn : ¬ i.Has (point near scale)) :
      i.Has (point far scale) ∧
        |(far : ℚ) - i.scaled scale| ≤ |(other : ℚ) - i.scaled scale| := by
    obtain ⟨k, hk, hhas, hle⟩ := neighbour_has hi hbelow habove h
    have hne : k ≠ near := fun heq => hn (heq ▸ hhas)
    obtain rfl : k = far := by split at hfar <;> omega
    exact ⟨hhas, hle⟩
  split_ifs with hn hf
  · refine .inl ⟨near, rfl, holds_iff.mp hn, fun other _ => ?_⟩
    exact nearer_iff.mpr (abs_sub_le_of_le_half hhalf other)
  · refine .inl ⟨far, rfl, holds_iff.mp hf, fun other h => ?_⟩
    exact nearer_iff.mpr (hneighbour other h (mt holds_iff.mpr hn)).2
  · refine .inr ⟨rfl, fun other h => ?_⟩
    exact hf (holds_iff.mpr (hneighbour other h (mt holds_iff.mpr hn)).1)

/-- The numbers of a coarser scale are numbers of a finer one. -/
theorem exists_point (digits : Nat) {coarse fine : Int} (h : fine ≤ coarse) :
    ∃ more, point digits coarse = point more fine := by
  obtain ⟨n, rfl⟩ := Int.le.dest h
  refine ⟨digits * 10 ^ n, ?_⟩
  rw [point, point, zpow_add₀ (by norm_num), zpow_natCast]
  push_cast
  ring

/-- **The shortest digits**: they lie in the interval, and nothing of the same scale is nearer.
Unless they are of the scale of the first digit, nothing of a coarser scale lies in the interval. -/
structure Shortest (i : Interval) (first : Int) (digits : Nat) (scale : Int) : Prop where
  nearest : i.Nearest digits scale
  coarser : scale < first → ∀ other coarse, scale < coarse → ¬ i.Has (point other coarse)

theorem search_spec (hi : i.Proper) {tries : Nat} {first scale fine : Int} {digits : Nat}
    (hfine : scale - tries < fine) (hle : fine ≤ scale) (hhas : i.Has (point digits fine))
    (hcoarser : scale < first → ∀ other coarse, scale < coarse → ¬ i.Has (point other coarse)) :
    i.Shortest first (i.search scale tries).1 (i.search scale tries).2 := by
  induction tries generalizing scale with
  | zero => omega
  | succ tries ih =>
    rw [search]
    rcases nearest?_spec hi scale with ⟨found, hfound, hnearest⟩ | ⟨hnone, hnot⟩
    · rw [hfound]
      exact ⟨hnearest, hcoarser⟩
    · rw [hnone]
      have hne : fine ≠ scale := fun h => hnot digits (h ▸ hhas)
      refine ih (by omega) (by omega) fun _ other coarse hlt hother => ?_
      obtain ⟨more, hmore⟩ := exists_point other (show scale ≤ coarse by omega)
      exact hnot more (hmore ▸ hother)

theorem has_of_lt (hlow : (i.low : ℚ) < x * i.unit) (hhigh : x * i.unit < i.high) : i.Has x := by
  rw [Has]
  split
  · exact ⟨hlow.le, hhigh.le⟩
  · exact ⟨hlow, hhigh⟩

end Interval

/-- A positive number has as many digits as the powers of ten around it say. -/
theorem length_toString {n : Nat} (hn : 0 < n) :
    0 < (toString n).length ∧ 10 ^ ((toString n).length - 1) ≤ n ∧
      n < 10 ^ (toString n).length := by
  have hlength : (toString n).length = (Nat.toDigits 10 n).length := by
    rw [Nat.toString_eq_repr, Nat.repr, String.length_ofList]
  have hpos : 0 < (Nat.toDigits 10 n).length := Nat.length_toDigits_pos
  rw [hlength]
  refine ⟨hpos, ?_, (Nat.length_toDigits_le_iff (by decide) hpos).mp le_rfl⟩
  rcases Nat.lt_or_ge 1 (Nat.toDigits 10 n).length with hmore | hone
  · rw [← not_lt, ← Nat.length_toDigits_le_iff (by decide) (by omega)]
    omega
  · have hzero : (Nat.toDigits 10 n).length - 1 = 0 := by omega
    rw [hzero]
    exact hn

/-- A quotient is at least as large as the power of ten of its first digit. -/
theorem magnitude_le {num den : Nat} (hnum : 0 < num) (hden : 0 < den) :
    (10 : ℚ) ^ (magnitude num den - 1) ≤ num / den := by
  have hcast : (0 : ℚ) < den := by exact_mod_cast hden
  obtain ⟨hdigits, hlow, -⟩ := length_toString hnum
  obtain ⟨-, -, hhigh⟩ := length_toString hden
  rw [le_div_iff₀ hcast, magnitude]
  generalize hguess : ((toString num).length : Int) - (toString den).length = guess
  obtain ⟨-, hpower, hvalue⟩ := power_spec (by decide : 0 < 10) guess
  have hdivisor : (0 : ℚ) < (power 10 guess).2 := by exact_mod_cast hpower
  split
  case isTrue hle =>
    have hreach : (den : ℚ) * (power 10 guess).1 ≤ num * (power 10 guess).2 := by
      exact_mod_cast hle
    rw [hvalue, ← mul_assoc, mul_le_mul_iff_of_pos_right hdivisor] at hreach
    rw [add_sub_cancel_right, mul_comm]
    exact_mod_cast hreach
  case isFalse =>
    have hlow' : (10 : ℚ) ^ ((toString num).length - 1) ≤ num := by exact_mod_cast hlow
    have hhigh' : (den : ℚ) ≤ 10 ^ (toString den).length := by exact_mod_cast hhigh.le
    have hsplit : (10 : ℚ) ^ (guess - 1) * 10 ^ (toString den).length =
        10 ^ ((toString num).length - 1) := by
      rw [← zpow_natCast, ← zpow_natCast, ← zpow_add₀ (by norm_num)]
      congr 1
      omega
    calc (10 : ℚ) ^ (guess - 1) * den ≤ 10 ^ (guess - 1) * 10 ^ (toString den).length := by gcongr
      _ = 10 ^ ((toString num).length - 1) := hsplit
      _ ≤ num := hlow'

theorem interval_proper {b : Binary} (hpos : 0 < b.mantissa) : (interval b).Proper := by
  obtain ⟨hstep, hden, -⟩ := power_spec (by decide : 0 < 2) b.exponent
  have hnum := Nat.mul_pos hpos hstep
  refine ⟨?_, ?_, ?_⟩
  · exact Nat.mul_pos (by decide) hden
  · simp only [interval, Binary.quotient]
    split <;> omega
  · simp only [interval, Binary.quotient]
    omega

/-- What differs in the seventeenth digit only lies in the interval. -/
theorem has_of_near {b : Binary} (hpos : 0 < b.mantissa) (hlt : b.mantissa < 2 ^ 53) {x : ℚ}
    (hx : |x - (interval b).number| * (2 * 10 ^ 16) ≤ (interval b).number) :
    (interval b).Has x := by
  obtain ⟨hstep, -, -⟩ := power_spec (by decide : 0 < 2) b.exponent
  have hunit : (0 : ℚ) < (interval b).unit := by exact_mod_cast (interval_proper hpos).unit
  have hnumber : (interval b).number * (interval b).unit = (interval b).value :=
    div_mul_cancel₀ _ hunit.ne'
  have hvalue : ((interval b).value : ℚ) = 4 * (b.mantissa * (power 2 b.exponent).1) := by
    simp [interval, Binary.quotient]
  have hclose : |x * (interval b).unit - (interval b).value| * (2 * 10 ^ 16) ≤
      (interval b).value := by
    rw [← hnumber, ← sub_mul, abs_mul, abs_of_pos hunit]
    nlinarith
  obtain ⟨hleft, hright⟩ := abs_le.mp (le_refl |x * (interval b).unit - (interval b).value|)
  generalize |x * (interval b).unit - (interval b).value| = distance at hclose hleft hright
  rw [hvalue] at hclose hleft hright
  have hwidth : (0 : ℚ) < (power 2 b.exponent).1 := by exact_mod_cast hstep
  have hbound : (b.mantissa : ℚ) * (power 2 b.exponent).1 < 2 ^ 53 * (power 2 b.exponent).1 :=
    mul_lt_mul_of_pos_right (by exact_mod_cast hlt) hwidth
  refine Interval.has_of_lt ?_ ?_
  · have hnum := Nat.mul_le_mul_right (power 2 b.exponent).1 (Nat.one_le_iff_ne_zero.mpr hpos.ne')
    simp only [interval, Binary.quotient] at hleft ⊢
    split
    case isTrue hnarrow =>
      have hpower : (b.mantissa : ℚ) = 2 ^ 52 := by exact_mod_cast hnarrow.1
      rw [Nat.cast_sub (by omega)]
      push_cast at hleft ⊢
      rw [hpower] at hclose hleft ⊢
      linarith
    case isFalse =>
      rw [Nat.cast_sub (by omega)]
      push_cast at hleft ⊢
      linarith
  · simp only [interval, Binary.quotient] at hright ⊢
    push_cast at hright ⊢
    linarith

/-- **The digits of a number are the shortest ones that read back as it.** -/
theorem shortest_spec {b : Binary} (hpos : 0 < b.mantissa) (hlt : b.mantissa < 2 ^ 53) :
    (interval b).Shortest (magnitude (interval b).value (interval b).unit - 1) (shortest b).1
      (shortest b).2 := by
  have hproper := interval_proper hpos
  have hvalue : 0 < (interval b).value := Nat.lt_of_le_of_lt (Nat.zero_le _) hproper.below
  have hmagnitude := magnitude_le hvalue hproper.unit
  rw [shortest]
  generalize magnitude (interval b).value (interval b).unit - 1 = first at hmagnitude ⊢
  obtain ⟨hden, hscaled⟩ := Interval.scaled_eq hproper (first - 16)
  obtain ⟨-, hhalf⟩ :=
    roundDiv_spec ((interval b).value * (power 10 (first - 16)).2) hden
  rw [hscaled] at hhalf
  generalize roundDiv _ _ = digits at hhalf
  have hunit : (10 : ℚ) ^ (first - 16) * 10 ^ 16 ≤ (interval b).number := by
    rw [zpow_sub₀ (by norm_num), zpow_ofNat, div_mul_cancel₀ _ (by norm_num)]
    exact hmagnitude
  have hhas : (interval b).Has (point digits (first - 16)) := by
    refine has_of_near hpos hlt ?_
    rw [Interval.abs_point_sub]
    calc |(digits : ℚ) - (interval b).scaled (first - 16)| * 10 ^ (first - 16) * (2 * 10 ^ 16)
        ≤ 1 / 2 * 10 ^ (first - 16) * (2 * 10 ^ 16) := by gcongr
      _ = 10 ^ (first - 16) * 10 ^ 16 := by ring
      _ ≤ (interval b).number := hunit
  exact Interval.search_spec hproper (by omega) (by omega) hhas fun h => absurd h (lt_irrefl first)

/-- The mantissa of a floating point number has at most 53 digits. -/
theorem mantissa_lt_of_decode {x : Float} {b : Binary} (h : decode x = .finite b) :
    b.mantissa < 2 ^ 53 := by
  have hfraction : x.toBits.toNat % Nat.pow 2 52 < 2 ^ 52 := Nat.mod_lt _ (by decide)
  rw [decode] at h
  split_ifs at h
  · obtain rfl := Decoded.finite.inj h
    dsimp only
    omega
  · obtain rfl := Decoded.finite.inj h
    have hpow : Nat.pow 2 52 = 2 ^ 52 := rfl
    dsimp only
    omega

theorem shortest_of_decode {x : Float} {b : Binary} (h : decode x = .finite b)
    (hpos : 0 < b.mantissa) :
    (interval b).Shortest (magnitude (interval b).value (interval b).unit - 1) (shortest b).1
      (shortest b).2 :=
  shortest_spec hpos (mantissa_lt_of_decode h)

/-- The floating point number next to one tenth. -/
example : shortest ⟨false, 7205759403792794, -56⟩ = (1, -1) := by
  decide +kernel

end Synopsis.Decimal
