import ArenaAgent.Decimal.Shortest
import ArenaAgent.Proofs.Binary64.Rounding
import ArenaAgent.Proofs.Decimal.Grid

/-!
The shortest decimal of a double rounds to the double. Whatever lies in the interval of a double
rounds to it (`roundedMagnitude_of_contains`), and the search ends in the interval because the grid
of seventeen digits is finer than any interval is wide.
-/
namespace ArenaAgent

open Binary64

/-- Between two numbers, or on one of them. -/
def Between (closed : Prop) (low high q : ℚ) : Prop :=
  (low < q ∨ closed ∧ low = q) ∧ (q < high ∨ closed ∧ q = high)

theorem Between.mono {closed : Prop} {low low' high q : ℚ} (h : Between closed low high q)
    (less : low' ≤ low) : Between closed low' high q := by
  refine ⟨?_, h.2⟩
  rcases h.1 with above | ⟨end_, same⟩
  · exact .inl (less.trans_lt above)
  · rcases less.lt_or_eq with below | same'
    · exact .inl (below.trans_eq same)
    · exact .inr ⟨end_, same'.trans same⟩

theorem Between.div {closed : Prop} {low high q s : ℚ} (h : Between closed (low * s) (high * s) q)
    (hs : 0 < s) : Between closed low high (q / s) := by
  rw [Between, lt_div_iff₀ hs, div_lt_iff₀ hs, eq_div_iff hs.ne', div_eq_iff hs.ne']
  exact h

namespace RoundingInterval

variable {m : ℕ} {e : ℤ} {d : Decimal}

/-- The lower end of the interval of `m * 2 ^ e`. -/
def lowEnd (m : ℕ) (e : ℤ) : ℚ :=
  (4 * m - if m = 2 ^ 52 ∧ -1074 < e then 1 else 2) * 2 ^ (e - 2)

/-- The upper end of the interval of `m * 2 ^ e`. -/
def highEnd (m : ℕ) (e : ℤ) : ℚ :=
  (4 * m + 2) * 2 ^ (e - 2)

theorem unit_pos (m : ℕ) (e : ℤ) : 0 < (ofMantissa m e).unit := by
  rw [ofMantissa]
  simp only [Nat.one_shiftLeft]
  positivity

/-- The units of an interval are quarters of the last bit of the mantissa. -/
theorem quarters (k m : ℕ) (e : ℤ) :
    ((k * (1 <<< (e - 2).toNat) : ℕ) : ℚ) / (ofMantissa m e).unit = k * 2 ^ (e - 2) := by
  have scale : (2 : ℚ) ^ (e - 2) = 2 ^ (e - 2).toNat / 2 ^ (2 - e).toNat := by
    rw [← zpow_natCast, ← zpow_natCast, ← zpow_sub₀ (by norm_num)]
    congr 1
    omega
  rw [ofMantissa, scale]
  simp only [Nat.one_shiftLeft]
  push_cast
  ring

/-- Whole multiples of the unit are compared with a decimal by multiplying everything out. -/
theorem le_value_iff {u : ℕ} (hu : 0 < u) (a : ℕ) :
    (a * Nat.pow 10 (-d.exponent).toNat ≤ d.digits * Nat.pow 10 d.exponent.toNat * u ↔
      (a : ℚ) / u ≤ d.value) ∧
      (d.digits * Nat.pow 10 d.exponent.toNat * u ≤ a * Nat.pow 10 (-d.exponent).toNat ↔
        d.value ≤ (a : ℚ) / u) := by
  have unit : (0 : ℚ) < u := by exact_mod_cast hu
  have down : (0 : ℚ) < 10 ^ (-d.exponent).toNat := by positivity
  have scale : (10 : ℚ) ^ d.exponent = 10 ^ d.exponent.toNat / 10 ^ (-d.exponent).toNat := by
    rw [← zpow_natCast, ← zpow_natCast, ← zpow_sub₀ (by norm_num)]
    congr 1
    omega
  rw [Decimal.value, scale, mul_div_assoc', div_le_div_iff₀ unit down, div_le_div_iff₀ down unit]
  simp only [Nat.pow_eq]
  constructor <;> exact_mod_cast Iff.rfl

theorem contains_iff (positive : 0 < m) :
    (ofMantissa m e).contains d = true ↔
      Between (m % 2 = 0) (lowEnd m e) (highEnd m e) d.value := by
  have low : ((ofMantissa m e).low : ℚ) / (ofMantissa m e).unit = lowEnd m e := by
    refine (quarters (4 * m - if m = 2 ^ 52 ∧ -1074 < e then 1 else 2) m e).trans ?_
    rw [lowEnd, Nat.cast_sub (by split <;> omega)]
    push_cast
    rfl
  have high : ((ofMantissa m e).high : ℚ) / (ofMantissa m e).unit = highEnd m e := by
    refine (quarters (4 * m + 2) m e).trans ?_
    rw [highEnd]
    push_cast
    rfl
  have closed : (ofMantissa m e).closed = decide (m % 2 = 0) := rfl
  have below := le_value_iff (d := d) (unit_pos m e) (ofMantissa m e).low
  have above := le_value_iff (d := d) (unit_pos m e) (ofMantissa m e).high
  rw [low] at below
  rw [high] at above
  rw [contains, closed, Between]
  simp only [decide_eq_true_eq]
  split
  · rename_i even
    simp only [Bool.decide_and, Bool.and_eq_true, decide_eq_true_eq, below.1, above.2, even,
      true_and, le_iff_lt_or_eq]
  · rename_i odd
    simp only [Bool.decide_and, Bool.and_eq_true, decide_eq_true_eq, ← not_le, below.2, above.1,
      odd, false_and, or_false]

/-! ## The interval -/

theorem lowEnd_eq (m : ℕ) (e : ℤ) :
    lowEnd m e = (m - if m = 2 ^ 52 ∧ -1074 < e then 1 / 4 else 1 / 2) * (2 : ℚ) ^ e := by
  rw [lowEnd, zpow_sub₀ (by norm_num)]
  norm_num
  split <;> ring

theorem highEnd_eq (m : ℕ) (e : ℤ) : highEnd m e = (m + 1 / 2) * 2 ^ e := by
  rw [highEnd, zpow_sub₀ (by norm_num)]
  norm_num
  ring

theorem two_zpow_add (e : ℤ) (k : ℕ) : (2 : ℚ) ^ (e + k) = 2 ^ k * 2 ^ e := by
  rw [zpow_add₀ (by norm_num), zpow_natCast, mul_comm]

/-- The grid of a magnitude of 53 bits, or of the finest grid. -/
theorem gridExponent_eq {q : ℚ} (upper : q < 2 ^ (e + 53))
    (lower : 2 ^ (e + 52) ≤ q ∨ e = -1074 ∧ 0 < q) (finest : -1074 ≤ e) : gridExponent q = e := by
  have positive : 0 < q := lower.elim (two_zpow_pos _).trans_le And.right
  have above : Int.log 2 q < e + 53 :=
    (Int.lt_zpow_iff_log_lt Nat.one_lt_two positive).mp (by rw [Nat.cast_ofNat]; exact upper)
  rw [gridExponent]
  rcases lower with normal | ⟨rfl, -⟩
  · have below : e + 52 ≤ Int.log 2 q :=
      (Int.zpow_le_iff_le_log Nat.one_lt_two positive).mp (by rw [Nat.cast_ofNat]; exact normal)
    omega
  · omega

/-- Half a unit is rounded away to an even number. -/
theorem nearest_eq {q : ℚ} {n : ℕ} (h : Between (n % 2 = 0) (n - 1 / 2) (n + 1 / 2) q) :
    nearest q = n := by
  obtain ⟨lower, upper⟩ := h
  have weak : n - 1 / 2 ≤ q := lower.elim le_of_lt fun h => h.2.le
  have weak' : q ≤ n + 1 / 2 := upper.elim le_of_lt fun h => h.2.le
  rcases lt_or_ge q n with below | above
  · have floor : ⌊q⌋ = (n : ℤ) - 1 :=
      Int.floor_eq_iff.mpr ⟨by push_cast; linarith, by push_cast; linarith⟩
    rw [nearest, floor]
    push_cast
    rw [if_neg (by linarith)]
    split
    · omega
    · rename_i half
      rcases lower with more | ⟨even, same⟩
      · exact absurd (by linarith) half
      · omega
  · have floor : ⌊q⌋ = (n : ℤ) :=
      Int.floor_eq_iff.mpr ⟨by push_cast; linarith, by push_cast; linarith⟩
    rw [nearest, floor]
    push_cast
    split
    · rfl
    · rename_i half
      rw [if_neg (by linarith)]
      rcases upper with less | ⟨even, same⟩
      · exact absurd (by linarith) half
      · omega

/-- Below a power of two the grid is half as wide, and there the interval reaches as far
as rounding does. -/
theorem roundedMagnitude_of_fine {q : ℚ} (narrow : -1074 < e) (lower : lowEnd (2 ^ 52) e ≤ q)
    (below : q < 2 ^ (e + 52)) : roundedMagnitude q = (2 ^ 52 : ℕ) * 2 ^ e := by
  have scale := two_zpow_pos (e - 1)
  have double : (2 : ℚ) ^ e = 2 * 2 ^ (e - 1) := by
    rw [zpow_sub_one₀ (by norm_num)]
    ring
  have bottom : (2 : ℚ) ^ (e + 52) = 2 ^ 52 * 2 ^ e := two_zpow_add e 52
  rw [lowEnd_eq, if_pos ⟨rfl, narrow⟩, double] at lower
  rw [bottom, double] at below
  push_cast at lower
  have grid : gridExponent q = e - 1 := by
    refine gridExponent_eq ?_ (.inl ?_) (by omega)
    · rw [show e - 1 + 53 = e + 52 by ring, bottom, double]
      exact below
    · rw [zpow_add₀ (by norm_num)]
      norm_num
      linarith
  have between : Between ((2 ^ 53 : ℕ) % 2 = 0) ((2 ^ 53 : ℕ) - 1 / 2) ((2 ^ 53 : ℕ) + 1 / 2)
      (q / 2 ^ (e - 1)) := by
    refine Between.div ⟨?_, .inl ?_⟩ scale
    · rcases lower.lt_or_eq with more | same
      · refine .inl (lt_of_eq_of_lt ?_ more)
        push_cast
        ring
      · refine .inr ⟨by norm_num, Eq.trans ?_ same⟩
        push_cast
        ring
    · push_cast
      linarith
  rw [roundedMagnitude, grid, nearest_eq between, double]
  push_cast
  ring

/-- Every number in the interval of a double rounds to it. -/
theorem roundedMagnitude_of_between {q : ℚ} (positive : 0 < m) (small : m < 2 ^ 53)
    (finest : -1074 ≤ e) (normal : 2 ^ 52 ≤ m ∨ e = -1074)
    (h : Between (m % 2 = 0) (lowEnd m e) (highEnd m e) q) :
    roundedMagnitude q = m * 2 ^ e := by
  have scale := two_zpow_pos e
  have one : (1 : ℚ) ≤ m := by exact_mod_cast positive
  have many : (m : ℚ) + 1 ≤ 2 ^ 53 := by exact_mod_cast small
  have lower : lowEnd m e ≤ q := h.1.elim le_of_lt fun h => h.2.le
  have upper : q ≤ highEnd m e := h.2.elim le_of_lt fun h => h.2.le
  have half : (m - 1 / 2) * (2 : ℚ) ^ e ≤ lowEnd m e := by
    rw [lowEnd_eq]
    exact mul_le_mul_of_nonneg_right (by split <;> linarith) scale.le
  rw [highEnd_eq] at h upper
  by_cases onGrid : 2 ^ (e + 52) ≤ q ∨ e = -1074
  · have grid : gridExponent q = e := by
      refine gridExponent_eq ?_ (onGrid.imp_right fun same => ⟨same, ?_⟩) finest
      · have top : (2 : ℚ) ^ (e + 53) = 2 ^ 53 * 2 ^ e := two_zpow_add e 53
        rw [top]
        nlinarith
      · nlinarith
    rw [roundedMagnitude, grid, nearest_eq ((h.mono half).div scale)]
    rfl
  · push Not at onGrid
    obtain ⟨below, coarse⟩ := onGrid
    have least : m = 2 ^ 52 := by
      by_contra other
      have more : (2 : ℚ) ^ 52 + 1 ≤ m := by
        exact_mod_cast (normal.resolve_right coarse).lt_of_ne' other
      have bottom : (2 : ℚ) ^ (e + 52) = 2 ^ 52 * 2 ^ e := two_zpow_add e 52
      rw [bottom] at below
      nlinarith
    subst least
    exact roundedMagnitude_of_fine (lt_of_le_of_ne finest (Ne.symm coarse)) lower below

end RoundingInterval

namespace Decimal

open RoundingInterval

variable {tie : Tie} {i : RoundingInterval} {places : ℕ} {d : Decimal}

/-! ## The search -/

theorem roundDiv_eq (tie : Tie) (num den : ℕ) :
    roundDiv tie num den = num / den ∨ roundDiv tie num den = num / den + 1 := by
  simp only [roundDiv]
  split
  · exact .inl rfl
  · exact .inr rfl
  · cases tie
    · exact .inr rfl
    · rcases Nat.mod_two_eq_zero_or_one (num / den) with even | odd
      · exact .inl (by simp only [even, Nat.add_zero])
      · exact .inr (by simp only [odd])

/-- The decimal found is one of the two neighbours on the grid, and in the interval. -/
theorem nearestOf_eq_some (h : nearestOf tie i places = some d) :
    i.contains d = true ∧
      let unit := magnitude i.value i.unit - (places - 1 : ℕ)
      d.exponent = unit ∧
        d.digits ≤ (onGrid i.value i.unit unit).1 / (onGrid i.value i.unit unit).2 + 1 := by
  rw [nearestOf] at h
  split at h
  · rename_i below above
    cases h
    exact ⟨below, rfl, Nat.le_succ _⟩
  · rename_i below above
    cases h
    exact ⟨above, rfl, le_refl _⟩
  · rename_i below above
    cases h
    rcases roundDiv_eq tie (onGrid i.value i.unit (magnitude i.value i.unit - (places - 1 : ℕ))).1
      (onGrid i.value i.unit (magnitude i.value i.unit - (places - 1 : ℕ))).2 with same | same
    · rw [same]
      exact ⟨below, rfl, Nat.le_succ _⟩
    · rw [same]
      exact ⟨above, rfl, le_refl _⟩
  · cases h

/-- On a grid of so many places the quotient has no more digits. -/
theorem onGrid_lt {num den : ℕ} (hn : 0 < num) (hd : 0 < den) (hp : 0 < places) :
    (onGrid num den (magnitude num den - (places - 1 : ℕ))).1 /
      (onGrid num den (magnitude num den - (places - 1 : ℕ))).2 < 10 ^ places := by
  obtain ⟨positive, quotient⟩ := onGrid_spec num hd (magnitude num den - (places - 1 : ℕ))
  have divisor : (0 : ℚ) < (onGrid num den (magnitude num den - (places - 1 : ℕ))).2 := by
    exact_mod_cast positive
  have below : (num : ℚ) / den / 10 ^ (magnitude num den - (places - 1 : ℕ)) < 10 ^ places := by
    rw [div_lt_iff₀ (ten_zpow_pos _), ← zpow_natCast, ← zpow_add₀ (by norm_num)]
    refine (magnitude_spec hn hd).2.trans_eq ?_
    congr 1
    omega
  rw [← quotient, div_lt_iff₀ divisor] at below
  exact Nat.div_lt_of_lt_mul (by rw [mul_comm]; exact_mod_cast below)

variable {m : ℕ} {e : ℤ}

theorem value_div_unit (m : ℕ) (e : ℤ) :
    ((ofMantissa m e).value : ℚ) / (ofMantissa m e).unit = m * 2 ^ e := by
  refine (quarters (4 * m) m e).trans ?_
  rw [zpow_sub₀ (by norm_num)]
  push_cast
  ring

theorem value_pos (positive : 0 < m) : 0 < (ofMantissa m e).value := by
  rw [ofMantissa]
  simp only [Nat.one_shiftLeft]
  positivity

/-- Of the two neighbours of a double on the grid of seventeen digits, one is in the interval. -/
theorem nearestOf_isSome (tie : Tie) (positive : 0 < m) (small : m < 2 ^ 53) :
    (nearestOf tie (ofMantissa m e) 17).isSome := by
  have scale := two_zpow_pos e
  have few : (m : ℚ) < 2 ^ 53 := by exact_mod_cast small
  obtain ⟨hu, quotient⟩ := onGrid_spec (ofMantissa m e).value (unit_pos m e)
    (magnitude (ofMantissa m e).value (ofMantissa m e).unit - 16)
  have lead := (magnitude_spec (value_pos (e := e) positive) (unit_pos m e)).1
  rw [value_div_unit] at quotient lead
  rw [nearestOf, show ((17 - 1 : ℕ) : ℤ) = 16 from rfl]
  generalize magnitude (ofMantissa m e).value (ofMantissa m e).unit = k at *
  generalize onGrid (ofMantissa m e).value (ofMantissa m e).unit (k - 16) = g at *
  have divisor : (0 : ℚ) < g.2 := by exact_mod_cast hu
  have unit := ten_zpow_pos (k - 16)
  have fine : (10 : ℚ) ^ (k - 16) * 10 ^ 16 ≤ m * 2 ^ e := by
    rw [← zpow_natCast, ← zpow_add₀ (by norm_num)]
    exact (zpow_le_zpow_right₀ (by norm_num) (by omega)).trans lead
  have below : ((g.1 / g.2 : ℕ) : ℚ) * 10 ^ (k - 16) ≤ m * 2 ^ e := by
    rw [← le_div_iff₀ unit, ← quotient]
    exact Nat.cast_div_le
  have above : (m : ℚ) * 2 ^ e < ((g.1 / g.2 + 1 : ℕ) : ℚ) * 10 ^ (k - 16) := by
    rw [← div_lt_iff₀ unit, ← quotient, div_lt_iff₀ divisor]
    exact_mod_cast Nat.lt_mul_of_div_lt (Nat.lt_succ_self _) hu
  split
  · rfl
  · rfl
  · rfl
  · rename_i missed missed'
    rw [← Bool.not_eq_true, contains_iff positive] at missed missed'
    have inside : lowEnd m e < m * 2 ^ e ∧ m * 2 ^ e < highEnd m e := by
      rw [lowEnd_eq, highEnd_eq]
      exact ⟨mul_lt_mul_of_pos_right (by split <;> linarith) scale,
        mul_lt_mul_of_pos_right (by linarith) scale⟩
    have low := not_lt.mp fun more => missed ⟨.inl more, .inl (below.trans_lt inside.2)⟩
    have high := not_lt.mp fun less => missed' ⟨.inl (inside.1.trans above), .inl less⟩
    rw [lowEnd_eq, Decimal.value] at low
    rw [highEnd_eq, Decimal.value] at high
    push_cast at low high
    generalize (10 : ℚ) ^ (k - 16) = unit at *
    -- The two neighbours would be further apart than the grid allows.
    split at low
    · rename_i narrow
      have least : (m : ℚ) = 2 ^ 52 := by exact_mod_cast narrow.1
      rw [least] at low high fine
      nlinarith
    · nlinarith

/-- The shortest decimal lies in the interval and has at most seventeen digits. -/
theorem shortest_spec (tie : Tie) (positive : 0 < m) (small : m < 2 ^ 53) :
    Between (m % 2 = 0) (lowEnd m e) (highEnd m e) (shortest tie (ofMantissa m e)).value ∧
      (shortest tie (ofMantissa m e)).digits ≤ 10 ^ 17 := by
  have found : ((List.range' 1 17).findSome? (nearestOf tie (ofMantissa m e))).isSome :=
    List.findSome?_isSome_iff.mpr ⟨17, by decide, nearestOf_isSome tie positive small⟩
  obtain ⟨d, found⟩ := Option.isSome_iff_exists.mp found
  obtain ⟨places, range, nearest⟩ := List.exists_of_findSome?_eq_some found
  obtain ⟨first, last⟩ := List.mem_range'_1.mp range
  obtain ⟨inside, -, digits⟩ := nearestOf_eq_some nearest
  obtain ⟨same, less⟩ := canonical_spec d
  rw [shortest, found, Option.getD_some, same]
  refine ⟨(contains_iff positive).mp inside, less.trans (digits.trans ?_)⟩
  calc
    _ ≤ 10 ^ places := onGrid_lt (value_pos positive) (unit_pos m e) (by omega)
    _ ≤ 10 ^ 17 := Nat.pow_le_pow_right (by norm_num) (by omega)

/-- The shortest decimal of a double rounds to it. -/
theorem roundedMagnitude_shortest (tie : Tie) (positive : 0 < m) (small : m < 2 ^ 53)
    (finest : -1074 ≤ e) (normal : 2 ^ 52 ≤ m ∨ e = -1074) :
    roundedMagnitude (shortest tie (ofMantissa m e)).value = m * 2 ^ e :=
  roundedMagnitude_of_between positive small finest normal (shortest_spec tie positive small).1

end Decimal

end ArenaAgent
