import ArenaAgent.Json.Shape
import ArenaAgent.Proofs.Binary64.Zeros
import ArenaAgent.Proofs.Decimal.Shortest
import ArenaAgent.Proofs.Json.Numbers

/-!
The text of a number and the number that is read from it. The digits of a decimal, with zeros before
or after them, a point or an exponent, come back as a number of the same amount.
-/
namespace ArenaAgent.Json

open ArenaAgent.Binary64

/-! ## Digits -/

/-- The digits that characters are. -/
def digitValues (cs : List Char) : List ℕ :=
  cs.map fun c => c.toNat - '0'.toNat

/-- No number goes on with this text. -/
def Stops (rest : List Char) : Prop :=
  ∀ c ∈ rest.head?, c.isDigit = false ∧ c ≠ '.' ∧ c ≠ 'e' ∧ c ≠ 'E'

theorem digits_append {cs rest : List Char} (all : ∀ c ∈ cs, c.isDigit)
    (stop : ∀ c ∈ rest.head?, c.isDigit = false) :
    Json.digits (cs ++ rest) = (digitValues cs, rest) := by
  have nothing : rest.takeWhile Char.isDigit = [] ∧ rest.dropWhile Char.isDigit = rest := by
    cases rest with
    | nil => exact ⟨rfl, rfl⟩
    | cons c rest => simp [stop c rfl]
  rw [Json.digits, List.takeWhile_append_of_pos all, List.dropWhile_append_of_pos all, nothing.1,
    nothing.2, List.append_nil, digitValues]

theorem gathered_digitValues (s : ℕ) (cs : List Char) :
    gathered s (digitValues cs) = Nat.ofDigitChars 10 cs s := by
  rw [gathered, digitValues, List.foldl_map]
  rfl

theorem isDigit_toDigits (k : ℕ) : ∀ c ∈ Nat.toDigits 10 k, c.isDigit :=
  fun _ mem => Nat.isDigit_of_mem_toDigits (by norm_num) (by norm_num) mem

/-- No zero stands in front of the digits of a whole number. -/
theorem toDigits_eq_cons {k : ℕ} (positive : 0 < k) :
    ∃ c cs, Nat.toDigits 10 k = c :: cs ∧ c ≠ '0' := by
  induction k using Nat.strongRecOn with
  | ind k ih =>
    rcases Nat.lt_or_ge k 10 with one | more
    · refine ⟨_, [], Nat.toDigits_of_lt_base one, ?_⟩
      interval_cases k <;> decide
    · obtain ⟨c, cs, digits, nonzero⟩ := ih (k / 10) (by omega) (by omega)
      exact ⟨c, _, by rw [Nat.toDigits_of_base_le (by norm_num) more, digits]; rfl, nonzero⟩

/-! ## The parts of a number -/

/-- The characters of the digits after the point. -/
def fractionChars : List Char → List Char
  | [] => []
  | c :: cs => '.' :: c :: cs

/-- The characters of an exponent. -/
def exponentChars : Option ℤ → List Char
  | none => []
  | some (.ofNat k) => 'e' :: '+' :: Nat.toDigits 10 k
  | some (.negSucc k) => 'e' :: '-' :: Nat.toDigits 10 (k + 1)

variable {whole fraction rest : List Char}

theorem exponentPart_eq (exponent : Option ℤ) (stops : Stops rest) :
    exponentPart (exponentChars exponent ++ rest) = some (exponent, rest) := by
  have stop : ∀ c ∈ rest.head?, c.isDigit = false := fun c mem => (stops c mem).1
  have power (k : ℕ) :
      Json.digits (Nat.toDigits 10 k ++ rest) = (digitValues (Nat.toDigits 10 k), rest) :=
    digits_append (isDigit_toDigits k) stop
  have value (k : ℕ) : valueOf (digitValues (Nat.toDigits 10 k)) = k :=
    (gathered_digitValues 0 _).trans Nat.ofDigitChars_ten_toDigits
  have nonempty (k : ℕ) : ∃ d ds, digitValues (Nat.toDigits 10 k) = d :: ds :=
    List.exists_cons_of_ne_nil fun none => Nat.toDigits_ne_nil (List.map_eq_nil_iff.mp none)
  match exponent with
  | none =>
    cases rest with
    | nil => rfl
    | cons c rest =>
      obtain ⟨-, -, small, great⟩ := stops c rfl
      change exponentPart (c :: rest) = _
      simp [exponentPart, small, great]
  | some (.ofNat k) =>
    obtain ⟨d, ds, split⟩ := nonempty k
    have same := value k
    rw [split] at same
    change exponentPart ('e' :: '+' :: (Nat.toDigits 10 k ++ rest)) = _
    simp [exponentPart, power, split, same]
  | some (.negSucc k) =>
    obtain ⟨d, ds, split⟩ := nonempty (k + 1)
    have same := value (k + 1)
    rw [split] at same
    change exponentPart ('e' :: '-' :: (Nat.toDigits 10 (k + 1) ++ rest)) = _
    simp [exponentPart, power, split, same, Int.negSucc_eq]

theorem fractionPart_eq (hf : ∀ c ∈ fraction, c.isDigit)
    (stop : ∀ c ∈ rest.head?, c.isDigit = false ∧ c ≠ '.') :
    fractionPart (fractionChars fraction ++ rest) = some (digitValues fraction, rest) := by
  cases fraction with
  | nil =>
    cases rest with
    | nil => rfl
    | cons c rest =>
      change fractionPart (c :: rest) = _
      rw [fractionPart]
      · rfl
      · exact fun _ same => (stop c rfl).2 (List.cons.inj same).1
  | cons c cs =>
    change fractionPart ('.' :: (c :: cs ++ rest)) = _
    rw [fractionPart, digits_append hf fun c mem => (stop c mem).1]
    rfl

/-- Digits, digits after the point and an exponent are read as they were written. -/
theorem numeral_eq (negative : Bool) (hw : ∀ c ∈ whole, c.isDigit) (hf : ∀ c ∈ fraction, c.isDigit)
    (lead : whole = ['0'] ∨ ∃ c cs, whole = c :: cs ∧ c ≠ '0') (exponent : Option ℤ)
    (stops : Stops rest) :
    numeral negative (whole ++ (fractionChars fraction ++ (exponentChars exponent ++ rest))) =
      some (⟨negative, digitValues whole, digitValues fraction, exponent⟩, rest) := by
  have stop : ∀ c ∈ (exponentChars exponent ++ rest).head?, c.isDigit = false ∧ c ≠ '.' := by
    match exponent with
    | none => exact fun c mem => ⟨(stops c mem).1, (stops c mem).2.1⟩
    | some (.ofNat k) | some (.negSucc k) =>
      intro c mem
      cases mem
      decide
  have before : ∀ c ∈ (fractionChars fraction ++ (exponentChars exponent ++ rest)).head?,
      c.isDigit = false := by
    cases fraction with
    | nil => exact fun c mem => (stop c mem).1
    | cons c cs =>
      intro c mem
      cases mem
      decide
  rw [numeral, digits_append hw before]
  simp only [bind, fractionPart_eq hf stop, Option.bind_some, exponentPart_eq exponent stops]
  rcases lead with rfl | ⟨c, cs, rfl, nonzero⟩
  · rfl
  · have digit := Char.isDigit_iff_toNat.mp (hw c (.head _))
    have first : c.toNat - '0'.toNat ≠ 0 := by
      have other : c.toNat ≠ '0'.toNat := fun same => nonzero (Char.toNat_inj.mp same)
      omega
    rw [show digitValues (c :: cs) = (c.toNat - '0'.toNat) :: digitValues cs from rfl]
    generalize c.toNat - '0'.toNat = v at first
    split
    · rename_i none
      cases none
    · rename_i zero
      exact absurd (List.cons.inj zero).1 first
    · rfl

/-! ## The text of a decimal -/

/-- Where these characters stand, whatever follows, this number is read. -/
def Spelt (cs : List Char) (n : Numeral) : Prop :=
  ∀ negative rest, Stops rest →
    numeral negative (cs ++ rest) = some (⟨negative, n.whole, n.fraction, n.exponent⟩, rest)

/-- The number of these characters. -/
def numeralOf (whole fraction : List Char) (exponent : Option ℤ) : Numeral :=
  ⟨false, digitValues whole, digitValues fraction, exponent⟩

theorem spelt_numeralOf (whole fraction : List Char) (hw : ∀ c ∈ whole, c.isDigit)
    (hf : ∀ c ∈ fraction, c.isDigit) (lead : whole = ['0'] ∨ ∃ c cs, whole = c :: cs ∧ c ≠ '0')
    (exponent : Option ℤ) :
    Spelt (whole ++ (fractionChars fraction ++ exponentChars exponent))
      (numeralOf whole fraction exponent) := by
  intro negative rest stops
  rw [List.append_assoc, List.append_assoc]
  exact numeral_eq negative hw hf lead exponent stops

theorem digits_numeralOf (whole fraction : List Char) (exponent : Option ℤ) :
    (numeralOf whole fraction exponent).digits = Nat.ofDigitChars 10 (whole ++ fraction) 0 := by
  rw [← gathered_digitValues, digitValues, List.map_append]
  rfl

theorem scale_numeralOf (whole fraction : List Char) (exponent : Option ℤ) :
    (numeralOf whole fraction exponent).scale = exponent.getD 0 - fraction.length := by
  simp [Numeral.scale, numeralOf, digitValues]

/-- A number that has the digits of a decimal, in front of zeros, has the amount of the decimal if
the exponents agree. -/
theorem amount_numeralOf {d : Decimal} {exponent : Option ℤ} {k : ℕ}
    (digits : Nat.ofDigitChars 10 (whole ++ fraction) 0 = 10 ^ k * d.digits)
    (scale : exponent.getD 0 - fraction.length = d.exponent - k) :
    (numeralOf whole fraction exponent).amount = d.value := by
  rw [Numeral.amount, digits_numeralOf, scale_numeralOf, digits, scale, Decimal.value,
    zpow_sub₀ (by norm_num), zpow_natCast]
  push_cast
  field_simp

theorem fractionChars_of_ne_nil (some : fraction ≠ []) :
    fractionChars fraction = '.' :: fraction := by
  cases fraction with
  | nil => exact absurd rfl some
  | cons c cs => rfl

theorem isDigit_zeros (k : ℕ) : ∀ c ∈ NumberStyle.zeros k, c.isDigit := by
  intro c mem
  rw [List.eq_of_mem_replicate mem]
  rfl

section

variable {ds : List Char} (all : ∀ c ∈ ds, c.isDigit) (lead : ∃ c cs, ds = c :: cs ∧ c ≠ '0')
include all lead

/-- A number below one. -/
theorem spelt_below_one (k : ℕ) :
    Spelt ("0." ++ String.ofList (NumberStyle.zeros k ++ ds)).toList
      (numeralOf ['0'] (NumberStyle.zeros k ++ ds) none) := by
  have spelt := spelt_numeralOf ['0'] (NumberStyle.zeros k ++ ds) (by simp)
    (List.forall_mem_append.mpr ⟨isDigit_zeros k, all⟩) (.inl rfl) none
  obtain ⟨c, cs, rfl, -⟩ := lead
  rw [fractionChars_of_ne_nil (by simp)] at spelt
  simpa [exponentChars] using spelt

/-- A whole number. -/
theorem spelt_whole (k : ℕ) :
    Spelt (String.ofList (ds ++ NumberStyle.zeros k) ++ ".0").toList
      (numeralOf (ds ++ NumberStyle.zeros k) ['0'] none) := by
  have spelt := spelt_numeralOf (ds ++ NumberStyle.zeros k) ['0']
    (List.forall_mem_append.mpr ⟨all, isDigit_zeros k⟩) (by simp) (.inr ?_) none
  · simpa [exponentChars, fractionChars] using spelt
  · obtain ⟨c, cs, rfl, nonzero⟩ := lead
    exact ⟨c, cs ++ NumberStyle.zeros k, rfl, nonzero⟩

/-- A number with its point between the digits. -/
theorem spelt_pointed {k : ℕ} (some : 0 < k) (rest : k < ds.length) :
    Spelt (String.ofList (ds.take k) ++ "." ++ String.ofList (ds.drop k)).toList
      (numeralOf (ds.take k) (ds.drop k) none) := by
  have spelt :=
    spelt_numeralOf (ds.take k) (ds.drop k) (fun c mem => all c (List.mem_of_mem_take mem))
      (fun c mem => all c (List.mem_of_mem_drop mem)) (.inr ?_) none
  · rw [fractionChars_of_ne_nil (by simpa using rest)] at spelt
    simpa [exponentChars] using spelt
  · obtain ⟨c, cs, rfl, nonzero⟩ := lead
    obtain ⟨k, rfl⟩ := Nat.exists_eq_succ_of_ne_zero some.ne'
    exact ⟨c, cs.take k, rfl, nonzero⟩

end

/-- A number with an exponent. -/
theorem spelt_scientific {c : Char} {cs : List Char} (all : ∀ x ∈ c :: cs, x.isDigit)
    (nonzero : c ≠ '0') (e : ℤ) :
    Spelt ((match c :: cs with
      | [] | [_] =>
        String.ofList (c :: cs) ++ "e" ++ (if 0 ≤ e then "+" ++ toString e else toString e)
      | first :: rest =>
        String.ofList (first :: '.' :: rest) ++ "e" ++
          (if 0 ≤ e then "+" ++ toString e else toString e))).toList
      (numeralOf [c] cs (some e)) := by
  have spelt := spelt_numeralOf [c] cs (fun x mem => all x (by simp_all))
    (fun x mem => all x (.tail _ mem)) (.inr ⟨c, [], rfl, nonzero⟩) (some e)
  have exponent :
      exponentChars (some e) =
        ("e" ++ (if 0 ≤ e then "+" ++ toString e else toString e)).toList := by
    cases e with
    | ofNat k =>
      rw [if_pos (show 0 ≤ Int.ofNat k from Int.natCast_nonneg k)]
      simp [exponentChars, toString, Int.repr]
    | negSucc k =>
      rw [if_neg (Int.negSucc_not_nonneg k).mp]
      simp [exponentChars, toString, Int.repr]
  rw [exponent] at spelt
  cases cs with
  | nil => simpa [fractionChars] using spelt
  | cons c' cs => simpa [fractionChars] using spelt

/-- The text of a decimal is read as a number of the same amount, and with no more digits than a
whole number of sixteen digits has with one digit after the point. -/
theorem layOut_json {d : Decimal} (positive : 0 < d.digits) (few : d.digits ≤ 10 ^ 17) :
    ∃ n : Numeral, Spelt (NumberStyle.json.layOut d).toList n ∧ n.amount = d.value ∧
      n.digits ≤ 10 ^ 17 := by
  have all := isDigit_toDigits d.digits
  have lead := toDigits_eq_cons positive
  have value : Nat.ofDigitChars 10 (Nat.toDigits 10 d.digits) 0 = d.digits :=
    Nat.ofDigitChars_ten_toDigits
  have short : d.digits < 10 ^ (Nat.toDigits 10 d.digits).length := lt_ten_pow_digitCount d.digits
  rw [NumberStyle.layOut]
  generalize Nat.toDigits 10 d.digits = ds at *
  simp only
  split
  · rename_i positional
    have inside : -5 ≤ d.exponent + ds.length - 1 ∧ d.exponent + ds.length - 1 < 16 :=
      of_decide_eq_true positional
    rw [NumberStyle.pointAfter]
    split
    · rename_i before
      have same :
          Nat.ofDigitChars 10 (['0'] ++
            (NumberStyle.zeros (-(d.exponent + ds.length - 1 + 1)).toNat ++ ds)) 0 =
          10 ^ 0 * d.digits := by
        simp [Nat.ofDigitChars_append, Nat.ofDigitChars_cons, NumberStyle.zeros, value]
      refine ⟨_, spelt_below_one all lead _, amount_numeralOf same ?_, ?_⟩
      · simp [NumberStyle.zeros]
        omega
      · rw [digits_numeralOf, same, pow_zero, one_mul]
        exact few
    · split
      · rename_i after beyond
        have same :
            Nat.ofDigitChars 10
              (ds ++ NumberStyle.zeros ((d.exponent + ds.length - 1 + 1).toNat - ds.length) ++
                ['0']) 0 =
            10 ^ ((d.exponent + ds.length - 1 + 1).toNat - ds.length + 1) * d.digits := by
          simp [Nat.ofDigitChars_append, Nat.ofDigitChars_cons, NumberStyle.zeros, value, pow_succ]
          ring
        refine ⟨_, spelt_whole all lead _, amount_numeralOf same ?_, ?_⟩
        · simp
          omega
        · rw [digits_numeralOf, same]
          calc
            _ ≤ 10 ^ ((d.exponent + ds.length - 1 + 1).toNat - ds.length + 1) * 10 ^ ds.length :=
              Nat.mul_le_mul_left _ short.le
            _ = 10 ^ ((d.exponent + ds.length - 1 + 1).toNat - ds.length + 1 + ds.length) :=
              (pow_add _ _ _).symm
            _ ≤ 10 ^ 17 := Nat.pow_le_pow_right (by norm_num) (by omega)
      · rename_i after within
        have same : Nat.ofDigitChars 10 (ds.take (d.exponent + ds.length - 1 + 1).toNat ++
            ds.drop (d.exponent + ds.length - 1 + 1).toNat) 0 = 10 ^ 0 * d.digits := by
          rw [List.take_append_drop, value, pow_zero, one_mul]
        refine ⟨_, spelt_pointed all lead (by omega) (by omega), amount_numeralOf same ?_, ?_⟩
        · simp
          omega
        · rw [digits_numeralOf, same, pow_zero, one_mul]
          exact few
  · obtain ⟨c, cs, rfl, nonzero⟩ := lead
    have same : Nat.ofDigitChars 10 ([c] ++ cs) 0 = 10 ^ 0 * d.digits := by
      rw [pow_zero, one_mul]
      exact value
    refine ⟨_, spelt_scientific all nonzero _, amount_numeralOf same ?_, ?_⟩
    · simp only [Option.getD_some, List.length_cons]
      omega
    · rw [digits_numeralOf, same, pow_zero, one_mul]
      exact few

/-! ## The text of a double -/

theorem token_of_digit {c : Char} {cs : List Char} (digit : c.isDigit) :
    token (c :: cs) = (numeral false (c :: cs)).map fun (n, cs) => (.number n, cs) := by
  rw [token]
  all_goals
    intro _ same
    rw [(List.cons.inj same).1] at digit
    cases digit

/-- The characters of a number start with a digit. -/
theorem Spelt.eq_cons {cs : List Char} {n : Numeral} (h : Spelt cs n) :
    ∃ c rest, cs = c :: rest ∧ c.isDigit := by
  have read := h false [] nofun
  rw [List.append_nil] at read
  cases cs with
  | nil => cases read
  | cons c cs =>
    refine ⟨c, cs, rfl, Bool.eq_true_of_not_eq_false fun other => ?_⟩
    rw [numeral, Json.digits] at read
    simp [other] at read

/-- Two numbers that differ in their sign alone. -/
theorem Spelt.token {cs : List Char} {n : Numeral} (h : Spelt cs n) {rest : List Char}
    (stops : Stops rest) :
    Json.token (cs ++ rest) = some (.number ⟨false, n.whole, n.fraction, n.exponent⟩, rest) ∧
      Json.token ('-' :: (cs ++ rest)) =
        some (.number ⟨true, n.whole, n.fraction, n.exponent⟩, rest) := by
  constructor
  · have read := h false rest stops
    obtain ⟨c, cs, rfl, digit⟩ := h.eq_cons
    rw [List.cons_append] at read ⊢
    rw [token_of_digit digit, read]
    rfl
  · change (numeral true (cs ++ rest)).map _ = _
    rw [h true rest stops]
    rfl

/-- A text that is one number wherever nothing of a number follows. -/
structure Writes (text : String) (n : Numeral) : Prop where
  token {rest : List Char} (stops : Stops rest) :
    Json.token (text.toList ++ rest) = some (.number n, rest)
  start : ∃ c rest, text.toList = c :: rest ∧ isBlank c = false

/-- What the number that is written for a double has to do with the double. -/
structure Written (x : Float) (n : Numeral) : Prop where
  digits : n.digits ≤ 10 ^ 17
  amount : roundedMagnitude n.amount = |value x|
  /-- A zero is written as one. -/
  zero : value x = 0 →
    (n = ⟨false, [0], [0], none⟩ ∧ x = 0.0) ∨ (n = ⟨true, [0], [0], none⟩ ∧ x = -0.0)
  some : value x ≠ 0 → 0 < n.digits ∧ (n.negative = true ↔ value x < 0)

theorem isBlank_of_isDigit {c : Char} (digit : c.isDigit) : isBlank c = false := by
  refine decide_eq_false ?_
  rintro (rfl | rfl | rfl | rfl) <;> cases digit

theorem Spelt.writes {text : String} {n : Numeral} (h : Spelt text.toList n) :
    Writes text ⟨false, n.whole, n.fraction, n.exponent⟩ ∧
      Writes ("-" ++ text) ⟨true, n.whole, n.fraction, n.exponent⟩ := by
  have minus : ("-" ++ text).toList = '-' :: text.toList := by simp
  refine ⟨⟨fun stops => (h.token stops).1, ?_⟩, ⟨fun stops => ?_, ?_⟩⟩
  · obtain ⟨c, rest, start, digit⟩ := h.eq_cons
    exact ⟨c, rest, start, isBlank_of_isDigit digit⟩
  · rw [minus, List.cons_append]
    exact (h.token stops).2
  · rw [minus]
    exact ⟨_, _, rfl, rfl⟩

theorem writes_zero : Writes "0.0" ⟨false, [0], [0], none⟩ ∧ Writes "-0.0" ⟨true, [0], [0], none⟩ :=
  @Spelt.writes "0.0" _ (spelt_numeralOf ['0'] ['0'] (by simp) (by simp) (.inl rfl) none)

/-- The magnitude of a finite double other than zero is written as a number that rounds to it. -/
theorem layOut_shortest {m : ℕ} {e : ℤ} (positive : 0 < m) (small : m < 2 ^ 53) (finest : -1074 ≤ e)
    (normal : 2 ^ 52 ≤ m ∨ e = -1074) :
    ∃ n : Numeral,
      Spelt (NumberStyle.json.layOut (Decimal.shortest .toEven (.ofMantissa m e))).toList n ∧
      n.digits ≤ 10 ^ 17 ∧ 0 < n.digits ∧ roundedMagnitude n.amount = m * 2 ^ e := by
  have magnitude : (0 : ℚ) < m * 2 ^ e := mul_pos (by exact_mod_cast positive) (two_zpow_pos e)
  have rounds := Decimal.roundedMagnitude_shortest .toEven positive small finest normal
  have few := (Decimal.shortest_spec (e := e) .toEven positive small).2
  generalize Decimal.shortest .toEven (.ofMantissa m e) = d at rounds few ⊢
  have some : 0 < d.digits := by
    refine Nat.pos_of_ne_zero fun none => ?_
    rw [Decimal.value, none, Nat.cast_zero, zero_mul, roundedMagnitude_zero] at rounds
    exact magnitude.ne rounds
  obtain ⟨n, spelt, amount, digits⟩ := layOut_json some few
  rw [← amount] at rounds
  refine ⟨n, spelt, digits, Nat.pos_of_ne_zero fun none => ?_, rounds⟩
  rw [Numeral.amount, none, Nat.cast_zero, zero_mul, roundedMagnitude_zero] at rounds
  exact magnitude.ne rounds

/-- Every finite double is written as a number that rounds to it. -/
theorem numberText_spec {x : Float} (finite : IsFinite x) :
    ∃ n, Writes (numberText x) n ∧ Written x n := by
  have number := finite.isNumber
  have bounds : Canonical x.toModel.unpack := (canonical_unpack x.toModel.toBits.toBitVec).1
  have text : numberText x = NumberStyle.json.render x := if_pos finite
  have same {y : Float} (h : x.toModel.unpack = y.toModel.unpack) : x = y :=
    eq_of_unpack_eq h number
  have real : value x = unpackedValue x.toModel.unpack := rfl
  rw [text, NumberStyle.render]
  cases unpacked : x.toModel.unpack with
  | notANumber => exact absurd unpacked number
  | infinity s =>
    change x.toModel.unpack.isFinite = true at finite
    rw [unpacked] at finite
    cases finite
  | zero s =>
    rw [unpacked] at real same
    have zero : value x = 0 := real
    have amount (b : Bool) :
        roundedMagnitude (⟨b, [0], [0], none⟩ : Numeral).amount = |value x| := by
      rw [zero, abs_zero, Numeral.amount, show (⟨b, [0], [0], none⟩ : Numeral).digits = 0 from rfl,
        Nat.cast_zero, zero_mul, roundedMagnitude_zero]
    cases s with
    | positive =>
      exact ⟨_, writes_zero.1, Nat.zero_le _, amount _, fun _ => .inl ⟨rfl, same rfl⟩,
        fun other => absurd zero other⟩
    | negative =>
      exact ⟨_, writes_zero.2, Nat.zero_le _, amount _, fun _ => .inr ⟨rfl, same rfl⟩,
        fun other => absurd zero other⟩
  | finite s m e hm =>
    rw [unpacked] at real bounds
    obtain ⟨small, finest, normal⟩ := bounds
    have magnitude : (0 : ℚ) < m * 2 ^ e := mul_pos (by exact_mod_cast hm) (two_zpow_pos e)
    obtain ⟨n, spelt, digits, some, rounds⟩ := layOut_shortest hm small finest normal
    cases s with
    | positive =>
      have real : value x = m * 2 ^ e := real
      refine ⟨_, spelt.writes.1, digits, ?_, fun zero => ?_, fun _ => ⟨some, ?_⟩⟩
      · rw [real, abs_of_pos magnitude]
        exact rounds
      · exact absurd (real.symm.trans zero) magnitude.ne'
      · rw [real]
        exact iff_of_false Bool.false_ne_true magnitude.not_gt
    | negative =>
      have real : value x = -(m * 2 ^ e) := real
      refine ⟨_, spelt.writes.2, digits, ?_, fun zero => ?_, fun _ => ⟨some, ?_⟩⟩
      · rw [real, abs_neg, abs_of_pos magnitude]
        exact rounds
      · exact absurd (real.symm.trans zero) (neg_ne_zero.mpr magnitude.ne')
      · rw [real]
        exact iff_of_true rfl (neg_neg_of_pos magnitude)

end ArenaAgent.Json
