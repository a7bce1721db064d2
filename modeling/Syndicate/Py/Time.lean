import Mathlib.Algebra.Order.Field.Rat
import Mathlib.Data.List.Sort
import Mathlib.Tactic.IntervalCases
import Syndicate.Py.Str

/-! # Timestamps as texts

    * `decimal`: the number that the `repr` of a float writes.
    * `UtcTime.isoformat`: a `datetime` in UTC.  Of two such texts the later
      time has the greater one: the fields stand in the order of their
      weight, each with all its digits. -/

namespace Syndicate.Py

/-! ## The number a float's `repr` writes -/

/-- The number of a sequence of digits. -/
def digitsValue (s : PyStr) : Nat := s.foldl (fun n c => 10 * n + (c.val - 48)) 0

/-- The mantissa: digits, perhaps with a point among them. -/
def mantissa (s : PyStr) : Option Rat :=
  let whole := (cut (CodePoint.ofChar '.') s).1
  let fraction := (cut (CodePoint.ofChar '.') s).2.getD []
  if whole ≠ [] ∧ whole.all isDigit ∧ fraction.all isDigit then
    some ((digitsValue (whole ++ fraction) : Rat) / (10 ^ fraction.length : Nat))
  else none

/-- The exponent, with its sign. -/
def exponent (s : PyStr) : Option Int :=
  let digits := s.drop 1
  if digits ≠ [] ∧ digits.all isDigit then
    if s.head? = some (CodePoint.ofChar '-') then some (-(digitsValue digits : Int))
    else if s.head? = some (CodePoint.ofChar '+') then some (digitsValue digits)
    else none
  else none

/-- `1700000000.25`, `1e+16`, `2.5e-05`: `repr` writes the shortest decimal
    that reads back as the float, so of two floats the greater one has the
    greater decimal. -/
def decimal (s : PyStr) : Option Rat :=
  match mantissa (cut (CodePoint.ofChar 'e') s).1, (cut (CodePoint.ofChar 'e') s).2 with
  | some m, none => some m
  | some m, some e => (exponent e).map fun k => m * (10 : Rat) ^ k
  | none, _ => none

/-- The characters of a number. -/
def isNumeric (c : CodePoint) : Bool := isDigit c || (lit ".e+-").contains c

theorem isNumeric_of_isDigit {c : CodePoint} (h : isDigit c = true) : isNumeric c = true := by
  rw [isNumeric, h, Bool.true_or]

theorem all_numeric_of_mantissa {s : PyStr} {m : Rat} (h : mantissa s = some m) :
    ∀ c ∈ s, isNumeric c = true := by
  unfold mantissa at h
  simp only [Option.ite_none_right_eq_some] at h
  obtain ⟨⟨-, hwhole, hfraction⟩, -⟩ := h
  intro c hc
  rcases mem_cut (CodePoint.ofChar '.') hc with hc | rfl | hc
  · exact isNumeric_of_isDigit (List.all_eq_true.mp hwhole c hc)
  · decide
  · exact isNumeric_of_isDigit (List.all_eq_true.mp hfraction c hc)

theorem all_numeric_of_exponent {s : PyStr} {k : Int} (h : exponent s = some k) :
    ∀ c ∈ s, isNumeric c = true := by
  unfold exponent at h
  simp only [Option.ite_none_right_eq_some] at h
  obtain ⟨⟨-, hdigits⟩, hsign⟩ := h
  cases s with
  | nil => exact fun c hc => absurd hc List.not_mem_nil
  | cons sign digits =>
    intro c hc
    rcases List.mem_cons.mp hc with rfl | hc
    · by_cases hminus : c = CodePoint.ofChar '-'
      · rw [hminus]
        decide
      · have hplus : c = CodePoint.ofChar '+' := by
          by_contra hplus
          simp [hminus, hplus] at hsign
        rw [hplus]
        decide
    · exact isNumeric_of_isDigit (List.all_eq_true.mp hdigits c hc)

/-- Nothing but digits and signs in a number. -/
theorem all_numeric_of_decimal {s : PyStr} {t : Rat} (h : decimal s = some t) :
    ∀ c ∈ s, isNumeric c = true := by
  unfold decimal at h
  intro c hc
  cases hm : mantissa (cut (CodePoint.ofChar 'e') s).1 with
  | none =>
    rw [hm] at h
    cases h
  | some m =>
    rcases mem_cut (CodePoint.ofChar 'e') hc with hc | rfl | hc
    · exact all_numeric_of_mantissa hm c hc
    · decide
    · cases he : (cut (CodePoint.ofChar 'e') s).2 with
      | none =>
        rw [he] at hc
        cases hc
      | some e =>
        rw [hm, he] at h
        rw [he] at hc
        obtain ⟨k, hk, -⟩ := Option.map_eq_some_iff.mp h
        exact all_numeric_of_exponent hk c hc

/-! ## Fields of digits -/

/-- The last `k` decimal digits of `n`. -/
def decDigits : Nat → Nat → PyStr
  | 0, _ => []
  | k + 1, n => decDigits k (n / 10) ++ [Fin.ofNat _ (48 + n % 10)]

theorem length_decDigits (k n : Nat) : (decDigits k n).length = k := by
  induction k generalizing n with
  | zero => rfl
  | succ k ih => rw [decDigits, List.length_append, ih, List.length_singleton]

/-- Behind parts of one length, the first difference decides. -/
theorem append_lt_append_iff {a b s t : PyStr} (h : a.length = b.length) :
    a ++ s < b ++ t ↔ a < b ∨ (a = b ∧ s < t) := by
  induction a generalizing b with
  | nil =>
    obtain rfl := List.length_eq_zero_iff.mp h.symm
    simp
  | cons c a ih =>
    cases b with
    | nil => cases h
    | cons d b =>
      have hlen : a.length = b.length := Nat.succ.inj h
      rw [List.cons_append, List.cons_append, List.cons_lt_cons_iff, List.cons_lt_cons_iff, ih hlen,
        List.cons_eq_cons]
      tauto

theorem eq_of_lt_iff {a b : PyStr} {m n : Nat} (hlt : a < b ↔ m < n) (hgt : b < a ↔ n < m)
    (h : a = b) : m = n := by
  subst h
  have hle := mt hlt.mpr (List.lt_irrefl a)
  have hge := mt hgt.mpr (List.lt_irrefl a)
  omega

theorem decDigits_lt_iff {k m n : Nat} (hm : m < 10 ^ k) (hn : n < 10 ^ k) :
    decDigits k m < decDigits k n ↔ m < n := by
  induction k generalizing m n with
  | zero =>
    rw [pow_zero, Nat.lt_one_iff] at hm hn
    rw [hm, hn]
    simp
  | succ k ih =>
    rw [Nat.pow_succ] at hm hn
    have ih := fun a b => @ih a b
    have hm' : m / 10 < 10 ^ k := by omega
    have hn' : n / 10 < 10 ^ k := by omega
    have hlen : (decDigits k (m / 10)).length = (decDigits k (n / 10)).length := by
      rw [length_decDigits, length_decDigits]
    have hlast : [Fin.ofNat 0x110000 (48 + m % 10)] < [Fin.ofNat 0x110000 (48 + n % 10)] ↔
        m % 10 < n % 10 := by
      have hnil : ¬([] : PyStr) < [] := List.lt_irrefl []
      simp only [List.cons_lt_cons_iff, hnil, and_false, or_false, Fin.lt_def, Fin.val_ofNat]
      omega
    have hfront : decDigits k (m / 10) = decDigits k (n / 10) ↔ m / 10 = n / 10 := by
      constructor
      · exact eq_of_lt_iff (ih _ _ hm' hn') (ih _ _ hn' hm')
      · intro heq
        rw [heq]
    rw [decDigits, decDigits, append_lt_append_iff hlen, ih _ _ hm' hn', hlast, hfront]
    omega

/-- A field of `k` digits counts before all that follows. -/
theorem field_lt_iff {k m n : Nat} (hm : m < 10 ^ k) (hn : n < 10 ^ k) (s t : PyStr) :
    decDigits k m ++ s < decDigits k n ++ t ↔ m < n ∨ (m = n ∧ s < t) := by
  have hlen : (decDigits k m).length = (decDigits k n).length := by
    rw [length_decDigits, length_decDigits]
  rw [append_lt_append_iff hlen, decDigits_lt_iff hm hn]
  by_cases heq : m = n
  · simp [heq]
  · have hne : decDigits k m ≠ decDigits k n := fun h =>
      heq (eq_of_lt_iff (decDigits_lt_iff hm hn) (decDigits_lt_iff hn hm) h)
    simp [heq, hne]

/-! ## `datetime` in UTC -/

/-- `_is_leap`. -/
def is_leap (year : Nat) : Bool := year % 4 == 0 && (year % 100 != 0 || year % 400 == 0)

/-- `_days_before_year`: the days before January 1st. -/
def days_before_year (year : Nat) : Nat :=
  (year - 1) * 365 + (year - 1) / 4 - (year - 1) / 100 + (year - 1) / 400

/-- `_days_in_month`. -/
def days_in_month (year month : Nat) : Nat :=
  if month = 2 then (if is_leap year then 29 else 28)
  else if month = 4 ∨ month = 6 ∨ month = 9 ∨ month = 11 then 30
  else 31

/-- `_days_before_month`: the days of the year before the month. -/
def days_before_month (year : Nat) : Nat → Nat
  | 0 | 1 => 0
  | month + 2 => days_before_month year (month + 1) + days_in_month year (month + 1)

/-- A `datetime` with `tzinfo=UTC`. -/
structure UtcTime where
  year : Nat
  month : Nat
  day : Nat
  hour : Nat
  minute : Nat
  second : Nat
  microsecond : Nat
  year_ok : 1 ≤ year ∧ year < 10000
  month_ok : 1 ≤ month ∧ month ≤ 12
  day_ok : 1 ≤ day ∧ day ≤ days_in_month year month
  hour_ok : hour < 24
  minute_ok : minute < 60
  second_ok : second < 60
  microsecond_ok : microsecond < 1000000

namespace UtcTime

/-- The fraction and the offset; there is no fraction at a full second. -/
def fraction (microsecond : Nat) : PyStr :=
  if microsecond = 0 then lit "+00:00" else lit "." ++ (decDigits 6 microsecond ++ lit "+00:00")

/-- `dt.isoformat()`. -/
def isoformat (u : UtcTime) : PyStr :=
  decDigits 4 u.year ++ (CodePoint.ofChar '-' :: (decDigits 2 u.month ++ (CodePoint.ofChar '-' ::
    (decDigits 2 u.day ++ (CodePoint.ofChar 'T' :: (decDigits 2 u.hour ++ (CodePoint.ofChar ':' ::
      (decDigits 2 u.minute ++ (CodePoint.ofChar ':' :: (decDigits 2 u.second ++
        fraction u.microsecond))))))))))

/-- `dt.toordinal()`. -/
def toordinal (u : UtcTime) : Nat :=
  days_before_year u.year + days_before_month u.year u.month + u.day

/-- Microseconds since the first day of the calendar. -/
def micros (u : UtcTime) : Nat :=
  (((u.toordinal * 24 + u.hour) * 60 + u.minute) * 60 + u.second) * 1000000 + u.microsecond

/-- `dt.timestamp()`: seconds since the epoch, which is day 719163. -/
def timestamp (u : UtcTime) : Rat := (u.micros : Rat) / 1000000 - 719163 * 86400

/-! ## Later times have greater texts -/

theorem fraction_lt_iff {m n : Nat} (hm : m < 1000000) (hn : n < 1000000) :
    fraction m < fraction n ↔ m < n := by
  have hplus : ∀ s : PyStr, lit "+00:00" < lit "." ++ s := by
    intro s
    exact List.Lex.rel (by decide)
  unfold fraction
  by_cases hm0 : m = 0
  · by_cases hn0 : n = 0
    · simp [hm0, hn0]
    · rw [if_pos hm0, if_neg hn0]
      exact iff_of_true (hplus _) (by omega)
  · by_cases hn0 : n = 0
    · rw [if_neg hm0, if_pos hn0]
      exact iff_of_false (List.lt_asymm (hplus _)) (by omega)
    · have hself : ∀ s : PyStr, ¬s < s := List.lt_irrefl
      rw [if_neg hm0, if_neg hn0, append_lt_append_iff rfl, field_lt_iff (by omega) (by omega)]
      simp only [hself, false_or, and_false, or_false, true_and]

theorem days_before_year_succ {year : Nat} (h : 1 ≤ year) :
    days_before_year (year + 1) = days_before_year year + 365 + if is_leap year then 1 else 0 := by
  obtain ⟨last, rfl⟩ := Nat.exists_eq_add_of_le' h
  -- the quotients grow by one in the years that 4, 100 and 400 divide
  have hstep : ∀ n, (last + 1) / n = last / n + if (last + 1) % n = 0 then 1 else 0 := by
    intro n
    rw [Nat.succ_div]
    simp only [Nat.dvd_iff_mod_eq_zero]
  have hle : last / 100 ≤ last / 4 := Nat.div_le_div_left (by decide) (by decide)
  have h4 : (last + 1) % 100 = 0 → (last + 1) % 4 = 0 := by omega
  have h100 : (last + 1) % 400 = 0 → (last + 1) % 100 = 0 := by omega
  unfold days_before_year is_leap
  rw [Nat.add_sub_cancel, Nat.add_sub_cancel, hstep, hstep, hstep]
  generalize last / 4 = quarters at hle ⊢
  generalize last / 100 = centuries at hle ⊢
  generalize last / 400 = cycles
  by_cases hfour : (last + 1) % 4 = 0
  · by_cases hcentury : (last + 1) % 100 = 0
    · by_cases hcycle : (last + 1) % 400 = 0
      · simp [hfour, hcentury, hcycle]
        omega
      · simp [hfour, hcentury, hcycle]
        omega
    · have hcycle : ¬(last + 1) % 400 = 0 := fun hcycle => hcentury (h100 hcycle)
      simp [hfour, hcentury, hcycle]
      omega
  · have hcentury : ¬(last + 1) % 100 = 0 := fun hcentury => hfour (h4 hcentury)
    have hcycle : ¬(last + 1) % 400 = 0 := fun hcycle => hcentury (h100 hcycle)
    simp [hfour, hcentury, hcycle]
    omega

theorem days_before_year_le {year year' : Nat} (h : 1 ≤ year) (hlt : year < year') :
    days_before_year year + 365 + (if is_leap year then 1 else 0) ≤ days_before_year year' := by
  induction year' with
  | zero => omega
  | succ year' ih =>
    by_cases heq : year = year'
    · rw [← heq, days_before_year_succ h]
    · have hrest := ih (by omega)
      rw [days_before_year_succ (show 1 ≤ year' by omega)]
      omega

theorem days_before_month_le (year : Nat) {month month' : Nat} (h : 1 ≤ month) (hlt : month < month') :
    days_before_month year month + days_in_month year month ≤ days_before_month year month' := by
  induction month' with
  | zero => omega
  | succ month' ih =>
    cases month' with
    | zero => omega
    | succ month' =>
      rw [days_before_month]
      by_cases heq : month = month' + 1
      · rw [heq]
      · have hrest := ih (by omega)
        omega

/-- The months fill the year. -/
theorem days_before_month_end (year : Nat) :
    days_before_month year 13 = 365 + if is_leap year then 1 else 0 := by
  cases hleap : is_leap year <;> simp [days_before_month, days_in_month, hleap]

theorem toordinal_lt_iff (u v : UtcTime) : u.toordinal < v.toordinal ↔
    u.year < v.year ∨ (u.year = v.year ∧ (u.month < v.month ∨ (u.month = v.month ∧ u.day < v.day))) := by
  -- the day is within its month, and the month within its year
  have hwithin : ∀ w : UtcTime, days_before_month w.year w.month + w.day ≤
      365 + if is_leap w.year then 1 else 0 := by
    intro w
    have hmonth := days_before_month_le w.year w.month_ok.1
      (show w.month < 13 from Nat.lt_succ_of_le w.month_ok.2)
    rw [days_before_month_end] at hmonth
    have hday := w.day_ok.2
    omega
  have hlater : ∀ w w' : UtcTime, w.year < w'.year ∨ (w.year = w'.year ∧ (w.month < w'.month ∨
      (w.month = w'.month ∧ w.day < w'.day))) → w.toordinal < w'.toordinal := by
    intro w w' h
    unfold toordinal
    have hday' := w'.day_ok.1
    rcases h with hyear | ⟨hyear, hmonth | ⟨hmonth, hday⟩⟩
    · have := days_before_year_le w.year_ok.1 hyear
      have := hwithin w
      omega
    · have := days_before_month_le w'.year w.month_ok.1 hmonth
      have := w.day_ok.2
      rw [hyear] at this ⊢
      omega
    · rw [hyear, hmonth]
      omega
  constructor
  · intro hlt
    by_contra hnot
    by_cases heq : u.year = v.year ∧ u.month = v.month ∧ u.day = v.day
    · unfold toordinal at hlt
      rw [heq.1, heq.2.1, heq.2.2] at hlt
      omega
    · have := hlater v u (by omega)
      omega
  · exact hlater u v

theorem toordinal_eq_iff (u v : UtcTime) :
    u.toordinal = v.toordinal ↔ u.year = v.year ∧ u.month = v.month ∧ u.day = v.day := by
  constructor
  · intro heq
    have hnot := toordinal_lt_iff u v
    have hnot' := toordinal_lt_iff v u
    omega
  · intro h
    unfold toordinal
    rw [h.1, h.2.1, h.2.2]

/-- Numbers in one radix: the digit in front decides, then the rest. -/
theorem radix_lt_iff {n a b x y : Nat} (hx : x < n) (hy : y < n) :
    a * n + x < b * n + y ↔ a < b ∨ a = b ∧ x < y := by
  rcases Nat.lt_trichotomy a b with hlt | rfl | hlt
  · have hle : (a + 1) * n ≤ b * n := Nat.mul_le_mul_right n hlt
    rw [Nat.succ_mul] at hle
    exact iff_of_true (by omega) (Or.inl hlt)
  · simp
  · have hle : (b + 1) * n ≤ a * n := Nat.mul_le_mul_right n hlt
    rw [Nat.succ_mul] at hle
    exact iff_of_false (by omega) (by omega)

/-- A lexicographic comparison, its first three places taken as one. -/
theorem lexicographic_regroup {a a' b b' c c' rest : Prop} :
    a ∨ a' ∧ (b ∨ b' ∧ (c ∨ c' ∧ rest)) ↔
      (a ∨ a' ∧ (b ∨ b' ∧ c)) ∨ (a' ∧ b' ∧ c') ∧ rest := by
  simp only [and_or_left, and_assoc, or_assoc]

theorem micros_eq (u : UtcTime) : u.micros = u.toordinal * 86400000000 +
    (u.hour * 3600000000 + (u.minute * 60000000 + (u.second * 1000000 + u.microsecond))) := by
  unfold micros
  omega

/-- **The order of the texts is the order of the times.** -/
theorem isoformat_lt_iff (u v : UtcTime) : u.isoformat < v.isoformat ↔ u.micros < v.micros := by
  have hchar : ∀ (c : CodePoint) (s t : PyStr), c :: s < c :: t ↔ s < t := by
    intro c s t
    simp
  have hu := u.day_ok
  have hv := v.day_ok
  have hday : ∀ year month, days_in_month year month ≤ 31 := by
    intro year month
    unfold days_in_month
    split_ifs <;> omega
  have hu31 := hday u.year u.month
  have hv31 := hday v.year v.month
  have hmu := u.month_ok
  have hmv := v.month_ok
  have hhu := u.hour_ok
  have hhv := v.hour_ok
  have hiu := u.minute_ok
  have hiv := v.minute_ok
  have hsu := u.second_ok
  have hsv := v.second_ok
  have hfu := u.microsecond_ok
  have hfv := v.microsecond_ok
  rw [isoformat, isoformat, field_lt_iff u.year_ok.2 v.year_ok.2, hchar,
    field_lt_iff (by omega) (by omega), hchar, field_lt_iff (by omega) (by omega), hchar,
    field_lt_iff (by omega) (by omega), hchar, field_lt_iff (by omega) (by omega), hchar,
    field_lt_iff (by omega) (by omega), fraction_lt_iff hfu hfv]
  -- both sides are lexicographic now, the days on the right as one number
  rw [micros_eq, micros_eq, radix_lt_iff (by omega) (by omega), radix_lt_iff (by omega) (by omega),
    radix_lt_iff (by omega) (by omega), radix_lt_iff hfu hfv, toordinal_lt_iff, toordinal_eq_iff]
  exact lexicographic_regroup

end UtcTime

end Syndicate.Py
