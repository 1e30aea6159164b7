import SecurityAudit.Text.Str

/-!
# `datetime`

A naive `datetime` is a number of microseconds since `0001-01-01T00:00:00` and lies before
the end of year 9999; arithmetic that leaves the range raises `OverflowError`, which is
`none` here. An aware one has a UTC offset besides, less than a day either way.

The civil date of a day number is computed as CPython's `ord_to_ymd` computes it.
`dayNumber` goes back, so the date, and with it the printed timestamp, determines the day.
-/

namespace SecurityAudit

/-! ## The civil date -/

/-- A civil date. -/
structure Date where
  year : ℕ
  month : ℕ
  day : ℕ
deriving DecidableEq

/-- `_DAYS_BEFORE_MONTH`, for a common year. -/
def daysBeforeMonth : ℕ → ℕ
  | 1 => 0 | 2 => 31 | 3 => 59 | 4 => 90 | 5 => 120 | 6 => 151
  | 7 => 181 | 8 => 212 | 9 => 243 | 10 => 273 | 11 => 304 | 12 => 334
  | _ => 0

/-- `_DAYS_IN_MONTH`, for a common year. -/
def daysInMonth : ℕ → ℕ
  | 2 => 28
  | 4 | 6 | 9 | 11 => 30
  | _ => 31

/-- Month and day of the day `n` of a year, counted from 0. The first guess of the month is
the right one or one too large. -/
def monthDay (leap : Bool) (n : ℕ) : ℕ × ℕ :=
  let month := (n + 50) / 32
  let preceding := daysBeforeMonth month + (if 2 < month ∧ leap = true then 1 else 0)
  if preceding > n then
    let month := month - 1
    let preceding := preceding - (daysInMonth month + (if month = 2 ∧ leap = true then 1 else 0))
    (month, n - preceding + 1)
  else (month, n - preceding + 1)

/-- The date of a day counted from `0001-01-01`, which is day 0. -/
def dateOfDay (n : ℕ) : Date :=
  let n400 := n / 146097
  let n := n % 146097
  let n100 := n / 36524
  let n := n % 36524
  let n4 := n / 1461
  let n := n % 1461
  let n1 := n / 365
  let n := n % 365
  let year := n400 * 400 + 1 + n100 * 100 + n4 * 4 + n1
  if n1 = 4 ∨ n100 = 4 then ⟨year - 1, 12, 31⟩
  else
    let leap := decide (n1 = 3 ∧ (n4 ≠ 24 ∨ n100 = 3))
    ⟨year, (monthDay leap n).1, (monthDay leap n).2⟩

/-- `_is_leap`. -/
def isLeap (year : ℕ) : Bool := decide (year % 4 = 0 ∧ (year % 100 ≠ 0 ∨ year % 400 = 0))

/-- `_days_before_year`. -/
def daysBeforeYear (year : ℕ) : ℕ :=
  (year - 1) * 365 + (year - 1) / 4 - (year - 1) / 100 + (year - 1) / 400

/-- `_ymd2ord`, counted from 0. -/
def dayNumber (d : Date) : ℕ :=
  daysBeforeYear d.year + daysBeforeMonth d.month +
    (if 2 < d.month ∧ isLeap d.year = true then 1 else 0) + d.day - 1

example : dateOfDay 0 = ⟨1, 1, 1⟩ ∧ dateOfDay 738944 = ⟨2024, 2, 29⟩ ∧
    dateOfDay 3652058 = ⟨9999, 12, 31⟩ := by decide

theorem monthDay_spec : ∀ leap : Bool, ∀ n < 366, (leap = true ∨ n < 365) →
    daysBeforeMonth (monthDay leap n).1 +
      (if 2 < (monthDay leap n).1 ∧ leap = true then 1 else 0) + (monthDay leap n).2 = n + 1 ∧
    (monthDay leap n).1 ≤ 12 ∧ (monthDay leap n).2 ≤ 31 := by
  decide +kernel

/-- The date determines the day. -/
theorem dayNumber_dateOfDay (n : ℕ) : dayNumber (dateOfDay n) = n := by
  -- the quotients of the cycles, as unknowns of a linear problem
  obtain ⟨q, hq⟩ : ∃ q, q = n / 146097 := ⟨_, rfl⟩
  obtain ⟨r, hr⟩ : ∃ r, r = n % 146097 := ⟨_, rfl⟩
  obtain ⟨c, hc⟩ : ∃ c, c = r / 36524 := ⟨_, rfl⟩
  obtain ⟨r₁, hr₁⟩ : ∃ r₁, r₁ = r % 36524 := ⟨_, rfl⟩
  obtain ⟨f, hf⟩ : ∃ f, f = r₁ / 1461 := ⟨_, rfl⟩
  obtain ⟨r₂, hr₂⟩ : ∃ r₂, r₂ = r₁ % 1461 := ⟨_, rfl⟩
  obtain ⟨y, hy⟩ : ∃ y, y = r₂ / 365 := ⟨_, rfl⟩
  obtain ⟨d, hd⟩ : ∃ d, d = r₂ % 365 := ⟨_, rfl⟩
  have hn : n = 146097 * q + 36524 * c + 1461 * f + 365 * y + d := by omega
  have hc4 : c ≤ 4 := by omega
  have hf24 : f ≤ 24 := by omega
  have hy4 : y ≤ 4 := by omega
  have hd365 : d < 365 := by omega
  unfold dateOfDay
  simp only [← hq, ← hr, ← hc, ← hr₁, ← hf, ← hr₂, ← hy, ← hd]
  split_ifs with hlast
  · -- the last day of a leap year
    have hleap : isLeap (q * 400 + 1 + c * 100 + f * 4 + y - 1) = true := by
      rw [isLeap, decide_eq_true_eq]
      omega
    have hyear : daysBeforeYear (q * 400 + 1 + c * 100 + f * 4 + y - 1) + 365 = n := by
      rcases hlast with rfl | rfl
      · -- the leap day ends a four-year cycle
        have hc3 : c ≤ 3 := by omega
        have h₄ : (q * 400 + 1 + c * 100 + f * 4 + 4 - 1 - 1) / 4 = 100 * q + 25 * c + f := by omega
        have h₁ : (q * 400 + 1 + c * 100 + f * 4 + 4 - 1 - 1) / 100 = 4 * q + c := by omega
        have h₀ : (q * 400 + 1 + c * 100 + f * 4 + 4 - 1 - 1) / 400 = q := by omega
        rw [daysBeforeYear, h₄, h₁, h₀]
        omega
      · -- the leap day ends a cycle of four centuries
        obtain ⟨rfl, rfl, rfl⟩ : f = 0 ∧ y = 0 ∧ d = 0 := by omega
        have h₄ : (q * 400 + 1 + 4 * 100 + 0 * 4 + 0 - 1 - 1) / 4 = 100 * q + 99 := by omega
        have h₁ : (q * 400 + 1 + 4 * 100 + 0 * 4 + 0 - 1 - 1) / 100 = 4 * q + 3 := by omega
        have h₀ : (q * 400 + 1 + 4 * 100 + 0 * 4 + 0 - 1 - 1) / 400 = q := by omega
        rw [daysBeforeYear, h₄, h₁, h₀]
        omega
    have hdays : daysBeforeMonth 12 = 334 := rfl
    simp only [dayNumber, hleap, hdays]
    rw [if_pos (by simp)]
    omega
  · have hleap : isLeap (q * 400 + 1 + c * 100 + f * 4 + y) =
        decide (y = 3 ∧ (f ≠ 24 ∨ c = 3)) := by
      rw [isLeap]
      congr 1
      apply propext
      omega
    obtain ⟨hmd, -, -⟩ := monthDay_spec (decide (y = 3 ∧ (f ≠ 24 ∨ c = 3))) d (by omega)
      (.inr hd365)
    simp only [dayNumber, hleap]
    have hyear : daysBeforeYear (q * 400 + 1 + c * 100 + f * 4 + y) =
        146097 * q + 36524 * c + 1461 * f + 365 * y := by
      have h₄ : (q * 400 + 1 + c * 100 + f * 4 + y - 1) / 4 = 100 * q + 25 * c + f := by omega
      have h₁ : (q * 400 + 1 + c * 100 + f * 4 + y - 1) / 100 = 4 * q + c := by omega
      have h₀ : (q * 400 + 1 + c * 100 + f * 4 + y - 1) / 400 = q := by omega
      rw [daysBeforeYear, h₄, h₁, h₀]
      omega
    rw [hyear]
    omega

/-- Dates in the range of `datetime` have four digits of year and two of month and day. -/
theorem dateOfDay_bounds {n : ℕ} (hn : n < 3652059) :
    (dateOfDay n).year < 10 ^ 4 ∧ (dateOfDay n).month < 10 ^ 2 ∧ (dateOfDay n).day < 10 ^ 2 := by
  unfold dateOfDay
  dsimp only
  split_ifs
  · exact ⟨by dsimp only; omega, by norm_num, by norm_num⟩
  · obtain ⟨-, hm, hd⟩ := monthDay_spec
      (decide (n % 146097 % 36524 % 1461 / 365 = 3 ∧
        (n % 146097 % 36524 / 1461 ≠ 24 ∨ n % 146097 / 36524 = 3)))
      (n % 146097 % 36524 % 1461 % 365) (by omega) (.inr (by omega))
    exact ⟨by dsimp only; omega, by dsimp only; omega, by dsimp only; omega⟩

/-! ## Points in time -/

/-- Microseconds in a second. -/
abbrev secondUs : ℕ := 1000000

/-- Microseconds in a day. -/
abbrev dayUs : ℕ := 86400000000

/-- The first microsecond after `datetime.max`. -/
abbrev endOfTime : ℕ := 3652059 * dayUs

/-- A naive `datetime`. -/
structure Naive where
  us : ℕ
  lt : us < endOfTime
deriving DecidableEq

/-- An aware `datetime`: what the wall clock shows, and the offset from UTC. -/
structure Aware where
  wall : Naive
  offset : ℤ
  offset_bounds : -(dayUs : ℤ) < offset ∧ offset < dayUs

/-- A `datetime`. -/
inductive DateTime where
  | naive (t : Naive)
  | aware (t : Aware)

namespace Naive

@[ext] theorem ext {a b : Naive} (h : a.us = b.us) : a = b := by
  cases a
  cases b
  simpa using h

/-- The `datetime` of a number of microseconds; `none` is `OverflowError`. -/
def ofInt? (n : ℤ) : Option Naive :=
  if h : 0 ≤ n ∧ n < endOfTime then some ⟨n.toNat, by omega⟩ else none

theorem ofInt?_eq_some {n : ℤ} {t : Naive} (h : ofInt? n = some t) : (t.us : ℤ) = n := by
  unfold ofInt? at h
  split_ifs at h with hn
  cases h
  exact Int.toNat_of_nonneg hn.1

theorem ofInt?_us (t : Naive) : ofInt? t.us = some t := by
  have h := t.lt
  rw [ofInt?, dif_pos ⟨by omega, by omega⟩]
  rfl

def date (t : Naive) : Date := dateOfDay (t.us / dayUs)

def hour (t : Naive) : ℕ := t.us % dayUs / 3600000000

def minute (t : Naive) : ℕ := t.us % 3600000000 / 60000000

def second (t : Naive) : ℕ := t.us % 60000000 / secondUs

def microsecond (t : Naive) : ℕ := t.us % secondUs

/-- No fraction of a second. -/
def Whole (t : Naive) : Prop := t.microsecond = 0

instance (t : Naive) : Decidable t.Whole := inferInstanceAs (Decidable (_ = 0))

/-- `t.isoformat()`. -/
def isoformat (t : Naive) : Str :=
  padded 4 t.date.year ++ cp '-' :: (padded 2 t.date.month ++ cp '-' :: (padded 2 t.date.day ++
    cp 'T' :: (padded 2 t.hour ++ cp ':' :: (padded 2 t.minute ++ cp ':' :: (padded 2 t.second ++
      (if t.microsecond = 0 then [] else cp '.' :: padded 6 t.microsecond))))))

/-- A timestamp of whole seconds takes 19 characters. -/
theorem length_isoformat {t : Naive} (h : t.Whole) : t.isoformat.length = 19 := by
  have hm : t.microsecond = 0 := h
  simp [isoformat, hm]

/-- The printed timestamp determines the point in time. -/
theorem isoformat_inj {a b : Naive} (h : a.isoformat = b.isoformat) : a = b := by
  have ha : a.us < 3652059 * 86400000000 := a.lt
  have hb : b.us < 3652059 * 86400000000 := b.lt
  have split : ∀ {w m n : ℕ} {c : CodePoint} {s t : Str}, m < 10 ^ w → n < 10 ^ w →
      padded w m ++ c :: s = padded w n ++ c :: t → m = n ∧ s = t := by
    intro w m n c s t hm hn h
    obtain ⟨h₁, h₂⟩ := List.append_inj h (by simp)
    exact ⟨padded_inj hm hn h₁, by simpa using h₂⟩
  obtain ⟨hya, hma, hda⟩ := dateOfDay_bounds (n := a.us / 86400000000) (by omega)
  obtain ⟨hyb, hmb, hdb⟩ := dateOfDay_bounds (n := b.us / 86400000000) (by omega)
  obtain ⟨hyear, h⟩ := split hya hyb h
  obtain ⟨hmonth, h⟩ := split hma hmb h
  obtain ⟨hday, h⟩ := split hda hdb h
  have hours : ∀ t : Naive, t.hour < 10 ^ 2 := fun t => by
    unfold hour dayUs
    omega
  have minutes : ∀ t : Naive, t.minute < 10 ^ 2 := fun t => by
    unfold minute
    omega
  have seconds : ∀ t : Naive, t.second < 10 ^ 2 := fun t => by
    unfold second secondUs
    omega
  have micros : ∀ t : Naive, t.microsecond < 10 ^ 6 := fun t => by
    unfold microsecond secondUs
    omega
  obtain ⟨hhour, h⟩ := split (hours a) (hours b) h
  obtain ⟨hminute, h⟩ := split (minutes a) (minutes b) h
  obtain ⟨hsec, h⟩ := List.append_inj h (by simp)
  have hsecond := padded_inj (seconds a) (seconds b) hsec
  have hmicro : a.microsecond = b.microsecond := by
    by_cases h₁ : a.microsecond = 0 <;> by_cases h₂ : b.microsecond = 0
    · rw [h₁, h₂]
    · simp [h₁, h₂] at h
    · simp [h₁, h₂] at h
    · rw [if_neg h₁, if_neg h₂] at h
      exact padded_inj (micros a) (micros b) (List.cons.inj h).2
  have hdate : a.us / 86400000000 = b.us / 86400000000 := by
    rw [← dayNumber_dateOfDay (a.us / 86400000000), ← dayNumber_dateOfDay (b.us / 86400000000)]
    unfold dayNumber
    rw [hyear, hmonth, hday]
  unfold hour dayUs at hhour
  unfold minute at hminute
  unfold second secondUs at hsecond
  unfold microsecond secondUs at hmicro
  ext
  omega

/-- A printed timestamp is made of digits and four separators. -/
theorem mem_isoformat {t : Naive} {c : CodePoint} (h : c ∈ t.isoformat) :
    isDigit c = true ∨ c = cp '-' ∨ c = cp 'T' ∨ c = cp ':' ∨ c = cp '.' := by
  have hpad : ∀ {w n : ℕ}, c ∈ padded w n → isDigit c = true := isDigit_of_mem_padded
  unfold isoformat at h
  simp only [List.mem_append, List.mem_cons] at h
  have hfrac : c ∈ (if t.microsecond = 0 then [] else cp '.' :: padded 6 t.microsecond) →
      isDigit c = true ∨ c = cp '.' := by
    intro h
    split_ifs at h
    · cases h
    · exact (List.mem_cons.mp h).symm.imp hpad id
  rcases h with h | h | h | h | h | h | h | h | h | h | h | h
  · exact .inl (hpad h)
  · exact .inr (.inl h)
  · exact .inl (hpad h)
  · exact .inr (.inl h)
  · exact .inl (hpad h)
  · exact .inr (.inr (.inl h))
  · exact .inl (hpad h)
  · exact .inr (.inr (.inr (.inl h)))
  · exact .inl (hpad h)
  · exact .inr (.inr (.inr (.inl h)))
  · exact .inl (hpad h)
  · exact (hfrac h).imp id fun h => .inr (.inr (.inr h))

end Naive

end SecurityAudit
