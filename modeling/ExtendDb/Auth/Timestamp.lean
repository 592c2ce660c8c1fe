import ExtendDb.Theory.DigitOrder

/-!
# The time of a signed request

`X-Amz-Date` is turned into seconds since the epoch by arithmetic on years that begin in March; the
calendar itself counts days, year by year and month by month.
-/

namespace ExtendDb.Auth

open DecimalText List

/-! ## The Gregorian calendar -/

def isLeap (year : Nat) : Bool := year % 4 = 0 ∧ (year % 100 ≠ 0 ∨ year % 400 = 0)

def daysInMonth (leap : Bool) : Nat → Nat
  | 1 | 3 | 5 | 7 | 8 | 10 | 12 => 31
  | 4 | 6 | 9 | 11 => 30
  | 2 => 28 + leap.toNat
  | _ => 0

def daysBeforeMonth (leap : Bool) : Nat → Nat
  | 0 => 0
  | month + 1 => daysBeforeMonth leap month + daysInMonth leap month

def daysBeforeYear : Nat → Nat
  | 0 => 0
  | year + 1 => daysBeforeYear year + (365 + (isLeap year).toNat)

def dayNumber (year month day : Nat) : Nat :=
  daysBeforeYear year + daysBeforeMonth (isLeap year) month + day

structure Timestamp where
  year : Nat
  month : Nat
  day : Nat
  hour : Nat
  minute : Nat
  second : Nat
  validYear : 1 ≤ year ∧ year ≤ 9999
  validDay : 1 ≤ day ∧ day ≤ daysInMonth (isLeap year) month
  validTime : hour < 24 ∧ minute < 60 ∧ second < 60

namespace Timestamp

variable (t : Timestamp)

/-- The most significant first: calendar order is the order of these lists. -/
def fields : List Nat := [t.year, t.month, t.day, t.hour, t.minute, t.second]

/-- `YYYYMMDDTHHMMSSZ`. -/
def text : List Char :=
  zeroPadded 4 t.year ++ zeroPadded 2 t.month ++ zeroPadded 2 t.day ++ ['T'] ++
    zeroPadded 2 t.hour ++ zeroPadded 2 t.minute ++ zeroPadded 2 t.second ++ ['Z']

def epochSeconds : Int :=
  ((dayNumber t.year t.month t.day : Int) - dayNumber 1970 1 1) * 86400 +
    t.hour * 3600 + t.minute * 60 + t.second

end Timestamp

/-! ## The parser -/

/-- The days since 1 January 1970, over years that begin in March. -/
def daysSinceEpoch (year month day : Int) : Int :=
  let y := if month ≤ 2 then year - 1 else year
  let era := y.tdiv 400
  let yoe := y - era * 400
  let m := if month > 2 then month - 3 else month + 9
  let doy := (153 * m + 2).tdiv 5 + day - 1
  let doe := yoe * 365 + yoe.tdiv 4 - yoe.tdiv 100 + doy
  era * 146097 + doe - 719468

/-- `to_str` lets only ASCII pass, so that a byte is a character. -/
def parseIso8601Basic (s : List Char) : Option Int := do
  if s.length ≠ 16 ∨ s.getLast? ≠ some 'Z' ∨ s[8]? ≠ some 'T' then none
  let year ← parseInteger 64 (s.take 4)
  let month ← parseInteger 64 ((s.drop 4).take 2)
  let day ← parseInteger 64 ((s.drop 6).take 2)
  let hour ← parseInteger 64 ((s.drop 9).take 2)
  let min ← parseInteger 64 ((s.drop 11).take 2)
  let sec ← parseInteger 64 ((s.drop 13).take 2)
  some (daysSinceEpoch year month day * 86400 + hour * 3600 + min * 60 + sec)

/-! ## Days -/

-- the leap day is the last day of a year that begins in March
theorem daysBeforeYear_succ (year : Nat) :
    daysBeforeYear (year + 1) + year / 100 = 366 + 365 * year + year / 4 + year / 400 := by
  induction year with
  | zero => rfl
  | succ year ih =>
    rw [daysBeforeYear, isLeap, Bool.toNat, Bool.cond_decide]
    split <;> omega

theorem daysBeforeMonth_eq : ∀ leap, ∀ month < 13, 1 ≤ month →
    (daysBeforeMonth leap month : Int) =
      if month ≤ 2 then (153 * (month + 9 : Int) + 2).tdiv 5 - 306
      else (153 * (month - 3 : Int) + 2).tdiv 5 + 59 + leap.toNat := by
  decide

theorem month_end_le : ∀ leap, ∀ month < 13,
    daysBeforeMonth leap month + daysInMonth leap month ≤ 365 + leap.toNat := by
  decide

theorem daysInMonth_le : ∀ leap month, daysInMonth leap month ≤ 31 := by
  intro leap month
  have := Bool.toNat_le leap
  unfold daysInMonth
  split <;> omega

theorem era_eq (y : Nat) {era yoe : Int} (hera : era = (y : Int).tdiv 400)
    (hyoe : yoe = y - era * 400) :
    era * 146097 + (yoe * 365 + yoe.tdiv 4 - yoe.tdiv 100) = daysBeforeYear (y + 1) - 366 := by
  have hyears := daysBeforeYear_succ y
  rw [Int.tdiv_eq_ediv_of_nonneg (by omega)] at hera
  have hpos : 0 ≤ yoe := by omega
  rw [Int.tdiv_eq_ediv_of_nonneg hpos, Int.tdiv_eq_ediv_of_nonneg hpos]
  omega

variable (t : Timestamp)

theorem Timestamp.validMonth : 1 ≤ t.month ∧ t.month < 13 := by
  have hday := t.validDay
  unfold daysInMonth at hday
  split at hday <;> omega

theorem daysSinceEpoch_eq : daysSinceEpoch t.year t.month t.day =
    (dayNumber t.year t.month t.day : Int) - dayNumber 1970 1 1 := by
  have hmonth := daysBeforeMonth_eq (isLeap t.year) _ t.validMonth.2 t.validMonth.1
  have hyears : daysBeforeYear 1970 + _ = _ := daysBeforeYear_succ 1969
  have hepoch : daysBeforeMonth (isLeap 1970) 1 = 0 := rfl
  rw [dayNumber, dayNumber, hepoch, daysSinceEpoch]
  by_cases h : t.month ≤ 2
  · obtain ⟨y, hy⟩ := Nat.exists_eq_add_of_le' t.validYear.1
    have hera := era_eq y rfl rfl
    rw [if_pos h] at hmonth
    rw [← hy] at hera
    rw [if_pos (by omega), if_neg (by omega), show (t.year : Int) - 1 = y by omega]
    omega
  · have hera := era_eq t.year rfl rfl
    rw [if_neg h] at hmonth
    rw [daysBeforeYear] at hera
    rw [if_neg (by omega), if_pos (by omega)]
    omega

variable {t} in
theorem Timestamp.epochSeconds_lt {t' : Timestamp} (h : t.fields < t'.fields) :
    t.epochSeconds < t'.epochSeconds := by
  obtain ⟨hyear, hmonth⟩ :
      (t.year < t'.year → daysBeforeYear (t.year + 1) ≤ daysBeforeYear t'.year) ∧
      (t.month < t'.month → daysBeforeMonth (isLeap t.year) (t.month + 1) ≤
        daysBeforeMonth (isLeap t.year) t'.month) :=
    ⟨fun hlt => monotone_nat_of_le_succ (fun _ => Nat.le_add_right _ _) hlt,
      fun hlt => monotone_nat_of_le_succ (fun _ => Nat.le_add_right _ _) hlt⟩
  have hend := month_end_le (isLeap t.year) t.month t.validMonth.2
  have hday := t.validDay
  have hday' := t'.validDay
  have htime := t.validTime
  have htime' := t'.validTime
  simp only [fields, cons_lt_cons_iff, not_lt_nil, and_false, or_false] at h
  rw [daysBeforeYear] at hyear
  rw [daysBeforeMonth] at hmonth
  simp only [epochSeconds, dayNumber]
  rcases h with hlt | ⟨heq, h⟩
  · omega
  · rw [← heq]
    rcases h with hlt | ⟨heq, h⟩
    · omega
    · rw [← heq]
      omega

theorem parseIso8601Basic_exact : parseIso8601Basic t.text = some t.epochSeconds ∧
    ∀ t' : Timestamp, t.fields < t'.fields → t.epochSeconds < t'.epochSeconds := by
  refine ⟨?_, fun t' => Timestamp.epochSeconds_lt⟩
  have htime := t.validTime
  have hmonth := t.validMonth
  have hyear := t.validYear
  have hday := t.validDay.2.trans (daysInMonth_le _ _)
  have hfour : (zeroPadded 4 t.year).length = 4 := length_zeroPadded (by decide) (by omega)
  have htwo {n : Nat} (hn : n < 100) : (zeroPadded 2 n).length = 2 ∧
      parseInteger 64 (zeroPadded 2 n) = some (n : Int) :=
    ⟨length_zeroPadded (by decide) hn, parseInteger_zeroPadded 2 (by omega)⟩
  -- the slices of the text are its fields
  simp [parseIso8601Basic, Timestamp.text, Timestamp.epochSeconds, drop_append, drop_of_length_le,
    getLast?_cons, hfour, parseInteger_zeroPadded 4 (show t.year < _ by omega),
    htwo (show t.month < _ by omega), htwo (show t.day < _ by omega),
    htwo (show t.hour < _ by omega), htwo (show t.minute < _ by omega),
    htwo (show t.second < _ by omega), daysSinceEpoch_eq]

end ExtendDb.Auth
