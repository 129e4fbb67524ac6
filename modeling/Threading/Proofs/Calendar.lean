import Threading.Calendar

/-!
# The days of the calendar

Days are converted to dates without gap or repetition: the date of a day is in the calendar
and its number is the day, the next day has the next date, and every date of the calendar is
the date of its day. The conversion counts years from March on, so the proof goes through the
day of such a year; what the calendar says about months and leap years is stated from January
on, without the conversion.
-/
namespace Threading.Calendar

variable {year month n y r : Int} {d e : Date}

/-! ## Years -/

theorem leapYearsThrough_succ (year : Int) : leapYearsThrough (year + 1) =
    leapYearsThrough year + if IsLeap (year + 1) then 1 else 0 := by
  by_cases h : IsLeap (year + 1)
  · rw [if_pos h]
    simp only [leapYearsThrough, IsLeap] at *
    omega
  · rw [if_neg h]
    simp only [leapYearsThrough, IsLeap] at *
    omega

/-- The days from 1 March of year 0 to 1 March of the given year. -/
def daysToMarch (year : Int) : Int := 365 * year + leapYearsThrough year

theorem daysToMarch_succ (year : Int) : daysToMarch (year + 1) =
    daysToMarch year + 365 + if IsLeap (year + 1) then 1 else 0 := by
  rw [daysToMarch, leapYearsThrough_succ, daysToMarch]
  omega

theorem daysToMarch_eq (year : Int) : daysToMarch year =
    daysToMarch (year - 1) + 365 + if IsLeap year then 1 else 0 := by
  have hsucc := daysToMarch_succ (year - 1)
  rwa [Int.sub_add_cancel] at hsucc

theorem daysToMarch_add_cycle (year cycle : Int) :
    daysToMarch (year + 400 * cycle) = daysToMarch year + cycleDays * cycle := by
  simp only [daysToMarch, leapYearsThrough, cycleDays]
  omega

/-- The formula for the year of a cycle finds the year that has begun and not ended. -/
theorem yearOfCycle_spec (h₀ : 0 ≤ n) (h₁ : n < cycleDays)
    (hy : y = (n - n / 1460 + n / 36524 - n / 146096) / 365) :
    0 ≤ y ∧ y ≤ 399 ∧ daysToMarch y ≤ n ∧ n < daysToMarch (y + 1) := by
  simp only [daysToMarch, leapYearsThrough, cycleDays] at h₁ ⊢
  -- the last day of the cycle belongs to no century of 36524 days
  have hcentury : n = 146096 ∨ n / 146096 = 0 ∧
      (n / 36524 = 0 ∨ n / 36524 = 1 ∨ n / 36524 = 2 ∨ n / 36524 = 3) := by
    omega
  rcases hcentury with rfl | ⟨hlast, hcentury⟩
  · omega
  -- the year is one of four that begin in the same 1460 days or the one before them
  obtain ⟨q, s, hs, hs', rfl, hq⟩ :
      ∃ q s, 0 ≤ s ∧ s < 1460 ∧ n = 1460 * q + s ∧ n / 1460 = q :=
    ⟨n / 1460, n % 1460, by omega, by omega, by omega, rfl⟩
  rw [hlast, hq] at hy
  rcases hcentury with hcentury | hcentury | hcentury | hcentury <;> rw [hcentury] at hy
  all_goals
    have hyear : y = 4 * q - 1 ∨ y = 4 * q ∨ y = 4 * q + 1 ∨ y = 4 * q + 2 ∨ y = 4 * q + 3 := by
      omega
    rcases hyear with rfl | rfl | rfl | rfl | rfl <;> omega

/-! ## Months -/

theorem month_cases (h : 1 ≤ month) (h' : month ≤ 12) :
    month = 1 ∨ month = 2 ∨ month = 3 ∨ month = 4 ∨ month = 5 ∨ month = 6 ∨ month = 7 ∨
      month = 8 ∨ month = 9 ∨ month = 10 ∨ month = 11 ∨ month = 12 := by
  omega

/-- From March on, five months in a row have 153 days. -/
theorem daysBeforeMonth_eq (year : Int) (h : 1 ≤ month) (h' : month ≤ 12) : daysBeforeMonth year month =
    if month ≤ 2 then 31 * (month - 1)
    else 59 + (153 * (month - 3) + 2) / 5 + if IsLeap year then 1 else 0 := by
  rcases month_cases h h' with
    rfl | rfl | rfl | rfl | rfl | rfl | rfl | rfl | rfl | rfl | rfl | rfl
  all_goals
    simp only [daysBeforeMonth, monthLength, List.foldl]
    by_cases hleap : IsLeap year <;> simp [hleap]

theorem monthLength_eq (h : 3 ≤ month) (h' : month ≤ 12) : monthLength year month =
    (153 * (month - 2) + 2) / 5 - (153 * (month - 3) + 2) / 5 := by
  rcases month_cases (by omega) h' with
    rfl | rfl | rfl | rfl | rfl | rfl | rfl | rfl | rfl | rfl | rfl | rfl
  all_goals first | omega | rfl

theorem monthLength_january (year : Int) : monthLength year 1 = 31 := rfl

theorem monthLength_february (year : Int) :
    monthLength year 2 = 28 + if IsLeap year then 1 else 0 := by
  by_cases h : IsLeap year <;> simp [monthLength, h]

/-! ## The date of a day -/

/-- The date of day `r` of the year that begins on 1 March of the given one. -/
def marchDate (year r : Int) : Date :=
  let m := (5 * r + 2) / 153
  let day := r - (153 * m + 2) / 5 + 1
  if m < 10 then ⟨year, m + 3, day⟩ else ⟨year + 1, m - 9, day⟩

/-- The date of a day is found from the year, counted from March, in which the day lies. -/
theorem exists_marchDate (days : Int) : ∃ year r, 0 ≤ r ∧
    daysToMarch year + r = days + epochOffset ∧ days + epochOffset < daysToMarch (year + 1) ∧
      Date.ofDays days = marchDate year r := by
  have hpos : (0 : Int) < cycleDays := by decide
  have hne : cycleDays ≠ 0 := by decide
  obtain ⟨h₀, h₁, hle, hlt⟩ := yearOfCycle_spec (Int.emod_nonneg (days + epochOffset) hne)
    (Int.emod_lt_of_pos _ hpos) rfl
  have hsplit := Int.emod_add_mul_ediv (days + epochOffset) cycleDays
  generalize hn : (days + epochOffset) % cycleDays = n at *
  generalize hcycle : (days + epochOffset) / cycleDays = cycle at *
  generalize hy : (n - n / 1460 + n / 36524 - n / 146096) / 365 = y at *
  have hsucc : y + 400 * cycle + 1 = y + 1 + 400 * cycle := by omega
  refine ⟨y + 400 * cycle, n - daysToMarch y, by omega, ?_, ?_, ?_⟩
  · rw [daysToMarch_add_cycle]
    omega
  · rw [hsucc, daysToMarch_add_cycle]
    omega
  · have hday : n - (365 * y + y / 4 - y / 100) = n - daysToMarch y := by
      simp only [daysToMarch, leapYearsThrough]
      omega
    simp only [Date.ofDays, hn, hcycle, hy, hday, marchDate]
    split <;> simp only [Date.mk.injEq, and_true] <;> omega

/-- A year begins 306 days after 1 March of the year before. -/
theorem dayNumber_eq_add (d : Date) : d.dayNumber = daysToMarch (d.year - 1) + 306 - epochOffset +
    daysBeforeMonth d.year d.month + (d.day - 1) := by
  have hepoch : leapYearsThrough 1969 = 477 := rfl
  rw [Date.dayNumber, daysToMarch, hepoch, epochOffset]
  omega

theorem dayNumber_from_march (h : 3 ≤ month) (h' : month ≤ 12) (day : Int) :
    (⟨year, month, day⟩ : Date).dayNumber =
      daysToMarch year + (153 * (month - 3) + 2) / 5 + (day - 1) - epochOffset := by
  have hmarch := daysToMarch_eq year
  simp only [dayNumber_eq_add, daysBeforeMonth_eq _ (by omega : 1 ≤ month) h',
    if_neg (by omega : ¬ month ≤ 2)]
  omega

theorem dayNumber_to_march (h : 1 ≤ month) (h' : month ≤ 2) (day : Int) :
    (⟨year + 1, month, day⟩ : Date).dayNumber =
      daysToMarch year + 306 + 31 * (month - 1) + (day - 1) - epochOffset := by
  simp only [dayNumber_eq_add, daysBeforeMonth_eq _ h (by omega : month ≤ 12), if_pos h',
    Int.add_sub_cancel]
  omega

theorem dayNumber_marchDate (h₀ : 0 ≤ r) (h₁ : r ≤ 365) :
    (marchDate year r).dayNumber = daysToMarch year + r - epochOffset := by
  simp only [marchDate]
  generalize hm : (5 * r + 2) / 153 = m
  split
  next hless =>
    rw [dayNumber_from_march (by omega) (by omega), Int.add_sub_cancel]
    omega
  next hless =>
    rw [dayNumber_to_march (by omega) (by omega)]
    omega

theorem isValid_marchDate (h₀ : 0 ≤ r) (h₁ : daysToMarch year + r < daysToMarch (year + 1)) :
    (marchDate year r).IsValid := by
  rw [daysToMarch_succ] at h₁
  have hleap : (if IsLeap (year + 1) then 1 else 0 : Int) ≤ 1 := by split <;> decide
  simp only [marchDate, Date.IsValid]
  generalize hm : (5 * r + 2) / 153 = m
  split
  next hless =>
    have hlength : monthLength year (m + 3) = (153 * (m + 1) + 2) / 5 - (153 * m + 2) / 5 := by
      rw [monthLength_eq (by omega) (by omega), Int.add_sub_cancel, show m + 3 - 2 = m + 1 by omega]
    simp only [hlength]
    omega
  next hless =>
    have hmonth : m = 10 ∨ m = 11 := by omega
    rcases hmonth with rfl | rfl
    · simp only [show (10 : Int) - 9 = 1 from rfl, monthLength_january]
      omega
    · simp only [show (11 : Int) - 9 = 2 from rfl, monthLength_february]
      omega

theorem isValid_ofDays (days : Int) : (Date.ofDays days).IsValid := by
  obtain ⟨year, r, h₀, hr, hlt, heq⟩ := exists_marchDate days
  rw [heq]
  exact isValid_marchDate h₀ (hr ▸ hlt)

theorem dayNumber_ofDays (days : Int) : (Date.ofDays days).dayNumber = days := by
  obtain ⟨year, r, h₀, hr, hlt, heq⟩ := exists_marchDate days
  have hle : r ≤ 365 := by
    rw [daysToMarch_succ] at hlt
    split at hlt <;> omega
  rw [heq, dayNumber_marchDate h₀ hle]
  omega

/-! ## The order of dates -/

/-- By year, then by month, then by day. -/
def Date.Before (d e : Date) : Prop :=
  d.year < e.year ∨ d.year = e.year ∧ (d.month < e.month ∨ d.month = e.month ∧ d.day < e.day)

instance (d e : Date) : Decidable (d.Before e) := inferInstanceAs (Decidable (_ ∨ _))

theorem Date.before_trichotomy (d e : Date) : d.Before e ∨ d = e ∨ e.Before d := by
  obtain ⟨y, m, n⟩ := d
  obtain ⟨y', m', n'⟩ := e
  simp only [Before, Date.mk.injEq]
  omega

theorem daysToMarch_mono {year year' : Int} (h : year ≤ year') :
    daysToMarch year ≤ daysToMarch year' := by
  simp only [daysToMarch, leapYearsThrough]
  omega

theorem daysBeforeMonth_succ (year : Int) (h : 1 ≤ month) (h' : month < 12) :
    daysBeforeMonth year (month + 1) = daysBeforeMonth year month + monthLength year month := by
  rw [daysBeforeMonth_eq year (by omega : 1 ≤ month + 1) (by omega),
    daysBeforeMonth_eq year h (by omega)]
  have hmonth : month = 1 ∨ month = 2 ∨ 3 ≤ month := by omega
  rcases hmonth with rfl | rfl | hmonth
  · rfl
  · rw [if_neg (by decide : ¬ (2 : Int) + 1 ≤ 2), if_pos (Int.le_refl 2), monthLength_february]
    omega
  · rw [if_neg (by omega : ¬ month + 1 ≤ 2), if_neg (by omega : ¬ month ≤ 2),
      monthLength_eq hmonth (by omega)]
    omega

/-- A month ends before a later one begins. -/
theorem daysBeforeMonth_add_monthLength_le (year : Int) {month' : Int} (h : 1 ≤ month)
    (hlt : month < month') (h' : month' ≤ 12) :
    daysBeforeMonth year month + monthLength year month ≤ daysBeforeMonth year month' := by
  rw [← daysBeforeMonth_succ _ h (by omega), daysBeforeMonth_eq _ (by omega) (by omega),
    daysBeforeMonth_eq _ (by omega) h']
  have hleap : (0 : Int) ≤ if IsLeap year then 1 else 0 := by split <;> decide
  split <;> split <;> omega

/-- A year ends before the next one begins. -/
theorem Date.IsValid.dayNumber_lt (h : d.IsValid) :
    d.dayNumber < daysToMarch d.year + 306 - epochOffset := by
  obtain ⟨h₁, h₂, -, hday⟩ := h
  have hdecember : daysBeforeMonth d.year d.month + d.day ≤ daysBeforeMonth d.year 12 + 31 := by
    rcases Int.lt_or_eq_of_le h₂ with hlt | heq
    · have hle := daysBeforeMonth_add_monthLength_le d.year h₁ hlt (Int.le_refl 12)
      omega
    · rw [heq] at hday ⊢
      have hlength : monthLength d.year 12 = 31 := rfl
      omega
  have hmarch := daysToMarch_eq d.year
  rw [daysBeforeMonth_eq d.year (by decide : (1 : Int) ≤ 12) (by decide),
    if_neg (by decide)] at hdecember
  rw [dayNumber_eq_add]
  omega

theorem Date.IsValid.le_dayNumber (h : d.IsValid) :
    daysToMarch (d.year - 1) + 306 - epochOffset ≤ d.dayNumber := by
  obtain ⟨h₁, h₂, hday, -⟩ := h
  have hmonths : 0 ≤ daysBeforeMonth d.year d.month := by
    rw [daysBeforeMonth_eq _ h₁ h₂]
    have hleap : (0 : Int) ≤ if IsLeap d.year then 1 else 0 := by split <;> decide
    split <;> omega
  rw [dayNumber_eq_add]
  omega

/-- Earlier dates have smaller numbers. -/
theorem Date.Before.dayNumber_lt (h : d.Before e) (hd : d.IsValid) (he : e.IsValid) :
    d.dayNumber < e.dayNumber := by
  obtain hyear | ⟨hyear, hmonth | ⟨hmonth, hday⟩⟩ := h
  · have hmono := daysToMarch_mono (by omega : d.year ≤ e.year - 1)
    have hlt := hd.dayNumber_lt
    have hle := he.le_dayNumber
    omega
  · have hle := daysBeforeMonth_add_monthLength_le d.year hd.1 hmonth he.2.1
    have hlast := hd.2.2.2
    have hfirst := he.2.2.1
    rw [dayNumber_eq_add, dayNumber_eq_add, ← hyear]
    omega
  · rw [dayNumber_eq_add, dayNumber_eq_add, ← hyear, ← hmonth]
    omega

/-- A day has one date. -/
theorem Date.IsValid.eq_of_dayNumber_eq (hd : d.IsValid) (he : e.IsValid)
    (h : d.dayNumber = e.dayNumber) : d = e := by
  obtain hlt | heq | hlt := d.before_trichotomy e
  · exact absurd h (Int.ne_of_lt (hlt.dayNumber_lt hd he))
  · exact heq
  · exact absurd h.symm (Int.ne_of_lt (hlt.dayNumber_lt he hd))

theorem Date.IsValid.ofDays_dayNumber (hd : d.IsValid) : Date.ofDays d.dayNumber = d :=
  (isValid_ofDays _).eq_of_dayNumber_eq hd (dayNumber_ofDays _)

theorem before_ofDays_iff {a b : Int} : (Date.ofDays a).Before (Date.ofDays b) ↔ a < b := by
  have hlt {a b : Int} (h : (Date.ofDays a).Before (Date.ofDays b)) : a < b := by
    have hnumbers := h.dayNumber_lt (isValid_ofDays a) (isValid_ofDays b)
    rwa [dayNumber_ofDays, dayNumber_ofDays] at hnumbers
  refine ⟨hlt, ?_⟩
  intro hab
  obtain hbefore | heq | hbefore := (Date.ofDays a).before_trichotomy (Date.ofDays b)
  · exact hbefore
  · have hnumbers := congrArg Date.dayNumber heq
    rw [dayNumber_ofDays, dayNumber_ofDays] at hnumbers
    omega
  · have hba := hlt hbefore
    omega

/-! ## The day after -/

/-- The date after a date: in the same month, on the first of the next one or on 1 January. -/
def Date.next (d : Date) : Date :=
  if d.day < monthLength d.year d.month then ⟨d.year, d.month, d.day + 1⟩
  else if d.month < 12 then ⟨d.year, d.month + 1, 1⟩
  else ⟨d.year + 1, 1, 1⟩

theorem monthLength_pos (year month : Int) : 1 ≤ monthLength year month := by
  rw [monthLength]
  split
  · split <;> decide
  · split <;> decide

theorem monthLength_le (year month : Int) : monthLength year month ≤ 31 := by
  rw [monthLength]
  split
  · split <;> decide
  · split <;> decide

theorem Date.IsValid.next (h : d.IsValid) : d.next.IsValid := by
  obtain ⟨h₁, h₂, hfirst, hlast⟩ := h
  rw [Date.next]
  split
  next hday => exact ⟨h₁, h₂, by simp only; omega, hday⟩
  next hday =>
    split
    next hmonth =>
      exact ⟨by simp only; omega, hmonth, Int.le_refl 1, monthLength_pos _ _⟩
    next hmonth =>
      exact ⟨Int.le_refl 1, (by decide : (1 : Int) ≤ 12), Int.le_refl 1, monthLength_pos _ _⟩

theorem Date.IsValid.dayNumber_next (h : d.IsValid) : d.next.dayNumber = d.dayNumber + 1 := by
  obtain ⟨h₁, h₂, hfirst, hlast⟩ := h
  rw [Date.next]
  split
  next hday =>
    simp only [dayNumber_eq_add]
    omega
  next hday =>
    have hend : d.day = monthLength d.year d.month := Int.le_antisymm hlast (Int.not_lt.1 hday)
    split
    next hmonth =>
      simp only [dayNumber_eq_add, daysBeforeMonth_succ _ h₁ hmonth]
      omega
    next hmonth =>
      have hdecember : d.month = 12 := by omega
      rw [hdecember] at hend
      have hlength : monthLength d.year 12 = 31 := rfl
      have hjanuary : daysBeforeMonth (d.year + 1) 1 = 0 := rfl
      have hdays := daysBeforeMonth_eq d.year (by decide : (1 : Int) ≤ 12) (by decide)
      rw [if_neg (by decide : ¬ (12 : Int) ≤ 2)] at hdays
      have hmarch := daysToMarch_eq d.year
      simp only [dayNumber_eq_add, hdecember, hend, hjanuary, Int.add_sub_cancel]
      omega

/-- The date of a day is in the calendar and has the day's number, which is 0 for 1 January 1970
and one more for each next date; every date of the calendar is the date of its number. So different
days have different dates, later days have later dates, and the date of the next day comes next. -/
theorem ofDays_spec :
    (∀ days, (Date.ofDays days).IsValid ∧ (Date.ofDays days).dayNumber = days) ∧
      (⟨1970, 1, 1⟩ : Date).dayNumber = 0 ∧
      (∀ d : Date, d.IsValid → d.next.IsValid ∧ d.next.dayNumber = d.dayNumber + 1) ∧
      (∀ d : Date, d.IsValid → Date.ofDays d.dayNumber = d) ∧
      Function.Injective Date.ofDays ∧
      (∀ a b, (Date.ofDays a).Before (Date.ofDays b) ↔ a < b) ∧
      ∀ days, Date.ofDays (days + 1) = (Date.ofDays days).next := by
  refine ⟨?_, rfl, ?_, ?_, ?_, ?_, ?_⟩
  · intro days
    exact ⟨isValid_ofDays days, dayNumber_ofDays days⟩
  · intro d hd
    exact ⟨hd.next, hd.dayNumber_next⟩
  · intro d hd
    exact hd.ofDays_dayNumber
  · intro a b hab
    rw [← dayNumber_ofDays a, hab, dayNumber_ofDays]
  · intro a b
    exact before_ofDays_iff
  · intro days
    apply (isValid_ofDays _).eq_of_dayNumber_eq (isValid_ofDays days).next
    rw [(isValid_ofDays days).dayNumber_next, dayNumber_ofDays, dayNumber_ofDays]

/-- The leap day of a year that ends a cycle of 400 years. -/
theorem ofDays_spec_leapDay :
    let d : Date := ⟨2000, 2, 29⟩
    d.IsValid ∧ d.dayNumber = 11016 ∧ Date.ofDays 11016 = d ∧
      Date.ofDays (11016 + 1) = ⟨2000, 3, 1⟩ := by
  intro d
  have hvalid : d.IsValid := by decide
  have hnumber : d.dayNumber = 11016 := by decide
  obtain ⟨-, -, -, hinverse, -, -, hnext⟩ := ofDays_spec
  have hday : Date.ofDays 11016 = d := by
    rw [← hnumber]
    exact hinverse d hvalid
  refine ⟨hvalid, hnumber, hday, ?_⟩
  rw [hnext 11016, hday]
  rfl

end Threading.Calendar
