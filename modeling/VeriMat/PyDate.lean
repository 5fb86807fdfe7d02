import VeriMat.JsonText

/-! # Dates

`datetime.date`: the days of the Gregorian calendar from the year 1 to the year 9999, in their
order, and `isoformat`. -/
namespace PyDate

open PyText

def isLeap (year : ℕ) : Bool := year % 4 == 0 && (year % 100 != 0 || year % 400 == 0)

def daysInMonth (year month : ℕ) : ℕ :=
  if month = 2 then if isLeap year then 29 else 28
  else if month = 4 ∨ month = 6 ∨ month = 9 ∨ month = 11 then 30 else 31

theorem daysInMonth_le (year month : ℕ) : daysInMonth year month ≤ 31 := by
  unfold daysInMonth
  split_ifs <;> omega

/-- `date`. -/
@[ext] structure Date where
  year : ℕ
  month : ℕ
  day : ℕ
  year_valid : 1 ≤ year ∧ year ≤ 9999
  month_valid : 1 ≤ month ∧ month ≤ 12
  day_valid : 1 ≤ day ∧ day ≤ daysInMonth year month
  deriving DecidableEq

/-- A day as a number that grows with it. -/
def Date.rank (d : Date) : ℕ := d.year * 10000 + d.month * 100 + d.day

theorem Date.rank_injective : Function.Injective Date.rank := by
  intro d d' h
  have hday := d.day_valid.2.trans (daysInMonth_le _ _)
  have hday' := d'.day_valid.2.trans (daysInMonth_le _ _)
  have hmonth := d.month_valid.2
  have hmonth' := d'.month_valid.2
  simp only [Date.rank] at h
  ext <;> omega

instance : LinearOrder Date := LinearOrder.lift' Date.rank Date.rank_injective

theorem Date.le_iff {d d' : Date} : d ≤ d' ↔ d.rank ≤ d'.rank := Iff.rfl

/-- The last day of a year. -/
def yearEnd (year : ℕ) (h : 1 ≤ year ∧ year ≤ 9999) : Date where
  year := year
  month := 12
  day := 31
  year_valid := h
  month_valid := by decide
  day_valid := by simp [daysInMonth]

/-- No day of the year is later. -/
theorem le_yearEnd (d : Date) : d ≤ yearEnd d.year d.year_valid := by
  have hday := d.day_valid.2.trans (daysInMonth_le _ _)
  have hmonth := d.month_valid.2
  rw [Date.le_iff]
  change d.year * 10000 + d.month * 100 + d.day ≤ d.year * 10000 + 12 * 100 + 31
  omega

def digit (n : ℕ) : ℕ := 48 + n % 10

/-- `isoformat`. -/
def isoformat (d : Date) : PyStr :=
  [digit (d.year / 1000), digit (d.year / 100), digit (d.year / 10), digit d.year, 45,
    digit (d.month / 10), digit d.month, 45, digit (d.day / 10), digit d.day]

/-- A text says one date. -/
theorem isoformat_injective : Function.Injective isoformat := by
  intro d d' h
  have hday := d.day_valid.2.trans (daysInMonth_le _ _)
  have hday' := d'.day_valid.2.trans (daysInMonth_le _ _)
  have hmonth := d.month_valid.2
  have hmonth' := d'.month_valid.2
  have hyear := d.year_valid.2
  have hyear' := d'.year_valid.2
  simp only [isoformat, digit, List.cons.injEq] at h
  ext <;> omega

end PyDate
