import KasmVNC.Lib.Text

/-!
# Dates

A time is a number of seconds since the beginning of 1970, with 86400 of them in every day.
-/

namespace KasmVNC.Lib

def leapYear (year : ℕ) : Bool := year % 4 = 0 ∧ (year % 100 ≠ 0 ∨ year % 400 = 0)

def yearDays (year : ℕ) : ℕ := if leapYear year then 366 else 365

def monthDays (year : ℕ) : List ℕ :=
  [31, if leapYear year then 29 else 28, 31, 30, 31, 30, 31, 31, 30, 31, 30, 31]

/-- The year of a day, and how many of its days have passed. There are never as many years as
days. -/
def splitYears : ℕ → ℕ → ℕ → ℕ × ℕ
  | 0, year, days => (year, days)
  | turns + 1, year, days =>
    if days < yearDays year then (year, days)
    else splitYears turns (year + 1) (days - yearDays year)

/-- The month, and how many of its days have passed. -/
def splitMonths : List ℕ → ℕ → ℕ → ℕ × ℕ
  | [], month, days => (month, days)
  | n :: ns, month, days =>
    if days < n then (month, days) else splitMonths ns (month + 1) (days - n)

/-- `struct tm`, with months and days counted from one, and the year as it is. -/
structure Tm where
  year : ℕ
  month : ℕ
  day : ℕ
  hour : ℕ
  minute : ℕ
  second : ℕ
deriving DecidableEq

def gmtime (t : ℕ) : Tm :=
  let days := t / 86400
  let (year, yday) := splitYears days 1970 days
  let (month, mday) := splitMonths (monthDays year) 1 yday
  ⟨year, month, mday + 1, t % 86400 / 3600, t % 3600 / 60, t % 60⟩

/-- `%m` and the like -/
def twoDigits (n : ℕ) : List Byte := [digit (n / 10 % 10), digit (n % 10)]

/-- `strftime` with `"%Y-%m-%d %H:%M:%S"` -/
def strftime (tm : Tm) : List Byte :=
  decimal tm.year ++ (0x2D :: (twoDigits tm.month ++ (0x2D :: (twoDigits tm.day ++
    (0x20 :: (twoDigits tm.hour ++ (0x3A :: (twoDigits tm.minute ++
      (0x3A :: twoDigits tm.second)))))))))

theorem mem_twoDigits {b : Byte} {n : ℕ} (h : b ∈ twoDigits n) : ∃ d < 10, b = digit d := by
  rcases List.mem_cons.mp h with rfl | hlast
  · exact ⟨_, Nat.mod_lt _ (by decide), rfl⟩
  · exact ⟨_, Nat.mod_lt _ (by decide), List.mem_singleton.mp hlast⟩

/-- The bytes of a date. -/
theorem mem_strftime {b : Byte} {tm : Tm} (h : b ∈ strftime tm) :
    (∃ d < 10, b = digit d) ∨ b = 0x2D ∨ b = 0x20 ∨ b = 0x3A := by
  simp only [strftime, List.mem_append, List.mem_cons] at h
  rcases h with h | h | h | h | h | h | h | h | h | h | h
  · exact Or.inl (mem_decimal h)
  · exact Or.inr (Or.inl h)
  · exact Or.inl (mem_twoDigits h)
  · exact Or.inr (Or.inl h)
  · exact Or.inl (mem_twoDigits h)
  · exact Or.inr (Or.inr (Or.inl h))
  · exact Or.inl (mem_twoDigits h)
  · exact Or.inr (Or.inr (Or.inr h))
  · exact Or.inl (mem_twoDigits h)
  · exact Or.inr (Or.inr (Or.inr h))
  · exact Or.inl (mem_twoDigits h)

example : gmtime 951827696 = ⟨2000, 2, 29, 12, 34, 56⟩ := by decide +kernel

end KasmVNC.Lib
