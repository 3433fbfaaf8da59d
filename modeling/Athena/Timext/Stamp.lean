import Athena.Lua.Arith
import Athena.Timext.Week
/-!
# Time — texts of times

A time stamp is a text in UTC and is read back through the host's clock and its
measured offset; a duration is a text of hours, minutes and seconds. Both are read
by their runs of digits.
-/

namespace Athena

namespace Timext

open Lua

variable {zone now tz t d : ℤ} {s w : Str}

/-- What `string.gmatch(s, "%d+")` finds. -/
def digitruns (s : Str) : List Str := (s.splitOnP fun c => !c.isDigit).filter fun w => w ≠ []

/-- A number of two digits at least. -/
def two (n : ℤ) : Str := if n < 10 then '0' :: intText n else intText n

/-- The text of a date: `"!%Y-%m-%d %X"`. -/
def Tm.text (d : Tm) : Str :=
  intText d.year ++ '-' :: (two d.month ++ '-' :: (two d.day ++ ' ' ::
    (two d.hour ++ ':' :: (two d.min ++ ':' :: two d.sec))))

/-- **`timext.to_unix_time_stamp`.** -/
def to_unix_time_stamp (tt : ℤ) : Option Str := (osdate tt).map Tm.text

/-- A field that is the text of an integer. -/
def field (s : Str) : Option ℤ := ((tonumber s).bind Number.toInteger).map Int64.toInt

/-- **`timext.from_unix_time_stamp`**: the time and the fields of the table, which
`os.time` sets. -/
def from_unix_time_stamp (zone timezone : ℤ) (str : Str) : Option (ℤ × Option Tm) :=
  match digitruns str with
  | [year, month, day, hour, min, sec] => do
    let year ← field year
    let month ← field month
    let day ← field day
    let hour ← field hour
    let min ← field min
    let sec ← field sec
    let t ← ostime zone timezone ⟨year, month, day, some hour, some min, some sec⟩
    some (t.1, some t.2)
  | _ => some (0, none)

/-- Hours, minutes and seconds. -/
structure Hms where
  hour : Number
  min : Number
  sec : Number
  deriving DecidableEq

/-- **`timext.to_unix_time`**: `"%d:%d:%d"`. -/
def to_unix_time (tt : ℤ) : Str × Hms :=
  let hour := tt / 3600
  let min := tt % 3600 / 60
  let sec := tt % 60
  (intText hour ++ ':' :: (intText min ++ ':' :: intText sec),
    ⟨.int (Int64.ofInt hour), .int (Int64.ofInt min), .int (Int64.ofInt sec)⟩)

/-- **`timext.from_unix_time`** of a text. Arithmetic on texts is that of doubles. -/
def from_unix_time (param : Str) : Option (Number × Hms) :=
  match digitruns param with
  | h :: m :: s :: _ => do
    let hour ← tonumber h
    let min ← tonumber m
    let sec ← tonumber s
    let tt := ((hour.float.mul (.int 3600)).add (min.float.mul (.int 60))).add sec.float
    some (tt, ⟨hour, min, sec⟩)
  | _ => none

/-! ## Runs of digits -/

/-- A text of digits. -/
def Digits (w : Str) : Prop := w ≠ [] ∧ ∀ c ∈ w, c.isDigit = true

/-- A run of digits ends before any other character. -/
theorem digitruns_cons {c : Char} (hw : Digits w) (hc : c.isDigit = false) :
    digitruns (w ++ c :: s) = w :: digitruns s := by
  have hsplit : (w ++ c :: s).splitOnP (fun c => !c.isDigit) =
      w :: s.splitOnP fun c => !c.isDigit :=
    List.splitOnP_append_cons_of_forall_mem (fun x hx => by simp [hw.2 x hx]) c (by simp [hc]) s
  rw [digitruns, hsplit, List.filter_cons_of_pos (by simpa using hw.1), digitruns]

theorem digitruns_self (hw : Digits w) : digitruns w = [w] := by
  have hsplit : w.splitOnP (fun c => !c.isDigit) = [w] :=
    List.splitOnP_eq_singleton fun x hx => by simp [hw.2 x hx]
  rw [digitruns, hsplit, List.filter_cons_of_pos (by simpa using hw.1), List.filter_nil]

/-- The digits of a number. -/
theorem intText_of_nonneg (h : 0 ≤ d) : intText d = Nat.toDigits 10 d.natAbs :=
  if_neg (by omega)

theorem digits_intText (h : 0 ≤ d) : Digits (intText d) := by
  rw [intText_of_nonneg h]
  exact ⟨Nat.toDigits_ne_nil, toDigits_isDigit _⟩

theorem digits_two (h : 0 ≤ d) : Digits (two d) := by
  unfold two
  split_ifs
  · refine ⟨by simp, fun c hc => ?_⟩
    rcases List.mem_cons.mp hc with rfl | hc
    · decide
    · exact (digits_intText h).2 c hc
  · exact digits_intText h

/-- **A run of digits is read as its number**, when it is one of an integer. -/
theorem tonumber_digits {n : ℕ} (hw : Digits w) (hval : Nat.ofDigitChars 10 w 0 = n) (hn : n < 2 ^ 63) :
    tonumber w = some (.int (Int64.ofInt n)) := by
  have htrim : splitSign (trimSpace w) = (false, w) := by
    rw [trimSpace_eq_self fun c hc => isSpace_of_isDigit (hw.2 c hc), splitSign_digits hw.2]
  have hint := str2int_digits htrim hw.1 hw.2 (by rw [hval]; simp; omega)
  rw [tonumber, hint, hval]
  rfl

theorem ofDigitChars_intText (h : 0 ≤ d) : Nat.ofDigitChars 10 (intText d) 0 = d.toNat := by
  rw [intText_of_nonneg h, Nat.ofDigitChars_ten_toDigits]
  omega

/-- A zero before the digits adds nothing. -/
theorem ofDigitChars_two (h : 0 ≤ d) : Nat.ofDigitChars 10 (two d) 0 = d.toNat := by
  unfold two
  split_ifs
  · rw [Nat.ofDigitChars_cons]
    simpa using ofDigitChars_intText h
  · exact ofDigitChars_intText h

theorem tonumber_intText (h0 : 0 ≤ d) (h : d < 2 ^ 63) :
    tonumber (intText d) = some (.int (Int64.ofInt d)) := by
  have := tonumber_digits (digits_intText h0) (ofDigitChars_intText h0) (by omega)
  rwa [Int.toNat_of_nonneg h0] at this

/-- A field of a time stamp. -/
theorem field_digits (hw : Digits w) (hval : Nat.ofDigitChars 10 w 0 = d.toNat) (h0 : 0 ≤ d)
    (h : d < 2 ^ 63) : field w = some d := by
  rw [field, tonumber_digits hw hval (by omega), Int.toNat_of_nonneg h0]
  simp only [Option.bind_some, Number.toInteger, Option.map_some, toInt_ofInt_of_nonneg h0 h]

/-! ## Time stamps -/

/-- The year of a time in the first ten thousand years. -/
theorem year_mem (h0 : 0 ≤ t) (h : t ≤ 253402300799) :
    1970 ≤ (Tm.ofTime t).year ∧ (Tm.ofTime t).year ≤ 9999 := by
  obtain ⟨hfirst, hlast⟩ := Calendar.year_spec (t / 86400)
  have hyear : (Tm.ofTime t).year = (Calendar.ofDay (t / 86400)).year := rfl
  rw [hyear]
  constructor
  · by_contra hlt
    have hle := Calendar.newyear_mono (show (Calendar.ofDay (t / 86400)).year + 1 ≤ 1970 by omega)
    have h1970 : Calendar.newyear 1970 = 0 := by decide
    omega
  · by_contra hlt
    have hle := Calendar.newyear_mono (show 10000 ≤ (Calendar.ofDay (t / 86400)).year by omega)
    have h10000 : Calendar.newyear 10000 = 2932897 := by decide
    omega

/-- It has a date, and so a time stamp. -/
theorem stamp_some (h0 : 0 ≤ t) (h : t ≤ 253402300799) : to_unix_time_stamp t = some (Tm.ofTime t).text := by
  obtain ⟨hfirst, hlast⟩ := year_mem h0 h
  have hdated : Dated t := by
    rw [Dated, yearof]
    omega
  rw [to_unix_time_stamp, osdate_eq hdated]
  rfl

/-- The six runs of digits of a time stamp. -/
theorem digitruns_stamp (hyear : 0 ≤ (Tm.ofTime t).year) : digitruns (Tm.ofTime t).text =
    [intText (Tm.ofTime t).year, two (Tm.ofTime t).month, two (Tm.ofTime t).day, two (Tm.ofTime t).hour,
      two (Tm.ofTime t).min, two (Tm.ofTime t).sec] := by
  have hmonth := (Calendar.month_mem (t / 86400)).1
  have hday := (Calendar.day_mem (t / 86400)).1
  have hclock : 0 ≤ (Tm.ofTime t).hour ∧ 0 ≤ (Tm.ofTime t).min ∧ 0 ≤ (Tm.ofTime t).sec := by
    simp only [Tm.ofTime]
    omega
  rw [Tm.text, digitruns_cons (digits_intText hyear) (by decide),
    digitruns_cons (digits_two (by simp only [Tm.ofTime]; omega)) (by decide),
    digitruns_cons (digits_two (by simp only [Tm.ofTime]; omega)) (by decide),
    digitruns_cons (digits_two hclock.1) (by decide),
    digitruns_cons (digits_two hclock.2.1) (by decide), digitruns_self (digits_two hclock.2.2)]

/-- **A time stamp is read back**: `os.time` has an error at one time only. -/
theorem stamp_eq (h0 : 0 ≤ t) (h : t ≤ 253402300799) :
    from_unix_time_stamp zone zone (Tm.ofTime t).text =
      if t ≠ zone - 1 then some (t, some (Tm.ofTime t)) else none := by
  have hyear := year_mem h0 h
  have hmonth := Calendar.month_mem (t / 86400)
  have hday := Calendar.day_mem (t / 86400)
  have htime := os_time_ofTime zone t
  rw [from_unix_time_stamp, digitruns_stamp (by omega)]
  dsimp only
  rw [field_digits (digits_intText (by omega)) (ofDigitChars_intText (by omega)) (by omega)
      (by omega : (Tm.ofTime t).year < 2 ^ 63)]
  have htwo : ∀ n : ℤ, 0 ≤ n → n < 2 ^ 63 → field (two n) = some n := fun n hn hlt =>
    field_digits (digits_two hn) (ofDigitChars_two hn) hn hlt
  rw [htwo (Tm.ofTime t).month (by simp only [Tm.ofTime]; omega) (by simp only [Tm.ofTime]; omega),
    htwo (Tm.ofTime t).day (by simp only [Tm.ofTime]; omega) (by simp only [Tm.ofTime]; omega),
    htwo (Tm.ofTime t).hour (by simp only [Tm.ofTime]; omega) (by simp only [Tm.ofTime]; omega),
    htwo (Tm.ofTime t).min (by simp only [Tm.ofTime]; omega) (by simp only [Tm.ofTime]; omega),
    htwo (Tm.ofTime t).sec (by simp only [Tm.ofTime]; omega) (by simp only [Tm.ofTime]; omega)]
  simp only [Option.bind_eq_bind, Option.bind_some, ostime, htime]
  have hfits : Fits (yearof t) := by
    simp only [Fits, maxdatefield, yearof]
    omega
  by_cases hne : t ≠ zone - 1
  · rw [if_pos hne, if_pos ⟨hfits, by omega⟩]
    simp only [Option.map_some, Option.bind_some, sub_add_cancel]
  · rw [if_neg hne, if_neg (by omega)]
    rfl

/-! ## Durations -/

theorem digitruns_unix_time (h0 : 0 ≤ d) : digitruns (to_unix_time d).1 =
    [intText (d / 3600), intText (d % 3600 / 60), intText (d % 60)] := by
  rw [to_unix_time]
  dsimp only
  rw [digitruns_cons (digits_intText (by omega)) (by decide),
    digitruns_cons (digits_intText (by omega)) (by decide), digitruns_self (digits_intText (by omega))]

/-- Numbers that a double has. -/
theorem float_ofInt (h0 : 0 ≤ d) (h : d ≤ 2 ^ 53) : (Number.int (Int64.ofInt d)).float = .flt d := by
  rw [Number.float, toInt_ofInt_of_nonneg h0 (by omega), toDouble_intCast h0 h]

/-- **The sum is exact** where the duration is a double. -/
theorem seconds_eq (h0 : 0 ≤ d) (h : d ≤ 2 ^ 53) :
    (((Number.int (Int64.ofInt (d / 3600))).float.mul (.int 3600)).add
      ((Number.int (Int64.ofInt (d % 3600 / 60))).float.mul (.int 60))).add
      (Number.int (Int64.ofInt (d % 60))).float = .flt d := by
  have hmul : ∀ {a b : ℤ}, 0 ≤ a → 0 ≤ b → b ≤ 2 ^ 53 → a * b ≤ 2 ^ 53 → 0 ≤ a * b →
      (Number.flt a).mul (.int (Int64.ofInt b)) = .flt ((a * b : ℤ) : ℚ) := by
    intro a b ha hb hb' hab hab0
    simp only [Number.mul, Number.float, toInt_ofInt_of_nonneg hb (by omega), toDouble_intCast hb hb',
      Number.mulFloat]
    rw [← Int.cast_mul, toDouble_intCast hab0 hab]
  have hadd : ∀ {a b : ℤ}, 0 ≤ a + b → a + b ≤ 2 ^ 53 →
      (Number.flt a).add (.flt b) = .flt ((a + b : ℤ) : ℚ) := by
    intro a b hab0 hab
    simp only [Number.add, Number.float, Number.addFloat]
    rw [← Int.cast_add, toDouble_intCast hab0 hab]
  rw [float_ofInt (by omega) (by omega), float_ofInt (by omega) (by omega),
    float_ofInt (by omega) (by omega), show (3600 : Int64) = Int64.ofInt 3600 from rfl,
    show (60 : Int64) = Int64.ofInt 60 from rfl,
    hmul (by omega) (by omega) (by omega) (by omega) (by omega),
    hmul (by omega) (by omega) (by omega) (by omega) (by omega), hadd (by omega) (by omega),
    hadd (by omega) (by omega)]
  congr 2
  omega

/-- **The texts of times are read back**: a time stamp but for the time for which
`os.time` has an error, and a duration but for the rounding of doubles. -/
theorem unixtime (hload : timezone zone now = some tz) :
    (∀ t, 0 ≤ t → t ≤ 253402300799 → t ≠ zone - 1 → ∃ s, to_unix_time_stamp t = some s ∧
      from_unix_time_stamp zone tz s = some (t, some (Tm.ofTime t))) ∧
    ∀ d, 0 ≤ d → d < 2 ^ 63 →
      (d % 3600 / 60 < 60 ∧ d % 60 < 60) ∧
      ∃ tt, from_unix_time (to_unix_time d).1 = some (tt, (to_unix_time d).2) ∧
        (to_unix_time d).2 = ⟨.int (Int64.ofInt (d / 3600)), .int (Int64.ofInt (d % 3600 / 60)),
          .int (Int64.ofInt (d % 60))⟩ ∧
        (d ≤ 2 ^ 53 → tt = .flt d) := by
  rw [timezone_eq hload]
  refine ⟨fun t h0 h hne => ?_, fun d h0 h => ⟨by omega, _, ?_, rfl, seconds_eq h0⟩⟩
  · exact ⟨_, stamp_some h0 h, by rw [stamp_eq h0 h, if_pos hne]⟩
  · rw [from_unix_time, digitruns_unix_time h0]
    dsimp only
    rw [tonumber_intText (by omega) (by omega), tonumber_intText (by omega) (by omega),
      tonumber_intText (by omega) (by omega)]
    rfl

/-- A leap day at UTC+8, and a hundred hours. -/
theorem unixtime_leap :
    (∃ s, to_unix_time_stamp 1582934400 = some s ∧
      from_unix_time_stamp 28800 28800 s = some (1582934400, some (Tm.ofTime 1582934400))) ∧
    ∃ tt, from_unix_time (to_unix_time 360000).1 = some (tt, (to_unix_time 360000).2) ∧
      tt = .flt 360000 := by
  have hload : timezone 28800 1600000000 = some 28800 := by decide +kernel
  refine ⟨(unixtime hload).1 _ (by decide) (by decide) (by decide), ?_⟩
  obtain ⟨-, tt, htime, -, htt⟩ := (unixtime hload).2 360000 (by decide) (by decide)
  exact ⟨tt, htime, htt (by decide)⟩

/-- At UTC+8, the first day's 07:59:59; and a duration that no double has. -/
theorem unixtime_lost :
    (timezone 28800 1600000000 = some 28800 ∧
      ∃ s, to_unix_time_stamp 28799 = some s ∧ from_unix_time_stamp 28800 28800 s = none) ∧
    (from_unix_time (to_unix_time (2 ^ 53 + 1)).1).map Prod.fst = some (.flt (2 ^ 53)) := by
  refine ⟨⟨by decide +kernel, _, stamp_some (by decide) (by decide), ?_⟩, by decide +kernel⟩
  rw [stamp_eq (by decide) (by decide), if_neg (by decide)]

end Timext

end Athena
