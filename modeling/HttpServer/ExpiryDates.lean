import HttpServer.Lib.Gregorian
import HttpServer.CookieRendering

/-!
The date of the `Expires` attribute. `gmtime_r` gives the calendar's reading of
an instant, and `format_imf_fixdate` prints it with whatever number of digits
the year has. When `gmtime_r` fails, what it has left in the fields is printed
all the same.
-/
namespace HttpServer
open Gregorian

def twoDigits (n : Nat) : Str := [Nat.digitChar (n / 10), Nat.digitChar (n % 10)]

def fourDigits (n : Nat) : Str := twoDigits (n / 100) ++ twoDigits (n % 100)

def imfDay : Nat → Str
  | 0 => "Sun".toList
  | 1 => "Mon".toList
  | 2 => "Tue".toList
  | 3 => "Wed".toList
  | 4 => "Thu".toList
  | 5 => "Fri".toList
  | 6 => "Sat".toList
  | _ => []

def imfMonth : Nat → Str
  | 0 => "Jan".toList
  | 1 => "Feb".toList
  | 2 => "Mar".toList
  | 3 => "Apr".toList
  | 4 => "May".toList
  | 5 => "Jun".toList
  | 6 => "Jul".toList
  | 7 => "Aug".toList
  | 8 => "Sep".toList
  | 9 => "Oct".toList
  | 10 => "Nov".toList
  | 11 => "Dec".toList
  | _ => []

def imfFixdate (m : Moment) : Str :=
  imfDay m.weekday ++ [',', ' '] ++ twoDigits m.day ++ [' '] ++ imfMonth m.month ++ [' '] ++
    fourDigits m.year.toNat ++ [' '] ++ twoDigits m.hour ++ [':'] ++ twoDigits m.minute ++ [':'] ++
    twoDigits m.second ++ [' ', 'G', 'M', 'T']

def DenotesInstant (text : Str) (t : Int) : Prop :=
  ∃ m : Moment, m.Valid ∧ 0 ≤ m.year ∧ m.year ≤ 9999 ∧ m.instant = t ∧ text = imfFixdate m

/-- The sum `tm.tm_year + 1900` is an `int`, whether `gmtime_r` has failed or not. -/
def YearSumFits (left : TmLeft) (t : Int) : Prop :=
  -2147483648 ≤ (tmRead left t).year + 1900 ∧ (tmRead left t).year + 1900 ≤ 2147483647

def ExpiresProperly (left : TmLeft) (c : Cookie) (t : Int) : Prop :=
  (∃ e, (c.withExpires t).toSetCookieHeader left = .error e) ∨
    (∃ line date, (c.withExpires t).toSetCookieHeader left = .ok line ∧
      (line.splitOn ';')[1]? = some (" Expires=".toList ++ date) ∧ DenotesInstant date t) ∧
    YearSumFits left t

variable {t year : Int} {n : Nat}

theorem daysBeforeYear_nonneg (low : 0 ≤ year) : 0 ≤ daysBeforeYear year := by
  unfold daysBeforeYear
  omega

theorem daysBeforeYear_le (high : year ≤ 10000) : daysBeforeYear year ≤ 3652425 := by
  unfold daysBeforeYear
  by_cases last : year = 10000
  · subst last
    decide
  · omega

theorem le_daysBeforeYear (high : 10000 ≤ year) : 3652425 ≤ daysBeforeYear year := by
  unfold daysBeforeYear
  omega

theorem daysBeforeYear_nonpos (low : year ≤ 0) : daysBeforeYear year ≤ 0 := by
  unfold daysBeforeYear
  by_cases zero : year = 0
  · subst zero
    decide
  · omega

theorem year_four_digits_iff {m : Moment} (valid : m.Valid) :
    (0 ≤ m.year ∧ m.year ≤ 9999) ↔ -62167219200 ≤ m.instant ∧ m.instant ≤ 253402300799 := by
  have bounds := valid.instant_bounds
  constructor
  · rintro ⟨low, high⟩
    have first := daysBeforeYear_nonneg low
    have last := daysBeforeYear_le (show m.year + 1 ≤ 10000 by omega)
    omega
  · rintro ⟨low, high⟩
    constructor
    · by_contra before
      have last := daysBeforeYear_nonpos (show m.year + 1 ≤ 0 by omega)
      omega
    · by_contra behind
      have first := le_daysBeforeYear (show 10000 ≤ m.year by omega)
      omega

def tmOf (m : Moment) : Tm where
  wday := m.weekday
  mday := m.day
  mon := m.month
  year := m.year - 1900
  hour := m.hour
  min := m.minute
  sec := m.second

def momentAt (t year : Int) (month day : Nat) : Moment where
  year := year
  month := month
  day := day
  hour := (t % 86400 / 3600).toNat
  minute := (t % 86400 % 3600 / 60).toNat
  second := (t % 86400 % 60).toNat

theorem momentAt_names {month day : Nat} (names : Names year month day (t / 86400 + 719528)) :
    (momentAt t year month day).Valid ∧ (momentAt t year month day).instant = t ∧
      tmOf (momentAt t year month day) =
        { wday := (t / 86400 + 4) % 7
          mday := day
          mon := month
          year := year - 1900
          hour := t % 86400 / 3600
          min := t % 86400 % 3600 / 60
          sec := t % 86400 % 60 } := by
  have today : (momentAt t year month day).epochDay = t / 86400 := by
    unfold Moment.epochDay
    have number : dayNumber (momentAt t year month day).year (momentAt t year month day).month
      (momentAt t year month day).day = t / 86400 + 719528 := names.number
    omega
  refine ⟨⟨names.within, names.first, names.last, ?_, ?_, ?_⟩, ?_, ?_⟩
  · change (t % 86400 / 3600).toNat < 24
    omega
  · change (t % 86400 % 3600 / 60).toNat < 60
    omega
  · change (t % 86400 % 60).toNat < 60
    omega
  · unfold Moment.instant
    rw [today]
    dsimp only [momentAt]
    omega
  · have week : (((momentAt t year month day).weekday : Nat) : Int) = (t / 86400 + 4) % 7 := by
      unfold Moment.weekday
      rw [today]
      omega
    unfold tmOf
    rw [week]
    dsimp only [momentAt]
    congr 1 <;> omega

theorem gmtimeR_eq (t : Int) : ∃ m : Moment, m.Valid ∧ m.instant = t ∧
    gmtimeR t =
      if -2147483648 ≤ m.year - 1900 ∧ m.year - 1900 ≤ 2147483647 then some (tmOf m) else none := by
  have doe : 0 ≤ (t / 86400 + 719468) % 146097 ∧ (t / 86400 + 719468) % 146097 < 146097 := by omega
  obtain ⟨cent, quad, year, day, march⟩ := exists_eraDay doe.1 doe.2
  have start := march.start
  obtain ⟨k, month⟩ := Int.eq_ofNat_of_zero_le (show 0 ≤ (5 * day + 2) / 153 by omega)
  have number : 146097 * ((t / 86400 + 719468) / 146097) + (t / 86400 + 719468) % 146097 + 60 =
    t / 86400 + 719528 := by omega
  unfold gmtimeR
  dsimp only
  rw [march.yearOfEra, march.dayOfYear, month]
  by_cases early : k < 10
  · have names := march.names_march ((t / 86400 + 719468) / 146097) month early
    rw [number] at names
    have first := names.first
    obtain ⟨valid, instant, fields⟩ := momentAt_names names
    refine ⟨_, valid, instant, ?_⟩
    have mday : day - (153 * k + 2) / 5 + 1 = ((day - (153 * k + 2) / 5 + 1).toNat : Int) := by omega
    have mon : (k + 3 - 1 : Int) = (k + 2 : Nat) := by omega
    rw [fields, if_pos (show (k : Int) < 10 by omega), if_neg (show ¬(k + 3 : Int) ≤ 2 by omega),
      Int.add_zero, ← mday, mon]
    rfl
  · have names := march.names_january ((t / 86400 + 719468) / 146097) month (by omega)
    rw [number] at names
    have first := names.first
    have within := names.within
    obtain ⟨valid, instant, fields⟩ := momentAt_names names
    refine ⟨_, valid, instant, ?_⟩
    have mday : day - (153 * k + 2) / 5 + 1 = ((day - (153 * k + 2) / 5 + 1).toNat : Int) := by omega
    have mon : (k - 9 - 1 : Int) = (k - 10 : Nat) := by omega
    have winter : (k - 9 : Int) ≤ 2 := by
      have last := march.day_le
      omega
    rw [fields, if_neg (show ¬(k : Int) < 10 by omega), if_pos winter, ← mday, mon]
    rfl

theorem padded_natCast (width n : Nat) :
    padded width n =
      List.replicate (width - (Nat.toDigits 10 n).length) '0' ++ Nat.toDigits 10 n := by
  have unsigned : ¬(n : Int) < 0 := by omega
  unfold padded
  dsimp only
  rw [if_neg unsigned, Int.natAbs_natCast]
  rfl

theorem padded_succ (width n : Nat) :
    padded (width + 1 + 1) n = padded (width + 1) (n / 10 : Nat) ++ [Nat.digitChar (n % 10)] := by
  rw [padded_natCast, padded_natCast]
  by_cases long : 10 ≤ n
  · rw [Nat.toDigits_of_base_le (by decide) long, List.length_append, List.length_singleton,
      ← List.append_assoc, Nat.add_sub_add_right]
  · have rest : n / 10 = 0 := by omega
    have last : n % 10 = n := by omega
    rw [rest, last, Nat.toDigits_of_lt_base (by omega), Nat.toDigits_of_lt_base (by decide),
      List.length_singleton, List.length_singleton, Nat.add_sub_cancel, Nat.add_sub_cancel,
      List.replicate_succ']
    rfl

theorem padded_one (digit : n < 10) : padded 1 n = [Nat.digitChar n] := by
  rw [padded_natCast, Nat.toDigits_of_lt_base digit]
  rfl

theorem padded_two (bound : n < 100) : padded 2 n = twoDigits n := by
  rw [padded_succ, padded_one (by omega)]
  rfl

theorem padded_four (bound : n < 10000) : padded 4 n = fourDigits n := by
  have hundreds : n / 10 / 10 = n / 100 := by omega
  have tens : n / 10 % 10 = n % 100 / 10 := by omega
  have ones : n % 10 = n % 100 % 10 := by omega
  rw [padded_succ, padded_succ, hundreds, padded_two (by omega), tens, ones, List.append_assoc]
  rfl

theorem dayNames_eq {i : Nat} (bound : i < 7) : dayNames.getD i [] = imfDay i := by
  revert i
  decide

theorem monthNames_eq {i : Nat} (bound : i < 12) : monthNames.getD i [] = imfMonth i := by
  revert i
  decide

theorem length_imfDay (i : Nat) : (imfDay i).length ≤ 3 := by
  unfold imfDay
  split <;> decide

theorem length_imfMonth (i : Nat) : (imfMonth i).length ≤ 3 := by
  unfold imfMonth
  split <;> decide

theorem length_imfFixdate (m : Moment) : (imfFixdate m).length ≤ 39 := by
  have day := length_imfDay m.weekday
  have month := length_imfMonth m.month
  simp only [imfFixdate, fourDigits, twoDigits, List.length_append, List.length_cons,
    List.length_nil]
  omega

theorem weekday_lt (m : Moment) : m.weekday < 7 := by
  unfold Moment.weekday
  omega

theorem formatImfFixdate_eq {m : Moment} (valid : m.Valid) (low : 0 ≤ m.year) (high : m.year ≤ 9999)
    {left : TmLeft} (read : tmRead left t = tmOf m) : formatImfFixdate left t = imfFixdate m := by
  have week := weekday_lt m
  have month := valid.month
  have day : m.day < 100 := by
    have last := valid.last
    have short := monthLength_le (isLeap m.year) m.month
    omega
  have hour := valid.hour
  have minute := valid.minute
  have second := valid.second
  have year : m.year - 1900 + 1900 = (m.year.toNat : Int) := by omega
  unfold formatImfFixdate
  rw [read]
  dsimp only [tmOf]
  rw [if_pos (show 0 ≤ (m.weekday : Int) ∧ (m.weekday : Int) < 7 by omega),
    if_pos (show 0 ≤ (m.month : Int) ∧ (m.month : Int) < 12 by omega), Int.toNat_natCast,
    Int.toNat_natCast, dayNames_eq week, monthNames_eq month, year, padded_four (by omega),
    padded_two day, padded_two (by omega), padded_two (by omega), padded_two (by omega)]
  exact List.take_of_length_le (length_imfFixdate m)

theorem DenotesInstant.range {text : Str} (denotes : DenotesInstant text t) :
    -62167219200 ≤ t ∧ t ≤ 253402300799 := by
  obtain ⟨m, valid, low, high, rfl, -⟩ := denotes
  exact (year_four_digits_iff valid).mp ⟨low, high⟩

theorem tmRead_of_range (range : -62167219200 ≤ t ∧ t ≤ 253402300799) (left : TmLeft) :
    ∃ m : Moment, m.Valid ∧ 0 ≤ m.year ∧ m.year ≤ 9999 ∧ m.instant = t ∧
      tmRead left t = tmOf m := by
  obtain ⟨m, valid, rfl, read⟩ := gmtimeR_eq t
  obtain ⟨low, high⟩ := (year_four_digits_iff valid).mpr range
  rw [if_pos (by omega)] at read
  exact ⟨m, valid, low, high, rfl, by rw [tmRead, read]; rfl⟩

theorem denotesInstant_of_range (range : -62167219200 ≤ t ∧ t ≤ 253402300799) (left : TmLeft) :
    DenotesInstant (formatImfFixdate left t) t := by
  obtain ⟨m, valid, low, high, rfl, read⟩ := tmRead_of_range range left
  exact ⟨m, valid, low, high, rfl, formatImfFixdate_eq valid low high read⟩

theorem yearSumFits_of_range (range : -62167219200 ≤ t ∧ t ≤ 253402300799) (left : TmLeft) :
    YearSumFits left t := by
  obtain ⟨m, -, low, high, -, read⟩ := tmRead_of_range range left
  have year : (tmRead left t).year = m.year - 1900 := by
    rw [read]
    rfl
  unfold YearSumFits
  omega

theorem expires_piece {c : Cookie} (obtained : c.Obtained) (renderable : c.Renderable) (left : TmLeft)
    (t : Int) : ∃ line, (c.withExpires t).toSetCookieHeader left = .ok line ∧
      (line.splitOn ';')[1]? = some (" Expires=".toList ++ formatImfFixdate left t) := by
  have set : (c.withExpires t).Obtained := obtained.set (.withExpires t)
  have still : (c.withExpires t).Renderable := renderable
  have split := set.splitOn_line still left
  exact ⟨_, Cookie.toSetCookieHeader_eq_pieces still left, by rw [split]; rfl⟩

theorem ExpiresProperly.range {left : TmLeft} {c : Cookie} (renderable : c.Renderable)
    (proper : ExpiresProperly left c t) : -62167219200 ≤ t ∧ t ≤ 253402300799 := by
  rcases proper with failed | ⟨⟨line, date, -, -, denotes⟩, -⟩
  · obtain ⟨e, failed⟩ := failed
    rw [Cookie.toSetCookieHeader_eq_pieces (show (c.withExpires t).Renderable from renderable)]
      at failed
    cases failed
  · exact denotes.range

/-- Only the years with four digits have a date that can be written. -/
theorem expiry_date_proper_iff {c : Cookie} (obtained : c.Obtained) (left : TmLeft) (t : Int) :
    ExpiresProperly left c t ↔ ¬c.Renderable ∨ -62167219200 ≤ t ∧ t ≤ 253402300799 := by
  rcases (c.withExpires t).toSetCookieHeader_cases left with ⟨renderable, -⟩ | ⟨bad, failed⟩
  · constructor
    · intro proper
      exact Or.inr (proper.range renderable)
    · rintro (bad | range)
      · exact absurd renderable bad
      · obtain ⟨line, ok, piece⟩ := expires_piece obtained renderable left t
        exact Or.inr ⟨⟨line, _, ok, piece, denotesInstant_of_range range left⟩,
          yearSumFits_of_range range left⟩
  · constructor
    · intro _
      exact Or.inl bad
    · intro _
      exact Or.inl failed

def plainCookie : Cookie := [.withName "a".toList, .withValue "1".toList].foldl Cookie.after {}

theorem plainCookie_obtained : plainCookie.Obtained :=
  (Cookie.Obtained.constructed.set (.withName "a".toList)).set (.withValue "1".toList)

theorem last_four_digit_second_is_proper :
    formatImfFixdate untouchedTm 253402300799 = "Fri, 31 Dec 9999 23:59:59 GMT".toList ∧
      ExpiresProperly untouchedTm plainCookie 253402300799 :=
  ⟨by decide, (expiry_date_proper_iff plainCookie_obtained _ _).mpr
    (Or.inr ⟨by decide, by decide⟩)⟩

/-- What glibc has written when it finds that the year of 4611686018427387904 does not
    fit: the day of the week, the time of day, and the year cut to an `int`. -/
def glibcTm : TmLeft := fun _ => { wday := 2, hour := 7, min := 45, sec := 4, year := 109624319 }

/-- A year with five digits, a failed conversion, whatever it has left in the fields, and
    the last second of the last year `gmtime_r` converts, where the sum of the year
    overflows. -/
theorem far_expiry_dates_are_not_proper :
    ((plainCookie.withExpires 253402300800).toSetCookieHeader glibcTm =
        .ok "a=1; Expires=Sat, 01 Jan 10000 00:00:00 GMT".toList ∧
      ∀ left, ¬ExpiresProperly left plainCookie 253402300800) ∧
    ((plainCookie.withExpires 4611686018427387904).toSetCookieHeader glibcTm =
        .ok "a=1; Expires=Tue, 00 Jan 109626219 07:45:04 GMT".toList ∧
      ∀ left, ¬ExpiresProperly left plainCookie 4611686018427387904) ∧
    ∀ left, ¬YearSumFits left 67768036191676799 := by
  have improper {t : Int} (far : 253402300799 < t) (left : TmLeft) :
      ¬ExpiresProperly left plainCookie t := by
    intro proper
    have range := proper.range (by decide)
    omega
  refine ⟨⟨rfl, improper (by decide)⟩, ⟨rfl, improper (by decide)⟩, ?_⟩
  intro left fits
  have year : (tmRead left 67768036191676799).year = 2147483647 := rfl
  exact absurd fits.2 (by omega)

end HttpServer
