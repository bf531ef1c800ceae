import MiniControl.Calendar.Gregorian

/-!
# Timestamps of RFC 3339

A time is counted in nanoseconds since the start of the year 1 in UTC. Its text has the
date and the clock of a zone in fields of a fixed width, then the fraction of the second
without the zeros at its end, then the zone. Up to the second the order of the texts is
the order of the times. Within a second the text of a fraction may end where another one
goes on, and the sign of the zone is compared with a digit or with the decimal point.
-/

namespace Calendar

open Text

/-- The second of the wall clock in a zone with an offset from UTC in seconds. -/
def localSecond (offset t : ℤ) : ℤ := t / 1000000000 + offset

/-- The nanosecond within its second. -/
def nanosecond (t : ℤ) : ℕ := (t % 1000000000).toNat

/-- The year in four digits, the month and the day, with hyphens between them. -/
def dateText (date : Date) : List Char :=
  fixedDigits 4 date.year.toNat ++
    '-' :: (fixedDigits 2 date.month ++ '-' :: fixedDigits 2 date.day)

/-- The text of a second of the day. -/
def clockText (clock : ℕ) : List Char :=
  fixedDigits 2 (clock / 3600) ++
    ':' :: (fixedDigits 2 (clock / 60 % 60) ++ ':' :: fixedDigits 2 (clock % 60))

/-- The text of a second of the wall clock. -/
def secondText (second : ℤ) : List Char :=
  dateText (dateOf (second / 86400)) ++ 'T' :: clockText (second % 86400).toNat

/-- The digits of a count of nanoseconds up to the last one that is not zero. -/
def significantDigits (nanoseconds : ℕ) : List Char :=
  (fixedDigits 9 nanoseconds).rdropWhile (· == '0')

/-- The fraction of a second with its decimal point, and nothing for a full second. -/
def fraction (nanoseconds : ℕ) : List Char :=
  match significantDigits nanoseconds with
  | [] => []
  | digits => '.' :: digits

/-- The first character of a zone. -/
def zoneSign (offset : ℤ) : Char :=
  if offset = 0 then 'Z' else if offset.tdiv 60 < 0 then '-' else '+'

/-- The hours and minutes of a zone other than UTC. -/
def zoneDigits (offset : ℤ) : List Char :=
  if offset = 0 then []
  else
    let minutes := (offset.tdiv 60).natAbs
    fixedDigits 2 (minutes / 60) ++ ':' :: fixedDigits 2 (minutes % 60)

/-- The text of a time in a zone. -/
def formatRFC3339 (offset t : ℤ) : List Char :=
  secondText (localSecond offset t) ++
    (fraction (nanosecond t) ++ zoneSign offset :: zoneDigits offset)

/-- The year of a time in a zone. -/
def localYear (offset t : ℤ) : ℤ := (dateOf (localSecond offset t / 86400)).year

/-- The text of a time, if RFC 3339 has one: for years of four digits and offsets of less
than a day. -/
def strictRFC3339 (offset t : ℤ) : Option (List Char) :=
  if 0 ≤ localYear offset t ∧ localYear offset t ≤ 9999 ∧ (offset.tdiv 60).natAbs / 60 < 24 then
    some (formatRFC3339 offset t)
  else none

example : strictRFC3339 3600 63844804800120000000 =
    some "2024-02-29T13:00:00.12+01:00".toList := by decide

/-- The characters of timestamps. -/
def isStampChar (c : Char) : Bool :=
  c.isDigit || c == '-' || c == ':' || c == '.' || c == '+' || c == 'T' || c == 'Z'

/-- The decimal point is ranked before the digits, and they before the letters. The signs of
a zone are ranked anywhere else. -/
structure RanksStamps (rank : Char → ℕ) : Prop where
  digits : RanksDigits rank
  dot : ∀ d : Char, d.isDigit = true → rank '.' < rank d
  letters : ∀ letter ∈ ['T', 'Z'], ∀ d : Char, d.isDigit = true → rank d < rank letter
  signs : ∀ sign ∈ ['+', '-'], ∀ c : Char, c = '.' ∨ c.isDigit = true → rank sign ≠ rank c

section Seconds

variable {rank : Char → ℕ}

/-- Dates with years of four digits stand in the order of their days. -/
theorem collate_dateText (hrank : RanksDigits rank) {days days' : ℤ}
    (hyear : 0 ≤ (dateOf days).year ∧ (dateOf days).year ≤ 9999)
    (hyear' : 0 ≤ (dateOf days').year ∧ (dateOf days').year ≤ 9999) :
    collate rank (dateText (dateOf days)) (dateText (dateOf days')) = compare days days' := by
  obtain ⟨hmonth, hday⟩ := dateOf_lt days
  obtain ⟨hmonth', hday'⟩ := dateOf_lt days'
  have hyears : compare (dateOf days).year.toNat (dateOf days').year.toNat =
      compare (dateOf days).year (dateOf days').year := by
    rcases Int.lt_trichotomy (dateOf days).year (dateOf days').year with h | h | h
    · rw [Int.compare_eq_lt.mpr h, Nat.compare_eq_lt.mpr (by omega)]
    · rw [Int.compare_eq_eq.mpr h, Nat.compare_eq_eq.mpr (by omega)]
    · rw [Int.compare_eq_gt.mpr h, Nat.compare_eq_gt.mpr (by omega)]
  rw [dateText, dateText, hrank.collate_field (by omega) (by omega), collate_cons_self,
    hrank.collate_field hmonth hmonth', collate_cons_self, hrank.collate_fixedDigits hday hday',
    hyears, compare_dateOf days days']

/-- The text of a time of day is ordered like the time, as all of its numbers have fixed
widths. -/
theorem collate_clockText (hrank : RanksDigits rank) {clock clock' : ℕ} (h : clock < 86400)
    (h' : clock' < 86400) :
    collate rank (clockText clock) (clockText clock') = compare clock clock' := by
  have hhours : compare clock clock' = (compare (clock / 3600) (clock' / 3600)).then
      (compare (clock % 3600) (clock' % 3600)) :=
    compare_eq_then (by omega) (by omega) (by omega)
  have hminutes : compare (clock % 3600) (clock' % 3600) =
      (compare (clock / 60 % 60) (clock' / 60 % 60)).then (compare (clock % 60) (clock' % 60)) :=
    compare_eq_then (by omega) (by omega) (by omega)
  rw [clockText, clockText, hrank.collate_field (by omega) (by omega), collate_cons_self,
    hrank.collate_field (by omega) (by omega), collate_cons_self,
    hrank.collate_fixedDigits (by omega) (by omega), hhours, hminutes]

/-- Texts of seconds in years of four digits stand in the order of the seconds. -/
theorem collate_secondText (hrank : RanksDigits rank) {second second' : ℤ}
    (hyear : 0 ≤ (dateOf (second / 86400)).year ∧ (dateOf (second / 86400)).year ≤ 9999)
    (hyear' : 0 ≤ (dateOf (second' / 86400)).year ∧ (dateOf (second' / 86400)).year ≤ 9999) :
    collate rank (secondText second) (secondText second') = compare second second' := by
  have hdays : compare second second' = (compare (second / 86400) (second' / 86400)).then
      (compare (second % 86400).toNat (second' % 86400).toNat) :=
    compare_eq_then (by omega) (by omega) (by omega)
  rw [secondText, secondText, collate_append (by simp [dateText]),
    collate_dateText hrank hyear hyear', collate_cons_self,
    collate_clockText hrank (by omega) (by omega), hdays]

end Seconds

section Fractions

variable {rank : Char → ℕ} {m n : ℕ} {c : Char}

/-- What is cut off from the digits are zeros. -/
theorem exists_zeros (n : ℕ) :
    ∃ count, fixedDigits 9 n = significantDigits n ++ List.replicate count '0' := by
  have hzeros : ∀ d ∈ (fixedDigits 9 n).rtakeWhile (· == '0'), d = '0' := by
    intro d hd
    have hzero := List.mem_rtakeWhile_imp (p := (· == '0')) hd
    exact beq_iff_eq.mp hzero
  refine ⟨((fixedDigits 9 n).rtakeWhile (· == '0')).length, ?_⟩
  rw [← List.eq_replicate_of_mem hzeros]
  exact List.rdropWhile_append_rtakeWhile.symm

/-- With zeros up to the full width the digits stand in the order of the numbers. -/
theorem exists_padding (hrank : RanksDigits rank) (hm : m < 1000000000) (hn : n < 1000000000) :
    ∃ count count', (significantDigits m).length + count = 9 ∧
      (significantDigits n).length + count' = 9 ∧
      collate rank (significantDigits m ++ List.replicate count '0')
        (significantDigits n ++ List.replicate count' '0') = compare m n := by
  obtain ⟨count, hdigits⟩ := exists_zeros m
  obtain ⟨count', hdigits'⟩ := exists_zeros n
  have hlength := congrArg List.length hdigits
  have hlength' := congrArg List.length hdigits'
  simp only [length_fixedDigits, List.length_append, List.length_replicate] at hlength hlength'
  refine ⟨count, count', hlength.symm, hlength'.symm, ?_⟩
  rw [← hdigits, ← hdigits']
  exact hrank.collate_fixedDigits hm hn

/-- What is left of a fraction without its trailing zeros are digits. -/
theorem isDigit_of_mem_significantDigits (hc : c ∈ significantDigits n) : c.isDigit = true :=
  isDigit_of_mem_fixedDigits ((List.rdropWhile_prefix _ _).mem hc)

/-- The digits that are left determine the number. -/
theorem eq_of_significantDigits (hrank : RanksDigits rank) (hm : m < 1000000000)
    (hn : n < 1000000000) (h : significantDigits m = significantDigits n) : m = n := by
  obtain ⟨count, count', hcount, hcount', hcompare⟩ := exists_padding hrank hm hn
  obtain rfl : count = count' := by
    rw [h] at hcount
    omega
  rw [h, collate_self] at hcompare
  exact Nat.compare_eq_eq.mp hcompare.symm

/-- A fraction that goes on is larger. -/
theorem lt_of_significantDigits (hrank : RanksDigits rank) (hm : m < 1000000000)
    (hn : n < 1000000000) (h : significantDigits m ++ [c] <+: significantDigits n) : m < n := by
  obtain ⟨rest, hrest⟩ := h
  rw [List.append_assoc] at hrest
  have hne : m ≠ n := by
    rintro rfl
    have hlength := congrArg List.length hrest
    simp at hlength
  obtain ⟨count, count', hcount, hcount', hcompare⟩ := exists_padding hrank hm hn
  -- behind the digits of the first number are zeros, and digits of the second one
  have hdigits : ∀ d ∈ [c] ++ rest ++ List.replicate count' '0', d.isDigit = true := by
    intro d hd
    rcases List.mem_append.mp hd with hd | hd
    · exact isDigit_of_mem_significantDigits (n := n) (hrest ▸ List.mem_append_right _ hd)
    · rw [List.eq_of_mem_replicate hd]
      rfl
  have hlength : count = ([c] ++ rest ++ List.replicate count' '0').length := by
    rw [← hrest] at hcount'
    simp only [List.length_append, List.length_replicate] at hcount' ⊢
    omega
  rw [← hrest, List.append_assoc, collate_append_left, hlength] at hcompare
  have hle : compare m n ≠ .gt := hcompare ▸ hrank.collate_zeros_ne_gt hdigits
  have hnot : ¬n < m := fun hlt => hle (Nat.compare_eq_gt.mpr hlt)
  omega

/-- A character of a fraction is the decimal point or a digit. -/
theorem point_or_digit_of_mem_fraction (hc : c ∈ fraction n) : c = '.' ∨ c.isDigit = true := by
  rw [fraction] at hc
  split at hc
  · exact absurd hc List.not_mem_nil
  · rcases List.mem_cons.mp hc with rfl | hc
    · exact .inl rfl
    · exact .inr (isDigit_of_mem_significantDigits hc)

/-- A fraction is empty or begins with the decimal point. -/
theorem fraction_cases (n : ℕ) :
    significantDigits n = [] ∧ fraction n = [] ∨
      significantDigits n ≠ [] ∧ fraction n = '.' :: significantDigits n := by
  rw [fraction]
  split
  · next h => exact .inl ⟨h, rfl⟩
  · next h => exact .inr ⟨h, rfl⟩

/-- A fraction of a second determines the nanosecond, although its trailing zeros are
dropped. -/
theorem eq_of_fraction (hrank : RanksDigits rank) (hm : m < 1000000000) (hn : n < 1000000000)
    (h : fraction m = fraction n) : m = n := by
  refine eq_of_significantDigits hrank hm hn ?_
  rcases fraction_cases m with ⟨hm, hm'⟩ | ⟨hm, hm'⟩ <;>
    rcases fraction_cases n with ⟨hn, hn'⟩ | ⟨hn, hn'⟩ <;> rw [hm', hn'] at h
  · rw [hm, hn]
  · cases h
  · cases h
  · exact List.tail_eq_of_cons_eq h

/-- A fraction whose text goes on is larger. -/
theorem lt_of_fraction (hrank : RanksDigits rank) (hm : m < 1000000000) (hn : n < 1000000000)
    (h : fraction m ++ [c] <+: fraction n) : m < n := by
  have hne : m ≠ n := by
    rintro rfl
    have hlength := h.length_le
    rw [List.length_append, List.length_singleton] at hlength
    omega
  rcases fraction_cases m with ⟨hzero, _⟩ | ⟨_, hm'⟩
  · have hm0 : m = 0 := eq_of_significantDigits hrank hm (by omega) (hzero.trans (by decide))
    omega
  · rcases fraction_cases n with ⟨_, hn'⟩ | ⟨_, hn'⟩ <;> rw [hm', hn'] at h
    · exact absurd (List.prefix_nil.mp h) (List.cons_ne_nil _ _)
    · exact lt_of_significantDigits hrank hm hn (List.cons_prefix_cons.mp h).2

/-- A fraction that is written at all has its point and some digits. -/
theorem fraction_eq_of_ne_nil (h : fraction n ≠ []) : fraction n = '.' :: significantDigits n := by
  rcases fraction_cases n with ⟨_, hn⟩ | ⟨_, hn⟩
  · exact absurd hn h
  · exact hn

/-- Where no fraction goes on, their texts are in the order of the numbers. -/
theorem collate_fraction (hrank : RanksDigits rank) (hm : m < 1000000000) (hn : n < 1000000000)
    (hmn : ∀ c, ¬fraction m ++ [c] <+: fraction n) (hnm : ∀ c, ¬fraction n ++ [c] <+: fraction m)
    (zone : List Char) :
    collate rank (fraction m ++ zone) (fraction n ++ zone) = compare m n := by
  rcases exists_first_difference (fraction m) (fraction n) with
    heq | ⟨shared, c, d, us, vs, hne, hus, hvs⟩ | ⟨c, h⟩ | ⟨c, h⟩
  · rw [heq, collate_self, Nat.compare_eq_eq.mpr (eq_of_fraction hrank hm hn heq)]
  · have hm' := fraction_eq_of_ne_nil (n := m) (by simp [hus])
    have hn' := fraction_eq_of_ne_nil (n := n) (by simp [hvs])
    rw [hm'] at hus
    rw [hn'] at hvs
    cases shared with
    | nil => exact absurd ((List.cons.inj hus).1.symm.trans (List.cons.inj hvs).1) hne
    | cons point shared =>
      have hus' : significantDigits m = shared ++ c :: us := (List.cons.inj hus).2
      have hvs' : significantDigits n = shared ++ d :: vs := (List.cons.inj hvs).2
      have hranks : rank c ≠ rank d := by
        refine hrank.ne ?_ ?_ hne
        · exact isDigit_of_mem_significantDigits (n := m) (by simp [hus'])
        · exact isDigit_of_mem_significantDigits (n := n) (by simp [hvs'])
      obtain ⟨count, count', _, _, hcompare⟩ := exists_padding hrank hm hn
      rw [hus', hvs', List.append_assoc, List.append_assoc, List.cons_append, List.cons_append,
        collate_of_ne _ _ _ hranks] at hcompare
      rw [hm', hn', hus', hvs', List.cons_append, List.cons_append, collate_cons_self,
        List.append_assoc, List.append_assoc, List.cons_append, List.cons_append,
        collate_of_ne _ _ _ hranks, hcompare]
  · exact absurd h (hmn c)
  · exact absurd h (hnm c)

end Fractions

section Characters

/-- A number of fixed width has characters of a timestamp only. -/
theorem all_fixedDigits (width n : ℕ) : (fixedDigits width n).all isStampChar = true := by
  rw [List.all_eq_true]
  intro c hc
  simp [isStampChar, isDigit_of_mem_fixedDigits hc]

/-- So has a fraction of a second, with or without its point. -/
theorem all_fraction (n : ℕ) : (fraction n).all isStampChar = true := by
  rw [List.all_eq_true]
  intro c hc
  rcases point_or_digit_of_mem_fraction hc with rfl | hdigit
  · rfl
  · simp [isStampChar, hdigit]

/-- And so has the offset of a time zone. -/
theorem all_zone (offset : ℤ) :
    (zoneSign offset :: zoneDigits offset).all isStampChar = true := by
  rw [zoneSign, zoneDigits]
  split
  · rfl
  · have hsign : isStampChar (if offset.tdiv 60 < 0 then '-' else '+') = true := by
      split <;> rfl
    simp only [List.all_cons, List.all_append, all_fixedDigits, hsign]
    rfl

/-- A timestamp has only the characters of timestamps. -/
theorem all_of_strictRFC3339 {offset t : ℤ} {text : List Char}
    (h : strictRFC3339 offset t = some text) : text.all isStampChar = true := by
  obtain ⟨_, htext⟩ := Option.ite_none_right_eq_some.mp h
  cases htext
  rw [formatRFC3339, List.all_append, List.all_append, all_fraction, all_zone, secondText, dateText,
    clockText]
  simp only [List.all_append, List.all_cons, all_fixedDigits]
  rfl

end Characters

/-- Two times of one second, where the text of the second one has a character in its
fraction behind the end of the first one's. -/
def Continues (t u : ℤ) (c : Char) : Prop :=
  t / 1000000000 = u / 1000000000 ∧ fraction (nanosecond t) ++ [c] <+: fraction (nanosecond u)

section Stamps

variable {rank : Char → ℕ} {offset t u : ℤ} {c : Char} {text text' : List Char}

/-- A second has a thousand million nanoseconds. -/
theorem nanosecond_lt (t : ℤ) : nanosecond t < 1000000000 := by
  rw [nanosecond]
  omega

/-- The time whose text goes on is the later one. -/
theorem Continues.lt (hrank : RanksDigits rank) (h : Continues t u c) : t < u := by
  obtain ⟨hsecond, hfraction⟩ := h
  have hlt := lt_of_fraction hrank (nanosecond_lt t) (nanosecond_lt u) hfraction
  rw [nanosecond, nanosecond] at hlt
  omega

/-- The first character behind the end of the shorter fraction is a point or a digit. -/
theorem Continues.point_or_digit (h : Continues t u c) : c = '.' ∨ c.isDigit = true :=
  point_or_digit_of_mem_fraction (h.2.mem (List.mem_append_right _ List.mem_cons_self))

/-- The letter of UTC is ranked behind every character by which a fraction goes on. -/
theorem RanksStamps.lt_zoneSign_zero (hrank : RanksStamps rank) (h : Continues t u c) :
    rank c < rank (zoneSign 0) := by
  rcases h.point_or_digit with rfl | hc
  · exact (hrank.dot '0' rfl).trans (hrank.letters 'Z' (by decide) '0' rfl)
  · exact hrank.letters 'Z' (by decide) c hc

/-- The sign of a zone is told apart from what can follow a fraction in another text. -/
theorem RanksStamps.zoneSign_ne (hrank : RanksStamps rank) (offset : ℤ) (h : Continues t u c) :
    rank (zoneSign offset) ≠ rank c := by
  by_cases hutc : offset = 0
  · subst hutc
    exact (hrank.lt_zoneSign_zero h).ne'
  · rw [zoneSign, if_neg hutc]
    split
    · exact hrank.signs '-' (by decide) c h.point_or_digit
    · exact hrank.signs '+' (by decide) c h.point_or_digit

/-- Times are ordered by their second in any time zone first, and then by their nanosecond. -/
theorem compare_second_nanosecond (offset t u : ℤ) :
    compare t u = (compare (localSecond offset t) (localSecond offset u)).then
      (compare (nanosecond t) (nanosecond u)) := by
  rw [localSecond, localSecond, nanosecond, nanosecond]
  exact compare_eq_then (by omega) (by omega) (by omega)

/-- The texts of two times are compared by the second and by what follows it. -/
theorem collate_of_strictRFC3339 (hrank : RanksDigits rank)
    (ht : strictRFC3339 offset t = some text) (hu : strictRFC3339 offset u = some text') :
    collate rank text text' = (compare (localSecond offset t) (localSecond offset u)).then
      (collate rank (fraction (nanosecond t) ++ zoneSign offset :: zoneDigits offset)
        (fraction (nanosecond u) ++ zoneSign offset :: zoneDigits offset)) := by
  obtain ⟨⟨hyear, hyear', _⟩, htext⟩ := Option.ite_none_right_eq_some.mp ht
  obtain ⟨⟨hyearU, hyearU', _⟩, htext'⟩ := Option.ite_none_right_eq_some.mp hu
  cases htext
  cases htext'
  have hlength (s : ℤ) : (secondText s).length = 19 := by
    simp [secondText, dateText, clockText]
  rw [formatRFC3339, formatRFC3339, collate_append ((hlength _).trans (hlength _).symm),
    collate_secondText hrank ⟨hyear, hyear'⟩ ⟨hyearU, hyearU'⟩]

/-- The sign of the zone is compared with the character by which a fraction goes on. -/
theorem Continues.collate_text (hrank : RanksStamps rank) (h : Continues t u c)
    (ht : strictRFC3339 offset t = some text) (hu : strictRFC3339 offset u = some text') :
    collate rank text text' = compare (rank (zoneSign offset)) (rank c) := by
  have hne := hrank.zoneSign_ne offset h
  obtain ⟨hsecond, rest, hrest⟩ := h
  have hsame : compare (localSecond offset t) (localSecond offset u) = .eq := by
    rw [localSecond, localSecond, hsecond]
    exact Int.compare_eq_eq.mpr rfl
  rw [collate_of_strictRFC3339 hrank.digits ht hu, hsame, Ordering.eq_then, ← hrest,
    List.append_assoc, List.append_assoc, List.singleton_append, collate_of_ne _ _ _ hne]

/-- Where no fraction goes on, texts stand in the order of the times. -/
theorem collate_eq_compare (hrank : RanksDigits rank) (ht : strictRFC3339 offset t = some text)
    (hu : strictRFC3339 offset u = some text') (htu : ∀ c, ¬Continues t u c)
    (hut : ∀ c, ¬Continues u t c) :
    collate rank text text' = compare t u := by
  rw [collate_of_strictRFC3339 hrank ht hu, compare_second_nanosecond offset t u]
  cases hcompare : compare (localSecond offset t) (localSecond offset u) with
  | lt => rw [Ordering.lt_then, Ordering.lt_then]
  | gt => rw [Ordering.gt_then, Ordering.gt_then]
  | eq =>
    have hsecond : t / 1000000000 = u / 1000000000 := by
      have hsame := Int.compare_eq_eq.mp hcompare
      rw [localSecond, localSecond] at hsame
      omega
    rw [Ordering.eq_then, Ordering.eq_then]
    exact collate_fraction hrank (nanosecond_lt t) (nanosecond_lt u)
      (fun c hc => htu c ⟨hsecond, hc⟩) (fun c hc => hut c ⟨hsecond.symm, hc⟩) _

/-- A text goes on by one character only. -/
theorem Continues.unique {d : Char} (hc : Continues t u c) (hd : Continues t u d) : c = d := by
  have hprefix := List.prefix_of_prefix_length_le hc.2 hd.2 (by simp)
  exact (List.cons_prefix_cons.mp ((List.prefix_append_right_inj _).mp hprefix)).1

/-- Where a fraction goes on, the sign of the zone decides whether the order of the texts is
that of the times. -/
theorem Continues.collate_text_iff (hrank : RanksStamps rank) (hc : Continues t u c)
    (ht : strictRFC3339 offset t = some text) (hu : strictRFC3339 offset u = some text') :
    collate rank text text' = compare t u ↔
      (∀ c, Continues t u c → rank (zoneSign offset) < rank c) ∧
      (∀ c, Continues u t c → rank (zoneSign offset) < rank c) := by
  have hlt := hc.lt hrank.digits
  rw [hc.collate_text hrank ht hu, Int.compare_eq_lt.mpr hlt, Nat.compare_eq_lt]
  constructor
  · intro hsign
    refine ⟨fun d hd => hc.unique hd ▸ hsign, fun d hd => ?_⟩
    exact absurd (hd.lt hrank.digits) hlt.asymm
  · intro hsign
    exact hsign.1 c hc

/-- The order of two texts is that of their times exactly when the sign of the zone is
ranked before every character by which one of the fractions goes on. -/
theorem collate_eq_compare_iff (hrank : RanksStamps rank) (ht : strictRFC3339 offset t = some text)
    (hu : strictRFC3339 offset u = some text') :
    collate rank text text' = compare t u ↔
      (∀ c, Continues t u c → rank (zoneSign offset) < rank c) ∧
      (∀ c, Continues u t c → rank (zoneSign offset) < rank c) := by
  by_cases htu : ∃ c, Continues t u c
  · obtain ⟨c, hc⟩ := htu
    exact hc.collate_text_iff hrank ht hu
  · by_cases hut : ∃ c, Continues u t c
    · obtain ⟨c, hc⟩ := hut
      have hswap : collate rank text text' = (collate rank text' text).swap :=
        Std.OrientedCmp.eq_swap
      have hswap' : compare t u = (compare u t).swap := Std.OrientedCmp.eq_swap
      rw [hswap, hswap', Ordering.swap_inj, and_comm]
      exact hc.collate_text_iff hrank hu ht
    · have hequal := collate_eq_compare hrank.digits ht hu (not_exists.mp htu) (not_exists.mp hut)
      exact ⟨fun _ => ⟨fun c hc => absurd ⟨c, hc⟩ htu, fun c hc => absurd ⟨c, hc⟩ hut⟩,
        fun _ => hequal⟩

/-- A zone has one text for each time. -/
theorem collate_eq_eq_iff (hrank : RanksStamps rank) (ht : strictRFC3339 offset t = some text)
    (hu : strictRFC3339 offset u = some text') :
    collate rank text text' = .eq ↔ t = u := by
  constructor
  · intro heq
    have htu (c : Char) : ¬Continues t u c := fun hc => by
      rw [hc.collate_text hrank ht hu, Nat.compare_eq_eq] at heq
      exact hrank.zoneSign_ne offset hc heq
    have hut (c : Char) : ¬Continues u t c := fun hc => by
      rw [Std.OrientedCmp.eq_comm, hc.collate_text hrank hu ht, Nat.compare_eq_eq] at heq
      exact hrank.zoneSign_ne offset hc heq
    rw [collate_eq_compare hrank.digits ht hu htu hut] at heq
    exact Int.compare_eq_eq.mp heq
  · rintro rfl
    cases Option.some.inj (ht.symm.trans hu)
    exact collate_self text

end Stamps

end Calendar
