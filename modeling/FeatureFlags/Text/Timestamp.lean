import FeatureFlags.Text.Digits

/-!
# Time stamps

An instant as date and time in UTC: `2024-02-29T12:00:00Z`, with three digits of a second if it is
not a whole one.

* `Timestamp.civil`   the date of a day, counted from 1970-01-01, in the Gregorian calendar;
* `Timestamp.text`    the written form; years beyond four digits, and before the year 0, have a
                      sign.
-/

namespace FeatureFlags

/-- Milliseconds since 1970-01-01T00:00:00Z. -/
structure Timestamp where
  millis : Int

namespace Timestamp

structure Date where
  year : Int
  month : Nat
  day : Nat

/-- The calendar repeats after 400 years, 146097 days.  Years are counted from the first of March,
so that the leap day is the last one, and months of the year so counted begin on day `(153 m + 2) /
5`. -/
def civil (days : Int) : Date :=
  let z := days + 719468
  let era := z.fdiv 146097
  let doe := (z.fmod 146097).toNat
  let yoe := (doe - doe / 1460 + doe / 36524 - doe / 146096) / 365
  let doy := doe - (365 * yoe + yoe / 4 - yoe / 100)
  let m := (5 * doy + 2) / 153
  let day := doy - (153 * m + 2) / 5 + 1
  let month := if m < 10 then m + 3 else m - 9
  let year := era * 400 + yoe + (if month ≤ 2 then 1 else 0)
  ⟨year, month, day⟩

def yearChars (year : Int) : List Char :=
  if 0 ≤ year ∧ year ≤ 9999 then Text.padded 4 year.toNat
  else (if year < 0 then '-' else '+') :: Text.padded 4 year.natAbs

def text (t : Timestamp) : String :=
  let date := civil (t.millis.fdiv 86400000)
  let ms := (t.millis.fmod 86400000).toNat
  let s := ms / 1000
  let millis := if ms % 1000 = 0 then [] else '.' :: Text.padded 3 (ms % 1000)
  String.ofList (yearChars date.year ++ '-' :: Text.padded 2 date.month ++
    '-' :: Text.padded 2 date.day ++ 'T' :: Text.padded 2 (s / 3600) ++
    ':' :: Text.padded 2 (s / 60 % 60) ++ ':' :: Text.padded 2 (s % 60) ++ millis ++ ['Z'])

end Timestamp

end FeatureFlags
