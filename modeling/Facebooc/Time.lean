import Facebooc.Page

set_option autoImplicit false

namespace Facebooc

open CMemory

-- <time.h>: the fields of a time in the proleptic Gregorian calendar at UTC.
structure Tm where
  sec : Int
  min : Int
  hour : Int
  mday : Int
  mon : Int
  year : Int
  wday : Int
deriving DecidableEq, Repr

-- Days are counted in 400-year eras that begin on the first of March.
def gmtime (t : Int) : Tm :=
  let days := t / 86400
  let rest := t % 86400
  let era := (days + 719468) / 146097
  let dayOfEra := (days + 719468) % 146097
  let yearOfEra := (dayOfEra - dayOfEra / 1460 + dayOfEra / 36524 - dayOfEra / 146096) / 365
  let dayOfYear := dayOfEra - (365 * yearOfEra + yearOfEra / 4 - yearOfEra / 100)
  let month := (5 * dayOfYear + 2) / 153
  let mon := if month < 10 then month + 2 else month - 10
  ⟨rest % 60, rest / 60 % 60, rest / 3600, dayOfYear - (153 * month + 2) / 5 + 1, mon,
    yearOfEra + era * 400 + (if month < 10 then 0 else 1) - 1900, (days + 4) % 7⟩

def dayNames : List String := ["Sun", "Mon", "Tue", "Wed", "Thu", "Fri", "Sat"]

def monthNames : List String := ["Jan", "Feb", "Mar", "Apr", "May", "Jun", "Jul", "Aug", "Sep", "Oct", "Nov", "Dec"]

def nameAt (names : List String) (i : Int) : List UInt8 :=
  if 0 ≤ i then ascii (names.getD i.toNat "?") else ascii "?"

def twoColumns (pad : Char) (i : Int) : List UInt8 :=
  if 0 ≤ i ∧ i < 10 then chr pad :: decimal i else decimal i

def clock (tm : Tm) : List UInt8 :=
  twoColumns '0' tm.hour ++ ascii ":" ++ twoColumns '0' tm.min ++ ascii ":" ++ twoColumns '0' tm.sec

-- strftime of "%c" in the C locale, and of the format of Cookie_gen_expire.
def strftimeC (tm : Tm) : List UInt8 :=
  nameAt dayNames tm.wday ++ ascii " " ++ nameAt monthNames tm.mon ++ ascii " " ++ twoColumns ' ' tm.mday ++ ascii " " ++
    clock tm ++ ascii " " ++ decimal (tm.year + 1900)

def strftimeExpire (tm : Tm) : List UInt8 :=
  nameAt dayNames tm.wday ++ ascii ", " ++ twoColumns '0' tm.mday ++ ascii " " ++ nameAt monthNames tm.mon ++ ascii " " ++
    decimal (tm.year + 1900) ++ ascii " " ++ clock tm ++ ascii " GMT"

example : strftimeC (gmtime 951827696) = ascii "Tue Feb 29 12:34:56 2000" := by decide +kernel

end Facebooc
