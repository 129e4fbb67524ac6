import Threading.Proofs.Calendar
import Threading.Proofs.Text.Padded
import Threading.Proofs.Text.Splitting
import Threading.Record.Entry

/-!
# Time stamps

A time stamp is a row of numbers, each padded to a width and followed by a separator. It is
read back part by part, and what is read is a valid date and time of day that denote the
moment it was made of. Up to the year 9999 every part has its width, so time stamps are
compared part by part as well, and they have the order of the moments.
-/
namespace Threading.Calendar

open Text

/-! ## Rows of numbers -/

/-- The widths and separators of a row of numbers. -/
abbrev Pattern := List (Nat × Char)

namespace Pattern

variable {pattern : Pattern} {ns ms : List Nat}

/-- A row of numbers. -/
def write : Pattern → List Nat → List Char
  | (w, sep) :: pattern, n :: ns => (paddedDecimal w n).toList ++ sep :: write pattern ns
  | _, _ => []

/-- Reads a row of numbers, each up to its separator. -/
def read? : Pattern → List Char → Option (List Nat)
  | [], cs => if cs = [] then some [] else none
  | (_, sep) :: pattern, cs => do
    let (part, rest) ← splitFirst? [sep] cs
    let n ← digits? 10 part
    let ns ← read? pattern rest
    some (n :: ns)

/-- There is a number for each width, and it has at most as many digits. -/
def Fits (pattern : Pattern) (ns : List Nat) : Prop :=
  List.Forall₂ (fun p n => 0 < p.1 ∧ n < 10 ^ p.1) pattern ns

/-- The characters of a row whose numbers fit. -/
def width : Pattern → Nat
  | [] => 0
  | (w, _) :: pattern => w + 1 + width pattern

theorem read?_write (hlen : ns.length = pattern.length)
    (hsep : ∀ p ∈ pattern, p.2.isDigit = false) : pattern.read? (pattern.write ns) = some ns := by
  induction pattern generalizing ns with
  | nil =>
    obtain rfl := List.length_eq_zero_iff.1 hlen
    rfl
  | cons p pattern ih =>
    obtain ⟨n, ns, rfl⟩ := List.exists_cons_of_length_eq_add_one hlen
    obtain ⟨w, sep⟩ := p
    have hnot : sep ∉ (paddedDecimal w n).toList :=
      notMem_paddedDecimal (hsep (w, sep) List.mem_cons_self) w n
    have hrest := ih (Nat.succ.inj hlen) fun p hp => hsep p (List.mem_cons_of_mem _ hp)
    simp [write, read?, splitFirst?_singleton hnot, digits?_paddedDecimal, hrest]

theorem Fits.length_write (h : Fits pattern ns) : (pattern.write ns).length = pattern.width := by
  induction h with
  | nil => rfl
  | cons hn _ ih =>
    simp only [write, List.length_append, List.length_cons, length_paddedDecimal hn.1 hn.2, ih,
      width]
    omega

/-- Rows of numbers that fit have the order of the numbers, the first one first. -/
theorem Fits.write_lt_iff (hn : Fits pattern ns) (hm : Fits pattern ms) :
    pattern.write ns < pattern.write ms ↔ ns < ms := by
  induction hn generalizing ms with
  | nil =>
    obtain rfl := List.forall₂_nil_left_iff.1 hm
    simp [write]
  | @cons p n pattern ns hp _ ih =>
    obtain ⟨m, ms, hp', hms, rfl⟩ := List.forall₂_cons_left_iff.1 hm
    have hlen := (length_paddedDecimal hp.1 hp.2).trans (length_paddedDecimal hp'.1 hp'.2).symm
    rw [write, write, append_lt_append_iff hlen, paddedDecimal_lt_iff hp.1 hp.2 hp'.2,
      paddedDecimal_inj, List.cons_lt_cons_self, ih hms, List.cons_lt_cons_iff]

end Pattern

/-! ## The parts of a time stamp -/

/-- Year, month, day, hour, minute, second and thousandths. -/
def stampPattern : Pattern :=
  [(4, '-'), (2, '-'), (2, 'T'), (2, ':'), (2, ':'), (2, '.'), (3, 'Z')]

/-- A date and a time of day. -/
structure Moment where
  date : Date
  hour : Nat
  minute : Nat
  second : Nat
  millis : Nat
  deriving DecidableEq, Repr

namespace Moment

/-- Reads a time stamp. -/
def ofText? (text : String) : Option Moment := do
  match ← stampPattern.read? text.toList with
  | [year, month, day, hour, minute, second, millis] =>
    some ⟨⟨year, month, day⟩, hour, minute, second, millis⟩
  | _ => none

/-- The date is in the calendar and the time is a time of day. -/
def IsValid (m : Moment) : Prop :=
  m.date.IsValid ∧ m.hour < 24 ∧ m.minute < 60 ∧ m.second < 60 ∧ m.millis < 1000

/-- The seconds since 1 January 1970. -/
def seconds (m : Moment) : Int :=
  86400 * m.date.dayNumber + 3600 * m.hour + 60 * m.minute + m.second

end Moment

namespace Instant

variable {t u : Instant}

theorem year_ge (t : Instant) : 1970 ≤ t.date.year := by
  by_contra hless
  have hbefore : t.date.Before (Date.ofDays 0) := .inl (Int.not_le.1 hless)
  have hdays := before_ofDays_iff.1 hbefore
  omega

def moment (t : Instant) : Moment := ⟨t.date, t.hour, t.minute, t.second, t.millis.toNat⟩

/-- The numbers in the time stamp. -/
def parts (t : Instant) : List Nat :=
  [t.date.year.toNat, t.date.month.toNat, t.date.day.toNat, t.hour, t.minute, t.second,
    t.millis.toNat]

theorem toList_text (t : Instant) : t.text.toList = stampPattern.write t.parts := by
  have hdash : "-".toList = ['-'] := rfl
  have htime : "T".toList = ['T'] := rfl
  have hcolon : ":".toList = [':'] := rfl
  have hpoint : ".".toList = ['.'] := rfl
  have hzone : "Z".toList = ['Z'] := rfl
  simp only [stampPattern, parts, Pattern.write]
  simp only [text, String.toList_append, List.append_assoc]
  rw [hdash, htime, hcolon, hpoint, hzone]
  simp only [List.cons_append, List.nil_append]

/-- What is read is a valid date and time of day. -/
theorem isValid_moment (h : t.millis.toNat < 1000) : t.moment.IsValid := by
  refine ⟨isValid_ofDays _, ?_, ?_, ?_, h⟩
  · simp only [moment, hour]
    omega
  · simp only [moment, minute]
    omega
  · simp only [moment, second]
    omega

theorem seconds_moment (t : Instant) : t.moment.seconds = t.seconds.toNat := by
  simp only [Moment.seconds, moment, date, dayNumber_ofDays, hour, minute, second]
  omega

/-- A time stamp is read as the moment it was made of. -/
theorem ofText?_text (t : Instant) : Moment.ofText? t.text = some t.moment := by
  have hvalid := isValid_ofDays ((t.seconds.toNat / 86400 : Nat) : Int)
  have hyear := t.year_ge
  have hmonth := hvalid.1
  have hday := hvalid.2.2.1
  have hdate : (⟨t.date.year.toNat, t.date.month.toNat, t.date.day.toNat⟩ : Date) = t.date := by
    rw [Int.toNat_of_nonneg, Int.toNat_of_nonneg, Int.toNat_of_nonneg]
    · exact Int.le_trans (by decide) hday
    · exact Int.le_trans (by decide) hmonth
    · exact Int.le_trans (by decide) hyear
  have hread : stampPattern.read? (stampPattern.write t.parts) = some t.parts :=
    Pattern.read?_write rfl (by decide)
  rw [Moment.ofText?, toList_text, hread]
  simp only [parts, Option.bind_eq_bind, Option.bind_some, hdate, moment]

/-! ## The order of time stamps -/

/-- By seconds, then by thousandths. -/
def Earlier (t u : Instant) : Prop :=
  t.seconds < u.seconds ∨ t.seconds = u.seconds ∧ t.millis < u.millis

instance (t u : Instant) : Decidable (t.Earlier u) := inferInstanceAs (Decidable (_ ∨ _))

/-- Up to the year 9999 every part has its width. -/
theorem fits_parts (h : t.millis.toNat < 1000) (hyear : t.date.year ≤ 9999) :
    stampPattern.Fits t.parts := by
  obtain ⟨⟨-, hmonth, -, hday⟩, hhour, hminute, hsecond, -⟩ := isValid_moment h
  have hlength := monthLength_le t.date.year t.date.month
  simp only [moment] at hmonth hday hhour hminute hsecond
  simp only [Pattern.Fits, stampPattern, parts, List.forall₂_cons, List.forall₂_nil_left_iff]
  refine ⟨?_, ?_, ?_, ?_, ?_, ?_, ?_, trivial⟩ <;> omega

/-- Up to the year 9999 a time stamp has 24 characters. -/
theorem length_text (h : t.millis.toNat < 1000) (hyear : t.date.year ≤ 9999) :
    t.text.length = 24 := by
  rw [← String.length_toList, toList_text, (fits_parts h hyear).length_write]
  rfl

/-- The number of the day since 1 January 1970. -/
def day (t : Instant) : Nat := t.seconds.toNat / 86400

/-- The seconds since midnight. -/
def clock (t : Instant) : Nat := t.seconds.toNat % 86400

theorem earlier_iff : t.Earlier u ↔ t.day < u.day ∨
    t.day = u.day ∧ (t.clock < u.clock ∨ t.clock = u.clock ∧ t.millis < u.millis) := by
  rw [Earlier, UInt64.lt_iff_toNat_lt, ← UInt64.toNat_inj, day, day, clock, clock]
  by_cases hmillis : t.millis < u.millis <;>
    simp only [hmillis, and_true, and_false, or_false] <;> omega

theorem date_before_iff : t.date.Before u.date ↔ t.day < u.day :=
  before_ofDays_iff.trans Int.ofNat_lt

theorem date_eq_iff : t.date = u.date ↔ t.day = u.day := by
  constructor
  · intro h
    have hnumbers := congrArg Date.dayNumber h
    rw [date, date, dayNumber_ofDays, dayNumber_ofDays] at hnumbers
    exact Int.ofNat_inj.1 hnumbers
  · intro h
    exact congrArg (fun n : Nat => Date.ofDays n) h

/-- Hours, minutes and seconds are in the order of the seconds since midnight. -/
theorem time_lt_iff {p : Prop} : (t.hour < u.hour ∨ t.hour = u.hour ∧
    (t.minute < u.minute ∨ t.minute = u.minute ∧ (t.second < u.second ∨ t.second = u.second ∧ p))) ↔
      t.clock < u.clock ∨ t.clock = u.clock ∧ p := by
  simp only [hour, minute, second, clock]
  by_cases hp : p <;> simp only [hp, and_true, and_false, or_false] <;> omega

/-- Year, month and day are in the order of the days. -/
theorem date_lt_iff {p : Prop} : (t.date.year.toNat < u.date.year.toNat ∨
    t.date.year.toNat = u.date.year.toNat ∧ (t.date.month.toNat < u.date.month.toNat ∨
      t.date.month.toNat = u.date.month.toNat ∧ (t.date.day.toNat < u.date.day.toNat ∨
        t.date.day.toNat = u.date.day.toNat ∧ p))) ↔ t.day < u.day ∨ t.day = u.day ∧ p := by
  have ht : t.date.IsValid := isValid_ofDays _
  have hu : u.date.IsValid := isValid_ofDays _
  have htyear := t.year_ge
  have huyear := u.year_ge
  rw [← date_before_iff, ← date_eq_iff]
  generalize t.date = d at *
  generalize u.date = e at *
  obtain ⟨hmonth, -, hday, -⟩ := ht
  obtain ⟨hmonth', -, hday', -⟩ := hu
  cases d
  cases e
  simp only [Date.Before, Date.mk.injEq] at *
  by_cases hp : p <;> simp only [hp, and_true, and_false, or_false] <;> omega

/-- The numbers are in the order of the moments. -/
theorem parts_lt_iff (t u : Instant) : t.parts < u.parts ↔ t.Earlier u := by
  simp only [parts, List.cons_lt_cons_iff, date_lt_iff, time_lt_iff, earlier_iff, List.lt_irrefl,
    and_false, or_false, UInt32.lt_iff_toNat_lt]

/-- Up to the year 9999 time stamps have the order of the moments. -/
theorem text_lt_iff (ht : t.millis.toNat < 1000) (hu : u.millis.toNat < 1000)
    (htyear : t.date.year ≤ 9999) (huyear : u.date.year ≤ 9999) :
    t.text < u.text ↔ t.Earlier u := by
  rw [← parts_lt_iff, ← (fits_parts ht htyear).write_lt_iff (fits_parts hu huyear), ← toList_text,
    ← toList_text]
  rfl

/-- Different moments have different time stamps. -/
theorem text_inj : t.text = u.text ↔ t = u := by
  refine ⟨?_, congrArg text⟩
  intro h
  have hmoment : t.moment = u.moment := by
    have hread := ofText?_text t
    rw [h, ofText?_text u] at hread
    exact (Option.some.inj hread).symm
  have hseconds : t.seconds.toNat = u.seconds.toNat := by
    have hboth := congrArg Moment.seconds hmoment
    rw [seconds_moment, seconds_moment] at hboth
    exact Int.ofNat_inj.1 hboth
  have hmillis : t.millis.toNat = u.millis.toNat := congrArg Moment.millis hmoment
  cases t
  cases u
  exact congrArg₂ Instant.mk (UInt64.toNat_inj.1 hseconds) (UInt32.toNat_inj.1 hmillis)

/-- The record has the time stamp of a moment that is not after the year 9999. -/
def Stamps (t : Instant) (e : Record.Entry) : Prop :=
  e.timestamp = t.text ∧ t.millis.toNat < 1000 ∧ t.date.year ≤ 9999

theorem Stamps.timestamp_le_iff {d e : Record.Entry} (hd : t.Stamps d) (he : u.Stamps e) :
    d.timestamp ≤ e.timestamp ↔ ¬ u.Earlier t := by
  obtain ⟨hdtext, ht, htyear⟩ := hd
  obtain ⟨hetext, hu, huyear⟩ := he
  rw [hdtext, hetext, ← text_lt_iff hu ht huyear htyear, String.not_lt]

/-- Records that are sorted by their time stamps are sorted by their times. -/
theorem pairwise_mergeSort_timestamp {records : List (Instant × Record.Entry)}
    (h : ∀ r ∈ records, r.1.Stamps r.2) :
    (records.mergeSort fun a b => decide (a.2.timestamp ≤ b.2.timestamp)).Pairwise
      fun a b => ¬ b.1.Earlier a.1 := by
  let le (a b : Instant × Record.Entry) : Bool := decide (a.2.timestamp ≤ b.2.timestamp)
  have htrans (a b c) (hab : le a b) (hbc : le b c) : le a c :=
    decide_eq_true (String.le_trans (of_decide_eq_true hab) (of_decide_eq_true hbc))
  have htotal (a b) : le a b || le b a := by
    simpa [le] using String.le_total a.2.timestamp b.2.timestamp
  have hstamp (r) (hr : r ∈ records.mergeSort le) : r.1.Stamps r.2 := h r (List.mem_mergeSort.1 hr)
  refine (List.pairwise_mergeSort htrans htotal records).imp_of_mem fun {a b} ha hb hab => ?_
  exact ((hstamp a ha).timestamp_le_iff (hstamp b hb)).1 (of_decide_eq_true hab)

/-- A time stamp is read as a valid date and time of day that are the moment it was made of.
Up to the year 9999 time stamps have one length, they have the order of the moments, and
records are sorted by time when they are sorted by their time stamps. -/
theorem text_spec (t u : Instant) (records : List (Instant × Record.Entry))
    (ht : t.millis.toNat < 1000) (hu : u.millis.toNat < 1000)
    (hrecords : ∀ r ∈ records, r.1.Stamps r.2) :
    (∃ m, Moment.ofText? t.text = some m ∧ m.IsValid ∧ m.seconds = t.seconds.toNat ∧
      m.millis = t.millis.toNat) ∧
    (t.date.year ≤ 9999 → t.text.length = 24) ∧
    (t.date.year ≤ 9999 → u.date.year ≤ 9999 →
      (t.text < u.text ↔ t.Earlier u) ∧ (t.text = u.text ↔ t = u)) ∧
    (records.mergeSort fun a b => decide (a.2.timestamp ≤ b.2.timestamp)).Pairwise
      fun a b => ¬ b.1.Earlier a.1 := by
  refine ⟨⟨t.moment, ofText?_text t, isValid_moment ht, seconds_moment t, rfl⟩, length_text ht, ?_,
    pairwise_mergeSort_timestamp hrecords⟩
  exact fun htyear huyear => ⟨text_lt_iff ht hu htyear huyear, text_inj⟩

/-- The leap day of 2024 and the last moment of the year 9999. -/
theorem text_spec_leap_day :
    let t : Instant := ⟨1709210096, 7⟩
    let u : Instant := ⟨253402300799, 999⟩
    let e : Record.Entry := ⟨t.text, "a::b::001", .info, "start", none, none, none, none, none,
      none, none, none, none, none⟩
    (t.millis.toNat < 1000 ∧ u.millis.toNat < 1000 ∧ ∀ r ∈ [(t, e)], r.1.Stamps r.2) ∧
    (∃ m, Moment.ofText? t.text = some m ∧ m.IsValid ∧ m.seconds = 1709210096 ∧ m.millis = 7) ∧
    t.text.length = 24 ∧ t.text < u.text ∧ t.text ≠ u.text := by
  intro t u e
  have hyears : t.date.year ≤ 9999 ∧ u.date.year ≤ 9999 := by decide
  have hmillis : t.millis.toNat < 1000 ∧ u.millis.toNat < 1000 := by decide
  have hrecords : ∀ r ∈ [(t, e)], r.1.Stamps r.2 := by
    intro r hr
    obtain rfl := List.mem_singleton.1 hr
    exact ⟨rfl, hmillis.1, hyears.1⟩
  obtain ⟨hread, hlength, horder, -⟩ := text_spec t u [(t, e)] hmillis.1 hmillis.2 hrecords
  have hlt : t.text < u.text := (horder hyears.1 hyears.2).1.2 (by decide)
  exact ⟨⟨hmillis.1, hmillis.2, hrecords⟩, hread, hlength hyears.1, hlt, String.ne_of_lt hlt⟩

end Instant
end Threading.Calendar
