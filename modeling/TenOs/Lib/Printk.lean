import Mathlib.Data.List.TakeWhile
import TenOs.Drivers.VideoBounds
import TenOs.Lib.Format

/-!
# `lib/print.c`: the kernel's log

`printk`, `printk_color` and `printk_core` as the calls of `put_char` that they make, in order.  A
console is the list of these calls, which `Screen.consoleStep` carries out.
-/

namespace TenOs.Lib

open TenOs.Base TenOs.Drivers

abbrev Console := List ConsoleCall

/-- The bytes of a text. -/
def ascii (s : String) : List u8 := s.toByteArray.data.toList.map UInt8.toBitVec

/-- A string literal. -/
def literal (s : String) (h : 0 ∉ ascii s) : CString :=
  CString.ofList (ascii s) fun _ hc hzero ↦ h (hzero ▸ hc)

/-- The string that starts with these bytes. -/
def cstr (l : List u8) : CString :=
  CString.ofList (l.takeWhile (· ≠ 0)) fun _ hc ↦ by simpa using List.mem_takeWhile_imp hc

/-- The calls for a text in one colour. -/
def putAll (attr : u8) (l : List u8) : Console := l.map fun c ↦ .putChar c attr

/-! ## Colours and levels -/

def VGA_COLOR_BLACK : u8 := 0
def VGA_COLOR_BLUE : u8 := 1
def VGA_COLOR_GREEN : u8 := 2
def VGA_COLOR_CYAN : u8 := 3
def VGA_COLOR_RED : u8 := 4
def VGA_COLOR_MAGENTA : u8 := 5
def VGA_COLOR_LIGHT_GREY : u8 := 7
def VGA_COLOR_LIGHT_RED : u8 := 12
def VGA_COLOR_YELLOW : u8 := 14

/-- The macro `VGA_COLOR(fg, bg)`. -/
def vgaColor (fg bg : u8) : u8 := (bg <<< 4) ||| fg

inductive LogLevel
  | debug | info | warn | err
  deriving DecidableEq

def LogLevel.num : LogLevel → Nat
  | debug => 0
  | info => 1
  | warn => 2
  | err => 3

def levelColors : LogLevel → u8
  | .debug => vgaColor VGA_COLOR_BLUE VGA_COLOR_BLACK
  | .info => vgaColor VGA_COLOR_LIGHT_GREY VGA_COLOR_BLACK
  | .warn => vgaColor VGA_COLOR_YELLOW VGA_COLOR_BLACK
  | .err => vgaColor VGA_COLOR_LIGHT_RED VGA_COLOR_BLACK

/-- `current_level`, and what the stack holds where the arrays of digits come to lie. -/
structure Printer where
  currentLevel : Nat
  stack : Bytes

namespace Printer

variable (pr : Printer)

/-- The characters `vformat_print` puts on the screen.  Every turn of its loop moves on in the format,
so one turn for each of its bytes and one for the NUL are enough. -/
def vformat (fmt : CString) (args : List VaArg) : List u8 :=
  ((vformatPrint pr.stack fmt.byte (fmt.len + 1) 0 args).map FormatRun.out).getD []

def printkColor (attr : u8) (fmt : CString) (args : List VaArg) : Console :=
  putAll attr (pr.vformat fmt args)

def printk (fmt : CString) (args : List VaArg) : Console := pr.printkColor WHITE_ON_BLACK fmt args

/-- `printk_core`. -/
def printkCore (level : LogLevel) (mod : CString) (fmt : CString) (args : List VaArg) : Console :=
  if level.num < pr.currentLevel then []
  else
    let color := levelColors level
    let front := if mod.len = 0 then [] else 0x5B :: (mod.chars ++ [0x5D, 0x3A])
    putAll color front ++ putAll color (pr.vformat fmt args) ++ putAll color [0x0A]

def setLogLevel (level : Nat) : Printer := { pr with currentLevel := level }

end Printer

/-! ## The text of a format -/

-- A turn takes at least one byte of the format, so the bytes that are left bound the turns.
theorem vformatPrint_of_stop {stack fmt : Bytes} {k m p : Nat} {args : List VaArg} {r : FormatRun}
    (h : vformatPrint stack fmt k p args = some r) (hk : r.stop < p + m) :
    vformatPrint stack fmt m p args = some r ∧ p ≤ r.stop := by
  induction k generalizing m p args r with
  | zero => cases h
  | succ k ih =>
    by_cases hzero : fmt p = 0
    · rw [vformatPrint_nul k hzero, Option.some.injEq] at h
      subst h
      obtain ⟨n, rfl⟩ : ∃ n, m = n + 1 := ⟨m - 1, by dsimp only at hk; omega⟩
      exact ⟨vformatPrint_nul n hzero args, Nat.le_refl p⟩
    · by_cases hpercent : fmt p = 0x25
      · rw [vformatPrint_percent k hpercent] at h
        obtain ⟨d, hd, hrest⟩ := Option.bind_eq_some_iff.mp h
        obtain ⟨r', hr', rfl⟩ := Option.map_eq_some_iff.mp hrest
        have hstop : r'.stop < p + m := hk
        have hle := (ih (m := r'.stop + 1) hr' (by omega)).2
        obtain ⟨n, rfl⟩ : ∃ n, m = n + 1 := ⟨m - 1, by omega⟩
        have hrun := (ih (m := n) hr' (by omega)).1
        refine ⟨?_, by change p ≤ r'.stop; omega⟩
        rw [vformatPrint_percent n hpercent, hd, Option.bind_some, hrun]
        rfl
      · rw [vformatPrint_char k hzero hpercent] at h
        obtain ⟨r', hr', rfl⟩ := Option.map_eq_some_iff.mp h
        have hstop : r'.stop < p + m := hk
        have hle := (ih (m := r'.stop + 1) hr' (by omega)).2
        obtain ⟨n, rfl⟩ : ∃ n, m = n + 1 := ⟨m - 1, by omega⟩
        have hrun := (ih (m := n) hr' (by omega)).1
        refine ⟨?_, by change p ≤ r'.stop; omega⟩
        rw [vformatPrint_char n hzero hpercent, hrun]
        rfl

namespace Printer

variable (pr : Printer)

-- A format that does not end in a `%` is printed item by item.
theorem vformat_eq {fmt : CString} {args : List VaArg} (hend : ¬ EndsInPercent fmt.chars)
    (hargs : Supplies (formatItems fmt.chars) args) :
    pr.vformat fmt args = formatText (printedText pr.stack) (formatItems fmt.chars) args := by
  obtain ⟨k, r, hr, hfollows⟩ := vformatPrint_follows pr.stack [] fmt.stringAt hend hargs
  rw [List.append_nil] at hr
  have hlen : fmt.chars.length = fmt.len := by simp [CString.chars]
  have hstop := hfollows.stop
  have hrun := (vformatPrint_of_stop (m := fmt.len + 1) hr (by omega)).1
  rw [vformat, hrun, Option.map_some, Option.getD_some]
  exact hfollows.out

end Printer

/-- What `%d` shows: the numeral, but for the least number only its sign. -/
def shownInt (v : u32) : List u8 := if v = 0x80000000 then [0x2D] else signedDecimal v.toInt

theorem printedText_int (stack : Bytes) (v : u32) :
    printedText stack .int (.int v) = shownInt v := by
  unfold shownInt
  split_ifs with hleast
  · have hput := (put_least stack (show Conversion.int.Least (.int v) from hleast)).1
    rw [printedText, hput, Option.getD_some]
  · exact printedText_eq stack trivial hleast

theorem printedText_string (stack : Bytes) (s : CString) :
    printedText stack .string (.str s) = s.chars := printedText_eq stack trivial fun h ↦ h

theorem chars_ofList (l : List u8) (h : ∀ c ∈ l, c ≠ 0) : (CString.ofList l h).chars = l := by
  refine List.ext_getElem (by simp [CString.chars, CString.ofList]) fun i hi hi' ↦ ?_
  simp [CString.chars, CString.ofList, hi']

theorem chars_literal (s : String) (h : 0 ∉ ascii s) : (literal s h).chars = ascii s :=
  chars_ofList (ascii s) _

/-! ## Formats with at most one conversion -/

theorem formatItems_cons {c : u8} (hc : c ≠ 0x25) (l : List u8) :
    formatItems (c :: l) = .char c :: formatItems l ∧ (EndsInPercent (c :: l) ↔ EndsInPercent l) := by
  cases l with
  | nil => exact ⟨rfl, iff_of_false hc fun h ↦ h⟩
  | cons d l =>
    rw [formatItems, if_neg hc, EndsInPercent, if_neg hc]
    exact ⟨rfl, Iff.rfl⟩

theorem formatItems_front {front : List u8} (h : 0x25 ∉ front) (l : List u8) :
    formatItems (front ++ l) = front.map .char ++ formatItems l ∧
      (EndsInPercent (front ++ l) ↔ EndsInPercent l) := by
  induction front with
  | nil => exact ⟨rfl, Iff.rfl⟩
  | cons c front ih =>
    obtain ⟨hitems, hend⟩ := ih fun hmem ↦ h (List.mem_cons_of_mem c hmem)
    obtain ⟨hcons, hendCons⟩ := formatItems_cons (List.ne_of_not_mem_cons h).symm (front ++ l)
    rw [List.cons_append, hcons, hitems]
    exact ⟨rfl, hendCons.trans hend⟩

theorem conversions_front (front : List u8) (items : List FormatItem) :
    conversions (front.map FormatItem.char ++ items) = conversions items := by
  induction front with
  | nil => rfl
  | cons c front ih => exact ih

theorem formatText_front (f : Conversion → VaArg → List u8) (front : List u8)
    (items : List FormatItem) (args : List VaArg) :
    formatText f (front.map FormatItem.char ++ items) args = front ++ formatText f items args := by
  induction front with
  | nil => rfl
  | cons c front ih => exact congrArg (c :: ·) ih

-- A format without a `%` is its own text.
theorem formatItems_plain {l : List u8} (h : 0x25 ∉ l) :
    formatItems l = l.map FormatItem.char ∧ ¬ EndsInPercent l := by
  obtain ⟨hitems, hend⟩ := formatItems_front h []
  rw [List.append_nil] at hitems hend
  exact ⟨hitems.trans (List.append_nil _), fun hl ↦ hend.mp hl⟩

namespace Printer

variable (pr : Printer)

theorem vformat_plain {fmt : CString} (h : 0x25 ∉ fmt.chars) :
    pr.vformat fmt [] = fmt.chars := by
  obtain ⟨hitems, hend⟩ := formatItems_plain h
  have hconv := conversions_front fmt.chars []
  have htext := formatText_front (printedText pr.stack) fmt.chars [] []
  rw [List.append_nil] at hconv htext
  have hargs : Supplies (formatItems fmt.chars) [] := by
    rw [Supplies, hitems, hconv]
    exact List.Forall₂.nil
  rw [pr.vformat_eq hend hargs, hitems, htext]
  exact List.append_nil _

theorem vformat_one {fmt : CString} {front back : List u8} {c : u8} {k : Conversion} {arg : VaArg}
    (hfmt : fmt.chars = front ++ 0x25 :: c :: back) (hc : conversionOf c = some k)
    (hfront : 0x25 ∉ front) (hback : 0x25 ∉ back) (harg : k.Takes arg) :
    pr.vformat fmt [arg] = front ++ printedText pr.stack k arg ++ back := by
  obtain ⟨hitems, hend⟩ := formatItems_front hfront (0x25 :: c :: back)
  obtain ⟨hitemsBack, hendBack⟩ := formatItems_plain hback
  have hitem : itemOf c = .conversion k := by rw [itemOf, hc]
  rw [formatItems, if_pos rfl, hitem, hitemsBack] at hitems
  rw [EndsInPercent, if_pos rfl] at hend
  have hconv := conversions_front back []
  have htext := formatText_front (printedText pr.stack) back [] []
  rw [List.append_nil] at hconv htext
  have hargs : Supplies (formatItems fmt.chars) [arg] := by
    rw [Supplies, hfmt, hitems, conversions_front, conversions, hconv]
    exact List.Forall₂.cons harg List.Forall₂.nil
  rw [pr.vformat_eq (fun h ↦ hendBack (hend.mp (hfmt ▸ h))) hargs, hfmt, hitems, formatText_front,
    formatText, htext, formatText, List.append_nil, List.append_assoc]

theorem printkColor_plain (attr : u8) {fmt : CString} (h : 0x25 ∉ fmt.chars) :
    pr.printkColor attr fmt [] = putAll attr fmt.chars := by
  rw [printkColor, pr.vformat_plain h]

theorem printkColor_string (attr : u8) {fmt : CString} {front back : List u8}
    (hfmt : fmt.chars = front ++ 0x25 :: 0x73 :: back) (hfront : 0x25 ∉ front)
    (hback : 0x25 ∉ back) (s : CString) :
    pr.printkColor attr fmt [.str s] = putAll attr (front ++ s.chars ++ back) := by
  have hargs : Conversion.string.Takes (.str s) := trivial
  rw [printkColor, pr.vformat_one hfmt rfl hfront hback hargs, printedText_string]

theorem printkColor_int (attr : u8) {fmt : CString} {front back : List u8}
    (hfmt : fmt.chars = front ++ 0x25 :: 0x64 :: back) (hfront : 0x25 ∉ front)
    (hback : 0x25 ∉ back) (v : u32) :
    pr.printkColor attr fmt [.int v] = putAll attr (front ++ shownInt v ++ back) := by
  have hargs : Conversion.int.Takes (.int v) := trivial
  rw [printkColor, pr.vformat_one hfmt rfl hfront hback hargs, printedText_int]

end Printer

theorem putAll_append (attr : u8) (l l' : List u8) :
    putAll attr (l ++ l') = putAll attr l ++ putAll attr l' := List.map_append

/-- A line in the log. -/
def Printer.logged (pr : Printer) (level : LogLevel) (mod message : String) : Console :=
  if level.num < pr.currentLevel then []
  else putAll (levelColors level)
    (ascii "[" ++ ascii mod ++ ascii "]:" ++ ascii message ++ ascii "\n")

theorem Printer.printkCore_literal (pr : Printer) (level : LogLevel) {mod message : String}
    (hne : ascii mod ≠ []) (hmod : 0 ∉ ascii mod) (h : 0 ∉ ascii message)
    (hplain : 0x25 ∉ ascii message) :
    pr.printkCore level (literal mod hmod) (literal message h) [] = pr.logged level mod message := by
  have hlen : ¬ (literal mod hmod).len = 0 := mt List.length_eq_zero_iff.mp hne
  have hmessage : pr.vformat (literal message h) [] = ascii message := by
    rw [pr.vformat_plain (by rw [chars_literal]; exact hplain), chars_literal]
  have hfront : (0x5B : u8) :: (ascii mod ++ [0x5D, 0x3A]) = ascii "[" ++ ascii mod ++ ascii "]:" := by
    rw [List.append_assoc]
    rfl
  rw [Printer.printkCore, Printer.logged]
  by_cases hlevel : level.num < pr.currentLevel
  · rw [if_pos hlevel, if_pos hlevel]
  · rw [if_neg hlevel, if_neg hlevel]
    simp only [if_neg hlen, chars_literal, hmessage, hfront, ← putAll_append]
    rfl

theorem putAll_flatMap {α : Type} (attr : u8) (l : List α) (f : α → List u8) :
    putAll attr (l.flatMap f) = l.flatMap fun a ↦ putAll attr (f a) := List.map_flatMap

theorem chars_cstr (l : List u8) : (cstr l).chars = l.takeWhile (· ≠ 0) := chars_ofList _ _

end TenOs.Lib
