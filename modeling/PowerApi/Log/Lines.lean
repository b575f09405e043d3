import PowerApi.Common.UidSet
import PowerApi.Lib.Calendar
import PowerApi.Lib.CString
import PowerApi.Lib.Scanf
import PowerApi.Log.Format

open Calendar CString Scanf
open pwrapi.permissions (isspace isDigit_not_isspace)

namespace pwrapi.log

abbrev NUM_LOG_TYPES : ℕ := 11

/-- The names of the message types, in the order of `log.h`. -/
def typetxt : List (List Char) :=
  [['C', 'O', 'N', 'S'], ['L', 'O', 'G', 'R'], ['M', 'E', 'S', 'G'], ['C', 'R', 'I', 'T'], ['W', 'A', 'R', 'N'],
    ['F', 'A', 'I', 'L'], ['T', 'R', 'C', '1'], ['T', 'R', 'C', '2'], ['T', 'R', 'C', '3'], ['D', 'B', 'G', '1'],
    ['D', 'B', 'G', '2']]

/-- A number as it is stored in an `int`. -/
def int_of (n : Int) : Int := n.bmod (2 ^ 32)

/-- `none` where the table is read before its first entry. -/
def fmttype (msgtype : Int) (siz : ℕ) : Option (List Char) :=
  if msgtype < NUM_LOG_TYPES then if 0 ≤ msgtype then typetxt[msgtype.toNat]? else none
  else some (snprintf siz (['U', 'S', 'R'] ++ print_int 0 msgtype))

/-- The index of the name, or the number of a user-defined type, or -1. -/
def parsetype (txt : List Char) : Int :=
  match typetxt.findIdx? fun name => strcmp txt name = 0 with
  | some i => i
  | none =>
    match sscanf isspace [.literal 'U', .literal 'S', .literal 'R', .int] txt with
    | [.int i] => int_of i
    | _ => -1

/-- What `TIME_WRITE_FMT` prints, which is `"%Y/%m/%d-%H:%M:%S"`. -/
def print_time (tm : Tm) : List Char :=
  print_int 0 (tm.tm_year + 1900) ++ '/' :: (print_int 2 (tm.tm_mon + 1) ++ '/' :: (print_int 2 tm.tm_mday ++ '-' ::
    (print_int 2 tm.tm_hour ++ ':' :: (print_int 2 tm.tm_min ++ ':' :: print_int 2 tm.tm_sec))))

/-- `strftime` with `TIME_WRITE_FMT`. What is left in a buffer that is too small is not defined. -/
def strftime (maxsize : ℕ) (tm : Tm) : Option (List Char) :=
  if (print_time tm).length < maxsize then some (print_time tm) else none

/-- The string from an index of a message on, with its end below a number of bytes further. -/
def string_from (message : ℕ → UInt8) : ℕ → ℕ → Option (List Char)
  | 0, _ => none
  | size + 1, i =>
    if message i = 0 then some []
    else (string_from message size (i + 1)).map fun rest => Char.ofNat (message i).toNat :: rest

/-- The text of a message, which has to end within the array. -/
def Msgblk.text (msg : Msgblk) : Option (List Char) := string_from msg.message MAX_MSG_SIZE 0

/-- The name and the number of an application, from a context. -/
structure App where
  appname : List Char
  apppid : Int
  deriving DecidableEq, Repr

/-- The application of a line: that of the context, if there is one. -/
def app_of (ctx : Option App) (getpid : Int) : App := ctx.getD ⟨['n', 'o', '-', 'a', 'p', 'p'], getpid⟩

/-- What `fprintf` prints with `"%s.%06ld %s %d %d %s %s"`. -/
def print_line (buf : List Char) (tv_usec : Int) (app : App) (tid : Int) (txt text : List Char) : List Char :=
  buf ++ '.' :: (print_int 6 tv_usec ++ ' ' :: (app.appname ++ ' ' :: (print_int 0 app.apppid ++ ' ' ::
    (print_int 0 tid ++ ' ' :: (txt ++ ' ' :: text)))))

/-- The line that `_msgwrite` writes. It is not defined where the time cannot be broken down, or
the text does not end. -/
def msgwrite (zone : Zone) (ctx : Option App) (getpid : Int) (msg : Msgblk) : Option (List Char) := do
  let tm ← zone.localtime_r msg.tv.tv_sec
  let buf ← strftime 64 tm
  let txt ← fmttype (int_of msg.msgtype) 16
  let text ← msg.text
  return print_line buf msg.tv.tv_usec (app_of ctx getpid) (int_of msg.tid) txt text

/-- What `_msgparse` passes back, with the pointer to the text. -/
structure Parsed where
  tv : Timeval
  appname : List Char
  pid : Int
  tid : Int
  msgtype : Int
  text : List Char
  deriving DecidableEq, Repr

/-- What follows the first space. -/
def skip_token : List Char → Option (List Char)
  | [] => none
  | c :: rest => if c = ' ' then some rest else skip_token rest

def skip_tokens : ℕ → List Char → Option (List Char)
  | 0, p => some p
  | n + 1, p =>
    match skip_token p with
    | none => none
    | some p => skip_tokens n p

/-- The format of the header, which begins with `TIME_PARSE_FMT`. -/
def header_fmt : List Directive :=
  [.int, .literal '/', .int, .literal '/', .int, .literal '-', .int, .literal ':', .int, .literal ':', .int,
    .literal '.', .int, .space, .word 15, .space, .int, .space, .int, .space, .word 15, .space]

/-- `_msgparse` with a pointer for every field. `isdst` is what the memory of the broken-down
time holds before. -/
def msgparse (zone : Zone) (isdst : Int) (msg : List Char) : Option Parsed :=
  match skip_tokens 5 msg with
  | none => none
  | some p =>
    match sscanf isspace header_fmt msg with
    | [.int year, .int mon, .int mday, .int hour, .int min, .int sec, .int usec, .word lappname, .int lpid, .int ltid,
        .word lmsgtxt] =>
      let ltm : Tm :=
        { tm_year := int_of year
          tm_mon := int_of mon
          tm_mday := int_of mday
          tm_hour := int_of hour
          tm_min := int_of min
          tm_sec := int_of sec
          tm_isdst := isdst }
      some
        { tv := { tv_sec := (zone.mktime ltm).getD (-1), tv_usec := int_of usec }
          appname := lappname
          pid := int_of lpid
          tid := int_of ltid
          msgtype := parsetype lmsgtxt
          text := p }
    | _ => none

/-- A name without white space that fits its array, and a number of an `int`. -/
structure App.Plain (app : App) : Prop where
  nonempty : app.appname ≠ []
  length_le : app.appname.length ≤ 15
  no_space : ∀ c ∈ app.appname, isspace c = false
  pid : -2 ^ 31 ≤ app.apppid ∧ app.apppid < 2 ^ 31

/-- A type of a message that is not negative, and microseconds of an `int`. -/
structure Msgblk.InRange (msg : Msgblk) : Prop where
  msgtype : 0 ≤ msg.msgtype ∧ msg.msgtype < 2 ^ 31
  usec : -2 ^ 31 ≤ msg.tv.tv_usec ∧ msg.tv.tv_usec < 2 ^ 31

/-- The line of a message is read as what it was written from. -/
def RoundTrips (zone : Zone) (isdst : Int) (ctx : Option App) (getpid : Int) (msg : Msgblk) : Prop :=
  ∃ line text, msgwrite zone ctx getpid msg = some line ∧ msg.text = some text ∧
    msgparse zone isdst line = some
      { tv := msg.tv
        appname := (app_of ctx getpid).appname
        pid := (app_of ctx getpid).apppid
        tid := int_of msg.tid
        msgtype := msg.msgtype
        text := text }

section Pieces

variable {rest word : List Char} {directives : List Directive}

theorem int_of_eq {n : Int} (h : -2 ^ 31 ≤ n ∧ n < 2 ^ 31) : int_of n = n := by
  apply Int.bmod_eq_of_le
  · exact h.1
  · exact h.2

theorem int_of_wrap {n : Int} (h : 2 ^ 31 ≤ n ∧ n < 2 ^ 31 + 2 ^ 31) : int_of n = n - 2 ^ 32 := by
  rw [int_of, ← Int.sub_bmod_right]
  apply Int.bmod_eq_of_le
  · omega
  · omega

theorem int_of_bounds (n : Int) : -2 ^ 31 ≤ int_of n ∧ int_of n < 2 ^ 31 :=
  ⟨@Int.le_bmod n (2 ^ 32) (by decide), @Int.bmod_lt n (2 ^ 32) (by decide)⟩

theorem isspace_minus : isspace '-' = false := by decide

theorem isspace_of_isDigit (c : Char) (hc : c.isDigit) : isspace c = false := isDigit_not_isspace hc

theorem no_space_of_all (h : (word.all fun c => !isspace c) = true) : ∀ c ∈ word, isspace c = false := by
  intro c hc
  simpa using List.all_eq_true.mp h c hc

theorem isspace_print_int {width : ℕ} {n : Int} : ∀ c ∈ print_int width n, isspace c = false := by
  intro c hc
  rcases mem_print_int hc with rfl | hdigit
  · exact isspace_minus
  · exact isDigit_not_isspace hdigit

theorem print_int_ne_nil {width : ℕ} {n : Int} : print_int width n ≠ [] :=
  List.append_ne_nil_of_right_ne_nil _ padded_digits_ne_nil

theorem skip_token_append (hword : ∀ c ∈ word, isspace c = false) : skip_token (word ++ ' ' :: rest) = some rest := by
  induction word with
  | nil => rfl
  | cons c word ih =>
    obtain ⟨hc, hword⟩ := List.forall_mem_cons.mp hword
    have hne : c ≠ ' ' := by
      rintro rfl
      exact absurd hc (by decide)
    rw [List.cons_append, skip_token, if_neg hne, ih hword]

/-- A number is read up to a character that is no digit. -/
theorem sscanf_print_int {width : ℕ} {c : Char} (n : Int) (hc : c.isDigit = false) :
    sscanf isspace (.int :: directives) (print_int width n ++ c :: rest) =
      .int n :: sscanf isspace directives (c :: rest) := by
  apply sscanf_int isspace_minus isspace_of_isDigit
  intro d hd
  obtain rfl := Option.mem_some.mp hd
  exact hc

/-- A space is read before a word. -/
theorem sscanf_space_append (hne : word ≠ []) (hword : ∀ c ∈ word, isspace c = false) :
    sscanf isspace (.space :: directives) (' ' :: (word ++ rest)) = sscanf isspace directives (word ++ rest) := by
  obtain ⟨c, tail, rfl⟩ := List.exists_cons_of_ne_nil hne
  apply sscanf_space (by decide)
  intro d hd
  obtain rfl := Option.mem_some.mp hd
  exact hword _ List.mem_cons_self

theorem sscanf_word_append {width : ℕ} (hne : word ≠ []) (hword : ∀ c ∈ word, isspace c = false)
    (hfits : word.length ≤ width) :
    sscanf isspace (.word width :: directives) (word ++ ' ' :: rest) =
      .word word :: sscanf isspace directives (' ' :: rest) := by
  apply sscanf_word hne hfits hword
  intro d hd
  obtain rfl := Option.mem_some.mp hd
  decide

end Pieces

section Types

variable {msgtype : Int}

/-- The names of the types are words that fit, and are read as the types. -/
theorem typetxt_parsed {i : ℕ} (hi : i < NUM_LOG_TYPES) : ∃ txt, typetxt[i]? = some txt ∧ txt ≠ [] ∧
    txt.length ≤ 15 ∧ (∀ c ∈ txt, isspace c = false) ∧ parsetype txt = i := by
  have hall : ((List.range NUM_LOG_TYPES).all fun i => typetxt[i]?.any fun txt => !txt.isEmpty &&
      decide (txt.length ≤ 15) && txt.all (fun c => !isspace c) && decide (parsetype txt = i)) = true := by decide
  have hentry := List.all_eq_true.mp hall i (List.mem_range.mpr hi)
  obtain ⟨txt, htxt, hchecks⟩ := (Option.any_eq_true _ _).mp hentry
  simp only [Bool.and_eq_true, decide_eq_true_eq] at hchecks
  obtain ⟨⟨⟨hne, hlength⟩, hspace⟩, hparsed⟩ := hchecks
  exact ⟨txt, htxt, by simpa using hne, hlength, no_space_of_all hspace, hparsed⟩

/-- A name of a user-defined type is none of the table. -/
theorem typetxt_findIdx_user (digits : List Char) :
    (typetxt.findIdx? fun name => strcmp (['U', 'S', 'R'] ++ digits) name = 0) = none := by
  rw [List.findIdx?_eq_none_iff]
  intro name hname
  rw [decide_eq_false_iff_not, strcmp_eq_zero]
  rintro rfl
  have hfirst : ∀ name ∈ typetxt, name.head? ≠ some 'U' := by decide
  exact hfirst _ hname rfl

theorem fmttype_user (hmsgtype : ¬msgtype < NUM_LOG_TYPES) (hlt : msgtype < 2 ^ 31) :
    fmttype msgtype 16 = some (['U', 'S', 'R'] ++ print_int 0 msgtype) ∧
      (['U', 'S', 'R'] ++ print_int 0 msgtype).length ≤ 15 := by
  have hlength := @length_print_int_le 0 10 msgtype (by decide) (by omega)
  have hfits : (['U', 'S', 'R'] ++ print_int 0 msgtype).length ≤ 14 := by
    rw [List.length_append]
    simp only [List.length_cons, List.length_nil]
    omega
  refine ⟨?_, by omega⟩
  rw [fmttype, if_neg hmsgtype, snprintf_eq_self (by omega)]

/-- Every type that is not negative is written as a word that fits, and read as it is. -/
theorem fmttype_parsed (hpos : 0 ≤ msgtype) (hlt : msgtype < 2 ^ 31) :
    ∃ txt, fmttype msgtype 16 = some txt ∧ txt ≠ [] ∧ txt.length ≤ 15 ∧ (∀ c ∈ txt, isspace c = false) ∧
      parsetype txt = msgtype := by
  by_cases hknown : msgtype < NUM_LOG_TYPES
  · obtain ⟨txt, htxt, hne, hlength, hspace, hparsed⟩ := @typetxt_parsed msgtype.toNat (by omega)
    rw [fmttype, if_pos hknown, if_pos hpos]
    exact ⟨txt, htxt, hne, hlength, hspace, by rw [hparsed, Int.toNat_of_nonneg hpos]⟩
  · obtain ⟨hfmt, hlength⟩ := fmttype_user hknown hlt
    refine ⟨_, hfmt, by simp, hlength, ?_, ?_⟩
    · intro c hc
      rcases List.mem_append.mp hc with husr | hnumber
      · exact no_space_of_all (by decide) c husr
      · exact isspace_print_int c hnumber
    · have hscan := @sscanf_int isspace 0 [] [] isspace_minus isspace_of_isDigit (by simp) msgtype
      rw [List.append_nil] at hscan
      rw [parsetype, typetxt_findIdx_user]
      simp only [List.cons_append, List.nil_append, sscanf_literal, hscan]
      exact int_of_eq ⟨by omega, hlt⟩

end Types

section Lines

variable {zone : Zone} {tm : Tm}

/-- A time is written as a word that fits its buffer. -/
theorem strftime_eq (h : tm.InRange 11) : strftime 64 tm = some (print_time tm) := by
  obtain ⟨hsec, hmin, hhour, hmday, hmon, hyear⟩ := h
  have hlyear := @length_print_int_le 0 10 (tm.tm_year + 1900) (by decide) (by omega)
  have hlmon := @length_print_int_le 2 2 (tm.tm_mon + 1) (by decide) (by omega)
  have hlmday := @length_print_int_le 2 2 tm.tm_mday (by decide) (by omega)
  have hlhour := @length_print_int_le 2 2 tm.tm_hour (by decide) (by omega)
  have hlmin := @length_print_int_le 2 2 tm.tm_min (by decide) (by omega)
  have hlsec := @length_print_int_le 2 2 tm.tm_sec (by decide) (by omega)
  refine if_pos ?_
  simp only [print_time, List.length_append, List.length_cons]
  omega

theorem isspace_print_time : ∀ c ∈ print_time tm, isspace c = false := by
  intro c hc
  simp only [print_time, List.mem_append, List.mem_cons] at hc
  rcases hc with h | rfl | h | rfl | h | rfl | h | rfl | h | rfl | h
  all_goals first | exact isspace_print_int c h | decide

/-- The time that the parser makes of the fields that are printed. -/
def parsed_tm (tm : Tm) (isdst : Int) : Tm :=
  { tm with tm_year := int_of (tm.tm_year + 1900), tm_mon := tm.tm_mon + 1, tm_isdst := isdst }

/-- The parser takes the year from its number and not from 1900 on, and the month from 1 and
not from 0 on. Such a time is another one. -/
theorem mktime_parsed_tm_ne {t : Int} (h : zone.localtime_r t = some tm) (isdst : Int) :
    (zone.mktime (parsed_tm tm isdst)).getD (-1) ≠ t := by
  obtain ⟨hsec, hmin, hhour, hmday, hmon, hyear⟩ := zone.inRange t tm h
  have hrange : tm.InRange 12 := ⟨hsec, hmin, hhour, hmday, ⟨hmon.1, by omega⟩, hyear⟩
  have hparsed : (parsed_tm tm isdst).InRange 12 :=
    ⟨hsec, hmin, hhour, hmday, ⟨by simp only [parsed_tm]; omega, by simp only [parsed_tm]; omega⟩, int_of_bounds _⟩
  have htime := zone.mktime_localtime_r t tm h
  cases hmktime : zone.mktime (parsed_tm tm isdst) with
  | none =>
    -- only at the end of the range, which is far from the second before the Epoch
    rintro rfl
    have hepoch := zone.epoch tm h
    have hyear' : (parsed_tm tm isdst).tm_year = tm.tm_year + 1900 := int_of_eq (by omega)
    have hsome := zone.mktime_isSome _ hparsed (by omega) (by omega)
    rw [hmktime] at hsome
    cases hsome
  | some t' =>
    rw [Option.getD_some]
    by_cases hfits : tm.tm_year + 1900 < 2 ^ 31
    · have hyear' : (parsed_tm tm isdst).tm_year = tm.tm_year + 1900 := int_of_eq (by omega)
      exact Int.ne_of_gt (zone.mktime_lt _ _ _ _ hrange hparsed (by omega) htime hmktime)
    · have hyear' : (parsed_tm tm isdst).tm_year = tm.tm_year + 1900 - 2 ^ 32 := int_of_wrap (by omega)
      exact Int.ne_of_lt (zone.mktime_lt _ _ _ _ hparsed hrange (by omega) hmktime htime)

/-- The header of a line is read field by field. -/
theorem sscanf_header {txt text : List Char} {app : App} (happ : app.Plain) (hne : txt ≠ []) (hlength : txt.length ≤ 15)
    (hspace : ∀ c ∈ txt, isspace c = false) (tm : Tm) (usec tid : Int) :
    sscanf isspace header_fmt (print_line (print_time tm) usec app tid txt text) =
      [.int (tm.tm_year + 1900), .int (tm.tm_mon + 1), .int tm.tm_mday, .int tm.tm_hour, .int tm.tm_min, .int tm.tm_sec,
        .int usec, .word app.appname, .int app.apppid, .int tid, .word txt] := by
  have hdigits (n : Int) := @print_int_ne_nil 0 n
  simp only [print_line, print_time, List.append_assoc, List.cons_append]
  rw [header_fmt, sscanf_print_int _ (by decide), sscanf_literal, sscanf_print_int _ (by decide), sscanf_literal,
    sscanf_print_int _ (by decide), sscanf_literal, sscanf_print_int _ (by decide), sscanf_literal,
    sscanf_print_int _ (by decide), sscanf_literal, sscanf_print_int _ (by decide), sscanf_literal,
    sscanf_print_int _ (by decide), sscanf_space_append happ.nonempty happ.no_space,
    sscanf_word_append happ.nonempty happ.no_space happ.length_le,
    sscanf_space_append (hdigits _) isspace_print_int, sscanf_print_int _ (by decide),
    sscanf_space_append (hdigits _) isspace_print_int, sscanf_print_int _ (by decide),
    sscanf_space_append hne hspace, sscanf_word_append hne hspace hlength, sscanf, sscanf]

/-- The text begins behind the fifth token. -/
theorem skip_tokens_line {buf txt text : List Char} {app : App} (happ : app.Plain)
    (hbuf : ∀ c ∈ buf, isspace c = false) (hspace : ∀ c ∈ txt, isspace c = false) (usec tid : Int) :
    skip_tokens 5 (print_line buf usec app tid txt text) = some text := by
  have htime : ∀ c ∈ buf ++ '.' :: print_int 6 usec, isspace c = false := by
    intro c hc
    rcases List.mem_append.mp hc with hmem | hmem
    · exact hbuf c hmem
    · rcases List.mem_cons.mp hmem with rfl | hnumber
      · decide
      · exact isspace_print_int c hnumber
  rw [print_line, ← List.cons_append, ← List.append_assoc]
  simp only [skip_tokens, skip_token_append htime, skip_token_append happ.no_space,
    skip_token_append isspace_print_int, skip_token_append hspace]

end Lines

/-- A message with a time that can be broken down, and a text that ends, is written and read with
all its fields as they were but for the seconds. -/
theorem msgparse_of_msgwrite {zone : Zone} {tm : Tm} {ctx : Option App} {getpid : Int} {msg : Msgblk}
    {text : List Char} (happ : (app_of ctx getpid).Plain) (hmsg : msg.InRange)
    (htm : zone.localtime_r msg.tv.tv_sec = some tm) (htext : msg.text = some text) (isdst : Int) :
    ∃ line tv_sec, msgwrite zone ctx getpid msg = some line ∧ tv_sec ≠ msg.tv.tv_sec ∧
      msgparse zone isdst line = some
        { tv := { msg.tv with tv_sec }
          appname := (app_of ctx getpid).appname
          pid := (app_of ctx getpid).apppid
          tid := int_of msg.tid
          msgtype := msg.msgtype
          text } := by
  have hrange := zone.inRange _ _ htm
  obtain ⟨hpos, hlt⟩ := hmsg.msgtype
  have hstored : int_of msg.msgtype = msg.msgtype := int_of_eq (by omega)
  obtain ⟨txt, hfmt, hne, hlength, hspace, htype⟩ := fmttype_parsed hpos hlt
  have hwrite : msgwrite zone ctx getpid msg =
      some (print_line (print_time tm) msg.tv.tv_usec (app_of ctx getpid) (int_of msg.tid) txt text) := by
    simp [msgwrite, htm, strftime_eq hrange, hstored, hfmt, htext]
  refine ⟨_, (zone.mktime (parsed_tm tm isdst)).getD (-1), hwrite, mktime_parsed_tm_ne htm isdst, ?_⟩
  rw [msgparse, skip_tokens_line happ isspace_print_time hspace, sscanf_header happ hne hlength hspace]
  obtain ⟨hsec, hmin, hhour, hmday, hmon, _⟩ := hrange
  have hltm : Tm.mk (int_of tm.tm_sec) (int_of tm.tm_min) (int_of tm.tm_hour) (int_of tm.tm_mday)
      (int_of (tm.tm_mon + 1)) (int_of (tm.tm_year + 1900)) isdst = parsed_tm tm isdst := by
    rw [parsed_tm, int_of_eq (by omega), int_of_eq (by omega), int_of_eq (by omega), int_of_eq (by omega),
      @int_of_eq (tm.tm_mon + 1) (by omega)]
  simp only [hltm, int_of_eq hmsg.usec, int_of_eq happ.pid, int_of_eq (int_of_bounds _), htype]

/-- The line of a message is read with all its fields as they were but for the seconds, which are
those of another date. So no line is read as what it was written from. -/
theorem msgparse_msgwrite (zone : Zone) (isdst : Int) (ctx : Option App) (getpid : Int) (msg : Msgblk)
    (happ : (app_of ctx getpid).Plain) (hmsg : msg.InRange) :
    (∀ tm text, zone.localtime_r msg.tv.tv_sec = some tm → msg.text = some text →
      ∃ line tv_sec, msgwrite zone ctx getpid msg = some line ∧ tv_sec ≠ msg.tv.tv_sec ∧
        msgparse zone isdst line = some
          { tv := { msg.tv with tv_sec }
            appname := (app_of ctx getpid).appname
            pid := (app_of ctx getpid).apppid
            tid := int_of msg.tid
            msgtype := msg.msgtype
            text }) ∧
      ¬RoundTrips zone isdst ctx getpid msg := by
  refine ⟨fun tm text htm htext => msgparse_of_msgwrite happ hmsg htm htext isdst, ?_⟩
  rintro ⟨line, text, hline, htext, hparsed⟩
  cases htm : zone.localtime_r msg.tv.tv_sec with
  | none =>
    rw [msgwrite, htm] at hline
    cases hline
  | some tm =>
    obtain ⟨line', tv_sec, hline', hne, hparsed'⟩ := msgparse_of_msgwrite happ hmsg htm htext isdst
    obtain rfl := Option.some.inj (hline.symm.trans hline')
    have hsame := Option.some.inj (hparsed'.symm.trans hparsed)
    exact hne (congrArg (fun parsed => parsed.tv.tv_sec) hsame)

/-- A message of a user-defined type at five microseconds after the Epoch. -/
def hello : Msgblk where
  msglen := 40
  txtlen := 2
  msgtype := 42
  tid := 9
  tv := ⟨0, 5⟩
  message i := [104, 105].getD i 0

def pwrd : App := ⟨['p', 'w', 'r', 'd'], 7⟩

def hello_line : List Char :=
  ['1', '9', '7', '0', '/', '0', '1', '/', '0', '1', '-', '0', '0', ':', '0', '0', ':', '0', '0', '.', '0', '0', '0', '0',
    '0', '5', ' ', 'p', 'w', 'r', 'd', ' ', '7', ' ', '9', ' ', 'U', 'S', 'R', '4', '2', ' ', 'h', 'i']

theorem msgwrite_hello : msgwrite utc (some pwrd) 0 hello = some hello_line := by decide +kernel

theorem msgparse_msgwrite_hello :
    (∃ line tv_sec, msgwrite utc (some pwrd) 0 hello = some line ∧ tv_sec ≠ 0 ∧
      msgparse utc 0 line = some
        { tv := { tv_sec, tv_usec := 5 }
          appname := ['p', 'w', 'r', 'd']
          pid := 7
          tid := int_of 9
          msgtype := 42
          text := ['h', 'i'] }) ∧
      ¬RoundTrips utc 0 (some pwrd) 0 hello := by
  have happ : (app_of (some pwrd) 0).Plain := ⟨by decide, by decide, no_space_of_all (by decide), by decide⟩
  have hmsg : hello.InRange := ⟨by decide, by decide⟩
  have htm : utc.localtime_r hello.tv.tv_sec = some (gmtime 0) := by decide +kernel
  have htext : hello.text = some ['h', 'i'] := by decide +kernel
  obtain ⟨hparsed, hnot⟩ := msgparse_msgwrite utc 0 (some pwrd) 0 hello happ hmsg
  exact ⟨hparsed _ _ htm htext, hnot⟩

/-- The first second of 1970 is read as the first one of February 3870. -/
theorem hello_parsed_in_3870 :
    msgparse utc 0 hello_line = some
        { tv := ⟨59960908800, 5⟩
          appname := ['p', 'w', 'r', 'd']
          pid := 7
          tid := 9
          msgtype := 42
          text := ['h', 'i'] } ∧
      gmtime 59960908800 = { gmtime 0 with tm_mon := 1, tm_year := 3870 - 1900 } ∧
      ¬RoundTrips utc 0 (some pwrd) 0 hello := by
  have hparse : (msgparse utc 0 hello_line).map (fun parsed => parsed.tv.tv_sec) = some 59960908800 := by decide +kernel
  refine ⟨by decide +kernel, by decide +kernel, ?_⟩
  rintro ⟨line, text, hline, _, hparsed⟩
  obtain rfl := Option.some.inj (msgwrite_hello.symm.trans hline)
  rw [hparsed] at hparse
  exact absurd (Option.some.inj hparse) (by decide : (0 : Int) ≠ 59960908800)

end pwrapi.log
