import OsStuff.Proc.PagemapRows

/-!
# `4_proc/main.c`: `write_stat`

The record of `/proc/<pid>/stat` is read into a buffer that is not initialised
and cut at its spaces.  `none` is a run that reads behind the buffer or behind
the table of names.
-/

namespace OsStuff
namespace Proc

open Library.Rows

def openParen : Byte := 0x28
def closeParen : Byte := 0x29

def names : List String :=
  ["pid", "comm", "state", "ppid", "pgrp", "session", "tty_nr", "tpgid", "flags",
    "minflt", "cminflt", "majflt", "cmajflt", "utime", "stime", "cutime", "cstime",
    "priority", "nice", "num_threads", "itrealvalue", "starttime", "vsize", "rss",
    "rsslim", "startcode", "endcode", "startstack", "kstkesp", "kstkeip", "signal",
    "blocked", "sigignore", "sigcatch", "wchan", "nswap", "сnswap", "exit_signal",
    "processor", "rt_priority", "policy", "delayacct_blkio_ticks", "guest_time",
    "cguest_time", "start_data", "end_data", "start_brk", "arg_start", "arg_end",
    "env_start", "env_end", "exit_code"]

/-- A line that `write_stat` prints. -/
structure StatLine where
  name : String
  value : List Byte
  deriving DecidableEq, Repr

/-- `fread` into a buffer that holds `buf`. -/
def fread (content buf : List Byte) : List Byte :=
  content.take buf.length ++ buf.drop content.length

/-- The loop over the tokens: `pch` is the token, `saved` what `strtok` keeps. -/
def statLoop : Nat → Nat → Option (List Byte) × List Byte → List StatLine →
    Option (List StatLine)
  | 0, _, _, _ => none
  | fuel + 1, i, (pch, saved), out =>
      match pch with
      | none => some out
      | some token =>
          match names[i]? with
          | none => none
          | some name =>
              statLoop fuel (i + 1) (strtok none space saved) (out ++ [⟨name, token⟩])

/-- `write_stat`, for the content of the file and of the new buffer. -/
def writeStat (content buf : List Byte) : Option (List StatLine) :=
  let buf := fread content buf
  -- The string in the buffer ends at its first zero.
  if 0 ∈ buf then
    statLoop (buf.length + 1) 0 (strtok (some (buf.takeWhile (· != 0))) space []) []
  else none

/-- A record of 52 fields.  The second one is the name of the process in
parentheses, which may hold any bytes but zero. -/
structure StatRecord where
  pid : List Byte
  comm : List Byte
  others : List (List Byte)
  count : others.length = 50
  plain : ∀ field ∈ pid :: others, field ≠ [] ∧ ∀ byte ∈ field, byte ≠ space ∧ byte ≠ 0
  text : 0 ∉ comm

namespace StatRecord

def fields (record : StatRecord) : List (List Byte) :=
  record.pid :: (openParen :: record.comm ++ [closeParen]) :: record.others

/-- The record in the file. -/
def bytes (record : StatRecord) : List Byte :=
  [space].intercalate record.fields

/-- Every field is printed with its own name. -/
def FieldsNamed (record : StatRecord) (buf : List Byte) : Prop :=
  writeStat record.bytes buf = some (List.zipWith StatLine.mk names record.fields)

end StatRecord

/-! ## The loop -/

theorem names_length : names.length = 52 := rfl

/-- The loop prints the tokens of the string one after another, as long as there
are names. -/
theorem statLoop_eq {fuel i : Nat} {str : List Byte} {out : List StatLine}
    (hi : i ≤ names.length) (hfuel : str.length < fuel) :
    statLoop fuel i (strtok none space str) out =
      if i + (pieces (· == space) [] str).length ≤ names.length then
        some (out ++
          List.zipWith StatLine.mk (names.drop i) (pieces (· == space) [] str))
      else none := by
  induction fuel generalizing i str out with
  | zero => exact absurd hfuel (by omega)
  | succ fuel ih =>
      cases htoken : strtokR str space with
      | none =>
          have hnext : strtok none space str = (none, []) := by simp [strtok, htoken]
          rw [hnext, pieces_of_strtokR_none htoken]
          simp [statLoop, hi]
      | some next =>
          obtain ⟨token, rest⟩ := next
          have hnext : strtok none space str = (some token, rest) := by
            simp [strtok, htoken]
          obtain ⟨hpieces, hshort⟩ := strtokR_some htoken
          rw [hnext, hpieces, statLoop]
          by_cases hlt : i < names.length
          · -- The token gets the next name.
            rw [List.getElem?_eq_getElem hlt]
            simp only
            rw [ih hlt (by omega), List.drop_eq_getElem_cons hlt]
            simp only [List.length_cons, List.zipWith_cons_cons, List.append_assoc,
              List.singleton_append]
            congr 1
            exact propext (by omega)
          · rw [List.getElem?_eq_none (by omega), if_neg (by
              rw [List.length_cons]
              omega)]

/-- `write_stat` pairs the tokens of the string in the buffer with the names. -/
theorem writeStat_eq (content buf : List Byte) :
    writeStat content buf =
      if 0 ∈ fread content buf ∧
        (pieces (· == space) [] ((fread content buf).takeWhile (· != 0))).length ≤
          names.length then
        some (List.zipWith StatLine.mk names
          (pieces (· == space) [] ((fread content buf).takeWhile (· != 0))))
      else none := by
  have hlength : ((fread content buf).takeWhile (· != 0)).length <
      (fread content buf).length + 1 := by
    have hle := (List.takeWhile_prefix (· != 0) (l := fread content buf)).length_le
    omega
  have hloop := @statLoop_eq _ _ _ [] (Nat.zero_le _) hlength
  simp only [Nat.zero_add, List.drop_zero, List.nil_append] at hloop
  simp only [writeStat]
  by_cases hzero : 0 ∈ fread content buf
  · rw [if_pos hzero]
    simp only [hzero, true_and]
    exact hloop
  · rw [if_neg hzero, if_neg (fun h => hzero h.1)]

theorem map_value {table : List String} {values : List (List Byte)}
    (hlength : values.length ≤ table.length) :
    (List.zipWith StatLine.mk table values).map StatLine.value = values := by
  induction values generalizing table with
  | nil => simp
  | cons value values ih =>
      cases table with
      | nil => exact absurd hlength (by simp)
      | cons name table =>
          rw [List.zipWith_cons_cons, List.map_cons, ih (by simpa using hlength)]

/-- A string ends at the first zero. -/
theorem exists_zero {buf : List Byte} (hzero : 0 ∈ buf) :
    ∃ rest, buf = buf.takeWhile (· != 0) ++ 0 :: rest := by
  induction buf with
  | nil => exact absurd hzero (by simp)
  | cons byte buf ih =>
      by_cases hbyte : byte = 0
      · subst hbyte
        exact ⟨buf, by simp⟩
      · obtain ⟨rest, hrest⟩ := ih ((List.mem_cons.mp hzero).resolve_left (Ne.symm hbyte))
        refine ⟨rest, ?_⟩
        rw [List.takeWhile_cons_of_pos (by simpa using hbyte), List.cons_append, ← hrest]

namespace StatRecord

variable {record : StatRecord} {buf : List Byte}

theorem length_fields (record : StatRecord) : record.fields.length = names.length := by
  rw [names_length, fields, List.length_cons, List.length_cons, record.count]

theorem field_ne_nil {field : List Byte} (hfield : field ∈ record.fields) :
    field ≠ [] := by
  simp only [fields, List.mem_cons] at hfield
  rcases hfield with rfl | rfl | hfield
  · exact (record.plain _ List.mem_cons_self).1
  · simp
  · exact (record.plain _ (List.mem_cons_of_mem _ hfield)).1

theorem zero_not_mem {field : List Byte} (hfield : field ∈ record.fields) :
    0 ∉ field := by
  simp only [fields, List.mem_cons] at hfield
  rcases hfield with rfl | rfl | hfield
  · exact fun hmem => ((record.plain _ List.mem_cons_self).2 0 hmem).2 rfl
  · intro hmem
    simp only [List.cons_append, List.mem_cons, List.mem_append, List.not_mem_nil,
      or_false] at hmem
    rcases hmem with hmem | hmem | hmem
    · exact absurd hmem (by decide)
    · exact record.text hmem
    · exact absurd hmem (by decide)
  · exact fun hmem => ((record.plain _ (List.mem_cons_of_mem _ hfield)).2 0 hmem).2 rfl

theorem zero_not_mem_bytes (record : StatRecord) : 0 ∉ record.bytes := by
  have hjoin : ∀ fields : List (List Byte), (∀ field ∈ fields, 0 ∉ field) →
      0 ∉ [space].intercalate fields := by
    intro fields
    induction fields with
    | nil => simp
    | cons field fields ih =>
        intro hfields
        have hrest := ih fun f hf => hfields f (List.mem_cons_of_mem _ hf)
        have hfirst := hfields field List.mem_cons_self
        cases fields with
        | nil => simpa using hfirst
        | cons next fields =>
            rw [List.intercalate_cons_cons]
            simp only [List.mem_append, List.mem_singleton, not_or]
            exact ⟨⟨hfirst, by decide⟩, hrest⟩
  exact hjoin _ fun field hfield => zero_not_mem hfield

/-- The string in the buffer: the record and what the buffer held behind it. -/
theorem takeWhile_fread (hlength : record.bytes.length < buf.length) :
    (fread record.bytes buf).takeWhile (· != 0) =
      record.bytes ++ (buf.drop record.bytes.length).takeWhile (· != 0) := by
  rw [fread, List.take_of_length_le (by omega)]
  apply List.takeWhile_append_of_pos
  intro byte hbyte
  have hne : byte ≠ 0 := by
    rintro rfl
    exact record.zero_not_mem_bytes hbyte
  simpa using hne

/-- Behind the record there are only spaces before a zero. -/
def BlankBehind (record : StatRecord) (buf : List Byte) : Prop :=
  ∃ blanks rest, buf.drop record.bytes.length = blanks ++ 0 :: rest ∧
    ∀ byte ∈ blanks, byte = space

/-- A record without a space in the name is cut into its fields. -/
theorem pieces_bytes (hcomm : space ∉ record.comm) {blanks : List Byte}
    (hblanks : ∀ byte ∈ blanks, byte = space) :
    pieces (· == space) [] (record.bytes ++ blanks) = record.fields := by
  refine pieces_intercalate (by decide) ?_ fun byte hbyte => by simp [hblanks byte hbyte]
  intro field hfield
  refine ⟨field_ne_nil hfield, fun byte hbyte => ?_⟩
  have hne : byte ≠ space := by
    rintro rfl
    simp only [fields, List.mem_cons] at hfield
    rcases hfield with rfl | rfl | hfield
    · exact ((record.plain _ List.mem_cons_self).2 _ hbyte).1 rfl
    · simp only [List.cons_append, List.mem_cons, List.mem_append, List.not_mem_nil,
        or_false] at hbyte
      rcases hbyte with hbyte | hbyte | hbyte
      · exact absurd hbyte (by decide)
      · exact hcomm hbyte
      · exact absurd hbyte (by decide)
    · exact ((record.plain _ (List.mem_cons_of_mem _ hfield)).2 _ hbyte).1 rfl
  simpa using hne

/-- Every field gets its name exactly when the name of the process has no space
and the buffer happens to hold the end of the string. -/
theorem fieldsNamed_iff (hlength : record.bytes.length < buf.length) :
    record.FieldsNamed buf ↔ space ∉ record.comm ∧ record.BlankBehind buf := by
  unfold FieldsNamed
  rw [writeStat_eq, takeWhile_fread hlength]
  constructor
  · intro hnamed
    split at hnamed
    · rename_i hcond
      obtain ⟨hzero, hcount⟩ := hcond
      have htokens := congrArg (List.map StatLine.value) (Option.some.inj hnamed)
      rw [map_value hcount, map_value (length_fields record).le] at htokens
      have hcomm : space ∉ record.comm := by
        intro hmem
        have hfield : openParen :: record.comm ++ [closeParen] ∈ record.fields :=
          List.mem_cons_of_mem _ List.mem_cons_self
        rw [← htokens] at hfield
        have hkeep := keep_of_mem_pieces (by simp) hfield space (by simp [hmem])
        exact absurd hkeep (by decide)
      -- The fields are all that is no space in the record, so the rest is blank.
      have hall := congrArg List.flatten htokens
      have hrecord := congrArg List.flatten
        (pieces_bytes hcomm (List.forall_mem_nil (· = space)))
      rw [flatten_pieces, List.nil_append] at hall hrecord
      rw [List.append_nil] at hrecord
      rw [List.filter_append, hrecord, List.append_right_eq_self,
        List.filter_eq_nil_iff] at hall
      obtain ⟨rest, hbehind⟩ := exists_zero (by
        rw [fread, List.take_of_length_le (by omega), List.mem_append] at hzero
        exact hzero.resolve_left record.zero_not_mem_bytes)
      refine ⟨hcomm, _, rest, hbehind, fun byte hbyte => ?_⟩
      simpa using hall byte hbyte
    · exact absurd hnamed (by simp)
  · rintro ⟨hcomm, blanks, rest, hbehind, hblanks⟩
    have hend : (buf.drop record.bytes.length).takeWhile (· != 0) = blanks := by
      rw [hbehind, List.takeWhile_append_of_pos]
      · simp
      · intro byte hbyte
        rw [hblanks byte hbyte]
        decide
    have hzero : 0 ∈ fread record.bytes buf := by
      rw [fread, hbehind]
      simp
    rw [hend, pieces_bytes hcomm hblanks, if_pos ⟨hzero, (length_fields record).le⟩]

/-- A record whose fields are all the digit zero, but for the name. -/
def sample (comm : List Byte) (htext : 0 ∉ comm) : StatRecord where
  pid := [0x30]
  comm := comm
  others := List.replicate 50 [0x30]
  count := List.length_replicate
  plain := by
    intro field hfield
    have hzero : field = [0x30] := by
      rcases List.mem_cons.mp hfield with rfl | hfield
      · rfl
      · exact List.eq_of_mem_replicate hfield
    subst hzero
    exact ⟨by simp, fun byte hbyte => by rw [List.mem_singleton.mp hbyte]; decide⟩
  text := htext

theorem length_sample : (sample [0x61] (by decide)).bytes.length < 111 ∧
    (sample [0x61, 0x20, 0x62] (by decide)).bytes.length < 111 := by
  decide

theorem fieldsNamed_sample :
    (sample [0x61] (by decide)).FieldsNamed (List.replicate 512 0) ↔
      space ∉ (sample [0x61] (by decide)).comm ∧
        (sample [0x61] (by decide)).BlankBehind (List.replicate 512 0) :=
  fieldsNamed_iff (by
    rw [List.length_replicate]
    exact length_sample.1.trans (by decide))

/-- A space in the name of the process shifts every later field, and leaves one
without a name. -/
theorem space_in_name_shifts : ¬ ∀ (record : StatRecord) (buf : List Byte),
    buf.length = bufSize → record.bytes.length ≤ 511 → record.FieldsNamed buf := by
  intro hall
  have hnamed := hall (sample [0x61, 0x20, 0x62] (by decide)) (List.replicate bufSize 0)
    List.length_replicate (length_sample.2.le.trans (by decide))
  rw [fieldsNamed_iff (by
    rw [List.length_replicate]
    exact length_sample.2.trans (by decide))] at hnamed
  exact hnamed.1 (by decide)

end StatRecord
end Proc
end OsStuff
