import Deps.Lib.Region

/-!
# `Logger::vlog`

The formatting of a log line in `sys/logger.cpp`, as the stores which it makes
behind the start of `buffer` and the bytes which it passes to `write`.  Offsets are
not bounded here, so that a store may lie outside of the buffer.
-/

namespace Deps
namespace Sys

open Region

/-- `Logger::LogLevel` -/
inductive LogLevel where
  | fatal
  | error
  | uerr
  | warn
  | info
  | debug
  | trace
  | all
  deriving DecidableEq, Repr

namespace LogLevel

def toNat : LogLevel → Nat
  | .fatal => 0
  | .error => 1
  | .uerr => 2
  | .warn => 3
  | .info => 4
  | .debug => 5
  | .trace => 6
  | .all => 7

/-- `m_levelStrs` -/
def levelStr : LogLevel → String
  | .fatal => "FATAL"
  | .error => "ERROR"
  | .uerr => "UERR"
  | .warn => "WARN"
  | .info => "INFO"
  | .debug => "DEBUG"
  | .trace => "TRACE"
  | .all => "ALL"

/-- What `"[%5s]"` makes of `m_levelStrs[level]`. -/
def tag (level : LogLevel) : List UInt8 :=
  ("[".toList ++ level.levelStr.toList.leftpad 5 ' ' ++ "]".toList).map Char.toUInt8

theorem length_tag (level : LogLevel) : level.tag.length = 7 := by
  cases level <;> decide

theorem nul_notMem_tag (level : LogLevel) : 0 ∉ level.tag := by
  cases level <;> decide

end LogLevel

/-- What `vsnprintf` stores in `size` bytes, and what it returns: the length of the
whole text. -/
def vsnprintf (size : Nat) (text : List UInt8) : List UInt8 × Nat :=
  (if size = 0 then [] else text.take (size - 1) ++ [0], text.length)

/-- The memory from `buffer` on, the offset of `p` in it, and the stores so far: where
and what. -/
structure LogBuffer where
  memory : List UInt8
  p : Nat
  stores : List (Nat × List UInt8)

namespace LogBuffer

/-- `sizeof(buffer)` -/
def limit : Nat := 4096

def newline : UInt8 := 10

/-- `char buffer[4096]; char *p = buffer;` -/
def start (buffer : List UInt8) : LogBuffer := ⟨buffer, 0, []⟩

def store (b : LogBuffer) (pos : Nat) (bytes : List UInt8) : LogBuffer :=
  { b with memory := write b.memory pos bytes, stores := b.stores ++ [(pos, bytes)] }

/-- `p += vsnprintf(p, limit - p, fmt, args)`, where the arguments make the text. -/
def print (b : LogBuffer) (text : List UInt8) : LogBuffer :=
  let printed := vsnprintf (limit - b.p) text
  { b.store b.p printed.1 with p := b.p + printed.2 }

/-- `p = std::min(p, limit - 2)` -/
def clamp (b : LogBuffer) : LogBuffer := { b with p := min b.p (limit - 2) }

/-- `*++p = c` -/
def push (b : LogBuffer) (c : UInt8) : LogBuffer := { b.store (b.p + 1) [c] with p := b.p + 1 }

/-- The bytes of `::write(fd, buffer, p - buffer)`. -/
def passed (b : LogBuffer) : List UInt8 := view b.memory b.p

/-- Every byte has been stored below `limit`. -/
def InBounds (b : LogBuffer) : Prop := ∀ s ∈ b.stores, ∀ i < s.2.length, s.1 + i < limit

end LogBuffer

open LogBuffer

/-- The stores of `vlog` into a buffer which holds anything. -/
def formatLine (level : LogLevel) (text buffer : List UInt8) : LogBuffer :=
  ((((LogBuffer.start buffer).print level.tag).print text).clamp.push newline).push 0

/-- The descriptor which `vlog` writes to, and the buffer when it does; nothing for a
level above `m_level`. -/
def vlog (mLevel : LogLevel) (mFd : Int) (level : LogLevel) (text buffer : List UInt8) :
    Option (Int × LogBuffer) :=
  if mLevel.toNat < level.toNat then none
  else some (if mFd = -1 then 1 else mFd, formatLine level text buffer)

/-- `logv` tests the level before it calls `vlog` of the logger. -/
def logv (mLevel : LogLevel) (mFd : Int) (level : LogLevel) (text buffer : List UInt8) :
    Option (Int × LogBuffer) :=
  if mLevel.toNat < level.toNat then none else vlog mLevel mFd level text buffer

theorem logv_eq_vlog (mLevel : LogLevel) (mFd : Int) (level : LogLevel)
    (text buffer : List UInt8) :
    logv mLevel mFd level text buffer = vlog mLevel mFd level text buffer := by
  unfold logv
  split
  · next habove => rw [vlog, if_pos habove]
  · rfl

/-- The tag and the text, which is cut only where the line would not fit, with one
newline behind them and no NUL. -/
def CleanLine (level : LogLevel) (text line : List UInt8) : Prop :=
  0 ∉ line ∧ ∃ k, line = level.tag ++ text.take k ++ [newline] ∧
    (k < text.length → limit < level.tag.length + text.length + 1)

/-! ## The offsets of the stores -/

variable {level : LogLevel} {text buffer : List UInt8}

/-- Where `p` stands after the clamp. -/
theorem p_formatLine : (formatLine level text buffer).p = min (7 + text.length) 4094 + 2 := by
  unfold formatLine
  simp [push, clamp, print, store, LogBuffer.start, vsnprintf, limit, level.length_tag]

theorem stores_formatLine : (formatLine level text buffer).stores =
    [(0, level.tag ++ [0]), (7, text.take 4088 ++ [0]),
      (min (7 + text.length) 4094 + 1, [newline]), (min (7 + text.length) 4094 + 2, [0])] := by
  have htag : level.tag.take 4095 = level.tag := by
    rw [List.take_of_length_le]
    rw [level.length_tag]
    omega
  unfold formatLine
  simp [push, clamp, print, store, LogBuffer.start, vsnprintf, limit, level.length_tag, htag]

/-- The NUL behind the newline is the store which may leave the buffer. -/
theorem inBounds_formatLine_iff : (formatLine level text buffer).InBounds ↔ text.length ≤ 4086 := by
  unfold InBounds
  rw [stores_formatLine]
  constructor
  · intro hin
    have hnul := hin (min (7 + text.length) 4094 + 2, [0]) (by simp) 0 (by simp)
    have hlimit : limit = 4096 := rfl
    omega
  · intro hlen s hs i hi
    have hlimit : limit = 4096 := rfl
    have htag := level.length_tag
    simp only [List.mem_cons, List.not_mem_nil, or_false] at hs
    rcases hs with rfl | rfl | rfl | rfl <;>
      simp only [List.length_append, List.length_cons, List.length_nil, List.length_take] at hi <;>
      omega

/-! ## The bytes of the line -/

/-- The memory behind the two prints. -/
def printed (level : LogLevel) (text buffer : List UInt8) : List UInt8 :=
  write (write buffer 0 (level.tag ++ [0])) 7 (text.take 4088 ++ [0])

theorem memory_formatLine : (formatLine level text buffer).memory =
    write (write (printed level text buffer) (min (7 + text.length) 4094 + 1) [newline])
      (min (7 + text.length) 4094 + 2) [0] := by
  have htag : level.tag.take 4095 = level.tag := by
    rw [List.take_of_length_le]
    rw [level.length_tag]
    omega
  unfold formatLine printed
  simp [push, clamp, print, store, LogBuffer.start, vsnprintf, limit, level.length_tag, htag]

theorem length_tagged (hbuffer : buffer.length = limit) :
    (write buffer 0 (level.tag ++ [0])).length = limit := by
  rw [length_write, hbuffer]
  rw [hbuffer, List.length_append, level.length_tag]
  decide

theorem length_printed (hbuffer : buffer.length = limit) :
    (printed level text buffer).length = limit := by
  have hlimit : limit = 4096 := rfl
  unfold printed
  rw [length_write, length_tagged hbuffer]
  rw [length_tagged hbuffer, List.length_append, List.length_take, List.length_singleton]
  omega

/-- The second print puts its text over the NUL of the first one. -/
theorem view_printed (hbuffer : buffer.length = limit) :
    view (printed level text buffer) (7 + (text.take 4088 ++ [0]).length) =
      level.tag ++ (text.take 4088 ++ [0]) := by
  have htagged : (write buffer 0 (level.tag ++ [0])).length = limit := length_tagged hbuffer
  have hlimit : limit = 4096 := rfl
  have hwhole : view (write buffer 0 (level.tag ++ [0])) (0 + (level.tag ++ [0]).length) =
      level.tag ++ [0] := view_write_end (Nat.zero_le _)
  have htag : view (write buffer 0 (level.tag ++ [0])) 7 = level.tag := by
    have hlen := level.length_tag
    have hle : 7 ≤ 0 + (level.tag ++ [0]).length := by
      rw [List.length_append, hlen]
      omega
    rw [view_view hle, hwhole, List.take_left' hlen]
  unfold printed
  rw [view_write_end (by omega), htag]

/-- Behind a text which has room for a NUL the NUL stays in the line. -/
theorem passed_formatLine (hbuffer : buffer.length = limit) :
    (formatLine level text buffer).passed =
      level.tag ++ text.take 4088 ++ (if text.length < 4088 then [0] else []) ++ [newline] := by
  have hlen : (printed level text buffer).length = limit := length_printed hbuffer
  have hlimit : limit = 4096 := rfl
  have hnewline : (formatLine level text buffer).passed =
      view (printed level text buffer) (min (7 + text.length) 4094 + 1) ++ [newline] := by
    have hwrite : (write (printed level text buffer) (min (7 + text.length) 4094 + 1)
        [newline]).length = limit := by
      rw [length_write, hlen]
      rw [hlen, List.length_singleton]
      omega
    rw [passed, memory_formatLine, p_formatLine, view_write_after le_rfl (by omega)]
    exact view_write_end (by omega)
  have hview : view (printed level text buffer) (7 + (text.take 4088 ++ [0]).length) =
      level.tag ++ (text.take 4088 ++ [0]) := view_printed hbuffer
  rw [hnewline, List.append_left_inj]
  split
  · next hroom =>
    have hsize : 7 + (text.take 4088 ++ [0]).length = min (7 + text.length) 4094 + 1 := by
      rw [List.length_append, List.length_take, List.length_singleton]
      omega
    rw [← hsize, hview, List.append_assoc]
  -- the newline is put over the NUL
  · next hfull =>
    have hcut : (text.take 4088).length = 4088 := by
      rw [List.length_take]
      omega
    have hsize : min (7 + text.length) 4094 + 1 = (level.tag ++ text.take 4088).length := by
      rw [List.length_append, level.length_tag, hcut]
      omega
    have hle : min (7 + text.length) 4094 + 1 ≤ 7 + (text.take 4088 ++ [0]).length := by
      rw [List.length_append, hcut]
      omega
    rw [view_view hle, hview, hsize, List.append_nil, ← List.append_assoc, List.take_left]

theorem cleanLine_passed_iff (htext : 0 ∉ text) (hbuffer : buffer.length = limit) :
    CleanLine level text (formatLine level text buffer).passed ↔ 4088 ≤ text.length := by
  have hlimit : limit = 4096 := rfl
  have htag := level.length_tag
  rw [passed_formatLine hbuffer]
  constructor
  · rintro ⟨hnul, -⟩
    by_contra hshort
    rw [if_pos (by omega)] at hnul
    simp at hnul
  · intro hlong
    rw [if_neg (by omega), List.append_nil]
    refine ⟨?_, 4088, rfl, by omega⟩
    have htake : 0 ∉ text.take 4088 := fun hmem => htext (List.mem_of_mem_take hmem)
    simp [level.nul_notMem_tag, htake, newline]

/-- **A log line is never both in its buffer and clean.**  A message of up to 4086
bytes stays in the buffer, and is passed on with a NUL; from 4088 bytes on the line is
clean, and a NUL is stored behind the buffer. -/
theorem vlog_inBounds_clean_iff {mLevel : LogLevel} (mFd : Int)
    (hlevel : level.toNat ≤ mLevel.toNat) (htext : 0 ∉ text) (hbuffer : buffer.length = limit) :
    ∃ fd line, vlog mLevel mFd level text buffer = some (fd, line) ∧
      (line.InBounds ↔ text.length ≤ 4086) ∧
      (CleanLine level text line.passed ↔ 4088 ≤ text.length) ∧
      ¬(line.InBounds ∧ CleanLine level text line.passed) := by
  have hin : (formatLine level text buffer).InBounds ↔ text.length ≤ 4086 :=
    inBounds_formatLine_iff
  have hclean : CleanLine level text (formatLine level text buffer).passed ↔
      4088 ≤ text.length := cleanLine_passed_iff htext hbuffer
  refine ⟨_, _, if_neg (by omega), hin, hclean, ?_⟩
  rw [hin, hclean]
  omega

/-- The theorem at a message of one byte. -/
theorem vlog_inBounds_clean_iff_byte :
    ∃ fd line, vlog .info (-1) .info [104] (List.replicate limit 0) = some (fd, line) ∧
      (line.InBounds ↔ 1 ≤ 4086) ∧ (CleanLine .info [104] line.passed ↔ 4088 ≤ 1) ∧
      ¬(line.InBounds ∧ CleanLine .info [104] line.passed) :=
  vlog_inBounds_clean_iff (-1) le_rfl (by decide) List.length_replicate

/-- The message of one byte reaches the file with a NUL behind it. -/
theorem vlog_passes_nul :
    ∃ text, 0 ∉ text ∧ ∀ buffer, buffer.length = limit →
      (formatLine .info text buffer).passed = LogLevel.tag .info ++ text ++ [0, newline] ∧
      ¬CleanLine .info text (formatLine .info text buffer).passed := by
  refine ⟨[104], by decide, fun buffer hbuffer => ?_⟩
  have hpassed : (formatLine .info [104] buffer).passed =
      LogLevel.tag .info ++ [104].take 4088 ++ (if [104].length < 4088 then [0] else []) ++
        [newline] := passed_formatLine hbuffer
  rw [if_pos (by decide)] at hpassed
  rw [hpassed]
  exact ⟨by simp, fun hclean => hclean.1 (by simp)⟩

end Sys
end Deps
